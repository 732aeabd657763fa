import Mathlib

/-! The concrete syntax of SMT-LIB: tokens, s-expressions, and a reader for both. -/

namespace SmtLib

/-- An s-expression: a symbol or numeral, a string literal by its contents, or a list. -/
inductive SExp where
  | atom (a : List Char)
  | str (s : List Char)
  | list (es : List SExp)

inductive Token where
  | opening
  | closing
  | atom (a : List Char)
  | str (s : List Char)
  deriving DecidableEq

mutual

def SExp.tokens : SExp → List Token
  | .atom a => [.atom a]
  | .str s => [.str s]
  | .list es => .opening :: (tokensOf es ++ [.closing])

def tokensOf : List SExp → List Token
  | [] => []
  | e :: es => e.tokens ++ tokensOf es

end

/-! ## The lexer -/

def isBlank (c : Char) : Bool := c = ' ' || c = '\n' || c = '\t' || c = '\r'

/-- The characters that end a symbol. -/
def isBreak (c : Char) : Bool := isBlank c || c = '(' || c = ')' || c = '"' || c = ';'

/-- Where the lexer stands: between two tokens, or inside one with what it has read of it. -/
inductive Mode where
  | between
  | atom (a : List Char)
  | bar (a : List Char)
  | str (s : List Char)
  | quote (s : List Char)
  | comment

def begin (c : Char) : List Token × Mode :=
  if isBlank c then ([], .between)
  else if c = '(' then ([.opening], .between)
  else if c = ')' then ([.closing], .between)
  else if c = '"' then ([], .str [])
  else if c = ';' then ([], .comment)
  else if c = '|' then ([], .bar [c])
  else ([], .atom [c])

def next (ended : Token) (c : Char) : List Token × Mode := (ended :: (begin c).1, (begin c).2)

def step : Mode → Char → List Token × Mode
  | .between, c => begin c
  | .atom a, c => if isBreak c then next (.atom a) c else ([], .atom (a ++ [c]))
  | .bar a, c => if c = '|' then ([.atom (a ++ [c])], .between) else ([], .bar (a ++ [c]))
  | .str s, c => if c = '"' then ([], .quote s) else ([], .str (s ++ [c]))
  -- a doubled quotation mark stands for one
  | .quote s, c => if c = '"' then ([], .str (s ++ [c])) else next (.str s) c
  | .comment, c => if c = '\n' then ([], .between) else ([], .comment)

/-- None for a literal or a quoted symbol that is not closed. -/
def finish : Mode → Option (List Token)
  | .between => some []
  | .atom a => some [.atom a]
  | .bar _ => none
  | .str _ => none
  | .quote s => some [.str s]
  | .comment => some []

def lexFrom : Mode → List Char → Option (List Token)
  | m, [] => finish m
  | m, c :: s => (lexFrom (step m c).2 s).map ((step m c).1 ++ ·)

def lex (s : List Char) : Option (List Token) := lexFrom .between s

/-! ## The parser -/

/-- Reads tokens into the lists that are open, the innermost one first; each has its elements
in reverse. -/
def parseFrom : List SExp → List (List SExp) → List Token → Option (List SExp)
  | es, [], [] => some es.reverse
  | _, _ :: _, [] => none
  | es, stack, .opening :: ts => parseFrom [] (es :: stack) ts
  | _, [], .closing :: _ => none
  | es, up :: stack, .closing :: ts => parseFrom (.list es.reverse :: up) stack ts
  | es, stack, .atom a :: ts => parseFrom (.atom a :: es) stack ts
  | es, stack, .str s :: ts => parseFrom (.str s :: es) stack ts

def parse (ts : List Token) : Option (List SExp) := parseFrom [] [] ts

/-- The s-expressions of a text. -/
def read (s : List Char) : Option (List SExp) := (lex s).bind parse

theorem tokensOf_append (es fs : List SExp) : tokensOf (es ++ fs) = tokensOf es ++ tokensOf fs := by
  induction es with
  | nil => rfl
  | cons e es ih => simp only [List.cons_append, tokensOf, ih, List.append_assoc]

theorem SExp.induct {motive : SExp → Prop} (atom : ∀ a, motive (.atom a))
    (str : ∀ s, motive (.str s)) (list : ∀ es, (∀ e ∈ es, motive e) → motive (.list es))
    (e : SExp) : motive e := by
  apply @SExp.rec motive (fun es => ∀ e ∈ es, motive e) atom str list
  · simp
  · intro e es he hes
    exact List.forall_mem_cons.mpr ⟨he, hes⟩

theorem parseFrom_tokensOf {es : List SExp}
    (h : ∀ e ∈ es, ∀ done stack ts, parseFrom done stack (e.tokens ++ ts) =
      parseFrom (e :: done) stack ts) (done : List SExp) (stack : List (List SExp))
    (ts : List Token) :
    parseFrom done stack (tokensOf es ++ ts) = parseFrom (es.reverse ++ done) stack ts := by
  induction es generalizing done with
  | nil => rfl
  | cons e es ih =>
    obtain ⟨he, hes⟩ := List.forall_mem_cons.mp h
    rw [tokensOf, List.append_assoc, he, ih hes, List.reverse_cons, List.append_assoc,
      List.singleton_append]

/-- The tokens of an s-expression are parsed as one more element of the list that is open. -/
theorem parseFrom_tokens (e : SExp) (done : List SExp) (stack : List (List SExp))
    (ts : List Token) :
    parseFrom done stack (e.tokens ++ ts) = parseFrom (e :: done) stack ts := by
  induction e using SExp.induct generalizing done stack ts with
  | atom a => cases stack <;> rfl
  | str s => cases stack <;> rfl
  | list es ih =>
    have hopen : parseFrom done stack (.opening :: (tokensOf es ++ [.closing] ++ ts)) =
        parseFrom [] (done :: stack) (tokensOf es ++ [.closing] ++ ts) := by
      cases stack <;> rfl
    rw [SExp.tokens, List.cons_append, hopen, List.append_assoc, parseFrom_tokensOf ih,
      List.append_nil, List.singleton_append, parseFrom, List.reverse_reverse]

theorem parse_tokensOf (es : List SExp) : parse (tokensOf es) = some es := by
  have h := @parseFrom_tokensOf es (fun e _ => parseFrom_tokens e) [] [] []
  rw [List.append_nil] at h
  rw [parse, h, List.append_nil, parseFrom, List.reverse_reverse]

theorem tokensOf_injective : Function.Injective tokensOf := by
  intro es fs h
  have hes := parse_tokensOf es
  rw [h, parse_tokensOf] at hes
  exact (Option.some.inj hes).symm

/-! ## Texts of s-expressions -/

/-- The characters after which a new token begins. -/
def Separates (c : Char) : Prop := isBlank c ∨ c = '(' ∨ c = ')'

/-- The text is read as the s-expressions wherever it is separated from what follows. -/
def Spells (s : List Char) (es : List SExp) : Prop :=
  ∀ c rest, Separates c → lex (s ++ c :: rest) = (lex (c :: rest)).map (tokensOf es ++ ·)

/-- The text is read as the s-expressions whatever follows. -/
def Writes (s : List Char) (es : List SExp) : Prop :=
  ∀ rest, lex (s ++ rest) = (lex rest).map (tokensOf es ++ ·)

/-- The contents of a string literal, with every quotation mark doubled. -/
def double : List Char → List Char
  | [] => []
  | c :: s => if c = '"' then c :: c :: double s else c :: double s

/-- Text that is read as one symbol. -/
def isSymbol (a : List Char) : Bool := !a.isEmpty && a.all fun c => !isBreak c && c != '|'

variable {s t a : List Char} {es fs : List SExp} {b : Char}

theorem isSymbol_iff : isSymbol a ↔ a ≠ [] ∧ ∀ c ∈ a, isBreak c = false ∧ c ≠ '|' := by
  simp [isSymbol]

theorem map_map_append {o : Option (List Token)} (ts us : List Token) :
    (o.map (us ++ ·)).map (ts ++ ·) = o.map (ts ++ us ++ ·) := by
  cases o <;> simp

theorem map_nil_append {o : Option (List Token)} : o.map ([] ++ ·) = o := by
  cases o <;> simp

theorem lex_nil : lex [] = some [] := rfl

theorem lex_blank (hb : isBlank b) : lex (b :: s) = lex s := by
  simp only [lex, lexFrom, step, begin, hb, if_true]
  exact map_nil_append

theorem lex_opening : lex ('(' :: s) = (lex s).map (.opening :: ·) := rfl

theorem lex_closing : lex (')' :: s) = (lex s).map (.closing :: ·) := rfl

theorem Separates.begin_eq {c : Char} (hc : Separates c) : (begin c).2 = .between := by
  obtain h | rfl | rfl := hc
  · simp only [begin, h, if_true]
  · rfl
  · rfl

theorem Separates.isBreak {c : Char} (hc : Separates c) : isBreak c = true := by
  obtain h | rfl | rfl := hc
  · simp only [SmtLib.isBreak, h, Bool.true_or]
  · rfl
  · rfl

theorem Separates.ne_quote {c : Char} (hc : Separates c) : c ≠ '"' := by
  intro h
  subst h
  revert hc
  simp [Separates, isBlank]

theorem lexFrom_next {ended : Token} {m : Mode} {c : Char} (hc : Separates c)
    (h : step m c = next ended c) :
    lexFrom m (c :: s) = (lex (c :: s)).map (ended :: ·) := by
  rw [lexFrom, h]
  simp only [lex, lexFrom, step, next, hc.begin_eq, Option.map_map]
  rfl

theorem spells_nil : Spells [] [] := by
  intro c rest hc
  exact map_nil_append.symm

theorem Spells.blank (hs : Spells s es) (hb : isBlank b) : Spells (b :: s) es := by
  intro c rest hc
  rw [List.cons_append, lex_blank hb, hs c rest hc]

theorem Spells.join (hs : Spells s es) (hb : isBlank b) (ht : Spells t fs) :
    Spells (s ++ b :: t) (es ++ fs) := by
  intro c rest hc
  rw [List.append_assoc, List.cons_append, hs b _ (.inl hb), lex_blank hb, ht c rest hc,
    map_map_append, tokensOf_append]

theorem Spells.paren (hs : Spells s es) : Spells ('(' :: (s ++ [')'])) [.list es] := by
  intro c rest hc
  rw [List.cons_append, List.append_assoc, List.singleton_append, lex_opening,
    hs ')' _ (.inr (.inr rfl)), lex_closing]
  simp only [Option.map_map, tokensOf, SExp.tokens]
  congr 1
  funext ts
  simp

theorem lexFrom_atom (h : ∀ c ∈ a, isBreak c = false) (done rest : List Char) :
    lexFrom (.atom done) (a ++ rest) = lexFrom (.atom (done ++ a)) rest := by
  induction a generalizing done with
  | nil => simp
  | cons c a ih =>
    obtain ⟨hc, ha⟩ := List.forall_mem_cons.mp h
    rw [List.cons_append, lexFrom]
    simp only [step, hc, Bool.false_eq_true, if_false, ih ha]
    rw [map_nil_append, List.append_assoc, List.singleton_append]

theorem begin_symbol {c : Char} (hc : isBreak c = false) (hbar : c ≠ '|') :
    begin c = ([], .atom [c]) := by
  simp only [isBreak, Bool.or_eq_false_iff, decide_eq_false_iff_not] at hc
  obtain ⟨⟨⟨⟨hblank, hopen⟩, hclose⟩, hquote⟩, hsemi⟩ := hc
  simp [begin, hblank, hopen, hclose, hquote, hsemi, hbar]

theorem spells_atom (ha : isSymbol a) : Spells a [.atom a] := by
  intro c rest hc
  obtain ⟨hne, hchars⟩ := isSymbol_iff.mp ha
  cases a with
  | nil => exact absurd rfl hne
  | cons x a =>
    obtain ⟨hx, ha⟩ := List.forall_mem_cons.mp hchars
    have hatom : lex (x :: a ++ c :: rest) = lexFrom (.atom (x :: a)) (c :: rest) := by
      rw [List.cons_append, lex, lexFrom, step, begin_symbol hx.1 hx.2,
        lexFrom_atom (fun y hy => (ha y hy).1), map_nil_append]
      rfl
    have hstep : step (.atom (x :: a)) c = next (.atom (x :: a)) c := by
      simp only [step, hc.isBreak, if_true]
    rw [hatom, lexFrom_next hc hstep]
    rfl

theorem lexFrom_str (s done rest : List Char) :
    lexFrom (.str done) (double s ++ rest) = lexFrom (.str (done ++ s)) rest := by
  induction s generalizing done with
  | nil => simp [double]
  | cons x s ih =>
    rw [double]
    split
    next hx =>
      subst hx
      simp only [List.cons_append, lexFrom, step, if_true, ih, map_nil_append]
      rw [List.append_assoc, List.singleton_append]
    next hx =>
      simp only [List.cons_append, lexFrom, step, hx, if_false, ih, map_nil_append]
      rw [List.append_assoc, List.singleton_append]

theorem spells_str (s : List Char) : Spells ('"' :: (double s ++ ['"'])) [.str s] := by
  intro c rest hc
  have hopen : lex ('"' :: (double s ++ ['"']) ++ c :: rest) =
      lexFrom (.str []) (double s ++ '"' :: c :: rest) := by
    rw [List.cons_append, List.append_assoc, List.singleton_append]
    exact map_nil_append
  have hclose : lexFrom (.str s) ('"' :: c :: rest) = lexFrom (.quote s) (c :: rest) :=
    map_nil_append
  have hstep : step (.quote s) c = next (.str s) c := by
    simp only [step, hc.ne_quote, if_false]
  rw [hopen, lexFrom_str, List.nil_append, hclose, lexFrom_next hc hstep]
  rfl

theorem Spells.blanks {sep : List Char} (hsep : ∀ c ∈ sep, isBlank c) (hs : Spells s es) :
    Spells (sep ++ s) es := by
  induction sep with
  | nil => exact hs
  | cons c sep ih =>
    obtain ⟨hc, hsep⟩ := List.forall_mem_cons.mp hsep
    exact (ih hsep).blank hc

/-- Blanks between any two of the texts. -/
theorem spells_intercalate {sep : List Char} {words : List (List Char)}
    (hsep : ∀ c ∈ b :: sep, isBlank c) (h : List.Forall₂ (fun w e => Spells w [e]) words es) :
    Spells (List.intercalate (b :: sep) words) es := by
  induction h with
  | nil => exact spells_nil
  | @cons w e words es hw hwords ih =>
    cases hwords with
    | nil => simpa using hw
    | @cons v f words es hv hwords =>
      obtain ⟨hb, hsep⟩ := List.forall_mem_cons.mp hsep
      have h := hw.join hb (ih.blanks hsep)
      simpa [List.intercalate_cons_cons] using h

/-- A text is read in one way only. -/
theorem Spells.unique (hs : Spells s es) (hs' : Spells s fs) : es = fs := by
  have hblank : Separates ' ' := .inl rfl
  have htokens := hs ' ' [] hblank
  have hother := hs' ' ' [] hblank
  rw [hother, lex_blank rfl, lex_nil] at htokens
  simp only [Option.map_some, Option.some.injEq, List.append_nil] at htokens
  exact (tokensOf_injective htokens).symm

theorem Spells.line (hs : Spells s es) : Writes (s ++ ['\n']) es := by
  intro rest
  rw [List.append_assoc, List.singleton_append, hs '\n' rest (.inl rfl), lex_blank rfl]

theorem writes_nil : Writes [] [] := by
  intro rest
  exact map_nil_append.symm

theorem Writes.append (hs : Writes s es) (ht : Writes t fs) : Writes (s ++ t) (es ++ fs) := by
  intro rest
  rw [List.append_assoc, hs, ht, map_map_append, tokensOf_append]

theorem lexFrom_comment (h : '\n' ∉ s) (rest : List Char) :
    lexFrom .comment (s ++ '\n' :: rest) = lex rest := by
  induction s with
  | nil => exact map_nil_append
  | cons c s ih =>
    obtain ⟨hc, hs⟩ := List.ne_and_not_mem_of_not_mem_cons h
    simp only [List.cons_append, lexFrom, step, hc.symm, if_false, ih hs, map_nil_append]

theorem writes_comment (h : '\n' ∉ s) : Writes (';' :: (s ++ ['\n'])) [] := by
  intro rest
  have hopen : lex (';' :: (s ++ ['\n']) ++ rest) = lexFrom .comment (s ++ '\n' :: rest) := by
    rw [List.cons_append, List.append_assoc, List.singleton_append]
    exact map_nil_append
  rw [hopen, lexFrom_comment h]
  exact map_nil_append.symm

/-- The whole of a written text is read back. -/
theorem Writes.read (hs : Writes s es) : read s = some es := by
  have h := hs []
  rw [List.append_nil, lex_nil, Option.map_some, List.append_nil] at h
  rw [SmtLib.read, h]
  exact parse_tokensOf es

end SmtLib
