import CedarSpec.SmtLib
import CedarSpec.Text

/-! Sorts, values and theories of SMT-LIB: the Booleans, bit vectors, strings with regular
expressions, finite sets, and the values of datatypes. -/

namespace SmtLib

/-- A sort. The parameter stands for the argument of a datatype inside its own declaration. -/
inductive Srt where
  | bool
  | string
  | bitvec (n : ℕ)
  | set (s : Srt)
  | data (name : List Char)
  | dataOf (name : List Char) (s : Srt)
  | param
  deriving DecidableEq

/-- The sort with the parameter replaced. -/
def Srt.inst : Srt → Srt → Srt
  | .set s, arg => .set (s.inst arg)
  | .dataOf name s, arg => .dataOf name (s.inst arg)
  | .param, arg => arg
  | s, _ => s

/-- What the parameter has to be, so that the first sort becomes the second. -/
def Srt.arg? : Srt → Srt → Option Srt
  | .set s, .set t => s.arg? t
  | .dataOf _ s, .dataOf _ t => s.arg? t
  | .param, t => some t
  | _, _ => none

/-- The characters of strings are the code points up to `2FFFF`. -/
abbrev StrChar := Fin 196608

instance neZero_codePoints : NeZero 196608 := ⟨by decide⟩

/-- A value. That of a datatype is given by the place of its constructor in the declaration,
and a set by its elements in one fixed order. -/
inductive Value where
  | bool (b : Bool)
  | bitvec (n : ℕ) (x : BitVec n)
  | str (s : List StrChar)
  | set (elems : List Value)
  | con (k : ℕ) (args : List Value)

abbrev TypedValue := Srt × Value

namespace Value

noncomputable instance : DecidableEq Value := Classical.decEq Value

def isTrue : Value → Bool
  | bool b => b
  | _ => false

def bits (n : ℕ) : Value → BitVec n
  | bitvec m x => if h : m = n then x.cast h else 0
  | _ => 0

def text : Value → List StrChar
  | str s => s
  | _ => []

noncomputable def elems : Value → Finset Value
  | set l => l.toFinset
  | _ => ∅

def tag : Value → ℕ
  | con k _ => k
  | _ => 0

def args : Value → List Value
  | con _ l => l
  | _ => []

/-- An argument of one constructor, and another value where the constructor is not that one. -/
def project (v : Value) (k j : ℕ) (other : Value) : Value :=
  if v.tag = k then v.args[j]?.getD other else other

noncomputable def ofFinset (s : Finset Value) : Value := set s.toList

@[simp] theorem bits_bitvec {n : ℕ} (x : BitVec n) : (bitvec n x).bits n = x := by
  simp [bits]

@[simp] theorem elems_ofFinset (s : Finset Value) : (ofFinset s).elems = s :=
  Finset.toList_toFinset s

theorem ofFinset_empty : ofFinset ∅ = set [] := by
  rw [ofFinset, Finset.toList_empty]

end Value

/-! ## Literals -/

/-- A numeral in the decimal system. -/
def numeral? (s : List Char) : Option ℕ :=
  if s ≠ [] ∧ s.all Char.isDigit then some (Nat.ofDigitChars 10 s 0) else none

theorem numeral?_toDigits (n : ℕ) : numeral? (Nat.toDigits 10 n) = some n := by
  have hdigits : (Nat.toDigits 10 n).all Char.isDigit := by
    rw [List.all_eq_true]
    intro c hc
    exact Text.isDigit_toDigits hc
  rw [numeral?, if_pos ⟨Nat.toDigits_ne_nil, hdigits⟩, Nat.ofDigitChars_ten_toDigits]

def hexDigit? (c : Char) : Option ℕ :=
  if c.isDigit then some (c.toNat - '0'.toNat)
  else if 'a' ≤ c ∧ c ≤ 'f' then some (c.toNat - 'a'.toNat + 10)
  else if 'A' ≤ c ∧ c ≤ 'F' then some (c.toNat - 'A'.toNat + 10)
  else none

def isHex (c : Char) : Bool := (hexDigit? c).isSome

def hexValue (s : List Char) : ℕ := s.foldl (fun n c => n * 16 + (hexDigit? c).getD 0) 0

/-- The code point of an escape sequence at the start of the text, and the number of characters
that follow the first one in it. -/
def escapeAt : List Char → Option (ℕ × ℕ)
  | '\\' :: 'u' :: '\x7b' :: s =>
    let digits := s.takeWhile isHex
    if 1 ≤ digits.length ∧ digits.length ≤ 5 ∧ (s.drop digits.length).head? = some '\x7d' ∧
      hexValue digits < 196608 then some (hexValue digits, digits.length + 3) else none
  | '\\' :: 'u' :: a :: b :: c :: d :: _ =>
    if [a, b, c, d].all isHex then some (hexValue [a, b, c, d], 5) else none
  | _ => none

/-- The string that a literal stands for, where `skip` characters are passed over. -/
def unescapeFrom : ℕ → List Char → Option (List StrChar)
  | _, [] => some []
  | skip + 1, _ :: s => unescapeFrom skip s
  | 0, c :: s =>
    match escapeAt (c :: s) with
    | some (n, skip) => (unescapeFrom skip s).map (Fin.ofNat 196608 n :: ·)
    | none =>
      if c.toNat < 196608 then (unescapeFrom 0 s).map (Fin.ofNat 196608 c.toNat :: ·) else none

def unescape (s : List Char) : Option (List StrChar) := unescapeFrom 0 s

theorem unescapeFrom_append (s rest : List Char) :
    unescapeFrom s.length (s ++ rest) = unescapeFrom 0 rest := by
  induction s with
  | nil => rfl
  | cons c s ih => exact ih

theorem hexDigit?_digitChar {d : ℕ} (h : d < 16) : hexDigit? d.digitChar = some d := by
  interval_cases d <;> rfl

theorem isHex_toDigits {n : ℕ} {c : Char} (h : c ∈ Nat.toDigits 16 n) : isHex c := by
  obtain ⟨d, hd, rfl⟩ := Text.mem_toDigits (by omega) h
  rw [isHex, hexDigit?_digitChar hd]
  rfl

theorem hexValue_toDigits (n : ℕ) : hexValue (Nat.toDigits 16 n) = n := by
  apply Text.foldl_toDigits (by omega)
  intro d hd
  rw [hexDigit?_digitChar hd, Option.getD_some]

theorem takeWhile_isHex {s rest : List Char} (h : ∀ c ∈ s, isHex c) :
    (s ++ '\x7d' :: rest).takeWhile isHex = s := by
  rw [List.takeWhile_append_of_pos h, List.takeWhile_cons_of_neg (by decide), List.append_nil]

/-- An escape sequence with braces is read as its code point. -/
theorem unescapeFrom_braces {n : ℕ} (h : n < 196608) (rest : List Char) :
    unescapeFrom 0 ('\\' :: 'u' :: '\x7b' :: (Nat.toDigits 16 n ++ '\x7d' :: rest)) =
      (unescapeFrom 0 rest).map (Fin.ofNat 196608 n :: ·) := by
  have hdigits : (Nat.toDigits 16 n ++ '\x7d' :: rest).takeWhile isHex = Nat.toDigits 16 n :=
    takeWhile_isHex fun c hc => isHex_toDigits hc
  have hpos : 1 ≤ (Nat.toDigits 16 n).length := Nat.length_toDigits_pos
  have hlen : (Nat.toDigits 16 n).length ≤ 5 :=
    (Nat.length_toDigits_le_iff (by omega) (by omega)).mpr (by omega)
  have hescape : escapeAt ('\\' :: 'u' :: '\x7b' :: (Nat.toDigits 16 n ++ '\x7d' :: rest)) =
      some (n, (Nat.toDigits 16 n).length + 3) := by
    simp only [escapeAt, hdigits, hexValue_toDigits, List.drop_left, List.head?_cons]
    rw [if_pos ⟨hpos, hlen, trivial, h⟩]
  have hskip : unescapeFrom ((Nat.toDigits 16 n).length + 3)
      ('u' :: '\x7b' :: (Nat.toDigits 16 n ++ '\x7d' :: rest)) = unescapeFrom 0 rest := by
    have hrest := unescapeFrom_append ('u' :: '\x7b' :: (Nat.toDigits 16 n ++ ['\x7d'])) rest
    simpa using hrest
  rw [unescapeFrom, hescape]
  simp only [hskip]

theorem unescapeFrom_plain {c : Char} (hc : c ≠ '\\') (h : c.toNat < 196608)
    (rest : List Char) :
    unescapeFrom 0 (c :: rest) =
      (unescapeFrom 0 rest).map (Fin.ofNat 196608 c.toNat :: ·) := by
  have hescape : escapeAt (c :: rest) = none := by
    unfold escapeAt
    split
    · rename_i heq
      cases heq
      exact (hc rfl).elim
    · rename_i heq
      cases heq
      exact (hc rfl).elim
    · rfl
  rw [unescapeFrom, hescape, if_pos h]

/-! ## Regular expressions -/

def allChar : Language StrChar := {s | ∃ c, s = [c]}

def oneText (t : List StrChar) : Language StrChar := {s | s = t}

/-- The language of a compound expression, with those of its parts. -/
def languageForm : List SExp → List (Option (Language StrChar)) → Option (Language StrChar)
  | [.atom f, .str s], _ =>
    if f = "str.to_re".toList then (unescape s).map oneText else none
  | .atom f :: _, _ :: ls =>
    if f = "re.++".toList then (ls.mapM id).map List.prod
    else if f = "re.*".toList then
      match ls with
      | [some l] => some (KStar.kstar l)
      | _ => none
    else none
  | _, _ => none

mutual

/-- The language of a regular expression. -/
def language? : SExp → Option (Language StrChar)
  | .atom a => if a = "re.allchar".toList then some allChar else none
  | .str _ => none
  | .list es => languageForm es (languages es)

def languages : List SExp → List (Option (Language StrChar))
  | [] => []
  | e :: es => language? e :: languages es

end

theorem languages_eq_map (es : List SExp) : languages es = es.map language? := by
  induction es with
  | nil => rfl
  | cons e es ih => rw [languages, ih, List.map_cons]

theorem mapM_id_map_some {α : Type} (l : List α) : (l.map some).mapM id = some l := by
  induction l with
  | nil => rfl
  | cons a l ih => rw [List.map_cons, List.mapM_cons, ih]; rfl

/-- A concatenation has the product of the languages. -/
theorem language?_concat {es : List SExp} {ls : List (Language StrChar)}
    (h : es.map language? = ls.map some) :
    language? (.list (.atom "re.++".toList :: es)) = some ls.prod := by
  rw [language?, languages_eq_map, List.map_cons, h]
  unfold languageForm
  split
  · rename_i f s heq
    cases heq
    cases ls with
    | nil => cases h
    | cons l ls => cases (List.cons.inj h).1
  · rename_i f args l vs _ heq heq'
    cases heq
    cases heq'
    rw [if_pos rfl, mapM_id_map_some, Option.map_some]
  · rename_i hne
    exact (hne _ _ _ _ rfl rfl).elim

theorem mem_kstar_allChar (s : List StrChar) : s ∈ KStar.kstar allChar := by
  apply Language.mem_kstar.mpr
  refine ⟨s.map ([·]), ?_, ?_⟩
  · induction s with
    | nil => rfl
    | cons c s ih => rw [List.map_cons, List.flatten_cons, ← ih]; rfl
  · intro t ht
    obtain ⟨c, _, rfl⟩ := List.mem_map.mp ht
    exact ⟨c, rfl⟩

/-! ## Functions of the theories -/

/-- A function of a theory, defined where its arguments have the right sorts. -/
abbrev TheoryFun := List TypedValue → Option TypedValue

def boolConst (b : Bool) : TheoryFun
  | [] => some (.bool, .bool b)
  | _ => none

def boolNot : TheoryFun
  | [(.bool, v)] => some (.bool, .bool !v.isTrue)
  | _ => none

def boolBinary (f : Bool → Bool → Bool) : TheoryFun
  | [(.bool, v), (.bool, w)] => some (.bool, .bool (f v.isTrue w.isTrue))
  | _ => none

noncomputable def equal : TheoryFun
  | [(s, v), (t, w)] => if s = t then some (.bool, .bool (decide (v = w))) else none
  | _ => none

def ifThenElse : TheoryFun
  | [(.bool, b), (s, v), (t, w)] => if s = t then some (s, if b.isTrue then v else w) else none
  | _ => none

def bvUnary (f : ∀ n, BitVec n → BitVec n) : TheoryFun
  | [(.bitvec n, v)] => some (.bitvec n, .bitvec n (f n (v.bits n)))
  | _ => none

def bvBinary (f : ∀ n, BitVec n → BitVec n → BitVec n) : TheoryFun
  | [(.bitvec n, v), (.bitvec m, w)] =>
    if n = m then some (.bitvec n, .bitvec n (f n (v.bits n) (w.bits n))) else none
  | _ => none

def bvTest (f : ∀ n, BitVec n → BitVec n → Bool) : TheoryFun
  | [(.bitvec n, v), (.bitvec m, w)] =>
    if n = m then some (.bool, .bool (f n (v.bits n) (w.bits n))) else none
  | _ => none

def zeroExtend (i : ℕ) : TheoryFun
  | [(.bitvec n, v)] => some (.bitvec (i + n), .bitvec (i + n) ((v.bits n).setWidth (i + n)))
  | _ => none

noncomputable def setMember : TheoryFun
  | [(s, v), (.set t, w)] => if s = t then some (.bool, .bool (decide (v ∈ w.elems))) else none
  | _ => none

noncomputable def setSubset : TheoryFun
  | [(.set s, v), (.set t, w)] =>
    if s = t then some (.bool, .bool (decide (v.elems ⊆ w.elems))) else none
  | _ => none

noncomputable def setInter : TheoryFun
  | [(.set s, v), (.set t, w)] =>
    if s = t then some (.set s, .ofFinset (v.elems ∩ w.elems)) else none
  | _ => none

/-- Inserts any number of elements in the set that stands last. -/
noncomputable def setInsert (vs : List TypedValue) : Option TypedValue :=
  match vs.getLast? with
  | some (.set s, v) =>
    if ∀ w ∈ vs.dropLast, w.1 = s then
      some (.set s, .ofFinset ((vs.dropLast.map Prod.snd).toFinset ∪ v.elems))
    else none
  | _ => none

theorem setInsert_append {s : Srt} {ws : List TypedValue} (h : ∀ w ∈ ws, w.1 = s) (v : Value) :
    setInsert (ws ++ [(.set s, v)]) =
      some (.set s, .ofFinset ((ws.map Prod.snd).toFinset ∪ v.elems)) := by
  simp only [setInsert, List.getLast?_concat, List.dropLast_concat]
  exact if_pos h

/-- The functions of the theories by their symbols. -/
noncomputable def theory : List (List Char × TheoryFun) :=
  [("true".toList, boolConst true), ("false".toList, boolConst false), ("not".toList, boolNot),
   ("and".toList, boolBinary and), ("or".toList, boolBinary or), ("=".toList, equal),
   ("ite".toList, ifThenElse), ("bvneg".toList, bvUnary fun _ => BitVec.neg),
   ("bvadd".toList, bvBinary fun _ => BitVec.add), ("bvsub".toList, bvBinary fun _ => BitVec.sub),
   ("bvmul".toList, bvBinary fun _ => BitVec.mul),
   ("bvsdiv".toList, bvBinary fun _ => BitVec.smtSDiv),
   ("bvudiv".toList, bvBinary fun _ => BitVec.smtUDiv),
   ("bvsrem".toList, bvBinary fun _ => BitVec.srem),
   ("bvsmod".toList, bvBinary fun _ => BitVec.smod),
   ("bvurem".toList, bvBinary fun _ => BitVec.umod),
   ("bvshl".toList, bvBinary fun _ x y => x <<< y),
   ("bvlshr".toList, bvBinary fun _ x y => x >>> y),
   ("bvslt".toList, bvTest fun _ => BitVec.slt), ("bvsle".toList, bvTest fun _ => BitVec.sle),
   ("bvult".toList, bvTest fun _ => BitVec.ult), ("bvule".toList, bvTest fun _ => BitVec.ule),
   ("bvsaddo".toList, bvTest fun _ => BitVec.saddOverflow),
   ("bvssubo".toList, bvTest fun _ => BitVec.ssubOverflow),
   ("bvsmulo".toList, bvTest fun _ => BitVec.smulOverflow),
   ("set.member".toList, setMember), ("set.subset".toList, setSubset),
   ("set.inter".toList, setInter), ("set.insert".toList, setInsert)]

noncomputable def theoryFun (name : List Char) : Option TheoryFun := theory.lookup name

end SmtLib
