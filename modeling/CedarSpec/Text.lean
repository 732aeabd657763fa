import Mathlib

/-! Text as lists of characters: decimal and hexadecimal numerals, reading them back,
splitting a text at a character or at a longer separator. -/

namespace Text

/-! ## Numbers -/

/-- Digits with single underscores between them; the flag tells whether the last character
was a digit. -/
def isNatFrom (lastWasDigit : Bool) : List Char → Bool
  | [] => lastWasDigit
  | c :: s =>
    if c = '_' then lastWasDigit && isNatFrom false s
    else c.isDigit && isNatFrom true s

def isNat (s : List Char) : Bool := isNatFrom false s

def toNat? (s : List Char) : Option ℕ :=
  if isNat s then
    some (s.foldl (fun n c => if c = '_' then n else n * 10 + (c.toNat - '0'.toNat)) 0)
  else none

def toInt? : List Char → Option ℤ
  | '-' :: rest => (toNat? rest).map Int.negOfNat
  | s => (toNat? s).map Int.ofNat

/-- The decimal numeral of an integer. -/
def ofInt (i : ℤ) : List Char :=
  if i < 0 then '-' :: Nat.toDigits 10 i.natAbs else Nat.toDigits 10 i.natAbs

/-- A numeral filled up with zeros on the left to a width. -/
def padZeros (width n : ℕ) : List Char :=
  List.replicate (width - (Nat.toDigits 10 n).length) '0' ++ Nat.toDigits 10 n

variable {s : List Char} {n : ℕ}

theorem ne_underscore {c : Char} (h : c.isDigit) : c ≠ '_' := by
  rintro rfl
  simp at h

theorem isNatFrom_digits (b : Bool) (hne : s ≠ []) (h : ∀ c ∈ s, c.isDigit) :
    isNatFrom b s = true := by
  induction s generalizing b with
  | nil => exact absurd rfl hne
  | cons c s ih =>
    have hc : c.isDigit := h c (by simp)
    cases s with
    | nil => simp [isNatFrom, ne_underscore hc, hc]
    | cons d s =>
      have hs : ∀ e ∈ d :: s, e.isDigit := fun e he => h e (List.mem_cons_of_mem c he)
      rw [isNatFrom, if_neg (ne_underscore hc), hc, ih true (by simp) hs]
      rfl

/-- A text of digits is read as the number that they stand for. -/
theorem toNat?_digits (hne : s ≠ []) (h : ∀ c ∈ s, c.isDigit) :
    toNat? s = some (Nat.ofDigitChars 10 s 0) := by
  have hfold : ∀ (s : List Char) (m : ℕ), (∀ c ∈ s, c.isDigit) →
      s.foldl (fun n c => if c = '_' then n else n * 10 + (c.toNat - '0'.toNat)) m =
        Nat.ofDigitChars 10 s m := by
    intro s
    induction s with
    | nil => intro m _; simp
    | cons c s ih =>
      intro m hs
      have hc : c ≠ '_' := ne_underscore (hs c (by simp))
      rw [List.foldl_cons, if_neg hc, Nat.ofDigitChars_cons, Nat.mul_comm m 10]
      exact ih _ fun d hd => hs d (List.mem_cons_of_mem c hd)
  rw [toNat?, isNat, isNatFrom_digits false hne h, if_pos rfl, hfold s 0 h]

theorem isDigit_toDigits {c : Char} (h : c ∈ Nat.toDigits 10 n) : c.isDigit :=
  Nat.isDigit_of_mem_toDigits (by omega) (by omega) h

theorem toNat?_toDigits (n : ℕ) : toNat? (Nat.toDigits 10 n) = some n := by
  rw [toNat?_digits (by simp) fun c hc => isDigit_toDigits hc, Nat.ofDigitChars_ten_toDigits]

theorem isDigit_padZeros {width : ℕ} {c : Char} (h : c ∈ padZeros width n) : c.isDigit := by
  obtain h | h := List.mem_append.mp h
  · rw [List.eq_of_mem_replicate h]
    rfl
  · exact isDigit_toDigits h

theorem toNat?_padZeros (width n : ℕ) : toNat? (padZeros width n) = some n := by
  rw [toNat?_digits (by simp [padZeros]) fun c hc => isDigit_padZeros hc, padZeros,
    Nat.ofDigitChars_append, Nat.ofDigitChars_replicate_zero, Nat.mul_zero,
    Nat.ofDigitChars_ten_toDigits]

theorem length_padZeros (width : ℕ) (hw : 0 < width) (h : n < 10 ^ width) :
    (padZeros width n).length = width := by
  have hlen := (Nat.length_toDigits_le_iff (by omega) hw).mpr h
  rw [padZeros, List.length_append, List.length_replicate]
  omega

/-- A numeral starts with a zero only where it is that of zero. -/
theorem head?_toDigits (hn : n ≠ 0) : (Nat.toDigits 10 n).head? ≠ some '0' := by
  induction n using Nat.strongRecOn with
  | ind n ih =>
    by_cases h : n < 10
    · rw [Nat.toDigits_of_lt_base h]
      simpa using hn
    · have hq : n / 10 ≠ 0 := by omega
      rw [Nat.toDigits_of_base_le (by omega) (by omega),
        List.head?_append_of_ne_nil _ Nat.toDigits_ne_nil]
      exact ih (n / 10) (by omega) hq

theorem toInt?_minus_toDigits (n : ℕ) : toInt? ('-' :: Nat.toDigits 10 n) = some (-(n : ℤ)) := by
  rw [toInt?, toNat?_toDigits, Option.map_some, Int.negOfNat_eq, Int.ofNat_eq_natCast]

theorem toInt?_toDigits (n : ℕ) : toInt? (Nat.toDigits 10 n) = some (n : ℤ) := by
  unfold toInt?
  split
  · next rest he =>
    have hd : '-'.isDigit := isDigit_toDigits (n := n) (by rw [he]; simp)
    simp at hd
  · rw [toNat?_toDigits, Option.map_some, Int.ofNat_eq_natCast]

/-! ## Numerals of any base -/

theorem mem_toDigits {b : ℕ} (hb : 1 < b) {c : Char} (h : c ∈ Nat.toDigits b n) :
    ∃ d < b, c = d.digitChar := by
  induction n using Nat.strongRecOn with
  | ind n ih =>
    by_cases hn : n < b
    · rw [Nat.toDigits_of_lt_base hn, List.mem_singleton] at h
      exact ⟨n, hn, h⟩
    · rw [Nat.toDigits_of_base_le hb (by omega), List.mem_append, List.mem_singleton] at h
      obtain h | h := h
      · exact ih (n / b) (Nat.div_lt_self (by omega) hb) h
      · exact ⟨n % b, Nat.mod_lt n (by omega), h⟩

/-- Adding up the values of its digits gives back the number of a numeral. -/
theorem foldl_toDigits {b : ℕ} (hb : 1 < b) (value : Char → ℕ)
    (hv : ∀ d < b, value d.digitChar = d) :
    (Nat.toDigits b n).foldl (fun m c => m * b + value c) 0 = n := by
  induction n using Nat.strongRecOn with
  | ind n ih =>
    by_cases hn : n < b
    · simp [Nat.toDigits_of_lt_base hn, hv n hn]
    · have hlast := hv (n % b) (Nat.mod_lt n (by omega))
      rw [Nat.toDigits_of_base_le hb (by omega), List.foldl_append,
        ih (n / b) (Nat.div_lt_self (by omega) hb), List.foldl_cons, List.foldl_nil, hlast]
      exact Nat.div_add_mod' n b

/-! ## Splitting at a separator -/

theorem splitOnP_single {sep : Char} (h : sep ∉ s) : s.splitOnP (· = sep) = [s] := by
  refine List.splitOnP_eq_singleton fun c hc => ?_
  simpa using ne_of_mem_of_not_mem hc h

theorem splitOnP_append {sep : Char} (h : sep ∉ s) (t : List Char) :
    (s ++ sep :: t).splitOnP (· = sep) = s :: t.splitOnP (· = sep) := by
  refine List.splitOnP_append_cons_of_forall_mem (fun c hc => ?_) sep (by simp) t
  simpa using ne_of_mem_of_not_mem hc h

theorem splitOnP_intercalate {sep : Char} {words : List (List Char)} (hne : words ≠ [])
    (h : ∀ w ∈ words, sep ∉ w) : ([sep].intercalate words).splitOnP (· = sep) = words := by
  have hp : (fun c : Char => decide (c = sep)) = (· == sep) := by
    funext c
    rw [beq_eq_decide]
  rw [hp, ← List.splitOn_eq_splitOnP, List.splitOn_intercalate sep h hne]

/-- The parts of a text from here on, where `skip` characters of a separator are still to be
passed over and `part` is the part read so far, backwards. -/
def splitOnFrom (sep : List Char) : ℕ → List Char → List Char → List (List Char)
  | _, part, [] => [part.reverse]
  | skip + 1, part, _ :: s => splitOnFrom sep skip part s
  | 0, part, c :: s =>
    if sep.isPrefixOf (c :: s) then part.reverse :: splitOnFrom sep (sep.length - 1) [] s
    else splitOnFrom sep 0 (c :: part) s

/-- Splits at the occurrences of a separator, from the left and without overlaps. -/
def splitOn (sep s : List Char) : List (List Char) :=
  if sep = [] then [s] else splitOnFrom sep 0 [] s

/-- Every `a` is followed by another character. -/
def Spaced (a : Char) : List Char → Prop
  | [] => True
  | c :: s => (c = a → ∃ d t, s = d :: t ∧ d ≠ a) ∧ Spaced a s

variable {a : Char} {t : List Char}

theorem spaced_of_notMem (h : a ∉ s) : Spaced a s := by
  induction s with
  | nil => trivial
  | cons c s ih =>
    obtain ⟨hc, hs⟩ : a ≠ c ∧ a ∉ s := by simpa using h
    exact ⟨fun he => absurd he.symm hc, ih hs⟩

theorem spaced_append (hs : a ∉ s) (ht : Spaced a t) : Spaced a (s ++ t) := by
  induction s with
  | nil => exact ht
  | cons c s ih =>
    obtain ⟨hc, hs⟩ : a ≠ c ∧ a ∉ s := by simpa using hs
    exact ⟨fun he => absurd he.symm hc, ih hs⟩

theorem spaced_intercalate {words : List (List Char)} (hne : ∀ w ∈ words, w ≠ [])
    (ha : ∀ w ∈ words, a ∉ w) : Spaced a ([a].intercalate words) := by
  induction words with
  | nil => trivial
  | cons w words ih =>
    have hw := ha w (by simp)
    have hrest : Spaced a ([a].intercalate words) :=
      ih (fun v hv => hne v (List.mem_cons_of_mem w hv))
        fun v hv => ha v (List.mem_cons_of_mem w hv)
    cases words with
    | nil => simpa using spaced_of_notMem hw
    | cons v words =>
      rw [List.intercalate_cons_cons, List.append_assoc]
      refine spaced_append hw ⟨fun _ => ?_, hrest⟩
      cases v with
      | nil => exact absurd rfl (hne [] (by simp))
      | cons d v =>
        have hd : d ≠ a := fun he => ha (d :: v) (by simp) (by simp [he])
        cases words with
        | nil => exact ⟨d, v, by simp, hd⟩
        | cons u words =>
          exact ⟨d, v ++ a :: [a].intercalate (u :: words), by simp [List.intercalate_cons_cons], hd⟩

theorem splitOnFrom_spaced (hs : Spaced a s) (part rest : List Char) :
    splitOnFrom [a, a] 0 part (s ++ rest) = splitOnFrom [a, a] 0 (s.reverse ++ part) rest := by
  induction s generalizing part with
  | nil => rfl
  | cons c s ih =>
    have hno : ¬[a, a].isPrefixOf (c :: (s ++ rest)) = true := by
      intro hpre
      obtain ⟨hc, hpre⟩ := List.cons_prefix_cons.mp (List.isPrefixOf_iff_prefix.mp hpre)
      obtain ⟨d, t, rfl, hd⟩ := hs.1 hc.symm
      exact hd (List.cons_prefix_cons.mp hpre).1.symm
    rw [List.cons_append, splitOnFrom, if_neg hno, ih hs.2]
    simp

theorem splitOn_spaced (hs : Spaced a s) : splitOn [a, a] s = [s] := by
  have h := splitOnFrom_spaced hs [] []
  rw [List.append_nil] at h
  rw [splitOn, if_neg (by simp), h]
  simp [splitOnFrom]

theorem splitOn_spaced_append (hs : Spaced a s) (ht : Spaced a t) :
    splitOn [a, a] (s ++ a :: a :: t) = [s, t] := by
  have h := splitOnFrom_spaced ht [] []
  rw [List.append_nil] at h
  rw [splitOn, if_neg (by simp), splitOnFrom_spaced hs, splitOnFrom, if_pos (by simp),
    List.length_cons, List.length_singleton, splitOnFrom, h]
  simp [splitOnFrom]

end Text
