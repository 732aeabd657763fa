import CedarSpec.HierarchyUids

/-! A source over plain bytes. Numbers are read from the front, most significant byte
first; the length of a string is read from the last byte, its text from the front. -/

namespace CedarSpec.ByteSource
open RandomGen HierarchyGen

abbrev Bytes := List UInt8

/-- How many bytes it takes to write the width of a range. -/
def bytesNeeded (delta : ℕ) : ℕ := delta.log2 / 8 + 1

def bigEndian (bs : Bytes) : ℕ := bs.foldl (fun acc b => acc * 256 + b.toNat) 0

def intInRange (lo hi : ℕ) (data : Bytes) : Except Error (ℕ × Bytes) :=
  if hi ≤ lo then .ok (lo, data)
  else
    .ok (lo + bigEndian (data.take (bytesNeeded (hi - lo))) % (hi - lo + 1),
      data.drop (bytesNeeded (hi - lo)))

def ratio (numerator denominator : ℕ) (data : Bytes) : Except Error (Bool × Bytes) :=
  match intInRange 1 denominator data with
  | .ok (x, rest) => .ok (decide (x ≤ numerator), rest)
  | .error e => .error e

def choose (n : ℕ) (data : Bytes) : Except Error (ℕ × Bytes) :=
  if n = 0 then .error (.emptyChoose "") else intInRange 0 (n - 1) data

def bool (data : Bytes) : Except Error (Bool × Bytes) :=
  .ok (decide ((data.headD 0).toNat % 2 = 1), data.drop 1)

/-- A string of ASCII characters, cut at the first byte that is none. -/
def string (data : Bytes) : Except Error (String × Bytes) :=
  match data.getLast? with
  | none => .ok ("", [])
  | some last =>
    let size := last.toNat % data.length
    let text := (data.dropLast.take size).takeWhile (fun b => b.toNat < 128)
    .ok (String.ofList (text.map (fun b => Char.ofNat b.toNat)), data.dropLast.drop text.length)

/-- The body at most `k` times more, as long as a bit drawn before each round says so. -/
def keepGoing {α : Type} (f : α → Gen Bytes Error α) : ℕ → α → Gen Bytes Error α
  | 0, a => pure a
  | k + 1, a => do
    if ← Gen.call bool then
      let a' ← f a
      keepGoing f k a'
    else return a

def arbitraryLoop {α : Type} (lo hi : Option ℕ) (f : α → Gen Bytes Error α) (a : α) :
    Gen Bytes Error α := do
  let a' ← (List.range (lo.getD 0)).foldlM (fun a _ => f a) a
  keepGoing f (hi.getD (2 ^ 32 - 1) - lo.getD 0) a'

def entityTypes (data : Bytes) : Except Error (List EntityType × Bytes) :=
  match keepGoing (fun tys => do return tys ++ [⟨← Gen.call string⟩]) data.length [] data with
  | .ok r => .ok r
  | _ => .error .notEnoughData

def source : Unstructured Bytes where
  isEmpty := List.isEmpty
  len := List.length
  ratio := ratio
  intInRange := intInRange
  choose := choose
  bool := bool
  string := string
  eid := string
  entityTypes := entityTypes
  arbitraryLoop := arbitraryLoop

theorem intInRange_spec {lo hi x : ℕ} {data rest : Bytes}
    (h : intInRange lo hi data = .ok (x, rest)) :
    (x ≤ max lo hi ∧ rest.length ≤ data.length) ∧
      (lo < hi → data.length ≠ 0 → rest.length < data.length) := by
  unfold intInRange at h
  split at h
  · next hle =>
    cases h
    exact ⟨⟨le_max_left _ _, le_refl _⟩, fun hlt => absurd hle (by omega)⟩
  · next hlt =>
    have hmod : bigEndian (data.take (bytesNeeded (hi - lo))) % (hi - lo + 1) < hi - lo + 1 :=
      Nat.mod_lt _ (by omega)
    simp only [Except.ok.injEq, Prod.mk.injEq] at h
    obtain ⟨rfl, rfl⟩ := h
    refine ⟨⟨le_max_of_le_right (by omega), by simp⟩, fun _ hne => ?_⟩
    rw [List.length_drop, bytesNeeded]
    omega

theorem string_length {data rest : Bytes} {x : String} (h : string data = .ok (x, rest)) :
    rest.length ≤ data.length ∧ (data.length ≠ 0 → rest.length < data.length) := by
  unfold string at h
  split at h
  · next hnone =>
    cases h
    rw [List.getLast?_eq_none_iff] at hnone
    simp [hnone]
  · next last hsome =>
    simp only [Except.ok.injEq, Prod.mk.injEq] at h
    obtain ⟨_, rfl⟩ := h
    have hne : data ≠ [] := by
      rintro rfl
      simp at hsome
    have hpos : 0 < data.length := List.length_pos_of_ne_nil hne
    simp only [List.length_drop, List.length_dropLast]
    omega

theorem keepGoing_halts {α : Type} {f : α → Gen Bytes Error α} (hf : ∀ a s, Halts (f a) s)
    (k : ℕ) (a : α) (s : Bytes) : Halts (keepGoing f k a) s := by
  induction k generalizing a s with
  | zero => exact halts_pure a s
  | succ k ih =>
    refine halts_bind (halts_call _ s) fun b s' _ => ?_
    cases b
    · exact halts_pure a s'
    · exact halts_bind (hf a s') fun a' s₂ _ => ih a' s₂

theorem keepGoing_invariant {α : Type} {f : α → Gen Bytes Error α} (P : α → Prop)
    (hf : ∀ a s a' s', P a → f a s = .ok (a', s') → P a') (k : ℕ) {a a' : α} {s s' : Bytes}
    (ha : P a) (h : keepGoing f k a s = .ok (a', s')) : P a' := by
  induction k generalizing a s with
  | zero =>
    cases h
    exact ha
  | succ k ih =>
    obtain ⟨b, s₁, _, hb⟩ := bind_eq_ok.mp h
    cases b with
    | false =>
      cases hb
      exact ha
    | true =>
      obtain ⟨a₁, s₂, h₁, h₂⟩ := bind_eq_ok.mp hb
      exact ih (hf a s₁ a₁ s₂ ha h₁) h₂

/-- The byte source behaves as documented. -/
theorem source_lawful : source.Lawful where
  isEmpty_iff s := by
    change s.isEmpty = true ↔ s.length = 0
    rw [List.isEmpty_iff, List.length_eq_zero_iff]
  intInRange_single n s := by
    change intInRange n n s = _
    simp [intInRange]
  intInRange_le lo hi s x s' hle h := by
    have hx := (intInRange_spec h).1.1
    rwa [max_eq_right hle] at hx
  intInRange_len_le lo hi s x s' h := (intInRange_spec h).1.2
  intInRange_len_lt lo hi s x s' hlt hne h := (intInRange_spec h).2 hlt hne
  eid_len_le s x s' h := (string_length h).1
  eid_len_lt s x s' hne h := (string_length h).2 hne
  choose_lt n s x s' h := by
    change choose n s = _ at h
    unfold choose at h
    split at h
    · cases h
    · have hx := (intInRange_spec h).1.1
      omega
  loop_halts lo hi f a s hf := by
    refine halts_bind ?_ fun a' s' _ => keepGoing_halts hf _ a' s'
    exact foldlM_halts (fun _ => True) (fun _ _ _ _ _ _ _ _ => trivial)
      (fun a _ s _ _ => hf a s) trivial s
  loop_invariant lo hi f P a s a' s' hf ha h := by
    obtain ⟨a₁, s₁, h₁, h₂⟩ := bind_eq_ok.mp h
    have hP := foldlM_invariant P (fun a _ s a' s' _ ha h => hf a s a' s' ha h) ha h₁
    exact keepGoing_invariant P hf _ hP h₂

end CedarSpec.ByteSource
