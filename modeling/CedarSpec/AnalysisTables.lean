import CedarSpec.Analysis

/-! What the four findings tables hold. A table is described by its keys, by the length
of its rows and by the ids filed at each key and position; an update adds one key and
one relation. -/

namespace CedarSpec.Analysis
open HashTable

def InRow (row : List (Finset PolicyId)) (i : ℕ) (q : PolicyId) : Prop :=
  ∃ s, row[i]? = some s ∧ q ∈ s

/-- `q` is filed under `p` at position `i`. -/
def Filed (t : FindingsTable) (p : PolicyId) (i : ℕ) (q : PolicyId) : Prop :=
  ∃ row, t.lookup p = some row ∧ InRow row i q

structure Tabulates (n : ℕ) (t : FindingsTable) (keys : PolicyId → Prop)
    (filed : PolicyId → ℕ → PolicyId → Prop) : Prop where
  mem_iff : ∀ p, p ∈ t ↔ keys p
  length_row : ∀ p row, t.lookup p = some row → row.length = n
  filed_iff : ∀ p i q, Filed t p i q ↔ filed p i q

variable {n : ℕ} {t : FindingsTable} {keys keys' : PolicyId → Prop}
  {filed filed' : PolicyId → ℕ → PolicyId → Prop}

theorem tabulates_empty : Tabulates n ∅ (fun _ => False) (fun _ _ _ => False) where
  mem_iff p := by simp [Finmap.notMem_empty]
  length_row p row h := by simp at h
  filed_iff p i q := by simp [Filed]

theorem Tabulates.congr (h : Tabulates n t keys filed) (hk : ∀ p, keys p ↔ keys' p)
    (hf : ∀ p i q, filed p i q ↔ filed' p i q) : Tabulates n t keys' filed' where
  mem_iff p := (h.mem_iff p).trans (hk p)
  length_row := h.length_row
  filed_iff p i q := (h.filed_iff p i q).trans (hf p i q)

variable {T : Type} [DecidableEq T]

/-- A row as long as the results is updated exactly where the result is the one looked
for. -/
theorem updateRow_spec (q : PolicyId) (r : T) (results : List T) (row : List (Finset PolicyId))
    (hlen : results.length = row.length) :
    ∃ row', updateRow q r results row = .ok row' ∧ row'.length = row.length ∧
      ∀ i v, InRow row' i v ↔ InRow row i v ∨ v = q ∧ results[i]? = some r := by
  induction results generalizing row with
  | nil =>
    refine ⟨row, rfl, rfl, fun i v => ?_⟩
    simp
  | cons result results ih =>
    cases row with
    | nil => simp at hlen
    | cons s row =>
      obtain ⟨row', hrow', hlen', hspec⟩ := ih row (by simpa using hlen)
      refine ⟨(if result = r then insert q s else s) :: row', ?_, by simp [hlen'], ?_⟩
      · simp only [updateRow, hrow']
        rfl
      · intro i v
        cases i with
        | zero =>
          by_cases hr : result = r
          · simp [InRow, hr, or_comm]
          · simp [InRow, hr]
        | succ i => simpa [InRow] using hspec i v

/-- An update adds the key `p` and files `q` where the result is the one looked for. -/
theorem updateFindings_spec (p q : PolicyId) (results : List T) (r : T)
    (h : Tabulates n t keys filed) (hlen : results.length = n) :
    ∃ t', updateFindings p q results t r = .ok t' ∧
      Tabulates n t' (fun k => keys k ∨ k = p)
        (fun k i v => filed k i v ∨ k = p ∧ v = q ∧ results[i]? = some r) := by
  -- the row under `p` before the update: an empty one if `p` is new
  have hstart : ∃ row, (if p ∈ t then t else t.insert p (List.replicate results.length ∅)).lookup p
      = some row ∧ row.length = n ∧ ∀ i v, InRow row i v ↔ filed p i v := by
    by_cases hp : p ∈ t
    · obtain ⟨row, hrow⟩ := Finmap.mem_iff.mp hp
      refine ⟨row, by simp [hp, hrow], h.length_row p row hrow, fun i v => ?_⟩
      rw [← h.filed_iff, Filed]
      simp [hrow]
    · refine ⟨List.replicate results.length ∅, by simp [hp], by simp [hlen], fun i v => ?_⟩
      rw [← h.filed_iff, Filed, Finmap.lookup_eq_none.mpr hp]
      simp [InRow, List.getElem?_replicate]
  obtain ⟨row, hrow, hrlen, hrspec⟩ := hstart
  obtain ⟨row', hrow', hlen', hspec⟩ := updateRow_spec q r results row (by rw [hlen, hrlen])
  have hother : ∀ k, k ≠ p →
      ((if p ∈ t then t else t.insert p (List.replicate results.length ∅)).insert p row').lookup k
        = t.lookup k := by
    intro k hk
    rw [Finmap.lookup_insert_of_ne _ hk]
    split
    · rfl
    · rw [Finmap.lookup_insert_of_ne _ hk]
  refine ⟨_, by simp only [updateFindings, hrow, expect, hrow', bind, Except.bind, pure,
    Except.pure]; rfl, ?_, ?_, ?_⟩
  · intro k
    by_cases hk : k = p
    · simp [hk]
    · rw [← Finmap.lookup_isSome, hother k hk, Finmap.lookup_isSome, h.mem_iff]
      simp [hk]
  · intro k w hw
    by_cases hk : k = p
    · subst hk
      rw [Finmap.lookup_insert, Option.some.injEq] at hw
      rw [← hw, hlen', hrlen]
    · rw [hother k hk] at hw
      exact h.length_row k w hw
  · intro k i v
    by_cases hk : k = p
    · subst hk
      have hs := hspec i v
      rw [hrspec] at hs
      simpa [Filed] using hs
    · rw [Filed, hother k hk, ← Filed, h.filed_iff]
      simp [hk]

end CedarSpec.Analysis
