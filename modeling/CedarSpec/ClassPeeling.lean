import CedarSpec.HashTable

/-! Peeling the classes of a partial equivalence off a hash table. The table sends each
key to the other members of its class; a round takes whichever entry the traversal
shows first, emits its class and removes all of its members. -/

namespace ClassPeeling
open HashTable

variable {κ ν : Type*} [DecidableEq κ]

theorem mem_eraseAll (ks : List κ) (t : Table κ ν) (k : κ) :
    k ∈ eraseAll ks t ↔ k ∈ t ∧ k ∉ ks := by
  rw [← Finmap.lookup_isSome, ← Finmap.lookup_isSome, lookup_eraseAll]
  by_cases hk : k ∈ ks <;> simp [hk]

/-- A round removes at least the key it has taken. -/
theorem card_keys_eraseAll_lt (ks : List κ) (t : Table κ ν) (k : κ)
    (hk : k ∈ t) (hks : k ∈ ks) : (eraseAll ks t).keys.card < t.keys.card := by
  apply Finset.card_lt_card
  rw [Finset.ssubset_iff_of_subset]
  · exact ⟨k, Finmap.mem_keys.mpr hk, fun h => ((mem_eraseAll ks t k).mp
      (Finmap.mem_keys.mp h)).2 hks⟩
  · intro j hj
    exact Finmap.mem_keys.mpr ((mem_eraseAll ks t j).mp (Finmap.mem_keys.mp hj)).1

/-- Classes with at least two members, in the order in which they are peeled off. -/
def peel (T : Traversal κ (Finset κ)) (S : SetTraversal κ) (t : Table κ (Finset κ)) :
    List (Finset κ) :=
  match _h : (T.entries t).head? with
  | none => []
  | some (k, s) =>
    let c := insert k s
    let rest := peel T S (eraseAll (S.elems c) t)
    if 2 ≤ c.card then c :: rest else rest
termination_by t.keys.card
decreasing_by
  have hk : t.lookup k = some s := T.lookup_of_head t k s _h
  exact card_keys_eraseAll_lt _ t k (Finmap.mem_of_lookup_eq_some hk)
    ((S.mem_elems _ k).mpr (Finset.mem_insert_self k s))

/-- Every entry of the table spells out the class of its key under `C`. -/
structure Classified (t : Table κ (Finset κ)) (C : κ → Finset κ) : Prop where
  entry : ∀ k s, t.lookup k = some s → insert k s = C k
  same : ∀ k j, k ∈ t → j ∈ C k → C j = C k

variable {T : Traversal κ (Finset κ)} {S : SetTraversal κ} {t : Table κ (Finset κ)}
  {C : κ → Finset κ}

theorem Classified.mem_self (h : Classified t C) {k : κ} (hk : k ∈ t) : k ∈ C k := by
  obtain ⟨s, hs⟩ := Finmap.mem_iff.mp hk
  rw [← h.entry k s hs]
  exact Finset.mem_insert_self k s

theorem Classified.eraseAll (h : Classified t C) (ks : List κ) :
    Classified (eraseAll ks t) C where
  entry k s hs := by
    rw [lookup_eraseAll] at hs
    split at hs
    · cases hs
    · exact h.entry k s hs
  same k j hk hj := h.same k j ((mem_eraseAll ks t k).mp hk).1 hj

/-- After the round of `k` the remaining keys still name every class but that of `k`. -/
theorem Classified.mem_split (h : Classified t C) {k : κ} (hk : k ∈ t) (c : Finset κ) :
    (∃ j ∈ t, c = C j) ↔ c = C k ∨ ∃ j ∈ HashTable.eraseAll (S.elems (C k)) t, c = C j := by
  constructor
  · intro hx
    obtain ⟨j, hj, rfl⟩ := hx
    by_cases hjk : j ∈ C k
    · exact Or.inl (h.same k j hk hjk)
    · refine Or.inr ⟨j, (mem_eraseAll _ t j).mpr ⟨hj, ?_⟩, rfl⟩
      rwa [S.mem_elems]
  · intro hx
    obtain rfl | ⟨j, hj, rfl⟩ := hx
    · exact ⟨k, hk, rfl⟩
    · exact ⟨j, ((mem_eraseAll _ t j).mp hj).1, rfl⟩

/-- A key that outlives the round of `k` has a class other than that of `k`. -/
theorem Classified.class_ne (h : Classified t C) {k j : κ}
    (hj : j ∈ HashTable.eraseAll (S.elems (C k)) t) : C j ≠ C k := by
  obtain ⟨hjt, hjk⟩ := (mem_eraseAll _ t j).mp hj
  intro he
  refine hjk ((S.mem_elems _ j).mpr ?_)
  rw [← he]
  exact h.mem_self hjt

theorem peel_of_head_none (hd : (T.entries t).head? = none) : peel T S t = [] := by
  rw [peel]
  split
  · rfl
  · simp_all

theorem peel_of_head_some {k : κ} {s : Finset κ} (hd : (T.entries t).head? = some (k, s)) :
    peel T S t = if 2 ≤ (insert k s).card
      then insert k s :: peel T S (eraseAll (S.elems (insert k s)) t)
      else peel T S (eraseAll (S.elems (insert k s)) t) := by
  rw [peel]
  split
  · simp_all
  · next k' s' h' =>
    rw [hd] at h'
    cases h'
    rfl

theorem eq_empty_of_head_none (hd : (T.entries t).head? = none) : t = ∅ := by
  by_contra hne
  obtain ⟨k, v, hk, _⟩ := T.exists_head t hne
  rw [hd] at hk
  cases hk

/-- The peeled classes are those of the keys with at least two members. -/
theorem mem_peel (h : Classified t C) (c : Finset κ) :
    c ∈ peel T S t ↔ (∃ k ∈ t, c = C k) ∧ 2 ≤ c.card := by
  induction t using peel.induct T S with
  | case1 t hd =>
    rw [peel_of_head_none hd, eq_empty_of_head_none hd]
    simp [Finmap.notMem_empty]
  | case2 t k s hd c' hcard ih =>
    have hk : t.lookup k = some s := T.lookup_of_head t k s hd
    have hc : c' = C k := h.entry k s hk
    have hkt : k ∈ t := Finmap.mem_of_lookup_eq_some hk
    rw [peel_of_head_some hd, if_pos hcard, List.mem_cons, ih (h.eraseAll _),
      h.mem_split (S := S) hkt, ← hc]
    constructor
    · intro hx
      obtain rfl | ⟨hj, hc2⟩ := hx
      · exact ⟨Or.inl rfl, hcard⟩
      · exact ⟨Or.inr hj, hc2⟩
    · intro hx
      obtain ⟨rfl | hj, hc2⟩ := hx
      · exact Or.inl rfl
      · exact Or.inr ⟨hj, hc2⟩
  | case3 t k s hd c' hcard ih =>
    have hk : t.lookup k = some s := T.lookup_of_head t k s hd
    have hc : c' = C k := h.entry k s hk
    have hkt : k ∈ t := Finmap.mem_of_lookup_eq_some hk
    rw [peel_of_head_some hd, if_neg hcard, ih (h.eraseAll _),
      h.mem_split (S := S) hkt, ← hc]
    constructor
    · intro hx
      obtain ⟨hj, hc2⟩ := hx
      exact ⟨Or.inr hj, hc2⟩
    · intro hx
      obtain ⟨rfl | hj, hc2⟩ := hx
      · exact absurd hc2 hcard
      · exact ⟨hj, hc2⟩

/-- No class is peeled off twice. -/
theorem nodup_peel (h : Classified t C) : (peel T S t).Nodup := by
  induction t using peel.induct T S with
  | case1 t hd => simp [peel_of_head_none hd]
  | case2 t k s hd c' hcard ih =>
    have hk : t.lookup k = some s := T.lookup_of_head t k s hd
    have hc : c' = C k := h.entry k s hk
    rw [peel_of_head_some hd, if_pos hcard, List.nodup_cons]
    refine ⟨?_, ih (h.eraseAll _)⟩
    rw [mem_peel (h.eraseAll _)]
    intro hx
    obtain ⟨⟨j, hj, he⟩, _⟩ := hx
    change j ∈ HashTable.eraseAll (S.elems c') t at hj
    rw [hc] at hj
    exact h.class_ne hj (he.symm.trans hc)
  | case3 t k s hd c' hcard ih =>
    rw [peel_of_head_some hd, if_neg hcard]
    exact ih (h.eraseAll _)

end ClassPeeling
