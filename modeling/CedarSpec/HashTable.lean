import Mathlib

/-! Hash tables and hash sets as finite maps and finite sets. The order in which a
program visits their entries is left open: a traversal lists every entry once, in an
order that may depend on the whole table. -/

namespace HashTable

variable {κ ν μ ε : Type*} [DecidableEq κ]

abbrev Table (κ : Type*) (ν : Type*) := Finmap (fun _ : κ => ν)

/-- An order of visiting the entries of every table. -/
structure Traversal (κ ν : Type*) [DecidableEq κ] where
  entries : Table κ ν → List (κ × ν)
  nodup : ∀ t, ((entries t).map Prod.fst).Nodup
  mem_entries : ∀ t k v, (k, v) ∈ entries t ↔ t.lookup k = some v

/-- An order of visiting the elements of every set. -/
structure SetTraversal (κ : Type*) where
  elems : Finset κ → List κ
  nodup : ∀ s, (elems s).Nodup
  mem_elems : ∀ s k, k ∈ elems s ↔ k ∈ s

/-- Insert the entries of a list, one after the other. -/
def insertAll (es : List (κ × ν)) (t : Table κ ν) : Table κ ν :=
  es.foldl (fun t e => t.insert e.1 e.2) t

/-- Remove the keys of a list, one after the other. -/
def eraseAll (ks : List κ) (t : Table κ ν) : Table κ ν :=
  ks.foldl (fun t k => t.erase k) t

/-- Rebuild a table entry by entry, with a function that may fail. -/
def rebuild (f : κ → ν → Except ε μ) : List (κ × ν) → Table κ μ → Except ε (Table κ μ)
  | [], t => .ok t
  | (k, v) :: es, t =>
    match f k v with
    | .ok w => rebuild f es (t.insert k w)
    | .error e => .error e

theorem lookup_insertAll (es : List (κ × ν)) (t : Table κ ν)
    (hn : (es.map Prod.fst).Nodup) (k : κ) (v : ν) :
    (insertAll es t).lookup k = some v ↔
      (k, v) ∈ es ∨ k ∉ es.map Prod.fst ∧ t.lookup k = some v := by
  induction es generalizing t with
  | nil => simp [insertAll]
  | cons e es ih =>
    obtain ⟨j, w⟩ := e
    rw [List.map_cons, List.nodup_cons] at hn
    have h := ih (t.insert j w) hn.2
    change (insertAll es (t.insert j w)).lookup k = some v ↔ _
    rw [h]
    by_cases hk : k = j
    · subst hk
      have hnot : (k, v) ∉ es := fun hm => hn.1 (List.mem_map.mpr ⟨(k, v), hm, rfl⟩)
      simp [hn.1, hnot, eq_comm]
    · simp [hk, Finmap.lookup_insert_of_ne]

theorem lookup_eraseAll (ks : List κ) (t : Table κ ν) (k : κ) :
    (eraseAll ks t).lookup k = if k ∈ ks then none else t.lookup k := by
  induction ks generalizing t with
  | nil => simp [eraseAll]
  | cons j ks ih =>
    change (eraseAll ks (t.erase j)).lookup k = _
    rw [ih]
    by_cases hk : k = j
    · subst hk
      simp
    · simp [hk, Finmap.lookup_erase_ne]

/-- Rebuilding with a function that succeeds on every listed entry inserts the images. -/
theorem rebuild_eq (f : κ → ν → Except ε μ) (g : ν → μ) (es : List (κ × ν))
    (t : Table κ μ) (hf : ∀ e ∈ es, f e.1 e.2 = .ok (g e.2)) :
    rebuild f es t = .ok (insertAll (es.map (fun e => (e.1, g e.2))) t) := by
  induction es generalizing t with
  | nil => rfl
  | cons e es ih =>
    obtain ⟨k, v⟩ := e
    have hk : f k v = .ok (g v) := hf (k, v) (by simp)
    have ht := ih (t.insert k (g v)) (fun e he => hf e (List.mem_cons_of_mem _ he))
    simp only [rebuild, hk]
    exact ht

namespace Traversal

variable (T : Traversal κ ν)

/-- A traversal is a permutation of the entries, so a rebuilt table does not depend on it. -/
theorem rebuild_lookup (f : κ → ν → Except ε μ) (g : ν → μ) (t : Table κ ν)
    (hf : ∀ k v, t.lookup k = some v → f k v = .ok (g v)) :
    ∃ t', rebuild f (T.entries t) ∅ = .ok t' ∧ ∀ k, t'.lookup k = (t.lookup k).map g := by
  refine ⟨_, rebuild_eq f g (T.entries t) ∅ ?_, ?_⟩
  · intro e he
    exact hf e.1 e.2 ((T.mem_entries t e.1 e.2).mp he)
  · intro k
    have hkeys : ((T.entries t).map (fun e => (e.1, g e.2))).map Prod.fst
        = (T.entries t).map Prod.fst := by simp
    have hn := T.nodup t
    rw [← hkeys] at hn
    ext w
    rw [lookup_insertAll _ _ hn]
    simp only [List.mem_map, Prod.exists, Prod.mk.injEq, T.mem_entries, Finmap.lookup_empty,
      Option.map_eq_some_iff]
    constructor
    · intro hx
      obtain ⟨j, v, h, rfl, rfl⟩ | ⟨_, h⟩ := hx
      · exact ⟨v, h, rfl⟩
      · exact absurd h (by simp)
    · intro hx
      obtain ⟨v, h, rfl⟩ := hx
      exact Or.inl ⟨k, v, h, rfl, rfl⟩

theorem exists_head (t : Table κ ν) (ht : t ≠ ∅) :
    ∃ k v, (T.entries t).head? = some (k, v) ∧ t.lookup k = some v := by
  cases h : T.entries t with
  | nil =>
    refine absurd (Finmap.ext_lookup fun k => ?_) ht
    rw [Finmap.lookup_empty, ← Option.not_isSome_iff_eq_none, Option.isSome_iff_exists]
    intro hx
    obtain ⟨v, hv⟩ := hx
    have hm := (T.mem_entries t k v).mpr hv
    simp [h] at hm
  | cons e es =>
    exact ⟨e.1, e.2, rfl, (T.mem_entries t e.1 e.2).mp (by simp [h])⟩

theorem lookup_of_head (t : Table κ ν) (k : κ) (v : ν)
    (h : (T.entries t).head? = some (k, v)) : t.lookup k = some v :=
  (T.mem_entries t k v).mp (List.mem_of_head? h)

end Traversal

/-- Visit the entries in an order of their keys. -/
def Traversal.ofKeys (S : SetTraversal κ) : Traversal κ ν where
  entries t := (S.elems t.keys).filterMap (fun k => (t.lookup k).map (fun v => (k, v)))
  nodup t := by
    rw [List.map_filterMap]
    refine List.Nodup.filterMap ?_ (S.nodup _)
    intro j k x hj hk
    simp only [Option.map_map, Option.mem_def, Option.map_eq_some_iff, Function.comp] at hj hk
    obtain ⟨_, _, rfl⟩ := hj
    obtain ⟨_, _, rfl⟩ := hk
    rfl
  mem_entries t k v := by
    simp only [List.mem_filterMap, S.mem_elems, Finmap.mem_keys, Option.map_eq_some_iff,
      Prod.mk.injEq]
    constructor
    · intro hx
      obtain ⟨j, _, w, hw, rfl, rfl⟩ := hx
      exact hw
    · exact fun h => ⟨k, Finmap.mem_of_lookup_eq_some h, v, h, rfl, rfl⟩

/-- Visit the elements in increasing order. -/
def SetTraversal.sorted {κ : Type*} [LinearOrder κ] : SetTraversal κ where
  elems s := s.sort (· ≤ ·)
  nodup _ := Finset.sort_nodup _ _
  mem_elems _ _ := Finset.mem_sort _

end HashTable
