import Mathlib

/-! Sets and maps that keep the order of insertion. -/

namespace IndexCollections

variable {α κ ν : Type}

structure IndexSet (α : Type) where
  elems : List α
  nodup : elems.Nodup

namespace IndexSet

variable [DecidableEq α]

def empty : IndexSet α := ⟨[], List.nodup_nil⟩

/-- A new element goes to the end. -/
def insert (s : IndexSet α) (a : α) : IndexSet α :=
  if h : a ∈ s.elems then s
  else ⟨s.elems ++ [a], by
    rw [List.nodup_append]
    exact ⟨s.nodup, List.nodup_singleton a, fun b hb c hc he =>
      h (List.mem_singleton.mp hc ▸ he ▸ hb)⟩⟩

def collect (as : List α) : IndexSet α := as.foldl insert empty

theorem mem_insert (s : IndexSet α) (a b : α) :
    b ∈ (s.insert a).elems ↔ b ∈ s.elems ∨ b = a := by
  unfold insert
  split
  · next h => exact ⟨Or.inl, fun hb => hb.elim id (fun he => he ▸ h)⟩
  · simp

theorem length_insert_le (s : IndexSet α) (a : α) :
    (s.insert a).elems.length ≤ s.elems.length + 1 := by
  unfold insert
  split <;> simp

theorem mem_collect (as : List α) (a : α) : a ∈ (collect as).elems ↔ a ∈ as := by
  have hfold : ∀ s : IndexSet α, a ∈ (as.foldl insert s).elems ↔ a ∈ s.elems ∨ a ∈ as := by
    induction as with
    | nil => simp
    | cons b as ih =>
      intro s
      rw [List.foldl_cons, ih, mem_insert, List.mem_cons, or_assoc]
  simpa [empty, collect] using hfold empty

end IndexSet

structure IndexMap (κ ν : Type) where
  entries : List (κ × ν)
  nodup : (entries.map Prod.fst).Nodup

namespace IndexMap

variable [DecidableEq κ]

def empty : IndexMap κ ν := ⟨[], List.nodup_nil⟩

def keys (m : IndexMap κ ν) : List κ := m.entries.map Prod.fst

def values (m : IndexMap κ ν) : List ν := m.entries.map Prod.snd

def get (m : IndexMap κ ν) (k : κ) : Option ν :=
  (m.entries.find? (fun e => e.1 = k)).map Prod.snd

/-- A known key keeps its place, a new one goes to the end. -/
def insert (m : IndexMap κ ν) (k : κ) (v : ν) : IndexMap κ ν :=
  if h : k ∈ m.keys then
    ⟨m.entries.map (fun e => if e.1 = k then (k, v) else e), by
      have hkeys : (m.entries.map (fun e => if e.1 = k then (k, v) else e)).map Prod.fst
          = m.entries.map Prod.fst := by
        rw [List.map_map]
        refine List.map_congr_left fun e _ => ?_
        by_cases he : e.1 = k <;> simp [he]
      rw [hkeys]
      exact m.nodup⟩
  else
    ⟨m.entries ++ [(k, v)], by
      rw [List.map_append, List.nodup_append]
      refine ⟨m.nodup, List.nodup_singleton k, fun b hb c hc he => ?_⟩
      rw [List.mem_singleton.mp hc] at he
      change b = k at he
      subst he
      exact h hb⟩

def collect (es : List (κ × ν)) : IndexMap κ ν := es.foldl (fun m e => m.insert e.1 e.2) empty

theorem get_eq_some (m : IndexMap κ ν) (k : κ) (v : ν) :
    m.get k = some v ↔ (k, v) ∈ m.entries := by
  obtain ⟨es, hn⟩ := m
  simp only [get]
  induction es with
  | nil => simp
  | cons e es ih =>
    obtain ⟨j, w⟩ := e
    rw [List.map_cons, List.nodup_cons] at hn
    by_cases hj : j = k
    · subst hj
      have hnot : (j, v) ∉ es := fun hm => hn.1 (List.mem_map.mpr ⟨(j, v), hm, rfl⟩)
      simp [hnot, eq_comm]
    · simpa [hj, Ne.symm hj] using ih hn.2

/-- Entries with distinct keys are collected as they stand. -/
theorem entries_collect (es : List (κ × ν)) (hn : (es.map Prod.fst).Nodup) :
    (collect es).entries = es := by
  have hfold : ∀ m : IndexMap κ ν, (m.entries.map Prod.fst ++ es.map Prod.fst).Nodup →
      (es.foldl (fun m e => m.insert e.1 e.2) m).entries = m.entries ++ es := by
    clear hn
    induction es with
    | nil => simp
    | cons e es ih =>
      intro m hm
      have hnew : e.1 ∉ m.keys := by
        intro hk
        rw [List.nodup_append] at hm
        exact hm.2.2 e.1 hk e.1 (by simp) rfl
      have hins : (m.insert e.1 e.2).entries = m.entries ++ [e] := by simp [insert, hnew]
      rw [List.foldl_cons, ih, hins, List.append_assoc]
      · rfl
      · rw [hins]
        simpa using hm
  have h := hfold empty (by simpa [empty] using hn)
  simpa [empty, collect] using h

end IndexMap

end IndexCollections
