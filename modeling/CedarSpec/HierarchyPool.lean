import CedarSpec.HierarchyGen

/-! The pool of uids that a hierarchy is built from: every uid stands under its own type,
once, and the maps of the hierarchy agree with the pool. -/

namespace CedarSpec.HierarchyGen
open RandomGen IndexCollections

abbrev UidLists := List (EntityType × IndexSet EntityUID)

/-- Uid lists under distinct types, each holding uids of its type. -/
structure Pool (ids : UidLists) : Prop where
  nodup : (ids.map Prod.fst).Nodup
  typed : ∀ e ∈ ids, ∀ uid ∈ e.2.elems, uid.entityType = e.1

def poolUids (ids : UidLists) : List EntityUID := ids.flatMap fun e => e.2.elems

theorem lt_idxOf_of_mem_drop {α : Type} [DecidableEq α] {l : List α} (hn : l.Nodup) {n : ℕ}
    {a : α} (ha : a ∈ l.drop (n + 1)) : n < l.idxOf a := by
  obtain ⟨k, hk, rfl⟩ := List.getElem_of_mem ha
  rw [List.getElem_drop, hn.idxOf_getElem]
  omega

variable {ids : UidLists} {ty : EntityType} {uid : EntityUID}

theorem mem_poolUids : uid ∈ poolUids ids ↔ ∃ e ∈ ids, uid ∈ e.2.elems := by
  simp [poolUids, List.mem_flatMap]

theorem Pool.nodup_poolUids (h : Pool ids) : (poolUids ids).Nodup := by
  induction ids with
  | nil => simp [poolUids]
  | cons e ids ih =>
    obtain ⟨hn, ht⟩ := h
    rw [List.map_cons, List.nodup_cons] at hn
    have htail : Pool ids := ⟨hn.2, fun e' he' => ht e' (List.mem_cons_of_mem e he')⟩
    change (e.2.elems ++ poolUids ids).Nodup
    rw [List.nodup_append]
    refine ⟨e.2.nodup, ih htail, fun a ha b hb hab => ?_⟩
    obtain ⟨e', he', hbe⟩ := mem_poolUids.mp hb
    have hty : e'.1 = e.1 := by
      rw [← htail.typed e' he' b hbe, ← hab, ht e (by simp) a ha]
    exact hn.1 (hty ▸ List.mem_map_of_mem he')

/-- A uid of the pool stands under its type. -/
theorem Pool.mem_of_uid (h : Pool ids) (hu : uid ∈ poolUids ids) :
    ∃ s, (uid.entityType, s) ∈ ids ∧ uid ∈ s.elems := by
  obtain ⟨e, he, hue⟩ := mem_poolUids.mp hu
  refine ⟨e.2, ?_, hue⟩
  rw [h.typed e he uid hue]
  exact he

section Hierarchy

variable (h : Pool ids)

include h

theorem Pool.entries_collect : (IndexMap.collect ids).entries = ids :=
  IndexMap.entries_collect ids h.nodup

theorem Pool.uids_eq : (Hierarchy.fromUidsByType (.collect ids)).uids = poolUids ids := by
  simp only [Hierarchy.fromUidsByType, IndexMap.values, h.entries_collect, poolUids,
    List.flatMap_map]

theorem Pool.entries_uidsByType :
    (Hierarchy.fromUidsByType (.collect ids)).uidsByType.entries
      = ids.map fun e => (e.1, EntityUIDs.fromIter e.2.elems) := by
  simp only [Hierarchy.fromUidsByType, h.entries_collect]
  refine IndexMap.entries_collect _ ?_
  simpa [List.map_map, Function.comp_def] using h.nodup

theorem Pool.entityTypes_eq :
    (Hierarchy.fromUidsByType (.collect ids)).entityTypes = ids.map Prod.fst := by
  have he := h.entries_uidsByType
  simp only [Hierarchy.fromUidsByType] at he ⊢
  simp [IndexMap.keys, he, List.map_map, Function.comp_def]

theorem Pool.values_entities :
    (Hierarchy.fromUidsByType (.collect ids)).entities.values
      = (poolUids ids).map Entity.withUid := by
  have hu := h.uids_eq
  simp only [Hierarchy.fromUidsByType] at hu ⊢
  rw [IndexMap.values, IndexMap.entries_collect]
  · simp [hu, List.map_map, Function.comp_def]
  · simpa [hu, List.map_map, Function.comp_def] using h.nodup_poolUids

theorem Pool.get_uidsByType (v : EntityUIDs) :
    (Hierarchy.fromUidsByType (.collect ids)).uidsByType.get ty = some v ↔
      ∃ s, (ty, s) ∈ ids ∧ v = EntityUIDs.fromIter s.elems := by
  rw [IndexMap.get_eq_some, h.entries_uidsByType, List.mem_map]
  constructor
  · intro hx
    obtain ⟨⟨ty', s⟩, he, hv⟩ := hx
    rw [Prod.mk.injEq] at hv
    obtain ⟨rfl, rfl⟩ := hv
    exact ⟨s, he, rfl⟩
  · intro hx
    obtain ⟨s, he, rfl⟩ := hx
    exact ⟨(ty, s), he, rfl⟩

end Hierarchy

/-- The slice after a uid of the list starts behind its position. -/
theorem getSliceAfterUid_fromIter {l : List EntityUID} (hn : l.Nodup) (hu : uid ∈ l) :
    (EntityUIDs.fromIter l).getSliceAfterUid uid = some (l.drop (l.idxOf uid + 1)) := by
  have hkeys : l.zipIdx.map Prod.fst = l := by simp
  have hget : (IndexMap.collect l.zipIdx).get uid = some (l.idxOf uid) := by
    rw [IndexMap.get_eq_some, IndexMap.entries_collect _ (by rw [hkeys]; exact hn)]
    rw [List.mem_zipIdx_iff_getElem?]
    exact List.getElem?_idxOf hu
  simp [EntityUIDs.getSliceAfterUid, EntityUIDs.fromIter, hget]

/-- The candidates for a parent of type `ty`: there are none if the pool has no such type,
those after `uid` if it is the type of `uid`, and else all uids of the type. -/
theorem Pool.uidsForType_eq (h : Pool ids) (hu : uid ∈ poolUids ids) (ty : EntityType) :
    ∃ candidates, (Hierarchy.fromUidsByType (.collect ids)).uidsForType ty uid = some candidates ∧
      ∀ p ∈ candidates, ∃ s, (ty, s) ∈ ids ∧ p ∈ s.elems ∧
        (uid.entityType = ty → s.elems.idxOf uid < s.elems.idxOf p) := by
  cases hget : (Hierarchy.fromUidsByType (.collect ids)).uidsByType.get ty with
  | none => exact ⟨[], by simp [Hierarchy.uidsForType, hget], by simp⟩
  | some v =>
    obtain ⟨s, hs, rfl⟩ := (h.get_uidsByType v).mp hget
    by_cases hty : uid.entityType = ty
    · subst hty
      obtain ⟨s', hs', hus⟩ := h.mem_of_uid hu
      have hss : s' = s := by
        have := List.inj_on_of_nodup_map h.nodup hs hs' rfl
        simpa using this.symm
      subst hss
      refine ⟨_, by simp [Hierarchy.uidsForType, hget, getSliceAfterUid_fromIter s'.nodup hus]; rfl,
        fun p hp => ⟨s', hs, List.mem_of_mem_drop hp, fun _ => ?_⟩⟩
      exact lt_idxOf_of_mem_drop s'.nodup hp
    · have hname : uid.entityType.toString ≠ ty.toString := fun he =>
        hty (by cases hx : uid.entityType; cases ty; simpa [hx, EntityType.toString] using he)
      refine ⟨s.elems, by simp [Hierarchy.uidsForType, hget, hname, EntityUIDs.fromIter],
        fun p hp => ⟨s, hs, hp, fun he => absurd he hty⟩⟩

end CedarSpec.HierarchyGen
