import CedarSpec.HierarchyEnds
import CedarSpec.HierarchyEntities
import CedarSpec.ByteSource

/-! Generating a hierarchy with a fixed total number of uids: it ends with the same number
of distinct uids for each type, or with an error, exactly if no type with a single choice
is reached with bytes left while two uids are asked of it. -/

namespace CedarSpec.HierarchyGen
open RandomGen IndexCollections HierarchyGenerator

variable {U : Type} {u : Unstructured U} {g : HierarchyGenerator U} {n fuel : ℕ} {s s' : U}
  {ids : UidLists}

/-- The same number of distinct uids for each of the types, under its type. -/
structure Evenly (types : IndexSet EntityType) (n : ℕ) (h : Hierarchy) : Prop where
  entityTypes : h.entityTypes = types.elems
  uids : ∀ ty ∈ types.elems, ∃ v, h.uidsByType.get ty = some v ∧
    v.uids.length = n / types.elems.length ∧ v.uids.Nodup ∧ ∀ uid ∈ v.uids, uid.entityType = ty
  entities : ∀ uid, uid ∈ h.entities.keys ↔
    ∃ v, h.uidsByType.get uid.entityType = some v ∧ uid ∈ v.uids

/-- With enough fuel, generation fails or returns the uids asked for. -/
def Ends (u : Unstructured U) (g : HierarchyGenerator U) (n : ℕ) (s : U) : Prop :=
  ∃ fuel, (∃ e, g.generate u fuel s = .error e) ∨
    ∃ h s', g.generate u fuel s = .ok (h, s') ∧
      ∃ types s₀, g.chosenEntityTypes u s = .ok (types, s₀) ∧ Evenly types n h

/-- Two uids or more are asked of each type, and a type with a single choice is reached
while bytes are left. -/
def Stuck (u : Unstructured U) (g : HierarchyGenerator U) (n : ℕ) (s : U) : Prop :=
  ∃ types s₀, g.chosenEntityTypes u s = .ok (types, s₀) ∧ 2 ≤ n / types.elems.length ∧
    ReachesSingle u g types.elems.length types.elems s₀

theorem evenly_of_pool {types : IndexSet EntityType} (hp : Pool ids)
    (hmap : ids.map Prod.fst = types.elems)
    (hlen : ∀ e ∈ ids, e.2.elems.length = n / types.elems.length)
    {entities : List (EntityUID × Entity)} (he : entities.map Prod.fst = poolUids ids) :
    Evenly types n
      ((Hierarchy.fromUidsByType (.collect ids)).replaceEntities (.collect entities)) where
  entityTypes := by
    rw [← hmap]
    exact hp.entityTypes_eq
  uids ty hty := by
    rw [← hmap, List.mem_map] at hty
    obtain ⟨e, hmem, rfl⟩ := hty
    exact ⟨_, (hp.get_uidsByType _).mpr ⟨e.2, hmem, rfl⟩, hlen e hmem, e.2.nodup,
      hp.typed e hmem⟩
  entities uid := by
    have hkeys : (IndexMap.collect entities).keys = poolUids ids := by
      rw [IndexMap.keys, IndexMap.entries_collect _ (by rw [he]; exact hp.nodup_poolUids), he]
    change uid ∈ (IndexMap.collect entities).keys ↔ ∃ v,
      (Hierarchy.fromUidsByType (.collect ids)).uidsByType.get uid.entityType = some v ∧ _
    rw [hkeys]
    constructor
    · intro hm
      obtain ⟨l, hl, hul⟩ := hp.mem_of_uid hm
      exact ⟨_, (hp.get_uidsByType _).mpr ⟨l, hl, rfl⟩, hul⟩
    · intro hx
      obtain ⟨v, hv, hm⟩ := hx
      obtain ⟨l, hl, rfl⟩ := (hp.get_uidsByType v).mp hv
      exact mem_poolUids.mpr ⟨_, hl, hm⟩

theorem ends_of_not_stuck (hu : u.Lawful) (hg : g.numEntities = .exactly n)
    (h : ¬Stuck u g n s) : Ends u g n s := by
  obtain ⟨⟨types, s₀⟩, ht⟩ | ⟨e, he⟩ := chosenEntityTypes_halts u g s
  · refine ⟨u.len s₀ + 2, ?_⟩
    have hreach : 2 ≤ n / types.elems.length →
        ¬ReachesSingle u g types.elems.length types.elems s₀ :=
      fun hn hr => h ⟨types, s₀, ht, hn, hr⟩
    have hrun : Halts (g.generate u (u.len s₀ + 2)) s := by
      rw [generate_eq]
      refine halts_bind (Or.inl ⟨_, ht⟩) fun types' s₁ ht' => ?_
      rw [ht] at ht'
      cases ht'
      refine halts_bind (uidsByType_halts hu hg hreach (le_refl _)) fun ids s₂ hids => ?_
      obtain ⟨hp, hd⟩ := pool_of_chosen hu ht hids
      exact halts_bind (poolEntities_halts hu hp hd s₂) fun entities s₃ _ => halts_pure _ s₃
    obtain ⟨⟨hier, s₁⟩, hok⟩ | herr := hrun
    · refine Or.inr ⟨hier, s₁, hok, types, s₀, ht, ?_⟩
      rw [generate_eq, bind_of_ok ht] at hok
      obtain ⟨ids, s₂, hids, hok⟩ := bind_eq_ok.mp hok
      obtain ⟨entities, s₃, hent, hok⟩ := bind_eq_ok.mp hok
      cases hok
      obtain ⟨hp, hd⟩ := pool_of_chosen hu ht hids
      exact evenly_of_pool hp (uidsByType_pool hu hids).1 (uidsByType_length hg hids)
        (poolEntities_ok hp hd hent).1
    · exact Or.inl herr
  · exact ⟨0, Or.inl ⟨e, by rw [generate_eq, bind_of_error he]⟩⟩

theorem generate_timeout (hu : u.Lawful) (hg : g.numEntities = .exactly n)
    (h : Stuck u g n s) (fuel : ℕ) : g.generate u fuel s = .timeout := by
  obtain ⟨types, s₀, ht, hn, hr⟩ := h
  rw [generate_eq, bind_of_ok ht]
  exact bind_of_timeout (uidsByType_diverges hu hg hn hr fuel) _

def role : EntityType := ⟨"Role"⟩

/-- One entity type `Role`, enumerated with the given ids, without parents, attributes or
tags. -/
def roleSchema (choices : NonEmpty Eid) : SchemaGen ByteSource.Bytes where
  entityTypes := [role]
  getUidEnumChoices _ := some choices
  allowedParentTypenames _ := some []
  attributeByEntityType _ := some ([], false)
  tagTypeByEntityType _ := some none
  maxDepth := 3
  maxWidth := 3
  generateType _ data := .ok (.bool, data)
  arbitraryIntConstant data := .ok (0, data)
  arbitraryStringConstant data := .ok ("", data)
  arbitraryExtConstructorCallForType _ _ := .error .extensionsDisabled
  declared ty _ := by simp

def roleGenerator (choices : NonEmpty Eid) (n : ℕ) : HierarchyGenerator ByteSource.Bytes where
  mode := .schemaBased (roleSchema choices)
  numEntities := .exactly n
  evaluate _ _ := .ok ()

end CedarSpec.HierarchyGen
