import CedarSpec.HierarchyEntities
import CedarSpec.ByteSource
import CedarSpec.Acyclic

/-! Cycles in generated hierarchies. Without a schema there are none; with a schema there
are none if no entity types are parents of one another, and a type may be its own parent. -/

namespace CedarSpec.HierarchyGen
open RandomGen IndexCollections HierarchyGenerator Acyclicity Relation

variable {U : Type} {u : Unstructured U} {g : HierarchyGenerator U} {ids : UidLists}
  {schema : SchemaGen U}

/-- The entity `c` of the hierarchy has `p` among its parents. -/
def IsParent (h : Hierarchy) (c p : EntityUID) : Prop :=
  ∃ e, h.entities.get c = some e ∧ p ∈ e.parents

/-- One declared type is a parent type of another one. -/
def ParentTypes (schema : SchemaGen U) (a b : EntityType) : Prop :=
  a ∈ schema.entityTypes ∧ b ∈ schema.entityTypes ∧ a ≠ b ∧ b ∈ allowedParents schema a

/-- The position of a uid in the list of its type. -/
def rankInType (ids : UidLists) (uid : EntityUID) : ℕ :=
  match ids.find? (fun e => e.1 = uid.entityType) with
  | some e => e.2.elems.idxOf uid
  | none => 0

theorem rankInType_of_mem (h : Pool ids) {uid : EntityUID} {l : IndexSet EntityUID}
    (hl : (uid.entityType, l) ∈ ids) : rankInType ids uid = l.elems.idxOf uid := by
  have hsome : (ids.find? (fun e => e.1 = uid.entityType)).isSome := by
    rw [List.find?_isSome]
    exact ⟨_, hl, by simp⟩
  obtain ⟨e, he⟩ := Option.isSome_iff_exists.mp hsome
  have hty := List.find?_some he
  have hel : e = (uid.entityType, l) :=
    List.inj_on_of_nodup_map h.nodup (List.mem_of_find?_eq_some he) hl (by simpa using hty)
  rw [rankInType, he, hel]

/-- A permitted parent is a later uid of the same type, or of another declared parent type. -/
theorem mayBeParent_label (h : Pool ids) (hd : Declared g ids) (hg : g.mode = .schemaBased schema)
    {c p : EntityUID} (hc : c ∈ poolUids ids) (hp : MayBeParent g ids c p) :
    (c.entityType = p.entityType ∧ rankInType ids c < rankInType ids p) ∨
      ParentTypes schema c.entityType p.entityType := by
  simp only [MayBeParent, hg] at hp
  obtain ⟨ty, hty, l, hl, hpl, hidx⟩ := hp
  have hpty : p.entityType = ty := h.typed _ hl p hpl
  by_cases hct : c.entityType = ty
  · refine Or.inl ⟨hct.trans hpty.symm, ?_⟩
    rw [rankInType_of_mem h (hct ▸ hl : (c.entityType, l) ∈ ids),
      rankInType_of_mem h (hpty ▸ hl : (p.entityType, l) ∈ ids)]
    exact hidx hct
  · refine Or.inr ⟨hd.mem h hc hg, ?_, ?_, hpty ▸ hty⟩
    · rw [hpty]
      exact hd schema hg _ hl
    · rw [hpty]
      exact hct

theorem mayBeParent_acyclic (h : Pool ids) (hd : Declared g ids)
    (hdag : ∀ schema, g.mode = .schemaBased schema → Acyclic (ParentTypes schema)) :
    Acyclic (fun c p => c ∈ poolUids ids ∧ MayBeParent g ids c p) := by
  cases hg : g.mode with
  | arbitrary =>
    refine acyclic_of_rank (fun uid => (poolUids ids).idxOf uid) ?_
    rintro c p ⟨_, hp⟩
    simp only [MayBeParent, hg] at hp
    exact lt_idxOf_of_mem_drop h.nodup_poolUids hp
  | schemaBased schema =>
    refine acyclic_of_label EntityUID.entityType (rankInType ids) (hdag schema hg) ?_
    rintro c p ⟨hc, hp⟩
    exact mayBeParent_label h hd hg hc hp

/-- The parents in the hierarchy returned are permitted ones. -/
theorem isParent_of_generate (hu : u.Lawful) {fuel : ℕ} {s s' : U} {h : Hierarchy}
    (hok : g.generate u fuel s = .ok (h, s')) :
    ∃ ids, Pool ids ∧ Declared g ids ∧
      ∀ c p, IsParent h c p → c ∈ poolUids ids ∧ MayBeParent g ids c p := by
  rw [generate_eq] at hok
  obtain ⟨types, s₀, ht, hok⟩ := bind_eq_ok.mp hok
  obtain ⟨ids, s₁, hids, hok⟩ := bind_eq_ok.mp hok
  obtain ⟨entities, s₂, hent, hok⟩ := bind_eq_ok.mp hok
  cases hok
  obtain ⟨hp, hd⟩ := pool_of_chosen hu ht hids
  obtain ⟨hkeys, hall⟩ := poolEntities_ok hp hd hent
  refine ⟨ids, hp, hd, ?_⟩
  rintro c p ⟨e, he, hpe⟩
  have hmem : (c, e) ∈ entities := by
    have hget := (IndexMap.get_eq_some _ c e).mp he
    have hentries := IndexMap.entries_collect entities (by rw [hkeys]; exact hp.nodup_poolUids)
    change (c, e) ∈ (IndexMap.collect entities).entries at hget
    rwa [hentries] at hget
  refine ⟨?_, (hall _ hmem).2 p hpe⟩
  rw [← hkeys]
  exact List.mem_map_of_mem hmem

def user : EntityType := ⟨"User"⟩

def group : EntityType := ⟨"Group"⟩

/-- Users and groups without attributes or tags, with the given parent types. -/
def groupSchema (userParents groupParents : List EntityType) :
    SchemaGen ByteSource.Bytes where
  entityTypes := [user, group]
  getUidEnumChoices _ := none
  allowedParentTypenames ty := some (if ty = user then userParents else groupParents)
  attributeByEntityType _ := some ([], false)
  tagTypeByEntityType _ := some none
  maxDepth := 3
  maxWidth := 3
  generateType _ data := .ok (.bool, data)
  arbitraryIntConstant data := .ok (0, data)
  arbitraryStringConstant data := .ok ("", data)
  arbitraryExtConstructorCallForType _ _ := .error .extensionsDisabled
  declared ty _ := by simp

def groupGenerator (userParents groupParents : List EntityType) :
    HierarchyGenerator ByteSource.Bytes where
  mode := .schemaBased (groupSchema userParents groupParents)
  numEntities := .exactlyPerEntityType 1
  evaluate _ _ := .ok ()

end CedarSpec.HierarchyGen
