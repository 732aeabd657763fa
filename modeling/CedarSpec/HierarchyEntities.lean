import CedarSpec.HierarchyParents

/-! The entities of a pool of uids. Choosing parents, attributes and tags returns or fails
for every uid of the pool: no unwrap, index or assertion on the way can panic. -/

namespace CedarSpec.HierarchyGen
open RandomGen IndexCollections HierarchyGenerator

variable {U : Type} {u : Unstructured U} {g : HierarchyGenerator U} {ids : UidLists}
  {uid : EntityUID} {schema : SchemaGen U}

theorem arbitraryUidWithType_halts (hu : u.Lawful) (h : Hierarchy) (schema : SchemaGen U)
    (ty : EntityType) (s : U) : Halts (h.arbitraryUidWithType u schema ty) s := by
  refine halts_bind (halts_call _ s) fun b s' _ => ?_
  cases b with
  | false => exact generateUidWithType_halts hu ty _ s'
  | true =>
    cases h.uidsByType.get ty with
    | none => exact halts_fail _ s'
    | some v =>
      refine halts_bind (halts_call _ s') fun idx s₂ hidx => ?_
      have hlt := hu.choose_lt _ s' idx s₂ (call_eq_ok.mp hidx)
      rw [List.getElem?_eq_getElem hlt]
      exact halts_pure _ s₂

theorem requiredOrCoin_halts (required : Bool) (s : U) : Halts (requiredOrCoin u required) s := by
  cases required
  · exact halts_call _ s
  · exact halts_pure true s

/-- Attribute values, by induction on the depth that is left. -/
theorem generateAttrValueForType_halts (hu : u.Lawful) (schema : SchemaGen U) (h : Hierarchy)
    (maxDepth : ℕ) (ty : AbacType) (s : U) :
    Halts (generateAttrValueForType u schema h maxDepth ty) s := by
  have hleaf : ∀ {α : Type} (m : Gen U Error α) (f : α → AttrValue) (s : U), Halts m s →
      Halts (m >>= fun a => pure (f a)) s := fun m f s hm =>
    halts_bind hm fun a s' _ => halts_pure (f a) s'
  induction maxDepth generalizing ty s with
  | zero =>
    cases ty
    case bool => exact hleaf _ _ s (halts_call _ s)
    case long => exact hleaf _ _ s (halts_call _ s)
    case string => exact hleaf _ _ s (halts_call _ s)
    case entity ety => exact hleaf _ _ s (arbitraryUidWithType_halts hu h schema ety s)
    case set t => exact halts_pure _ s
    case record m => exact halts_pure _ s
    all_goals exact halts_fail _ s
  | succ maxDepth ih =>
    cases ty
    case bool => exact hleaf _ _ s (halts_call _ s)
    case long => exact hleaf _ _ s (halts_call _ s)
    case string => exact hleaf _ _ s (halts_call _ s)
    case entity ety => exact hleaf _ _ s (arbitraryUidWithType_halts hu h schema ety s)
    case set t =>
      refine hleaf _ _ s (hu.loop_halts _ _ _ _ s fun l s' => ?_)
      exact halts_bind (ih t s') fun v s₂ _ => halts_pure _ s₂
    case record m =>
      refine hleaf _ _ s ?_
      refine foldlM_halts (fun _ => True) (fun _ _ _ _ _ _ _ _ => trivial) ?_ trivial s
      intro r a s' _ _
      refine halts_bind (requiredOrCoin_halts _ s') fun b s₂ _ => ?_
      cases b
      · exact halts_pure r s₂
      · exact halts_bind (ih a.2.1 s₂) fun v s₃ _ => halts_pure _ s₃
    all_goals exact halts_call _ s

theorem additionalAttrs_halts (hu : u.Lawful) (schema : SchemaGen U) (h : Hierarchy) (s : U) :
    Halts (additionalAttrs u schema h) s := by
  refine hu.loop_halts _ _ _ _ s fun attrs s' => ?_
  refine halts_bind (halts_call _ s') fun ty s₁ _ => halts_bind (halts_call _ s₁) fun nm s₂ _ => ?_
  exact halts_bind (generateAttrValueForType_halts hu schema h _ ty s₂) fun v s₃ _ =>
    halts_pure _ s₃

theorem declaredAttrs_halts (hu : u.Lawful) (schema : SchemaGen U) (h : Hierarchy)
    (entityAttrs : List (String × AbacType × Bool)) (attrs : IndexMap String AttrValue) (s : U) :
    Halts (declaredAttrs u schema h entityAttrs attrs) s := by
  refine foldlM_halts (fun _ => True) (fun _ _ _ _ _ _ _ _ => trivial) ?_ trivial s
  intro attrs a s' _ _
  refine halts_bind (requiredOrCoin_halts _ s') fun b s₂ _ => ?_
  cases b
  · exact halts_pure attrs s₂
  · exact halts_bind (generateAttrValueForType_halts hu schema h _ _ s₂) fun v s₃ _ =>
      halts_pure _ s₃

theorem chooseAttrs_halts (hu : u.Lawful) (h : Hierarchy)
    (hd : ∀ schema, g.mode = .schemaBased schema → uid.entityType ∈ schema.entityTypes) (s : U) :
    Halts (g.chooseAttrs u h uid) s := by
  cases hg : g.mode with
  | arbitrary =>
    simp only [chooseAttrs, hg]
    exact halts_pure _ s
  | schemaBased schema =>
    obtain ⟨r, hr⟩ := Option.isSome_iff_exists.mp (schema.declared _ (hd schema hg)).2.1
    simp only [chooseAttrs, hg, hr]
    refine halts_bind (halts_pure r s) fun r s' _ => ?_
    split
    · exact halts_bind (additionalAttrs_halts hu schema h s') fun attrs s₂ _ =>
        declaredAttrs_halts hu schema h _ attrs s₂
    · exact declaredAttrs_halts hu schema h _ _ s'

theorem chooseTags_halts (hu : u.Lawful) (h : Hierarchy)
    (hd : ∀ schema, g.mode = .schemaBased schema → uid.entityType ∈ schema.entityTypes) (s : U) :
    Halts (g.chooseTags u h uid) s := by
  cases hg : g.mode with
  | arbitrary =>
    simp only [chooseTags, hg]
    exact halts_pure _ s
  | schemaBased schema =>
    obtain ⟨r, hr⟩ := Option.isSome_iff_exists.mp (schema.declared _ (hd schema hg)).2.2
    simp only [chooseTags, hg, hr]
    refine halts_bind (halts_pure r s) fun r s' _ => ?_
    cases r with
    | none => exact halts_pure _ s'
    | some ty =>
      refine hu.loop_halts _ _ _ _ s' fun tags s₁ => halts_bind (halts_call _ s₁) fun key s₂ _ => ?_
      exact halts_bind (generateAttrValueForType_halts hu schema h _ ty s₂) fun v s₃ _ =>
        halts_pure _ s₃

theorem generateEntity_halts (hu : u.Lawful) (h : Pool ids) (hm : uid ∈ poolUids ids)
    (hd : Declared g ids) (s : U) :
    Halts (g.generateEntity u (.fromUidsByType (.collect ids)) uid) s := by
  have hty : ∀ schema, g.mode = .schemaBased schema → uid.entityType ∈ schema.entityTypes :=
    fun schema hg => hd.mem h hm hg
  refine halts_bind (chooseParents_spec h hm hd s).1 fun parents s₁ _ => ?_
  refine halts_bind (chooseAttrs_halts hu _ hty s₁) fun attrs s₂ _ => ?_
  refine halts_bind (chooseTags_halts hu _ hty s₂) fun tags s₃ _ => ?_
  cases g.evaluate attrs tags with
  | ok _ => exact halts_pure _ s₃
  | error e => exact halts_fail _ s₃

/-- The entity generated for a uid keeps the uid and has permitted parents. -/
theorem generateEntity_ok (h : Pool ids) (hm : uid ∈ poolUids ids) (hd : Declared g ids)
    {s s' : U} {e : Entity}
    (hok : g.generateEntity u (.fromUidsByType (.collect ids)) uid s = .ok (e, s')) :
    e.uid = uid ∧ ∀ p ∈ e.parents, MayBeParent g ids uid p := by
  obtain ⟨parents, s₁, h₁, hok⟩ := bind_eq_ok.mp hok
  obtain ⟨attrs, s₂, _, hok⟩ := bind_eq_ok.mp hok
  obtain ⟨tags, s₃, _, hok⟩ := bind_eq_ok.mp hok
  cases hev : g.evaluate attrs tags with
  | error e =>
    simp only [hev] at hok
    cases hok
  | ok _ =>
    simp only [hev] at hok
    cases hok
    refine ⟨rfl, fun p hp => ?_⟩
    exact (chooseParents_spec h hm hd s).2 parents s₁ h₁ p (List.mem_toFinset.mp hp)

/-- The entities of the whole pool, under their uids. -/
def poolEntities (u : Unstructured U) (g : HierarchyGenerator U) (ids : UidLists) :
    Gen U Error (List (EntityUID × Entity)) :=
  (Hierarchy.fromUidsByType (.collect ids)).entities.values.mapM fun e => do
    return (e.uid, ← g.generateEntity u (.fromUidsByType (.collect ids)) e.uid)

theorem poolEntities_halts (hu : u.Lawful) (h : Pool ids) (hd : Declared g ids) (s : U) :
    Halts (poolEntities u g ids) s := by
  refine mapM_halts (fun e he s => ?_) s
  rw [h.values_entities, List.mem_map] at he
  obtain ⟨uid, hm, rfl⟩ := he
  exact halts_bind (generateEntity_halts hu h hm hd s) fun e s' _ => halts_pure _ s'

theorem poolEntities_ok (h : Pool ids) (hd : Declared g ids) {s s' : U}
    {entities : List (EntityUID × Entity)} (hok : poolEntities u g ids s = .ok (entities, s')) :
    entities.map Prod.fst = poolUids ids ∧
      ∀ x ∈ entities, x.2.uid = x.1 ∧ ∀ p ∈ x.2.parents, MayBeParent g ids x.1 p := by
  have hall := mapM_eq_ok hok
  rw [h.values_entities, List.forall₂_map_left_iff] at hall
  have hstep : List.Forall₂ (fun uid (x : EntityUID × Entity) => uid ∈ poolUids ids → x.1 = uid ∧
      x.2.uid = uid ∧ ∀ p ∈ x.2.parents, MayBeParent g ids uid p) (poolUids ids) entities := by
    refine hall.imp fun uid x hx hm => ?_
    obtain ⟨v, v', hv⟩ := hx
    obtain ⟨e, s₁, he, hx⟩ := bind_eq_ok.mp hv
    cases hx
    exact ⟨rfl, generateEntity_ok h hm hd he⟩
  have hmem : ∀ {l : List EntityUID} {xs : List (EntityUID × Entity)},
      List.Forall₂ (fun uid (x : EntityUID × Entity) => uid ∈ poolUids ids → x.1 = uid ∧
        x.2.uid = uid ∧ ∀ p ∈ x.2.parents, MayBeParent g ids uid p) l xs →
      l ⊆ poolUids ids → xs.map Prod.fst = l ∧
        ∀ x ∈ xs, x.2.uid = x.1 ∧ ∀ p ∈ x.2.parents, MayBeParent g ids x.1 p := by
    intro l xs hf
    induction hf with
    | nil => simp
    | @cons uid x l xs hx _ ih =>
      intro hsub
      obtain ⟨hmap, hrest⟩ := ih (List.subset_of_cons_subset hsub)
      obtain ⟨hfst, huid, hp⟩ := hx (hsub (by simp))
      subst hfst
      refine ⟨by simp [hmap], fun y hy => ?_⟩
      obtain rfl | hy := List.mem_cons.mp hy
      · exact ⟨huid, hp⟩
      · exact hrest y hy
  exact hmem hstep (List.Subset.refl _)

/-! ## The three stages of a generation -/

theorem generate_eq (u : Unstructured U) (g : HierarchyGenerator U) (fuel : ℕ) :
    g.generate u fuel = g.chosenEntityTypes u >>= fun types =>
      g.uidsByType u fuel types.elems.length types.elems >>= fun ids =>
        poolEntities u g ids >>= fun entities =>
          pure ((Hierarchy.fromUidsByType (.collect ids)).replaceEntities (.collect entities)) :=
  rfl

variable {fuel nTypes : ℕ} {s s₀ s' : U} {types : IndexSet EntityType}

theorem chosenEntityTypes_halts (u : Unstructured U) (g : HierarchyGenerator U) (s : U) :
    Halts (g.chosenEntityTypes u) s := by
  simp only [chosenEntityTypes]
  cases g.mode with
  | schemaBased schema => exact halts_pure _ s
  | arbitrary => exact halts_bind (halts_call _ s) fun tys s' _ => halts_pure _ s'

theorem mem_chosenEntityTypes (hg : g.mode = .schemaBased schema)
    (h : g.chosenEntityTypes u s = .ok (types, s')) (ty : EntityType) :
    ty ∈ types.elems ↔ ty ∈ schema.entityTypes := by
  simp only [chosenEntityTypes, hg] at h
  cases h
  exact IndexSet.mem_collect _ ty

/-- The uids drawn for the chosen types form a pool, of declared types if there is a schema. -/
theorem pool_of_chosen (hu : u.Lawful) (ht : g.chosenEntityTypes u s₀ = .ok (types, s))
    (h : g.uidsByType u fuel nTypes types.elems s = .ok (ids, s')) : Pool ids ∧ Declared g ids := by
  obtain ⟨hfst, hpool⟩ := uidsByType_pool hu h
  refine ⟨hpool types.nodup, fun schema hm e he => ?_⟩
  have hmem : e.1 ∈ ids.map Prod.fst := List.mem_map_of_mem he
  rw [hfst] at hmem
  exact (mem_chosenEntityTypes hm ht e.1).mp hmem

end CedarSpec.HierarchyGen
