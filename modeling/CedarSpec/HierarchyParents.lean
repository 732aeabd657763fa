import CedarSpec.HierarchyUids

/-! The parents chosen for a uid of the pool: uids after it in the pool in the arbitrary
mode, uids of the allowed parent types, and of its own type only later ones, in the
schema-based mode. -/

namespace CedarSpec.HierarchyGen
open RandomGen IndexCollections HierarchyGenerator

variable {U : Type} {u : Unstructured U} {g : HierarchyGenerator U} {ids : UidLists}
  {uid : EntityUID} {s s' : U}

/-- The pool has uids of the types of the schema only, if there is one. -/
def Declared (g : HierarchyGenerator U) (ids : UidLists) : Prop :=
  ∀ schema, g.mode = .schemaBased schema → ∀ e ∈ ids, e.1 ∈ schema.entityTypes

theorem Declared.mem (hd : Declared g ids) (h : Pool ids) (hu : uid ∈ poolUids ids)
    {schema : SchemaGen U} (hg : g.mode = .schemaBased schema) :
    uid.entityType ∈ schema.entityTypes := by
  obtain ⟨l, hl, _⟩ := h.mem_of_uid hu
  exact hd schema hg _ hl

theorem chooseAmong_mem {num den : ℕ} {candidates : List EntityUID}
    {parents parents' : IndexSet EntityUID}
    (h : chooseAmong u num den candidates parents s = .ok (parents', s')) (p : EntityUID)
    (hp : p ∈ parents'.elems) : p ∈ parents.elems ∨ p ∈ candidates := by
  refine foldlM_invariant
    (fun ps : IndexSet EntityUID => ∀ p ∈ ps.elems, p ∈ parents.elems ∨ p ∈ candidates)
    ?_ (fun p hp => Or.inl hp) h p hp
  intro ps a s₁ ps' s₂ ha hps hstep q hq
  obtain ⟨b, s₃, _, hb⟩ := bind_eq_ok.mp hstep
  cases b with
  | false =>
    cases hb
    exact hps q hq
  | true =>
    cases hb
    obtain hq | rfl := (IndexSet.mem_insert ps a q).mp hq
    · exact hps q hq
    · exact Or.inr ha

theorem chooseAmong_halts (num den : ℕ) (candidates : List EntityUID)
    (parents : IndexSet EntityUID) (s : U) :
    Halts (chooseAmong u num den candidates parents) s := by
  refine foldlM_halts (fun _ => True) (fun _ _ _ _ _ _ _ _ => trivial) ?_ trivial s
  intro ps a s _ _
  refine halts_bind (halts_call _ s) fun b s' _ => ?_
  cases b <;> exact halts_pure _ s'

/-- The allowed parent types of a type; none if the schema does not know the type. -/
def allowedParents (schema : SchemaGen U) (ty : EntityType) : List EntityType :=
  (schema.allowedParentTypenames ty).getD []

/-- What makes `p` a possible parent of `uid`. -/
def MayBeParent (g : HierarchyGenerator U) (ids : UidLists) (uid p : EntityUID) : Prop :=
  match g.mode with
  | .arbitrary => p ∈ (poolUids ids).drop ((poolUids ids).idxOf uid + 1)
  | .schemaBased schema => ∃ ty ∈ allowedParents schema uid.entityType, ∃ l, (ty, l) ∈ ids ∧
      p ∈ l.elems ∧ (uid.entityType = ty → l.elems.idxOf uid < l.elems.idxOf p)

theorem not_mayBeParent_self (h : Pool ids) (hg : g.mode = .arbitrary) :
    ¬MayBeParent g ids uid uid := by
  simp only [MayBeParent, hg]
  intro hm
  exact Nat.lt_irrefl _ (lt_idxOf_of_mem_drop h.nodup_poolUids hm)

/-- The parents of one allowed type, from the candidates of that type. -/
theorem candidates_spec {schema : SchemaGen U} (h : Pool ids) (hu : uid ∈ poolUids ids)
    (hg : g.mode = .schemaBased schema) {ty : EntityType}
    (hty : ty ∈ allowedParents schema uid.entityType) :
    ∃ candidates, (Hierarchy.fromUidsByType (.collect ids)).uidsForType ty uid = some candidates ∧
      ∀ p ∈ candidates, MayBeParent g ids uid p := by
  obtain ⟨candidates, hc, hp⟩ := h.uidsForType_eq hu ty
  refine ⟨candidates, hc, fun p hpc => ?_⟩
  simp only [MayBeParent, hg]
  exact ⟨ty, hty, hp p hpc⟩

theorem idxOf?_of_mem {α : Type} [DecidableEq α] {l : List α} {a : α} (h : a ∈ l) :
    l.idxOf? a = some (l.idxOf a) := by
  induction l with
  | nil => simp at h
  | cons b l ih =>
    rw [List.idxOf?_cons, List.idxOf_cons]
    by_cases hb : b = a
    · simp [hb]
    · simp [ih ((List.mem_cons.mp h).resolve_left (Ne.symm hb)), beq_eq_false_iff_ne.mpr hb]

/-- The loop over the allowed parent types. -/
theorem parentsLoop_spec {schema : SchemaGen U} (h : Pool ids) (hu : uid ∈ poolUids ids)
    (hg : g.mode = .schemaBased schema) (tys : List EntityType)
    (htys : ∀ ty ∈ tys, ty ∈ allowedParents schema uid.entityType) (s : U) :
    Halts (tys.foldlM (chooseParentsOfType u (.fromUidsByType (.collect ids)) uid) .empty) s ∧
      ∀ parents s', tys.foldlM (chooseParentsOfType u (.fromUidsByType (.collect ids)) uid) .empty s
        = .ok (parents, s') → ∀ p ∈ parents.elems, MayBeParent g ids uid p := by
  have hrun : ∀ ty ∈ tys, ∃ candidates, (∀ parents s,
      chooseParentsOfType u (.fromUidsByType (.collect ids)) uid parents ty s
        = chooseAmong u 1 2 candidates parents s) ∧
      ∀ p ∈ candidates, MayBeParent g ids uid p := by
    intro ty hty
    obtain ⟨candidates, hc, hp⟩ := candidates_spec h hu hg (htys ty hty)
    refine ⟨candidates, fun parents s => ?_, hp⟩
    simp only [chooseParentsOfType, hc]
    exact bind_of_ok rfl _
  constructor
  · refine foldlM_halts (fun _ => True) (fun _ _ _ _ _ _ _ _ => trivial) ?_ trivial s
    intro ps ty s hty _
    obtain ⟨candidates, hc, _⟩ := hrun ty hty
    have hhalt := chooseAmong_halts (u := u) 1 2 candidates ps s
    unfold Halts at hhalt ⊢
    rw [hc]
    exact hhalt
  · intro parents s' hok
    refine foldlM_invariant
      (fun ps : IndexSet EntityUID => ∀ p ∈ ps.elems, MayBeParent g ids uid p)
      ?_ (by simp [IndexSet.empty]) hok
    intro ps ty s₁ ps' s₂ hty hps hok' p hp
    obtain ⟨candidates, hc, hcp⟩ := hrun ty hty
    rw [hc] at hok'
    exact (chooseAmong_mem hok' p hp).elim (hps p) (hcp p)

/-- Choosing parents returns, unless the source fails, and every parent chosen is one that
the mode permits. -/
theorem chooseParents_spec (h : Pool ids) (hu : uid ∈ poolUids ids) (hd : Declared g ids) (s : U) :
    Halts (g.chooseParents u (Hierarchy.fromUidsByType (.collect ids)) uid) s ∧
      ∀ parents s', g.chooseParents u (Hierarchy.fromUidsByType (.collect ids)) uid s
        = .ok (parents, s') → ∀ p ∈ parents.elems, MayBeParent g ids uid p := by
  cases hg : g.mode with
  | arbitrary =>
    have hrun : g.chooseParents u (Hierarchy.fromUidsByType (.collect ids)) uid s =
        (chooseAmong u 1 3 ((poolUids ids).drop ((poolUids ids).idxOf uid + 1)) .empty >>=
          fun parents => if uid ∈ parents.elems
            then Gen.panic "assertion failed: !parents.contains(uid)" else pure parents) s := by
      simp only [chooseParents, hg, h.uids_eq, idxOf?_of_mem hu]
      exact bind_of_ok rfl _
    have hmem : ∀ parents s', chooseAmong u 1 3
        ((poolUids ids).drop ((poolUids ids).idxOf uid + 1)) .empty s = .ok (parents, s') →
        ∀ p ∈ parents.elems, MayBeParent g ids uid p := by
      intro parents s' hok p hp
      simp only [MayBeParent, hg]
      exact (chooseAmong_mem hok p hp).resolve_left (by simp [IndexSet.empty])
    -- the assertion holds, as no uid comes after itself in the pool
    have hself : ∀ parents s', chooseAmong u 1 3
        ((poolUids ids).drop ((poolUids ids).idxOf uid + 1)) .empty s = .ok (parents, s') →
        uid ∉ parents.elems := fun parents s' hok hself =>
      not_mayBeParent_self h hg (hmem parents s' hok uid hself)
    unfold Halts
    rw [hrun]
    constructor
    · refine halts_bind (chooseAmong_halts 1 3 _ _ s) fun parents s' hok => ?_
      rw [if_neg (hself parents s' hok)]
      exact halts_pure _ s'
    · intro parents s' hok
      obtain ⟨parents', s₁, hok', hif⟩ := bind_eq_ok.mp hok
      rw [if_neg (hself parents' s₁ hok')] at hif
      cases hif
      exact hmem _ _ hok'
  | schemaBased schema =>
    have hdecl := (schema.declared _ (hd.mem h hu hg)).1
    obtain ⟨tys, htys⟩ := Option.isSome_iff_exists.mp hdecl
    have hrun : g.chooseParents u (Hierarchy.fromUidsByType (.collect ids)) uid s =
        tys.foldlM (chooseParentsOfType u (.fromUidsByType (.collect ids)) uid) .empty s := by
      simp only [chooseParents, hg, htys]
      exact bind_of_ok rfl _
    unfold Halts
    rw [hrun]
    exact parentsLoop_spec h hu hg tys (by simp [allowedParents, htys]) s

end CedarSpec.HierarchyGen
