import Mathlib

/-! Request environments of a schema: the principal, action and resource types that the
schema lets occur together, optionally restricted by an open request environment. -/

namespace CedarSpec.RequestEnvs

structure EntityTypeName where
  path : List String
  basename : String
  deriving DecidableEq, Repr

structure EntityUid where
  ty : EntityTypeName
  id : String
  deriving DecidableEq, Repr

structure RequestEnv where
  principal : EntityTypeName
  action : EntityUid
  resource : EntityTypeName
  deriving DecidableEq, Repr

/-- What the analysis reads off a schema of the `cedar_policy` crate, with the order
that sorts request environments and the escaped form of an entity id. -/
structure Schema where
  actionEntities : Except String (List EntityUid)
  principalsForAction : EntityUid → Option (List EntityTypeName)
  resourcesForAction : EntityUid → Option (List EntityTypeName)
  le : RequestEnv → RequestEnv → Bool
  escaped : String → String

/-- The errors of `ExecError` that the analysis can return. -/
inductive ExecError
  | policyIntoPolicySetError (error : String)
  | actionsFromSchemaError (error : String)
  | requestEnvArgsIncompatible (principalType actionName resourceType : String)
  | leanFFIError (error : String)
  deriving DecidableEq, Repr

structure OpenRequestEnv where
  principalType : Option EntityTypeName
  actionId : Option EntityUid
  resourceType : Option EntityTypeName
  deriving DecidableEq, Repr

def OpenRequestEnv.any : OpenRequestEnv := ⟨none, none, none⟩

/-- A component left open admits everything. -/
def admits {α β : Type} [DecidableEq β] (key : α → β) (open? : Option α) (x : α) : Bool :=
  match open? with
  | none => true
  | some y => decide (key y = key x)

variable (schema : Schema)

/-- The environments of one action, principal types in the outer loop. Actions are
compared by id only. -/
def envsOfAction (o : OpenRequestEnv) (action : EntityUid) : List RequestEnv :=
  if admits EntityUid.id o.actionId action then
    (((schema.principalsForAction action).getD []).filter (admits id o.principalType)).flatMap
      fun principal =>
        (((schema.resourcesForAction action).getD []).filter (admits id o.resourceType)).map
          fun resource => ⟨principal, action, resource⟩
  else []

def OpenRequestEnv.toRequestEnvs (o : OpenRequestEnv) : Except ExecError (List RequestEnv) :=
  match schema.actionEntities with
  | .error e => .error (.actionsFromSchemaError e)
  | .ok actionIds =>
    let reqEnvs := actionIds.flatMap (envsOfAction schema o)
    if reqEnvs.isEmpty && (o.actionId.isSome || o.principalType.isSome || o.resourceType.isSome)
    then .error (.requestEnvArgsIncompatible
      ((o.principalType.map (·.basename)).getD "Every principal")
      ((o.actionId.map (schema.escaped ·.id)).getD "perform any action")
      ((o.resourceType.map (·.basename)).getD "any resource"))
    else .ok (reqEnvs.mergeSort schema.le)

/-- The labels under which the findings of an environment are shown. -/
structure RequestEnvSer where
  principalType : String
  actionUid : String
  resourceType : String
  deriving DecidableEq, Repr

def RequestEnvSer.new (reqEnv : RequestEnv) : RequestEnvSer :=
  ⟨reqEnv.principal.basename, schema.escaped reqEnv.action.id, reqEnv.resource.basename⟩

/-- The schema lets the environment occur and no component of `o` excludes it. -/
structure Consistent (o : OpenRequestEnv) (actionIds : List EntityUid) (e : RequestEnv) :
    Prop where
  action : e.action ∈ actionIds
  principal : ∃ ps, schema.principalsForAction e.action = some ps ∧ e.principal ∈ ps
  resource : ∃ rs, schema.resourcesForAction e.action = some rs ∧ e.resource ∈ rs
  openAction : ∀ a, o.actionId = some a → a.id = e.action.id
  openPrincipal : ∀ p, o.principalType = some p → p = e.principal
  openResource : ∀ r, o.resourceType = some r → r = e.resource

theorem admits_iff {α β : Type} [DecidableEq β] (key : α → β) (open? : Option α) (x : α) :
    admits key open? x = true ↔ ∀ y, open? = some y → key y = key x := by
  cases open? <;> simp [admits]

theorem mem_getD_nil {α : Type} (l : Option (List α)) (x : α) :
    x ∈ l.getD [] ↔ ∃ xs, l = some xs ∧ x ∈ xs := by
  cases l <;> simp

theorem mem_envsOfAction (o : OpenRequestEnv) (action : EntityUid) (e : RequestEnv) :
    e ∈ envsOfAction schema o action ↔
      e.action = action ∧ Consistent schema o [action] e := by
  unfold envsOfAction
  constructor
  · intro h
    split at h
    case isFalse => cases h
    case isTrue ha =>
      simp only [List.mem_flatMap, List.mem_map, List.mem_filter, mem_getD_nil, admits_iff] at h ha
      obtain ⟨p, ⟨hp, hpo⟩, r, ⟨hr, hro⟩, rfl⟩ := h
      exact ⟨rfl, List.mem_singleton.mpr rfl, hp, hr, ha, hpo, hro⟩
  · intro hx
    obtain ⟨rfl, h⟩ := hx
    rw [if_pos ((admits_iff _ _ _).mpr h.openAction)]
    simp only [List.mem_flatMap, List.mem_map, List.mem_filter, mem_getD_nil, admits_iff]
    exact ⟨e.principal, ⟨h.principal, h.openPrincipal⟩, e.resource,
      ⟨h.resource, h.openResource⟩, rfl⟩

/-- The environments returned are those consistent with both the schema and `o`. -/
theorem mem_toRequestEnvs (o : OpenRequestEnv) (actionIds : List EntityUid)
    (es : List RequestEnv) (ha : schema.actionEntities = .ok actionIds)
    (h : o.toRequestEnvs schema = .ok es) (e : RequestEnv) :
    e ∈ es ↔ Consistent schema o actionIds e := by
  unfold OpenRequestEnv.toRequestEnvs at h
  rw [ha] at h
  simp only at h
  split at h
  · cases h
  · cases h
    rw [List.mem_mergeSort, List.mem_flatMap]
    simp only [mem_envsOfAction]
    constructor
    · intro hx
      obtain ⟨a, ha, rfl, hc⟩ := hx
      exact ⟨ha, hc.principal, hc.resource, hc.openAction, hc.openPrincipal, hc.openResource⟩
    · intro hc
      exact ⟨e.action, hc.action, rfl, List.mem_singleton.mpr rfl, hc.principal, hc.resource,
        hc.openAction, hc.openPrincipal, hc.openResource⟩

/-- Leaving everything open fails only if the schema has no action entities to give. -/
theorem toRequestEnvs_any (actionIds : List EntityUid)
    (ha : schema.actionEntities = .ok actionIds) :
    ∃ es, OpenRequestEnv.any.toRequestEnvs schema = .ok es := by
  simp [OpenRequestEnv.toRequestEnvs, OpenRequestEnv.any, ha]

end CedarSpec.RequestEnvs
