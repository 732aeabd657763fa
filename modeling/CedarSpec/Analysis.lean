import CedarSpec.RequestEnvs
import CedarSpec.ClassPeeling

/-! The policy-set analyzer: vacuity of every policy in every request environment, then
one pass over the unordered pairs of policies that files what the solver says about a
pair into four tables, then the findings of each environment. -/

namespace CedarSpec.Analysis
open HashTable ClassPeeling RequestEnvs

variable {B S : Type}

abbrev PolicyId := String

inductive Effect
  | permit
  | forbid
  deriving DecidableEq, Repr

/-- A policy with its condition `body`. A policy linked to a template is not static. -/
structure Policy (B : Type) where
  id : PolicyId
  effect : Effect
  isStatic : Bool
  body : B

/-- A policy set, listed in the order in which `policies()` visits it. -/
structure PolicySet (B : Type) where
  policies : List (Policy B)
  nodup : (policies.map Policy.id).Nodup

/-- The solver queries of `CedarLeanFfi` over policies with bodies in `B` and schemas
in `S`. -/
structure LeanFfi (B S : Type) where
  runCheckAlwaysMatches : Policy B → S → RequestEnv → Except String Bool
  runCheckNeverMatches : Policy B → S → RequestEnv → Except String Bool
  runCheckMatchesImplies : Policy B → Policy B → S → RequestEnv → Except String Bool
  runCheckAlwaysAllows : PolicySet B → S → RequestEnv → Except String Bool
  runCheckAlwaysDenies : PolicySet B → S → RequestEnv → Except String Bool
  runCheckImplies : PolicySet B → PolicySet B → S → RequestEnv → Except String Bool

/-- The analyzer. `fromPolicies` is `PolicySet::from_policies` of the `cedar_policy`
crate, which takes static policies only. -/
structure Analyzer (B S : Type) where
  leanFfi : LeanFfi B S
  schema : Schema
  leanSchema : S
  fromPolicies : List (Policy B) → Except String (PolicySet B)

/-- An analysis fails with an error of its own, or panics in an `expect` or an index. -/
inductive Failure
  | exec (error : ExecError)
  | panic (message : String)
  deriving DecidableEq, Repr

inductive VacuityResult
  | matchesAll
  | matchesSome
  | matchesNone
  deriving DecidableEq, Repr

/-- Represents if policy1 is shadowed by policy2 or vice versa. -/
inductive ShadowingResult
  | equivalent
  | policy1Shadows2
  | policy2Shadows1
  | noResult
  deriving DecidableEq, Repr

/-- Represents if the forbid policy overrides the permit policy. -/
inductive OverrideResult
  | overrides
  | noResult
  deriving DecidableEq, Repr

def expect {α : Type} (message : String) : Option α → Except Failure α
  | some x => .ok x
  | none => .error (.panic message)

/-- The `?` on a solver query. -/
def query (answer : Except String Bool) : Except Failure Bool :=
  answer.mapError (fun e => .exec (.leanFFIError e))

/-- The answer of two queries in a row, the second asked only if the first says no. -/
def vacuity (all none : Except String Bool) : Except Failure VacuityResult := do
  if ← query all then return .matchesAll
  else if ← query none then return .matchesNone
  else return .matchesSome

namespace Analyzer

variable (a : Analyzer B S)

/-- Is a given PolicySet vacuous (per request environment). -/
def policysetVacuous (policyset : PolicySet B) (reqEnvs : List RequestEnv) :
    Except Failure (List VacuityResult) :=
  reqEnvs.mapM fun reqEnv => vacuity
    (a.leanFfi.runCheckAlwaysAllows policyset a.leanSchema reqEnv)
    (a.leanFfi.runCheckAlwaysDenies policyset a.leanSchema reqEnv)

/-- Is a given Policy vacuous (per request environment). -/
def policyVacuous (policy : Policy B) (reqEnvs : List RequestEnv) :
    Except Failure (List VacuityResult) :=
  reqEnvs.mapM fun reqEnv => vacuity
    (a.leanFfi.runCheckAlwaysMatches policy a.leanSchema reqEnv)
    (a.leanFfi.runCheckNeverMatches policy a.leanSchema reqEnv)

end Analyzer

/-- What the vacuity of two policies and, where neither is vacuous, the two implications
between them say about one environment. -/
def shadowing (implies12 implies21 : RequestEnv → Except String Bool)
    (vr1 vr2 : VacuityResult) (reqEnv : RequestEnv) : Except Failure ShadowingResult :=
  match vr1, vr2 with
  | .matchesNone, _ => .ok .noResult
  | _, .matchesNone => .ok .noResult
  | .matchesAll, .matchesAll => .ok .equivalent
  | .matchesAll, .matchesSome => .ok .policy1Shadows2
  | .matchesSome, .matchesAll => .ok .policy2Shadows1
  | .matchesSome, .matchesSome => do
    let policy1shadows2 ← query (implies12 reqEnv)
    let policy2shadows1 ← query (implies21 reqEnv)
    match policy1shadows2, policy2shadows1 with
    | true, true => return .equivalent
    | true, false => return .policy2Shadows1
    | false, true => return .policy1Shadows2
    | false, false => return .noResult

/-- The loop over the zipped vacuity results and environments. -/
def perEnv {T : Type} (f : VacuityResult → VacuityResult → RequestEnv → Except Failure T)
    (vrs1 vrs2 : List VacuityResult) (reqEnvs : List RequestEnv) : Except Failure (List T) :=
  ((vrs1.zip vrs2).zip reqEnvs).mapM fun x => f x.1.1 x.1.2 x.2

namespace Analyzer

variable (a : Analyzer B S)

def singleton (policy : Policy B) : Except Failure (PolicySet B) :=
  (a.fromPolicies [policy]).mapError (fun e => .exec (.policyIntoPolicySetError e))

/-- Redundant and shadowed relationship between two permits (per environment). The
policies are first made into policy sets, whatever their vacuity. -/
def computePermitShadowingResult (policy1 : Policy B) (vrs1 : List VacuityResult)
    (policy2 : Policy B) (vrs2 : List VacuityResult) (reqEnvs : List RequestEnv) :
    Except Failure (List ShadowingResult) := do
  let pset1 ← a.singleton policy1
  let pset2 ← a.singleton policy2
  perEnv (shadowing (a.leanFfi.runCheckImplies pset1 pset2 a.leanSchema)
    (a.leanFfi.runCheckImplies pset2 pset1 a.leanSchema)) vrs1 vrs2 reqEnvs

/-- Shadowing (and redundancy) relationship between two forbids (per environment). -/
def computeForbidShadowingResult (policy1 : Policy B) (vrs1 : List VacuityResult)
    (policy2 : Policy B) (vrs2 : List VacuityResult) (reqEnvs : List RequestEnv) :
    Except Failure (List ShadowingResult) :=
  perEnv (shadowing (a.leanFfi.runCheckMatchesImplies policy1 policy2 a.leanSchema)
    (a.leanFfi.runCheckMatchesImplies policy2 policy1 a.leanSchema)) vrs1 vrs2 reqEnvs

/-- Does the forbid override the permit in one environment. -/
def overriding (forbid permit : Policy B) (forbidVr permitVr : VacuityResult)
    (reqEnv : RequestEnv) : Except Failure OverrideResult :=
  match forbidVr, permitVr with
  | .matchesSome, .matchesSome => do
    if ← query (a.leanFfi.runCheckMatchesImplies permit forbid a.leanSchema reqEnv) then
      return .overrides
    else return .noResult
  | _, _ => .ok .noResult

/-- Determine if forbid policy overrides permit policy (per environment). -/
def computeForbidOverridesShadowResult (forbid : Policy B) (forbidVrs : List VacuityResult)
    (permit : Policy B) (permitVrs : List VacuityResult) (reqEnvs : List RequestEnv) :
    Except Failure (List OverrideResult) :=
  perEnv (a.overriding forbid permit) forbidVrs permitVrs reqEnvs

end Analyzer

/-- Policy ids filed under a policy id, one set for each request environment. -/
abbrev FindingsTable := Table PolicyId (List (Finset PolicyId))

/-- Add `pid2` to the sets at the positions where the result is the one looked for.
A position beyond the row panics. -/
def updateRow {T : Type} [DecidableEq T] (pid2 : PolicyId) (resultFilter : T) :
    List T → List (Finset PolicyId) → Except Failure (List (Finset PolicyId))
  | [], row => .ok row
  | result :: results, [] =>
    if result = resultFilter then .error (.panic "index out of bounds")
    else updateRow pid2 resultFilter results []
  | result :: results, s :: row => do
    let row' ← updateRow pid2 resultFilter results row
    return (if result = resultFilter then insert pid2 s else s) :: row'

def updateFindings {T : Type} [DecidableEq T] (pid1 pid2 : PolicyId) (results : List T)
    (findings : FindingsTable) (resultFilter : T) : Except Failure FindingsTable := do
  let findings := if pid1 ∈ findings then findings
    else findings.insert pid1 (List.replicate results.length ∅)
  let findings1 ← expect "Findings are unexpectedly missing" (findings.lookup pid1)
  let findings1' ← updateRow pid2 resultFilter results findings1
  return findings.insert pid1 findings1'

/-- The four tables that the pass over the pairs fills. -/
structure Findings where
  redundant : FindingsTable := ∅
  permitShadowedByPermit : FindingsTable := ∅
  permitOverridenByForbid : FindingsTable := ∅
  forbidShadowedByForbid : FindingsTable := ∅

/-- File equivalences under both ids, shadowings under the shadowed one. -/
def fileShadowing (id1 id2 : PolicyId) (results : List ShadowingResult)
    (redundant shadowed : FindingsTable) :
    Except Failure (FindingsTable × FindingsTable) := do
  let redundant ← updateFindings id1 id2 results redundant .equivalent
  let redundant ← updateFindings id2 id1 results redundant .equivalent
  let shadowed ← updateFindings id1 id2 results shadowed .policy2Shadows1
  let shadowed ← updateFindings id2 id1 results shadowed .policy1Shadows2
  return (redundant, shadowed)

/-- `array_combinations` for pairs: every unordered pair of positions once. -/
def arrayCombinations {α : Type} : List α → List (α × α)
  | [] => []
  | x :: xs => xs.map (fun y => (x, y)) ++ arrayCombinations xs

namespace Analyzer

variable (a : Analyzer B S)

/-- The body of the loop over the pairs. -/
def analyzePair (reqEnvs : List RequestEnv) (vacuities : Table PolicyId (List VacuityResult))
    (findings : Findings) (pair : Policy B × Policy B) : Except Failure Findings := do
  let (policy1, policy2) := pair
  let svr ← expect "Vacuousness of policy1 not precomputed" (vacuities.lookup policy1.id)
  let tvr ← expect "Vacuousness of policy2 not precomputed" (vacuities.lookup policy2.id)
  match policy1.effect, policy2.effect with
  | .permit, .permit => do
    let results ← a.computePermitShadowingResult policy1 svr policy2 tvr reqEnvs
    let (redundant, shadowed) ← fileShadowing policy1.id policy2.id results
      findings.redundant findings.permitShadowedByPermit
    return { findings with redundant := redundant, permitShadowedByPermit := shadowed }
  | .permit, .forbid => do
    let results ← a.computeForbidOverridesShadowResult policy2 tvr policy1 svr reqEnvs
    let overriden ← updateFindings policy1.id policy2.id results
      findings.permitOverridenByForbid .overrides
    return { findings with permitOverridenByForbid := overriden }
  | .forbid, .permit => do
    let results ← a.computeForbidOverridesShadowResult policy1 svr policy2 tvr reqEnvs
    let overriden ← updateFindings policy2.id policy1.id results
      findings.permitOverridenByForbid .overrides
    return { findings with permitOverridenByForbid := overriden }
  | .forbid, .forbid => do
    let results ← a.computeForbidShadowingResult policy1 svr policy2 tvr reqEnvs
    let (redundant, shadowed) ← fileShadowing policy1.id policy2.id results
      findings.redundant findings.forbidShadowedByForbid
    return { findings with redundant := redundant, forbidShadowedByForbid := shadowed }

/-- The vacuity results of every policy, under its id. -/
def policyVacuities (reqEnvs : List RequestEnv) :
    List (Policy B) → Table PolicyId (List VacuityResult) →
      Except Failure (Table PolicyId (List VacuityResult))
  | [], vacuities => .ok vacuities
  | policy :: policies, vacuities => do
    let pvr ← a.policyVacuous policy reqEnvs
    policyVacuities reqEnvs policies (vacuities.insert policy.id pvr)

end Analyzer

/-- Findings that are specific to one request environment. -/
structure PerSigFindings where
  reqEnv : RequestEnvSer
  equivClasses : List (Finset PolicyId)
  permitShadowedByPermits : Table PolicyId (Finset PolicyId)
  forbidShadowedByForbids : Table PolicyId (Finset PolicyId)
  permitOverridenByForbids : Table PolicyId (Finset PolicyId)

/-- The orders in which the hash tables and sets of one analysis happen to be visited:
those of the vacuity table, and for each environment those of the four tables, of the
peeled table and its classes, and of the three tables whose entries are counted. -/
structure HashOrders where
  vacuities : Traversal PolicyId (List VacuityResult)
  redundant : ℕ → Traversal PolicyId (List (Finset PolicyId))
  permitShadowed : ℕ → Traversal PolicyId (List (Finset PolicyId))
  permitOverriden : ℕ → Traversal PolicyId (List (Finset PolicyId))
  forbidShadowed : ℕ → Traversal PolicyId (List (Finset PolicyId))
  equivResults : ℕ → Traversal PolicyId (Finset PolicyId)
  equivClass : ℕ → SetTraversal PolicyId
  counted : ℕ → ℕ → Traversal PolicyId (Finset PolicyId)

variable (o : HashOrders)

def PerSigFindings.new (ind : ℕ) (reqEnv : RequestEnvSer)
    (equivResults permitShadowedByPermits forbidShadowedByForbids permitOverridenByForbids :
      Table PolicyId (Finset PolicyId)) : PerSigFindings :=
  { reqEnv
    equivClasses := peel (o.equivResults ind) (o.equivClass ind) equivResults
    permitShadowedByPermits, forbidShadowedByForbids, permitOverridenByForbids }

def nEntries (T : Traversal PolicyId (Finset PolicyId)) (t : Table PolicyId (Finset PolicyId)) :
    ℕ :=
  ((T.entries t).map (fun e => e.2.card)).sum

def PerSigFindings.nfindings (ind : ℕ) (f : PerSigFindings) : ℕ :=
  f.equivClasses.length + nEntries (o.counted ind 0) f.permitShadowedByPermits
    + nEntries (o.counted ind 1) f.permitOverridenByForbids
    + nEntries (o.counted ind 2) f.forbidShadowedByForbids

def vacuousFindingFromResults (results : List VacuityResult) : VacuityResult :=
  if results.all (· = .matchesAll) then .matchesAll
  else if results.all (· = .matchesNone) then .matchesNone
  else .matchesSome

structure AnalyzePolicyFindings where
  vacuousResult : VacuityResult
  vacuousPolicies : Table PolicyId VacuityResult
  perSigFindings : List PerSigFindings

/-- The column `ind` of a table. -/
def sigFindings (message : String) (ind : ℕ) (T : Traversal PolicyId (List (Finset PolicyId)))
    (t : FindingsTable) : Except Failure (Table PolicyId (Finset PolicyId)) :=
  rebuild (fun _ row => expect message row[ind]?) (T.entries t) ∅

namespace AnalyzePolicyFindings

/-- The findings of the environment at position `ind`. -/
def sig (schema : Schema) (findings : Findings) (ind : ℕ) (reqEnv : RequestEnv) :
    Except Failure PerSigFindings := do
  let redundant ← sigFindings "Redundancy for policy not precomputed for signature" ind
    (o.redundant ind) findings.redundant
  let permitShadowed ← sigFindings "Shadowing for policy not precomputed for signature" ind
    (o.permitShadowed ind) findings.permitShadowedByPermit
  let permitOverriden ← sigFindings "Overriding for policy not precomputed for signature" ind
    (o.permitOverriden ind) findings.permitOverridenByForbid
  let forbidShadowed ← sigFindings "Shadowing for policy not precomputed for signature" ind
    (o.forbidShadowed ind) findings.forbidShadowedByForbid
  return PerSigFindings.new o ind (RequestEnvSer.new schema reqEnv) redundant permitShadowed
    forbidShadowed permitOverriden

/-- The environments from position `ind` on; one without findings leaves no entry. -/
def sigs (schema : Schema) (findings : Findings) :
    ℕ → List RequestEnv → Except Failure (List PerSigFindings)
  | _, [] => .ok []
  | ind, reqEnv :: reqEnvs => do
    let f ← sig o schema findings ind reqEnv
    let fs ← sigs schema findings (ind + 1) reqEnvs
    return if f.nfindings o ind ≠ 0 then f :: fs else fs

def new (schema : Schema) (reqEnvs : List RequestEnv) (vacuousResults : List VacuityResult)
    (policyVacuityResults : Table PolicyId (List VacuityResult)) (findings : Findings) :
    Except Failure AnalyzePolicyFindings := do
  let vacuous := ((o.vacuities.entries policyVacuityResults).map
    fun e => (e.1, vacuousFindingFromResults e.2)).filter (·.2 ≠ .matchesSome)
  let perSigFindings ← sigs o schema findings 0 reqEnvs
  return ⟨vacuousFindingFromResults vacuousResults, insertAll vacuous ∅, perSigFindings⟩

end AnalyzePolicyFindings

/-- Analyze a policy set with respect to the schema of the analyzer; what is printed are
the findings returned. -/
def Analyzer.analyzePolicyset (a : Analyzer B S) (policySet : PolicySet B) :
    Except Failure AnalyzePolicyFindings := do
  let reqEnvs ← (OpenRequestEnv.any.toRequestEnvs a.schema).mapError .exec
  let policies := policySet.policies
  let vacuities ← a.policyVacuities reqEnvs policies ∅
  let policysetVacuityResults ← a.policysetVacuous policySet reqEnvs
  let findings ← (arrayCombinations policies).foldlM (a.analyzePair reqEnvs vacuities) {}
  AnalyzePolicyFindings.new o a.schema reqEnvs policysetVacuityResults vacuities findings

end CedarSpec.Analysis
