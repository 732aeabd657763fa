import CedarSpec.AnalysisExact

/-! Order independence of the findings, from their exactness, and a solver over finitely
many requests that meets the assumptions. -/

namespace CedarSpec.Analysis
open HashTable RequestEnvs

variable {B S : Type} {M : Semantics B} {schema : Schema} {ps ps' : List (Policy B)}
  {e : RequestEnv} {f g : PerSigFindings}

theorem between_perm (h : ps.Perm ps') (R : Policy B → Policy B → Prop) (k v : PolicyId) :
    Between ps R k v ↔ Between ps' R k v := by
  simp only [Between, h.mem_iff]

theorem isClass_perm (h : ps.Perm ps') (c : Finset PolicyId) :
    IsClass M ps e c ↔ IsClass M ps' e c := by
  simp only [IsClass, h.mem_iff]

/-- Exact findings of the same policies in another order are the same findings. -/
theorem ExactIn.same (h : ps.Perm ps') (hf : ExactIn M schema ps e f)
    (hg : ExactIn M schema ps' e g) : SameFindings f g where
  reqEnv := hf.reqEnv.trans hg.reqEnv.symm
  classes := by
    refine (List.perm_ext_iff_of_nodup hf.nodup hg.nodup).mpr fun c => ?_
    rw [hf.classes, hg.classes, isClass_perm h]
  permitShadowed k v := by rw [hf.permitShadowed, hg.permitShadowed, between_perm h]
  forbidShadowed k v := by rw [hf.forbidShadowed, hg.forbidShadowed, between_perm h]
  permitOverriden k v := by rw [hf.permitOverriden, hg.permitOverriden, between_perm h]

theorem SameFindings.hasFinding_iff (h : SameFindings f g) : HasFinding f ↔ HasFinding g := by
  have hc : f.equivClasses = [] ↔ g.equivClasses = [] := by
    constructor
    · exact fun he => (he ▸ h.classes).nil_eq.symm
    · exact fun he => (he ▸ h.classes).eq_nil
  simp only [HasFinding, ne_eq, hc, h.permitShadowed, h.forbidShadowed, h.permitOverriden]

theorem Exact.same {envs : List RequestEnv} {r r' : AnalyzePolicyFindings} (h : ps.Perm ps')
    (hr : Exact M schema ps envs r) (hr' : Exact M schema ps' envs r') :
    List.Forall₂ SameFindings r.perSigFindings r'.perSigFindings := by
  obtain ⟨fs, hfs, hrf⟩ := hr
  obtain ⟨gs, hgs, hrg⟩ := hr'
  rw [hrf, hrg]
  clear hrf hrg
  induction hfs generalizing gs with
  | nil =>
    cases hgs
    exact .nil
  | @cons e f envs fs hf _ ih =>
    cases hgs with
    | @cons _ g _ gs hg hgs =>
      have hsame := hf.same h hg
      have htail := ih gs hgs
      by_cases hb : HasFinding g
      · rw [List.filter_cons_of_pos (by simpa using hsame.hasFinding_iff.mpr hb),
          List.filter_cons_of_pos (by simpa using hb)]
        exact .cons hsame htail
      · rw [List.filter_cons_of_neg (by simpa [hsame.hasFinding_iff] using hb),
          List.filter_cons_of_neg (by simpa using hb)]
        exact htail

theorem incomparable_perm (h : ps.Perm ps') : Incomparable ps ↔ Incomparable ps' := by
  simp only [Incomparable, h.mem_iff]

/-- The requests of every environment are the numbers in `all`; a body lists those that
it is satisfied by. -/
def finiteSemantics (all : List ℕ) (hne : all ≠ []) : Semantics (List ℕ) where
  Request := ℕ
  requests _ := {r | r ∈ all}
  nonempty _ := List.exists_mem_of_ne_nil all hne
  satisfied body r := r ∈ body

def allows (ps : List (Policy (List ℕ))) (r : ℕ) : Bool :=
  ps.any (fun p => p.effect = .permit && r ∈ p.body) &&
    ps.all (fun p => p.effect = .permit || !(r ∈ p.body))

/-- Answers every query by going through the requests. -/
def finiteFfi (all : List ℕ) : LeanFfi (List ℕ) Unit where
  runCheckAlwaysMatches p _ _ := .ok (all.all (· ∈ p.body))
  runCheckNeverMatches p _ _ := .ok (all.all (· ∉ p.body))
  runCheckMatchesImplies p q _ _ := .ok (all.all fun r => r ∉ p.body || r ∈ q.body)
  runCheckAlwaysAllows ps _ _ := .ok (all.all (allows ps.policies))
  runCheckAlwaysDenies ps _ _ := .ok (all.all fun r => !allows ps.policies r)
  runCheckImplies ps qs _ _ := .ok (all.all fun r => !allows ps.policies r || allows qs.policies r)

theorem allows_iff (all : List ℕ) (hne : all ≠ []) (ps : List (Policy (List ℕ))) (r : ℕ) :
    allows ps r = true ↔ (finiteSemantics all hne).Allows ps r := by
  have heff : ∀ x : Effect, x = .permit ∨ x = .forbid := fun x => by cases x <;> simp
  simp only [allows, Bool.and_eq_true, List.any_eq_true, List.all_eq_true, Bool.or_eq_true,
    decide_eq_true_eq, Bool.not_eq_eq_eq_not, Bool.not_true, decide_eq_false_iff_not,
    Semantics.Allows, finiteSemantics]
  refine and_congr_right fun _ => forall₂_congr fun p _ => ?_
  rcases heff p.effect with hp | hp <;> simp [hp]

theorem finiteFfi_correct (all : List ℕ) (hne : all ≠ []) :
    (finiteFfi all).Correct () (finiteSemantics all hne) where
  alwaysMatches p e := by
    refine ⟨_, rfl, ?_⟩
    simp only [List.all_eq_true, decide_eq_true_eq]
    constructor
    · exact fun h => Set.Subset.antisymm (fun r hr => hr.1) (fun r hr => ⟨hr, h r hr⟩)
    · intro h r hr
      have hm : r ∈ (finiteSemantics all hne).matched p e := h ▸ hr
      exact hm.2
  neverMatches p e := by
    refine ⟨_, rfl, ?_⟩
    simp only [List.all_eq_true, decide_eq_true_eq]
    constructor
    · exact fun h => Set.eq_empty_of_forall_notMem fun r hr => h r hr.1 hr.2
    · intro h r hr hb
      have hm : r ∈ (finiteSemantics all hne).matched p e := ⟨hr, hb⟩
      rw [h] at hm
      exact hm
  matchesImplies p q e := by
    refine ⟨_, rfl, ?_⟩
    simp only [List.all_eq_true, Bool.or_eq_true, decide_eq_true_eq, ← imp_iff_not_or]
    exact ⟨fun h r hr => ⟨hr.1, h r hr.1 hr.2⟩, fun h r hr hb => (h ⟨hr, hb⟩).2⟩
  alwaysAllows ps e := by
    refine ⟨_, rfl, ?_⟩
    simp only [List.all_eq_true, allows_iff all hne]
    rfl
  alwaysDenies ps e := by
    refine ⟨_, rfl, ?_⟩
    simp only [List.all_eq_true, Bool.not_eq_true', ← Bool.not_eq_true, allows_iff all hne]
    rfl
  implies ps qs e := by
    refine ⟨_, rfl, ?_⟩
    simp only [List.all_eq_true, Bool.or_eq_true, Bool.not_eq_true', ← Bool.not_eq_true,
      allows_iff all hne, ← imp_iff_not_or]
    rfl

/-- A policy set of static policies only. -/
def fromStatic {B : Type} (ps : List (Policy B)) : Except String (PolicySet B) :=
  if h : ps.all (·.isStatic) ∧ (ps.map Policy.id).Nodup then .ok ⟨ps, h.2⟩
  else .error "expected distinct static policies"

theorem fromStatic_takesStatic {B : Type} : TakesStatic (fromStatic (B := B)) where
  static p hp := ⟨⟨[p], by simp⟩, by simp [fromStatic, hp], rfl⟩
  linked p hp := ⟨_, by simp [fromStatic, hp]; rfl⟩

/-- Every table and set is visited in increasing order of the ids. -/
def HashOrders.sorted : HashOrders where
  vacuities := .ofKeys .sorted
  redundant _ := .ofKeys .sorted
  permitShadowed _ := .ofKeys .sorted
  permitOverriden _ := .ofKeys .sorted
  forbidShadowed _ := .ofKeys .sorted
  equivResults _ := .ofKeys .sorted
  equivClass _ := .sorted
  counted _ _ := .ofKeys .sorted

/-- One action `view` of users on photos. -/
def photoSchema : Schema where
  actionEntities := .ok [⟨⟨[], "Action"⟩, "view"⟩]
  principalsForAction _ := some [⟨[], "User"⟩]
  resourcesForAction _ := some [⟨[], "Photo"⟩]
  le _ _ := true
  escaped := id

def photoAnalyzer : Analyzer (List ℕ) Unit where
  leanFfi := finiteFfi [0, 1, 2]
  schema := photoSchema
  leanSchema := ()
  fromPolicies := fromStatic

/-- Two equivalent permits, a permit inside them and a forbid over it. -/
def photoPolicies : PolicySet (List ℕ) where
  policies := [⟨"p0", .permit, true, [0, 1]⟩, ⟨"p1", .permit, true, [1, 0]⟩,
    ⟨"p2", .permit, true, [0]⟩, ⟨"f0", .forbid, true, [0, 2]⟩]
  nodup := by decide

def photoEnvs : List RequestEnv :=
  [⟨⟨[], "User"⟩, ⟨⟨[], "Action"⟩, "view"⟩, ⟨[], "Photo"⟩⟩]

theorem toRequestEnvs_photoSchema :
    OpenRequestEnv.any.toRequestEnvs photoAnalyzer.schema = .ok photoEnvs := by
  have hadmits : admits (id : EntityTypeName → EntityTypeName) none = fun _ => true := rfl
  simp [OpenRequestEnv.toRequestEnvs, OpenRequestEnv.any, photoAnalyzer, photoSchema,
    envsOfAction, admits, hadmits, photoEnvs]

end CedarSpec.Analysis
