import CedarSpec.Analysis

/-! A solver that answers every query correctly, and what the queries of one pair of
policies then establish about the sets of requests the two policies match. -/

namespace CedarSpec.Analysis
open HashTable RequestEnvs

/-- What the policies say about requests. A request comes with its entities; those of an
environment are the well-formed ones, and as every type of a schema is inhabited there
is at least one. -/
structure Semantics (B : Type) where
  Request : Type
  requests : RequestEnv → Set Request
  nonempty : ∀ e, (requests e).Nonempty
  satisfied : B → Request → Prop

variable {B S : Type}

namespace Semantics

variable (M : Semantics B)

/-- The requests of an environment that a policy matches, whatever its effect. -/
def matched (p : Policy B) (e : RequestEnv) : Set M.Request :=
  {r | r ∈ M.requests e ∧ M.satisfied p.body r}

/-- A request is allowed if a permit matches it and no forbid does. -/
def Allows (ps : List (Policy B)) (r : M.Request) : Prop :=
  (∃ p ∈ ps, p.effect = .permit ∧ M.satisfied p.body r) ∧
    ∀ p ∈ ps, p.effect = .forbid → ¬M.satisfied p.body r

/-- Matches neither all requests of the environment nor none. -/
def NonVacuous (p : Policy B) (e : RequestEnv) : Prop :=
  M.matched p e ≠ M.requests e ∧ M.matched p e ≠ ∅

end Semantics

/-- The query is answered, with yes exactly when `P` holds. -/
def Answers (answer : Except String Bool) (P : Prop) : Prop :=
  ∃ b, answer = .ok b ∧ (b = true ↔ P)

/-- A solver that answers every query about the schema correctly. -/
structure LeanFfi.Correct (ffi : LeanFfi B S) (schema : S) (M : Semantics B) : Prop where
  alwaysMatches : ∀ p e, Answers (ffi.runCheckAlwaysMatches p schema e)
    (M.matched p e = M.requests e)
  neverMatches : ∀ p e, Answers (ffi.runCheckNeverMatches p schema e) (M.matched p e = ∅)
  matchesImplies : ∀ p q e, Answers (ffi.runCheckMatchesImplies p q schema e)
    (M.matched p e ⊆ M.matched q e)
  alwaysAllows : ∀ ps e, Answers (ffi.runCheckAlwaysAllows ps schema e)
    (∀ r ∈ M.requests e, M.Allows ps.policies r)
  alwaysDenies : ∀ ps e, Answers (ffi.runCheckAlwaysDenies ps schema e)
    (∀ r ∈ M.requests e, ¬M.Allows ps.policies r)
  implies : ∀ ps qs e, Answers (ffi.runCheckImplies ps qs schema e)
    (∀ r ∈ M.requests e, M.Allows ps.policies r → M.Allows qs.policies r)

/-- `PolicySet::from_policies` on one policy: a static policy gives its set, a policy
linked to a template is refused. -/
structure TakesStatic (fromPolicies : List (Policy B) → Except String (PolicySet B)) :
    Prop where
  static : ∀ p, p.isStatic = true → ∃ ps, fromPolicies [p] = .ok ps ∧ ps.policies = [p]
  linked : ∀ p, p.isStatic = false → ∃ e, fromPolicies [p] = .error e

/-- A loop over a list that succeeds on every element returns the list of the results. -/
theorem mapM_forall₂ {α β : Type} (f : α → Except Failure β) (Q : α → β → Prop) (l : List α)
    (h : ∀ x ∈ l, ∃ y, f x = .ok y ∧ Q x y) :
    ∃ ys, l.mapM f = .ok ys ∧ List.Forall₂ Q l ys := by
  induction l with
  | nil => exact ⟨[], rfl, .nil⟩
  | cons x xs ih =>
    obtain ⟨y, hy, hQ⟩ := h x (by simp)
    obtain ⟨ys, hys, hQs⟩ := ih (fun z hz => h z (List.mem_cons_of_mem x hz))
    refine ⟨y :: ys, ?_, .cons hQ hQs⟩
    simp [List.mapM_cons, hy, hys, bind, Except.bind, pure, Except.pure]

theorem forall₂_getElem? {α β : Type} {Q : α → β → Prop} {l : List α} {ys : List β}
    (h : List.Forall₂ Q l ys) (i : ℕ) (x : α) (y : β) (hx : l[i]? = some x)
    (hy : ys[i]? = some y) : Q x y := by
  induction h generalizing i with
  | nil => simp at hx
  | cons hq _ ih =>
    cases i with
    | zero =>
      rw [List.getElem?_cons_zero, Option.some.injEq] at hx hy
      exact hx ▸ hy ▸ hq
    | succ i => exact ih i hx hy

variable (M : Semantics B)

/-- What the vacuity of a policy says about the requests it matches. -/
def VacuityOf (all none : Prop) : VacuityResult → Prop
  | .matchesAll => all
  | .matchesNone => ¬all ∧ none
  | .matchesSome => ¬all ∧ ¬none

def Semantics.PolicyVacuity (p : Policy B) (e : RequestEnv) : VacuityResult → Prop :=
  VacuityOf (M.matched p e = M.requests e) (M.matched p e = ∅)

theorem query_of_answers {answer : Except String Bool} {P : Prop} (h : Answers answer P) :
    ∃ b, query answer = .ok b ∧ (b = true ↔ P) := by
  obtain ⟨b, rfl, hb⟩ := h
  exact ⟨b, rfl, hb⟩

theorem vacuity_spec {all none : Except String Bool} {P Q : Prop} (hall : Answers all P)
    (hnone : Answers none Q) : ∃ vr, vacuity all none = .ok vr ∧ VacuityOf P Q vr := by
  obtain ⟨b, hb, hP⟩ := query_of_answers hall
  obtain ⟨c, hc, hQ⟩ := query_of_answers hnone
  simp only [vacuity, hb, hc, bind, Except.bind]
  cases b <;> cases c
  · exact ⟨.matchesSome, rfl, by simpa using hP, by simpa using hQ⟩
  · exact ⟨.matchesNone, rfl, by simpa using hP, by simpa using hQ⟩
  · exact ⟨.matchesAll, rfl, hP.mp rfl⟩
  · exact ⟨.matchesAll, rfl, hP.mp rfl⟩

/-- The environment's verdict on two policies in terms of their sets of requests. -/
structure Semantics.Shadows (p q : Policy B) (e : RequestEnv) (r : ShadowingResult) : Prop where
  equivalent : r = .equivalent ↔
    M.matched p e = M.matched q e ∧ (M.matched p e).Nonempty
  policy2Shadows1 : r = .policy2Shadows1 ↔
    (M.matched p e).Nonempty ∧ M.matched p e ⊂ M.matched q e
  policy1Shadows2 : r = .policy1Shadows2 ↔
    (M.matched q e).Nonempty ∧ M.matched q e ⊂ M.matched p e

theorem matched_subset (p : Policy B) (e : RequestEnv) : M.matched p e ⊆ M.requests e :=
  fun _ h => h.1

/-- The verdict on two policies that both match something, from the two implications. -/
def verdict : Bool → Bool → ShadowingResult
  | true, true => .equivalent
  | true, false => .policy2Shadows1
  | false, true => .policy1Shadows2
  | false, false => .noResult

theorem shadows_verdict (p q : Policy B) (e : RequestEnv) (b12 b21 : Bool)
    (hp : (M.matched p e).Nonempty) (hq : (M.matched q e).Nonempty)
    (h12 : b12 = true ↔ M.matched p e ⊆ M.matched q e)
    (h21 : b21 = true ↔ M.matched q e ⊆ M.matched p e) :
    M.Shadows p q e (verdict b12 b21) := by
  have heq : M.matched p e = M.matched q e ↔ b12 = true ∧ b21 = true := by
    rw [h12, h21, Set.Subset.antisymm_iff]
  have hss : M.matched p e ⊂ M.matched q e ↔ b12 = true ∧ ¬b21 = true := by
    rw [h12, h21, Set.ssubset_def]
  have hss' : M.matched q e ⊂ M.matched p e ↔ b21 = true ∧ ¬b12 = true := by
    rw [h12, h21, Set.ssubset_def]
  constructor
  · cases b12 <;> cases b21 <;> simp [verdict, heq, hp]
  · cases b12 <;> cases b21 <;> simp [verdict, hss, hp]
  · cases b12 <;> cases b21 <;> simp [verdict, hss', hq]

/-- A policy that matches nothing neither shadows nor is shadowed. -/
theorem shadows_noResult (p q : Policy B) (e : RequestEnv)
    (h : M.matched p e = ∅ ∨ M.matched q e = ∅) : M.Shadows p q e .noResult := by
  have hnot : ∀ A : Set M.Request, ¬A ⊂ ∅ := fun A hA => hA.2 (Set.empty_subset A)
  obtain h | h := h
  · constructor <;> simp [h, hnot]
  · constructor
    · simp only [reduceCtorEq, false_iff, not_and, h]
      rintro he
      simp [he]
    · simp [h, hnot]
    · simp [h]

theorem shadowing_spec (p q : Policy B) (e : RequestEnv) (vr1 vr2 : VacuityResult)
    (i12 i21 : RequestEnv → Except String Bool)
    (h1 : M.PolicyVacuity p e vr1) (h2 : M.PolicyVacuity q e vr2)
    (h12 : Answers (i12 e) (M.matched p e ⊆ M.matched q e))
    (h21 : Answers (i21 e) (M.matched q e ⊆ M.matched p e)) :
    ∃ r, shadowing i12 i21 vr1 vr2 e = .ok r ∧ M.Shadows p q e r := by
  have hp := matched_subset M p e
  have hq := matched_subset M q e
  have hall : ∀ p', M.matched p' e = M.requests e → (M.matched p' e).Nonempty :=
    fun p' h => h ▸ M.nonempty e
  cases vr1 with
  | matchesNone => exact ⟨.noResult, by cases vr2 <;> rfl, shadows_noResult M p q e (Or.inl h1.2)⟩
  | matchesAll =>
    have hpU : M.matched p e = M.requests e := h1
    cases vr2 with
    | matchesNone => exact ⟨.noResult, rfl, shadows_noResult M p q e (Or.inr h2.2)⟩
    | matchesAll =>
      have hqU : M.matched q e = M.requests e := h2
      refine ⟨.equivalent, rfl, ?_⟩
      exact shadows_verdict M p q e true true (hall p h1) (hall q h2)
        (by simp [hpU, hqU]) (by simp [hpU, hqU])
    | matchesSome =>
      refine ⟨.policy1Shadows2, rfl, ?_⟩
      refine shadows_verdict M p q e false true (hall p h1)
        (Set.nonempty_iff_ne_empty.mpr h2.2) ?_ (by simpa [hpU] using hq)
      simp only [Bool.false_eq_true, false_iff, hpU]
      exact fun hsub => h2.1 (Set.Subset.antisymm hq hsub)
  | matchesSome =>
    cases vr2 with
    | matchesNone => exact ⟨.noResult, rfl, shadows_noResult M p q e (Or.inr h2.2)⟩
    | matchesAll =>
      have hqU : M.matched q e = M.requests e := h2
      refine ⟨.policy2Shadows1, rfl, ?_⟩
      refine shadows_verdict M p q e true false (Set.nonempty_iff_ne_empty.mpr h1.2)
        (hall q h2) (by simpa [hqU] using hp) ?_
      simp only [Bool.false_eq_true, false_iff, hqU]
      exact fun hsub => h1.1 (Set.Subset.antisymm hp hsub)
    | matchesSome =>
      obtain ⟨b, hb, hP⟩ := query_of_answers h12
      obtain ⟨c, hc, hQ⟩ := query_of_answers h21
      refine ⟨verdict b c, ?_, shadows_verdict M p q e b c (Set.nonempty_iff_ne_empty.mpr h1.2)
        (Set.nonempty_iff_ne_empty.mpr h2.2) hP hQ⟩
      simp only [shadowing, hb, hc, bind, Except.bind]
      cases b <;> cases c <;> rfl

/-- The permit is overridden by the forbid in the environment. -/
def Semantics.Overridden (permit forbid : Policy B) (e : RequestEnv) : Prop :=
  M.matched permit e ⊆ M.matched forbid e ∧ M.NonVacuous permit e ∧ M.NonVacuous forbid e

variable (a : Analyzer B S)

theorem overriding_spec (forbid permit : Policy B) (e : RequestEnv) (vrF vrP : VacuityResult)
    (hF : M.PolicyVacuity forbid e vrF) (hP : M.PolicyVacuity permit e vrP)
    (h : a.leanFfi.Correct a.leanSchema M) :
    ∃ r, a.overriding forbid permit vrF vrP e = .ok r ∧
      (r = .overrides ↔ M.Overridden permit forbid e) := by
  have hvac : ∀ p vr, M.PolicyVacuity p e vr → (M.NonVacuous p e ↔ vr = .matchesSome) := by
    intro p vr hv
    cases vr with
    | matchesAll =>
      have hv' : M.matched p e = M.requests e := hv
      simp [Semantics.NonVacuous, hv']
    | matchesNone =>
      have hv' : M.matched p e = ∅ := hv.2
      simp [Semantics.NonVacuous, hv']
    | matchesSome => exact ⟨fun _ => rfl, fun _ => hv⟩
  obtain ⟨b, hb, hbP⟩ := query_of_answers (h.matchesImplies permit forbid e)
  simp only [Semantics.Overridden, hvac permit vrP hP, hvac forbid vrF hF, ← hbP]
  cases vrF <;> cases vrP
  case matchesSome.matchesSome =>
    refine ⟨if b then .overrides else .noResult, ?_, by cases b <;> simp⟩
    simp only [Analyzer.overriding, hb, bind, Except.bind]
    cases b <;> rfl
  all_goals exact ⟨.noResult, rfl, by simp⟩

theorem policyVacuous_spec (h : a.leanFfi.Correct a.leanSchema M) (p : Policy B)
    (envs : List RequestEnv) :
    ∃ vrs, a.policyVacuous p envs = .ok vrs ∧ List.Forall₂ (M.PolicyVacuity p) envs vrs :=
  mapM_forall₂ _ _ envs fun e _ => vacuity_spec (h.alwaysMatches p e) (h.neverMatches p e)

/-- The loop over the zipped results, from what its body does in one environment. -/
theorem perEnv_spec {T : Type} {f : VacuityResult → VacuityResult → RequestEnv → Except Failure T}
    {R1 R2 : RequestEnv → VacuityResult → Prop} {Q : RequestEnv → T → Prop}
    {envs : List RequestEnv} {vrs1 vrs2 : List VacuityResult}
    (h1 : List.Forall₂ R1 envs vrs1) (h2 : List.Forall₂ R2 envs vrs2)
    (hf : ∀ e v1 v2, R1 e v1 → R2 e v2 → ∃ r, f v1 v2 e = .ok r ∧ Q e r) :
    ∃ rs, perEnv f vrs1 vrs2 envs = .ok rs ∧ List.Forall₂ Q envs rs := by
  induction h1 generalizing vrs2 with
  | nil => exact ⟨[], rfl, .nil⟩
  | cons hv1 _ ih =>
    cases h2 with
    | cons hv2 h2 =>
      obtain ⟨r, hr, hQ⟩ := hf _ _ _ hv1 hv2
      obtain ⟨rs, hrs, hQs⟩ := ih h2
      refine ⟨r :: rs, ?_, .cons hQ hQs⟩
      simp only [perEnv] at hrs ⊢
      simp [List.mapM_cons, hr, hrs, bind, Except.bind, pure, Except.pure]

/-- The results looked for stand exactly at the environments with the property. -/
theorem getElem?_results {T : Type} {P : RequestEnv → Prop} {envs : List RequestEnv}
    {rs : List T} {r : T} (h : List.Forall₂ (fun e r' => r' = r ↔ P e) envs rs) (i : ℕ) :
    rs[i]? = some r ↔ ∃ e, envs[i]? = some e ∧ P e := by
  constructor
  · intro hr
    have hi : i < envs.length := by
      rw [h.length_eq]
      exact (List.getElem?_eq_some_iff.mp hr).1
    refine ⟨envs[i], List.getElem?_eq_getElem hi, ?_⟩
    exact (forall₂_getElem? h i _ r (List.getElem?_eq_getElem hi) hr).mp rfl
  · intro hx
    obtain ⟨e, he, hP⟩ := hx
    have hi : i < rs.length := by
      rw [← h.length_eq]
      exact (List.getElem?_eq_some_iff.mp he).1
    have hr := forall₂_getElem? h i e rs[i] he (List.getElem?_eq_getElem hi)
    rw [List.getElem?_eq_getElem hi, hr.mpr hP]

theorem allows_permit (p : Policy B) (hp : p.effect = .permit) (r : M.Request) :
    M.Allows [p] r ↔ M.satisfied p.body r := by
  simp [Semantics.Allows, hp]

/-- On the singleton sets of two permits, implication is inclusion of what they match. -/
theorem implies_singletons (h : a.leanFfi.Correct a.leanSchema M) (p q : Policy B)
    (hp : p.effect = .permit) (hq : q.effect = .permit) (ps qs : PolicySet B)
    (hps : ps.policies = [p]) (hqs : qs.policies = [q]) (e : RequestEnv) :
    Answers (a.leanFfi.runCheckImplies ps qs a.leanSchema e)
      (M.matched p e ⊆ M.matched q e) := by
  obtain ⟨b, hb, hP⟩ := h.implies ps qs e
  refine ⟨b, hb, hP.trans ?_⟩
  simp only [hps, hqs, allows_permit M p hp, allows_permit M q hq]
  exact ⟨fun hi r hr => ⟨hr.1, hi r hr.1 hr.2⟩, fun hi r hr hsat => (hi ⟨hr, hsat⟩).2⟩

variable {M a} {envs : List RequestEnv} {p q : Policy B} {vrs1 vrs2 : List VacuityResult}

theorem computeForbidShadowingResult_spec (h : a.leanFfi.Correct a.leanSchema M)
    (h1 : List.Forall₂ (M.PolicyVacuity p) envs vrs1)
    (h2 : List.Forall₂ (M.PolicyVacuity q) envs vrs2) :
    ∃ rs, a.computeForbidShadowingResult p vrs1 q vrs2 envs = .ok rs ∧
      List.Forall₂ (M.Shadows p q) envs rs :=
  perEnv_spec h1 h2 fun e v1 v2 hv1 hv2 =>
    shadowing_spec M p q e v1 v2 _ _ hv1 hv2 (h.matchesImplies p q e) (h.matchesImplies q p e)

theorem computePermitShadowingResult_spec (h : a.leanFfi.Correct a.leanSchema M)
    (hs : TakesStatic a.fromPolicies) (hp : p.effect = .permit) (hq : q.effect = .permit)
    (hps : p.isStatic = true) (hqs : q.isStatic = true)
    (h1 : List.Forall₂ (M.PolicyVacuity p) envs vrs1)
    (h2 : List.Forall₂ (M.PolicyVacuity q) envs vrs2) :
    ∃ rs, a.computePermitShadowingResult p vrs1 q vrs2 envs = .ok rs ∧
      List.Forall₂ (M.Shadows p q) envs rs := by
  obtain ⟨ps, hfp, hps⟩ := hs.static p hps
  obtain ⟨qs, hfq, hqs⟩ := hs.static q hqs
  simp only [Analyzer.computePermitShadowingResult, Analyzer.singleton, hfp, hfq, bind,
    Except.bind, Except.mapError]
  exact perEnv_spec h1 h2 fun e v1 v2 hv1 hv2 => shadowing_spec M p q e v1 v2 _ _ hv1 hv2
    (implies_singletons M a h p q hp hq ps qs hps hqs e)
    (implies_singletons M a h q p hq hp qs ps hqs hps e)

/-- A permit linked to a template stops the analysis: it cannot be made into a set. -/
theorem computePermitShadowingResult_linked (vrs1 vrs2 : List VacuityResult)
    (envs : List RequestEnv) (hs : TakesStatic a.fromPolicies)
    (hl : p.isStatic = false ∨ q.isStatic = false) :
    ∃ e, a.computePermitShadowingResult p vrs1 q vrs2 envs
      = .error (.exec (.policyIntoPolicySetError e)) := by
  simp only [Analyzer.computePermitShadowingResult, Analyzer.singleton]
  cases hp : p.isStatic with
  | false =>
    obtain ⟨e, he⟩ := hs.linked p hp
    exact ⟨e, by simp [he, bind, Except.bind, Except.mapError]⟩
  | true =>
    obtain ⟨ps, hfp, _⟩ := hs.static p hp
    obtain ⟨e, he⟩ := hs.linked q (by simpa [hp] using hl)
    exact ⟨e, by simp [hfp, he, bind, Except.bind, Except.mapError]⟩

theorem computeForbidOverridesShadowResult_spec (h : a.leanFfi.Correct a.leanSchema M)
    (h1 : List.Forall₂ (M.PolicyVacuity p) envs vrs1)
    (h2 : List.Forall₂ (M.PolicyVacuity q) envs vrs2) :
    ∃ rs, a.computeForbidOverridesShadowResult p vrs1 q vrs2 envs = .ok rs ∧
      List.Forall₂ (fun e r => r = .overrides ↔ M.Overridden q p e) envs rs :=
  perEnv_spec h1 h2 fun e v1 v2 hv1 hv2 => overriding_spec M a p q e v1 v2 hv1 hv2 h

end CedarSpec.Analysis
