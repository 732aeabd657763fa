import CedarSpec.AnalysisOracle
import CedarSpec.AnalysisTables

/-! The pass over the pairs of policies. Each kind of finding is a relation between two
policies in an environment; after any prefix of the pairs, each table holds its relation
restricted to the pairs seen so far. -/

namespace CedarSpec.Analysis
open HashTable RequestEnvs

variable {B S : Type}

/-- A kind of finding: which policies get a key, and what is reported under it. -/
structure Kind (B : Type) where
  keyed : Policy B → Policy B → Prop
  holds : Policy B → Policy B → RequestEnv → Prop
  keyed_of_holds : ∀ p q e, holds p q e → keyed p q

namespace Semantics

variable (M : Semantics B)

/-- Same effect and same non-empty set of matched requests. -/
def equivalentTo : Kind B where
  keyed p q := p.effect = q.effect
  holds p q e := p.effect = q.effect ∧ M.matched p e = M.matched q e ∧ (M.matched p e).Nonempty
  keyed_of_holds _ _ _ h := h.1

/-- Both of the given effect, the first matching something but strictly less. -/
def shadowedBy (effect : Effect) : Kind B where
  keyed p q := p.effect = effect ∧ q.effect = effect
  holds p q e := (p.effect = effect ∧ q.effect = effect) ∧
    (M.matched p e).Nonempty ∧ M.matched p e ⊂ M.matched q e
  keyed_of_holds _ _ _ h := h.1

/-- A permit inside a forbid, neither of them vacuous. -/
def overriddenBy : Kind B where
  keyed p q := p.effect = .permit ∧ q.effect = .forbid
  holds p q e := (p.effect = .permit ∧ q.effect = .forbid) ∧ M.Overridden p q e
  keyed_of_holds _ _ _ h := h.1

end Semantics

/-- The pair has been seen, in either order. -/
def Joined (done : List (Policy B × Policy B)) (p q : Policy B) : Prop :=
  (p, q) ∈ done ∨ (q, p) ∈ done

variable (envs : List RequestEnv) (done : List (Policy B × Policy B)) (K : Kind B)

def Keyed (k : PolicyId) : Prop :=
  ∃ p q, Joined done p q ∧ p.id = k ∧ K.keyed p q

def Reported (k : PolicyId) (i : ℕ) (v : PolicyId) : Prop :=
  ∃ p q e, Joined done p q ∧ p.id = k ∧ q.id = v ∧ envs[i]? = some e ∧ K.holds p q e

/-- The table holds the findings of its kind among the pairs seen. -/
def Tabulated (t : FindingsTable) : Prop :=
  Tabulates envs.length t (Keyed done K) (Reported envs done K)

variable {envs done K} {t : FindingsTable} {p q : Policy B}

theorem joined_snoc (p q p' q' : Policy B) : Joined (done ++ [(p, q)]) p' q' ↔
    Joined done p' q' ∨ (p' = p ∧ q' = q) ∨ (p' = q ∧ q' = p) := by
  simp only [Joined, List.mem_append, List.mem_singleton, Prod.mk.injEq]
  tauto

theorem keyed_snoc (k : PolicyId) : Keyed (done ++ [(p, q)]) K k ↔
    (Keyed done K k ∨ k = p.id ∧ K.keyed p q) ∨ k = q.id ∧ K.keyed q p := by
  simp only [Keyed, joined_snoc]
  constructor
  · intro hx
    obtain ⟨p', q', h | ⟨rfl, rfl⟩ | ⟨rfl, rfl⟩, rfl, hk⟩ := hx
    · exact Or.inl (Or.inl ⟨p', q', h, rfl, hk⟩)
    · exact Or.inl (Or.inr ⟨rfl, hk⟩)
    · exact Or.inr ⟨rfl, hk⟩
  · intro hx
    obtain (⟨p', q', h, rfl, hk⟩ | ⟨rfl, hk⟩) | ⟨rfl, hk⟩ := hx
    · exact ⟨p', q', Or.inl h, rfl, hk⟩
    · exact ⟨p, q, Or.inr (Or.inl ⟨rfl, rfl⟩), rfl, hk⟩
    · exact ⟨q, p, Or.inr (Or.inr ⟨rfl, rfl⟩), rfl, hk⟩

theorem reported_snoc (k : PolicyId) (i : ℕ) (v : PolicyId) :
    Reported envs (done ++ [(p, q)]) K k i v ↔
      (Reported envs done K k i v ∨
        k = p.id ∧ v = q.id ∧ ∃ e, envs[i]? = some e ∧ K.holds p q e) ∨
      k = q.id ∧ v = p.id ∧ ∃ e, envs[i]? = some e ∧ K.holds q p e := by
  simp only [Reported, joined_snoc]
  constructor
  · intro hx
    obtain ⟨p', q', e, h | ⟨rfl, rfl⟩ | ⟨rfl, rfl⟩, rfl, rfl, he, hk⟩ := hx
    · exact Or.inl (Or.inl ⟨p', q', e, h, rfl, rfl, he, hk⟩)
    · exact Or.inl (Or.inr ⟨rfl, rfl, e, he, hk⟩)
    · exact Or.inr ⟨rfl, rfl, e, he, hk⟩
  · intro hx
    obtain (⟨p', q', e, h, rfl, rfl, he, hk⟩ | ⟨rfl, rfl, e, he, hk⟩) | ⟨rfl, rfl, e, he, hk⟩ := hx
    · exact ⟨p', q', e, Or.inl h, rfl, rfl, he, hk⟩
    · exact ⟨p, q, e, Or.inr (Or.inl ⟨rfl, rfl⟩), rfl, rfl, he, hk⟩
    · exact ⟨q, p, e, Or.inr (Or.inr ⟨rfl, rfl⟩), rfl, rfl, he, hk⟩

/-- A pair of another kind leaves the table as it is. -/
theorem Tabulated.skip (h : Tabulated envs done K t) (hpq : ¬K.keyed p q)
    (hqp : ¬K.keyed q p) : Tabulated envs (done ++ [(p, q)]) K t := by
  refine Tabulates.congr h (fun k => ?_) (fun k i v => ?_)
  · simp [keyed_snoc, hpq, hqp]
  · rw [reported_snoc]
    constructor
    · exact fun hr => Or.inl (Or.inl hr)
    · intro hx
      obtain (hr | ⟨_, _, e, _, hk⟩) | ⟨_, _, e, _, hk⟩ := hx
      · exact hr
      · exact absurd (K.keyed_of_holds p q e hk) hpq
      · exact absurd (K.keyed_of_holds q p e hk) hqp

variable {T : Type} [DecidableEq T] {rs : List T}

/-- A pair reported under its first policy only takes one update. -/
theorem Tabulated.fileOne (r : T) (h : Tabulated envs done K t) (hpq : K.keyed p q)
    (hqp : ¬K.keyed q p)
    (hrs : List.Forall₂ (fun e x => x = r ↔ K.holds p q e) envs rs) :
    ∃ t', updateFindings p.id q.id rs t r = .ok t' ∧
      Tabulated envs (done ++ [(p, q)]) K t' := by
  obtain ⟨t', ht', htab⟩ := updateFindings_spec p.id q.id rs r h hrs.length_eq.symm
  refine ⟨t', ht', htab.congr (fun k => ?_) (fun k i v => ?_)⟩
  · simp [keyed_snoc, hpq, hqp]
  · rw [reported_snoc, getElem?_results hrs]
    constructor
    · intro hx
      obtain hr | hr := hx
      · exact Or.inl (Or.inl hr)
      · exact Or.inl (Or.inr hr)
    · intro hx
      obtain (hr | hr) | ⟨_, _, e, _, hk⟩ := hx
      · exact Or.inl hr
      · exact Or.inr hr
      · exact absurd (K.keyed_of_holds q p e hk) hqp

theorem Tabulated.swap (h : Tabulated envs (done ++ [(q, p)]) K t) :
    Tabulated envs (done ++ [(p, q)]) K t := by
  have hj : ∀ p' q', Joined (done ++ [(q, p)]) p' q' ↔ Joined (done ++ [(p, q)]) p' q' := by
    intro p' q'
    rw [joined_snoc, joined_snoc]
    tauto
  refine Tabulates.congr h (fun k => ?_) (fun k i v => ?_)
  · simp only [Keyed, hj]
  · simp only [Reported, hj]

/-- A pair reported under both policies takes two updates. -/
theorem Tabulated.fileBoth (r r' : T) (h : Tabulated envs done K t) (hpq : K.keyed p q)
    (hqp : K.keyed q p)
    (hrs : List.Forall₂ (fun e x => x = r ↔ K.holds p q e) envs rs)
    (hrs' : List.Forall₂ (fun e x => x = r' ↔ K.holds q p e) envs rs) :
    ∃ t₁ t₂, updateFindings p.id q.id rs t r = .ok t₁ ∧
      updateFindings q.id p.id rs t₁ r' = .ok t₂ ∧
      Tabulated envs (done ++ [(p, q)]) K t₂ := by
  obtain ⟨t₁, ht₁, htab₁⟩ := updateFindings_spec p.id q.id rs r h hrs.length_eq.symm
  obtain ⟨t₂, ht₂, htab₂⟩ := updateFindings_spec q.id p.id rs r' htab₁ hrs.length_eq.symm
  refine ⟨t₁, t₂, ht₁, ht₂, htab₂.congr (fun k => ?_) (fun k i v => ?_)⟩
  · simp [keyed_snoc, hpq, hqp]
  · rw [reported_snoc, getElem?_results hrs, getElem?_results hrs']

/-- The four tables hold the findings of their kinds among the pairs seen. -/
structure Covers (M : Semantics B) (envs : List RequestEnv) (done : List (Policy B × Policy B))
    (f : Findings) : Prop where
  redundant : Tabulated envs done M.equivalentTo f.redundant
  permitShadowed : Tabulated envs done (M.shadowedBy .permit) f.permitShadowedByPermit
  permitOverriden : Tabulated envs done M.overriddenBy f.permitOverridenByForbid
  forbidShadowed : Tabulated envs done (M.shadowedBy .forbid) f.forbidShadowedByForbid

variable {M : Semantics B}

theorem covers_nil : Covers M envs [] {} := by
  have hempty : ∀ K : Kind B, Tabulated envs [] K ∅ := fun K =>
    tabulates_empty.congr (fun k => by simp [Keyed, Joined])
      (fun k i v => by simp [Reported, Joined])
  exact ⟨hempty _, hempty _, hempty _, hempty _⟩

/-- Two policies of one effect: the shadowing verdicts fill the table of equivalences
and the table of shadowings of that effect. -/
theorem fileShadowing_spec {effect : Effect} {redundant shadowed : FindingsTable}
    {rs : List ShadowingResult} (hp : p.effect = effect) (hq : q.effect = effect)
    (hrs : List.Forall₂ (M.Shadows p q) envs rs)
    (hr : Tabulated envs done M.equivalentTo redundant)
    (hs : Tabulated envs done (M.shadowedBy effect) shadowed) :
    ∃ redundant' shadowed', fileShadowing p.id q.id rs redundant shadowed
        = .ok (redundant', shadowed') ∧
      Tabulated envs (done ++ [(p, q)]) M.equivalentTo redundant' ∧
      Tabulated envs (done ++ [(p, q)]) (M.shadowedBy effect) shadowed' := by
  obtain ⟨r₁, r₂, hr₁, hr₂, hred⟩ := hr.fileBoth .equivalent .equivalent (p := p) (q := q)
    (hp.trans hq.symm) (hq.trans hp.symm)
    (hrs.imp fun e x hx => by simp [hx.equivalent, Semantics.equivalentTo, hp, hq])
    (hrs.imp fun e x hx => by
      rw [hx.equivalent]
      simp only [Semantics.equivalentTo, hp, hq, true_and]
      exact ⟨fun h => ⟨h.1.symm, h.1 ▸ h.2⟩, fun h => ⟨h.1.symm, h.1 ▸ h.2⟩⟩)
  obtain ⟨s₁, s₂, hs₁, hs₂, hsha⟩ := hs.fileBoth .policy2Shadows1 .policy1Shadows2
    (p := p) (q := q) ⟨hp, hq⟩ ⟨hq, hp⟩
    (hrs.imp fun e x hx => by simp [hx.policy2Shadows1, Semantics.shadowedBy, hp, hq])
    (hrs.imp fun e x hx => by simp [hx.policy1Shadows2, Semantics.shadowedBy, hp, hq])
  refine ⟨r₂, s₂, ?_, hred, hsha⟩
  simp [fileShadowing, hr₁, hr₂, hs₁, hs₂, bind, Except.bind, pure, Except.pure]

variable {a : Analyzer B S} {vacuities : Table PolicyId (List VacuityResult)} {f : Findings}

/-- The vacuity table knows the policy. -/
def Known (M : Semantics B) (envs : List RequestEnv)
    (vacuities : Table PolicyId (List VacuityResult)) (p : Policy B) : Prop :=
  ∃ vrs, vacuities.lookup p.id = some vrs ∧ List.Forall₂ (M.PolicyVacuity p) envs vrs

/-- Both are permits, and one of them is linked to a template. -/
def LinkedPermits (p q : Policy B) : Prop :=
  (p.effect = .permit ∧ q.effect = .permit) ∧ (p.isStatic = false ∨ q.isStatic = false)

/-- One pair: the tables take in what holds between its policies. -/
theorem analyzePair_spec (h : a.leanFfi.Correct a.leanSchema M)
    (hs : TakesStatic a.fromPolicies) (hp : Known M envs vacuities p)
    (hq : Known M envs vacuities q) (hl : ¬LinkedPermits p q) (hf : Covers M envs done f) :
    ∃ f', a.analyzePair envs vacuities f (p, q) = .ok f' ∧
      Covers M envs (done ++ [(p, q)]) f' := by
  obtain ⟨svr, hsvr, hpv⟩ := hp
  obtain ⟨tvr, htvr, hqv⟩ := hq
  cases hpe : p.effect <;> cases hqe : q.effect
  case permit.permit =>
    have hst : p.isStatic = true ∧ q.isStatic = true := by
      simpa [LinkedPermits, hpe, hqe, Bool.not_eq_false] using hl
    obtain ⟨rs, hrs, hall⟩ :=
      computePermitShadowingResult_spec h hs hpe hqe hst.1 hst.2 hpv hqv
    obtain ⟨red, sha, hfile, hred, hsha⟩ :=
      fileShadowing_spec hpe hqe hall hf.redundant hf.permitShadowed
    refine ⟨{ f with redundant := red, permitShadowedByPermit := sha }, ?_, hred, hsha, ?_, ?_⟩
    · simp [Analyzer.analyzePair, expect, hsvr, htvr, hpe, hqe, hrs, hfile, bind, Except.bind,
        pure, Except.pure]
    · exact hf.permitOverriden.skip (by simp [Semantics.overriddenBy, hqe])
        (by simp [Semantics.overriddenBy, hpe])
    · exact hf.forbidShadowed.skip (by simp [Semantics.shadowedBy, hpe])
        (by simp [Semantics.shadowedBy, hpe])
  case permit.forbid =>
    obtain ⟨rs, hrs, hall⟩ := computeForbidOverridesShadowResult_spec (p := q) (q := p) h hqv hpv
    obtain ⟨ove, hfile, hove⟩ := hf.permitOverriden.fileOne .overrides (p := p) (q := q)
      ⟨hpe, hqe⟩ (by simp [Semantics.overriddenBy, hpe])
      (hall.imp fun e x hx => by simp [hx, Semantics.overriddenBy, hpe, hqe])
    refine ⟨{ f with permitOverridenByForbid := ove }, ?_, ?_, ?_, hove, ?_⟩
    · simp [Analyzer.analyzePair, expect, hsvr, htvr, hpe, hqe, hrs, hfile, bind, Except.bind,
        pure, Except.pure]
    · exact hf.redundant.skip (by simp [Semantics.equivalentTo, hpe, hqe])
        (by simp [Semantics.equivalentTo, hpe, hqe])
    · exact hf.permitShadowed.skip (by simp [Semantics.shadowedBy, hqe])
        (by simp [Semantics.shadowedBy, hqe])
    · exact hf.forbidShadowed.skip (by simp [Semantics.shadowedBy, hpe])
        (by simp [Semantics.shadowedBy, hpe])
  case forbid.permit =>
    obtain ⟨rs, hrs, hall⟩ := computeForbidOverridesShadowResult_spec (p := p) (q := q) h hpv hqv
    obtain ⟨ove, hfile, hove⟩ := hf.permitOverriden.fileOne .overrides (p := q) (q := p)
      ⟨hqe, hpe⟩ (by simp [Semantics.overriddenBy, hpe])
      (hall.imp fun e x hx => by simp [hx, Semantics.overriddenBy, hpe, hqe])
    refine ⟨{ f with permitOverridenByForbid := ove }, ?_, ?_, ?_, hove.swap, ?_⟩
    · simp [Analyzer.analyzePair, expect, hsvr, htvr, hpe, hqe, hrs, hfile, bind, Except.bind,
        pure, Except.pure]
    · exact hf.redundant.skip (by simp [Semantics.equivalentTo, hpe, hqe])
        (by simp [Semantics.equivalentTo, hpe, hqe])
    · exact hf.permitShadowed.skip (by simp [Semantics.shadowedBy, hpe])
        (by simp [Semantics.shadowedBy, hpe])
    · exact hf.forbidShadowed.skip (by simp [Semantics.shadowedBy, hqe])
        (by simp [Semantics.shadowedBy, hqe])
  case forbid.forbid =>
    obtain ⟨rs, hrs, hall⟩ := computeForbidShadowingResult_spec h hpv hqv
    obtain ⟨red, sha, hfile, hred, hsha⟩ :=
      fileShadowing_spec hpe hqe hall hf.redundant hf.forbidShadowed
    refine ⟨{ f with redundant := red, forbidShadowedByForbid := sha }, ?_, hred, ?_, ?_, hsha⟩
    · simp [Analyzer.analyzePair, expect, hsvr, htvr, hpe, hqe, hrs, hfile, bind, Except.bind,
        pure, Except.pure]
    · exact hf.permitShadowed.skip (by simp [Semantics.shadowedBy, hpe])
        (by simp [Semantics.shadowedBy, hpe])
    · exact hf.permitOverriden.skip (by simp [Semantics.overriddenBy, hpe])
        (by simp [Semantics.overriddenBy, hqe])

theorem analyzePair_linked (hs : TakesStatic a.fromPolicies) (hp : Known M envs vacuities p)
    (hq : Known M envs vacuities q) (hl : LinkedPermits p q) :
    ∃ e, a.analyzePair envs vacuities f (p, q) = .error (.exec (.policyIntoPolicySetError e)) := by
  obtain ⟨svr, hsvr, hpv⟩ := hp
  obtain ⟨tvr, htvr, hqv⟩ := hq
  obtain ⟨e, he⟩ := computePermitShadowingResult_linked svr tvr envs hs hl.2
  refine ⟨e, ?_⟩
  simp [Analyzer.analyzePair, expect, hsvr, htvr, hl.1.1, hl.1.2, he, bind, Except.bind]

/-- The whole pass: it stops at the first pair of permits one of which is linked to a
template, and otherwise the tables hold what holds between the policies of the pairs. -/
theorem analyzePairs_spec (h : a.leanFfi.Correct a.leanSchema M)
    (hs : TakesStatic a.fromPolicies) (pairs : List (Policy B × Policy B))
    (hk : ∀ x ∈ pairs, Known M envs vacuities x.1 ∧ Known M envs vacuities x.2)
    (hf : Covers M envs done f) :
    (∃ f', pairs.foldlM (a.analyzePair envs vacuities) f = .ok f' ∧
      Covers M envs (done ++ pairs) f' ∧ ∀ x ∈ pairs, ¬LinkedPermits x.1 x.2) ∨
    (∃ e, pairs.foldlM (a.analyzePair envs vacuities) f
        = .error (.exec (.policyIntoPolicySetError e)) ∧ ∃ x ∈ pairs, LinkedPermits x.1 x.2) := by
  induction pairs generalizing done f with
  | nil => exact Or.inl ⟨f, rfl, by simpa using hf, by simp⟩
  | cons x pairs ih =>
    obtain ⟨p, q⟩ := x
    obtain ⟨hp, hq⟩ := hk (p, q) (by simp)
    by_cases hl : LinkedPermits p q
    · obtain ⟨e, he⟩ := analyzePair_linked (f := f) hs hp hq hl
      refine Or.inr ⟨e, ?_, (p, q), by simp, hl⟩
      simp [List.foldlM_cons, he, bind, Except.bind]
    · obtain ⟨f₁, hf₁, hcov⟩ := analyzePair_spec h hs hp hq hl hf
      have hrun : ((p, q) :: pairs).foldlM (a.analyzePair envs vacuities) f
          = pairs.foldlM (a.analyzePair envs vacuities) f₁ := by
        simp [List.foldlM_cons, hf₁, bind, Except.bind]
      rw [hrun]
      rcases ih (fun y hy => hk y (List.mem_cons_of_mem _ hy)) hcov with
        ⟨f', hf', hcov', hno⟩ | ⟨e, he, y, hy, hly⟩
      · refine Or.inl ⟨f', hf', by simpa using hcov', ?_⟩
        simpa [hl] using hno
      · exact Or.inr ⟨e, he, y, List.mem_cons_of_mem _ hy, hly⟩

/-- The pairs are those of two distinct policies. -/
theorem joined_arrayCombinations (ps : List (Policy B)) (hn : (ps.map Policy.id).Nodup)
    (p q : Policy B) :
    Joined (arrayCombinations ps) p q ↔ p ∈ ps ∧ q ∈ ps ∧ p.id ≠ q.id := by
  induction ps with
  | nil => simp [arrayCombinations, Joined]
  | cons x xs ih =>
    rw [List.map_cons, List.nodup_cons] at hn
    have hx : ∀ y ∈ xs, y.id ≠ x.id := fun y hy he => hn.1 (he ▸ List.mem_map_of_mem hy)
    have hih := ih hn.2
    simp only [Joined, arrayCombinations, List.mem_append, List.mem_map, Prod.mk.injEq,
      List.mem_cons] at hih ⊢
    constructor
    · intro hz
      obtain (⟨y, hy, rfl, rfl⟩ | h) | (⟨y, hy, rfl, rfl⟩ | h) := hz
      · exact ⟨Or.inl rfl, Or.inr hy, (hx _ hy).symm⟩
      · have hh := hih.mp (Or.inl h)
        exact ⟨Or.inr hh.1, Or.inr hh.2.1, hh.2.2⟩
      · exact ⟨Or.inr hy, Or.inl rfl, hx _ hy⟩
      · have hh := hih.mp (Or.inr h)
        exact ⟨Or.inr hh.1, Or.inr hh.2.1, hh.2.2⟩
    · intro hz
      obtain ⟨rfl | hp, rfl | hq, hne⟩ := hz
      · exact absurd rfl hne
      · exact Or.inl (Or.inl ⟨q, hq, rfl, rfl⟩)
      · exact Or.inr (Or.inl ⟨p, hp, rfl, rfl⟩)
      · obtain h | h := hih.mpr ⟨hp, hq, hne⟩
        · exact Or.inl (Or.inr h)
        · exact Or.inr (Or.inr h)

end CedarSpec.Analysis
