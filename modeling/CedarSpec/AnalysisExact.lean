import CedarSpec.AnalysisPass

/-! The findings of a whole analysis are exact: in every environment the classes,
shadowings and overridings reported are those that hold between the policies, and
neither the order of the policies nor that of a hash table changes them. -/

namespace CedarSpec.Analysis
open HashTable ClassPeeling RequestEnvs

variable {B S : Type}

/-- `v` is reported under `k`. -/
def Listed (t : Table PolicyId (Finset PolicyId)) (k v : PolicyId) : Prop :=
  ∃ s, t.lookup k = some s ∧ v ∈ s

/-- Two policies of the set, in a relation. -/
def Between (ps : List (Policy B)) (R : Policy B → Policy B → Prop) (k v : PolicyId) : Prop :=
  ∃ p ∈ ps, ∃ q ∈ ps, p.id = k ∧ q.id = v ∧ R p q

/-- A class of the environment: the ids of all policies of one effect that match one and
the same non-empty set of requests, at least two of them. -/
def IsClass (M : Semantics B) (ps : List (Policy B)) (e : RequestEnv) (c : Finset PolicyId) :
    Prop :=
  2 ≤ c.card ∧ ∃ p ∈ ps, (M.matched p e).Nonempty ∧
    ∀ v, v ∈ c ↔ ∃ q ∈ ps, q.id = v ∧ q.effect = p.effect ∧ M.matched q e = M.matched p e

/-- The findings of one environment are exactly what holds between the policies. -/
structure ExactIn (M : Semantics B) (schema : Schema) (ps : List (Policy B)) (e : RequestEnv)
    (f : PerSigFindings) : Prop where
  reqEnv : f.reqEnv = RequestEnvSer.new schema e
  nodup : f.equivClasses.Nodup
  classes : ∀ c, c ∈ f.equivClasses ↔ IsClass M ps e c
  permitShadowed : ∀ k v, Listed f.permitShadowedByPermits k v ↔ Between ps (fun p q =>
    (p.effect = .permit ∧ q.effect = .permit) ∧
      (M.matched p e).Nonempty ∧ M.matched p e ⊂ M.matched q e) k v
  forbidShadowed : ∀ k v, Listed f.forbidShadowedByForbids k v ↔ Between ps (fun p q =>
    (p.effect = .forbid ∧ q.effect = .forbid) ∧
      (M.matched p e).Nonempty ∧ M.matched p e ⊂ M.matched q e) k v
  permitOverriden : ∀ k v, Listed f.permitOverridenByForbids k v ↔ Between ps (fun p q =>
    (p.effect = .permit ∧ q.effect = .forbid) ∧
      M.matched p e ⊆ M.matched q e ∧ M.NonVacuous p e ∧ M.NonVacuous q e) k v

def HasFinding (f : PerSigFindings) : Prop :=
  f.equivClasses ≠ [] ∨ (∃ k v, Listed f.permitShadowedByPermits k v) ∨
    (∃ k v, Listed f.permitOverridenByForbids k v) ∨ ∃ k v, Listed f.forbidShadowedByForbids k v

open Classical in
/-- The report: the exact findings of the environments in their order, without those that
have none. -/
def Exact (M : Semantics B) (schema : Schema) (ps : List (Policy B)) (envs : List RequestEnv)
    (f : AnalyzePolicyFindings) : Prop :=
  ∃ fs, List.Forall₂ (ExactIn M schema ps) envs fs ∧
    f.perSigFindings = fs.filter (fun g => decide (HasFinding g))

/-- The same classes and the same pairs under the same label. -/
structure SameFindings (f g : PerSigFindings) : Prop where
  reqEnv : f.reqEnv = g.reqEnv
  classes : f.equivClasses.Perm g.equivClasses
  permitShadowed : ∀ k v, Listed f.permitShadowedByPermits k v ↔
    Listed g.permitShadowedByPermits k v
  forbidShadowed : ∀ k v, Listed f.forbidShadowedByForbids k v ↔
    Listed g.forbidShadowedByForbids k v
  permitOverriden : ∀ k v, Listed f.permitOverridenByForbids k v ↔
    Listed g.permitOverridenByForbids k v

/-! ## One column of a table -/

variable {M : Semantics B} {envs : List RequestEnv} {ps : List (Policy B)} {K : Kind B}
  {t : FindingsTable} {e : RequestEnv} {ind : ℕ}

theorem sigFindings_spec (message : String) (T : Traversal PolicyId (List (Finset PolicyId)))
    (h : Tabulated envs (arrayCombinations ps) K t) (hn : (ps.map Policy.id).Nodup)
    (he : envs[ind]? = some e) :
    ∃ m, sigFindings message ind T t = .ok m ∧
      (∀ k, k ∈ m ↔ ∃ v, Between ps (fun p q => p.id ≠ q.id ∧ K.keyed p q) k v) ∧
      ∀ k v, Listed m k v ↔ Between ps (fun p q => p.id ≠ q.id ∧ K.holds p q e) k v := by
  have hind : ind < envs.length := (List.getElem?_eq_some_iff.mp he).1
  obtain ⟨m, hm, hlookup⟩ := T.rebuild_lookup (fun _ row => expect message row[ind]?)
    (fun row => row.getD ind ∅) t (fun k row hrow => by
      have hlt : ind < row.length := by rwa [h.length_row k row hrow]
      simp [expect, List.getElem?_eq_getElem hlt])
  refine ⟨m, hm, fun k => ?_, fun k v => ?_⟩
  · have hk : k ∈ m ↔ k ∈ t := by
      rw [← Finmap.lookup_isSome, ← Finmap.lookup_isSome, hlookup, Option.isSome_map]
    rw [hk, h.mem_iff]
    simp only [Keyed, joined_arrayCombinations ps hn, Between]
    constructor
    · intro hx
      obtain ⟨p, q, ⟨hp, hq, hne⟩, rfl, hkey⟩ := hx
      exact ⟨q.id, p, hp, q, hq, rfl, rfl, hne, hkey⟩
    · intro hx
      obtain ⟨_, p, hp, q, hq, rfl, _, hne, hkey⟩ := hx
      exact ⟨p, q, ⟨hp, hq, hne⟩, rfl, hkey⟩
  · have hl : Listed m k v ↔ Filed t k ind v := by
      simp only [Listed, hlookup, Filed, InRow, Option.map_eq_some_iff]
      constructor
      · intro hx
        obtain ⟨_, ⟨row, hrow, rfl⟩, hv⟩ := hx
        have hlt : ind < row.length := by rwa [h.length_row k row hrow]
        refine ⟨row, hrow, row[ind], List.getElem?_eq_getElem hlt, ?_⟩
        simpa [List.getD, List.getElem?_eq_getElem hlt] using hv
      · intro hx
        obtain ⟨row, hrow, s, hs, hv⟩ := hx
        exact ⟨s, ⟨row, hrow, by simp [List.getD, hs]⟩, hv⟩
    rw [hl, h.filed_iff]
    simp only [Reported, joined_arrayCombinations ps hn, Between, he, Option.some.injEq]
    constructor
    · intro hx
      obtain ⟨p, q, e', ⟨hp, hq, hne⟩, rfl, rfl, rfl, hkey⟩ := hx
      exact ⟨p, hp, q, hq, rfl, rfl, hne, hkey⟩
    · intro hx
      obtain ⟨p, hp, q, hq, rfl, rfl, hne, hkey⟩ := hx
      exact ⟨p, q, e, ⟨hp, hq, hne⟩, rfl, rfl, rfl, hkey⟩

/-- Policies related by a strict inclusion, or of different effects, are distinct anyway. -/
theorem between_of_ne {R : Policy B → Policy B → Prop} (hR : ∀ p, ¬R p p)
    (hn : (ps.map Policy.id).Nodup) (k v : PolicyId) :
    Between ps (fun p q => p.id ≠ q.id ∧ R p q) k v ↔ Between ps R k v := by
  constructor
  · intro hx
    obtain ⟨p, hp, q, hq, hk, hv, _, h⟩ := hx
    exact ⟨p, hp, q, hq, hk, hv, h⟩
  · intro hx
    obtain ⟨p, hp, q, hq, hk, hv, h⟩ := hx
    refine ⟨p, hp, q, hq, hk, hv, fun he => ?_, h⟩
    have hpq : p = q := List.inj_on_of_nodup_map hn hp hq he
    exact hR p (hpq ▸ h)

/-! ## Equivalence classes -/

/-- The key with everything listed under it. -/
def classOf (m : Table PolicyId (Finset PolicyId)) (k : PolicyId) : Finset PolicyId :=
  insert k ((m.lookup k).getD ∅)

theorem mem_classOf (m : Table PolicyId (Finset PolicyId)) (k v : PolicyId) :
    v ∈ classOf m k ↔ v = k ∨ Listed m k v := by
  rw [classOf, Finset.mem_insert, Listed]
  cases m.lookup k <;> simp

variable {m : Table PolicyId (Finset PolicyId)}

/-- Under a policy that matches something stand all policies equivalent to it. -/
theorem mem_classOf_of_nonempty (hn : (ps.map Policy.id).Nodup)
    (hl : ∀ k v, Listed m k v ↔
      Between ps (fun p q => p.id ≠ q.id ∧ M.equivalentTo.holds p q e) k v)
    {p : Policy B} (hp : p ∈ ps) (hne : (M.matched p e).Nonempty) (v : PolicyId) :
    v ∈ classOf m p.id ↔
      ∃ q ∈ ps, q.id = v ∧ q.effect = p.effect ∧ M.matched q e = M.matched p e := by
  rw [mem_classOf, hl]
  constructor
  · intro hx
    obtain rfl | ⟨p', hp', q, hq, hid, rfl, _, hpq⟩ := hx
    · exact ⟨p, hp, rfl, rfl, rfl⟩
    · have hpp : p' = p := List.inj_on_of_nodup_map hn hp' hp hid
      subst hpp
      exact ⟨q, hq, rfl, hpq.1.symm, hpq.2.1.symm⟩
  · intro hx
    obtain ⟨q, hq, rfl, heff, hmat⟩ := hx
    by_cases hid : q.id = p.id
    · exact Or.inl hid
    · exact Or.inr ⟨p, hp, q, hq, rfl, rfl, Ne.symm hid, heff.symm, hmat.symm, hne⟩

theorem classified (hn : (ps.map Policy.id).Nodup)
    (hl : ∀ k v, Listed m k v ↔
      Between ps (fun p q => p.id ≠ q.id ∧ M.equivalentTo.holds p q e) k v) :
    Classified m (classOf m) where
  entry k s hs := by simp [classOf, hs]
  same k j _ hj := by
    rw [mem_classOf, hl] at hj
    obtain rfl | ⟨p, hp, q, hq, rfl, rfl, _, heff, hmat, hne⟩ := hj
    · rfl
    · ext v
      rw [mem_classOf_of_nonempty hn hl hp hne, mem_classOf_of_nonempty hn hl hq (hmat ▸ hne),
        heff, hmat]

/-- The classes peeled off are the classes of the environment. -/
theorem mem_peel_iff_isClass (T : Traversal PolicyId (Finset PolicyId)) (S : SetTraversal PolicyId)
    (hn : (ps.map Policy.id).Nodup)
    (hm : ∀ k, k ∈ m ↔ ∃ v, Between ps (fun p q => p.id ≠ q.id ∧ M.equivalentTo.keyed p q) k v)
    (hl : ∀ k v, Listed m k v ↔
      Between ps (fun p q => p.id ≠ q.id ∧ M.equivalentTo.holds p q e) k v)
    (c : Finset PolicyId) : c ∈ peel T S m ↔ IsClass M ps e c := by
  rw [mem_peel (classified hn hl), IsClass, and_comm]
  refine and_congr_right fun hcard => ⟨?_, ?_⟩
  · intro hx
    obtain ⟨k, _, rfl⟩ := hx
    -- another member shows that the policies of the class match something
    obtain ⟨v, hv, hvk⟩ := Finset.exists_mem_ne hcard k
    rw [mem_classOf, hl] at hv
    obtain ⟨p, hp, q, hq, rfl, rfl, _, heff, hmat, hne⟩ := hv.resolve_left hvk
    exact ⟨p, hp, hne, mem_classOf_of_nonempty hn hl hp hne⟩
  · intro hx
    obtain ⟨p, hp, hne, hc⟩ := hx
    obtain ⟨v, hv, hvk⟩ := Finset.exists_mem_ne hcard p.id
    obtain ⟨q, hq, rfl, heff, hmat⟩ := (hc v).mp hv
    refine ⟨p.id, (hm p.id).mpr ⟨q.id, p, hp, q, hq, rfl, rfl, hvk.symm, heff.symm⟩, ?_⟩
    ext v
    rw [hc, mem_classOf_of_nonempty hn hl hp hne]

/-! ## One environment and the whole report -/

theorem nEntries_ne_zero (T : Traversal PolicyId (Finset PolicyId)) :
    nEntries T m ≠ 0 ↔ ∃ k v, Listed m k v := by
  rw [← Nat.pos_iff_ne_zero, nEntries, List.sum_pos_iff_exists_pos_nat]
  constructor
  · intro hx
    obtain ⟨n, hn, hpos⟩ := hx
    obtain ⟨⟨k, s⟩, hs, rfl⟩ := List.mem_map.mp hn
    obtain ⟨v, hv⟩ := Finset.card_pos.mp hpos
    exact ⟨k, v, s, (T.mem_entries m k s).mp hs, hv⟩
  · intro hx
    obtain ⟨k, v, s, hs, hv⟩ := hx
    exact ⟨s.card, List.mem_map.mpr ⟨(k, s), (T.mem_entries m k s).mpr hs, rfl⟩,
      Finset.card_pos.mpr ⟨v, hv⟩⟩

theorem nfindings_ne_zero (o : HashOrders) (f : PerSigFindings) :
    f.nfindings o ind ≠ 0 ↔ HasFinding f := by
  rw [HasFinding, ← nEntries_ne_zero (o.counted ind 0), ← nEntries_ne_zero (o.counted ind 1),
    ← nEntries_ne_zero (o.counted ind 2), PerSigFindings.nfindings, ne_eq, ne_eq,
    ← List.length_eq_zero_iff]
  omega

variable {findings : Findings} (schema : Schema) (o : HashOrders)

/-- The findings of one environment, read off full tables, are exact. -/
theorem sig_spec (hn : (ps.map Policy.id).Nodup)
    (h : Covers M envs (arrayCombinations ps) findings) (he : envs[ind]? = some e) :
    ∃ f, AnalyzePolicyFindings.sig o schema findings ind e = .ok f ∧ ExactIn M schema ps e f := by
  obtain ⟨red, hred, hmr, hlr⟩ := sigFindings_spec
    "Redundancy for policy not precomputed for signature" (o.redundant ind) h.redundant hn he
  obtain ⟨ps', hps, _, hlp⟩ := sigFindings_spec
    "Shadowing for policy not precomputed for signature" (o.permitShadowed ind)
    h.permitShadowed hn he
  obtain ⟨po, hpo, _, hlo⟩ := sigFindings_spec
    "Overriding for policy not precomputed for signature" (o.permitOverriden ind)
    h.permitOverriden hn he
  obtain ⟨fs, hfs, _, hlf⟩ := sigFindings_spec
    "Shadowing for policy not precomputed for signature" (o.forbidShadowed ind)
    h.forbidShadowed hn he
  have hss : ∀ A : Set M.Request, ¬A ⊂ A := fun A hA => hA.2 (Set.Subset.refl A)
  refine ⟨PerSigFindings.new o ind (RequestEnvSer.new schema e) red ps' fs po, ?_, rfl, ?_, ?_,
    ?_, ?_, ?_⟩
  · simp [AnalyzePolicyFindings.sig, hred, hps, hpo, hfs, bind, Except.bind, pure, Except.pure]
  · exact nodup_peel (classified hn hlr)
  · exact mem_peel_iff_isClass (o.equivResults ind) (o.equivClass ind) hn hmr hlr
  · intro k v
    exact (hlp k v).trans (between_of_ne (fun p hp => hss _ hp.2.2) hn k v)
  · intro k v
    exact (hlf k v).trans (between_of_ne (fun p hp => hss _ hp.2.2) hn k v)
  · intro k v
    refine (hlo k v).trans (between_of_ne (fun p hp => ?_) hn k v)
    have heff := hp.1.1.symm.trans hp.1.2
    cases heff

open Classical in
/-- The loop over the environments from position `pre.length` on. -/
theorem sigs_spec (hn : (ps.map Policy.id).Nodup)
    (h : Covers M envs (arrayCombinations ps) findings) (pre rest : List RequestEnv)
    (henvs : envs = pre ++ rest) :
    ∃ fs, List.Forall₂ (ExactIn M schema ps) rest fs ∧
      AnalyzePolicyFindings.sigs o schema findings pre.length rest
        = .ok (fs.filter (fun g => decide (HasFinding g))) := by
  induction rest generalizing pre with
  | nil => exact ⟨[], .nil, rfl⟩
  | cons e rest ih =>
    have he : envs[pre.length]? = some e := by simp [henvs]
    obtain ⟨f, hf, hexact⟩ := sig_spec schema o hn h he
    obtain ⟨fs, hfs, hrun⟩ := ih (pre ++ [e]) (by simp [henvs])
    refine ⟨f :: fs, .cons hexact hfs, ?_⟩
    rw [List.length_append, List.length_singleton] at hrun
    simp only [AnalyzePolicyFindings.sigs, hf, hrun, bind, Except.bind, pure, Except.pure,
      nfindings_ne_zero, List.filter_cons, decide_eq_true_eq]

theorem new_spec (hn : (ps.map Policy.id).Nodup)
    (h : Covers M envs (arrayCombinations ps) findings) (vrs : List VacuityResult)
    (vac : Table PolicyId (List VacuityResult)) :
    ∃ f, AnalyzePolicyFindings.new o schema envs vrs vac findings = .ok f ∧
      Exact M schema ps envs f := by
  obtain ⟨fs, hfs, hsigs⟩ := sigs_spec schema o hn h [] envs rfl
  rw [List.length_nil] at hsigs
  simp only [AnalyzePolicyFindings.new, hsigs, bind, Except.bind, pure, Except.pure]
  exact ⟨_, rfl, fs, hfs, rfl⟩

/-- The vacuity table covers every policy it was built for. -/
theorem policyVacuities_spec {a : Analyzer B S} (h : a.leanFfi.Correct a.leanSchema M)
    (envs : List RequestEnv) (hn : (ps.map Policy.id).Nodup)
    (start : Table PolicyId (List VacuityResult)) :
    ∃ vac, a.policyVacuities envs ps start = .ok vac ∧ (∀ p ∈ ps, Known M envs vac p) ∧
      ∀ k, k ∉ ps.map Policy.id → vac.lookup k = start.lookup k := by
  induction ps generalizing start with
  | nil => exact ⟨start, rfl, by simp, fun k _ => rfl⟩
  | cons p ps ih =>
    rw [List.map_cons, List.nodup_cons] at hn
    obtain ⟨vrs, hvrs, hall⟩ := policyVacuous_spec M a h p envs
    obtain ⟨vac, hvac, hknown, hother⟩ := ih hn.2 (start.insert p.id vrs)
    refine ⟨vac, ?_, ?_, ?_⟩
    · simp [Analyzer.policyVacuities, hvrs, hvac, bind, Except.bind]
    · intro q hq
      obtain rfl | hq := List.mem_cons.mp hq
      · exact ⟨vrs, by rw [hother _ hn.1, Finmap.lookup_insert], hall⟩
      · exact hknown q hq
    · intro k hk
      rw [List.map_cons, List.mem_cons, not_or] at hk
      rw [hother k hk.2, Finmap.lookup_insert_of_ne _ hk.1]

/-- Some two permits of the set cannot be compared, as one is linked to a template. -/
def Incomparable (ps : List (Policy B)) : Prop :=
  ∃ p ∈ ps, ∃ q ∈ ps, p.id ≠ q.id ∧ LinkedPermits p q

/-- An analysis either returns exact findings, or stops because a permit linked to a
template is to be compared with another permit. -/
theorem analyzePolicyset_spec (a : Analyzer B S) (policySet : PolicySet B)
    (h : a.leanFfi.Correct a.leanSchema M) (hs : TakesStatic a.fromPolicies)
    (henvs : OpenRequestEnv.any.toRequestEnvs a.schema = .ok envs) :
    (¬Incomparable policySet.policies ∧ ∃ f, a.analyzePolicyset o policySet = .ok f ∧
      Exact M a.schema policySet.policies envs f) ∨
    (Incomparable policySet.policies ∧ ∃ e, a.analyzePolicyset o policySet
      = .error (.exec (.policyIntoPolicySetError e))) := by
  have hn := policySet.nodup
  have hjoin := joined_arrayCombinations policySet.policies hn
  obtain ⟨vac, hvac, hknown, _⟩ := policyVacuities_spec h envs hn ∅
  obtain ⟨psv, hpsv, _⟩ := mapM_forall₂ _ _ envs fun e _ =>
    vacuity_spec (h.alwaysAllows policySet e) (h.alwaysDenies policySet e)
  have hpairs : ∀ x ∈ arrayCombinations policySet.policies,
      Known M envs vac x.1 ∧ Known M envs vac x.2 := by
    intro x hx
    have hmem := (hjoin x.1 x.2).mp (Or.inl hx)
    exact ⟨hknown _ hmem.1, hknown _ hmem.2.1⟩
  rcases analyzePairs_spec h hs (arrayCombinations policySet.policies) hpairs covers_nil with
    ⟨findings, hrun, hcov, hno⟩ | ⟨e, hrun, x, hx, hl⟩
  · obtain ⟨f, hf, hexact⟩ := new_spec a.schema o hn hcov psv vac
    refine Or.inl ⟨?_, f, ?_, hexact⟩
    · intro hy
      obtain ⟨p, hp, q, hq, hne, hl⟩ := hy
      obtain hpq | hpq := (hjoin p q).mpr ⟨hp, hq, hne⟩
      · exact hno _ hpq hl
      · exact hno _ hpq ⟨hl.1.symm, hl.2.symm⟩
    · simp [Analyzer.analyzePolicyset, henvs, Except.mapError, hvac, Analyzer.policysetVacuous,
        hpsv, hrun, hf, bind, Except.bind]
  · have hmem := (hjoin x.1 x.2).mp (Or.inl hx)
    refine Or.inr ⟨⟨x.1, hmem.1, x.2, hmem.2.1, hmem.2.2, hl⟩, e, ?_⟩
    simp [Analyzer.analyzePolicyset, henvs, Except.mapError, hvac, Analyzer.policysetVacuous,
      hpsv, hrun, bind, Except.bind]

end CedarSpec.Analysis
