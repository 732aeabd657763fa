import CedarSpec.HierarchyParents

/-! When the generation of a hierarchy with a fixed number of uids comes to an end. The
loop over the uids of one type ends unless it has to draw a second uid from a single
choice while bytes are left; everything else ends anyway. -/

namespace CedarSpec.HierarchyGen
open RandomGen IndexCollections HierarchyGenerator

variable {U : Type} {u : Unstructured U} {g : HierarchyGenerator U} {name : EntityType}
  {n nTypes fuel : ℕ} {s s' : U}

/-- The loop that draws `n` distinct uids of one type. -/
def exactLoop (u : Unstructured U) (g : HierarchyGenerator U) (name : EntityType) (n fuel : ℕ) :
    Gen U Error (IndexSet EntityUID) :=
  whileLoop (fun uids => decide (uids.elems.length < n)) (g.drawUid u name) fuel .empty

theorem uidsOfType_exactly (hg : g.numEntities = .exactly n) :
    g.uidsOfType u fuel nTypes name = exactLoop u g name (n / nTypes) fuel := by
  simp only [uidsOfType, hg, exactLoop]

theorem exactLoop_halts (hu : u.Lawful)
    (h : SingleChoice (g.uidChoices name) → 2 ≤ n → u.len s = 0) (hfuel : u.len s + 2 ≤ fuel) :
    Halts (exactLoop u g name n fuel) s := by
  by_cases hs : SingleChoice (g.uidChoices name)
  · by_cases hn : 2 ≤ n
    · -- no byte is left, so the first round gives up
      have hempty := (hu.isEmpty_iff s).mpr (h hs hn)
      refine whileLoop_halts (fun _ s => u.isEmpty s = true) (fun _ _ => 0)
        (fun uids s _ _ => drawUid_halts hu g name uids s) ?_ hempty (by omega)
      intro uids s₁ uids' s₂ he _ hok
      rw [(drawUid_ok hok).1] at he
      cases he
    · -- one uid is enough
      refine whileLoop_halts (fun _ _ => True) (fun uids _ => 1 - uids.elems.length)
        (fun uids s _ _ => drawUid_halts hu g name uids s) ?_ trivial (by omega)
      intro uids s₁ uids' s₂ _ hc hok
      obtain ⟨_, uid, _, rfl⟩ := drawUid_ok hok
      refine ⟨trivial, ?_⟩
      have hlen : 0 < (uids.insert uid).elems.length :=
        List.length_pos_of_mem ((IndexSet.mem_insert uids uid uid).mpr (Or.inr rfl))
      simp only [decide_eq_true_eq] at hc
      omega
  · -- every round reads a byte
    refine whileLoop_halts (fun _ _ => True) (fun _ s => u.len s)
      (fun uids s _ _ => drawUid_halts hu g name uids s) ?_ trivial (by omega)
    intro uids s₁ uids' s₂ _ _ hok
    obtain ⟨he, uid, hdraw, _⟩ := drawUid_ok hok
    refine ⟨trivial, generateUidWithType_len_lt hu hs (fun hlen => ?_) hdraw⟩
    rw [(hu.isEmpty_iff s₁).mpr hlen] at he
    cases he

/-- The same uid is drawn over and over, and no byte is read. -/
theorem exactLoop_diverges (hu : u.Lawful) (hs : SingleChoice (g.uidChoices name)) (hn : 2 ≤ n)
    (hlen : u.len s ≠ 0) (fuel : ℕ) : exactLoop u g name n fuel s = .timeout := by
  obtain ⟨c, hc, hone⟩ := hs
  refine whileLoop_diverges
    (fun uids s => u.len s ≠ 0 ∧ ∀ x ∈ uids.elems, x = ⟨name, c.head⟩) ?_ fuel
    ⟨hlen, by simp [IndexSet.empty]⟩
  rintro uids s ⟨hs, hall⟩
  have hle : uids.elems.length ≤ 1 := by
    have hsub : uids.elems ⊆ [⟨name, c.head⟩] := fun x hx => List.mem_singleton.mpr (hall x hx)
    simpa using (uids.nodup.subperm hsub).length_le
  have hne : u.isEmpty s = false := by
    cases he : u.isEmpty s with
    | false => rfl
    | true => exact absurd ((hu.isEmpty_iff s).mp he) hs
  refine ⟨by simp; omega, uids.insert ⟨name, c.head⟩, s, ?_, hs, ?_⟩
  · rw [drawUid_eq, hne, hc]
    exact bind_of_ok (generateUidWithType_single hu hone s) _
  · intro x hx
    exact ((IndexSet.mem_insert uids _ x).mp hx).elim (hall x) id

/-- A loop that returns has drawn `n` uids. -/
theorem exactLoop_ok {uids : IndexSet EntityUID}
    (h : exactLoop u g name n fuel s = .ok (uids, s')) : uids.elems.length = n := by
  have hinv := whileLoop_invariant (fun uids : IndexSet EntityUID => uids.elems.length ≤ n)
    ?_ (by simp [IndexSet.empty]) h
  · obtain ⟨hle, hc⟩ := hinv
    simp only [decide_eq_false_iff_not, not_lt] at hc
    omega
  · intro uids s₁ uids' s₂ _ hc hok
    obtain ⟨_, uid, _, rfl⟩ := drawUid_ok hok
    have hle := IndexSet.length_insert_le uids uid
    simp only [decide_eq_true_eq] at hc
    omega

theorem exactLoop_len_le (hu : u.Lawful) {uids : IndexSet EntityUID}
    (h : exactLoop u g name n fuel s = .ok (uids, s')) : u.len s' ≤ u.len s := by
  have hloop : ∀ fuel (uids₀ : IndexSet EntityUID) s,
      whileLoop (fun uids => decide (uids.elems.length < n)) (g.drawUid u name) fuel uids₀ s
        = .ok (uids, s') → u.len s' ≤ u.len s := by
    intro fuel
    induction fuel with
    | zero => intro uids₀ s h; cases h
    | succ fuel ih =>
      intro uids₀ s h
      rw [whileLoop] at h
      split at h
      · obtain ⟨uids₁, s₁, h₁, h₂⟩ := bind_eq_ok.mp h
        obtain ⟨_, uid, hdraw, _⟩ := drawUid_ok h₁
        exact (ih uids₁ s₁ h₂).trans (generateUidWithType_len_le hu hdraw)
      · cases h
        exact le_refl _
  exact hloop fuel .empty s h

theorem exactLoop_mono {fuel' : ℕ} (hle : fuel ≤ fuel')
    (h : exactLoop u g name n fuel s ≠ .timeout) :
    exactLoop u g name n fuel' s = exactLoop u g name n fuel s :=
  whileLoop_mono hle h

/-! ## All entity types -/

variable {names : List EntityType} {ids : UidLists}

theorem uidsByType_nil : g.uidsByType u fuel nTypes [] s = .ok ([], s) := rfl

/-- One entity type after the other. -/
theorem uidsByType_cons (names : List EntityType) : g.uidsByType u fuel nTypes (name :: names) =
    g.uidsOfType u fuel nTypes name >>= fun uids =>
      g.uidsByType u fuel nTypes names >>= fun rest => pure ((name, uids) :: rest) := by
  simp only [uidsByType, List.mapM_cons, bind_assoc, pure_bind]

theorem uidsByType_append (pre post : List EntityType) :
    g.uidsByType u fuel nTypes (pre ++ post) =
      g.uidsByType u fuel nTypes pre >>= fun ids =>
        g.uidsByType u fuel nTypes post >>= fun rest => pure (ids ++ rest) := by
  simp only [uidsByType, List.mapM_append]

theorem uidsByType_mono (hg : g.numEntities = .exactly n) {fuel' : ℕ} (hle : fuel ≤ fuel')
    (h : g.uidsByType u fuel nTypes names s ≠ .timeout) :
    g.uidsByType u fuel' nTypes names s = g.uidsByType u fuel nTypes names s := by
  refine mapM_mono (fun name _ s hx => ?_) h
  rw [uidsOfType_exactly hg] at hx ⊢
  rw [uidsOfType_exactly hg]
  have hne : exactLoop u g name (n / nTypes) fuel s ≠ .timeout :=
    fun ht => hx (bind_of_timeout ht _)
  have hmono := exactLoop_mono hle hne
  cases hloop : exactLoop u g name (n / nTypes) fuel s with
  | ok r => rw [bind_of_ok hloop, bind_of_ok (hmono.trans hloop)]
  | error e => rw [bind_of_error hloop, bind_of_error (hmono.trans hloop)]
  | panic m => rw [bind_of_panic hloop, bind_of_panic (hmono.trans hloop)]
  | timeout => exact absurd hloop hne

/-- Each list holds `n / nTypes` uids. -/
theorem uidsByType_length (hg : g.numEntities = .exactly n)
    (h : g.uidsByType u fuel nTypes names s = .ok (ids, s')) :
    ∀ e ∈ ids, e.2.elems.length = n / nTypes := by
  intro e he
  obtain ⟨name, _, v, v', hv⟩ := exists_of_mem_mapM h he
  obtain ⟨uids, s₁, huids, hpure⟩ := bind_eq_ok.mp hv
  cases hpure
  rw [uidsOfType_exactly hg] at huids
  exact exactLoop_ok huids

/-- Some type before which bytes are left has a single choice. -/
def ReachesSingle (u : Unstructured U) (g : HierarchyGenerator U) (nTypes : ℕ)
    (names : List EntityType) (s : U) : Prop :=
  ∃ pre name post, names = pre ++ name :: post ∧ SingleChoice (g.uidChoices name) ∧
    ∃ fuel ids s', g.uidsByType u fuel nTypes pre s = .ok (ids, s') ∧ u.len s' ≠ 0

/-- What is left behind the first type is reached behind it too. -/
theorem ReachesSingle.cons (hg : g.numEntities = .exactly n) {uids : IndexSet EntityUID}
    (h₁ : g.uidsOfType u fuel nTypes name s = .ok (uids, s'))
    (h : ReachesSingle u g nTypes names s') : ReachesSingle u g nTypes (name :: names) s := by
  obtain ⟨pre, single, post, rfl, hs, fuel', ids, s₂, hpre, hlen⟩ := h
  refine ⟨name :: pre, single, post, rfl, hs, max fuel fuel', (name, uids) :: ids, s₂, ?_, hlen⟩
  have h₁' : g.uidsOfType u (max fuel fuel') nTypes name s = .ok (uids, s') := by
    rw [uidsOfType_exactly hg] at h₁ ⊢
    rw [exactLoop_mono (le_max_left _ _) (by rw [h₁]; exact fun h => nomatch h), h₁]
  have hpre' : g.uidsByType u (max fuel fuel') nTypes pre s' = .ok (ids, s₂) := by
    rw [uidsByType_mono hg (le_max_right _ _) (by rw [hpre]; exact fun h => nomatch h), hpre]
  rw [uidsByType_cons, bind_of_ok h₁', bind_of_ok hpre']
  rfl

theorem uidsByType_halts (hu : u.Lawful) (hg : g.numEntities = .exactly n)
    (h : 2 ≤ n / nTypes → ¬ReachesSingle u g nTypes names s) (hfuel : u.len s + 2 ≤ fuel) :
    Halts (g.uidsByType u fuel nTypes names) s := by
  induction names generalizing s with
  | nil => exact halts_pure [] s
  | cons name names ih =>
    rw [uidsByType_cons]
    have hfirst : SingleChoice (g.uidChoices name) → 2 ≤ n / nTypes → u.len s = 0 := by
      intro hs hn
      by_contra hlen
      exact h hn ⟨[], name, names, rfl, hs, 0, [], s, uidsByType_nil, hlen⟩
    refine halts_bind ?_ fun uids s₁ h₁ => halts_bind ?_ fun rest s₂ _ => halts_pure _ s₂
    · rw [uidsOfType_exactly hg]
      exact exactLoop_halts hu hfirst hfuel
    · have hle : u.len s₁ ≤ u.len s := by
        rw [uidsOfType_exactly hg] at h₁
        exact exactLoop_len_le hu h₁
      exact ih (fun hn hr => h hn (hr.cons hg h₁)) (by omega)

theorem uidsByType_diverges (hu : u.Lawful) (hg : g.numEntities = .exactly n)
    (hn : 2 ≤ n / nTypes) (h : ReachesSingle u g nTypes names s) (fuel : ℕ) :
    g.uidsByType u fuel nTypes names s = .timeout := by
  obtain ⟨pre, name, post, rfl, hs, fuel₀, ids, s', hpre, hlen⟩ := h
  rw [uidsByType_append]
  by_cases ht : g.uidsByType u fuel nTypes pre s = .timeout
  · exact bind_of_timeout ht _
  · -- whatever the fuel, the types before leave the source in the same state
    have hpre' : g.uidsByType u fuel nTypes pre s = .ok (ids, s') := by
      obtain hle | hle := le_total fuel fuel₀
      · rw [← uidsByType_mono hg hle ht, hpre]
      · rw [uidsByType_mono hg hle (by rw [hpre]; exact fun h => nomatch h), hpre]
    rw [bind_of_ok hpre', uidsByType_cons, uidsOfType_exactly hg]
    exact bind_of_timeout (bind_of_timeout (exactLoop_diverges hu hs hn hlen fuel) _) _

end CedarSpec.HierarchyGen
