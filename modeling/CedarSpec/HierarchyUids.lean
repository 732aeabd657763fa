import CedarSpec.HierarchyPool

/-! The uids of an entity type: what one draw reads of the source, and when the loop that
draws until there are enough distinct uids comes to an end. -/

namespace CedarSpec.HierarchyGen
open RandomGen IndexCollections

variable {U : Type}

/-- The `arbitrary` crate as documented. A range of one number reads nothing and succeeds, a
longer one reads a byte if there is one, and so does a string; the length of a slice bounds
the index chosen; a loop only runs its body, a bounded number of times. -/
structure Unstructured.Lawful (u : Unstructured U) : Prop where
  isEmpty_iff : ∀ s, u.isEmpty s = true ↔ u.len s = 0
  intInRange_single : ∀ n s, u.intInRange n n s = .ok (n, s)
  intInRange_le : ∀ lo hi s x s', lo ≤ hi → u.intInRange lo hi s = .ok (x, s') → x ≤ hi
  intInRange_len_le : ∀ lo hi s x s', u.intInRange lo hi s = .ok (x, s') → u.len s' ≤ u.len s
  intInRange_len_lt : ∀ lo hi s x s', lo < hi → u.len s ≠ 0 →
    u.intInRange lo hi s = .ok (x, s') → u.len s' < u.len s
  eid_len_le : ∀ s x s', u.eid s = .ok (x, s') → u.len s' ≤ u.len s
  eid_len_lt : ∀ s x s', u.len s ≠ 0 → u.eid s = .ok (x, s') → u.len s' < u.len s
  choose_lt : ∀ n s x s', u.choose n s = .ok (x, s') → x < n
  loop_halts : ∀ {α : Type} (lo hi : Option ℕ) (f : α → Gen U Error α) (a : α) (s : U),
    (∀ a s, Halts (f a) s) → Halts (u.arbitraryLoop lo hi f a) s
  loop_invariant : ∀ {α : Type} (lo hi : Option ℕ) (f : α → Gen U Error α) (P : α → Prop)
    (a : α) (s : U) (a' : α) (s' : U), (∀ a s a' s', P a → f a s = .ok (a', s') → P a') → P a →
    u.arbitraryLoop lo hi f a s = .ok (a', s') → P a'

/-- Enumerated, with a single choice. -/
def SingleChoice (choices : Option (NonEmpty Eid)) : Prop :=
  ∃ c, choices = some c ∧ c.len = 1

variable {u : Unstructured U} {ty : EntityType} {choices : Option (NonEmpty Eid)}
  {uid : EntityUID} {s s' : U}

theorem generateUidWithType_ok (h : generateUidWithType u ty choices s = .ok (uid, s')) :
    uid.entityType = ty ∧
      ((choices = none ∧ u.eid s = .ok (uid.eid, s')) ∨
        ∃ c x, choices = some c ∧ u.intInRange 0 (c.len - 1) s = .ok (x, s')) := by
  obtain ⟨eid, s₁, h₁, h₂⟩ := bind_eq_ok.mp h
  cases h₂
  refine ⟨rfl, ?_⟩
  cases choices with
  | none => exact Or.inl ⟨rfl, call_eq_ok.mp h₁⟩
  | some c =>
    obtain ⟨x, s₂, hx, hget⟩ := bind_eq_ok.mp h₁
    refine Or.inr ⟨c, x, rfl, ?_⟩
    cases hidx : c.toList[x]? with
    | none => simp [hidx, Gen.orPanic, Gen.panic] at hget
    | some e =>
      simp only [hidx, Gen.orPanic, Outcome.ok.injEq, Prod.mk.injEq] at hget
      rw [call_eq_ok] at hx
      rw [hx, hget.2]

theorem generateUidWithType_halts (hu : u.Lawful) (ty : EntityType)
    (choices : Option (NonEmpty Eid)) (s : U) : Halts (generateUidWithType u ty choices) s := by
  refine halts_bind ?_ fun eid s' _ => halts_pure _ s'
  cases choices with
  | none => exact halts_call _ s
  | some c =>
    refine halts_bind (halts_call _ s) fun x s' hx => ?_
    have hle := hu.intInRange_le 0 (c.len - 1) s x s' (Nat.zero_le _) (call_eq_ok.mp hx)
    have hlt : x < c.toList.length := by
      simp only [NonEmpty.len, NonEmpty.toList, List.length_cons] at hle ⊢
      omega
    rw [List.getElem?_eq_getElem hlt]
    exact halts_pure _ s'

/-- A single choice is taken without reading anything. -/
theorem generateUidWithType_single (hu : u.Lawful) {c : NonEmpty Eid} (hc : c.len = 1) (s : U) :
    generateUidWithType u ty (some c) s = .ok (⟨ty, c.head⟩, s) := by
  have hx : u.intInRange 0 (c.len - 1) s = .ok (0, s) := by
    rw [hc]
    exact hu.intInRange_single 0 s
  have heid : generateEid u (some c) s = .ok (c.head, s) := bind_of_ok (call_eq_ok.mpr hx) _
  exact bind_of_ok heid _

theorem generateUidWithType_len_le (hu : u.Lawful)
    (h : generateUidWithType u ty choices s = .ok (uid, s')) : u.len s' ≤ u.len s := by
  obtain ⟨_, he⟩ | ⟨c, x, _, hx⟩ := (generateUidWithType_ok h).2
  · exact hu.eid_len_le s _ s' he
  · exact hu.intInRange_len_le _ _ s x s' hx

/-- Any other draw reads at least one of the bytes left. -/
theorem generateUidWithType_len_lt (hu : u.Lawful) (hs : ¬SingleChoice choices)
    (hlen : u.len s ≠ 0) (h : generateUidWithType u ty choices s = .ok (uid, s')) :
    u.len s' < u.len s := by
  obtain ⟨_, he⟩ | ⟨c, x, rfl, hx⟩ := (generateUidWithType_ok h).2
  · exact hu.eid_len_lt s _ s' hlen he
  · refine hu.intInRange_len_lt _ _ s x s' ?_ hlen hx
    have hne : c.len ≠ 1 := fun hc => hs ⟨c, rfl, hc⟩
    simp only [NonEmpty.len] at hne ⊢
    omega

/-! ## The loop for a fixed number of uids -/

variable {g : HierarchyGenerator U} {name : EntityType} {uids uids' : IndexSet EntityUID}

theorem drawUid_eq : g.drawUid u name uids s =
    if u.isEmpty s then .error .notEnoughData
    else (generateUidWithType u name (g.uidChoices name) >>=
      fun uid => pure (uids.insert uid)) s := by
  have hpeek : (Gen.peek u.isEmpty : Gen U Error Bool) s = .ok (u.isEmpty s, s) := rfl
  simp only [HierarchyGenerator.drawUid]
  rw [bind_of_ok hpeek]
  cases u.isEmpty s <;> rfl

theorem drawUid_ok (h : g.drawUid u name uids s = .ok (uids', s')) :
    u.isEmpty s = false ∧ ∃ uid, generateUidWithType u name (g.uidChoices name) s = .ok (uid, s') ∧
      uids' = uids.insert uid := by
  rw [drawUid_eq] at h
  split at h
  · cases h
  · next hs =>
    obtain ⟨uid, s₁, h₁, h₂⟩ := bind_eq_ok.mp h
    cases h₂
    exact ⟨by simpa using hs, uid, h₁, rfl⟩

theorem drawUid_halts (hu : u.Lawful) (g : HierarchyGenerator U) (name : EntityType)
    (uids : IndexSet EntityUID) (s : U) : Halts (g.drawUid u name uids) s := by
  unfold Halts
  rw [drawUid_eq]
  split
  · exact Or.inr ⟨_, rfl⟩
  · exact halts_bind (generateUidWithType_halts hu name _ s) fun uid s' _ => halts_pure _ s'

/-! ## Uids of their type -/

variable {n nTypes fuel : ℕ}

/-- However many uids are asked for, those of a type are of that type. -/
theorem uidsOfType_typed (hu : u.Lawful)
    (h : g.uidsOfType u fuel nTypes name s = .ok (uids, s')) :
    ∀ x ∈ uids.elems, x.entityType = name := by
  have hinsert : ∀ (uids : IndexSet EntityUID) (uid : EntityUID), uid.entityType = name →
      (∀ x ∈ uids.elems, x.entityType = name) →
      ∀ x ∈ (uids.insert uid).elems, x.entityType = name := by
    intro uids uid hty hall x hx
    obtain hx | rfl := (IndexSet.mem_insert uids uid x).mp hx
    · exact hall x hx
    · exact hty
  have hempty : ∀ x ∈ (IndexSet.empty : IndexSet EntityUID).elems, x.entityType = name := by
    simp [IndexSet.empty]
  simp only [HierarchyGenerator.uidsOfType] at h
  cases hn : g.numEntities with
  | rangePerEntityType start stop =>
    simp only [hn] at h
    split at h
    · refine hu.loop_invariant _ _ _
        (fun uids : IndexSet EntityUID => ∀ x ∈ uids.elems, x.entityType = name)
        _ s uids s' ?_ hempty h
      intro uids s₁ uids' s₂ hall hok
      obtain ⟨uid, s₃, hdraw, hok⟩ := bind_eq_ok.mp hok
      cases hok
      exact hinsert uids uid (generateUidWithType_ok hdraw).1 hall
    · cases h
  | exactlyPerEntityType k =>
    simp only [hn] at h
    obtain ⟨drawn, s₁, hdrawn, h⟩ := bind_eq_ok.mp h
    cases h
    intro x hx
    obtain ⟨i, _, v, v', hv⟩ := exists_of_mem_mapM hdrawn ((IndexSet.mem_collect drawn x).mp hx)
    exact (generateUidWithType_ok hv).1
  | exactly k =>
    simp only [hn] at h
    refine (whileLoop_invariant
      (fun uids : IndexSet EntityUID => ∀ x ∈ uids.elems, x.entityType = name)
      ?_ hempty h).1
    intro uids s₁ uids' s₂ hall _ hok
    obtain ⟨_, uid, hdraw, rfl⟩ := drawUid_ok hok
    exact hinsert uids uid (generateUidWithType_ok hdraw).1 hall

/-- The uids drawn for distinct types form a pool under these types. -/
theorem uidsByType_pool (hu : u.Lawful) {names : List EntityType} {ids : UidLists}
    (h : g.uidsByType u fuel nTypes names s = .ok (ids, s')) :
    ids.map Prod.fst = names ∧ (names.Nodup → Pool ids) := by
  have hall := mapM_eq_ok h
  have hfst : ids.map Prod.fst = names := by
    clear h
    induction hall with
    | nil => rfl
    | @cons name e names ids hv _ ih =>
      obtain ⟨v, v', hv⟩ := hv
      obtain ⟨uids, s₁, _, he⟩ := bind_eq_ok.mp hv
      cases he
      simp [ih]
  refine ⟨hfst, fun hn => ⟨hfst ▸ hn, fun e he => ?_⟩⟩
  obtain ⟨name, _, v, v', hv⟩ := exists_of_mem_mapM h he
  obtain ⟨uids, s₁, huids, hpure⟩ := bind_eq_ok.mp hv
  cases hpure
  exact uidsOfType_typed hu huids

end CedarSpec.HierarchyGen
