import CedarSpec.EncoderText

/-! Every run of the encoder is a run of its state machine, and writes its commands. -/

namespace CedarSpec.SymCC

open SmtLib Encoder

/-! ## Text that is written -/

/-- The text in between reads as the commands. -/
def Wrote (out out' : String) (cmds : List SExp) : Prop :=
  ∃ text, out' = out ++ text ∧ Writes text.toList cmds

variable {out out' out'' s s' : String} {e e' : SExp} {cmds cmds' es : List SExp}

theorem Wrote.refl (out : String) : Wrote out out [] := ⟨"", by simp, writes_nil⟩

theorem Wrote.trans (h : Wrote out out' cmds) (h' : Wrote out' out'' cmds') :
    Wrote out out'' (cmds ++ cmds') := by
  obtain ⟨text, rfl, hw⟩ := h
  obtain ⟨text', rfl, hw'⟩ := h'
  refine ⟨text ++ text', String.append_assoc, ?_⟩
  rw [String.toList_append]
  exact hw.append hw'

theorem wrote_emitln (h : Spells s.toList es) (hrun : Solver.emitln s out = .ok ((), out')) :
    Wrote out out' es := by
  cases hrun
  refine ⟨_, rfl, ?_⟩
  simpa [toString_self] using h.line

theorem newline_notMem_inlined (s : String) : '\n' ∉ (Solver.inlined s).toList := by
  rw [Solver.inlined, String.toList_map]
  intro h
  obtain ⟨c, _, hc⟩ := List.mem_map.mp h
  split at hc
  · cases hc
  · contradiction

theorem wrote_comment (hrun : Solver.comment s out = .ok ((), out')) : Wrote out out' [] := by
  cases hrun
  refine ⟨_, rfl, ?_⟩
  have h := writes_comment (s := ' ' :: (Solver.inlined s).toList)
    (by simp [newline_notMem_inlined])
  simpa [toString_self] using h

theorem wrote_declareConst (hs : isSymbol s.toList) (h : Shows s' e)
    (hrun : Solver.declareConst s s' out = .ok ((), out')) :
    Wrote out out' [constCommand s e] := by
  apply wrote_emitln ?_ hrun
  have hform := ((shows_sym (s := "declare-const") rfl).join (b := ' ') rfl
    ((shows_sym hs).join (b := ' ') rfl h)).paren
  simpa [toString_self, constCommand] using hform

theorem wrote_declareFun (hs : isSymbol s.toList) {arg sort : String} (h : Shows arg e)
    (h' : Shows sort e') (hrun : Solver.declareFun s [arg] sort out = .ok ((), out')) :
    Wrote out out' [funCommand s e e'] := by
  apply wrote_emitln ?_ hrun
  have hform := ((shows_sym (s := "declare-fun") rfl).join (b := ' ') rfl
    ((shows_sym hs).join (b := ' ') rfl (h.paren.join (b := ' ') rfl h'))).paren
  simpa [toString_self, funCommand] using hform

theorem wrote_defineFun {sort body : String} (hs : isSymbol s.toList) (h : Shows sort e)
    (h' : Shows body e') (hrun : Solver.defineFun s [] sort body out = .ok ((), out')) :
    Wrote out out' [defineCommand s e e'] := by
  apply wrote_emitln ?_ hrun
  have hform := ((shows_sym (s := "define-fun") rfl).join (b := ' ') rfl
    ((shows_sym hs).join (b := ' ') rfl
      (spells_nil.paren.join (b := ' ') rfl (h.join (b := ' ') rfl h')))).paren
  simpa [toString_self, defineCommand] using hform

theorem wrote_assert (h : Shows s e) (hrun : Solver.assert s out = .ok ((), out')) :
    Wrote out out' [assertCommand e] := by
  apply wrote_emitln ?_ hrun
  have hform := ((shows_sym (s := "assert") rfl).join (b := ' ') rfl h).paren
  simpa [toString_self, assertCommand] using hform

theorem wrote_declareDatatype (hs : isSymbol s.toList) {mks : List String}
    (h : List.Forall₂ Shows mks es)
    (hrun : Solver.declareDatatype s [] mks out = .ok ((), out')) :
    Wrote out out' [datatypeCommand s es] := by
  apply wrote_emitln ?_ hrun
  have hblank : ∀ c ∈ ['\n', ' ', ' '], isBlank c := by simp [isBlank]
  have hmks : List.Forall₂ (fun w e => Spells w [e]) (mks.map String.toList) es :=
    List.forall₂_map_left_iff.mpr h
  have hlist := ((spells_intercalate hblank hmks).blanks hblank).paren
  have hform := ((shows_sym (s := "declare-datatype") rfl).join (b := ' ') rfl
    ((shows_sym hs).join (b := ' ') rfl hlist)).paren
  simpa [toString_self, datatypeCommand] using hform

/-! ## Runs -/

/-- The computation ends normally with this result, state and output. -/
def Runs {α : Type} (m : EncoderM α) (st : EncoderState) (out : String) (a : α)
    (st' : EncoderState) (out' : String) : Prop := m st out = .ok ((a, st'), out')

variable {α β : Type} {m : EncoderM α} {f : α → EncoderM β} {st st' st'' : EncoderState}
  {a : α} {b : β}

theorem Runs.bind (h : Runs (m >>= f) st out b st'' out'') :
    ∃ a st' out', Runs m st out a st' out' ∧ Runs (f a) st' out' b st'' out'' := by
  unfold Runs at h
  simp only [Bind.bind, StateT.bind, Except.bind] at h
  cases hm : m st out with
  | error msg => simp [hm] at h
  | ok r =>
    obtain ⟨⟨a, st'⟩, out'⟩ := r
    exact ⟨a, st', out', hm, by simpa [hm, Runs] using h⟩

theorem Runs.pure {b : α} (h : Runs (Pure.pure b) st out a st' out') :
    b = a ∧ st = st' ∧ out = out' := by
  cases h
  exact ⟨rfl, rfl, rfl⟩

theorem Runs.get {s : EncoderState} (h : Runs MonadState.get st out s st' out') :
    st = s ∧ st = st' ∧ out = out' := by
  cases h
  exact ⟨rfl, rfl, rfl⟩

theorem Runs.lift {m : SolverM α} (h : Runs (liftM m) st out a st' out') :
    m out = .ok (a, out') ∧ st = st' := by
  unfold Runs at h
  simp only [liftM, monadLift, MonadLift.monadLift, StateT.lift, Bind.bind, StateT.bind,
    Except.bind] at h
  cases hm : m out with
  | error msg => simp [hm] at h
  | ok r =>
    simp only [hm] at h
    cases h
    exact ⟨rfl, rfl⟩

theorem Runs.liftExcept {x : Except String α} (h : Runs (liftM x) st out a st' out') :
    x = .ok a ∧ st = st' ∧ out = out' := by
  cases x with
  | error msg => cases h
  | ok b =>
    cases h
    exact ⟨rfl, rfl, rfl⟩

theorem runs_rememberType {ty : TermType} {enc : String}
    (h : Runs (rememberType ty enc) st out s st' out') :
    enc = s ∧ st.enterType ty enc = st' ∧ out = out' := by
  cases h
  exact ⟨rfl, rfl, rfl⟩

theorem runs_rememberTerm {t : Term} {enc : String}
    (h : Runs (rememberTerm t enc) st out s st' out') :
    enc = s ∧ st.enterTerm t enc = st' ∧ out = out' := by
  cases h
  exact ⟨rfl, rfl, rfl⟩

theorem runs_rememberUUF {uuf : UUF} {enc : String}
    (h : Runs (rememberUUF uuf enc) st out s st' out') :
    enc = s ∧ st.enterUUF uuf enc = st' ∧ out = out' := by
  cases h
  exact ⟨rfl, rfl, rfl⟩

/-! ## Types -/

theorem runs_declareType {mks : List String} (hs : isSymbol s.toList)
    (hmks : List.Forall₂ Shows mks es) (h : Runs (declareType s mks) st out s' st' out') :
    s = s' ∧ st = st' ∧ Wrote out out' [datatypeCommand s es] := by
  obtain ⟨u, st₁, out₁, hdecl, hpure⟩ := h.bind
  obtain ⟨rfl, rfl, rfl⟩ := hpure.pure
  obtain ⟨hrun, rfl⟩ := hdecl.lift
  exact ⟨rfl, rfl, wrote_declareDatatype hs hmks hrun⟩

theorem runs_typeNum {n : ℕ} (h : Runs typeNum st out n st' out') :
    st.types.size = n ∧ st = st' ∧ out = out' := by
  cases h
  exact ⟨rfl, rfl, rfl⟩

theorem runs_comment {u : Unit} (h : Runs (liftM (Solver.comment s)) st out u st' out') :
    st = st' ∧ Wrote out out' [] := by
  obtain ⟨hrun, rfl⟩ := h.lift
  exact ⟨rfl, wrote_comment hrun⟩

theorem shows_constructorDecl (hs : isSymbol s.toList) {fields : List String}
    {l : List (String × SExp)}
    (h : List.Forall₂ (fun text field => Shows text (.list [sym field.1, field.2])) fields l) :
    Shows ("(" ++ s ++ " " ++ String.intercalate " " fields ++ ")") (constructorDecl s l) := by
  have hfields : List.Forall₂ Shows fields (l.map fun field => .list [sym field.1, field.2]) :=
    List.forall₂_map_right_iff.mpr h
  have hform := ((shows_sym hs).join (b := ' ') rfl (spells_words hfields)).paren
  simpa [Shows, toString_self, constructorDecl] using hform

theorem shows_nullary (hs : isSymbol s.toList) : Shows s!"({s})" (constructorDecl s []) := by
  have hform := (shows_sym hs).paren
  simpa [Shows, toString_self, constructorDecl] using hform

theorem shows_eid (hs : isSymbol s.toList) :
    Shows s!"({s} (eid String))" (constructorDecl s [("eid", sym "String")]) := by
  have hfield : Shows "(eid String)" (.list [sym "eid", sym "String"]) := by
    have h := shows_app (p := "(eid ") rfl (shows_sym (s := "eid") rfl)
      (shows_sym (s := "String") rfl)
    simpa [Shows] using h
  have hform := ((shows_sym hs).join (b := ' ') rfl hfield).paren
  simpa [Shows, toString_self, constructorDecl] using hform

theorem shows_members (hs : isSymbol s.toList) (members : List String) (k : ℕ) :
    List.Forall₂ Shows (members.mapIdx fun i _ => s!"({enumId s (i + k)})")
      (members.mapIdx fun i _ => constructorDecl (enumId s (i + k)) []) := by
  induction members generalizing k with
  | nil => exact .nil
  | cons eid members ih =>
    rw [List.mapIdx_cons, List.mapIdx_cons]
    refine .cons (shows_nullary (isSymbol_enumId hs _)) ?_
    have h := ih (k + 1)
    simpa only [Nat.add_assoc, Nat.add_comm 1 k] using h

theorem runs_declareEntityType {ety : EntityType}
    (h : Runs (declareEntityType ety) st out s st' out') :
    entityTypeId st.types.size = s ∧ st = st' ∧
      Wrote out out' [datatypeCommand s (entityConstructors s (st.enums.lookup ety))] := by
  unfold declareEntityType at h
  obtain ⟨n, st₁, out₁, hnum, h₁⟩ := h.bind
  obtain ⟨state, st₂, out₂, hget, h₂⟩ := h₁.bind
  obtain ⟨rfl, rfl, rfl⟩ := runs_typeNum hnum
  obtain ⟨rfl, rfl, rfl⟩ := hget.get
  have hid := isSymbol_entityTypeId st.types.size
  cases hmembers : st.enums.lookup ety with
  | some members =>
    simp only [hmembers] at h₂
    obtain ⟨u, st₃, out₃, hcomment, h₃⟩ := h₂.bind
    obtain ⟨rfl, hout⟩ := runs_comment hcomment
    obtain ⟨rfl, rfl, hdecl⟩ := runs_declareType hid (shows_members hid members 0) h₃
    exact ⟨rfl, rfl, hout.trans hdecl⟩
  | none =>
    simp only [hmembers] at h₂
    obtain ⟨u, st₃, out₃, hcomment, h₃⟩ := h₂.bind
    obtain ⟨rfl, hout⟩ := runs_comment hcomment
    obtain ⟨rfl, rfl, hdecl⟩ := runs_declareType hid (.cons (shows_eid hid) .nil) h₃
    exact ⟨rfl, rfl, hout.trans hdecl⟩

theorem shows_selector {sort : String} (hs : isSymbol s.toList) (h : Shows sort e) :
    Shows s!"({s} {sort})" (.list [sym s, e]) := by
  have hform := ((shows_sym hs).join (b := ' ') rfl h).paren
  simpa [Shows, toString_self] using hform

theorem shows_constructor₁ (s sel : String) {sort : String} (hs : isSymbol s.toList)
    (hsel : isSymbol sel.toList) (h : Shows sort e) :
    Shows s!"({s} ({sel} {sort}))" (constructorDecl s [(sel, e)]) := by
  have hform := ((shows_sym hs).join (b := ' ') rfl (shows_selector hsel h)).paren
  simpa [Shows, toString_self, constructorDecl] using hform

theorem shows_constructor₂ (s sel₁ sel₂ : String) {sort₁ sort₂ : String} (hs : isSymbol s.toList)
    (hsel₁ : isSymbol sel₁.toList) (h₁ : Shows sort₁ e) (hsel₂ : isSymbol sel₂.toList)
    (h₂ : Shows sort₂ e') :
    Shows s!"({s} ({sel₁} {sort₁}) ({sel₂} {sort₂}))"
      (constructorDecl s [(sel₁, e), (sel₂, e')]) := by
  have hform := ((shows_sym hs).join (b := ' ') rfl
    ((shows_selector hsel₁ h₁).join (b := ' ') rfl (shows_selector hsel₂ h₂))).paren
  simpa [Shows, toString_self, constructorDecl] using hform

theorem shows_extConstructors (xty : ExtType) :
    ∃ mks, declareExtType xty = declareType (extTypeId xty) mks ∧
      List.Forall₂ Shows mks (extConstructors xty) := by
  have h64 : Nat.toDigits 10 64 = ['6', '4'] := rfl
  cases xty with
  | decimal =>
    have h := shows_constructor₁ "Decimal" "decimalVal" rfl rfl
      (shows_bitVecSort 64)
    refine ⟨_, rfl, .cons ?_ .nil⟩
    simpa [Shows, toString_self, h64] using h
  | ipAddr =>
    have h5 : Nat.toDigits 10 5 = ['5'] := rfl
    have h7 : Nat.toDigits 10 7 = ['7'] := rfl
    have h32 : Nat.toDigits 10 32 = ['3', '2'] := rfl
    have h128 : Nat.toDigits 10 128 = ['1', '2', '8'] := rfl
    have h := shows_constructor₂ "V4" "addrV4" "prefixV4" rfl rfl (shows_bitVecSort 32) rfl
      (shows_option (shows_bitVecSort 5))
    have h' := shows_constructor₂ "V6" "addrV6" "prefixV6" rfl rfl (shows_bitVecSort 128) rfl
      (shows_option (shows_bitVecSort 7))
    refine ⟨_, rfl, .cons ?_ (.cons ?_ .nil)⟩
    · simpa [Shows, toString_self, h5, h32] using h
    · simpa [Shows, toString_self, h7, h128] using h'
  | datetime =>
    have h := shows_constructor₁ "Datetime" "datetimeVal" rfl rfl
      (shows_bitVecSort 64)
    refine ⟨_, rfl, .cons ?_ .nil⟩
    simpa [Shows, toString_self, h64] using h
  | duration =>
    have h := shows_constructor₁ "Duration" "durationVal" rfl rfl
      (shows_bitVecSort 64)
    refine ⟨_, rfl, .cons ?_ .nil⟩
    simpa [Shows, toString_self, h64] using h

theorem runs_declareExtType {xty : ExtType} (h : Runs (declareExtType xty) st out s st' out') :
    extTypeId xty = s ∧ st = st' ∧
      Wrote out out' [datatypeCommand (extTypeId xty) (extConstructors xty)] := by
  obtain ⟨mks, hmks, hshows⟩ := shows_extConstructors xty
  rw [hmks] at h
  exact runs_declareType (isSymbol_extTypeId xty) hshows h

/-- The steps from one state to another, and the text of their commands. -/
def Encodes (st : EncoderState) (out : String) (st' : EncoderState) (out' : String) : Prop :=
  ∃ cmds, Steps st cmds st' ∧ Wrote out out' cmds

theorem Encodes.refl (st : EncoderState) (out : String) : Encodes st out st out :=
  ⟨[], .refl st, .refl out⟩

theorem Encodes.trans (h : Encodes st out st' out') (h' : Encodes st' out' st'' out'') :
    Encodes st out st'' out'' := by
  obtain ⟨cmds, hsteps, hw⟩ := h
  obtain ⟨cmds', hsteps', hw'⟩ := h'
  exact ⟨cmds ++ cmds', hsteps.trans hsteps', hw.trans hw'⟩

theorem Encodes.extends (h : Encodes st out st' out') : Extends st st' := by
  obtain ⟨cmds, hsteps, hw⟩ := h
  exact hsteps.extends

theorem Encodes.inv (h : Encodes st out st' out') (hinv : Inv st) : Inv st' := by
  obtain ⟨cmds, hsteps, hw⟩ := h
  exact hinv.steps hsteps

theorem Step.encodes (h : Step st cmds st') (hw : Wrote out out' cmds) :
    Encodes st out st' out' := ⟨cmds, h.steps, hw⟩

theorem Inv.isSymbol_typeId (hinv : Inv st) {ty : TermType} {id : String}
    (h : st.types.lookup ty = some id) : isSymbol id.toList := by
  have hentry := hinv.type ty id h
  cases ty with
  | prim pty =>
    cases pty with
    | entity ety =>
      obtain ⟨n, _, rfl⟩ := hentry
      exact isSymbol_entityTypeId n
    | ext xty =>
      cases hentry
      exact isSymbol_extTypeId xty
    | _ => exact hentry.elim
  | record rty =>
    obtain ⟨⟨n, _, rfl⟩, _⟩ := hentry
    exact isSymbol_recordTypeId n
  | _ => exact hentry.elim

theorem sortOf_of_lookup (hinv : Inv st) {ty : TermType} {id : String}
    (h : st.types.lookup ty = some id) : st.CoversType ty ∧ st.sortOf ty = sym id := by
  have hentry := hinv.type ty id h
  have hmem : ty ∈ st.types := AList.lookup_isSome.mp (by rw [h]; rfl)
  have hid : st.typeId ty = id := by rw [EncoderState.typeId, h, Option.getD_some]
  cases ty with
  | prim pty =>
    cases pty with
    | entity ety => exact ⟨hmem, congrArg sym hid⟩
    | ext xty => exact ⟨hmem, congrArg sym hid⟩
    | _ => exact hentry.elim
  | record rty => exact ⟨hmem, congrArg sym hid⟩
  | _ => exact hentry.elim

theorem shows_attrs (hs : isSymbol s.toList) {encs : List (String × String)}
    {rty : List (String × TermType)}
    (h : List.Forall₂ (fun enc field => Shows enc.2 (st.sortOf field.2)) encs rty) (k : ℕ) :
    List.Forall₂ (fun text field => Shows text (.list [sym field.1, field.2]))
      (encs.mapIdx fun i enc => s!"({recordAttrId s (i + k)} {enc.2})")
      (rty.mapIdx fun i field => (recordAttrId s (i + k), st.sortOf field.2)) := by
  induction h generalizing k with
  | nil => exact .nil
  | cons hfield hrty ih =>
    rw [List.mapIdx_cons, List.mapIdx_cons]
    refine .cons (shows_selector (isSymbol_recordAttrId hs _) hfield) ?_
    have h := ih (k + 1)
    simpa only [Nat.add_assoc, Nat.add_comm 1 k] using h

theorem runs_declareRecordType {encs : List (String × String)} {rty : List (String × TermType)}
    (hencs : List.Forall₂ (fun enc field => Shows enc.2 (st.sortOf field.2)) encs rty)
    (h : Runs (declareRecordType encs) st out s st' out') :
    recordTypeId st.types.size = s ∧ st = st' ∧
      Wrote out out' [datatypeCommand s [st.recordConstructor s rty]] := by
  unfold declareRecordType at h
  obtain ⟨n, st₁, out₁, hnum, h₁⟩ := h.bind
  obtain ⟨rfl, rfl, rfl⟩ := runs_typeNum hnum
  obtain ⟨u, st₂, out₂, hcomment, h₂⟩ := h₁.bind
  obtain ⟨rfl, hout⟩ := runs_comment hcomment
  have hid := isSymbol_recordTypeId st.types.size
  have hmk := shows_constructorDecl hid (shows_attrs hid hencs 0)
  obtain ⟨rfl, rfl, hdecl⟩ := runs_declareType hid (.cons hmk .nil) h₂
  exact ⟨rfl, rfl, hout.trans hdecl⟩

/-- Only types of at most this size are entered. -/
structure EntersTypes (size : ℕ) (st st' : EncoderState) : Prop where
  terms : st'.terms = st.terms
  uufs : st'.uufs = st.uufs
  types : ∀ ty ∈ st'.types, ty ∈ st.types ∨ sizeOf ty ≤ size

theorem EntersTypes.refl (size : ℕ) (st : EncoderState) : EntersTypes size st st :=
  ⟨rfl, rfl, fun _ h => .inl h⟩

theorem EntersTypes.trans {size size' : ℕ} (h : EntersTypes size st st')
    (h' : EntersTypes size' st' st'') {n : ℕ} (hn : size ≤ n) (hn' : size' ≤ n) :
    EntersTypes n st st'' := by
  refine ⟨h'.terms.trans h.terms, h'.uufs.trans h.uufs, fun ty hty => ?_⟩
  cases h'.types ty hty with
  | inl hty =>
    cases h.types ty hty with
    | inl hty => exact .inl hty
    | inr hsize => exact .inr (hsize.trans hn)
  | inr hsize => exact .inr (hsize.trans hn')

theorem entersTypes_enterType (ty : TermType) (id : String) :
    EntersTypes (sizeOf ty) st (st.enterType ty id) := by
  refine ⟨rfl, rfl, fun ty' hty' => ?_⟩
  cases (AList.mem_insert _).mp hty' with
  | inl h => exact .inr (by rw [h])
  | inr h => exact .inl h

/-- What it means that a run encodes a type. -/
structure EncodesType (ty : TermType) (st : EncoderState) (out enc : String)
    (st' : EncoderState) (out' : String) : Prop where
  steps : Encodes st out st' out'
  enters : EntersTypes (sizeOf ty) st st'
  covers : st'.CoversType ty
  shows : Shows enc (st'.sortOf ty)
  known : ∀ id, st'.types.lookup ty = some id → enc = id
  typed : ty.WellFormed → st.Typed → st'.Typed

theorem runs_known (hinv : Inv st) {ty : TermType} {id : String}
    (hl : st.types.lookup ty = some id) (h : Runs (pure id) st out s st' out') :
    EncodesType ty st out s st' out' := by
  obtain ⟨rfl, rfl, rfl⟩ := h.pure
  obtain ⟨hcov, hsort⟩ := sortOf_of_lookup hinv hl
  constructor
  · exact .refl st out
  · exact .refl _ st
  · exact hcov
  · rw [hsort]
    exact shows_sym (hinv.isSymbol_typeId hl)
  · intro id' hid'
    exact Option.some.inj (hl.symm.trans hid')
  · intro _ hst
    exact hst

theorem runs_enterType {ty : TermType} {id : String} {cmds : List SExp}
    (hstep : Step st cmds (st.enterType ty id)) (hw : Wrote out out' cmds) (hinv : Inv st)
    (h : Runs (rememberType ty id) st out' s st' out'') :
    EncodesType ty st out s st' out'' := by
  obtain ⟨rfl, rfl, rfl⟩ := runs_rememberType h
  have hl : (st.enterType ty id).types.lookup ty = some id := AList.lookup_insert _
  have hinv' := hinv.step hstep
  obtain ⟨hcov, hsort⟩ := sortOf_of_lookup hinv' hl
  constructor
  · exact hstep.encodes hw
  · exact entersTypes_enterType ty id
  · exact hcov
  · rw [hsort]
    exact shows_sym (hinv'.isSymbol_typeId hl)
  · intro id' hid'
    exact Option.some.inj (hl.symm.trans hid')
  · intro hty hst
    exact hst.enterType hty id

theorem Inv.lookup_eq_none (hinv : Inv st) {ty : TermType} (h : ∀ id, ¬st.TypeEntry ty id) :
    st.types.lookup ty = none := by
  cases hl : st.types.lookup ty with
  | none => rfl
  | some id => exact absurd (hinv.type ty id hl) (h id)

/-- A type that is not entered itself. -/
theorem encodesType_of_shows {ty : TermType} {size : ℕ} (hsteps : Encodes st out st' out')
    (hinv : Inv st) (henters : EntersTypes size st st') (hsize : size ≤ sizeOf ty)
    (hcov : st'.CoversType ty) (hshows : Shows s (st'.sortOf ty))
    (h : ∀ id, ¬st'.TypeEntry ty id) (htyped : ty.WellFormed → st.Typed → st'.Typed) :
    EncodesType ty st out s st' out' := by
  constructor
  · exact hsteps
  · exact henters.trans (.refl 0 _) hsize (Nat.zero_le _)
  · exact hcov
  · exact hshows
  · intro id hid
    rw [(hsteps.inv hinv).lookup_eq_none h] at hid
    cases hid
  · exact htyped

/-- What it means that a run encodes the types of a record one after the other. -/
structure EncodesFieldTypes (rty : List (String × TermType)) (st : EncoderState) (out : String)
    (encs : List (String × String)) (st' : EncoderState) (out' : String) : Prop where
  steps : Encodes st out st' out'
  enters : EntersTypes (sizeOf rty) st st'
  covers : ∀ field ∈ rty, st'.CoversType field.2
  shows : List.Forall₂ (fun enc field => Shows enc.2 (st'.sortOf field.2)) encs rty
  typed : (∀ field ∈ rty, field.2.WellFormed) → st.Typed → st'.Typed

theorem runs_encodeFieldTypes {rty : List (String × TermType)}
    (ih : ∀ field ∈ rty, ∀ {st out s st' out'}, Inv st →
      Runs (encodeType field.2) st out s st' out' → EncodesType field.2 st out s st' out')
    {encs : List (String × String)} (hinv : Inv st)
    (h : Runs (encodeFieldTypes rty) st out encs st' out') :
    EncodesFieldTypes rty st out encs st' out' := by
  induction rty generalizing st out encs with
  | nil =>
    obtain ⟨rfl, rfl, rfl⟩ := h.pure
    exact ⟨.refl st out, .refl _ st, by simp, .nil, fun _ hst => hst⟩
  | cons field rty ihrty =>
    obtain ⟨hfield, hrty⟩ := List.forall_mem_cons.mp ih
    obtain ⟨enc, st₁, out₁, h₁, h₂⟩ := h.bind
    obtain ⟨encs', st₂, out₂, h₃, h₄⟩ := h₂.bind
    obtain ⟨rfl, rfl, rfl⟩ := h₄.pure
    have hone := hfield hinv h₁
    have hrest := ihrty hrty (hone.steps.inv hinv) h₃
    have hext := hrest.steps.extends
    constructor
    · exact hone.steps.trans hrest.steps
    · apply hone.enters.trans hrest.enters
      · cases field
        simp only [List.cons.sizeOf_spec, Prod.mk.sizeOf_spec]
        omega
      · simp only [List.cons.sizeOf_spec]
        omega
    · exact List.forall_mem_cons.mpr ⟨hext.coversType _ hone.covers, hrest.covers⟩
    · refine .cons ?_ hrest.shows
      rw [hext.sortOf _ hone.covers]
      exact hone.shows
    · intro hwf hst
      obtain ⟨hwf, hwfs⟩ := List.forall_mem_cons.mp hwf
      exact hrest.typed hwfs (hone.typed hwf hst)

theorem runs_encodeType (ty : TermType) {st : EncoderState} (hinv : Inv st)
    (h : Runs (encodeType ty) st out s st' out') : EncodesType ty st out s st' out' := by
  induction ty using TermType.induct generalizing st st' out out' s with
  | prim pty =>
    unfold encodeType at h
    obtain ⟨state, st₁, out₁, hget, h₁⟩ := h.bind
    obtain ⟨rfl, rfl, rfl⟩ := hget.get
    cases hl : st.types.lookup (.prim pty) with
    | some id =>
      simp only [hl] at h₁
      exact runs_known hinv hl h₁
    | none =>
      simp only [hl] at h₁
      have fresh := AList.lookup_eq_none.mp hl
      cases pty with
      | bool =>
        obtain ⟨rfl, rfl, rfl⟩ := h₁.pure
        exact encodesType_of_shows (.refl st out) hinv (.refl 0 st) (Nat.zero_le _) trivial
          (shows_sym rfl) (fun _ h => h) fun _ hst => hst
      | bitvec n =>
        obtain ⟨rfl, rfl, rfl⟩ := h₁.pure
        exact encodesType_of_shows (.refl st out) hinv (.refl 0 st) (Nat.zero_le _) trivial
          (shows_bitVecSort n) (fun _ h => h) fun _ hst => hst
      | string =>
        obtain ⟨rfl, rfl, rfl⟩ := h₁.pure
        exact encodesType_of_shows (.refl st out) hinv (.refl 0 st) (Nat.zero_le _) trivial
          (shows_sym rfl) (fun _ h => h) fun _ hst => hst
      | entity ety =>
        obtain ⟨id, st₂, out₂, hdecl, h₂⟩ := h₁.bind
        obtain ⟨rfl, rfl, hw⟩ := runs_declareEntityType hdecl
        exact runs_enterType (.entity fresh) hw hinv h₂
      | ext xty =>
        obtain ⟨id, st₂, out₂, hdecl, h₂⟩ := h₁.bind
        obtain ⟨rfl, rfl, hw⟩ := runs_declareExtType hdecl
        exact runs_enterType (.ext fresh) hw hinv h₂
  | option ty ih =>
    unfold encodeType at h
    obtain ⟨state, st₁, out₁, hget, h₁⟩ := h.bind
    obtain ⟨rfl, rfl, rfl⟩ := hget.get
    cases hl : st.types.lookup (.option ty) with
    | some id =>
      simp only [hl] at h₁
      exact runs_known hinv hl h₁
    | none =>
      simp only [hl] at h₁
      obtain ⟨enc, st₂, out₂, harg, h₂⟩ := h₁.bind
      obtain ⟨rfl, rfl, rfl⟩ := h₂.pure
      have hty := ih hinv harg
      have htyped : (TermType.option ty).WellFormed → st.Typed → st₂.Typed := by
        intro hwf hst
        cases hwf with
        | option hwf => exact hty.typed hwf hst
      exact encodesType_of_shows hty.steps hinv hty.enters (by simp) hty.covers
        (shows_option hty.shows) (fun _ h => h) htyped
  | set ty ih =>
    unfold encodeType at h
    obtain ⟨state, st₁, out₁, hget, h₁⟩ := h.bind
    obtain ⟨rfl, rfl, rfl⟩ := hget.get
    cases hl : st.types.lookup (.set ty) with
    | some id =>
      simp only [hl] at h₁
      exact runs_known hinv hl h₁
    | none =>
      simp only [hl] at h₁
      obtain ⟨enc, st₂, out₂, harg, h₂⟩ := h₁.bind
      obtain ⟨rfl, rfl, rfl⟩ := h₂.pure
      have hty := ih hinv harg
      have htyped : (TermType.set ty).WellFormed → st.Typed → st₂.Typed := by
        intro hwf hst
        cases hwf with
        | set hwf => exact hty.typed hwf hst
      exact encodesType_of_shows hty.steps hinv hty.enters (by simp) hty.covers
        (shows_set hty.shows) (fun _ h => h) htyped
  | record rty ih =>
    unfold encodeType at h
    obtain ⟨state, st₁, out₁, hget, h₁⟩ := h.bind
    obtain ⟨rfl, rfl, rfl⟩ := hget.get
    cases hl : st.types.lookup (.record rty) with
    | some id =>
      simp only [hl] at h₁
      exact runs_known hinv hl h₁
    | none =>
      simp only [hl] at h₁
      obtain ⟨encs, st₂, out₂, hfields, h₂⟩ := h₁.bind
      obtain ⟨id, st₃, out₃, hdecl, h₃⟩ := h₂.bind
      have hrty := runs_encodeFieldTypes (fun field hf => ih field hf) hinv hfields
      -- the types of the fields are smaller, so that of the record is still not entered
      have fresh : TermType.record rty ∉ st₂.types := by
        intro hmem
        cases hrty.enters.types _ hmem with
        | inl hmem => exact AList.lookup_eq_none.mp hl hmem
        | inr hsize =>
          simp only [TermType.record.sizeOf_spec] at hsize
          omega
      obtain ⟨rfl, rfl, hw⟩ := runs_declareRecordType hrty.shows hdecl
      have hty := runs_enterType (.record fresh hrty.covers) hw (hrty.steps.inv hinv) h₃
      have htyped : (TermType.record rty).WellFormed → st.Typed → st'.Typed := by
        intro hwf hst
        cases hwf with
        | record hfields => exact hty.typed (.record hfields) (hrty.typed hfields hst)
      exact ⟨hrty.steps.trans hty.steps, hrty.enters.trans hty.enters (by simp) le_rfl,
        hty.covers, hty.shows, hty.known, htyped⟩

end CedarSpec.SymCC
