import CedarSpec.EncoderRuns

/-! The runs that encode functions, applications and terms. -/

namespace CedarSpec.SymCC

open SmtLib Encoder

variable {out out' out'' s s' : String} {e e' : SExp} {cmds cmds' es : List SExp}
  {st st' st'' : EncoderState}

/-! ## Functions -/

theorem Inv.isSymbol_uufId (hinv : Inv st) {f : UUF} {id : String}
    (h : st.uufs.lookup f = some id) : isSymbol id.toList := by
  obtain ⟨⟨n, _, rfl⟩, _⟩ := hinv.uuf f id h
  exact CedarSpec.SymCC.isSymbol_uufId n

theorem uufId_of_lookup {f : UUF} {id : String} (h : st.uufs.lookup f = some id) :
    f ∈ st.uufs ∧ st.uufId f = id := by
  constructor
  · exact AList.lookup_isSome.mp (by rw [h]; rfl)
  · rw [EncoderState.uufId, h, Option.getD_some]

/-- What it means that a run encodes a function. -/
structure EncodesUUF (f : UUF) (st : EncoderState) (out enc : String) (st' : EncoderState)
    (out' : String) : Prop where
  steps : Encodes st out st' out'
  terms : st'.terms = st.terms
  covers : f ∈ st'.uufs
  id : st'.uufId f = enc
  symbol : isSymbol enc.toList
  typed : f.arg.WellFormed → f.out.WellFormed → st.Typed → st'.Typed

theorem runs_uufNum {n : ℕ} (h : Runs uufNum st out n st' out') :
    st.uufs.size = n ∧ st = st' ∧ out = out' := by
  cases h
  exact ⟨rfl, rfl, rfl⟩

theorem runs_encodeUUF {f : UUF} (hinv : Inv st) (h : Runs (encodeUUF f) st out s st' out') :
    EncodesUUF f st out s st' out' := by
  unfold encodeUUF at h
  obtain ⟨state, st₁, out₁, hget, h₁⟩ := h.bind
  obtain ⟨rfl, rfl, rfl⟩ := hget.get
  cases hl : st.uufs.lookup f with
  | some id =>
    simp only [hl] at h₁
    obtain ⟨rfl, rfl, rfl⟩ := h₁.pure
    obtain ⟨hmem, hid⟩ := uufId_of_lookup hl
    exact ⟨.refl st out, rfl, hmem, hid, hinv.isSymbol_uufId hl, fun _ _ hst => hst⟩
  | none =>
    simp only [hl] at h₁
    obtain ⟨n, st₂, out₂, hnum, h₂⟩ := h₁.bind
    obtain ⟨rfl, rfl, rfl⟩ := runs_uufNum hnum
    obtain ⟨u, st₃, out₃, hcomment, h₃⟩ := h₂.bind
    obtain ⟨rfl, hw⟩ := runs_comment hcomment
    obtain ⟨arg, st₄, out₄, hargrun, h₄⟩ := h₃.bind
    obtain ⟨sort, st₅, out₅, hsortrun, h₅⟩ := h₄.bind
    obtain ⟨u, st₆, out₆, hdeclrun, h₆⟩ := h₅.bind
    have harg := runs_encodeType f.arg hinv hargrun
    have hsort := runs_encodeType f.out (harg.steps.inv hinv) hsortrun
    obtain ⟨hdecl, rfl⟩ := hdeclrun.lift
    obtain ⟨rfl, rfl, rfl⟩ := runs_rememberUUF h₆
    have hargs : Shows arg (st₅.sortOf f.arg) := by
      rw [hsort.steps.extends.sortOf _ harg.covers]
      exact harg.shows
    have hid := CedarSpec.SymCC.isSymbol_uufId st.uufs.size
    have hnum : st₅.uufs = st.uufs := hsort.enters.uufs.trans harg.enters.uufs
    have hstep : Step st₅ [funCommand (Encoder.uufId st.uufs.size) (st₅.sortOf f.arg)
        (st₅.sortOf f.out)] (st₅.enterUUF f (Encoder.uufId st.uufs.size)) := by
      rw [← hnum]
      apply Step.uuf
      · rw [hnum]
        exact AList.lookup_eq_none.mp hl
      · exact hsort.steps.extends.coversType _ harg.covers
      · exact hsort.covers
    have hout := hstep.encodes (wrote_declareFun hid hargs hsort.shows hdecl)
    have hcomment : Encodes st out st out₃ := ⟨[], .refl st, hw⟩
    have hl' : (st₅.enterUUF f (Encoder.uufId st.uufs.size)).uufs.lookup f =
        some (Encoder.uufId st.uufs.size) := AList.lookup_insert _
    obtain ⟨hmem, hname⟩ := uufId_of_lookup hl'
    exact ⟨hcomment.trans (harg.steps.trans (hsort.steps.trans hout)),
      hsort.enters.terms.trans harg.enters.terms, hmem, hname, hid, fun hargwf houtwf hst =>
        (hsort.typed houtwf (harg.typed hargwf hst)).enterUUF hargwf houtwf _⟩

/-! ## Definitions -/

theorem runs_termNum {n : ℕ} (h : Runs termNum st out n st' out') :
    st.terms.size = n ∧ st = st' ∧ out = out' := by
  cases h
  exact ⟨rfl, rfl, rfl⟩

theorem runs_defineTerm {sort body : String} (h : Shows sort e) (h' : Shows body e')
    (hrun : Runs (defineTerm sort body) st out s st' out') :
    Encoder.termId st.terms.size = s ∧ st = st' ∧ Wrote out out' [defineCommand s e e'] := by
  unfold defineTerm at hrun
  obtain ⟨n, st₁, out₁, hnum, h₁⟩ := hrun.bind
  obtain ⟨rfl, rfl, rfl⟩ := runs_termNum hnum
  obtain ⟨u, st₂, out₂, hdef, h₂⟩ := h₁.bind
  obtain ⟨rfl, rfl, rfl⟩ := h₂.pure
  obtain ⟨hw, rfl⟩ := hdef.lift
  exact ⟨rfl, rfl, wrote_defineFun (isSymbol_termId _) h h' hw⟩

theorem runs_declareVar {v : TermVar} {sort : String} (h : Shows sort e)
    (hrun : Runs (declareVar v sort) st out s st' out') :
    Encoder.termId st.terms.size = s ∧ st = st' ∧ Wrote out out' [constCommand s e] := by
  unfold declareVar at hrun
  obtain ⟨n, st₁, out₁, hnum, h₁⟩ := hrun.bind
  obtain ⟨rfl, rfl, rfl⟩ := runs_termNum hnum
  obtain ⟨u, st₂, out₂, hcomment, h₂⟩ := h₁.bind
  obtain ⟨rfl, hout⟩ := runs_comment hcomment
  obtain ⟨u', st₃, out₃, hdecl, h₃⟩ := h₂.bind
  obtain ⟨rfl, rfl, rfl⟩ := h₃.pure
  obtain ⟨hw, rfl⟩ := hdecl.lift
  exact ⟨rfl, rfl, hout.trans (wrote_declareConst (isSymbol_termId _) h hw)⟩

/-- Only terms of at most this size are entered. -/
def EntersTerms (size : ℕ) (st st' : EncoderState) : Prop :=
  ∀ t ∈ st'.terms, t ∈ st.terms ∨ sizeOf t ≤ size

theorem entersTerms_of_eq (size : ℕ) (h : st'.terms = st.terms) : EntersTerms size st st' := by
  intro t ht
  rw [h] at ht
  exact .inl ht

theorem EntersTerms.trans {size size' n : ℕ} (h : EntersTerms size st st')
    (h' : EntersTerms size' st' st'') (hn : size ≤ n) (hn' : size' ≤ n) :
    EntersTerms n st st'' := by
  intro t ht
  cases h' t ht with
  | inl ht =>
    cases h t ht with
    | inl ht => exact .inl ht
    | inr hsize => exact .inr (hsize.trans hn)
  | inr hsize => exact .inr (hsize.trans hn')

theorem entersTerms_enterTerm (t : Term) (id : String) :
    EntersTerms (sizeOf t) st (st.enterTerm t id) := by
  intro t' ht'
  cases (AList.mem_insert _).mp ht' with
  | inl h => exact .inr (by rw [h])
  | inr h => exact .inl h

/-- What it means that a run encodes a term. -/
structure EncodesTerm (t : Term) (st : EncoderState) (out enc : String) (st' : EncoderState)
    (out' : String) : Prop where
  steps : Encodes st out st' out'
  enters : EntersTerms (sizeOf t) st st'
  covers : st'.Covers t
  shows : Shows enc (st'.ref t)
  typed : t.WellTyped → st.Typed → st'.Typed

theorem Inv.isSymbol_termId (hinv : Inv st) {t : Term} {id : String}
    (h : st.terms.lookup t = some id) : isSymbol id.toList := by
  obtain ⟨_, hcov, hid⟩ := hinv.term t id h
  cases hid with
  | inl hid =>
    obtain ⟨n, _, rfl⟩ := hid
    exact CedarSpec.SymCC.isSymbol_termId n
  | inr hid =>
    obtain ⟨e, members, i, rfl, _, _, rfl⟩ := hid
    obtain ⟨tyId, hty⟩ := Option.isSome_iff_exists.mp (AList.lookup_isSome.mpr hcov)
    rw [EncoderState.typeId, hty, Option.getD_some]
    exact isSymbol_enumId (hinv.isSymbol_typeId hty) i

theorem ref_of_lookup (hinv : Inv st) {t : Term} {id : String}
    (h : st.terms.lookup t = some id) : st.Covers t ∧ st.ref t = sym id := by
  constructor
  · exact .inr (AList.lookup_isSome.mp (by rw [h]; rfl))
  · rw [EncoderState.ref, (hinv.term t id h).1, Option.getD_none, EncoderState.termId, h,
      Option.getD_some]

theorem runs_enterTerm {t : Term} {id : String} {cmds : List SExp}
    (hstep : Step st cmds (st.enterTerm t id)) (hw : Wrote out out' cmds) (hinv : Inv st)
    (h : Runs (rememberTerm t id) st out' s st' out'') :
    EncodesTerm t st out s st' out'' := by
  obtain ⟨rfl, rfl, rfl⟩ := runs_rememberTerm h
  have hl : (st.enterTerm t id).terms.lookup t = some id := AList.lookup_insert _
  have hinv' := hinv.step hstep
  obtain ⟨hcov, href⟩ := ref_of_lookup hinv' hl
  constructor
  · exact hstep.encodes hw
  · exact entersTerms_enterTerm t id
  · exact hcov
  · rw [href]
    exact shows_sym (hinv'.isSymbol_termId hl)
  · intro ht hst
    exact hst.enterTerm ht id

/-- A term that is defined by a body. -/
theorem runs_define {t : Term} {sort body : String} {id : String} (hinv : Inv st)
    (fresh : t ∉ st.terms) (entered : inlined? t = none) (covered : st.CoversType t.typeOf)
    (ready : st.Ready t) (hsort : Shows sort (st.sortOf t.typeOf))
    (hbody : Shows body (st.body t)) (hdef : Runs (defineTerm sort body) st out id st' out')
    (h : Runs (rememberTerm t id) st' out' s st'' out'') : EncodesTerm t st out s st'' out'' := by
  obtain ⟨rfl, rfl, hw⟩ := runs_defineTerm hsort hbody hdef
  exact runs_enterTerm (.define fresh entered covered ready) hw hinv h

/-! ## Applications -/

theorem shows_application (h : Shows s e) {args : String} (hargs : Spells args.toList es) :
    Shows s!"({s} {args})" (.list (e :: es)) := by
  have hform := (Spells.join h (b := ' ') rfl hargs).paren
  simpa [Shows, toString_self] using hform

theorem indexOfAttr_ok {a : String} {ty : TermType} {i : ℕ} (h : indexOfAttr a ty = .ok i) :
    ∃ rty, ty = .record rty ∧ rty.findIdx? (·.1 = a) = some i := by
  cases ty with
  | record rty =>
    unfold indexOfAttr at h
    cases hi : rty.findIdx? (·.1 = a) with
    | none =>
      simp only [hi] at h
      cases h
    | some j =>
      simp only [hi] at h
      cases h
      exact ⟨rty, rfl, hi⟩
  | _ => cases h

theorem headD_mem_or (ts : List Term) :
    ts.headD (.bool false) ∈ ts ∨ ts.headD (.bool false) = .bool false := by
  cases ts with
  | nil => exact .inr rfl
  | cons t ts => exact .inl List.mem_cons_self

theorem runs_defineRecordGet {sort a args : String} {ts : List Term} (hinv : Inv st)
    (hts : ∀ t ∈ ts, st.Covers t) (hargs : Spells args.toList es)
    (h : Runs (defineRecordGet sort a args (ts.headD (.bool false)).typeOf) st out s st' out') :
    ∃ body, st.OpReady ts (.recordGet a) ∧ Shows body (st.appForm (.recordGet a) ts es) ∧
      Runs (defineTerm sort body) st out s st' out' := by
  unfold defineRecordGet at h
  obtain ⟨state, st₁, out₁, hget, h₁⟩ := h.bind
  obtain ⟨rfl, rfl, rfl⟩ := hget.get
  obtain ⟨i, st₂, out₂, hindex, h₂⟩ := h₁.bind
  obtain ⟨hi, rfl, rfl⟩ := hindex.liftExcept
  obtain ⟨rty, hty, hfind⟩ := indexOfAttr_ok hi
  have hcov : st.CoversType (ts.headD (.bool false)).typeOf := by
    cases headD_mem_or ts with
    | inl hmem => exact hinv.coversType (hts _ hmem)
    | inr heq =>
      rw [heq]
      trivial
  rw [hty] at h₂ hcov
  obtain ⟨id, hid⟩ := Option.isSome_iff_exists.mp (AList.lookup_isSome.mpr hcov)
  have hsym := isSymbol_recordAttrId (hinv.isSymbol_typeId hid) i
  refine ⟨_, ⟨rty, i, hty, hfind⟩, ?_, h₂⟩
  have hform : st.appForm (.recordGet a) ts es = .list (sym (recordAttrId id i) :: es) := by
    unfold EncoderState.appForm
    rw [hty]
    simp only [hfind, EncoderState.typeId, hid, Option.getD_some]
  rw [hform]
  have hshows := shows_application (shows_sym hsym) hargs
  simpa only [hid, Option.getD_some] using hshows

theorem shows_like {args re : String} {p : List PatElem} (hargs : Spells args.toList es)
    (h : Shows re (patternRe p)) :
    Shows s!"(str.in_re {args} {re})" (.list (sym "str.in_re" :: (es ++ [patternRe p]))) := by
  have hform := ((shows_sym (s := "str.in_re") rfl).join (b := ' ') rfl
    (hargs.join (b := ' ') rfl h)).paren
  simpa [Shows, toString_self] using hform

/-- An application is defined by its body, after its function has been declared. -/
theorem runs_defineApp {sort : String} {op : Op} {encs : List String} {ts : List Term}
    (hinv : Inv st) (hts : ∀ t ∈ ts, st.Covers t) (hargs : List.Forall₂ Shows encs es)
    (h : Runs (defineApp sort op encs ts) st out s st' out') :
    ∃ st₁ out₁ body, Encodes st out st₁ out₁ ∧ st₁.terms = st.terms ∧ st₁.OpReady ts op ∧
      (∀ tys ty, op.WellTyped tys ty → st.Typed → st₁.Typed) ∧
      Shows body (st₁.appForm op ts es) ∧ Runs (defineTerm sort body) st₁ out₁ s st' out' := by
  have hwords := spells_words hargs
  unfold defineApp at h
  cases op with
  | recordGet a =>
    obtain ⟨body, hready, hshows, hdef⟩ := runs_defineRecordGet hinv hts hwords h
    exact ⟨st, out, body, .refl st out, rfl, hready, fun _ _ _ hst => hst, hshows, hdef⟩
  | stringLike p =>
    obtain ⟨re, st₁, out₁, hre, hdef⟩ := h.bind
    obtain ⟨hp, rfl, rfl⟩ := hre.liftExcept
    obtain ⟨hchars, hshows⟩ := encodePattern_ok hp
    exact ⟨st, out, _, .refl st out, rfl, hchars, fun _ _ _ hst => hst, shows_like hwords hshows,
      hdef⟩
  | uuf f =>
    obtain ⟨id, st₁, out₁, hid, hdef⟩ := h.bind
    have huuf := runs_encodeUUF hinv hid
    have htyped : ∀ tys ty, (Op.uuf f).WellTyped tys ty → st.Typed → st₁.Typed := by
      intro tys ty hop hst
      cases hop with
      | uuf harg hout => exact huuf.typed harg hout hst
      | bvBinary n hf => cases hf
      | bvTest n hf => cases hf
    refine ⟨st₁, out₁, _, huuf.steps, huuf.terms, huuf.covers, htyped, ?_, hdef⟩
    rw [EncoderState.appForm, huuf.id]
    exact shows_application (shows_sym huuf.symbol) hwords
  | _ =>
    exact ⟨st, out, _, .refl st out, rfl, trivial, fun _ _ _ hst => hst,
      shows_application (shows_opSym _) hwords, h⟩

/-! ## Terms -/

theorem runs_defineEntity {sort : String} {uid : EntityUID} (hinv : Inv st)
    (fresh : Term.entity uid ∉ st.terms) (hty : st.types.lookup (.entity uid.ty) = some sort)
    (h : Runs (defineEntity sort uid) st out s st' out')
    (h' : Runs (rememberTerm (.entity uid) s) st' out' s' st'' out'') :
    EncodesTerm (.entity uid) st out s' st'' out'' := by
  obtain ⟨hcov, hsort⟩ := sortOf_of_lookup hinv hty
  have hsymbol := hinv.isSymbol_typeId hty
  have hid : st.typeId (.entity uid.ty) = sort := by
    rw [EncoderState.typeId, hty, Option.getD_some]
  unfold defineEntity at h
  obtain ⟨state, st₁, out₁, hget, h₁⟩ := h.bind
  obtain ⟨rfl, rfl, rfl⟩ := hget.get
  cases hmembers : st.enums.lookup uid.ty with
  | some members =>
    simp only [hmembers] at h₁
    cases hi : members.idxOf? uid.eid with
    | some i =>
      simp only [hi] at h₁
      obtain ⟨rfl, rfl, rfl⟩ := h₁.pure
      have hstep := Step.member fresh hcov hmembers hi
      rw [hid] at hstep
      exact runs_enterTerm hstep (.refl out) hinv h'
    | none =>
      simp only [hi] at h₁
      cases h₁
  | none =>
    simp only [hmembers] at h₁
    obtain ⟨eid, st₂, out₂, heidrun, hdef⟩ := h₁.bind
    obtain ⟨heid, rfl, rfl⟩ := heidrun.liftExcept
    have hbody : Shows s!"({sort} \"{eid}\")" (st.body (.entity uid)) := by
      have hform := (Spells.join (shows_sym hsymbol) (b := ' ') rfl (shows_string heid)).paren
      rw [EncoderState.body, hid]
      simpa [Shows, toString_self] using hform
    have hsort' : Shows sort (st.sortOf (.entity uid.ty)) := by
      rw [hsort]
      exact shows_sym hsymbol
    refine runs_define hinv fresh rfl hcov ⟨by simp [Term.children], hmembers, ?_⟩ hsort' hbody
      hdef h'
    exact (encodeString_ok heid).1

/-- What it means that a run encodes terms one after the other. -/
structure EncodesTerms (n : ℕ) (ts : List Term) (st : EncoderState) (out : String)
    (encs : List String) (st' : EncoderState) (out' : String) : Prop where
  steps : Encodes st out st' out'
  enters : EntersTerms n st st'
  covers : ∀ t ∈ ts, st'.Covers t
  shows : List.Forall₂ Shows encs (ts.map st'.ref)
  typed : (∀ t ∈ ts, t.WellTyped) → st.Typed → st'.Typed

theorem runs_encodeTerms {ts : List Term} {n : ℕ} (hsize : ∀ t ∈ ts, sizeOf t ≤ n)
    (ih : ∀ t ∈ ts, ∀ {st out s st' out'}, Inv st → Runs (encodeTerm t) st out s st' out' →
      EncodesTerm t st out s st' out')
    {encs : List String} (hinv : Inv st) (h : Runs (encodeTerms ts) st out encs st' out') :
    EncodesTerms n ts st out encs st' out' := by
  induction ts generalizing st out encs with
  | nil =>
    obtain ⟨rfl, rfl, rfl⟩ := h.pure
    exact ⟨.refl st out, entersTerms_of_eq n rfl, by simp, .nil, fun _ hst => hst⟩
  | cons t ts ihts =>
    obtain ⟨ht, hts⟩ := List.forall_mem_cons.mp ih
    obtain ⟨hsizet, hsizets⟩ := List.forall_mem_cons.mp hsize
    obtain ⟨enc, st₁, out₁, h₁, h₂⟩ := h.bind
    obtain ⟨encs', st₂, out₂, h₃, h₄⟩ := h₂.bind
    obtain ⟨rfl, rfl, rfl⟩ := h₄.pure
    have hone := ht hinv h₁
    have hrest := ihts hsizets hts (hone.steps.inv hinv) h₃
    have hext := hrest.steps.extends
    constructor
    · exact hone.steps.trans hrest.steps
    · exact hone.enters.trans hrest.enters hsizet le_rfl
    · exact List.forall_mem_cons.mpr ⟨hext.covers hone.covers, hrest.covers⟩
    · refine .cons ?_ hrest.shows
      rw [hext.ref hone.covers]
      exact hone.shows
    · intro hwt hst
      obtain ⟨hwt, hwts⟩ := List.forall_mem_cons.mp hwt
      exact hrest.typed hwts (hone.typed hwt hst)

theorem encodeFields_eq (ats : List (String × Term)) :
    encodeFields ats = encodeTerms (ats.map Prod.snd) := by
  induction ats with
  | nil => rfl
  | cons field ats ih => rw [encodeFields, ih, List.map_cons, encodeTerms]

theorem runs_knownTerm (hinv : Inv st) {t : Term} {id : String}
    (hl : st.terms.lookup t = some id) (h : Runs (pure id) st out s st' out') :
    EncodesTerm t st out s st' out' := by
  obtain ⟨rfl, rfl, rfl⟩ := h.pure
  obtain ⟨hcov, href⟩ := ref_of_lookup hinv hl
  refine ⟨.refl st out, entersTerms_of_eq _ rfl, hcov, ?_, fun _ hst => hst⟩
  rw [href]
  exact shows_sym (hinv.isSymbol_termId hl)

/-- A term that is not entered. -/
theorem encodesTerm_inlined {t : Term} (hty : EncodesType t.typeOf st out s' st' out')
    (h : inlined? t = some e) (hrep : ∀ str, t = .string str → Representable str)
    (hshows : Shows s e) : EncodesTerm t st out s st' out' := by
  constructor
  · exact hty.steps
  · exact entersTerms_of_eq _ hty.enters.terms
  · exact .inl ⟨by rw [h]; rfl, hrep⟩
  · rw [EncoderState.ref, h]
    exact hshows
  · intro ht hst
    exact hty.typed ht.typeOf hst

/-- Encoding the type of a new term leaves it new. -/
theorem EncodesType.fresh {ty : TermType} (hty : EncodesType ty st out s st' out') {t : Term}
    (hl : st.terms.lookup t = none) : t ∉ st'.terms := by
  rw [hty.enters.terms]
  exact AList.lookup_eq_none.mp hl

/-- A term whose parts are encoded before it. -/
theorem EncodesTerm.after {t : Term} {size : ℕ} (hsteps : Encodes st out st' out')
    (henters : EntersTerms size st st') (hsize : size ≤ sizeOf t)
    (htyped : t.WellTyped → st.Typed → st'.Typed)
    (ht : EncodesTerm t st' out' s st'' out'') : EncodesTerm t st out s st'' out'' :=
  ⟨hsteps.trans ht.steps, henters.trans ht.enters hsize le_rfl, ht.covers, ht.shows,
    fun hwt hst => ht.typed hwt (htyped hwt hst)⟩

/-- A term whose type is encoded before it. -/
theorem EncodesTerm.afterType {t : Term} (hty : EncodesType t.typeOf st out s st' out')
    (ht : EncodesTerm t st' out' s' st'' out'') : EncodesTerm t st out s' st'' out'' :=
  ht.after hty.steps (entersTerms_of_eq 0 hty.enters.terms) (Nat.zero_le _)
    fun hwt hst => hty.typed hwt.typeOf hst

theorem EntersTerms.fresh {size : ℕ} (h : EntersTerms size st st') {t : Term}
    (hsize : size < sizeOf t) (fresh : t ∉ st.terms) : t ∉ st'.terms := by
  intro ht
  cases h t ht with
  | inl ht => exact fresh ht
  | inr ht => omega

/-- A term that is defined after its type and its parts. -/
theorem runs_defineAfter {t : Term} {sort body id : String} {size : ℕ}
    {st₁ st₂ st₃ : EncoderState} {out₁ out₂ out₃ : String} (hinv : Inv st)
    (fresh : st.terms.lookup t = none) (hty : EncodesType t.typeOf st out sort st₁ out₁)
    (hparts : Encodes st₁ out₁ st₂ out₂) (henters : EntersTerms size st₁ st₂)
    (hsize : size < sizeOf t) (htyped : t.WellTyped → st₁.Typed → st₂.Typed)
    (entered : inlined? t = none) (ready : st₂.Ready t)
    (hbody : Shows body (st₂.body t)) (hdef : Runs (defineTerm sort body) st₂ out₂ id st₃ out₃)
    (h : Runs (rememberTerm t id) st₃ out₃ s st' out') : EncodesTerm t st out s st' out' := by
  have hext := hparts.extends
  have hcov := hext.coversType _ hty.covers
  have hsort : Shows sort (st₂.sortOf t.typeOf) := by
    rw [hext.sortOf _ hty.covers]
    exact hty.shows
  have ht := runs_define (hparts.inv (hty.steps.inv hinv))
    (henters.fresh hsize (hty.fresh fresh)) entered hcov ready hsort hbody hdef h
  exact (ht.after hparts henters hsize.le htyped).afterType hty

theorem shows_emptySet (h : Shows s e) :
    Shows s!"(as set.empty {s})" (.list [sym "as", sym "set.empty", e]) := by
  have hform := shows_app₂ (p := "(as ") rfl (shows_sym (s := "as") rfl)
    (shows_sym (s := "set.empty") rfl) h
  simpa [Shows, toString_self] using hform

theorem shows_setInsert {args : String} (hargs : Spells args.toList es) (h : Shows s e) :
    Shows s!"(set.insert {args} (as set.empty {s}))"
      (.list (sym "set.insert" :: (es ++ [.list [sym "as", sym "set.empty", e]]))) := by
  have hform := ((shows_sym (s := "set.insert") rfl).join (b := ' ') rfl
    (hargs.join (b := ' ') rfl (shows_emptySet h))).paren
  simpa [Shows, toString_self] using hform

theorem runs_defineSet {sort : String} {ts : List Term} {ty : TermType} {encs : List String}
    (hsort : Shows sort (st.sortOf (.set ty))) (hargs : List.Forall₂ Shows encs (ts.map st.ref))
    (h : Runs (defineSet sort encs) st out s st' out') :
    ∃ body, Shows body (st.body (.set ts ty)) ∧ Runs (defineTerm sort body) st out s st' out' := by
  unfold defineSet at h
  cases ts with
  | nil =>
    cases hargs
    exact ⟨_, shows_emptySet hsort, h⟩
  | cons t ts =>
    cases hargs with
    | cons henc hencs => exact ⟨_, shows_setInsert (spells_words (.cons henc hencs)) hsort, h⟩

theorem runs_defineRecord {sort : String} {ats : List (String × Term)} {encs : List String}
    (hsort : Shows sort (st.sortOf (.record (fieldTypesOf ats))))
    (hargs : List.Forall₂ Shows encs ((ats.map Prod.snd).map st.ref))
    (h : Runs (defineRecord sort encs) st out s st' out') :
    ∃ body, Shows body (st.body (.record ats)) ∧ Runs (defineTerm sort body) st out s st' out' := by
  unfold defineRecord at h
  cases ats with
  | nil =>
    cases hargs
    exact ⟨_, hsort, h⟩
  | cons field ats =>
    rw [List.map_map] at hargs
    cases hargs with
    | cons henc hencs =>
      exact ⟨_, shows_application hsort (spells_words (.cons henc hencs)), h⟩

section App

variable {op : Op} {ts : List Term} {ty : TermType}

theorem inlined?_app (h : ∀ t, op = .bvnego → ts = [t] → ty = .prim .bool → False) :
    inlined? (.app op ts ty) = none := by
  unfold inlined?
  split
  all_goals try contradiction
  · rename_i heq
    cases heq
    exact (h _ rfl rfl rfl).elim
  · rfl

theorem body_app (h : ∀ t, op = .bvnego → ts = [t] → ty = .prim .bool → False) :
    st.body (.app op ts ty) = st.appForm op ts (ts.map st.ref) := by
  unfold EncoderState.body
  split
  all_goals try contradiction
  · rename_i heq
    cases heq
    exact (h _ rfl rfl rfl).elim
  · rename_i heq
    cases heq
    rfl
  · rename_i hne
    exact (hne op ts ty rfl).elim

theorem inlined?_bvnego {t : Term} {n : ℕ} (h : t.typeOf = .bitvec n) :
    inlined? (.app .bvnego [t] .bool) = none := by
  simp only [inlined?, h]

theorem inlined?_bvnego_false {t : Term} (h : ∀ n, t.typeOf ≠ .bitvec n) :
    inlined? (.app .bvnego [t] .bool) = some (sym "false") := by
  rw [inlined?]
  split
  · rename_i n heq
    exact (h n heq).elim
  · rfl

theorem body_bvnego {t : Term} {n : ℕ} (h : t.typeOf = .bitvec n) :
    st.body (.app .bvnego [t] .bool) = .list [sym "=", st.ref t, bitVecLit (BitVec.intMin n)] := by
  simp only [EncoderState.body, h]

/-- The overflow of a negation is encoded as a comparison with the least number. -/
theorem runs_bvnego {t : Term} {n : ℕ} {sort id : String} {st₁ st₂ st₃ : EncoderState}
    {out₁ out₂ out₃ enc : String} (hinv : Inv st)
    (hl : st.terms.lookup (.app .bvnego [t] .bool) = none)
    (hty : EncodesType .bool st out sort st₁ out₁) (htype : t.typeOf = .bitvec n)
    (ht : EncodesTerm t st₁ out₁ enc st₂ out₂)
    (hdef : Runs (defineApp sort .eq [enc, encodeBitVec (BitVec.intMin n)]
      [t, .bitvec (BitVec.intMin n)]) st₂ out₂ id st₃ out₃)
    (h : Runs (rememberTerm (.app .bvnego [t] .bool) id) st₃ out₃ s st' out') :
    EncodesTerm (.app .bvnego [t] .bool) st out s st' out' := by
  have hinv₂ := ht.steps.inv (hty.steps.inv hinv)
  have hcovers : ∀ t' ∈ [t, .bitvec (BitVec.intMin n)], st₂.Covers t' :=
    List.forall_mem_cons.mpr
      ⟨ht.covers, List.forall_mem_cons.mpr ⟨.inl ⟨rfl, by simp⟩, by simp⟩⟩
  have hargs : List.Forall₂ Shows [enc, encodeBitVec (BitVec.intMin n)]
      [st₂.ref t, bitVecLit (BitVec.intMin n)] :=
    .cons ht.shows (.cons (shows_bitVec _) .nil)
  obtain ⟨st₄, out₄, body, hsteps, hterms, _, htyped, hbody, hrun⟩ :=
    runs_defineApp hinv₂ hcovers hargs hdef
  have hext := hsteps.extends
  have hbody' : Shows body (st₄.body (.app .bvnego [t] .bool)) := by
    rw [body_bvnego htype, hext.ref ht.covers]
    exact hbody
  have henters := ht.enters.trans (entersTerms_of_eq (sizeOf t) hterms) le_rfl le_rfl
  refine runs_defineAfter hinv hl hty (ht.steps.trans hsteps) henters ?_ ?_
    (inlined?_bvnego htype) ⟨?_, trivial⟩ hbody' hrun h
  · simp
    omega
  · intro hwt hst
    cases hwt with
    | app hts hop => exact htyped _ _ (.eq .bool) (ht.typed (hts t (by simp)) hst)
  · simp [Term.children, hext.covers ht.covers]

theorem runs_application {sort id : String} {encs : List String} {st₁ st₂ st₃ : EncoderState}
    {out₁ out₂ out₃ : String} (hinv : Inv st)
    (hne : ∀ t, op = .bvnego → ts = [t] → ty = .prim .bool → False)
    (hl : st.terms.lookup (.app op ts ty) = none)
    (hty : EncodesType ty st out sort st₁ out₁)
    (hts : EncodesTerms (sizeOf ts) ts st₁ out₁ encs st₂ out₂)
    (hdef : Runs (defineApp sort op encs ts) st₂ out₂ id st₃ out₃)
    (h : Runs (rememberTerm (.app op ts ty) id) st₃ out₃ s st' out') :
    EncodesTerm (.app op ts ty) st out s st' out' := by
  have hinv₂ := hts.steps.inv (hty.steps.inv hinv)
  obtain ⟨st₄, out₄, body, hsteps, hterms, hready, htyped, hbody, hrun⟩ :=
    runs_defineApp hinv₂ hts.covers hts.shows hdef
  have hext := hsteps.extends
  have hrefs : ts.map st₂.ref = ts.map st₄.ref :=
    List.map_congr_left fun t ht => (hext.ref (hts.covers t ht)).symm
  have hbody' : Shows body (st₄.body (.app op ts ty)) := by
    rw [body_app hne, ← hrefs]
    exact hbody
  have henters := hts.enters.trans (entersTerms_of_eq (sizeOf ts) hterms) le_rfl le_rfl
  refine runs_defineAfter hinv hl hty (hts.steps.trans hsteps) henters ?_ ?_ (inlined?_app hne)
    ⟨fun t ht => hext.covers (hts.covers t ht), hready⟩ hbody' hrun h
  · simp
    omega
  · intro hwt hst
    cases hwt with
    | app hwts hop => exact htyped _ _ hop (hts.typed hwts hst)

end App

theorem runs_encodeTerm (t : Term) (hinv : Inv st)
    (h : Runs (encodeTerm t) st out s st' out') : EncodesTerm t st out s st' out' := by
  induction t using Term.induct generalizing st st' out out' s with
  | prim p =>
    unfold encodeTerm at h
    obtain ⟨state, st₁, out₁, hget, h₁⟩ := h.bind
    obtain ⟨rfl, rfl, rfl⟩ := hget.get
    cases hl : st.terms.lookup (.prim p) with
    | some id =>
      simp only [hl] at h₁
      exact runs_knownTerm hinv hl h₁
    | none =>
      simp only [hl] at h₁
      obtain ⟨tyEnc, st₂, out₂, htyrun, h₂⟩ := h₁.bind
      have hty := runs_encodeType _ hinv htyrun
      have hinv' := hty.steps.inv hinv
      have fresh := hty.fresh hl
      cases p with
      | bool b =>
        obtain ⟨rfl, rfl, rfl⟩ := h₂.pure
        refine encodesTerm_inlined hty rfl (by simp) (shows_sym ?_)
        cases b <;> rfl
      | bitvec bv =>
        obtain ⟨rfl, rfl, rfl⟩ := h₂.pure
        exact encodesTerm_inlined hty rfl (by simp) (shows_bitVec bv)
      | string str =>
        obtain ⟨enc, st₃, out₃, hencrun, h₃⟩ := h₂.bind
        obtain ⟨henc, rfl, rfl⟩ := hencrun.liftExcept
        obtain ⟨rfl, rfl, rfl⟩ := h₃.pure
        have hrep : ∀ str', Term.string str = .string str' → Representable str' := by
          intro str' heq
          cases heq
          exact (encodeString_ok henc).1
        exact encodesTerm_inlined hty rfl hrep (shows_string henc)
      | entity uid =>
        obtain ⟨id, st₃, out₃, hdef, h₃⟩ := h₂.bind
        obtain ⟨tyId, htyId⟩ := Option.isSome_iff_exists.mp (AList.lookup_isSome.mpr hty.covers)
        have henc := hty.known tyId htyId
        subst henc
        exact (runs_defineEntity hinv' fresh htyId hdef h₃).afterType hty
      | ext x =>
        obtain ⟨id, st₃, out₃, hdef, h₃⟩ := h₂.bind
        have ht := runs_define (t := .ext x) hinv' fresh rfl hty.covers
          ⟨by simp [Term.children], trivial⟩ hty.shows (shows_ext x) hdef h₃
        exact ht.afterType hty
  | var v =>
    unfold encodeTerm at h
    obtain ⟨state, st₁, out₁, hget, h₁⟩ := h.bind
    obtain ⟨rfl, rfl, rfl⟩ := hget.get
    cases hl : st.terms.lookup (.var v) with
    | some id =>
      simp only [hl] at h₁
      exact runs_knownTerm hinv hl h₁
    | none =>
      simp only [hl] at h₁
      obtain ⟨tyEnc, st₂, out₂, htyrun, h₂⟩ := h₁.bind
      have hty := runs_encodeType _ hinv htyrun
      obtain ⟨id, st₃, out₃, hdecl, h₃⟩ := h₂.bind
      obtain ⟨rfl, rfl, hw⟩ := runs_declareVar hty.shows hdecl
      have ht := runs_enterTerm (.var (hty.fresh hl) hty.covers) hw (hty.steps.inv hinv) h₃
      exact ht.afterType hty
  | none ty =>
    unfold encodeTerm at h
    obtain ⟨state, st₁, out₁, hget, h₁⟩ := h.bind
    obtain ⟨rfl, rfl, rfl⟩ := hget.get
    cases hl : st.terms.lookup (.none ty) with
    | some id =>
      simp only [hl] at h₁
      exact runs_knownTerm hinv hl h₁
    | none =>
      simp only [hl] at h₁
      obtain ⟨tyEnc, st₂, out₂, htyrun, h₂⟩ := h₁.bind
      have hty := runs_encodeType _ hinv htyrun
      obtain ⟨id, st₃, out₃, hdef, h₃⟩ := h₂.bind
      have ht := runs_define (t := .none ty) (hty.steps.inv hinv) (hty.fresh hl) rfl hty.covers
        ⟨by simp [Term.children], trivial⟩ hty.shows (shows_none hty.shows) hdef h₃
      exact ht.afterType hty
  | some t ih =>
    unfold encodeTerm at h
    obtain ⟨state, st₁, out₁, hget, h₁⟩ := h.bind
    obtain ⟨rfl, rfl, rfl⟩ := hget.get
    cases hl : st.terms.lookup (.some t) with
    | some id =>
      simp only [hl] at h₁
      exact runs_knownTerm hinv hl h₁
    | none =>
      simp only [hl] at h₁
      obtain ⟨tyEnc, st₂, out₂, htyrun, h₂⟩ := h₁.bind
      have hty := runs_encodeType _ hinv htyrun
      obtain ⟨enc, st₃, out₃, harg, h₃⟩ := h₂.bind
      obtain ⟨id, st₄, out₄, hdef, h₄⟩ := h₃.bind
      have ht := ih (hty.steps.inv hinv) harg
      have htyped : (Term.some t).WellTyped → st₂.Typed → st₃.Typed := by
        intro hwt hst
        cases hwt with
        | some hwt => exact ht.typed hwt hst
      exact runs_defineAfter hinv hl hty ht.steps ht.enters (by simp) htyped rfl
        ⟨by simp [Term.children, ht.covers], trivial⟩
        (shows_application (shows_sym rfl) ht.shows) hdef h₄
  | set ts ty ih =>
    unfold encodeTerm at h
    obtain ⟨state, st₁, out₁, hget, h₁⟩ := h.bind
    obtain ⟨rfl, rfl, rfl⟩ := hget.get
    cases hl : st.terms.lookup (.set ts ty) with
    | some id =>
      simp only [hl] at h₁
      exact runs_knownTerm hinv hl h₁
    | none =>
      simp only [hl] at h₁
      obtain ⟨tyEnc, st₂, out₂, htyrun, h₂⟩ := h₁.bind
      have hty := runs_encodeType _ hinv htyrun
      obtain ⟨encs, st₃, out₃, hargs, h₃⟩ := h₂.bind
      obtain ⟨id, st₄, out₄, hdef, h₄⟩ := h₃.bind
      have hts := runs_encodeTerms (n := sizeOf ts)
        (fun t ht => (List.sizeOf_lt_of_mem ht).le) (fun t ht => ih t ht)
        (hty.steps.inv hinv) hargs
      have hsort : Shows tyEnc (st₃.sortOf (Term.set ts ty).typeOf) := by
        rw [hts.steps.extends.sortOf _ hty.covers]
        exact hty.shows
      obtain ⟨body, hbody, hrun⟩ := runs_defineSet hsort hts.shows hdef
      have htyped : (Term.set ts ty).WellTyped → st₂.Typed → st₃.Typed := by
        intro hwt hst
        cases hwt with
        | set hwts _ _ => exact hts.typed hwts hst
      exact runs_defineAfter hinv hl hty hts.steps hts.enters (by simp; omega) htyped rfl
        ⟨hts.covers, trivial⟩ hbody hrun h₄
  | record ats ih =>
    unfold encodeTerm at h
    obtain ⟨state, st₁, out₁, hget, h₁⟩ := h.bind
    obtain ⟨rfl, rfl, rfl⟩ := hget.get
    cases hl : st.terms.lookup (.record ats) with
    | some id =>
      simp only [hl] at h₁
      exact runs_knownTerm hinv hl h₁
    | none =>
      simp only [hl, encodeFields_eq] at h₁
      obtain ⟨tyEnc, st₂, out₂, htyrun, h₂⟩ := h₁.bind
      have hty := runs_encodeType _ hinv htyrun
      obtain ⟨encs, st₃, out₃, hargs, h₃⟩ := h₂.bind
      obtain ⟨id, st₄, out₄, hdef, h₄⟩ := h₃.bind
      have hsize : ∀ t ∈ ats.map Prod.snd, sizeOf t ≤ sizeOf ats := by
        intro t ht
        obtain ⟨⟨a, t⟩, hfield, rfl⟩ := List.mem_map.mp ht
        have hlt := List.sizeOf_lt_of_mem hfield
        simp only [Prod.mk.sizeOf_spec] at hlt
        change sizeOf t ≤ sizeOf ats
        omega
      have hparts : ∀ t ∈ ats.map Prod.snd, ∀ {st out s st' out'}, Inv st →
          Runs (encodeTerm t) st out s st' out' → EncodesTerm t st out s st' out' := by
        intro t ht
        obtain ⟨field, hfield, rfl⟩ := List.mem_map.mp ht
        exact ih field hfield
      have hts := runs_encodeTerms hsize hparts (hty.steps.inv hinv) hargs
      have hsort : Shows tyEnc (st₃.sortOf (Term.record ats).typeOf) := by
        rw [hts.steps.extends.sortOf _ hty.covers]
        exact hty.shows
      obtain ⟨body, hbody, hrun⟩ := runs_defineRecord hsort hts.shows hdef
      have htyped : (Term.record ats).WellTyped → st₂.Typed → st₃.Typed := by
        intro hwt hst
        cases hwt with
        | record hfields =>
          apply hts.typed ?_ hst
          intro t ht
          obtain ⟨field, hfield, rfl⟩ := List.mem_map.mp ht
          exact hfields field hfield
      exact runs_defineAfter hinv hl hty hts.steps hts.enters (by simp) htyped rfl
        ⟨hts.covers, trivial⟩ hbody hrun h₄
  | app op ts ty ih =>
    unfold encodeTerm at h
    obtain ⟨state, st₁, out₁, hget, h₁⟩ := h.bind
    obtain ⟨rfl, rfl, rfl⟩ := hget.get
    cases hl : st.terms.lookup (.app op ts ty) with
    | some id =>
      simp only [hl] at h₁
      exact runs_knownTerm hinv hl h₁
    | none =>
      simp only [hl] at h₁
      obtain ⟨tyEnc, st₂, out₂, htyrun, h₂⟩ := h₁.bind
      have hty := runs_encodeType _ hinv htyrun
      clear h h₁
      split at h₂
      all_goals try contradiction
      · rename_i t₀ t heq
        cases heq
        split at h₂
        · rename_i n htype
          obtain ⟨enc, st₃, out₃, harg, h₃⟩ := h₂.bind
          obtain ⟨id, st₄, out₄, hdef, h₄⟩ := h₃.bind
          have ht := ih t (by simp) (hty.steps.inv hinv) harg
          exact runs_bvnego hinv hl hty htype ht hdef h₄
        · rename_i hne
          obtain ⟨rfl, rfl, rfl⟩ := h₂.pure
          exact encodesTerm_inlined hty (inlined?_bvnego_false hne) (by simp) (shows_sym rfl)
      · rename_i t₀ op' ts' ty' hne heq
        cases heq
        obtain ⟨encs, st₃, out₃, hargs, h₃⟩ := h₂.bind
        obtain ⟨id, st₄, out₄, hdef, h₄⟩ := h₃.bind
        have hts := runs_encodeTerms (n := sizeOf ts)
          (fun t ht => (List.sizeOf_lt_of_mem ht).le) (fun t ht => ih t ht)
          (hty.steps.inv hinv) hargs
        exact runs_application hinv hne hl hty hts hdef h₄

end CedarSpec.SymCC
