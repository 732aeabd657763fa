import CedarSpec.EncoderValues

/-! Models of the script and interpretations of the terms, each from the other. -/

namespace CedarSpec.SymCC

open SmtLib Encoder

variable {members : EntityType → Option (List String)} {I : Interpretation} {M : Model}
  {st st' : EncoderState} {env : Env} {cmds : List SExp}

/-! ## Identifiers are not shared -/

structure Distinct (st : EncoderState) : Prop where
  type : ∀ ty ty' id, st.types.lookup ty = some id → st.types.lookup ty' = some id → ty = ty'
  uuf : ∀ f f' id, st.uufs.lookup f = some id → st.uufs.lookup f' = some id → f = f'
  var : ∀ v v' id, st.terms.lookup (.var v) = some id → st.terms.lookup (.var v') = some id →
    v = v'

theorem lookup_insert_injective {α : Type} [DecidableEq α] {m : Table α} {a : α} {id : String}
    {P : α → Prop} (h : ∀ b b' id', P b → P b' → m.lookup b = some id' → m.lookup b' = some id' →
      b = b')
    (hnew : ∀ b, P b → m.lookup b ≠ some id) (b b' : α) (id' : String) (hb : P b) (hb' : P b')
    (hid : (m.insert a id).lookup b = some id') (hid' : (m.insert a id).lookup b' = some id') :
    b = b' := by
  by_cases hba : b = a
  · by_cases hba' : b' = a
    · rw [hba, hba']
    · rw [hba, AList.lookup_insert, Option.some.injEq] at hid
      rw [AList.lookup_insert_ne hba', ← hid] at hid'
      exact (hnew b' hb' hid').elim
  · rw [AList.lookup_insert_ne hba] at hid
    by_cases hba' : b' = a
    · rw [hba', AList.lookup_insert, Option.some.injEq] at hid'
      rw [← hid'] at hid
      exact (hnew b hb hid).elim
    · rw [AList.lookup_insert_ne hba'] at hid'
      exact h b b' id' hb hb' hid hid'

theorem Inv.known_typeId (hinv : Inv st) {ty : TermType} {id : String}
    (hid : st.types.lookup ty = some id) : st.Known id.toList := by
  have hentry := hinv.type ty id hid
  have hmem : ty ∈ st.types := AList.lookup_isSome.mp (by rw [hid]; rfl)
  exact known_datatypeOf hentry hmem (.inl (name_datatypeOf hentry).1.symm)

theorem Distinct.enterType (h : Distinct st) (hinv : Inv st) {ty : TermType} {id : String}
    (hnew : st.New id.toList) : Distinct (st.enterType ty id) := by
  refine ⟨?_, h.uuf, h.var⟩
  intro ty₁ ty₂ id' h₁ h₂
  exact lookup_insert_injective (P := fun _ => True) (fun _ _ _ _ _ => h.type _ _ _)
    (fun ty' _ hid => hnew.2 (hinv.known_typeId hid)) ty₁ ty₂ id' trivial trivial h₁ h₂

theorem Distinct.enterUUF (h : Distinct st) (hinv : Inv st) (f : UUF) :
    Distinct (st.enterUUF f (uufId st.uufs.size)) := by
  refine ⟨h.type, ?_, h.var⟩
  intro f₁ f₂ id' h₁ h₂
  refine lookup_insert_injective (P := fun _ => True) (fun _ _ _ _ _ => h.uuf _ _ _) ?_ f₁ f₂ id'
    trivial trivial h₁ h₂
  intro f' _ hid
  obtain ⟨⟨n, hn, heq⟩, _⟩ := hinv.uuf f' _ hid
  have hlist := congrArg String.toList heq
  rw [toList_uufId, toList_uufId, List.cons.injEq] at hlist
  exact hn.ne' (toDigits_injective hlist.2)

theorem Distinct.enterTerm (h : Distinct st) (hinv : Inv st) {t : Term} {id : String}
    (hid : id = termId st.terms.size ∨ ∀ v, t ≠ .var v) : Distinct (st.enterTerm t id) := by
  refine ⟨h.type, h.uuf, ?_⟩
  intro v₁ v₂ id' h₁ h₂
  by_cases hvar : ∃ v, t = .var v
  · have hid : id = termId st.terms.size := by
      obtain ⟨v, rfl⟩ := hvar
      exact hid.resolve_right fun hne => hne v rfl
    have heq := lookup_insert_injective (m := st.terms) (P := fun t => ∃ v, t = Term.var v) (by
        rintro _ _ id'' ⟨v, rfl⟩ ⟨v', rfl⟩ hv hv'
        exact congrArg Term.var (h.var v v' id'' hv hv')) (by
        rintro _ ⟨v, rfl⟩ hold
        obtain ⟨_, _, hentry⟩ := hinv.term _ _ hold
        cases hentry with
        | inl hentry =>
          obtain ⟨n, hn, heq⟩ := hentry
          have hlist := congrArg String.toList (hid.symm.trans heq)
          rw [toList_termId, toList_termId, List.cons.injEq] at hlist
          exact hn.ne' (toDigits_injective hlist.2)
        | inr hmember =>
          obtain ⟨_, _, _, heq, _⟩ := hmember
          cases heq) (Term.var v₁) (Term.var v₂) id' ⟨v₁, rfl⟩ ⟨v₂, rfl⟩ h₁ h₂
    exact Term.var.inj heq
  · have hne : ∀ v, Term.var v ≠ t := fun v heq => hvar ⟨v, heq.symm⟩
    rw [EncoderState.enterTerm, AList.lookup_insert_ne (hne _)] at h₁ h₂
    exact h.var v₁ v₂ id' h₁ h₂

theorem Distinct.step (h : Distinct st) (hinv : Inv st) (hstep : Step st cmds st') :
    Distinct st' := by
  cases hstep with
  | entity fresh => exact h.enterType hinv new_entityTypeId
  | @ext xty fresh =>
    apply h.enterType hinv
    apply new_extName fresh
    cases xty <;> exact List.mem_cons_self
  | record fresh covered => exact h.enterType hinv new_recordTypeId
  | uuf fresh arg out => exact h.enterUUF hinv _
  | var fresh covered => exact h.enterTerm hinv (.inl rfl)
  | define fresh entered covered ready => exact h.enterTerm hinv (.inl rfl)
  | member fresh covered enumerated index => exact h.enterTerm hinv (.inr fun v heq => by cases heq)

theorem Distinct.steps (h : Distinct st) (hinv : Inv st) (hsteps : Steps st cmds st') :
    Distinct st' := by
  induction hsteps with
  | refl => exact h
  | tail hprev hstep ih => exact ih.step (hinv.steps hprev) hstep

theorem distinct_init (senv : SymEnv) : Distinct (EncoderState.init senv) := by
  constructor <;> intro _ _ _ hid <;> cases hid

/-! ## Sorts tell types apart -/

theorem srt_of_mem (hinv : Inv st) {ty : TermType} (hty : ty ∈ st.types) :
    ∃ id, st.types.lookup ty = some id ∧ st.srt ty = .data id.toList := by
  obtain ⟨id, hid⟩ := Option.isSome_iff_exists.mp (AList.lookup_isSome.mpr hty)
  have hentry := hinv.type ty id hid
  refine ⟨id, hid, ?_⟩
  cases ty with
  | prim pty =>
    cases pty with
    | entity ety => rw [EncoderState.srt, EncoderState.typeId, hid, Option.getD_some]
    | ext xty => rw [EncoderState.srt, EncoderState.typeId, hid, Option.getD_some]
    | _ => exact hentry.elim
  | record rty => rw [EncoderState.srt, EncoderState.typeId, hid, Option.getD_some]
  | _ => exact hentry.elim

theorem mem_of_srt {ty : TermType} {name : List Char} (hty : st.CoversType ty)
    (hs : st.srt ty = .data name) : ty ∈ st.types := by
  cases ty with
  | prim pty =>
    cases pty with
    | entity ety => exact hty
    | ext xty => exact hty
    | _ => cases hs
  | record rty => exact hty
  | _ => cases hs

theorem Distinct.eq_of_mem (h : Distinct st) (hinv : Inv st) {ty ty' : TermType}
    (hty : ty ∈ st.types) (hty' : st.CoversType ty') (hs : st.srt ty' = st.srt ty) : ty' = ty := by
  obtain ⟨id, hid, hsrt⟩ := srt_of_mem hinv hty
  obtain ⟨id', hid', hsrt'⟩ := srt_of_mem hinv (mem_of_srt hty' (hs.trans hsrt))
  rw [hsrt, hsrt', Srt.data.injEq] at hs
  rw [String.toList_injective hs] at hid'
  exact h.type _ _ _ hid' hid

theorem Distinct.eq_of_srt (h : Distinct st) (hinv : Inv st) {ty ty' : TermType}
    (hty : st.CoversType ty) (hty' : st.CoversType ty') (hs : st.srt ty' = st.srt ty) :
    ty' = ty := by
  induction ty using TermType.induct generalizing ty' with
  | prim pty =>
    cases pty with
    | entity ety => exact h.eq_of_mem hinv hty hty' hs
    | ext xty => exact h.eq_of_mem hinv hty hty' hs
    | _ =>
      cases ty' with
      | prim pty' =>
        cases pty' <;> cases hs
        rfl
      | _ => cases hs
  | option ty ih =>
    cases ty' with
    | prim pty' => cases pty' <;> cases hs
    | option ty' =>
      have hcov : st.CoversType ty' := hty'
      exact congrArg TermType.option (ih hty hcov (Srt.dataOf.inj hs).2)
    | _ => cases hs
  | set ty ih =>
    cases ty' with
    | prim pty' => cases pty' <;> cases hs
    | set ty' =>
      have hcov : st.CoversType ty' := hty'
      have hs : Srt.set (st.srt ty') = .set (st.srt ty) := hs
      exact congrArg TermType.set (ih hty hcov (Srt.set.inj hs))
    | _ => cases hs
  | record rty => exact h.eq_of_mem hinv hty hty' hs

/-! ## Selectors tell operators apart -/

/-- The operator takes values of the sort apart, by a selector of that name. -/
structure EncoderState.Selects (st : EncoderState) (op : Op) (ty : TermType) (name : List Char)
    (s : Srt) : Prop where
  place : (op.place? ty).isSome
  selector : ∃ sel, st.selector? op ty = some sel ∧ name = sel.toList
  covered : st.CoversType ty
  sort : s = st.srt ty

theorem encodeExtOp_injective : Function.Injective encodeExtOp := by
  intro xop xop' h
  cases xop <;> cases xop' <;> first | rfl | simp [encodeExtOp] at h

theorem eq_of_selector? {op op' : Op} {ty : TermType} {sel : String}
    (hop : (op.place? ty).isSome) (hop' : (op'.place? ty).isSome)
    (hsel : st.selector? op ty = some sel) (hsel' : st.selector? op' ty = some sel) :
    op' = op := by
  cases ty with
  | option ty =>
    cases op <;> cases hsel
    cases op' <;> cases hsel'
    rfl
  | record rty =>
    cases op <;> cases op' <;> try contradiction
    rename_i a a'
    obtain ⟨i, hi, hid⟩ := Option.map_eq_some_iff.mp hsel
    obtain ⟨i', hi', hid'⟩ := Option.map_eq_some_iff.mp hsel'
    have heq := recordAttrId_injective _ (hid'.trans hid.symm)
    rw [heq] at hi'
    obtain ⟨hlt, ha, _⟩ := List.findIdx?_eq_some_iff_getElem.mp hi
    obtain ⟨_, ha', _⟩ := List.findIdx?_eq_some_iff_getElem.mp hi'
    rw [← of_decide_eq_true ha, ← of_decide_eq_true ha']
  | prim pty =>
    cases pty with
    | ext xty =>
      cases op <;> cases op' <;> try contradiction
      rename_i xop xop'
      have heq : encodeExtOp xop' = encodeExtOp xop := Option.some.inj (hsel'.trans hsel.symm)
      rw [encodeExtOp_injective heq]
    | _ => cases op <;> cases hsel
  | _ => cases op <;> cases hsel

theorem EncoderState.Selects.unique {op op' : Op} {ty ty' : TermType} {name : List Char} {s : Srt}
    (h : st.Selects op ty name s) (h' : st.Selects op' ty' name s) (hdistinct : Distinct st)
    (hinv : Inv st) : op' = op ∧ ty' = ty := by
  have hty := hdistinct.eq_of_srt hinv h.covered h'.covered (h'.sort.symm.trans h.sort)
  subst hty
  obtain ⟨sel, hsel, hname⟩ := h.selector
  obtain ⟨sel', hsel', hname'⟩ := h'.selector
  rw [String.toList_injective (hname'.symm.trans hname)] at hsel'
  exact ⟨eq_of_selector? h.place h'.place hsel hsel', rfl⟩

/-- The type of what an operator selects. -/
theorem exists_out {op : Op} {ty : TermType} (hplace : (op.place? ty).isSome) :
    ∃ out, op.WellTyped [ty] out := by
  cases op with
  | optionGet =>
    cases ty with
    | option ty => exact ⟨ty, .optionGet ty⟩
    | _ => cases hplace
  | recordGet a =>
    cases ty with
    | record rty =>
      have hidx : (rty.findIdx? (·.1 = a)).isSome := by
        rwa [Op.place?, Option.isSome_map] at hplace
      have hfind : (rty.find? (·.1 = a)).isSome := by
        rw [List.findIdx?_isSome] at hidx
        rwa [List.find?_isSome, ← List.any_eq_true]
      obtain ⟨field, hfield⟩ := Option.isSome_iff_exists.mp hfind
      exact ⟨field.2, .recordGet (by rw [hfield, Option.map_some])⟩
    | _ => cases hplace
  | ext xop =>
    cases ty with
    | prim pty =>
      cases pty with
      | ext xty =>
        cases xop <;> cases xty <;> first | exact ⟨_, .ext (by constructor)⟩ | cases hplace
      | _ => cases xop <;> cases hplace
    | _ => cases xop <;> cases hplace
  | _ => cases hplace

theorem out_inv {op : Op} {ty out : TermType} (hplace : (op.place? ty).isSome)
    (h : op.WellTyped [ty] out) :
    op = .optionGet ∧ ty = .option out ∨
      (∃ a rty, op = .recordGet a ∧ ty = .record rty ∧
        (rty.find? (·.1 = a)).map Prod.snd = some out) ∨
      ∃ xop, op = .ext xop ∧ xop.WellTyped [ty] out := by
  generalize htys : [ty] = tys at h
  cases h with
  | optionGet out =>
    cases htys
    exact .inl ⟨rfl, rfl⟩
  | recordGet hfind =>
    cases htys
    exact .inr (.inl ⟨_, _, rfl, rfl, hfind⟩)
  | ext hext =>
    subst htys
    exact .inr (.inr ⟨_, rfl, hext⟩)
  | bvBinary n hf => cases htys
  | bvTest n hf => cases htys
  | _ => cases htys <;> cases hplace

theorem out_unique {op : Op} {ty out out' : TermType} (hplace : (op.place? ty).isSome)
    (h : op.WellTyped [ty] out) (h' : op.WellTyped [ty] out') : out' = out := by
  rcases out_inv hplace h with ⟨rfl, rfl⟩ | ⟨a, rty, rfl, rfl, hfind⟩ | ⟨xop, rfl, hext⟩
  · rcases out_inv hplace h' with ⟨_, heq⟩ | ⟨_, _, hop, _⟩ | ⟨_, hop, _⟩
    · exact (TermType.option.inj heq).symm
    · cases hop
    · cases hop
  · rcases out_inv hplace h' with ⟨hop, _⟩ | ⟨_, _, hop, hty, hfind'⟩ | ⟨_, hop, _⟩
    · cases hop
    · cases hop
      cases hty
      exact Option.some.inj (hfind'.symm.trans hfind)
    · cases hop
  · rcases out_inv hplace h' with ⟨hop, _⟩ | ⟨_, _, hop, _⟩ | ⟨_, hop, hext'⟩
    · cases hop
    · cases hop
    · cases hop
      cases hext <;> cases hext' <;> rfl

theorem coversType_out (hinv : Inv st) {op : Op} {ty out : TermType}
    (hplace : (op.place? ty).isSome) (h : op.WellTyped [ty] out) (hcov : st.CoversType ty) :
    st.CoversType out := by
  rcases out_inv hplace h with ⟨rfl, rfl⟩ | ⟨a, rty, rfl, rfl, hfind⟩ | ⟨xop, rfl, hext⟩
  · exact hcov
  · obtain ⟨id, hid⟩ := Option.isSome_iff_exists.mp (AList.lookup_isSome.mpr hcov)
    obtain ⟨field, hfield, rfl⟩ := Option.map_eq_some_iff.mp hfind
    exact (hinv.type _ id hid).2 field (List.mem_of_find?_eq_some hfield)
  · cases hext <;> trivial

/-! ## Interpretations from models -/

/-- What a table decides, and a value of a kind where it decides nothing. -/
theorem exists_entry {α : Type} [DecidableEq α] (m : Table α) (a : α) (f : String → Value)
    {P : Value → Prop} (hP : ∃ w, P w) :
    ∃ w, (∀ id, m.lookup a = some id → f id = w) ∧ (a ∉ m → P w) := by
  cases hid : m.lookup a with
  | none =>
    obtain ⟨w, hw⟩ := hP
    exact ⟨w, fun _ hid' => (nomatch hid'), fun _ => hw⟩
  | some id =>
    refine ⟨f id, fun _ hid' => congrArg f (Option.some.inj hid').symm, ?_⟩
    intro hnot
    exact (hnot (AList.lookup_isSome.mp (by rw [hid]; rfl))).elim

section FromModels

variable (hne : ∀ ety ms, members ety = some ms → ms ≠ [])

include hne

theorem exists_partial (M : Model) (st : EncoderState) (op : Op) (ty : TermType) (v : Value) :
    ∃ w, (∀ sel, st.selector? op ty = some sel → st.CoversType ty →
        M.sel sel.toList (st.srt ty) v = w) ∧
      (¬ st.CoversType ty → ∀ out, (op.place? ty).isSome → op.WellTyped [ty] out →
        HasType members out w) := by
  by_cases hcov : st.CoversType ty
  · cases hsel : st.selector? op ty with
    | none => exact ⟨v, fun sel hsel' => (nomatch hsel'), fun hnot => (hnot hcov).elim⟩
    | some sel =>
      refine ⟨M.sel sel.toList (st.srt ty) v, ?_, fun hnot => (hnot hcov).elim⟩
      intro sel' hsel' _
      cases hsel'
      rfl
  · by_cases hplace : (op.place? ty).isSome
    · obtain ⟨out, hout⟩ := exists_out hplace
      obtain ⟨w, hw⟩ := exists_hasType hne out
      refine ⟨w, fun _ _ hcov' => (hcov hcov').elim, ?_⟩
      intro _ out' _ hout'
      rwa [out_unique hplace hout hout']
    · exact ⟨v, fun _ _ hcov' => (hcov hcov').elim, fun _ _ hplace' => (hplace hplace').elim⟩

/-- What a model says about the script's symbols is an interpretation, and a well-typed one
where the model gives them values of their sorts. -/
theorem exists_interpretation (M : Model) (st : EncoderState) :
    ∃ I : Interpretation, Agrees M I st ∧
      ∀ env, Denotes members I M st env → M.Respects env → I.WellTyped members := by
  have hvars (v : TermVar) := exists_entry st.terms (.var v) (fun id => M.fn id.toList [])
    (exists_hasType hne v.ty)
  have hfuns (f : UUF) (v : Value) := exists_entry st.uufs f (fun id => M.fn id.toList [v])
    (exists_hasType hne f.out)
  choose vars hvars using hvars
  choose funs hfuns using hfuns
  choose partials hpartials using exists_partial hne M st
  refine ⟨⟨vars, funs, partials⟩, ?_, ?_⟩
  · constructor
    · exact fun v => (hvars v).1
    · exact fun f id hid v => (hfuns f v).1 id hid
    · exact fun op ty sel _ hsel hcov v => (hpartials op ty v).1 sel hsel hcov
  · intro env h hresp
    constructor
    · intro v
      by_cases hmem : Term.var v ∈ st.terms
      · obtain ⟨id, hid⟩ := Option.isSome_iff_exists.mp (AList.lookup_isSome.mpr hmem)
        have hfn := hresp.fn _ ((h.functions _).mpr (.inr ⟨v, id, hid, rfl⟩)) [] .nil
        rw [EncoderState.constant, (hvars v).1 id hid] at hfn
        exact h.hasType_of_hasSort hfn v.ty rfl (h.inv.term _ id hid).2.1
      · exact (hvars v).2 hmem
    · intro f v hv
      by_cases hmem : f ∈ st.uufs
      · obtain ⟨id, hid⟩ := Option.isSome_iff_exists.mp (AList.lookup_isSome.mpr hmem)
        obtain ⟨_, harg, hout⟩ := h.inv.uuf f id hid
        have hfn := hresp.fn _ ((h.functions _).mpr (.inl ⟨f, id, hid, rfl⟩)) [v]
          (.cons (h.hasSort_of_hasType harg hv) .nil)
        rw [EncoderState.signature, (hfuns f v).1 id hid] at hfn
        exact h.hasType_of_hasSort hfn f.out rfl hout
      · exact (hfuns f v).2 hmem
    · intro op ty out hplace hop v hv
      by_cases hcov : st.CoversType ty
      · have hout := coversType_out h.inv hplace hop hcov
        obtain ⟨⟨k, j⟩, hkj⟩ := Option.isSome_iff_exists.mp hplace
        obtain ⟨sel, hsel⟩ := h.selects hkj hop hcov
        obtain ⟨d, hd, c, arg, s, hc, hfield, harg, hsort⟩ := hsel.field
        obtain ⟨w, hw⟩ := exists_hasType hne out
        have htyped := hresp.sel d hd c (List.mem_of_getElem? hc) _
          (List.mem_of_getElem? hfield) _ arg harg v (h.hasSort_of_hasType hcov hv) (by
            rw [hsort]
            exact ⟨w, h.hasSort_of_hasType hout hw⟩)
        rw [hsort, (hpartials op ty v).1 sel hsel.selector hcov] at htyped
        exact h.hasType_of_hasSort htyped out rfl hout
      · exact (hpartials op ty v).2 hcov out hplace hop

end FromModels

/-! ## Models from interpretations -/

/-- A selector has values of its sort where the sort has values. -/
def SelTyped (ds : List Datatype) (name : List Char) (s : Srt) (v w : Value) : Prop :=
  ∀ d ∈ ds, ∀ c ∈ d.constructors, ∀ fieldSort, (name, fieldSort) ∈ c.fields → ∀ arg,
    d.arg? s = some arg → HasSort ds s v → (∃ w', HasSort ds (fieldSort.inst arg) w') →
      HasSort ds (fieldSort.inst arg) w

theorem exists_selected (hI : I.WellTyped members) (hdistinct : Distinct st) {J : Interpretation}
    (h : Denotes members J M st env) (name : List Char) (s : Srt) (v : Value) :
    ∃ w, (∀ op ty, st.Selects op ty name s → w = I.partials op ty v) ∧
      SelTyped env.datatypes name s v w := by
  by_cases hsel : ∃ op ty, st.Selects op ty name s
  · obtain ⟨op, ty, hsel⟩ := hsel
    refine ⟨I.partials op ty v, ?_, ?_⟩
    · intro op' ty' hsel'
      obtain ⟨rfl, rfl⟩ := hsel.unique hsel' hdistinct h.inv
      rfl
    · intro d hd c hc fieldSort hfield arg harg hv _
      obtain ⟨sel, hselector, rfl⟩ := hsel.selector
      obtain ⟨rfl⟩ := hsel.sort
      obtain ⟨out, hop⟩ := exists_out hsel.place
      obtain ⟨⟨k, j⟩, hkj⟩ := Option.isSome_iff_exists.mp hsel.place
      obtain ⟨sel', hsel'⟩ := h.selects hkj hop hsel.covered
      obtain ⟨d', hd', c', arg', s', hc', hfield', harg', hsort'⟩ := hsel'.field
      have heq : sel' = sel := Option.some.inj (hsel'.selector.symm.trans hselector)
      rw [heq] at hfield'
      have hsame := h.coherent.field_unique hd' (List.mem_of_getElem? hc')
        (List.mem_of_getElem? hfield') harg' hd hc hfield harg
      rw [← hsame, hsort']
      have hty := h.hasType_of_hasSort hv ty rfl hsel.covered
      exact h.hasSort_of_hasType (coversType_out h.inv hsel.place hop hsel.covered)
        (hI.partials op ty out hsel.place hop v hty)
  · by_cases hfield : ∃ d ∈ env.datatypes, ∃ c ∈ d.constructors, ∃ fieldSort,
      (name, fieldSort) ∈ c.fields ∧ ∃ arg, d.arg? s = some arg ∧
        ∃ w, HasSort env.datatypes (fieldSort.inst arg) w
    · obtain ⟨d, hd, c, hc, fieldSort, hfield, arg, harg, w, hw⟩ := hfield
      refine ⟨w, fun op ty hsel' => (hsel ⟨op, ty, hsel'⟩).elim, ?_⟩
      intro d' hd' c' hc' fieldSort' hfield' arg' harg' _ _
      rwa [← h.coherent.field_unique hd hc hfield harg hd' hc' hfield' harg']
    · refine ⟨v, fun op ty hsel' => (hsel ⟨op, ty, hsel'⟩).elim, ?_⟩
      intro d hd c hc fieldSort hfield' arg harg _ hw
      exact (hfield ⟨d, hd, c, hc, fieldSort, hfield', arg, harg, hw⟩).elim

theorem exists_function (I : Interpretation) (hdistinct : Distinct st) (name : List Char)
    (vs : List Value) :
    ∃ w, (∀ v id, st.terms.lookup (.var v) = some id → name = id.toList → vs = [] →
        w = I.vars v) ∧
      ∀ f id, st.uufs.lookup f = some id → name = id.toList → ∀ v, vs = [v] → w = I.funs f v := by
  cases vs with
  | nil =>
    by_cases hvar : ∃ v id, st.terms.lookup (.var v) = some id ∧ name = id.toList
    · obtain ⟨v, id, hid, hname⟩ := hvar
      refine ⟨I.vars v, ?_, fun _ _ _ _ _ heq => nomatch heq⟩
      intro v' id' hid' hname' _
      rw [String.toList_injective (hname'.symm.trans hname)] at hid'
      rw [hdistinct.var v v' id hid hid']
    · exact ⟨.bool true, fun v id hid hname _ => (hvar ⟨v, id, hid, hname⟩).elim,
        fun _ _ _ _ _ heq => nomatch heq⟩
  | cons v vs =>
    by_cases huuf : ∃ f id, st.uufs.lookup f = some id ∧ name = id.toList
    · obtain ⟨f, id, hid, hname⟩ := huuf
      refine ⟨I.funs f v, fun _ _ _ _ heq => (nomatch heq), ?_⟩
      intro f' id' hid' hname' v' hv'
      rw [String.toList_injective (hname'.symm.trans hname)] at hid'
      rw [hdistinct.uuf f f' id hid hid', (List.cons.inj hv').1]
    · exact ⟨.bool true, fun _ _ _ _ heq => (nomatch heq),
        fun f id hid hname _ _ => (huuf ⟨f, id, hid, hname⟩).elim⟩

theorem hasSort_mono {ds ds' : List Datatype} (hds : ds ⊆ ds') {s : Srt} {v : Value}
    (h : HasSort ds s v) : HasSort ds' s v := by
  induction h with
  | bool b => exact .bool b
  | bitvec x => exact .bitvec x
  | str t => exact .str t
  | set f hv hf ih => exact .set f hv ih
  | con d c hd hs hc hlen hargs ih => exact .con d c (hds hd) hs hc hlen ih

/-- The datatypes of the script do not depend on the model. -/
theorem Denotes.datatypes_subset {J : Interpretation} {N : Model} {env' : Env}
    (h : Denotes members I M st env) (h' : Denotes members J N st env') :
    env.datatypes ⊆ env'.datatypes := by
  intro d hd
  cases h.datatypes d hd with
  | inl heq =>
    rw [heq]
    exact h'.option
  | inr hsort =>
    obtain ⟨ty, id, hid, rfl⟩ := hsort
    exact h'.type ty id hid

/-- A well-typed interpretation is what some model says about the script's symbols. -/
theorem exists_model (hI : I.WellTyped members) (hdistinct : Distinct st) {J : Interpretation}
    (h : Denotes members J M st env) :
    ∃ N : Model, Agrees N I st ∧
      ∀ env', Denotes members I N st env' → N.Respects env' := by
  choose fn hfn using exists_function I hdistinct
  choose sel hsel using exists_selected hI hdistinct h
  refine ⟨⟨fn, sel⟩, ?_, ?_⟩
  · constructor
    · exact fun v id hid => (hfn _ _).1 v id hid rfl rfl
    · exact fun f id hid v => (hfn _ _).2 f id hid rfl v rfl
    · exact fun op ty s hplace hs hcov v =>
        (hsel _ _ _).1 op ty ⟨hplace, ⟨s, hs, rfl⟩, hcov, rfl⟩
  · intro env' h'
    constructor
    · intro f hf vs hvs
      cases (h'.functions f).mp hf with
      | inl huuf =>
        obtain ⟨g, id, hid, rfl⟩ := huuf
        obtain ⟨_, harg, hout⟩ := h'.inv.uuf g id hid
        obtain ⟨v, _, hv, hrest, rfl⟩ := List.forall₂_cons_left_iff.mp hvs
        cases hrest
        have hty := h'.hasType_of_hasSort hv g.arg rfl harg
        have hvalue := (hfn id.toList [v]).2 g id hid rfl v rfl
        change HasSort _ (st.srt g.out) (fn id.toList [v])
        rw [hvalue]
        exact h'.hasSort_of_hasType hout (hI.funs g v hty)
      | inr hvar =>
        obtain ⟨v, id, hid, rfl⟩ := hvar
        cases hvs
        have hvalue := (hfn id.toList []).1 v id hid rfl rfl
        change HasSort _ (st.srt v.ty) (fn id.toList [])
        rw [hvalue]
        exact h'.hasSort_of_hasType (h'.inv.term _ id hid).2.1 (hI.vars v)
    · intro d hd c hc field hfield s arg harg v hv hw
      have hsub := h'.datatypes_subset h
      have hsub' := h.datatypes_subset h'
      obtain ⟨w, hw⟩ := hw
      exact hasSort_mono hsub' ((hsel field.1 s v).2 d (hsub hd) c hc field.2 hfield arg harg
        (hasSort_mono hsub hv) ⟨w, hasSort_mono hsub hw⟩)

/-! ## Satisfiability -/

/-- The members of the enumerated entity types. -/
def SymEnv.enumerated (senv : SymEnv) (ety : EntityType) : Option (List String) :=
  (EncoderState.init senv).enums.lookup ety

section Scripts

variable {senv : SymEnv} {ts : List Term} {b : Bool} {out : String}

/-- Every model runs the script, and the assertions hold where the terms are true. -/
theorem run_scriptCommands (b : Bool) (hsteps : Steps (EncoderState.init senv) cmds st)
    (htyped : st.Typed) (hcov : ∀ t ∈ ts, st.Covers t)
    (hwt : ∀ t ∈ ts, t.WellTyped ∧ t.typeOf = .bool)
    (hne : ∀ ety ms, senv.enumerated ety = some ms → ms ≠ []) (hagree : Agrees M I st) :
    ∃ env, run M .empty (scriptCommands b cmds st ts) = some env ∧
      Denotes senv.enumerated I M st env ∧
        env.holds = ts.all fun t => (t.meaning senv.enumerated I).isTrue := by
  have hprelude : Denotes senv.enumerated I M (EncoderState.init senv)
      (Env.empty.declare M optionDatatype) := denotes_prelude senv
  obtain ⟨env, hrun, h, hholds⟩ := hprelude.steps hsteps htyped hagree hne
  have hasserts := h.asserts hcov (fun t ht => (hwt t ht).1) fun t ht => (hwt t ht).2
  have htrue : env.holds = true := hholds
  rw [htrue, Bool.true_and] at hasserts
  refine ⟨_, ?_, h.withHolds _, rfl⟩
  rw [scriptCommands, run_append, run_append, run_prelude, Option.bind_some, hrun,
    Option.bind_some, hasserts]

theorem isTrue_iff {v : Value} : v.isTrue ↔ v = .bool true := by
  cases v <;> simp [Value.isTrue]

/-- A script of well-typed terms is satisfiable where an interpretation makes them all true. -/
theorem satisfiable_scriptCommands (b : Bool) (hsteps : Steps (EncoderState.init senv) cmds st)
    (htyped : st.Typed) (hcov : ∀ t ∈ ts, st.Covers t)
    (hwt : ∀ t ∈ ts, t.WellTyped ∧ t.typeOf = .bool)
    (hne : ∀ ety ms, senv.enumerated ety = some ms → ms ≠ []) :
    Satisfiable (scriptCommands b cmds st ts) ↔
      ∃ I : Interpretation, I.WellTyped senv.enumerated ∧
        ∀ t ∈ ts, t.meaning senv.enumerated I = .bool true := by
  constructor
  · intro hsat
    obtain ⟨M, env, hrun, hresp, hholds⟩ := hsat
    obtain ⟨I, hagree, hI⟩ := exists_interpretation hne M st
    obtain ⟨env', hrun', h, htrue⟩ := run_scriptCommands b hsteps htyped hcov hwt hne hagree
    cases hrun.symm.trans hrun'
    rw [htrue] at hholds
    refine ⟨I, hI env h hresp, ?_⟩
    intro t ht
    exact isTrue_iff.mp (List.all_eq_true.mp hholds t ht)
  · intro hint
    obtain ⟨I, hI, htrue⟩ := hint
    -- some model fixes what is declared, and then the interpretation's own model is built
    obtain ⟨J, hagree, _⟩ := exists_interpretation hne
      ⟨fun _ _ => .bool true, fun _ _ _ => .bool true⟩ st
    obtain ⟨env, _, h, _⟩ := run_scriptCommands b hsteps htyped hcov hwt hne hagree
    have hdistinct := (distinct_init senv).steps (inv_init senv) hsteps
    obtain ⟨N, hagree', hresp⟩ := exists_model hI hdistinct h
    obtain ⟨env', hrun, h', hholds⟩ :=
      run_scriptCommands b hsteps htyped hcov hwt hne hagree'
    refine ⟨N, env', hrun, hresp env' h', ?_⟩
    rw [hholds]
    apply List.all_eq_true.mpr
    intro t ht
    exact isTrue_iff.mpr (htrue t ht)

theorem wellTyped_colorTerm : ∀ t ∈ [colorTerm], t.WellTyped ∧ t.typeOf = .bool := by
  intro t ht
  rw [List.mem_singleton.mp ht]
  refine ⟨.app ?_ (.eq (.entity ⟨"Color", []⟩)), rfl⟩
  intro t ht
  cases List.mem_pair.mp ht with
  | inl ht =>
    rw [ht]
    exact .prim (.entity _)
  | inr ht =>
    rw [ht]
    exact .var (.entity _)

theorem enumerated_colorEnv (ety : EntityType) (ms : List String)
    (h : colorEnv.enumerated ety = some ms) : ms ≠ [] := by
  have hinit : (EncoderState.init colorEnv).enums =
      (AList.insert (⟨"Color", []⟩ : EntityType) ["red", "green"] ∅ :
        AList fun _ : EntityType => List String) := rfl
  rw [SymEnv.enumerated, hinit] at h
  by_cases hety : ety = ⟨"Color", []⟩
  · rw [hety, AList.lookup_insert, Option.some.injEq] at h
    rw [← h]
    simp
  · rw [AList.lookup_insert_ne hety, AList.lookup_empty] at h
    cases h

end Scripts

end CedarSpec.SymCC
