import CedarSpec.EncoderBodies

/-! Applications of operators evaluate to what the operators give for the values of their
arguments. -/

namespace CedarSpec.SymCC

open SmtLib Encoder

variable {members : EntityType → Option (List String)} {I : Interpretation} {M : Model}
  {st st' : EncoderState} {env env' : Env} {op : Op} {ty : TermType} {args : List SExp}

/-- A value with the sort of its type. -/
def EncoderState.typed (st : EncoderState) (p : TermType × Value) : TypedValue :=
  (st.srt p.1, p.2)

section Lists

variable {α β : Type} {l : List (α × β)} {a a' a'' : α}

theorem eq_of_map_fst₁ (h : l.map Prod.fst = [a]) : ∃ b, l = [(a, b)] := by
  obtain ⟨p, rest, rfl, rfl, hrest⟩ := List.map_eq_cons_iff.mp h
  rw [List.map_eq_nil_iff.mp hrest]
  exact ⟨p.2, rfl⟩

theorem eq_of_map_fst₂ (h : l.map Prod.fst = [a, a']) : ∃ b b', l = [(a, b), (a', b')] := by
  obtain ⟨p, rest, rfl, rfl, hrest⟩ := List.map_eq_cons_iff.mp h
  obtain ⟨b', rfl⟩ := eq_of_map_fst₁ hrest
  exact ⟨p.2, b', rfl⟩

theorem eq_of_map_fst₃ (h : l.map Prod.fst = [a, a', a'']) :
    ∃ b b' b'', l = [(a, b), (a', b'), (a'', b'')] := by
  obtain ⟨p, rest, rfl, rfl, hrest⟩ := List.map_eq_cons_iff.mp h
  obtain ⟨b', b'', rfl⟩ := eq_of_map_fst₂ hrest
  exact ⟨p.2, b', b'', rfl⟩

end Lists

/-! ## Operators of the theories -/

/-- The operators that are functions of the theories. -/
def Op.isTheory : Op → Bool
  | .not | .and | .or | .eq | .ite | .bvneg | .setMember | .setSubset | .setInter => true
  | op => op.bvBinary?.isSome || op.bvTest?.isSome

theorem eval_theoryOp {pairs : List (TermType × Value)}
    (hargs : args.map env.eval = (pairs.map st.typed).map some)
    (hop : op.WellTyped (pairs.map Prod.fst) ty) (htheory : op.isTheory) :
    env.eval (.list (opSym op :: args)) = some (st.srt ty, I.op op pairs) := by
  generalize htys : pairs.map Prod.fst = tys at hop
  cases hop with
  | not =>
    obtain ⟨v, rfl⟩ := eq_of_map_fst₁ htys
    rw [eval_encodedAs encodedAs_not hargs]
    rfl
  | and =>
    obtain ⟨v, w, rfl⟩ := eq_of_map_fst₂ htys
    rw [eval_encodedAs encodedAs_and hargs]
    rfl
  | or =>
    obtain ⟨v, w, rfl⟩ := eq_of_map_fst₂ htys
    rw [eval_encodedAs encodedAs_or hargs]
    rfl
  | eq ty =>
    obtain ⟨v, w, rfl⟩ := eq_of_map_fst₂ htys
    rw [eval_encodedAs encodedAs_eq hargs]
    exact if_pos rfl
  | ite ty =>
    obtain ⟨b, v, w, rfl⟩ := eq_of_map_fst₃ htys
    rw [eval_encodedAs encodedAs_ite hargs]
    exact if_pos rfl
  | bvneg n =>
    obtain ⟨v, rfl⟩ := eq_of_map_fst₁ htys
    rw [eval_encodedAs encodedAs_bvneg hargs]
    rfl
  | @bvBinary _ f n hf =>
    obtain ⟨v, w, rfl⟩ := eq_of_map_fst₂ htys
    obtain ⟨name, henc⟩ := encodedAs_bvBinary hf
    rw [eval_encodedAs henc hargs]
    have hvalue : I.op op [(.bitvec n, v), (.bitvec n, w)] =
        .bitvec n (f n (v.bits n) (w.bits n)) := by
      cases op <;> cases hf <;> rfl
    rw [hvalue]
    exact if_pos rfl
  | @bvTest _ f n hf =>
    obtain ⟨v, w, rfl⟩ := eq_of_map_fst₂ htys
    obtain ⟨name, henc⟩ := encodedAs_bvTest hf
    rw [eval_encodedAs henc hargs]
    have hvalue : I.op op [(.bitvec n, v), (.bitvec n, w)] =
        .bool (f n (v.bits n) (w.bits n)) := by
      cases op <;> cases hf <;> rfl
    rw [hvalue]
    exact if_pos rfl
  | setMember ty =>
    obtain ⟨v, w, rfl⟩ := eq_of_map_fst₂ htys
    rw [eval_encodedAs encodedAs_setMember hargs]
    exact if_pos rfl
  | setSubset ty =>
    obtain ⟨v, w, rfl⟩ := eq_of_map_fst₂ htys
    rw [eval_encodedAs encodedAs_setSubset hargs]
    exact if_pos rfl
  | setInter ty =>
    obtain ⟨v, w, rfl⟩ := eq_of_map_fst₂ htys
    rw [eval_encodedAs encodedAs_setInter hargs]
    exact if_pos rfl
  | uuf arg out => cases htheory
  | bvnego n => cases htheory
  | zeroExtend n m => cases htheory
  | optionGet ty => cases htheory
  | recordGet hfind => cases htheory
  | stringLike p => cases htheory
  | ext hext => cases htheory

/-! ## Selectors -/

/-- How an operator that takes a value apart is encoded: the field that it selects. -/
structure SelectedAs (st : EncoderState) (env : Env) (op : Op) (ty out : TermType) (k j : ℕ)
    (sel : String) : Prop where
  selector : st.selector? op ty = some sel
  plain : Plain sel.toList
  field : ∃ d ∈ env.datatypes, ∃ c arg, ∃ s : Srt, d.constructors[k]? = some c ∧
    c.fields[j]? = some (sel.toList, s) ∧ d.arg? (st.srt ty) = some arg ∧ s.inst arg = st.srt out

theorem SelectedAs.apply {out : TermType} {k j : ℕ} {sel : String}
    (hsel : SelectedAs st env op ty out k j sel) (hcoh : env.Coherent M) (v : Value) :
    env.apply sel.toList [(st.srt ty, v)] =
      some (st.srt out, v.project k j (M.sel sel.toList (st.srt ty) v)) := by
  obtain ⟨d, hd, c, arg, s, hc, hfield, harg, hsort⟩ := hsel.field
  have happly := hcoh.select hd hc hfield harg v
  rwa [hsort] at happly

section Selectors

variable {k j : ℕ} {out : TermType}

theorem recordGet_field {a : String} {rty : List (String × TermType)} {i : ℕ}
    (hi : rty.findIdx? (·.1 = a) = some i)
    (hfind : (rty.find? (·.1 = a)).map Prod.snd = some ty) : ∃ b, rty[i]? = some (b, ty) := by
  rw [List.find?_eq_bind_findIdx?_getElem?, hi, Option.bind_some] at hfind
  obtain ⟨field, hfield, rfl⟩ := Option.map_eq_some_iff.mp hfind
  exact ⟨field.1, hfield⟩

namespace Denotes

variable (h : Denotes members I M st env)

include h

theorem selects_recordGet {a : String} {rty : List (String × TermType)} {i : ℕ}
    (hi : rty.findIdx? (·.1 = a) = some i)
    (hfind : (rty.find? (·.1 = a)).map Prod.snd = some out)
    (hcov : st.CoversType (.record rty)) :
    ∃ sel, SelectedAs st env (.recordGet a) (.record rty) out 0 i sel := by
  obtain ⟨id, _, hentry, hsrt, _, htypeId, hmem⟩ := h.data hcov
  obtain ⟨b, hfield⟩ := recordGet_field hi hfind
  have hselector : st.selector? (.recordGet a) (.record rty) = some (recordAttrId id i) := by
    rw [EncoderState.selector?, hi, htypeId]
    rfl
  have hplain : Plain (recordAttrId id i).toList := by
    obtain ⟨⟨n, _, rfl⟩, _⟩ := hentry
    rw [toList_recordAttrId, toList_recordTypeId]
    exact plain_of_head (by decide)
  refine ⟨recordAttrId id i, hselector, hplain, _, hmem, ⟨id.toList, st.fieldsOf id rty⟩, .param,
    st.srt out, rfl, ?_, ?_, inst_srt _ _⟩
  · rw [EncoderState.fieldsOf, List.getElem?_mapIdx, hfield, Option.map_some]
  · rw [hsrt]
    exact Datatype.arg?_data rfl

/-- The selectors of the extension types. -/
theorem selects_ext {xop : ExtOp} {xty : ExtType} {c : Constructor} {s : Srt}
    (hcov : st.CoversType (.ext xty)) (hc : (extDatatype xty).constructors[k]? = some c)
    (hfield : c.fields[j]? = some ((encodeExtOp xop).toList, s))
    (hsort : s.inst .param = st.srt out) (hplain : Plain (encodeExtOp xop).toList) :
    ∃ sel, SelectedAs st env (.ext xop) (.ext xty) out k j sel := by
  obtain ⟨hmem, hsrt⟩ := h.ext_mem hcov
  have hpar : (extDatatype xty).parametric = false := by cases xty <;> rfl
  refine ⟨encodeExtOp xop, rfl, hplain, _, hmem, c, .param, s, hc, hfield, ?_, hsort⟩
  rw [hsrt]
  exact Datatype.arg?_data hpar

theorem selects (hplace : op.place? ty = some (k, j)) (hop : op.WellTyped [ty] out)
    (hcov : st.CoversType ty) : ∃ sel, SelectedAs st env op ty out k j sel := by
  generalize htys : [ty] = tys at hop
  cases hop with
  | optionGet out =>
    cases htys
    cases hplace
    exact ⟨"val", rfl, by simp [Plain], optionDatatype, h.option,
      ⟨"some".toList, [("val".toList, .param)]⟩, st.srt out, .param, rfl, rfl, rfl, rfl⟩
  | @recordGet a rty out hfind =>
    cases htys
    obtain ⟨i, hi, hpair⟩ := Option.map_eq_some_iff.mp hplace
    cases hpair
    exact h.selects_recordGet hi hfind hcov
  | @ext xop tys out hext =>
    cases hext with
    | decimalVal =>
      cases htys
      cases hplace
      exact h.selects_ext hcov rfl rfl rfl (by simp [Plain, encodeExtOp])
    | ipaddrAddrV4 =>
      cases htys
      cases hplace
      exact h.selects_ext hcov rfl rfl rfl (by simp [Plain, encodeExtOp])
    | ipaddrPrefixV4 =>
      cases htys
      cases hplace
      exact h.selects_ext hcov rfl rfl rfl (by simp [Plain, encodeExtOp])
    | ipaddrAddrV6 =>
      cases htys
      cases hplace
      exact h.selects_ext hcov rfl rfl rfl (by simp [Plain, encodeExtOp])
    | ipaddrPrefixV6 =>
      cases htys
      cases hplace
      exact h.selects_ext hcov rfl rfl rfl (by simp [Plain, encodeExtOp])
    | datetimeVal =>
      cases htys
      cases hplace
      exact h.selects_ext hcov rfl rfl rfl (by simp [Plain, encodeExtOp])
    | durationVal =>
      cases htys
      cases hplace
      exact h.selects_ext hcov rfl rfl rfl (by simp [Plain, encodeExtOp])
    | ipaddrIsV4 =>
      cases htys
      cases hplace
    | datetimeOfBitVec =>
      cases htys
      cases hplace
    | durationOfBitVec =>
      cases htys
      cases hplace
  | bvBinary n hf => cases htys
  | bvTest n hf => cases htys
  | _ => cases htys <;> cases hplace

end Denotes

/-- An operator that takes a value apart has the value of the argument at its place. -/
theorem op_of_place {v : Value} (hplace : op.place? ty = some (k, j)) :
    I.op op [(ty, v)] = v.project k j (I.partials op ty v) := by
  cases op with
  | optionGet => cases ty <;> cases hplace; rfl
  | recordGet a =>
    cases ty with
    | record rty =>
      simp only [Interpretation.op, Interpretation.unary, hplace]
    | _ => cases hplace
  | ext xop =>
    cases ty with
    | prim pty =>
      cases xop <;> cases pty <;> try cases hplace
      all_goals
        rename_i xty
        cases xty <;> cases hplace
        rfl
    | _ => cases xop <;> cases hplace
  | _ => cases hplace

end Selectors

/-! ## The other operators -/

theorem eval_indexed {f x : List Char} {vs : List TypedValue}
    (hargs : args.map env.eval = vs.map some) :
    env.eval (.list (.list [sym "_", .atom f, .atom x] :: args)) = env.indexed f x vs := by
  rw [sym, Env.eval, Env.evals_eq_map, List.map_cons, Env.form, if_pos rfl, hargs,
    SmtLib.mapM_id_map_some, Option.bind_some]

theorem eval_zeroExtend {i n : ℕ} {v : Value}
    (hargs : args.map env.eval = [st.typed (.bitvec n, v)].map some) :
    env.eval (.list (opSym (.zeroExtend i) :: args)) =
      some (st.srt (.bitvec (i + n)), I.op (.zeroExtend i) [(.bitvec n, v)]) := by
  have h := eval_indexed (f := "zero_extend".toList) (x := Nat.toDigits 10 i) hargs
  rw [Env.indexed, if_neg (by simp), if_pos rfl, numeral?_toDigits, Option.bind_some] at h
  exact h

theorem mem_language_iff {p : List PatElem} {ls : List (Language StrChar)}
    (h : List.Forall₂ (fun e l => ∀ s, s ∈ l ↔ Matches [e] s) p ls) (s : List StrChar) :
    s ∈ ls.prod ↔ Matches p s := by
  induction h generalizing s with
  | nil => exact Language.mem_one s
  | @cons e l p ls hl _ ih =>
    rw [List.prod_cons, Language.mem_mul]
    constructor
    · intro hs
      obtain ⟨a, ha, b, hb, rfl⟩ := hs
      have ha := (hl a).mp ha
      have hb := (ih b).mp hb
      cases e with
      | star => exact ⟨a, b, rfl, hb⟩
      | justChar c =>
        obtain ⟨rest, rfl, rfl⟩ := ha
        exact ⟨b, rfl, hb⟩
    · intro hs
      cases e with
      | star =>
        obtain ⟨a, b, rfl, hb⟩ := hs
        exact ⟨a, (hl a).mpr ⟨a, [], (List.append_nil a).symm, rfl⟩, b, (ih b).mpr hb, rfl⟩
      | justChar c =>
        obtain ⟨b, rfl, hb⟩ := hs
        exact ⟨[_], (hl _).mpr ⟨[], rfl, rfl⟩, b, (ih b).mpr hb, rfl⟩

theorem language_patElemRe {e : PatElem}
    (h : ∀ c, PatElem.justChar c = e → c.toNat ≤ smtLibMaxCodePoint) :
    ∃ l, language? (patElemRe e) = some l ∧ ∀ s, s ∈ l ↔ Matches [e] s := by
  cases e with
  | star =>
    refine ⟨KStar.kstar allChar, rfl, fun s => ?_⟩
    constructor
    · intro _
      exact ⟨s, [], (List.append_nil s).symm, rfl⟩
    · intro _
      exact mem_kstar_allChar s
  | justChar c =>
    have hrep : ∀ c' ∈ (String.singleton c).toList, c'.toNat ≤ smtLibMaxCodePoint := by
      intro c' hc'
      rw [String.toList_singleton, List.mem_singleton] at hc'
      rw [hc']
      exact h c rfl
    have hstr := unescape_escape hrep
    refine ⟨oneText (codes (String.singleton c).toList), ?_, fun s => ?_⟩
    · rw [patElemRe, stringLit, sym, language?, languageForm, if_pos rfl, hstr, Option.map_some]
    · rw [String.toList_singleton]
      constructor
      · intro hs
        exact ⟨[], hs, rfl⟩
      · intro hs
        obtain ⟨b, rfl, rfl⟩ := hs
        rfl

/-- The regular expression of a pattern has the language of the texts that match it. -/
theorem language_patternRe {p : List PatElem}
    (h : ∀ c, PatElem.justChar c ∈ p → c.toNat ≤ smtLibMaxCodePoint) :
    ∃ l, language? (patternRe p) = some l ∧ ∀ s, s ∈ l ↔ Matches p s := by
  have hall : ∀ p' : List PatElem, (∀ e ∈ p', e ∈ p) →
      ∃ ls, (p'.map patElemRe).map language? = ls.map some ∧
        List.Forall₂ (fun e l => ∀ s, s ∈ l ↔ Matches [e] s) p' ls := by
    intro p' hp'
    induction p' with
    | nil => exact ⟨[], rfl, .nil⟩
    | cons e p' ih =>
      obtain ⟨he, hp'⟩ := List.forall_mem_cons.mp hp'
      obtain ⟨l, hl, hmem⟩ := language_patElemRe (e := e) fun c hc => h c (by rwa [hc])
      obtain ⟨ls, hls, hforall⟩ := ih hp'
      refine ⟨l :: ls, ?_, .cons hmem hforall⟩
      rw [List.map_cons, List.map_cons, hl, hls, List.map_cons]
  cases p with
  | nil => exact ⟨_, rfl, fun s => Iff.rfl⟩
  | cons e p =>
    cases p with
    | nil => exact language_patElemRe fun c hc => h c (by simp [hc])
    | cons e' p =>
      obtain ⟨ls, hls, hforall⟩ := hall _ fun _ he => he
      exact ⟨ls.prod, language?_concat hls, mem_language_iff hforall⟩

theorem eval_stringLike {p : List PatElem} {e : SExp} {v : Value}
    (hp : ∀ c, PatElem.justChar c ∈ p → c.toNat ≤ smtLibMaxCodePoint)
    (he : env.eval e = some (.string, v)) :
    env.eval (.list [sym "str.in_re", e, patternRe p]) =
      some (.bool, I.op (.stringLike p) [(.string, v)]) := by
  obtain ⟨l, hl, hmem⟩ := language_patternRe hp
  have hin : env.eval (.list [sym "str.in_re", e, patternRe p]) =
      Env.inRe [e, patternRe p] [some (.string, v), env.eval (patternRe p)] := by
    rw [sym, Env.eval, Env.evals, Env.evals, Env.evals, Env.evals, he, Env.form, if_neg (by simp),
      if_neg (by simp), if_pos rfl]
  rw [hin, Env.inRe, hl, Option.map_some]
  exact congrArg (fun b => some (Srt.bool, Value.bool b)) (decide_eq_decide.mpr (hmem v.text))

theorem intMin_ne_zero {n : ℕ} (hn : 0 < n) : BitVec.intMin n ≠ 0 := by
  intro heq
  have hmin := BitVec.toInt_intMin_of_pos hn
  rw [heq] at hmin
  simp at hmin

theorem bits_eq_intMin {n : ℕ} (hn : 0 < n) (v : Value) :
    v.bits n = BitVec.intMin n ↔ v = .bitvec n (BitVec.intMin n) := by
  constructor
  · intro h
    cases v with
    | bitvec m x =>
      by_cases hm : m = n
      · subst hm
        rw [Value.bits_bitvec] at h
        rw [h]
      · rw [Value.bits, dif_neg hm] at h
        exact (intMin_ne_zero hn h.symm).elim
    | _ => exact (intMin_ne_zero hn h.symm).elim
  · intro h
    rw [h, Value.bits_bitvec]

namespace Denotes

variable (h : Denotes members I M st env)

include h

theorem eval_selector {k j : ℕ} {out : TermType} {v : Value} (hagree : Agrees M I st)
    (hplace : op.place? ty = some (k, j)) (hop : op.WellTyped [ty] out)
    (hcov : st.CoversType ty) (hargs : args.map env.eval = [st.typed (ty, v)].map some) :
    ∃ sel, st.selector? op ty = some sel ∧
      env.eval (.list (sym sel :: args)) = some (st.srt out, I.op op [(ty, v)]) := by
  obtain ⟨sel, hsel⟩ := h.selects hplace hop hcov
  refine ⟨sel, hsel.selector, ?_⟩
  have hpartial := hagree.sel op ty sel (by rw [hplace]; rfl) hsel.selector hcov v
  rw [sym, eval_plain hsel.plain hargs, op_of_place hplace, ← hpartial]
  exact hsel.apply h.coherent v

theorem eval_isV4 {v : Value} (hcov : st.CoversType (.ext .ipAddr))
    (hargs : args.map env.eval = [st.typed (.ext .ipAddr, v)].map some) :
    env.eval (.list (opSym (.ext .ipaddrIsV4) :: args)) =
      some (.bool, I.op (.ext .ipaddrIsV4) [(.ext .ipAddr, v)]) := by
  obtain ⟨hmem, hsrt⟩ := h.ext_mem hcov
  have htest : env.test "V4".toList (st.srt (.ext .ipAddr), v) = some (decide (v.tag = 0)) :=
    h.coherent.test_constructor hmem (k := 0) (c := ⟨"V4".toList, _⟩) rfl (by
      rw [hsrt]
      exact Datatype.arg?_data rfl) v
  have hindexed := eval_indexed (f := "is".toList) (x := "V4".toList) hargs
  rw [Env.indexed, if_pos rfl] at hindexed
  exact hindexed.trans (congrArg _ htest)

theorem eval_ofBitVec {xop : ExtOp} {xty : ExtType} {name sel : String} {v : Value}
    (hop : xop = .datetimeOfBitVec ∨ xop = .durationOfBitVec)
    (hcov : st.CoversType (.ext xty)) (hd : extDatatype xty = wrapper name sel)
    (hname : opSym (.ext xop) = sym name) (hplain : Plain name.toList)
    (hargs : args.map env.eval = [st.typed (.bitvec 64, v)].map some) :
    env.eval (.list (opSym (.ext xop) :: args)) =
      some (st.srt (.ext xty), I.op (.ext xop) [(.bitvec 64, v)]) := by
  obtain ⟨hmem, hsrt⟩ := h.ext_mem hcov
  rw [hd] at hmem hsrt
  have hvalue : I.op (.ext xop) [(.bitvec 64, v)] = .con 0 [v] := by
    cases hop with
    | inl hop => rw [hop]; rfl
    | inr hop => rw [hop]; rfl
  rw [hname, hsrt, hvalue]
  exact h.eval_construct hmem rfl (c := ⟨name.toList, [(sel.toList, .bitvec 64)]⟩) rfl hplain hargs
    rfl

theorem eval_uuf {f : UUF} {v : Value} (hagree : Agrees M I st) (hf : f ∈ st.uufs)
    (hargs : args.map env.eval = [st.typed (f.arg, v)].map some) :
    env.eval (.list (sym (st.uufId f) :: args)) =
      some (st.srt f.out, I.op (.uuf f) [(f.arg, v)]) := by
  obtain ⟨id, hid⟩ := Option.isSome_iff_exists.mp (AList.lookup_isSome.mpr hf)
  obtain ⟨⟨n, _, rfl⟩, _⟩ := h.inv.uuf f id hid
  have hplain : Plain (Encoder.uufId n).toList := by
    rw [toList_uufId]
    exact plain_of_head (by decide)
  have hentry : ((st.signature f (Encoder.uufId n)).entry (M.fn (Encoder.uufId n).toList)).apply
      [st.typed (f.arg, v)] = some _ := if_pos rfl
  have happly := h.coherent.apply_eq (h.uuf f _ hid) hentry
  rw [sym, (uufId_of_lookup hid).2, eval_plain hplain hargs]
  refine happly.trans ?_
  have hfun := hagree.uuf f _ hid v
  rw [Interpretation.op, Interpretation.unary, ← hfun]
  rfl

theorem eval_bvnego {n : ℕ} {t : Term} (hn : 0 < n) (hcov : st.Covers t) (hwt : t.WellTyped)
    (htype : t.typeOf = .bitvec n) :
    env.eval (.list [sym "=", st.ref t, bitVecLit (BitVec.intMin n)]) =
      some (.bool, I.op .bvnego [(.bitvec n, t.meaning members I)]) := by
  have href := h.eval_ref hcov hwt
  have hargs : [st.ref t, bitVecLit (BitVec.intMin n)].map env.eval =
      [(Srt.bitvec n, t.meaning members I),
        (Srt.bitvec n, Value.bitvec n (BitVec.intMin n))].map some := by
    rw [List.map_cons, List.map_singleton, href, htype, eval_bitVecLit hn]
    rfl
  have hplain : Plain "=".toList := by simp [Plain]
  rw [sym, eval_theory hplain rfl hargs, equal, if_pos rfl]
  have hvalue : decide (t.meaning members I = .bitvec n (BitVec.intMin n)) =
      BitVec.overflows n (-((t.meaning members I).bits n).toInt) := by
    rw [Bool.eq_iff_iff, decide_eq_true_iff, overflows_neg_iff hn, bits_eq_intMin hn]
  rw [hvalue]
  rfl

/-- The arguments of an application of one argument. -/
theorem eval_ref₁ {t : Term} (hcov : st.Covers t) (hwt : t.WellTyped) (htype : t.typeOf = ty) :
    [st.ref t].map env.eval = [st.typed (ty, t.meaning members I)].map some := by
  rw [List.map_singleton, h.eval_ref hcov hwt, htype]
  rfl

omit h in
theorem appForm_selector {t : Term} {k j : ℕ} {sel : String}
    (hplace : op.place? t.typeOf = some (k, j)) (hsel : st.selector? op t.typeOf = some sel) :
    st.appForm op [t] args = .list (sym sel :: args) := by
  cases op with
  | optionGet => cases hty : t.typeOf <;> rw [hty] at hsel <;> cases hsel; rfl
  | recordGet a =>
    cases hty : t.typeOf with
    | record rty =>
      rw [hty] at hplace hsel
      obtain ⟨i, hi, _⟩ := Option.map_eq_some_iff.mp hplace
      rw [EncoderState.selector?, hi] at hsel
      cases hsel
      simp only [EncoderState.appForm, List.headD_cons, hty, hi, Option.getD_some]
    | _ =>
      rw [hty] at hsel
      cases hsel
  | ext xop =>
    cases hty : t.typeOf with
    | prim pty =>
      rw [hty] at hplace hsel
      cases pty with
      | ext xty =>
        cases hsel
        cases xop <;> first | rfl | cases hplace
      | _ => cases hsel
    | _ =>
      rw [hty] at hsel
      cases hsel
  | _ => cases hplace

/-- An application that takes its argument apart. -/
theorem eval_appSelector {t : Term} {k j : ℕ} (hagree : Agrees M I st)
    (hplace : op.place? t.typeOf = some (k, j)) (hop : op.WellTyped [t.typeOf] ty)
    (hcov : st.Covers t) (hwt : t.WellTyped) :
    env.eval (st.appForm op [t] [st.ref t]) =
      some (st.srt ty, I.op op [(t.typeOf, t.meaning members I)]) := by
  have hargs := h.eval_ref₁ hcov hwt rfl
  obtain ⟨sel, hsel, heval⟩ := h.eval_selector hagree hplace hop (h.inv.coversType hcov) hargs
  rw [appForm_selector hplace hsel, heval]

theorem eval_appTheory {ts : List Term} (hop : op.WellTyped (ts.map Term.typeOf) ty)
    (htheory : op.isTheory) (hcov : ∀ t ∈ ts, st.Covers t) (hwt : ∀ t ∈ ts, t.WellTyped) :
    env.eval (st.appForm op ts (ts.map st.ref)) =
      some (st.srt ty, I.op op (ts.map fun t => (t.typeOf, t.meaning members I))) := by
  have hargs : (ts.map st.ref).map env.eval =
      ((ts.map fun t => (t.typeOf, t.meaning members I)).map st.typed).map some := by
    rw [h.eval_refs hcov hwt]
    simp only [List.map_map]
    rfl
  have hop' : op.WellTyped ((ts.map fun t => (t.typeOf, t.meaning members I)).map Prod.fst) ty := by
    rw [List.map_map]
    exact hop
  have heval := eval_theoryOp (I := I) hargs hop' htheory
  have hform : st.appForm op ts (ts.map st.ref) = .list (opSym op :: ts.map st.ref) := by
    cases op <;> first | rfl | cases htheory
  rw [hform, heval]

theorem eval_appExt {xop : ExtOp} {t : Term} (hagree : Agrees M I st)
    (hop : xop.WellTyped [t.typeOf] ty) (hcov : st.Covers t) (hwt : t.WellTyped)
    (hty : st.CoversType ty) :
    env.eval (st.appForm (.ext xop) [t] [st.ref t]) =
      some (st.srt ty, I.op (.ext xop) [(t.typeOf, t.meaning members I)]) := by
  have hcovType := h.inv.coversType hcov
  cases hplace : (Op.ext xop).place? t.typeOf with
  | some place =>
    obtain ⟨k, j⟩ := place
    exact h.eval_appSelector hagree hplace (.ext hop) hcov hwt
  | none =>
    generalize htys : [t.typeOf] = tys at hop
    cases hop with
    | ipaddrIsV4 =>
      have htype := (List.cons.inj htys).1
      rw [htype] at hcovType ⊢
      exact h.eval_isV4 hcovType (h.eval_ref₁ hcov hwt htype)
    | datetimeOfBitVec =>
      have htype := (List.cons.inj htys).1
      rw [htype]
      exact h.eval_ofBitVec (.inl rfl) hty rfl rfl (by simp [Plain]) (h.eval_ref₁ hcov hwt htype)
    | durationOfBitVec =>
      have htype := (List.cons.inj htys).1
      rw [htype]
      exact h.eval_ofBitVec (.inr rfl) hty rfl rfl (by simp [Plain]) (h.eval_ref₁ hcov hwt htype)
    | _ =>
      rw [(List.cons.inj htys).1] at hplace
      cases hplace

/-- An application evaluates to what its operator gives for the meanings of its arguments. -/
theorem eval_app {ts : List Term} (hagree : Agrees M I st)
    (hop : op.WellTyped (ts.map Term.typeOf) ty) (hne : op ≠ .bvnego) (hready : st.OpReady ts op)
    (hcov : ∀ t ∈ ts, st.Covers t) (hwt : ∀ t ∈ ts, t.WellTyped) (hty : st.CoversType ty) :
    env.eval (st.appForm op ts (ts.map st.ref)) =
      some (st.srt ty, I.op op (ts.map fun t => (t.typeOf, t.meaning members I))) := by
  cases htheory : op.isTheory with
  | true => exact h.eval_appTheory hop htheory hcov hwt
  | false =>
    generalize htys : ts.map Term.typeOf = tys at hop
    have hone : ∀ arg, tys = [arg] → ∃ t, ts = [t] ∧ t.typeOf = arg := by
      intro arg harg
      rw [harg] at htys
      exact List.map_eq_singleton_iff.mp htys
    cases hop with
    | @uuf f arg out =>
      obtain ⟨t, rfl, htype⟩ := hone _ rfl
      have hargs := h.eval_ref₁ (hcov t (by simp)) (hwt t (by simp)) htype
      rw [List.map_singleton, List.map_singleton, htype]
      exact h.eval_uuf hagree hready hargs
    | zeroExtend i n =>
      obtain ⟨t, rfl, htype⟩ := hone _ rfl
      have hargs := h.eval_ref₁ (hcov t (by simp)) (hwt t (by simp)) htype
      rw [List.map_singleton, List.map_singleton, htype]
      exact eval_zeroExtend hargs
    | optionGet ty =>
      obtain ⟨t, rfl, htype⟩ := hone _ rfl
      exact h.eval_appSelector hagree (k := 1) (j := 0) (by rw [htype]; rfl)
        (by rw [htype]; exact .optionGet ty) (hcov t (by simp)) (hwt t (by simp))
    | @recordGet a rty ty hfind =>
      obtain ⟨t, rfl, htype⟩ := hone _ rfl
      obtain ⟨rty', i, htype', hi⟩ := hready
      rw [List.headD_cons, htype, TermType.record.injEq] at htype'
      subst htype'
      exact h.eval_appSelector hagree (k := 0) (j := i) (by rw [htype, Op.place?, hi]; rfl)
        (by rw [htype]; exact .recordGet hfind) (hcov t (by simp)) (hwt t (by simp))
    | stringLike p =>
      obtain ⟨t, rfl, htype⟩ := hone _ rfl
      have href := h.eval_ref (hcov t (by simp)) (hwt t (by simp))
      rw [htype] at href
      rw [List.map_singleton, List.map_singleton, htype]
      exact eval_stringLike hready href
    | @ext xop tys ty hext =>
      have hlen : ∃ arg, tys = [arg] := by
        cases hext <;> exact ⟨_, rfl⟩
      obtain ⟨arg, harg⟩ := hlen
      obtain ⟨t, rfl, htype⟩ := hone arg harg
      rw [harg, ← htype] at hext
      exact h.eval_appExt hagree hext (hcov t (by simp)) (hwt t (by simp)) hty
    | bvnego n => exact (hne rfl).elim
    | bvBinary n hf => cases op <;> cases hf <;> cases htheory
    | bvTest n hf => cases op <;> cases hf <;> cases htheory
    | _ => cases htheory

/-- The body that defines a term evaluates to its meaning. -/
theorem eval_body {t : Term} (hagree : Agrees M I st) (hentered : inlined? t = none)
    (hready : st.Ready t) (hwt : t.WellTyped) (hty : st.CoversType t.typeOf) :
    env.eval (st.body t) = some (st.srt t.typeOf, t.meaning members I) := by
  obtain ⟨hcov, hready⟩ := hready
  cases hwt with
  | @prim p hwf =>
    cases p with
    | entity uid => exact h.eval_entity hty hready.1 hready.2
    | ext x => exact h.eval_ext hty
    | _ => cases hentered
  | var hwf => exact hready.elim
  | none hwf => exact h.eval_none (h.sort? hty (.option hwf))
  | @some t hwt => exact h.eval_some (h.eval_ref (hcov t (by simp [Term.children])) hwt)
  | set hwts htype hwf => exact h.eval_set hcov hwts htype hty hwf
  | record hwts => exact h.eval_record hcov hwts hty
  | @app op ts ty hwts hop =>
    have hmeaning : (Term.app op ts ty).meaning members I =
        I.op op (ts.map fun t => (t.typeOf, t.meaning members I)) := by
      rw [Term.meaning, meanings_eq_map, List.zip_map']
    rw [hmeaning]
    by_cases hne : op = .bvnego
    · subst hne
      obtain ⟨t, n, rfl, rfl, htype⟩ := bvnego_inv hop
      have hwt := hwts t (by simp)
      have hwf := hwt.typeOf
      rw [htype] at hwf
      cases hwf with
      | bitvec hn =>
        rw [body_bvnego htype, List.map_singleton, htype]
        exact h.eval_bvnego hn (hcov t (by simp [Term.children])) hwt htype
    · rw [body_app fun _ hop _ _ => hne hop]
      exact h.eval_app hagree hop hne hready hcov hwts hty

end Denotes

end CedarSpec.SymCC
