import CedarSpec.EncoderMeaning

/-! The bodies by which terms are defined, case by case. -/

namespace CedarSpec.SymCC

open SmtLib Encoder

variable {members : EntityType → Option (List String)} {I : Interpretation} {M : Model}
  {st st' : EncoderState} {env env' : Env}

/-! ## Functions of the theories -/

theorem eval_theory {name : List Char} {f : TheoryFun} (hplain : Plain name)
    (hf : theoryFun name = some f) {args : List SExp} {vs : List TypedValue}
    (hargs : args.map env.eval = vs.map some) :
    env.eval (.list (.atom name :: args)) = f vs := by
  rw [eval_plain hplain hargs, Env.apply, hf]

/-- How an operator is encoded that is a function of a theory. -/
structure EncodedAs (op : Op) (name : List Char) (f : TheoryFun) : Prop where
  symbol : opSym op = .atom name
  plain : Plain name
  theory : theoryFun name = some f

theorem eval_encodedAs {op : Op} {name : List Char} {f : TheoryFun} (h : EncodedAs op name f)
    {args : List SExp} {vs : List TypedValue} (hargs : args.map env.eval = vs.map some) :
    env.eval (.list (opSym op :: args)) = f vs := by
  rw [h.symbol, eval_theory h.plain h.theory hargs]

theorem encodedAs_not : EncodedAs .not "not".toList boolNot := ⟨rfl, by simp [Plain], rfl⟩
theorem encodedAs_and : EncodedAs .and "and".toList (boolBinary and) :=
  ⟨rfl, by simp [Plain], rfl⟩
theorem encodedAs_or : EncodedAs .or "or".toList (boolBinary or) := ⟨rfl, by simp [Plain], rfl⟩
theorem encodedAs_eq : EncodedAs .eq "=".toList equal := ⟨rfl, by simp [Plain], rfl⟩
theorem encodedAs_ite : EncodedAs .ite "ite".toList ifThenElse := ⟨rfl, by simp [Plain], rfl⟩
theorem encodedAs_bvneg : EncodedAs .bvneg "bvneg".toList (bvUnary fun _ => BitVec.neg) :=
  ⟨rfl, by simp [Plain], rfl⟩
theorem encodedAs_setMember : EncodedAs .setMember "set.member".toList setMember :=
  ⟨rfl, by simp [Plain], rfl⟩
theorem encodedAs_setSubset : EncodedAs .setSubset "set.subset".toList setSubset :=
  ⟨rfl, by simp [Plain], rfl⟩
theorem encodedAs_setInter : EncodedAs .setInter "set.inter".toList setInter :=
  ⟨rfl, by simp [Plain], rfl⟩

theorem encodedAs_bvBinary {op : Op} {f : ∀ n, BitVec n → BitVec n → BitVec n}
    (h : op.bvBinary? = some f) : ∃ name, EncodedAs op name (bvBinary f) := by
  cases op <;> cases h <;> exact ⟨_, rfl, by simp [Plain, encodeOp, Op.mkName], rfl⟩

theorem saddOverflow_eq {n : ℕ} (x y : BitVec n) :
    BitVec.saddOverflow x y = BitVec.overflows n (x.toInt + y.toInt) := by
  rw [BitVec.saddOverflow, BitVec.overflows, BitVec.signedMin, BitVec.signedMax, Bool.or_comm]
  congr 1
  apply decide_eq_decide.mpr
  omega

theorem ssubOverflow_eq {n : ℕ} (x y : BitVec n) :
    BitVec.ssubOverflow x y = BitVec.overflows n (x.toInt - y.toInt) := by
  rw [BitVec.ssubOverflow, BitVec.overflows, BitVec.signedMin, BitVec.signedMax, Bool.or_comm]
  congr 1
  apply decide_eq_decide.mpr
  omega

theorem smulOverflow_eq {n : ℕ} (x y : BitVec n) :
    BitVec.smulOverflow x y = BitVec.overflows n (x.toInt * y.toInt) := by
  rw [BitVec.smulOverflow, BitVec.overflows, BitVec.signedMin, BitVec.signedMax, Bool.or_comm]
  congr 1
  apply decide_eq_decide.mpr
  omega

theorem encodedAs_bvTest {op : Op} {f : ∀ n, BitVec n → BitVec n → Bool}
    (h : op.bvTest? = some f) : ∃ name, EncodedAs op name (bvTest f) := by
  have hadd : (fun n => BitVec.saddOverflow (w := n)) =
      fun n x y => BitVec.overflows n (x.toInt + y.toInt) := by
    funext n x y
    exact saddOverflow_eq x y
  have hsub : (fun n => BitVec.ssubOverflow (w := n)) =
      fun n x y => BitVec.overflows n (x.toInt - y.toInt) := by
    funext n x y
    exact ssubOverflow_eq x y
  have hmul : (fun n => BitVec.smulOverflow (w := n)) =
      fun n x y => BitVec.overflows n (x.toInt * y.toInt) := by
    funext n x y
    exact smulOverflow_eq x y
  cases op <;> cases h
  · exact ⟨_, rfl, by simp [Plain, encodeOp, Op.mkName], rfl⟩
  · exact ⟨_, rfl, by simp [Plain, encodeOp, Op.mkName], rfl⟩
  · exact ⟨_, rfl, by simp [Plain, encodeOp, Op.mkName], rfl⟩
  · exact ⟨_, rfl, by simp [Plain, encodeOp, Op.mkName], rfl⟩
  · exact ⟨_, rfl, by simp [Plain, encodeOp, Op.mkName], by rw [← hadd]; rfl⟩
  · exact ⟨_, rfl, by simp [Plain, encodeOp, Op.mkName], by rw [← hsub]; rfl⟩
  · exact ⟨_, rfl, by simp [Plain, encodeOp, Op.mkName], by rw [← hmul]; rfl⟩

/-- The negation of a bit vector overflows for the least number only. -/
theorem overflows_neg_iff {n : ℕ} (hn : 0 < n) (x : BitVec n) :
    BitVec.overflows n (-x.toInt) ↔ x = BitVec.intMin n := by
  have hlow := BitVec.le_two_mul_toInt (x := x)
  have hhigh := BitVec.two_mul_toInt_lt (x := x)
  have hpow : (2 : ℤ) ^ n = 2 * 2 ^ (n - 1) := by
    rw [← pow_succ', Nat.sub_add_cancel hn]
  have hmin := BitVec.toInt_intMin_of_pos hn
  rw [BitVec.overflows, BitVec.signedMin, BitVec.signedMax, Bool.or_eq_true, decide_eq_true_iff,
    decide_eq_true_iff]
  constructor
  · intro h
    apply BitVec.eq_of_toInt_eq
    omega
  · intro h
    rw [h, hmin]
    omega

/-! ## Constructors -/

theorem plain_typeId {ty : TermType} {id : String} (hentry : st.TypeEntry ty id)
    (hext : ∀ xty, ty ≠ .ext xty) : Plain id.toList := by
  cases ty with
  | prim pty =>
    cases pty with
    | entity ety =>
      obtain ⟨n, _, rfl⟩ := hentry
      rw [toList_entityTypeId]
      exact plain_of_head (by decide)
    | ext xty => exact (hext xty rfl).elim
    | _ => exact hentry.elim
  | record rty =>
    obtain ⟨⟨n, _, rfl⟩, _⟩ := hentry
    rw [toList_recordTypeId]
    exact plain_of_head (by decide)
  | _ => exact hentry.elim

theorem sorts_fieldsOf (id : String) (rty : List (String × TermType)) (arg : Srt) :
    Constructor.sorts ⟨id.toList, st.fieldsOf id rty⟩ arg = rty.map fun field => st.srt field.2 :=
  map_mapIdx_const rty fun _ field => inst_srt arg field.2

namespace Denotes

variable (h : Denotes members I M st env)

include h

theorem eval_none {e : SExp} {s : Srt} (he : env.sort? none e = some (.dataOf "Option".toList s)) :
    env.eval (.list [sym "as", sym "none", e]) = some (.dataOf "Option".toList s, .con 0 []) := by
  have hascribed : env.ascribe "none".toList (.dataOf "Option".toList s) = some (.con 0 []) :=
    h.coherent.ascribe_constructor (d := optionDatatype) (c := ⟨"none".toList, []⟩) h.option rfl
      rfl rfl
  have hform : env.eval (.list [sym "as", sym "none", e]) =
      env.ascribed [sym "none", e] := by
    rw [sym, sym, Env.eval, Env.evals, Env.form, if_neg (by simp), if_pos rfl]
  rw [hform, sym, Env.ascribed, he, Option.bind_some, if_neg (by simp), hascribed]
  rfl

theorem eval_some {e : SExp} {s : Srt} {v : Value} (he : env.eval e = some (s, v)) :
    env.eval (.list [sym "some", e]) = some (.dataOf "Option".toList s, .con 1 [v]) := by
  have hargs : [e].map env.eval = [(s, v)].map some := by rw [List.map_singleton, he]; rfl
  rw [sym, eval_plain (by simp [Plain]) hargs]
  exact h.coherent.construct (d := optionDatatype) (c := ⟨"some".toList, [("val".toList, .param)]⟩)
    h.option rfl rfl rfl

theorem eval_emptySet {ty : TermType} (hty : st.CoversType (.set ty)) (hwf : ty.WellFormed) :
    env.eval (.list [sym "as", sym "set.empty", st.sortOf (.set ty)]) =
      some (.set (st.srt ty), .ofFinset ∅) := by
  have hform : env.eval (.list [sym "as", sym "set.empty", st.sortOf (.set ty)]) =
      env.ascribed [sym "set.empty", st.sortOf (.set ty)] := by
    rw [sym, sym, Env.eval, Env.evals, Env.form, if_neg (by simp), if_pos rfl]
  rw [hform, sym, Env.ascribed, h.sort? hty (.set hwf), Option.bind_some, if_pos rfl,
    Value.ofFinset_empty]
  rfl

/-- The constructor of a datatype without a parameter. -/
theorem eval_construct {d : Datatype} {k : ℕ} {c : Constructor} (hd : d ∈ env.datatypes)
    (hpar : d.parametric = false) (hc : d.constructors[k]? = some c) (hplain : Plain c.name)
    {args : List SExp} {vs : List TypedValue} (hargs : args.map env.eval = vs.map some)
    (hsorts : vs.map Prod.fst = c.sorts .param) :
    env.eval (.list (.atom c.name :: args)) =
      some (.data d.name, .con k (vs.map Prod.snd)) := by
  have hinfer : d.inferArg c (vs.map Prod.fst) = some .param := by
    rw [Datatype.inferArg, hpar]
    rfl
  have hsort : d.sort .param = .data d.name := by
    rw [Datatype.sort, hpar]
    rfl
  rw [eval_plain hplain hargs, h.coherent.construct hd hc hinfer hsorts, hsort]

theorem eval_prefix {w : ℕ} (hw : 0 < w) (p : Extension.IPNetPrefix w) :
    env.eval (prefixLit p) = some (.dataOf "Option".toList (.bitvec w), prefixValue p) := by
  cases p with
  | none =>
    have hcov : st.CoversType (.option (.bitvec w)) := trivial
    exact h.eval_none (h.sort? hcov (.option (.bitvec hw)))
  | some p => exact h.eval_some (eval_bitVecLit hw p)

theorem ext_mem {xty : ExtType} (hty : TermType.ext xty ∈ st.types) :
    extDatatype xty ∈ env.datatypes ∧ st.srt (.ext xty) = .data (extDatatype xty).name := by
  obtain ⟨id, _, hentry, hsrt, _, _, hmem⟩ := h.data hty
  obtain ⟨hname, _⟩ := name_datatypeOf hentry
  refine ⟨hmem, ?_⟩
  rw [hsrt, ← hname]
  rfl

theorem eval_wrapper {xty : ExtType} {name sel : String} (hty : TermType.ext xty ∈ st.types)
    (hd : extDatatype xty = wrapper name sel) (hplain : Plain name.toList) (x : BitVec 64) :
    env.eval (.list [sym name, bitVecLit x]) =
      some (st.srt (.ext xty), .con 0 [.bitvec 64 x]) := by
  obtain ⟨hmem, hsrt⟩ := h.ext_mem hty
  rw [hd] at hmem hsrt
  have hargs : [bitVecLit x].map env.eval = [(Srt.bitvec 64, Value.bitvec 64 x)].map some := by
    rw [List.map_singleton, eval_bitVecLit (by omega)]
    rfl
  rw [hsrt]
  exact h.eval_construct hmem rfl (c := ⟨name.toList, [(sel.toList, .bitvec 64)]⟩) rfl hplain hargs
    rfl

theorem eval_ext {x : Extension.Ext} (hty : st.CoversType (Term.ext x).typeOf) :
    env.eval (extLit x) = some (st.srt (Term.ext x).typeOf, extValue x) := by
  cases x with
  | decimal d => exact h.eval_wrapper hty rfl (by simp [Plain]) _
  | datetime dt => exact h.eval_wrapper hty rfl (by simp [Plain]) _
  | duration d => exact h.eval_wrapper hty rfl (by simp [Plain]) _
  | ipaddr ip =>
    obtain ⟨hmem, hsrt⟩ := h.ext_mem hty
    rw [Term.typeOf, TermPrim.typeOf, hsrt]
    cases ip with
    | V4 cidr =>
      obtain ⟨addrV4, preV4⟩ := cidr
      have hargs : [bitVecLit addrV4, prefixLit preV4].map env.eval =
          [(Srt.bitvec 32, Value.bitvec 32 addrV4),
            (.dataOf "Option".toList (.bitvec 5), prefixValue preV4)].map some := by
        rw [List.map_cons, List.map_singleton, eval_bitVecLit (by decide),
          h.eval_prefix (by decide)]
        rfl
      exact h.eval_construct hmem rfl (k := 0) (c := ⟨"V4".toList, _⟩) rfl (by simp [Plain]) hargs
        rfl
    | V6 cidr =>
      obtain ⟨addrV6, preV6⟩ := cidr
      have hargs : [bitVecLit addrV6, prefixLit preV6].map env.eval =
          [(Srt.bitvec 128, Value.bitvec 128 addrV6),
            (.dataOf "Option".toList (.bitvec 7), prefixValue preV6)].map some := by
        rw [List.map_cons, List.map_singleton, eval_bitVecLit (by decide),
          h.eval_prefix (by decide)]
        rfl
      exact h.eval_construct hmem rfl (k := 1) (c := ⟨"V6".toList, _⟩) rfl (by simp [Plain]) hargs
        rfl

theorem eval_entity {uid : EntityUID} (hty : st.CoversType (.entity uid.ty))
    (hmembers : st.enums.lookup uid.ty = none) (hrep : Representable uid.eid) :
    env.eval (.list [sym (st.typeId (.entity uid.ty)), stringLit uid.eid]) =
      some (st.srt (.entity uid.ty), entityValue members uid) := by
  obtain ⟨id, _, hentry, hsrt, _, htypeId, hmem⟩ := h.data hty
  rw [EncoderState.datatypeOf, hmembers] at hmem
  have hargs : [stringLit uid.eid].map env.eval =
      [(Srt.string, Value.str (codes uid.eid.toList))].map some := by
    rw [List.map_singleton, eval_stringLit hrep]
    rfl
  have hvalue : entityValue members uid = .con 0 [.str (codes uid.eid.toList)] := by
    simp only [entityValue, ← h.enums, hmembers]
  rw [htypeId, hsrt, hvalue]
  exact h.eval_construct hmem rfl (c := ⟨id.toList, [("eid".toList, .string)]⟩) rfl
    (plain_typeId hentry (by simp)) hargs rfl

/-- The values of terms by their types. -/
theorem eval_refs {ts : List Term} (hcov : ∀ t ∈ ts, st.Covers t) (hwt : ∀ t ∈ ts, t.WellTyped) :
    (ts.map st.ref).map env.eval =
      (ts.map fun t => (st.srt t.typeOf, t.meaning members I)).map some := by
  rw [List.map_map, List.map_map]
  exact List.map_congr_left fun t ht => h.eval_ref (hcov t ht) (hwt t ht)

theorem eval_set {ts : List Term} {ty : TermType} (hcov : ∀ t ∈ ts, st.Covers t)
    (hwt : ∀ t ∈ ts, t.WellTyped) (htype : ∀ t ∈ ts, t.typeOf = ty)
    (hty : st.CoversType (.set ty)) (hwf : ty.WellFormed) :
    env.eval (st.body (.set ts ty)) =
      some (.set (st.srt ty), (Term.set ts ty).meaning members I) := by
  have hempty := h.eval_emptySet hty hwf
  rw [Term.meaning, meanings_eq_map]
  cases ts with
  | nil => exact hempty
  | cons t ts =>
    have hargs : ((t :: ts).map st.ref ++
          [SExp.list [sym "as", sym "set.empty", st.sortOf (.set ty)]]).map env.eval =
        (((t :: ts).map fun t : Term => (st.srt t.typeOf, t.meaning members I)) ++
          [(Srt.set (st.srt ty), Value.ofFinset ∅)]).map some := by
      rw [List.map_append, List.map_append, h.eval_refs hcov hwt, List.map_singleton, hempty]
      rfl
    have hsorts : ∀ w ∈ (t :: ts).map fun t : Term => (st.srt t.typeOf, t.meaning members I),
        w.1 = st.srt ty := by
      intro w hw
      obtain ⟨t', ht', rfl⟩ := List.mem_map.mp hw
      rw [htype t' ht']
    have hplain : Plain "set.insert".toList := by simp [Plain]
    have hinsert := eval_theory hplain rfl hargs
    rw [setInsert_append hsorts, Value.elems_ofFinset, Finset.union_empty, List.map_map] at hinsert
    exact hinsert

theorem eval_record {ats : List (String × Term)} (hcov : ∀ t ∈ ats.map Prod.snd, st.Covers t)
    (hwt : ∀ field ∈ ats, field.2.WellTyped)
    (hty : st.CoversType (.record (fieldTypesOf ats))) :
    env.eval (st.body (.record ats)) =
      some (st.srt (.record (fieldTypesOf ats)), (Term.record ats).meaning members I) := by
  obtain ⟨id, _, hentry, hsrt, hsort, _, hmem⟩ := h.data hty
  have hplain := plain_typeId hentry (by simp)
  have hwts : ∀ t ∈ ats.map Prod.snd, t.WellTyped := by
    intro t ht
    obtain ⟨field, hfield, rfl⟩ := List.mem_map.mp ht
    exact hwt field hfield
  have hvs := h.eval_refs hcov hwts
  rw [Term.meaning, fieldMeanings_eq_map, hsrt]
  cases ats with
  | nil =>
    have harg : (st.datatypeOf id (.record [])).inferArg ⟨id.toList, []⟩
        (([] : List TypedValue).map Prod.fst) = some .param := rfl
    have hcon := h.coherent.construct hmem (k := 0) rfl harg rfl
    rw [EncoderState.body, fieldTypesOf] at *
    rw [hsort, sym, Env.eval, hcon]
    rfl
  | cons field ats =>
    have hargs : ((field :: ats).map fun field => st.ref field.2).map env.eval =
        (((field :: ats).map Prod.snd).map fun t =>
          (st.srt t.typeOf, t.meaning members I)).map some := by
      rw [← hvs]
      simp only [List.map_map]
      rfl
    have hcon := h.eval_construct hmem rfl (k := 0)
      (c := ⟨id.toList, st.fieldsOf id (fieldTypesOf (field :: ats))⟩) rfl hplain hargs (by
        rw [sorts_fieldsOf, fieldTypesOf_eq_map, List.map_map, List.map_map, List.map_map]
        rfl)
    rw [List.map_map, List.map_map] at hcon
    rw [EncoderState.body, hsort]
    · exact hcon
    · simp

end Denotes

end CedarSpec.SymCC
