import CedarSpec.EncoderNames

/-! What the references and bodies of the script evaluate to: the meanings of the terms that
they stand for. -/

namespace CedarSpec.SymCC

open SmtLib Encoder

variable {members : EntityType → Option (List String)} {I : Interpretation} {M : Model}
  {st st' : EncoderState} {env env' : Env}

/-! ## Literals -/

theorem unescapeFrom_escapeChar {c : Char} (h : c.toNat ≤ smtLibMaxCodePoint)
    (rest : List Char) :
    unescapeFrom 0 (escapeChar c ++ rest) =
      (unescapeFrom 0 rest).map (Fin.ofNat 196608 c.toNat :: ·) := by
  have hlt : c.toNat < 196608 := Nat.lt_succ_of_le h
  unfold escapeChar
  split
  · rename_i hc
    subst hc
    have hbraces := unescapeFrom_braces (n := 92) (by omega) rest
    have hdigits : Nat.toDigits 16 92 = ['5', 'c'] := rfl
    simpa [hdigits] using hbraces
  · rename_i hc
    split
    · exact unescapeFrom_plain hc hlt rest
    · have hbraces := unescapeFrom_braces hlt rest
      simpa using hbraces

/-- The escapes of a text are read as the text. -/
theorem unescape_escape {s : List Char} (h : ∀ c ∈ s, c.toNat ≤ smtLibMaxCodePoint) :
    unescape (escape s) = some (codes s) := by
  unfold unescape escape codes
  induction s with
  | nil => rfl
  | cons c s ih =>
    obtain ⟨hc, hs⟩ := List.forall_mem_cons.mp h
    rw [List.flatMap_cons, unescapeFrom_escapeChar hc, ih hs, Option.map_some, List.map_cons]

theorem eval_stringLit {s : String} (h : Representable s) :
    env.eval (stringLit s) = some (.string, .str (codes s.toList)) := by
  rw [stringLit, Env.eval, unescape_escape h, Option.map_some]

theorem eval_bitVecLit {n : ℕ} (hn : 0 < n) (bv : BitVec n) :
    env.eval (bitVecLit bv) = some (.bitvec n, .bitvec n bv) := by
  have hform : env.eval (bitVecLit bv) =
      Env.bvLiteral [.atom ('b' :: 'v' :: Nat.toDigits 10 bv.toNat), numeral n] := by
    rw [bitVecLit, sym, Env.eval, Env.evals, Env.form, if_pos rfl]
  rw [hform, numeral, Env.bvLiteral, numeral?_toDigits, Option.bind_some, numeral?_toDigits,
    Option.bind_some, if_pos hn, BitVec.ofNat_toNat, BitVec.setWidth_eq]

/-! ## Compound terms -/

/-- A symbol that does not begin a form of its own. -/
def Plain (name : List Char) : Prop :=
  name ≠ "_".toList ∧ name ≠ "as".toList ∧ name ≠ "str.in_re".toList

theorem plain_of_head {c : Char} {rest : List Char} (h : c ∉ ['_', 'a', 's']) :
    Plain (c :: rest) := by
  simp only [List.mem_cons, List.not_mem_nil, or_false, not_or] at h
  obtain ⟨h₁, h₂, h₃⟩ := h
  refine ⟨?_, ?_, ?_⟩ <;>
  · intro heq
    simp_all

theorem eval_plain {name : List Char} (h : Plain name) {args : List SExp}
    {vs : List TypedValue} (hargs : args.map env.eval = vs.map some) :
    env.eval (.list (.atom name :: args)) = env.apply name vs := by
  obtain ⟨h₁, h₂, h₃⟩ := h
  rw [Env.eval, Env.evals_eq_map, List.map_cons, Env.form, if_neg h₁, if_neg h₂, if_neg h₃, hargs,
    SmtLib.mapM_id_map_some, Option.bind_some]

theorem bvnego_inv {ts : List Term} {ty : TermType}
    (hop : Op.bvnego.WellTyped (ts.map Term.typeOf) ty) :
    ∃ t n, ts = [t] ∧ ty = .bool ∧ t.typeOf = .bitvec n := by
  generalize htys : ts.map Term.typeOf = tys at hop
  cases hop with
  | bvnego n =>
    obtain ⟨t, rfl, htype⟩ := List.map_eq_singleton_iff.mp htys
    exact ⟨t, n, rfl, rfl, htype⟩
  | bvBinary n hf => cases hf
  | bvTest n hf => cases hf

/-! ## Environments that hold what the tables hold -/

/-- The selector that an operator is encoded as. -/
def EncoderState.selector? (st : EncoderState) : Op → TermType → Option String
  | .optionGet, .option _ => some "val"
  | .recordGet a, .record rty =>
    (rty.findIdx? (·.1 = a)).map (recordAttrId (st.typeId (.record rty)))
  | .ext xop, .prim (.ext _) => some (encodeExtOp xop)
  | _, _ => none

/-- The model gives the declared symbols the values that the interpretation gives to the
variables, functions and operators they stand for. -/
structure Agrees (M : Model) (I : Interpretation) (st : EncoderState) : Prop where
  var : ∀ v id, st.terms.lookup (.var v) = some id → M.fn id.toList [] = I.vars v
  uuf : ∀ f id, st.uufs.lookup f = some id → ∀ v, M.fn id.toList [v] = I.funs f v
  sel : ∀ op ty sel, (op.place? ty).isSome → st.selector? op ty = some sel →
    st.CoversType ty → ∀ v, M.sel sel.toList (st.srt ty) v = I.partials op ty v

def EncoderState.signature (st : EncoderState) (f : UUF) (id : String) : Signature :=
  ⟨id.toList, [st.srt f.arg], st.srt f.out⟩

def EncoderState.constant (st : EncoderState) (t : Term) (id : String) : Signature :=
  ⟨id.toList, [], st.srt t.typeOf⟩

/-- A function that is declared for a function or a variable in the tables. -/
def EncoderState.Declares (st : EncoderState) (f : Signature) : Prop :=
  (∃ g id, st.uufs.lookup g = some id ∧ f = st.signature g id) ∨
    ∃ v id, st.terms.lookup (.var v) = some id ∧ f = st.constant (.var v) id

/-- A datatype that is declared for a type in the table. -/
def EncoderState.DeclaresSort (st : EncoderState) (d : Datatype) : Prop :=
  ∃ ty id, st.types.lookup ty = some id ∧ d = st.datatypeOf id ty

/-- The environment has an entry for whatever is in the tables, and no other names. -/
structure Denotes (members : EntityType → Option (List String)) (I : Interpretation) (M : Model)
    (st : EncoderState) (env : Env) : Prop where
  inv : Inv st
  enums : ∀ ety, st.enums.lookup ety = members ety
  coherent : env.Coherent M
  option : optionDatatype ∈ env.datatypes
  type : ∀ ty id, st.types.lookup ty = some id → st.datatypeOf id ty ∈ env.datatypes
  uuf : ∀ f id, st.uufs.lookup f = some id →
    (st.signature f id).entry (M.fn id.toList) ∈ env.entries
  term : ∀ t id, st.terms.lookup t = some id →
    (st.constant t id).entry (fun _ => t.meaning members I) ∈ env.entries ∨ st.IsMember t id
  known : ∀ e ∈ env.entries, st.Known e.name
  eid : ∀ e ∈ env.entries, e.name = "eid".toList → e.selects.isSome
  functions : ∀ f, f ∈ env.functions ↔ st.Declares f
  datatypes : ∀ d ∈ env.datatypes, d = optionDatatype ∨ st.DeclaresSort d

namespace Denotes

variable (h : Denotes members I M st env)

include h

theorem knownSort {d : Datatype} (hd : d ∈ env.datatypes) : st.Known d.name := by
  cases h.datatypes d hd with
  | inl heq =>
    rw [heq]
    exact known_of_head (by decide)
  | inr hd =>
    obtain ⟨ty, id, hid, rfl⟩ := hd
    have hmem : ty ∈ st.types := AList.lookup_isSome.mp (by rw [hid]; rfl)
    exact known_datatypeOf (h.inv.type ty id hid) hmem (.inl rfl)

/-- What is known about a type in the table. -/
theorem data {ty : TermType} (hty : ty ∈ st.types) :
    ∃ id, st.types.lookup ty = some id ∧ st.TypeEntry ty id ∧ st.srt ty = .data id.toList ∧
      st.sortOf ty = sym id ∧ st.typeId ty = id ∧ st.datatypeOf id ty ∈ env.datatypes := by
  obtain ⟨id, hid⟩ := Option.isSome_iff_exists.mp (AList.lookup_isSome.mpr hty)
  have hentry := h.inv.type ty id hid
  have htypeId : st.typeId ty = id := by rw [EncoderState.typeId, hid, Option.getD_some]
  have hsort := (sortOf_of_lookup h.inv hid).2
  have hsrt : st.srt ty = .data id.toList := by
    cases ty with
    | prim pty =>
      cases pty with
      | entity ety => rw [EncoderState.srt, htypeId]
      | ext xty => rw [EncoderState.srt, htypeId]
      | _ => exact hentry.elim
    | record rty => rw [EncoderState.srt, htypeId]
    | _ => exact hentry.elim
  exact ⟨id, hid, hentry, hsrt, hsort, htypeId, h.type ty id hid⟩

theorem sort?_data {ty : TermType} (hty : ty ∈ st.types) :
    env.sort? none (st.sortOf ty) = some (st.srt ty) := by
  obtain ⟨id, _, hentry, hsrt, hsort, _, hmem⟩ := h.data hty
  obtain ⟨hname, hpar⟩ := name_datatypeOf hentry
  rw [hsort, hsrt, sym, ← hname]
  exact h.coherent.sort?_data hmem hpar

theorem sort? {ty : TermType} (hty : st.CoversType ty) (hwf : ty.WellFormed) :
    env.sort? none (st.sortOf ty) = some (st.srt ty) := by
  induction ty using TermType.induct with
  | prim pty =>
    cases pty with
    | bool => rfl
    | string => rfl
    | bitvec n =>
      cases hwf with
      | bitvec hn =>
        have hnum : env.sort? none (bitVecSort n) =
            (numeral? (Nat.toDigits 10 n)).bind fun n =>
              if 0 < n then some (.bitvec n) else none := by
          rw [bitVecSort, sym, sym, numeral, Env.sort?]
          exact if_pos ⟨rfl, rfl⟩
        rw [EncoderState.sortOf, hnum, numeral?_toDigits, Option.bind_some, if_pos hn,
          EncoderState.srt]
    | entity ety => exact h.sort?_data hty
    | ext xty => exact h.sort?_data hty
  | option ty ih =>
    cases hwf with
    | option hwf =>
      have hd := h.coherent.datatype?_eq h.option
      rw [EncoderState.sortOf, sym, Env.sort?, ih hty hwf, Option.bind_some, if_neg (by decide)]
      · change (env.datatype? optionDatatype.name).bind _ = _
        rw [hd]
        rfl
  | set ty ih =>
    cases hwf with
    | set hwf =>
      rw [EncoderState.sortOf, sym, Env.sort?, ih hty hwf, Option.bind_some, if_pos rfl]
      rfl
  | record rty ih => exact h.sort?_data hty

theorem apply_constant {t : Term} {id : String}
    (hentry : (st.constant t id).entry (fun _ => t.meaning members I) ∈ env.entries) :
    env.apply id.toList [] = some (st.srt t.typeOf, t.meaning members I) :=
  h.coherent.apply_eq hentry (by simp [Signature.entry, EncoderState.constant])

/-- A member of an enumerated entity type is a constructor. -/
theorem apply_member {t : Term} {id : String} (hmember : st.IsMember t id)
    (hcov : st.CoversType t.typeOf) :
    env.apply id.toList [] = some (st.srt t.typeOf, t.meaning members I) := by
  obtain ⟨e, ms, i, rfl, hms, hi, rfl⟩ := hmember
  obtain ⟨tyId, _, hentry, hsrt, _, htypeId, hmem⟩ := h.data hcov
  rw [EncoderState.datatypeOf, hms, entityDatatype] at hmem
  obtain ⟨hlt, _⟩ := List.idxOf?_eq_some_iff.mp hi
  have hc : (memberConstructors tyId ms)[i]? = some ⟨(enumId tyId i).toList, []⟩ := by
    rw [memberConstructors, List.getElem?_mapIdx, List.getElem?_eq_getElem hlt, Option.map_some]
  have harg : (entityDatatype tyId (some ms)).inferArg ⟨(enumId tyId i).toList, []⟩
      (([] : List TypedValue).map Prod.fst) = some .param := rfl
  have hcon := h.coherent.construct hmem hc harg rfl
  have hidx : ms.idxOf e.eid = i := by
    rw [List.idxOf_eq_getD_idxOf?, hi, Option.getD_some]
  have hvalue : entityValue members e = .con i [] := by
    simp only [entityValue, ← h.enums, hms, hidx]
  rw [htypeId, hcon, Term.typeOf, TermPrim.typeOf, hsrt, Term.meaning, hvalue]
  rfl

/-- What stands for a term evaluates to its meaning. -/
theorem eval_ref {t : Term} (ht : st.Covers t) (hwt : t.WellTyped) :
    env.eval (st.ref t) = some (st.srt t.typeOf, t.meaning members I) := by
  cases ht with
  | inl ht =>
    obtain ⟨hinlined, hrep⟩ := ht
    cases hwt with
    | @prim p hwf =>
      cases p with
      | bool b => cases b <;> rfl
      | bitvec bv =>
        cases hwf with
        | bitvec hn => exact eval_bitVecLit hn bv
      | string s => exact eval_stringLit (hrep s rfl)
      | entity uid => cases hinlined
      | ext x => cases hinlined
    | @app op ts ty hts hop =>
      unfold inlined? at hinlined
      split at hinlined
      all_goals try contradiction
      rename_i t heq
      cases heq
      obtain ⟨t', n, heq, _, htype⟩ := bvnego_inv hop
      cases heq
      rw [htype] at hinlined
      cases hinlined
    | _ => cases hinlined
  | inr ht =>
    obtain ⟨id, hid⟩ := Option.isSome_iff_exists.mp (AList.lookup_isSome.mpr ht)
    rw [(ref_of_lookup h.inv hid).2, sym, Env.eval]
    cases h.term t id hid with
    | inl hentry => exact h.apply_constant hentry
    | inr hmember => exact h.apply_member hmember (h.inv.term t id hid).2.1

end Denotes

end CedarSpec.SymCC
