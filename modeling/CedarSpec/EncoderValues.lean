import CedarSpec.EncoderAccepted

/-! The values of a sort are the values of the type that it encodes. -/

namespace CedarSpec.SymCC

open SmtLib Encoder

variable {members : EntityType → Option (List String)} {I : Interpretation} {M : Model}
  {st : EncoderState} {env : Env}

/-! ## Arguments -/

theorem forall₂_iff_getElem? {α β : Type} {P : α → β → Prop} {l : List α} {l' : List β} :
    List.Forall₂ P l l' ↔
      l'.length = l.length ∧ ∀ (i : ℕ) a b, l[i]? = some a → l'[i]? = some b → P a b := by
  constructor
  · intro h
    refine ⟨h.length_eq.symm, ?_⟩
    induction h with
    | nil =>
      intro i a b ha
      cases ha
    | cons hab _ ih =>
      intro i a b ha hb
      cases i with
      | zero =>
        cases ha
        cases hb
        exact hab
      | succ i => exact ih i a b ha hb
  · rintro ⟨hlen, h⟩
    induction l generalizing l' with
    | nil =>
      rw [List.length_nil, List.length_eq_zero_iff] at hlen
      rw [hlen]
      exact .nil
    | cons a l ih =>
      obtain ⟨b, l', rfl⟩ := List.exists_cons_of_length_eq_add_one hlen
      rw [List.length_cons, List.length_cons, Nat.add_right_cancel_iff] at hlen
      exact .cons (h 0 a b rfl rfl) (ih hlen fun i a b ha hb => h (i + 1) a b ha hb)

theorem hasSort_con {ds : List Datatype} {d : Datatype} {c : Constructor} {k : ℕ} {s arg : Srt}
    {args : List Value} (hd : d ∈ ds) (hs : d.arg? s = some arg)
    (hc : d.constructors[k]? = some c)
    (h : List.Forall₂ (fun field v => HasSort ds (field.2.inst arg) v) c.fields args) :
    HasSort ds s (.con k args) := by
  obtain ⟨hlen, hargs⟩ := forall₂_iff_getElem?.mp h
  exact .con d c hd hs hc hlen hargs

theorem hasType_record {rty : List (String × TermType)} {args : List Value}
    (h : List.Forall₂ (fun field v => HasType members field.2 v) rty args) :
    HasType members (.record rty) (.con 0 args) := by
  obtain ⟨hlen, hargs⟩ := forall₂_iff_getElem?.mp h
  exact .record hlen hargs

theorem getElem?_singleton_eq_some {α : Type} {a b : α} {k : ℕ} (h : [a][k]? = some b) :
    k = 0 ∧ b = a := by
  cases k with
  | zero => exact ⟨rfl, (Option.some.inj h).symm⟩
  | succ k => cases h

/-- The arguments have the types that their sorts encode. -/
def EncoderState.ArgTyped (members : EntityType → Option (List String)) (st : EncoderState)
    (arg : Srt) (field : List Char × Srt) (v : Value) : Prop :=
  ∀ ty, field.2.inst arg = st.srt ty → st.CoversType ty → HasType members ty v

theorem bitvec_of_argTyped {n : ℕ} {arg : Srt} {sel : List Char} {v : Value}
    (h : st.ArgTyped members arg (sel, .bitvec n) v) : ∃ x : BitVec n, v = .bitvec n x := by
  cases h (.bitvec n) rfl trivial with
  | bitvec x => exact ⟨x, rfl⟩

theorem hasType_wrapper {name sel : String} {k : ℕ} {c : Constructor} {arg : Srt}
    {args : List Value} (hc : (wrapper name sel).constructors[k]? = some c)
    (h : List.Forall₂ (st.ArgTyped members arg) c.fields args) :
    ∃ x : BitVec 64, Value.con k args = .con 0 [.bitvec 64 x] := by
  obtain ⟨rfl, rfl⟩ := getElem?_singleton_eq_some hc
  cases h with
  | cons hv hrest =>
    cases hrest
    obtain ⟨x, rfl⟩ := bitvec_of_argTyped hv
    exact ⟨x, rfl⟩

theorem hasType_ext {xty : ExtType} {k : ℕ} {c : Constructor} {arg : Srt} {args : List Value}
    (hc : (extDatatype xty).constructors[k]? = some c)
    (h : List.Forall₂ (st.ArgTyped members arg) c.fields args) :
    HasType members (.ext xty) (.con k args) := by
  cases xty with
  | decimal =>
    obtain ⟨x, hx⟩ := hasType_wrapper hc h
    rw [hx]
    exact .decimal x
  | datetime =>
    obtain ⟨x, hx⟩ := hasType_wrapper hc h
    rw [hx]
    exact .datetime x
  | duration =>
    obtain ⟨x, hx⟩ := hasType_wrapper hc h
    rw [hx]
    exact .duration x
  | ipAddr =>
    rcases k with _ | _ | k
    · cases hc
      cases h with
      | cons hv hrest =>
        cases hrest with
        | cons hp hrest =>
          cases hrest
          obtain ⟨x, rfl⟩ := bitvec_of_argTyped hv
          exact .ipAddrV4 x (hp (.option (.bitvec 5)) rfl trivial)
    · cases hc
      cases h with
      | cons hv hrest =>
        cases hrest with
        | cons hp hrest =>
          cases hrest
          obtain ⟨x, rfl⟩ := bitvec_of_argTyped hv
          exact .ipAddrV6 x (hp (.option (.bitvec 7)) rfl trivial)
    · cases hc

/-! ## Types have values -/

/-- Every type has a value where no enumeration is empty. -/
theorem exists_hasType (hne : ∀ ety ms, members ety = some ms → ms ≠ []) (ty : TermType) :
    ∃ v, HasType members ty v := by
  induction ty using TermType.induct with
  | prim pty =>
    cases pty with
    | bool => exact ⟨_, .bool true⟩
    | bitvec n => exact ⟨_, .bitvec 0⟩
    | string => exact ⟨_, .string []⟩
    | entity ety =>
      cases hms : members ety with
      | none => exact ⟨_, .entity hms []⟩
      | some ms => exact ⟨_, .member hms (List.length_pos_iff.mpr (hne ety ms hms))⟩
    | ext xty =>
      cases xty with
      | decimal => exact ⟨_, .decimal 0⟩
      | ipAddr => exact ⟨_, .ipAddrV4 0 (.none _)⟩
      | datetime => exact ⟨_, .datetime 0⟩
      | duration => exact ⟨_, .duration 0⟩
  | option ty ih => exact ⟨_, .none ty⟩
  | set ty ih => exact ⟨_, .set ∅ rfl fun w hw => (Finset.notMem_empty w hw).elim⟩
  | record rty ih =>
    have hargs : ∃ args, List.Forall₂ (fun field v => HasType members field.2 v) rty args := by
      induction rty with
      | nil => exact ⟨[], .nil⟩
      | cons field rty ihrty =>
        obtain ⟨v, hv⟩ := ih field List.mem_cons_self
        obtain ⟨args, hargs⟩ := ihrty fun field hfield => ih field (List.mem_cons_of_mem _ hfield)
        exact ⟨v :: args, .cons hv hargs⟩
    obtain ⟨args, hargs⟩ := hargs
    exact ⟨_, hasType_record hargs⟩

/-! ## Values of sorts -/

namespace Denotes

variable (h : Denotes members I M st env)

include h

/-- The datatype of a type in the table. -/
theorem datatype {ty : TermType} (hty : ty ∈ st.types) :
    ∃ id, st.TypeEntry ty id ∧ st.datatypeOf id ty ∈ env.datatypes ∧
      (st.datatypeOf id ty).arg? (st.srt ty) = some .param := by
  obtain ⟨id, _, hentry, hsrt, _, _, hmem⟩ := h.data hty
  obtain ⟨hname, hpar⟩ := name_datatypeOf hentry
  refine ⟨id, hentry, hmem, ?_⟩
  rw [hsrt, ← hname]
  exact Datatype.arg?_data hpar

/-- The values of an extension type. -/
theorem hasSort_ext {xty : ExtType} {k : ℕ} {c : Constructor} {args : List Value}
    (hty : TermType.ext xty ∈ st.types) (hc : (extDatatype xty).constructors[k]? = some c)
    (hargs : List.Forall₂ (fun field v => HasSort env.datatypes (field.2.inst .param) v) c.fields
      args) : HasSort env.datatypes (st.srt (.ext xty)) (.con k args) := by
  obtain ⟨id, _, hmem, harg⟩ := h.datatype hty
  exact hasSort_con hmem harg hc hargs

theorem hasSort_of_hasType {ty : TermType} {v : Value} (hcov : st.CoversType ty)
    (hv : HasType members ty v) : HasSort env.datatypes (st.srt ty) v := by
  induction hv with
  | bool b => exact .bool b
  | bitvec x => exact .bitvec x
  | string s => exact .str s
  | none ty =>
    have harg : optionDatatype.arg? (st.srt (.option ty)) = some (st.srt ty) := rfl
    exact hasSort_con h.option harg (k := 0) rfl .nil
  | @some ty v hv ih =>
    have harg : optionDatatype.arg? (st.srt (.option ty)) = some (st.srt ty) := rfl
    exact hasSort_con h.option harg (k := 1) rfl (.cons (ih hcov) .nil)
  | set f hv hf ih => exact .set f hv fun w hw => ih w hw hcov
  | @entity ety hms s =>
    obtain ⟨id, _, hmem, harg⟩ := h.datatype hcov
    rw [EncoderState.datatypeOf, h.enums, hms] at hmem harg
    exact hasSort_con hmem harg rfl (.cons (.str s) .nil)
  | @member ety ms i hms hi =>
    obtain ⟨id, _, hmem, harg⟩ := h.datatype hcov
    rw [EncoderState.datatypeOf, h.enums, hms] at hmem harg
    have hc : (memberConstructors id ms)[i]? = some ⟨(enumId id i).toList, []⟩ := by
      rw [memberConstructors, List.getElem?_mapIdx, List.getElem?_eq_getElem hi, Option.map_some]
    exact hasSort_con hmem harg hc .nil
  | decimal x => exact h.hasSort_ext hcov rfl (.cons (.bitvec x) .nil)
  | ipAddrV4 x hp ih =>
    exact h.hasSort_ext hcov (k := 0) rfl (.cons (.bitvec x) (.cons (ih trivial) .nil))
  | ipAddrV6 x hp ih =>
    exact h.hasSort_ext hcov (k := 1) rfl (.cons (.bitvec x) (.cons (ih trivial) .nil))
  | datetime x => exact h.hasSort_ext hcov rfl (.cons (.bitvec x) .nil)
  | duration x => exact h.hasSort_ext hcov rfl (.cons (.bitvec x) .nil)
  | @record rty args hlen hargs ih =>
    obtain ⟨id, hentry, hmem, harg⟩ := h.datatype hcov
    apply hasSort_con hmem harg (k := 0) rfl
    apply forall₂_iff_getElem?.mpr
    constructor
    · rw [hlen, EncoderState.fieldsOf, List.length_mapIdx]
    · intro i field v hfield hv
      rw [EncoderState.fieldsOf, List.getElem?_mapIdx] at hfield
      obtain ⟨field', hfield', rfl⟩ := Option.map_eq_some_iff.mp hfield
      rw [inst_srt]
      exact ih i field' v hfield' hv (hentry.2 field' (List.mem_of_getElem? hfield'))

/-- A datatype of the sort of a type in the table is the one of the type. -/
theorem eq_datatypeOf {d : Datatype} {ty : TermType} {arg : Srt} (hd : d ∈ env.datatypes)
    (hty : ty ∈ st.types) (hs : d.arg? (st.srt ty) = some arg) :
    ∃ id, st.TypeEntry ty id ∧ d = st.datatypeOf id ty := by
  obtain ⟨id, hentry, hmem, harg⟩ := h.datatype hty
  exact ⟨id, hentry, h.coherent.sorts _ hmem d hd (Datatype.name_of_arg? hs harg)⟩

theorem eq_optionDatatype {d : Datatype} {ty : TermType} {arg : Srt} (hd : d ∈ env.datatypes)
    (hs : d.arg? (st.srt (.option ty)) = some arg) : d = optionDatatype ∧ arg = st.srt ty := by
  have hoption : optionDatatype.arg? (st.srt (.option ty)) = some (st.srt ty) := rfl
  have heq := h.coherent.sorts _ h.option d hd (Datatype.name_of_arg? hs hoption)
  rw [heq, hoption] at hs
  exact ⟨heq, (Option.some.inj hs).symm⟩

theorem hasType_of_hasSort {s : Srt} {v : Value} (hv : HasSort env.datatypes s v) :
    ∀ ty, s = st.srt ty → st.CoversType ty → HasType members ty v := by
  induction hv with
  | bool b =>
    intro ty hs _
    cases ty with
    | prim pty =>
      cases pty <;> cases hs
      exact .bool b
    | _ => cases hs
  | bitvec x =>
    intro ty hs _
    cases ty with
    | prim pty =>
      cases pty <;> cases hs
      exact .bitvec x
    | _ => cases hs
  | str t =>
    intro ty hs _
    cases ty with
    | prim pty =>
      cases pty <;> cases hs
      exact .string t
    | _ => cases hs
  | set f hv hf ih =>
    intro ty hs hcov
    cases ty with
    | prim pty => cases pty <;> cases hs
    | set ty =>
      cases hs
      exact .set f hv fun w hw => ih w hw ty rfl hcov
    | _ => cases hs
  | @con s arg k args d c hd hs hc hlen hargs ih =>
    intro ty hs' hcov
    subst hs'
    have hvs := forall₂_iff_getElem?.mpr ⟨hlen, ih⟩
    cases ty with
    | prim pty =>
      cases pty with
      | entity ety =>
        obtain ⟨id, hentry, rfl⟩ := h.eq_datatypeOf hd hcov hs
        rw [EncoderState.datatypeOf, h.enums] at hc
        cases hms : members ety with
        | none =>
          rw [hms] at hc
          obtain ⟨rfl, rfl⟩ := getElem?_singleton_eq_some hc
          cases hvs with
          | cons hv hrest =>
            cases hrest
            cases hv .string rfl trivial with
            | string t => exact .entity hms t
        | some ms =>
          rw [hms] at hc
          have hc : (memberConstructors id ms)[k]? = some c := hc
          rw [memberConstructors, List.getElem?_mapIdx] at hc
          obtain ⟨m, hm, rfl⟩ := Option.map_eq_some_iff.mp hc
          cases hvs
          exact .member hms (List.getElem?_eq_some_iff.mp hm).1
      | ext xty =>
        obtain ⟨id, hentry, rfl⟩ := h.eq_datatypeOf hd hcov hs
        have hargs' : List.Forall₂ (st.ArgTyped members arg) c.fields args := hvs
        exact hasType_ext hc hargs'
      | _ => cases hs
    | option ty =>
      obtain ⟨rfl, rfl⟩ := h.eq_optionDatatype hd hs
      rcases k with _ | _ | k
      · cases hc
        cases hvs
        exact .none ty
      · cases hc
        cases hvs with
        | cons hv hrest =>
          cases hrest
          exact .some (hv ty rfl hcov)
      · cases hc
    | set ty => cases hs
    | record rty =>
      obtain ⟨id, hentry, rfl⟩ := h.eq_datatypeOf hd hcov hs
      obtain ⟨rfl, rfl⟩ := getElem?_singleton_eq_some hc
      apply HasType.record
      · rw [hlen, EncoderState.fieldsOf, List.length_mapIdx]
      · intro i field v hfield hv
        have hfield' : (st.fieldsOf id rty)[i]? =
            some ((recordAttrId id i).toList, st.srt field.2) := by
          rw [EncoderState.fieldsOf, List.getElem?_mapIdx, hfield, Option.map_some]
        exact ih i _ v hfield' hv field.2 (inst_srt _ _)
          (hentry.2 field (List.mem_of_getElem? hfield))

end Denotes

end CedarSpec.SymCC
