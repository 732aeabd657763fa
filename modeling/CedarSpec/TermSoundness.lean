import CedarSpec.EncoderModels

/-! The value of a well-typed term belongs to its type. -/

namespace CedarSpec.SymCC

open SmtLib Encoder

variable {members : EntityType → Option (List String)} {I : Interpretation}

/-! ## Literals -/

/-- The entities of enumerated types that the term mentions are members. -/
inductive Term.Listed (members : EntityType → Option (List String)) : Term → Prop
  | prim {p : TermPrim} (h : ∀ uid, p = .entity uid → ∀ ms, members uid.ty = .some ms →
    uid.eid ∈ ms) : Listed members (.prim p)
  | var (v : TermVar) : Listed members (.var v)
  | none (ty : TermType) : Listed members (.none ty)
  | some {t : Term} (h : Listed members t) : Listed members (.some t)
  | app {op : Op} {ts : List Term} {ty : TermType} (h : ∀ t ∈ ts, Listed members t) :
    Listed members (.app op ts ty)
  | set {ts : List Term} {ty : TermType} (h : ∀ t ∈ ts, Listed members t) :
    Listed members (.set ts ty)
  | record {ats : List (String × Term)} (h : ∀ field ∈ ats, Listed members field.2) :
    Listed members (.record ats)

theorem hasType_prefixValue {w : ℕ} (p : Extension.IPNetPrefix w) :
    HasType members (.option (.bitvec w)) (prefixValue p) := by
  cases p with
  | none => exact .none _
  | some x => exact .some (.bitvec x)

theorem hasType_extValue (x : Extension.Ext) :
    HasType members (Term.ext x).typeOf (extValue x) := by
  cases x with
  | decimal d => exact .decimal _
  | datetime dt => exact .datetime _
  | duration d => exact .duration _
  | ipaddr ip =>
    cases ip with
    | V4 cidr => exact .ipAddrV4 _ (hasType_prefixValue _)
    | V6 cidr => exact .ipAddrV6 _ (hasType_prefixValue _)

theorem hasType_entityValue {uid : EntityUID}
    (h : ∀ ms, members uid.ty = some ms → uid.eid ∈ ms) :
    HasType members (.entity uid.ty) (entityValue members uid) := by
  rw [entityValue]
  cases hms : members uid.ty with
  | none => exact .entity hms _
  | some ms => exact .member hms (List.idxOf_lt_length_of_mem (h ms hms))

/-! ## Operators -/

theorem hasType_project {op : Op} {ty out : TermType} {k j : ℕ} {v w : Value}
    (hplace : op.place? ty = some (k, j)) (hop : op.WellTyped [ty] out)
    (hv : HasType members ty v) (hw : HasType members out w) :
    HasType members out (v.project k j w) := by
  have hsome : (op.place? ty).isSome := by rw [hplace]; rfl
  rcases out_inv hsome hop with ⟨rfl, rfl⟩ | ⟨a, rty, rfl, rfl, hfind⟩ | ⟨xop, rfl, hext⟩
  · cases hplace
    cases hv with
    | none => exact hw
    | some hv => exact hv
  · obtain ⟨i, hi, hpair⟩ := Option.map_eq_some_iff.mp hplace
    cases hpair
    obtain ⟨b, hfield⟩ := recordGet_field hi hfind
    cases hv with
    | @record _ args hlen hargs =>
      have hlt : j < args.length := by
        rw [hlen]
        exact (List.getElem?_eq_some_iff.mp hfield).1
      have harg := List.getElem?_eq_getElem hlt
      change HasType members out (args[j]?.getD w)
      rw [harg, Option.getD_some]
      exact hargs j _ _ hfield harg
  · cases hext with
    | decimalVal =>
      cases hplace
      cases hv with
      | decimal x => exact .bitvec x
    | ipaddrAddrV4 =>
      cases hplace
      cases hv with
      | ipAddrV4 x hp => exact .bitvec x
      | ipAddrV6 x hp => exact hw
    | ipaddrPrefixV4 =>
      cases hplace
      cases hv with
      | ipAddrV4 x hp => exact hp
      | ipAddrV6 x hp => exact hw
    | ipaddrAddrV6 =>
      cases hplace
      cases hv with
      | ipAddrV4 x hp => exact hw
      | ipAddrV6 x hp => exact .bitvec x
    | ipaddrPrefixV6 =>
      cases hplace
      cases hv with
      | ipAddrV4 x hp => exact hw
      | ipAddrV6 x hp => exact hp
    | datetimeVal =>
      cases hplace
      cases hv with
      | datetime x => exact .bitvec x
    | durationVal =>
      cases hplace
      cases hv with
      | duration x => exact .bitvec x
    | _ => cases hplace

theorem Interpretation.WellTyped.place (hI : I.WellTyped members) {op : Op} {ty out : TermType}
    {k j : ℕ} {v : Value} (hplace : op.place? ty = some (k, j)) (hop : op.WellTyped [ty] out)
    (hv : HasType members ty v) : HasType members out (I.op op [(ty, v)]) := by
  have hsome : (op.place? ty).isSome := by rw [hplace]; rfl
  rw [op_of_place hplace]
  exact hasType_project hplace hop hv (hI.partials op ty out hsome hop v hv)

/-- The result of an operator has the type that its typing says. -/
theorem Interpretation.WellTyped.op (hI : I.WellTyped members) {op : Op} {ty : TermType}
    {pairs : List (TermType × Value)} (hop : op.WellTyped (pairs.map Prod.fst) ty)
    (h : ∀ p ∈ pairs, HasType members p.1 p.2) : HasType members ty (I.op op pairs) := by
  generalize htys : pairs.map Prod.fst = tys at hop
  cases hop with
  | not =>
    obtain ⟨v, rfl⟩ := eq_of_map_fst₁ htys
    exact .bool _
  | and =>
    obtain ⟨v, w, rfl⟩ := eq_of_map_fst₂ htys
    exact .bool _
  | or =>
    obtain ⟨v, w, rfl⟩ := eq_of_map_fst₂ htys
    exact .bool _
  | eq ty =>
    obtain ⟨v, w, rfl⟩ := eq_of_map_fst₂ htys
    exact .bool _
  | ite ty =>
    obtain ⟨b, v, w, rfl⟩ := eq_of_map_fst₃ htys
    rw [Interpretation.op]
    split
    · exact h (ty, v) (by simp)
    · exact h (ty, w) (by simp)
  | @uuf f harg hout =>
    obtain ⟨v, rfl⟩ := eq_of_map_fst₁ htys
    exact hI.funs f v (h (f.arg, v) (by simp))
  | bvneg n =>
    obtain ⟨v, rfl⟩ := eq_of_map_fst₁ htys
    exact .bitvec _
  | bvnego n =>
    obtain ⟨v, rfl⟩ := eq_of_map_fst₁ htys
    exact .bool _
  | bvBinary n hf =>
    obtain ⟨v, w, rfl⟩ := eq_of_map_fst₂ htys
    cases op <;> cases hf <;> exact .bitvec _
  | bvTest n hf =>
    obtain ⟨v, w, rfl⟩ := eq_of_map_fst₂ htys
    cases op <;> cases hf <;> exact .bool _
  | zeroExtend n m =>
    obtain ⟨v, rfl⟩ := eq_of_map_fst₁ htys
    exact .bitvec _
  | setMember ty =>
    obtain ⟨v, w, rfl⟩ := eq_of_map_fst₂ htys
    exact .bool _
  | setSubset ty =>
    obtain ⟨v, w, rfl⟩ := eq_of_map_fst₂ htys
    exact .bool _
  | setInter ty =>
    obtain ⟨v, w, rfl⟩ := eq_of_map_fst₂ htys
    have hv : HasType members (.set ty) v := h (.set ty, v) (by simp)
    cases hv with
    | set f hf helems =>
      refine .set _ rfl ?_
      intro x hx
      have hmem := (Finset.mem_inter.mp hx).1
      rw [hf, Value.elems_ofFinset] at hmem
      exact helems x hmem
  | optionGet ty =>
    obtain ⟨v, rfl⟩ := eq_of_map_fst₁ htys
    exact hI.place rfl (.optionGet ty) (h (.option ty, v) (by simp))
  | @recordGet a rty ty hfind =>
    obtain ⟨v, rfl⟩ := eq_of_map_fst₁ htys
    have hidx : (rty.findIdx? (·.1 = a)).isSome := by
      obtain ⟨field, hfield, _⟩ := Option.map_eq_some_iff.mp hfind
      have hany : (rty.find? (·.1 = a)).isSome := by rw [hfield]; rfl
      rw [List.findIdx?_isSome]
      rwa [List.find?_isSome, ← List.any_eq_true] at hany
    obtain ⟨j, hj⟩ := Option.isSome_iff_exists.mp hidx
    have hplace : (Op.recordGet a).place? (.record rty) = some (0, j) := by
      rw [Op.place?, hj, Option.map_some]
    exact hI.place hplace (.recordGet hfind) (h (.record rty, v) (by simp))
  | stringLike p =>
    obtain ⟨v, rfl⟩ := eq_of_map_fst₁ htys
    exact .bool _
  | ext hext =>
    have hone : ∃ arg, tys = [arg] := by
      cases hext <;> exact ⟨_, rfl⟩
    obtain ⟨arg, rfl⟩ := hone
    obtain ⟨v, rfl⟩ := eq_of_map_fst₁ htys
    have hv : HasType members arg v := h (arg, v) (by simp)
    have hop := Op.WellTyped.ext hext
    cases hext with
    | ipaddrIsV4 => exact .bool _
    | datetimeOfBitVec =>
      cases hv with
      | bitvec x => exact .datetime x
    | durationOfBitVec =>
      cases hv with
      | bitvec x => exact .duration x
    | _ => exact hI.place rfl hop hv

theorem exists_wellTyped (hne : ∀ ety ms, members ety = some ms → ms ≠ []) :
    ∃ I : Interpretation, I.WellTyped members := by
  have hpartials : ∀ op ty, ∃ w, ∀ out, (Op.place? op ty).isSome → op.WellTyped [ty] out →
      HasType members out w := by
    intro op ty
    by_cases hplace : (op.place? ty).isSome
    · obtain ⟨out, hout⟩ := exists_out hplace
      obtain ⟨w, hw⟩ := exists_hasType hne out
      refine ⟨w, ?_⟩
      intro out' _ hout'
      rwa [out_unique hplace hout hout']
    · exact ⟨.bool true, fun _ hplace' => (hplace hplace').elim⟩
  choose value hvalue using exists_hasType hne
  choose partials hpartials using hpartials
  exact ⟨⟨fun v => value v.ty, fun f _ => value f.out, fun op ty _ => partials op ty⟩,
    fun v => hvalue v.ty, fun f _ _ => hvalue f.out,
    fun op ty out hplace hop _ _ => hpartials op ty out hplace hop⟩

theorem listed_colorTerm : colorTerm.Listed colorEnv.enumerated := by
  apply Term.Listed.app
  intro t ht
  cases List.mem_pair.mp ht with
  | inl ht =>
    rw [ht]
    apply Term.Listed.prim
    intro uid huid ms hms
    cases huid
    have hred : colorEnv.enumerated ⟨"Color", []⟩ = some ["red", "green"] := rfl
    rw [hred, Option.some.injEq] at hms
    rw [← hms]
    simp
  | inr ht =>
    rw [ht]
    exact .var _

end CedarSpec.SymCC
