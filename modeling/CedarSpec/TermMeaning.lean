import CedarSpec.EncoderScript
import CedarSpec.SmtScope

/-! What symbolic terms mean: their values under an interpretation of variables and functions,
and which values belong to a type. -/

namespace CedarSpec.SymCC

open SmtLib

/-! ## Values -/

/-- The values of a type, where the enumerated entity types have these members. -/
inductive HasType (members : EntityType → Option (List String)) : TermType → Value → Prop
  | bool (b : Bool) : HasType members .bool (.bool b)
  | bitvec {n : ℕ} (x : BitVec n) : HasType members (.bitvec n) (.bitvec n x)
  | string (s : List StrChar) : HasType members .string (.str s)
  | none (ty : TermType) : HasType members (.option ty) (.con 0 [])
  | some {ty : TermType} {v : Value} (h : HasType members ty v) :
    HasType members (.option ty) (.con 1 [v])
  | set {ty : TermType} {v : Value} (f : Finset Value) (hv : v = .ofFinset f)
    (h : ∀ w ∈ f, HasType members ty w) : HasType members (.set ty) v
  | entity {ety : EntityType} (h : members ety = .none) (s : List StrChar) :
    HasType members (.entity ety) (.con 0 [.str s])
  | member {ety : EntityType} {ms : List String} {i : ℕ} (h : members ety = .some ms)
    (hi : i < ms.length) : HasType members (.entity ety) (.con i [])
  | decimal (x : BitVec 64) : HasType members (.ext .decimal) (.con 0 [.bitvec 64 x])
  | ipAddrV4 (x : BitVec 32) {p : Value} (hp : HasType members (.option (.bitvec 5)) p) :
    HasType members (.ext .ipAddr) (.con 0 [.bitvec 32 x, p])
  | ipAddrV6 (x : BitVec 128) {p : Value} (hp : HasType members (.option (.bitvec 7)) p) :
    HasType members (.ext .ipAddr) (.con 1 [.bitvec 128 x, p])
  | datetime (x : BitVec 64) : HasType members (.ext .datetime) (.con 0 [.bitvec 64 x])
  | duration (x : BitVec 64) : HasType members (.ext .duration) (.con 0 [.bitvec 64 x])
  | record {rty : List (String × TermType)} {args : List Value}
    (hlen : args.length = rty.length)
    (h : ∀ (i : ℕ) (field : String × TermType) (v : Value), rty[i]? = .some field →
      args[i]? = .some v → HasType members field.2 v) : HasType members (.record rty) (.con 0 args)

/-- The code points of a text. -/
def codes (s : List Char) : List StrChar := s.map fun c => Fin.ofNat 196608 c.toNat

def entityValue (members : EntityType → Option (List String)) (uid : EntityUID) : Value :=
  match members uid.ty with
  | some ms => .con (ms.idxOf uid.eid) []
  | none => .con 0 [.str (codes uid.eid.toList)]

def prefixValue {w : ℕ} : Extension.IPNetPrefix w → Value
  | some p => .con 1 [.bitvec w p]
  | none => .con 0 []

def extValue : Extension.Ext → Value
  | .decimal d => .con 0 [.bitvec 64 (BitVec.ofInt 64 d.toInt)]
  | .ipaddr (.V4 ⟨addrV4, preV4⟩) => .con 0 [.bitvec 32 addrV4, prefixValue preV4]
  | .ipaddr (.V6 ⟨addrV6, preV6⟩) => .con 1 [.bitvec 128 addrV6, prefixValue preV6]
  | .datetime dt => .con 0 [.bitvec 64 (BitVec.ofInt 64 dt.val.toInt)]
  | .duration d => .con 0 [.bitvec 64 (BitVec.ofInt 64 d.val.toInt)]

/-- A text matches a pattern, whose stars stand for any text. -/
def Matches : List PatElem → List StrChar → Prop
  | [], s => s = []
  | .star :: p, s => ∃ a b, s = a ++ b ∧ Matches p b
  | .justChar c :: p, s => ∃ b, s = Fin.ofNat 196608 c.toNat :: b ∧ Matches p b

/-! ## Interpretations -/

/-- What variables and functions stand for, and the results of operators that are applied
outside of their domain. -/
structure Interpretation where
  vars : TermVar → Value
  funs : UUF → Value → Value
  partials : Op → TermType → Value → Value

/-- The operators that take an argument of a constructor out, with the places of both. -/
def Op.place? : Op → TermType → Option (ℕ × ℕ)
  | .optionGet, .option _ => some (1, 0)
  | .recordGet a, .record rty => (rty.findIdx? (·.1 = a)).map (Prod.mk 0)
  | .ext .decimalVal, .prim (.ext .decimal) => some (0, 0)
  | .ext .ipaddrAddrV4, .prim (.ext .ipAddr) => some (0, 0)
  | .ext .ipaddrPrefixV4, .prim (.ext .ipAddr) => some (0, 1)
  | .ext .ipaddrAddrV6, .prim (.ext .ipAddr) => some (1, 0)
  | .ext .ipaddrPrefixV6, .prim (.ext .ipAddr) => some (1, 1)
  | .ext .datetimeVal, .prim (.ext .datetime) => some (0, 0)
  | .ext .durationVal, .prim (.ext .duration) => some (0, 0)
  | _, _ => none

namespace Interpretation

/-- The value of an operator for one argument. -/
noncomputable def unary (I : Interpretation) (op : Op) (ty : TermType) (v : Value) : Value :=
  match op, ty with
  | .not, _ => .bool !v.isTrue
  | .uuf f, _ => I.funs f v
  | .bvneg, .prim (.bitvec n) => .bitvec n (v.bits n).neg
  | .bvnego, .prim (.bitvec n) => .bool (BitVec.overflows n (-(v.bits n).toInt))
  | .zeroExtend i, .prim (.bitvec n) => .bitvec (i + n) ((v.bits n).setWidth (i + n))
  | .stringLike p, _ => .bool (open Classical in decide (Matches p v.text))
  | .ext .ipaddrIsV4, _ => .bool (decide (v.tag = 0))
  | .ext .datetimeOfBitVec, _ => .con 0 [v]
  | .ext .durationOfBitVec, _ => .con 0 [v]
  | op, ty =>
    match op.place? ty with
    | some (k, j) => v.project k j (I.partials op ty v)
    | none => v

noncomputable def binary (op : Op) (ty : TermType) (v w : Value) : Value :=
  match op, ty with
  | .and, _ => .bool (v.isTrue && w.isTrue)
  | .or, _ => .bool (v.isTrue || w.isTrue)
  | .eq, _ => .bool (decide (v = w))
  | .setMember, _ => .bool (decide (v ∈ w.elems))
  | .setSubset, _ => .bool (decide (v.elems ⊆ w.elems))
  | .setInter, _ => .ofFinset (v.elems ∩ w.elems)
  | op, .prim (.bitvec n) =>
    match op.bvBinary?, op.bvTest? with
    | some f, _ => .bitvec n (f n (v.bits n) (w.bits n))
    | none, some f => .bool (f n (v.bits n) (w.bits n))
    | none, none => v
  | _, _ => v

/-- The value of an operator by the types and the values of its arguments. -/
noncomputable def op (I : Interpretation) (op : Op) : List (TermType × Value) → Value
  | [(ty, v)] => I.unary op ty v
  | [(ty, v), (_, w)] => binary op ty v w
  | [(_, b), (_, v), (_, w)] => if b.isTrue then v else w
  | _ => .con 0 []

end Interpretation

variable (members : EntityType → Option (List String)) (I : Interpretation)

mutual

noncomputable def Term.meaning : Term → Value
  | .prim (.bool b) => .bool b
  | .prim (@TermPrim.bitvec n bv) => .bitvec n bv
  | .prim (.string s) => .str (codes s.toList)
  | .prim (.entity uid) => entityValue members uid
  | .prim (.ext x) => extValue x
  | .var v => I.vars v
  | .none _ => .con 0 []
  | .some t => .con 1 [t.meaning]
  | .set ts _ => .ofFinset (meanings ts).toFinset
  | .record ats => .con 0 (fieldMeanings ats)
  | .app op ts _ => I.op op ((ts.map Term.typeOf).zip (meanings ts))

noncomputable def meanings : List Term → List Value
  | [] => []
  | t :: ts => t.meaning :: meanings ts

noncomputable def fieldMeanings : List (String × Term) → List Value
  | [] => []
  | (_, t) :: ats => t.meaning :: fieldMeanings ats

end

variable {members I}

theorem meanings_eq_map (ts : List Term) :
    meanings members I ts = ts.map (Term.meaning members I) := by
  induction ts with
  | nil => rfl
  | cons t ts ih => rw [meanings, ih, List.map_cons]

theorem fieldMeanings_eq_map (ats : List (String × Term)) :
    fieldMeanings members I ats = ats.map fun field => Term.meaning members I field.2 := by
  induction ats with
  | nil => rfl
  | cons field ats ih => rw [fieldMeanings, ih, List.map_cons]

/-- The interpretation gives values of the right types. -/
structure Interpretation.WellTyped (members : EntityType → Option (List String))
    (I : Interpretation) : Prop where
  vars : ∀ v : TermVar, HasType members v.ty (I.vars v)
  funs : ∀ f : UUF, ∀ v, HasType members f.arg v → HasType members f.out (I.funs f v)
  partials : ∀ (op : Op) (arg out : TermType), (op.place? arg).isSome →
    op.WellTyped [arg] out → ∀ v, HasType members arg v → HasType members out (I.partials op arg v)

end CedarSpec.SymCC
