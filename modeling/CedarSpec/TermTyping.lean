import CedarSpec.SymTerm

/-! Types of symbolic terms, equality of types and terms, and which terms are well typed. -/

namespace CedarSpec.SymCC

/-! ## Equality -/

mutual

def TermType.hasDecEq : (ty ty' : TermType) → Decidable (ty = ty')
  | .prim pty, .prim pty' => decidable_of_iff (pty = pty') (by simp)
  | .option ty, .option ty' =>
    have := TermType.hasDecEq ty ty'
    decidable_of_iff (ty = ty') (by simp)
  | .set ty, .set ty' =>
    have := TermType.hasDecEq ty ty'
    decidable_of_iff (ty = ty') (by simp)
  | .record rty, .record rty' =>
    have := fieldTypesDecEq rty rty'
    decidable_of_iff (rty = rty') (by simp)
  | .prim _, .option _ | .prim _, .set _ | .prim _, .record _
  | .option _, .prim _ | .option _, .set _ | .option _, .record _
  | .set _, .prim _ | .set _, .option _ | .set _, .record _
  | .record _, .prim _ | .record _, .option _ | .record _, .set _ => isFalse (by simp)

def fieldTypesDecEq : (rty rty' : List (String × TermType)) → Decidable (rty = rty')
  | [], [] => isTrue rfl
  | [], _ :: _ | _ :: _, [] => isFalse (by simp)
  | (a, ty) :: rty, (a', ty') :: rty' =>
    have := TermType.hasDecEq ty ty'
    have := fieldTypesDecEq rty rty'
    decidable_of_iff (a = a' ∧ ty = ty' ∧ rty = rty') (by simp [and_assoc])

end

instance : DecidableEq TermType := TermType.hasDecEq

deriving instance DecidableEq for UUF, Op, TermVar, TermPrim

mutual

def Term.hasDecEq : (t t' : Term) → Decidable (t = t')
  | .prim p, .prim p' => decidable_of_iff (p = p') (by simp)
  | .var v, .var v' => decidable_of_iff (v = v') (by simp)
  | .none ty, .none ty' => decidable_of_iff (ty = ty') (by simp)
  | .some t, .some t' =>
    have := Term.hasDecEq t t'
    decidable_of_iff (t = t') (by simp)
  | .set ts ty, .set ts' ty' =>
    have := termsDecEq ts ts'
    decidable_of_iff (ts = ts' ∧ ty = ty') (by simp)
  | .record ats, .record ats' =>
    have := fieldsDecEq ats ats'
    decidable_of_iff (ats = ats') (by simp)
  | .app op ts ty, .app op' ts' ty' =>
    have := termsDecEq ts ts'
    decidable_of_iff (op = op' ∧ ts = ts' ∧ ty = ty') (by simp)
  | .prim _, .var _ | .prim _, .none _ | .prim _, .some _ | .prim _, .set _ _ | .prim _, .record _
  | .prim _, .app _ _ _ | .var _, .prim _ | .var _, .none _ | .var _, .some _ | .var _, .set _ _
  | .var _, .record _ | .var _, .app _ _ _ | .none _, .prim _ | .none _, .var _ | .none _, .some _
  | .none _, .set _ _ | .none _, .record _ | .none _, .app _ _ _ | .some _, .prim _
  | .some _, .var _ | .some _, .none _ | .some _, .set _ _ | .some _, .record _
  | .some _, .app _ _ _ | .set _ _, .prim _ | .set _ _, .var _ | .set _ _, .none _
  | .set _ _, .some _ | .set _ _, .record _ | .set _ _, .app _ _ _ | .record _, .prim _
  | .record _, .var _ | .record _, .none _ | .record _, .some _ | .record _, .set _ _
  | .record _, .app _ _ _ | .app _ _ _, .prim _ | .app _ _ _, .var _ | .app _ _ _, .none _
  | .app _ _ _, .some _ | .app _ _ _, .set _ _ | .app _ _ _, .record _ => isFalse (by simp)

def termsDecEq : (ts ts' : List Term) → Decidable (ts = ts')
  | [], [] => isTrue rfl
  | [], _ :: _ | _ :: _, [] => isFalse (by simp)
  | t :: ts, t' :: ts' =>
    have := Term.hasDecEq t t'
    have := termsDecEq ts ts'
    decidable_of_iff (t = t' ∧ ts = ts') (by simp)

def fieldsDecEq : (ats ats' : List (String × Term)) → Decidable (ats = ats')
  | [], [] => isTrue rfl
  | [], _ :: _ | _ :: _, [] => isFalse (by simp)
  | (a, t) :: ats, (a', t') :: ats' =>
    have := Term.hasDecEq t t'
    have := fieldsDecEq ats ats'
    decidable_of_iff (a = a' ∧ t = t' ∧ ats = ats') (by simp [and_assoc])

end

instance : DecidableEq Term := Term.hasDecEq

/-! ## Types -/

abbrev TermType.bool : TermType := .prim .bool
abbrev TermType.bitvec (n : ℕ) : TermType := .prim (.bitvec n)
abbrev TermType.string : TermType := .prim .string
abbrev TermType.entity (ety : EntityType) : TermType := .prim (.entity ety)
abbrev TermType.ext (xty : ExtType) : TermType := .prim (.ext xty)

abbrev Term.bool (b : Bool) : Term := .prim (.bool b)
abbrev Term.bitvec {n : ℕ} (bv : BitVec n) : Term := .prim (.bitvec bv)
abbrev Term.string (s : String) : Term := .prim (.string s)
abbrev Term.entity (uid : EntityUID) : Term := .prim (.entity uid)
abbrev Term.ext (xv : Extension.Ext) : Term := .prim (.ext xv)

def TermPrim.typeOf : TermPrim → TermType
  | .bool _ => .bool
  | @TermPrim.bitvec n _ => .bitvec n
  | .string _ => .string
  | .entity uid => .entity uid.ty
  | .ext (.decimal _) => .ext .decimal
  | .ext (.ipaddr _) => .ext .ipAddr
  | .ext (.duration _) => .ext .duration
  | .ext (.datetime _) => .ext .datetime

mutual

def Term.typeOf : Term → TermType
  | .prim p => p.typeOf
  | .var v => v.ty
  | .none ty => .option ty
  | .some t => .option t.typeOf
  | .app _ _ ty => ty
  | .set _ ty => .set ty
  | .record ats => .record (fieldTypesOf ats)

def fieldTypesOf : List (String × Term) → List (String × TermType)
  | [] => []
  | (a, t) :: ats => (a, t.typeOf) :: fieldTypesOf ats

end

theorem fieldTypesOf_eq_map (ats : List (String × Term)) :
    fieldTypesOf ats = ats.map fun field => (field.1, field.2.typeOf) := by
  induction ats with
  | nil => rfl
  | cons field ats ih => rw [fieldTypesOf, ih, List.map_cons]

/-! ## Induction over types and terms -/

theorem TermType.induct {motive : TermType → Prop} (prim : ∀ pty, motive (.prim pty))
    (option : ∀ ty, motive ty → motive (.option ty)) (set : ∀ ty, motive ty → motive (.set ty))
    (record : ∀ rty, (∀ field ∈ rty, motive field.2) → motive (.record rty)) (ty : TermType) :
    motive ty := by
  apply @TermType.rec motive (fun rty => ∀ field ∈ rty, motive field.2)
    (fun field => motive field.2) prim option set record
  · simp
  · intro field rty hfield hrty
    exact List.forall_mem_cons.mpr ⟨hfield, hrty⟩
  · intro a ty h
    exact h

theorem Term.induct {motive : Term → Prop} (prim : ∀ p, motive (.prim p))
    (var : ∀ v, motive (.var v)) (none : ∀ ty, motive (.none ty))
    (some : ∀ t, motive t → motive (.some t))
    (set : ∀ elts eltsTy, (∀ t ∈ elts, motive t) → motive (.set elts eltsTy))
    (record : ∀ ats, (∀ field ∈ ats, motive field.2) → motive (.record ats))
    (app : ∀ op args retTy, (∀ t ∈ args, motive t) → motive (.app op args retTy)) (t : Term) :
    motive t := by
  apply @Term.rec motive (fun ts => ∀ t ∈ ts, motive t)
    (fun ats => ∀ field ∈ ats, motive field.2) (fun field => motive field.2)
    prim var none some set record app
  · simp
  · intro t ts ht hts
    exact List.forall_mem_cons.mpr ⟨ht, hts⟩
  · simp
  · intro field ats hfield hats
    exact List.forall_mem_cons.mpr ⟨hfield, hats⟩
  · intro a t h
    exact h

/-! ## Well-typed terms -/

/-- A type that has a sort: bit vectors are not empty. -/
inductive TermType.WellFormed : TermType → Prop
  | bool : WellFormed .bool
  | bitvec {n : ℕ} (h : 0 < n) : WellFormed (.bitvec n)
  | string : WellFormed .string
  | option {ty : TermType} (h : WellFormed ty) : WellFormed (.option ty)
  | entity (ety : EntityType) : WellFormed (.entity ety)
  | set {ty : TermType} (h : WellFormed ty) : WellFormed (.set ty)
  | record {rty : List (String × TermType)} (h : ∀ field ∈ rty, WellFormed field.2) :
    WellFormed (.record rty)
  | ext (xty : ExtType) : WellFormed (.ext xty)

inductive ExtOp.WellTyped : ExtOp → List TermType → TermType → Prop
  | decimalVal : WellTyped .decimalVal [.ext .decimal] (.bitvec 64)
  | ipaddrIsV4 : WellTyped .ipaddrIsV4 [.ext .ipAddr] .bool
  | ipaddrAddrV4 : WellTyped .ipaddrAddrV4 [.ext .ipAddr] (.bitvec 32)
  | ipaddrPrefixV4 : WellTyped .ipaddrPrefixV4 [.ext .ipAddr] (.option (.bitvec 5))
  | ipaddrAddrV6 : WellTyped .ipaddrAddrV6 [.ext .ipAddr] (.bitvec 128)
  | ipaddrPrefixV6 : WellTyped .ipaddrPrefixV6 [.ext .ipAddr] (.option (.bitvec 7))
  | datetimeVal : WellTyped .datetimeVal [.ext .datetime] (.bitvec 64)
  | datetimeOfBitVec : WellTyped .datetimeOfBitVec [.bitvec 64] (.ext .datetime)
  | durationVal : WellTyped .durationVal [.ext .duration] (.bitvec 64)
  | durationOfBitVec : WellTyped .durationOfBitVec [.bitvec 64] (.ext .duration)

def BitVec.signedMin (n : ℕ) : ℤ := -2 ^ (n - 1)
def BitVec.signedMax (n : ℕ) : ℤ := 2 ^ (n - 1) - 1

def BitVec.overflows (n : ℕ) (i : ℤ) : Bool :=
  decide (i < BitVec.signedMin n) || decide (i > BitVec.signedMax n)

/-- The operators from two bit vectors to a third one. -/
def Op.bvBinary? : Op → Option (∀ n, BitVec n → BitVec n → BitVec n)
  | .bvadd => some fun _ => BitVec.add
  | .bvsub => some fun _ => BitVec.sub
  | .bvmul => some fun _ => BitVec.mul
  | .bvsdiv => some fun _ => BitVec.smtSDiv
  | .bvudiv => some fun _ => BitVec.smtUDiv
  | .bvsrem => some fun _ => BitVec.srem
  | .bvsmod => some fun _ => BitVec.smod
  | .bvurem => some fun _ => BitVec.umod
  | .bvshl => some fun _ x y => x <<< y
  | .bvlshr => some fun _ x y => x >>> y
  | _ => none

/-- The operators that compare two bit vectors. -/
def Op.bvTest? : Op → Option (∀ n, BitVec n → BitVec n → Bool)
  | .bvslt => some fun _ => BitVec.slt
  | .bvsle => some fun _ => BitVec.sle
  | .bvult => some fun _ => BitVec.ult
  | .bvule => some fun _ => BitVec.ule
  | .bvsaddo => some fun n x y => BitVec.overflows n (x.toInt + y.toInt)
  | .bvssubo => some fun n x y => BitVec.overflows n (x.toInt - y.toInt)
  | .bvsmulo => some fun n x y => BitVec.overflows n (x.toInt * y.toInt)
  | _ => none

inductive Op.WellTyped : Op → List TermType → TermType → Prop
  | not : WellTyped .not [.bool] .bool
  | and : WellTyped .and [.bool, .bool] .bool
  | or : WellTyped .or [.bool, .bool] .bool
  | eq (ty : TermType) : WellTyped .eq [ty, ty] .bool
  | ite (ty : TermType) : WellTyped .ite [.bool, ty, ty] ty
  | uuf {f : UUF} (arg : f.arg.WellFormed) (out : f.out.WellFormed) :
    WellTyped (.uuf f) [f.arg] f.out
  | bvneg (n : ℕ) : WellTyped .bvneg [.bitvec n] (.bitvec n)
  | bvnego (n : ℕ) : WellTyped .bvnego [.bitvec n] .bool
  | bvBinary {op : Op} {f : ∀ n, BitVec n → BitVec n → BitVec n} (n : ℕ)
    (h : op.bvBinary? = some f) : WellTyped op [.bitvec n, .bitvec n] (.bitvec n)
  | bvTest {op : Op} {f : ∀ n, BitVec n → BitVec n → Bool} (n : ℕ) (h : op.bvTest? = some f) :
    WellTyped op [.bitvec n, .bitvec n] .bool
  | zeroExtend (n m : ℕ) : WellTyped (.zeroExtend n) [.bitvec m] (.bitvec (n + m))
  | setMember (ty : TermType) : WellTyped .setMember [ty, .set ty] .bool
  | setSubset (ty : TermType) : WellTyped .setSubset [.set ty, .set ty] .bool
  | setInter (ty : TermType) : WellTyped .setInter [.set ty, .set ty] (.set ty)
  | optionGet (ty : TermType) : WellTyped .optionGet [.option ty] ty
  | recordGet {a : String} {rty : List (String × TermType)} {ty : TermType}
    (h : (rty.find? (·.1 = a)).map Prod.snd = some ty) :
    WellTyped (.recordGet a) [.record rty] ty
  | stringLike (p : List PatElem) : WellTyped (.stringLike p) [.string] .bool
  | ext {xop : ExtOp} {tys : List TermType} {ty : TermType} (h : xop.WellTyped tys ty) :
    WellTyped (.ext xop) tys ty

inductive Term.WellTyped : Term → Prop
  | prim {p : TermPrim} (h : p.typeOf.WellFormed) : WellTyped (.prim p)
  | var {v : TermVar} (h : v.ty.WellFormed) : WellTyped (.var v)
  | none {ty : TermType} (h : ty.WellFormed) : WellTyped (.none ty)
  | some {t : Term} (h : WellTyped t) : WellTyped (.some t)
  | app {op : Op} {ts : List Term} {ty : TermType} (h : ∀ t ∈ ts, WellTyped t)
    (hop : op.WellTyped (ts.map Term.typeOf) ty) : WellTyped (.app op ts ty)
  | set {ts : List Term} {ty : TermType} (h : ∀ t ∈ ts, WellTyped t)
    (htype : ∀ t ∈ ts, t.typeOf = ty) (hty : ty.WellFormed) : WellTyped (.set ts ty)
  | record {ats : List (String × Term)} (h : ∀ field ∈ ats, WellTyped field.2) :
    WellTyped (.record ats)

theorem TermType.WellFormed.of_find? {rty : List (String × TermType)} {a : String} {ty : TermType}
    (h : (TermType.record rty).WellFormed) (hfind : (rty.find? (·.1 = a)).map Prod.snd = some ty) :
    ty.WellFormed := by
  cases h with
  | record h =>
    obtain ⟨field, hfield, rfl⟩ := Option.map_eq_some_iff.mp hfind
    exact h field (List.mem_of_find?_eq_some hfield)

theorem ExtOp.WellTyped.wellFormed {xop : ExtOp} {tys : List TermType} {ty : TermType}
    (h : xop.WellTyped tys ty) : ty.WellFormed := by
  cases h with
  | decimalVal => exact .bitvec (by omega)
  | ipaddrIsV4 => exact .bool
  | ipaddrAddrV4 => exact .bitvec (by omega)
  | ipaddrPrefixV4 => exact .option (.bitvec (by omega))
  | ipaddrAddrV6 => exact .bitvec (by omega)
  | ipaddrPrefixV6 => exact .option (.bitvec (by omega))
  | datetimeVal => exact .bitvec (by omega)
  | datetimeOfBitVec => exact .ext _
  | durationVal => exact .bitvec (by omega)
  | durationOfBitVec => exact .ext _

theorem Op.WellTyped.wellFormed {op : Op} {tys : List TermType} {ty : TermType}
    (h : op.WellTyped tys ty) (htys : ∀ ty ∈ tys, ty.WellFormed) : ty.WellFormed := by
  cases h with
  | not => exact .bool
  | and => exact .bool
  | or => exact .bool
  | eq ty => exact .bool
  | ite ty => exact htys ty (by simp)
  | uuf arg out => exact out
  | bvneg n => exact htys _ (by simp)
  | bvnego n => exact .bool
  | bvBinary n h => exact htys _ (by simp)
  | bvTest n h => exact .bool
  | zeroExtend n m =>
    cases htys (.bitvec m) (by simp) with
    | bitvec hm => exact .bitvec (by omega)
  | setMember ty => exact .bool
  | setSubset ty => exact .bool
  | setInter ty => exact htys _ (by simp)
  | optionGet ty =>
    cases htys (.option ty) (by simp) with
    | option hty => exact hty
  | recordGet hfind => exact (htys _ (by simp)).of_find? hfind
  | stringLike p => exact .bool
  | ext h => exact h.wellFormed

/-- The type of a well-typed term has a sort. -/
theorem Term.WellTyped.typeOf {t : Term} (h : t.WellTyped) : t.typeOf.WellFormed := by
  induction h with
  | prim h => exact h
  | var h => exact h
  | none h => exact .option h
  | some h ih => exact .option ih
  | app h hop ih =>
    apply hop.wellFormed
    intro ty hty
    obtain ⟨t, ht, rfl⟩ := List.mem_map.mp hty
    exact ih t ht
  | set h htype hty ih => exact .set hty
  | record h ih =>
    rw [Term.typeOf, fieldTypesOf_eq_map]
    apply TermType.WellFormed.record
    intro field hfield
    obtain ⟨field, hmem, rfl⟩ := List.mem_map.mp hfield
    exact ih field hmem

end CedarSpec.SymCC
