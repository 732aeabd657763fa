import CedarSpec.ExtDatatypes

/-! Symbolic terms on both sides of the foreign interface, and which term of the one side
corresponds to a term of the other. -/

namespace CedarSpec

/-! ## Lists of options -/

theorem isSome_of_mem_mapM {α β : Type} {f : α → Option β} {l : List α} {a : α}
    (h : (l.mapM f).isSome) (ha : a ∈ l) : (f a).isSome := by
  induction l with
  | nil => cases ha
  | cons b l ih =>
    rw [List.mapM_cons] at h
    cases hb : f b with
    | none => simp [hb] at h
    | some c =>
      cases hl : l.mapM f with
      | none => simp [hb, hl] at h
      | some cs =>
        obtain rfl | ha := List.mem_cons.mp ha
        · rw [hb]
          rfl
        · exact ih (by rw [hl]; rfl) ha

theorem mapM_eq_mapM_id {α β : Type} (f : α → Option β) (l : List α) :
    l.mapM f = (l.map f).mapM id := by
  rw [List.mapM_map]
  rfl

theorem mapM_id_map_some {α β : Type} (f : α → β) (l : List α) :
    (l.map fun a => some (f a)).mapM id = some (l.map f) := by
  rw [← mapM_eq_mapM_id]
  exact List.mapM_pure

/-! ## The terms of the symbolic compiler -/

namespace SymCC

structure Name where
  id : String
  path : List String
  deriving DecidableEq

abbrev EntityType := Name

structure EntityUID where
  ty : EntityType
  eid : String
  deriving DecidableEq

inductive PatElem where
  | star
  | justChar (c : Char)
  deriving DecidableEq

inductive ExtType where
  | ipAddr
  | decimal
  | datetime
  | duration
  deriving DecidableEq

inductive TermPrimType where
  | bool
  | bitvec (n : ℕ)
  | string
  | entity (ety : EntityType)
  | ext (xty : ExtType)
  deriving DecidableEq

inductive TermType where
  | prim (pty : TermPrimType)
  | option (ty : TermType)
  | set (ty : TermType)
  | record (rty : List (String × TermType))

structure UUF where
  id : String
  arg : TermType
  out : TermType

inductive ExtOp where
  | decimalVal
  | ipaddrIsV4
  | ipaddrAddrV4
  | ipaddrPrefixV4
  | ipaddrAddrV6
  | ipaddrPrefixV6
  | datetimeVal
  | datetimeOfBitVec
  | durationVal
  | durationOfBitVec
  deriving DecidableEq

inductive Op where
  | not
  | and
  | or
  | eq
  | ite
  | uuf (f : UUF)
  | bvneg
  | bvadd
  | bvsub
  | bvmul
  | bvsdiv
  | bvudiv
  | bvsrem
  | bvsmod
  | bvurem
  | bvshl
  | bvlshr
  | bvslt
  | bvsle
  | bvult
  | bvule
  | bvnego
  | bvsaddo
  | bvssubo
  | bvsmulo
  | zeroExtend (n : ℕ)
  | setMember
  | setSubset
  | setInter
  | optionGet
  | recordGet (attr : String)
  | stringLike (p : List PatElem)
  | ext (xop : ExtOp)

structure TermVar where
  id : String
  ty : TermType

inductive TermPrim where
  | bool (b : Bool)
  | bitvec {n : ℕ} (bv : BitVec n)
  | string (s : String)
  | entity (uid : EntityUID)
  | ext (xv : Extension.Ext)

inductive Term where
  | prim (p : TermPrim)
  | var (v : TermVar)
  | none (ty : TermType)
  | some (t : Term)
  | set (elts : List Term) (eltsTy : TermType)
  | record (m : List (String × Term))
  | app (op : Op) (args : List Term) (retTy : TermType)

end SymCC

/-! ## The terms of the foreign interface -/

namespace Datatypes

/-- The name of an entity type: its last component and the namespace before it. -/
structure EntityTypeName where
  basename : String
  namespaceComponents : List String
  deriving DecidableEq

structure EntityUid where
  ty : EntityTypeName
  eid : String
  deriving DecidableEq

abbrev NonZeroU8 := {n : UInt8 // n ≠ 0}

inductive ExtType where
  | ipAddr
  | decimal
  | datetime
  | duration
  deriving DecidableEq

inductive TermPrimType where
  | bool
  | bitvec (n : NonZeroU8)
  | string
  | entity (ety : EntityTypeName)
  | ext (xty : ExtType)
  deriving DecidableEq

inductive TermType where
  | prim (pty : TermPrimType)
  | option (ty : TermType)
  | set (ty : TermType)
  | record (rty : List (String × TermType))

structure Uuf where
  id : String
  arg : TermType
  out : TermType

inductive ExtOp where
  | decimalVal
  | ipaddrIsV4
  | ipaddrAddrV4
  | ipaddrPrefixV4
  | ipaddrAddrV6
  | ipaddrPrefixV6
  | datetimeVal
  | datetimeOfBitVec
  | durationVal
  | durationOfBitVec
  deriving DecidableEq

inductive PatElem where
  | star
  | char (c : UInt32)
  deriving DecidableEq

inductive Op where
  | not
  | and
  | or
  | eq
  | ite
  | uuf (uuf : Uuf)
  | bvneg
  | bvadd
  | bvsub
  | bvmul
  | bvsdiv
  | bvudiv
  | bvsrem
  | bvsmod
  | bvurem
  | bvshl
  | bvlshr
  | bvslt
  | bvsle
  | bvult
  | bvule
  | bvnego
  | bvsaddo
  | bvssubo
  | bvsmulo
  | zeroExtend (bvWidth : UInt8)
  | setMember
  | setSubset
  | setInter
  | optionGet
  | recordGet (attr : String)
  | stringLike (pattern : List PatElem)
  | ext (extOp : ExtOp)

structure TermVar where
  id : String
  ty : TermType

inductive TermPrim where
  | bool (b : Bool)
  | bitvec (bv : Bitvec)
  | string (s : String)
  | entity (euid : EntityUid)
  | ext (ext : Ext)

inductive Term where
  | prim (prim : TermPrim)
  | var (v : TermVar)
  | none (ty : TermType)
  | some (t : Term)
  | set (elts : List Term) (eltsTy : TermType)
  | record (fields : List (String × Term))
  | app (op : Op) (args : List Term) (retTy : TermType)

/-! ## Correspondence -/

def EntityTypeName.counterpart (ety : EntityTypeName) : SymCC.EntityType :=
  ⟨ety.basename, ety.namespaceComponents⟩

def EntityUid.counterpart (euid : EntityUid) : SymCC.EntityUID := ⟨euid.ty.counterpart, euid.eid⟩

def ExtType.counterpart : ExtType → SymCC.ExtType
  | .ipAddr => .ipAddr
  | .decimal => .decimal
  | .datetime => .datetime
  | .duration => .duration

def TermPrimType.counterpart : TermPrimType → SymCC.TermPrimType
  | .bool => .bool
  | .bitvec n => .bitvec n.val.toNat
  | .string => .string
  | .entity ety => .entity ety.counterpart
  | .ext xty => .ext xty.counterpart

mutual

def TermType.counterpart : TermType → SymCC.TermType
  | .prim pty => .prim pty.counterpart
  | .option ty => .option ty.counterpart
  | .set ty => .set ty.counterpart
  | .record rty => .record (fieldTypesCounterpart rty)

def fieldTypesCounterpart : List (String × TermType) → List (String × SymCC.TermType)
  | [] => []
  | (attr, ty) :: rty => (attr, ty.counterpart) :: fieldTypesCounterpart rty

end

def Uuf.counterpart (uuf : Uuf) : SymCC.UUF := ⟨uuf.id, uuf.arg.counterpart, uuf.out.counterpart⟩

def ExtOp.counterpart : ExtOp → SymCC.ExtOp
  | .decimalVal => .decimalVal
  | .ipaddrIsV4 => .ipaddrIsV4
  | .ipaddrAddrV4 => .ipaddrAddrV4
  | .ipaddrPrefixV4 => .ipaddrPrefixV4
  | .ipaddrAddrV6 => .ipaddrAddrV6
  | .ipaddrPrefixV6 => .ipaddrPrefixV6
  | .datetimeVal => .datetimeVal
  | .datetimeOfBitVec => .datetimeOfBitVec
  | .durationVal => .durationVal
  | .durationOfBitVec => .durationOfBitVec

/-- None for a number that is no character. -/
def PatElem.counterpart : PatElem → Option SymCC.PatElem
  | .star => some .star
  | .char c => if h : c.isValidChar then some (.justChar ⟨c, h⟩) else none

def Op.counterpart : Op → Option SymCC.Op
  | .not => some .not
  | .and => some .and
  | .or => some .or
  | .eq => some .eq
  | .ite => some .ite
  | .uuf f => some (.uuf f.counterpart)
  | .bvneg => some .bvneg
  | .bvadd => some .bvadd
  | .bvsub => some .bvsub
  | .bvmul => some .bvmul
  | .bvsdiv => some .bvsdiv
  | .bvudiv => some .bvudiv
  | .bvsrem => some .bvsrem
  | .bvsmod => some .bvsmod
  | .bvurem => some .bvurem
  | .bvshl => some .bvshl
  | .bvlshr => some .bvlshr
  | .bvslt => some .bvslt
  | .bvsle => some .bvsle
  | .bvult => some .bvult
  | .bvule => some .bvule
  | .bvnego => some .bvnego
  | .bvsaddo => some .bvsaddo
  | .bvssubo => some .bvssubo
  | .bvsmulo => some .bvsmulo
  | .zeroExtend bvWidth => some (.zeroExtend bvWidth.toNat)
  | .setMember => some .setMember
  | .setSubset => some .setSubset
  | .setInter => some .setInter
  | .optionGet => some .optionGet
  | .recordGet attr => some (.recordGet attr)
  | .stringLike pattern => (pattern.mapM PatElem.counterpart).map .stringLike
  | .ext extOp => some (.ext extOp.counterpart)

def TermVar.counterpart (v : TermVar) : SymCC.TermVar := ⟨v.id, v.ty.counterpart⟩

/-- The value of a bit vector, none where its text is no number. -/
def Bitvec.counterpart (bv : Bitvec) : Option ((n : ℕ) × BitVec n) :=
  bv.val.toNat?.map fun val => ⟨bv.width.toNat, BitVec.ofNat _ val⟩

def Bitvec.toWidth (w : ℕ) (bv : Bitvec) : Option (BitVec w) :=
  if bv.width.toNat = w then bv.val.toNat?.map (BitVec.ofNat w) else none

def prefixCounterpart (w : ℕ) (pre : Option Bitvec) : Option (Extension.IPNetPrefix w) :=
  match pre with
  | none => some none
  | some bv => (bv.toWidth w).map some

/-- None unless address and prefix have the widths of their kind. -/
def Cidr.counterpart (w : ℕ) (cidr : Cidr) : Option (Extension.CIDR w) := do
  let addr ← cidr.addr.toWidth (2 ^ w)
  let pre ← prefixCounterpart w cidr.pre
  some ⟨addr, pre⟩

def IpAddr.counterpart : IpAddr → Option Extension.IPNet
  | .V4 cidr => (cidr.counterpart Extension.v4Width).map .V4
  | .V6 cidr => (cidr.counterpart Extension.v6Width).map .V6

def Ext.counterpart : Ext → Option Extension.Ext
  | .decimal d => some (.decimal d.val)
  | .ipaddr ip => ip.counterpart.map .ipaddr
  | .datetime dt => some (.datetime ⟨dt.val⟩)
  | .duration dur => some (.duration ⟨dur.val⟩)

def TermPrim.counterpart : TermPrim → Option SymCC.TermPrim
  | .bool b => some (.bool b)
  | .bitvec bv => bv.counterpart.map fun ⟨_, bv⟩ => .bitvec bv
  | .string s => some (.string s)
  | .entity euid => some (.entity euid.counterpart)
  | .ext x => x.counterpart.map .ext

mutual

def Term.counterpart : Term → Option SymCC.Term
  | .prim prim => prim.counterpart.map .prim
  | .var v => some (.var v.counterpart)
  | .none ty => some (.none ty.counterpart)
  | .some t => t.counterpart.map .some
  | .set elts eltsTy => (termsCounterpart elts).map fun elts => .set elts eltsTy.counterpart
  | .record fields => (fieldsCounterpart fields).map .record
  | .app op args retTy => do
    let op ← op.counterpart
    let args ← termsCounterpart args
    some (.app op args retTy.counterpart)

def termsCounterpart : List Term → Option (List SymCC.Term)
  | [] => some []
  | t :: ts => do
    let t ← t.counterpart
    let ts ← termsCounterpart ts
    some (t :: ts)

def fieldsCounterpart : List (String × Term) → Option (List (String × SymCC.Term))
  | [] => some []
  | (attr, t) :: fields => do
    let t ← t.counterpart
    let fields ← fieldsCounterpart fields
    some ((attr, t) :: fields)

end

/-! ## Fields, elements and arguments -/

theorem fieldTypesCounterpart_eq_map (rty : List (String × TermType)) :
    fieldTypesCounterpart rty = rty.map fun field => (field.1, field.2.counterpart) := by
  induction rty with
  | nil => rfl
  | cons field rty ih => rw [fieldTypesCounterpart, ih, List.map_cons]

theorem termsCounterpart_eq_mapM (ts : List Term) :
    termsCounterpart ts = ts.mapM Term.counterpart := by
  induction ts with
  | nil => rfl
  | cons t ts ih =>
    rw [termsCounterpart, ih, List.mapM_cons]
    rfl

theorem fieldsCounterpart_eq_mapM (fields : List (String × Term)) :
    fieldsCounterpart fields =
      fields.mapM fun field => field.2.counterpart.map (Prod.mk field.1) := by
  induction fields with
  | nil => rfl
  | cons field fields ih =>
    rw [fieldsCounterpart, ih, List.mapM_cons]
    cases field.2.counterpart <;> rfl

theorem isSome_of_app {op : Op} {args : List Term} {retTy : TermType}
    (h : (Term.app op args retTy).counterpart.isSome) :
    op.counterpart.isSome ∧ (args.mapM Term.counterpart).isSome := by
  rw [Term.counterpart, termsCounterpart_eq_mapM] at h
  cases hop : op.counterpart with
  | none => simp [hop] at h
  | some o =>
    cases hargs : args.mapM Term.counterpart with
    | none => simp [hop, hargs] at h
    | some as => exact ⟨rfl, rfl⟩

theorem TermType.induct {motive : TermType → Prop} (prim : ∀ pty, motive (.prim pty))
    (option : ∀ ty, motive ty → motive (.option ty)) (set : ∀ ty, motive ty → motive (.set ty))
    (record : ∀ rty, (∀ field ∈ rty, motive field.2) → motive (.record rty)) (ty : TermType) :
    motive ty := by
  refine @TermType.rec motive (fun rty => ∀ field ∈ rty, motive field.2)
    (fun field => motive field.2) prim option set record ?_ ?_ (fun _ _ h => h) ty
  · simp
  · intro field rty hfield hrty
    exact List.forall_mem_cons.mpr ⟨hfield, hrty⟩

theorem Term.induct {motive : Term → Prop} (prim : ∀ p, motive (.prim p))
    (var : ∀ v, motive (.var v)) (none : ∀ ty, motive (.none ty))
    (some : ∀ t, motive t → motive (.some t))
    (set : ∀ elts eltsTy, (∀ t ∈ elts, motive t) → motive (.set elts eltsTy))
    (record : ∀ fields, (∀ field ∈ fields, motive field.2) → motive (.record fields))
    (app : ∀ op args retTy, (∀ t ∈ args, motive t) → motive (.app op args retTy)) (t : Term) :
    motive t := by
  refine @Term.rec motive (fun ts => ∀ t ∈ ts, motive t)
    (fun fields => ∀ field ∈ fields, motive field.2) (fun field => motive field.2)
    prim var none some set record app ?_ ?_ ?_ ?_ (fun _ _ h => h) t
  · simp
  · intro t ts ht hts
    exact List.forall_mem_cons.mpr ⟨ht, hts⟩
  · simp
  · intro field fields hfield hfields
    exact List.forall_mem_cons.mpr ⟨hfield, hfields⟩

end Datatypes

end CedarSpec
