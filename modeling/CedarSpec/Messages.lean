import CedarSpec.ProtoWire
import CedarSpec.SymTerm

/-! The encoder of symbolic terms: the fields of the messages built for them, with the numbers
of the message definitions. Alternatives and nested messages are written whenever they are set,
plain numbers and texts only when they are not the default. -/

namespace CedarSpec.Messages

open ByteParser ProtoWire Datatypes

/-- What the encoder takes from other packages: the serialisation of messages, and the messages
for names and entities. -/
structure ThirdParty where
  encodeToVec : List Entry → Bytes
  nameFrom : EntityTypeName → List Entry
  entityUidFrom : EntityUid → List Entry

/-- The wire format of protobuf, with `Name {id = 1, repeated path = 2}` and
`EntityUid {ty = 1, eid = 2}`. -/
structure ThirdParty.Documented (P : ThirdParty) : Prop where
  encodeToVec_eq : ∀ msg, P.encodeToVec msg = encode msg
  nameFrom_eq : ∀ ety, P.nameFrom ety = .mk 1 .implicit (.string ety.basename) ::
    ety.namespaceComponents.map fun component => .mk 2 .explicit (.string component)
  entityUidFrom_eq : ∀ euid, P.entityUidFrom euid =
    [.mk 1 .explicit (.message (P.nameFrom euid.ty)), .mk 2 .implicit (.string euid.eid)]

variable (P : ThirdParty)

/-! ## Types -/

def ExtType.new : ExtType → UInt64
  | .ipAddr => 0
  | .decimal => 1
  | .datetime => 2
  | .duration => 3

def Prim.new : TermPrimType → UInt64
  | .bool => 0
  | .string => 1
  -- unreachable: `TermPrimType.new` handles the other variants
  | .bitvec _ | .entity _ | .ext _ => 0

def TermPrimType.new (pty : TermPrimType) : List Entry :=
  match pty with
  | .bitvec n => [.mk 2 .explicit (.varint n.val.toUInt64)]
  | .entity ety => [.mk 3 .explicit (.message (P.nameFrom ety))]
  | .ext xty => [.mk 4 .explicit (.varint (ExtType.new xty))]
  | pty => [.mk 1 .explicit (.varint (Prim.new pty))]

/-- The field of a record type, of which the type's message is built already. -/
def RecordFieldType.new (attr : String) (ty : List Entry) : List Entry :=
  [.mk 1 .implicit (.string attr), .mk 2 .explicit (.message ty)]

mutual

def TermType.new : TermType → List Entry
  | .prim pty => [.mk 1 .explicit (.message (TermPrimType.new P pty))]
  | .option ty => [.mk 2 .explicit (.message (TermType.new ty))]
  | .set ty => [.mk 3 .explicit (.message (TermType.new ty))]
  | .record rty => [.mk 4 .explicit (.message (RecordType.new rty))]

def RecordType.new : List (String × TermType) → List Entry
  | [] => []
  | (attr, ty) :: fields =>
    .mk 1 .explicit (.message (RecordFieldType.new attr (TermType.new ty))) ::
      RecordType.new fields

end

/-! ## Operators -/

def Uuf.new (uuf : Uuf) : List Entry :=
  [.mk 1 .implicit (.string uuf.id), .mk 2 .explicit (.message (TermType.new P uuf.arg)),
    .mk 3 .explicit (.message (TermType.new P uuf.out))]

def ExtOp.new : ExtOp → UInt64
  | .decimalVal => 0
  | .ipaddrIsV4 => 1
  | .ipaddrAddrV4 => 2
  | .ipaddrPrefixV4 => 3
  | .ipaddrAddrV6 => 4
  | .ipaddrPrefixV6 => 5
  | .datetimeVal => 6
  | .datetimeOfBitVec => 7
  | .durationVal => 8
  | .durationOfBitVec => 9

def PatElem.new (elem : PatElem) : List Entry :=
  match elem with
  | .star => [.mk 1 .explicit (.varint 1)]
  | .char c => [.mk 2 .explicit (.varint c.toUInt64)]

def Pattern.new (pattern : List PatElem) : List Entry :=
  pattern.map fun elem => .mk 1 .explicit (.message (PatElem.new elem))

def BaseOp.new : Op → UInt64
  | .not => 0
  | .and => 1
  | .or => 2
  | .eq => 3
  | .ite => 4
  | .bvneg => 5
  | .bvadd => 6
  | .bvsub => 7
  | .bvmul => 8
  | .bvsdiv => 9
  | .bvudiv => 10
  | .bvsrem => 11
  | .bvsmod => 12
  | .bvurem => 13
  | .bvshl => 14
  | .bvlshr => 15
  | .bvslt => 16
  | .bvsle => 17
  | .bvult => 18
  | .bvule => 19
  | .bvnego => 20
  | .bvsaddo => 21
  | .bvssubo => 22
  | .bvsmulo => 23
  | .setMember => 24
  | .setSubset => 25
  | .setInter => 26
  | .optionGet => 27
  -- unreachable: `Op.new` handles the other variants
  | .uuf _ | .zeroExtend _ | .recordGet _ | .stringLike _ | .ext _ => 0

def Op.new (op : Op) : List Entry :=
  match op with
  | .uuf uuf => [.mk 2 .explicit (.message (Uuf.new P uuf))]
  | .zeroExtend bvWidth => [.mk 3 .explicit (.varint bvWidth.toUInt64)]
  | .recordGet attr => [.mk 4 .explicit (.string attr)]
  | .stringLike pattern => [.mk 5 .explicit (.message (Pattern.new pattern))]
  | .ext extOp => [.mk 6 .explicit (.varint (ExtOp.new extOp))]
  | op => [.mk 1 .explicit (.varint (BaseOp.new op))]

/-! ## Values -/

def Bitvec.new (bv : Bitvec) : List Entry :=
  [.mk 1 .implicit (.varint bv.width.toUInt64), .mk 2 .implicit (.string bv.val)]

def Decimal.new (dec : Decimal) : List Entry := [.mk 1 .implicit (.varint dec.val.toUInt64)]

/-- A field that may be missing. -/
def optional (number : ℕ) (msg : Option (List Entry)) : List Entry :=
  match msg with
  | some msg => [.mk number .explicit (.message msg)]
  | none => []

def Cidr.new (cidr : Cidr) : List Entry :=
  .mk 1 .explicit (.message (Bitvec.new cidr.addr)) :: optional 2 (cidr.pre.map Bitvec.new)

def IpAddr.new (ip : IpAddr) : List Entry :=
  match ip with
  | .V4 cidr => [.mk 1 .explicit (.message (Cidr.new cidr))]
  | .V6 cidr => [.mk 2 .explicit (.message (Cidr.new cidr))]

def Datetime.new (dt : Datetime) : List Entry := [.mk 1 .implicit (.varint dt.val.toUInt64)]

def Duration.new (dur : Duration) : List Entry := [.mk 1 .implicit (.varint dur.val.toUInt64)]

def Ext.new (ext : Ext) : List Entry :=
  match ext with
  | .decimal d => [.mk 1 .explicit (.message (Decimal.new d))]
  | .ipaddr ip => [.mk 2 .explicit (.message (IpAddr.new ip))]
  | .datetime dt => [.mk 3 .explicit (.message (Datetime.new dt))]
  | .duration dur => [.mk 4 .explicit (.message (Duration.new dur))]

/-! ## Terms -/

def TermVar.new (var : TermVar) : List Entry :=
  [.mk 1 .implicit (.string var.id), .mk 2 .explicit (.message (TermType.new P var.ty))]

def TermPrim.new (prim : TermPrim) : List Entry :=
  match prim with
  | .bool b => [.mk 1 .explicit (.varint b.toUInt64)]
  | .bitvec bv => [.mk 2 .explicit (.message (Bitvec.new bv))]
  | .string s => [.mk 3 .explicit (.string s)]
  | .entity euid => [.mk 4 .explicit (.message (P.entityUidFrom euid))]
  | .ext x => [.mk 5 .explicit (.message (Ext.new x))]

/-- The field of a record, of which the value's message is built already. -/
def RecordField.new (attr : String) (value : List Entry) : List Entry :=
  [.mk 1 .implicit (.string attr), .mk 2 .explicit (.message value)]

/-- The messages of a set and of an application, of which the terms are built already. -/
def Set.new (elts : List Entry) (eltTy : TermType) : List Entry :=
  elts ++ [.mk 2 .explicit (.message (TermType.new P eltTy))]

def App.new (op : Op) (args : List Entry) (retTy : TermType) : List Entry :=
  .mk 1 .explicit (.message (Op.new P op)) ::
    (args ++ [.mk 3 .explicit (.message (TermType.new P retTy))])

mutual

def Term.new : Term → List Entry
  | .prim prim => [.mk 1 .explicit (.message (TermPrim.new P prim))]
  | .var v => [.mk 2 .explicit (.message (TermVar.new P v))]
  | .none ty => [.mk 3 .explicit (.message (TermType.new P ty))]
  | .some t => [.mk 4 .explicit (.message (Term.new t))]
  | .set elts eltsTy => [.mk 5 .explicit (.message (Set.new P (repeatedTerm 1 elts) eltsTy))]
  | .record fields => [.mk 6 .explicit (.message (Record.new fields))]
  | .app op args retTy =>
    [.mk 7 .explicit (.message (App.new P op (repeatedTerm 2 args) retTy))]

/-- A list of terms as the records of one field. -/
def repeatedTerm (number : ℕ) : List Term → List Entry
  | [] => []
  | t :: ts => .mk number .explicit (.message (Term.new t)) :: repeatedTerm number ts

def Record.new : List (String × Term) → List Entry
  | [] => []
  | (attr, value) :: fields =>
    .mk 1 .explicit (.message (RecordField.new attr (Term.new value))) :: Record.new fields

end

end CedarSpec.Messages
