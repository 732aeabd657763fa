import CedarSpec.Protobuf
import CedarSpec.SymTerm

/-! The decoder of names, entities and term types: the messages as they are parsed and merged
field by field, and what they stand for. Messages that contain themselves are parsed with
fuel. -/

namespace CedarSpec.SymCC.Proto

open ByteParser Protobuf

/-! ## Names and entities -/

structure Name where
  id : String
  path : List String

namespace Name

def parseField (t : Tag) : Parser (MergeFn Name) :=
  match t.fieldNum with
  | 1 => parseFieldElement Field.string t Name.id fun x id => { x with id }
  | 2 => parseFieldElement (Field.repeated Field.string) t Name.path fun x path => { x with path }
  | _ => skipField t

def merge (x y : Name) : Name :=
  ⟨Field.string.merge x.id y.id, (Field.repeated Field.string).merge x.path y.path⟩

def message : Message Name := ⟨⟨"", []⟩, parseField, merge⟩

def toName (x : Name) : SymCC.Name := ⟨x.id, x.path⟩

end Name

def EntityType.merge (x y : SymCC.EntityType) : SymCC.EntityType :=
  ⟨Field.string.merge x.id y.id, x.path ++ y.path⟩

def EntityType.field : Protobuf.Field SymCC.EntityType :=
  Field.fromInterField Name.message.field Name.toName EntityType.merge

namespace EntityUID

def parseField (t : Tag) : Parser (MergeFn SymCC.EntityUID) :=
  match t.fieldNum with
  | 1 => parseFieldElement EntityType.field t SymCC.EntityUID.ty fun x ty => { x with ty }
  | 2 => parseFieldElement Field.string t SymCC.EntityUID.eid fun x eid => { x with eid }
  | _ => skipField t

def merge (x y : SymCC.EntityUID) : SymCC.EntityUID :=
  ⟨EntityType.field.merge x.ty y.ty, Field.string.merge x.eid y.eid⟩

def message : Message SymCC.EntityUID := ⟨⟨⟨"", []⟩, ""⟩, parseField, merge⟩

end EntityUID

/-! ## Types -/

inductive ExtType where
  | ipAddr
  | decimal
  | datetime
  | duration

namespace ExtType

def fromInt (n : ℤ) : Except String ExtType :=
  match n with
  | 0 => .ok .ipAddr
  | 1 => .ok .decimal
  | 2 => .ok .datetime
  | 3 => .ok .duration
  | _ => .error s!"Field {n} does not exist in enum"

def merge (xty1 xty2 : ExtType) : ExtType :=
  match xty1, xty2 with
  | .ipAddr, .ipAddr => .ipAddr
  | .decimal, .decimal => .decimal
  | .datetime, .datetime => .datetime
  | .duration, .duration => .duration
  | _, _ => xty2

def toCedarExtType (ext : ExtType) : SymCC.ExtType :=
  match ext with
  | .ipAddr => .ipAddr
  | .decimal => .decimal
  | .datetime => .datetime
  | .duration => .duration

end ExtType

inductive PrimType where
  | bool
  | string

namespace PrimType

def fromInt (n : ℤ) : Except String PrimType :=
  match n with
  | 0 => .ok .bool
  | 1 => .ok .string
  | _ => .error s!"Field {n} does not exist in enum"

def merge (p1 p2 : PrimType) : PrimType :=
  match p1, p2 with
  | .bool, .bool => .bool
  | .string, .string => .string
  | _, _ => p2

end PrimType

inductive TermPrimType where
  | prim (p : PrimType)
  | bitvec (n : ℕ)
  | entity (ety : Name)
  | ext (xty : ExtType)

namespace TermPrimType

def merge (p1 p2 : TermPrimType) : TermPrimType :=
  match p1, p2 with
  | .prim p1, .prim p2 => .prim (p1.merge p2)
  | .bitvec _, .bitvec n => .bitvec n
  | .entity ety1, .entity ety2 => .entity (ety1.merge ety2)
  | .ext xty1, .ext xty2 => .ext (xty1.merge xty2)
  | _, _ => p2

def parseField (t : Tag) : Parser (MergeFn TermPrimType) :=
  match t.fieldNum with
  | 1 => parseOneof (Field.enum PrimType.fromInt) t merge .prim
  | 2 => parseOneof Field.uint32 t merge fun x => .bitvec x.toNat
  | 3 => parseOneof Name.message.field t merge .entity
  | 4 => parseOneof (Field.enum ExtType.fromInt) t merge .ext
  | _ => skipField t

def message : Message TermPrimType := ⟨.prim .bool, parseField, merge⟩

def toCedarTermPrimType (pty : TermPrimType) : SymCC.TermPrimType :=
  match pty with
  | .prim .bool => .bool
  | .prim .string => .string
  | .bitvec n => .bitvec n
  | .entity ety => .entity ety.toName
  | .ext xty => .ext xty.toCedarExtType

end TermPrimType

mutual

inductive TermType where
  | prim (pty : TermPrimType)
  | option (ty : TermType)
  | set (ty : TermType)
  | record (rty : RecordType)

structure RecordFieldType where
  attr : String
  ty : TermType

structure RecordType where
  fields : List RecordFieldType

end

def RecordType.merge (rty1 rty2 : RecordType) : RecordType := ⟨rty1.fields ++ rty2.fields⟩

def TermType.merge (ty1 ty2 : TermType) : TermType :=
  match ty1, ty2 with
  | .prim p1, .prim p2 => .prim (p1.merge p2)
  | .option ty1, .option ty2 => .option (ty1.merge ty2)
  -- two sets are merged to an option, as in the source
  | .set ty1, .set ty2 => .option (ty1.merge ty2)
  | .record rty1, .record rty2 => .record (rty1.merge rty2)
  | _, _ => ty2

def RecordFieldType.merge (rf1 rf2 : RecordFieldType) : RecordFieldType :=
  ⟨Field.string.merge rf1.attr rf2.attr, rf1.ty.merge rf2.ty⟩

/-- The parsers of the messages that types consist of, given the one for types. -/
def RecordFieldType.parseField (termType : Message TermType) (t : Tag) :
    Parser (MergeFn RecordFieldType) :=
  match t.fieldNum with
  | 1 => parseFieldElement Field.string t RecordFieldType.attr fun x attr => { x with attr }
  | 2 => parseFieldElement termType.field t RecordFieldType.ty fun x ty => { x with ty }
  | _ => skipField t

def RecordFieldType.message (termType : Message TermType) : Message RecordFieldType :=
  ⟨⟨"", termType.default⟩, RecordFieldType.parseField termType, RecordFieldType.merge⟩

def RecordType.parseField (termType : Message TermType) (t : Tag) :
    Parser (MergeFn RecordType) :=
  match t.fieldNum with
  | 1 =>
    parseOneof (Field.repeated (RecordFieldType.message termType).field) t RecordType.merge
      RecordType.mk
  | _ => skipField t

def RecordType.message (termType : Message TermType) : Message RecordType :=
  ⟨⟨[]⟩, RecordType.parseField termType, RecordType.merge⟩

namespace TermType

def init : TermType := .prim (.prim .bool)

def parseField : ℕ → Tag → Parser (MergeFn TermType)
  | 0, _ => fail "out of fuel"
  | fuel + 1, t =>
    let termType : Message TermType := ⟨init, parseField fuel, merge⟩
    match t.fieldNum with
    | 1 => parseOneof TermPrimType.message.field t merge .prim
    | 2 => parseOneof termType.field t merge .option
    | 3 => parseOneof termType.field t merge .set
    | 4 => parseOneof (RecordType.message termType).field t merge .record
    | _ => skipField t

def message (fuel : ℕ) : Message TermType := ⟨init, parseField fuel, merge⟩

end TermType

mutual

def TermType.toCedarTermType : TermType → SymCC.TermType
  | .prim pty => .prim pty.toCedarTermPrimType
  | .option ty => .option ty.toCedarTermType
  | .set ty => .set ty.toCedarTermType
  | .record ⟨fields⟩ => .record (fieldTypesToCedar fields)

def fieldTypesToCedar : List RecordFieldType → List (String × SymCC.TermType)
  | [] => []
  | ⟨attr, ty⟩ :: fields => (attr, ty.toCedarTermType) :: fieldTypesToCedar fields

end

end CedarSpec.SymCC.Proto
