import CedarSpec.TermTypeProto

/-! The decoder of operators, values and symbolic terms. -/

namespace CedarSpec.SymCC.Proto

open ByteParser Protobuf

/-! ## Operators -/

structure UUF where
  id : String
  arg : TermType
  out : TermType

namespace UUF

def merge (f₁ f₂ : UUF) : UUF :=
  ⟨Field.string.merge f₁.id f₂.id, f₁.arg.merge f₂.arg, f₁.out.merge f₂.out⟩

def parseField (fuel : ℕ) (t : Tag) : Parser (MergeFn UUF) :=
  match t.fieldNum with
  | 1 => parseFieldElement Field.string t UUF.id fun x id => { x with id }
  | 2 => parseFieldElement (TermType.message fuel).field t UUF.arg fun x arg => { x with arg }
  | 3 => parseFieldElement (TermType.message fuel).field t UUF.out fun x out => { x with out }
  | _ => skipField t

def message (fuel : ℕ) : Message UUF :=
  ⟨⟨"", TermType.init, TermType.init⟩, parseField fuel, merge⟩

def toCedar (f : UUF) : SymCC.UUF := ⟨f.id, f.arg.toCedarTermType, f.out.toCedarTermType⟩

end UUF

inductive ExtOp where
  | decimalVal
  | ipaddrIsV4
  | ipaddrAddrV4
  | ipaddrPrefixV4
  | ipaddrAddrV6
  | ipaddrPrefixV6
  | datetimeVal
  | datetimeOfBitVec
  | durationVal
  | durationOfBitVec

namespace ExtOp

def fromInt (n : ℤ) : Except String ExtOp :=
  match n with
  | 0 => .ok .decimalVal
  | 1 => .ok .ipaddrIsV4
  | 2 => .ok .ipaddrAddrV4
  | 3 => .ok .ipaddrPrefixV4
  | 4 => .ok .ipaddrAddrV6
  | 5 => .ok .ipaddrPrefixV6
  | 6 => .ok .datetimeVal
  | 7 => .ok .datetimeOfBitVec
  | 8 => .ok .durationVal
  | 9 => .ok .durationOfBitVec
  | _ => .error s!"Field {n} does not exist in enum"

def toCedar (xop : ExtOp) : SymCC.ExtOp :=
  match xop with
  | .decimalVal => .decimalVal
  | .ipaddrIsV4 => .ipaddrIsV4
  | .ipaddrAddrV4 => .ipaddrAddrV4
  | .ipaddrPrefixV4 => .ipaddrPrefixV4
  | .ipaddrAddrV6 => .ipaddrAddrV6
  | .ipaddrPrefixV6 => .ipaddrPrefixV6
  | .datetimeVal => .datetimeVal
  | .datetimeOfBitVec => .datetimeOfBitVec
  | .durationVal => .durationVal
  | .durationOfBitVec => .durationOfBitVec

end ExtOp

inductive BaseOp where
  | not
  | and
  | or
  | eq
  | ite
  | bvneg
  | bvadd
  | bvsub
  | bvmul
  | bvsdiv
  | bvudiv
  | bvsrem
  | bvsmod
  | bvurem
  | bvshl
  | bvlshr
  | bvslt
  | bvsle
  | bvult
  | bvule
  | bvnego
  | bvsaddo
  | bvssubo
  | bvsmulo
  | setMember
  | setSubset
  | setInter
  | optionGet

namespace BaseOp

def fromInt (n : ℤ) : Except String BaseOp :=
  match n with
  | 0 => .ok .not
  | 1 => .ok .and
  | 2 => .ok .or
  | 3 => .ok .eq
  | 4 => .ok .ite
  | 5 => .ok .bvneg
  | 6 => .ok .bvadd
  | 7 => .ok .bvsub
  | 8 => .ok .bvmul
  | 9 => .ok .bvsdiv
  | 10 => .ok .bvudiv
  | 11 => .ok .bvsrem
  | 12 => .ok .bvsmod
  | 13 => .ok .bvurem
  | 14 => .ok .bvshl
  | 15 => .ok .bvlshr
  | 16 => .ok .bvslt
  | 17 => .ok .bvsle
  | 18 => .ok .bvult
  | 19 => .ok .bvule
  | 20 => .ok .bvnego
  | 21 => .ok .bvsaddo
  | 22 => .ok .bvssubo
  | 23 => .ok .bvsmulo
  | 24 => .ok .setMember
  | 25 => .ok .setSubset
  | 26 => .ok .setInter
  | 27 => .ok .optionGet
  | _ => .error s!"Field {n} does not exist in enum"

def toCedar (bop : BaseOp) : SymCC.Op :=
  match bop with
  | .not => .not
  | .and => .and
  | .or => .or
  | .eq => .eq
  | .ite => .ite
  | .bvneg => .bvneg
  | .bvadd => .bvadd
  | .bvsub => .bvsub
  | .bvmul => .bvmul
  | .bvsdiv => .bvsdiv
  | .bvudiv => .bvudiv
  | .bvsrem => .bvsrem
  | .bvsmod => .bvsmod
  | .bvurem => .bvurem
  | .bvshl => .bvshl
  | .bvlshr => .bvlshr
  | .bvslt => .bvslt
  | .bvsle => .bvsle
  | .bvult => .bvult
  | .bvule => .bvule
  | .bvnego => .bvnego
  | .bvsaddo => .bvsaddo
  | .bvssubo => .bvssubo
  | .bvsmulo => .bvsmulo
  | .setMember => .setMember
  | .setSubset => .setSubset
  | .setInter => .setInter
  | .optionGet => .optionGet

end BaseOp

inductive PatElem where
  | star
  | char (c : Char)

namespace PatElem

def merge (elem₁ elem₂ : PatElem) : PatElem :=
  match elem₁, elem₂ with
  | .star, .star => .star
  | .char _, .char c₂ => .char c₂
  | _, _ => elem₂

def parseField (t : Tag) : Parser (MergeFn PatElem) :=
  match t.fieldNum with
  | 1 => parseOneof Field.bool t merge fun _ => .star
  | 2 => parseOneof Field.uint32 t merge fun x => .char (Char.ofNat x.toNat)
  | _ => skipField t

def message : Message PatElem := ⟨.star, parseField, merge⟩

def toCedar (elem : PatElem) : SymCC.PatElem :=
  match elem with
  | .star => .star
  | .char c => .justChar c

end PatElem

abbrev Pattern := List PatElem

namespace Pattern

def merge (p₁ p₂ : Pattern) : Pattern := p₁ ++ p₂

def parseField (t : Tag) : Parser (MergeFn Pattern) :=
  match t.fieldNum with
  | 1 => parseOneof (Field.repeated PatElem.message.field) t merge id
  | _ => skipField t

def message : Message Pattern := ⟨[], parseField, merge⟩

def toCedar (p : Pattern) : List SymCC.PatElem := p.map PatElem.toCedar

end Pattern

inductive Op where
  | base (bop : BaseOp)
  | uuf (f : UUF)
  | zero_extend (n : ℕ)
  | recordGet (attr : String)
  | stringLike (p : Pattern)
  | ext (xop : ExtOp)

namespace Op

def merge (op₁ op₂ : Op) : Op :=
  match op₁, op₂ with
  | .base bop₁, .base bop₂ => .base ((Field.enum BaseOp.fromInt).merge bop₁ bop₂)
  | .uuf f₁, .uuf f₂ => .uuf (f₁.merge f₂)
  | .zero_extend _, .zero_extend n => .zero_extend n
  | .recordGet s, .recordGet t => .recordGet (Field.string.merge s t)
  | .stringLike p₁, .stringLike p₂ => .stringLike (Pattern.merge p₁ p₂)
  | .ext xop₁, .ext xop₂ => .ext ((Field.enum ExtOp.fromInt).merge xop₁ xop₂)
  | _, _ => op₂

def parseField (fuel : ℕ) (t : Tag) : Parser (MergeFn Op) :=
  match t.fieldNum with
  | 1 => parseOneof (Field.enum BaseOp.fromInt) t merge .base
  | 2 => parseOneof (UUF.message fuel).field t merge .uuf
  | 3 => parseOneof Field.uint32 t merge fun x => .zero_extend x.toNat
  | 4 => parseOneof Field.string t merge .recordGet
  | 5 => parseOneof Pattern.message.field t merge .stringLike
  | 6 => parseOneof (Field.enum ExtOp.fromInt) t merge .ext
  | _ => skipField t

def message (fuel : ℕ) : Message Op := ⟨.base .not, parseField fuel, merge⟩

def toCedar (op : Op) : SymCC.Op :=
  match op with
  | .base bop => bop.toCedar
  | .uuf f => .uuf f.toCedar
  | .zero_extend n => .zeroExtend n
  | .recordGet attr => .recordGet attr
  | .stringLike p => .stringLike (Pattern.toCedar p)
  | .ext xop => .ext xop.toCedar

end Op

/-! ## Values -/

structure Bitvec where
  width : UInt32
  val : String

namespace Bitvec

def merge (_bv₁ bv₂ : Bitvec) : Bitvec := bv₂

def parseField (t : Tag) : Parser (MergeFn Bitvec) :=
  match t.fieldNum with
  | 1 => parseFieldElement Field.uint32 t Bitvec.width fun x width => { x with width }
  | 2 => parseFieldElement Field.string t Bitvec.val fun x val => { x with val }
  | _ => skipField t

def message : Message Bitvec := ⟨⟨0, ""⟩, parseField, merge⟩

def toCedar (bv : Bitvec) : Option ((n : ℕ) × BitVec n) := do
  let n := bv.width.toNat
  let bv ← bv.val.toNat?
  return ⟨n, BitVec.ofNat n bv⟩

end Bitvec

structure Decimal where
  val : ℤ

namespace Decimal

def merge (_d₁ d₂ : Decimal) : Decimal := d₂

def parseField (t : Tag) : Parser (MergeFn Decimal) :=
  match t.fieldNum with
  | 1 => parseFieldElement Field.int64 t Decimal.val fun x val => { x with val }
  | _ => skipField t

def message : Message Decimal := ⟨⟨0⟩, parseField, merge⟩

def toCedar (d : Decimal) : Extension.Decimal := Int64.ofInt d.val

end Decimal

structure Cidr where
  addr : Bitvec
  pre : Option Bitvec

namespace Cidr

def merge (cidr₁ cidr₂ : Cidr) : Cidr :=
  let addr := cidr₁.addr.merge cidr₂.addr
  let pre := match cidr₁.pre, cidr₂.pre with
    | some pre₁, some pre₂ => some (pre₁.merge pre₂)
    | some pre₁, none => some pre₁
    | _, _ => cidr₂.pre
  ⟨addr, pre⟩

def parseField (t : Tag) : Parser (MergeFn Cidr) :=
  match t.fieldNum with
  | 1 => parseFieldElement Bitvec.message.field t Cidr.addr fun x addr => { x with addr }
  | 2 =>
    parseFieldElement (Field.option Bitvec.message.field) t Cidr.pre fun x pre => { x with pre }
  | _ => skipField t

def message : Message Cidr := ⟨⟨⟨0, ""⟩, none⟩, parseField, merge⟩

def prefixToCedar (w : ℕ) (pre : Option Bitvec) : Option (Extension.IPNetPrefix w) :=
  match pre with
  | none => some none
  | some pre =>
    match pre.toCedar with
    | none => none
    | some ⟨w₂, pre⟩ => if h₂ : w = w₂ then some (some (pre.cast h₂.symm)) else none

/-- None if the widths of address and prefix are not those of the kind. -/
def toCedar (c : Cidr) (w : ℕ) : Option (Extension.CIDR w) := do
  let ⟨w₁, addr⟩ ← c.addr.toCedar
  if h₁ : 2 ^ w = w₁ then do
    let pre ← prefixToCedar w c.pre
    some ⟨addr.cast h₁.symm, pre⟩
  else none

end Cidr

inductive IpAddr where
  | v4 (cidr : Cidr)
  | v6 (cidr : Cidr)

namespace IpAddr

def merge (ip₁ ip₂ : IpAddr) : IpAddr :=
  match ip₁, ip₂ with
  | .v4 cidr₁, .v4 cidr₂ => .v4 (cidr₁.merge cidr₂)
  | .v6 cidr₁, .v6 cidr₂ => .v6 (cidr₁.merge cidr₂)
  | _, _ => ip₂

def parseField (t : Tag) : Parser (MergeFn IpAddr) :=
  match t.fieldNum with
  | 1 => parseOneof Cidr.message.field t merge .v4
  | 2 => parseOneof Cidr.message.field t merge .v6
  | _ => skipField t

def message : Message IpAddr := ⟨.v4 ⟨⟨0, ""⟩, none⟩, parseField, merge⟩

def toCedar (ip : IpAddr) : Option Extension.IPNet :=
  match ip with
  | .v4 cidr => do
    let cidr ← cidr.toCedar 5
    return .V4 cidr
  | .v6 cidr => do
    let cidr ← cidr.toCedar 7
    return .V6 cidr

end IpAddr

structure Datetime where
  val : ℤ

namespace Datetime

def merge (_dt₁ dt₂ : Datetime) : Datetime := dt₂

def parseField (t : Tag) : Parser (MergeFn Datetime) :=
  match t.fieldNum with
  | 1 => parseFieldElement Field.int64 t Datetime.val fun x val => { x with val }
  | _ => skipField t

def message : Message Datetime := ⟨⟨0⟩, parseField, merge⟩

def toCedar (d : Datetime) : Extension.Datetime := ⟨Int64.ofInt d.val⟩

end Datetime

structure Duration where
  val : ℤ

namespace Duration

def merge (_dur₁ dur₂ : Duration) : Duration := dur₂

def parseField (t : Tag) : Parser (MergeFn Duration) :=
  match t.fieldNum with
  | 1 => parseFieldElement Field.int64 t Duration.val fun x val => { x with val }
  | _ => skipField t

def message : Message Duration := ⟨⟨0⟩, parseField, merge⟩

def toCedar (d : Duration) : Extension.Duration := ⟨Int64.ofInt d.val⟩

end Duration

inductive Ext where
  | decimal (d : Decimal)
  | ipaddr (ip : IpAddr)
  | datetime (dt : Datetime)
  | duration (dur : Duration)

namespace Ext

def merge (ext₁ ext₂ : Ext) : Ext :=
  match ext₁, ext₂ with
  | .decimal d₁, .decimal d₂ => .decimal (d₁.merge d₂)
  | .ipaddr ip₁, .ipaddr ip₂ => .ipaddr (ip₁.merge ip₂)
  | .datetime dt₁, .datetime dt₂ => .datetime (dt₁.merge dt₂)
  | .duration dur₁, .duration dur₂ => .duration (dur₁.merge dur₂)
  | _, _ => ext₂

def parseField (t : Tag) : Parser (MergeFn Ext) :=
  match t.fieldNum with
  | 1 => parseOneof Decimal.message.field t merge .decimal
  | 2 => parseOneof IpAddr.message.field t merge .ipaddr
  | 3 => parseOneof Datetime.message.field t merge .datetime
  | 4 => parseOneof Duration.message.field t merge .duration
  | _ => skipField t

def message : Message Ext := ⟨.decimal ⟨0⟩, parseField, merge⟩

def toCedar (ext : Ext) : Option Extension.Ext :=
  match ext with
  | .decimal d => some (.decimal d.toCedar)
  | .ipaddr ip => do
    let ip ← ip.toCedar
    some (.ipaddr ip)
  | .datetime dt => some (.datetime dt.toCedar)
  | .duration dur => some (.duration dur.toCedar)

end Ext

/-! ## Terms -/

structure TermVar where
  id : String
  ty : TermType

namespace TermVar

def merge (v₁ v₂ : TermVar) : TermVar := ⟨Field.string.merge v₁.id v₂.id, v₁.ty.merge v₂.ty⟩

def parseField (fuel : ℕ) (t : Tag) : Parser (MergeFn TermVar) :=
  match t.fieldNum with
  | 1 => parseFieldElement Field.string t TermVar.id fun x id => { x with id }
  | 2 => parseFieldElement (TermType.message fuel).field t TermVar.ty fun x ty => { x with ty }
  | _ => skipField t

def message (fuel : ℕ) : Message TermVar := ⟨⟨"", TermType.init⟩, parseField fuel, merge⟩

def toCedar (v : TermVar) : SymCC.TermVar := ⟨v.id, v.ty.toCedarTermType⟩

end TermVar

inductive TermPrim where
  | bool (b : Bool)
  | bitvec (bv : Bitvec)
  | string (s : String)
  | entity (euid : SymCC.EntityUID)
  | ext (xt : Ext)

namespace TermPrim

def merge (t₁ t₂ : TermPrim) : TermPrim :=
  match t₁, t₂ with
  | .bool b₁, .bool b₂ => .bool (Field.bool.merge b₁ b₂)
  | .bitvec bv₁, .bitvec bv₂ => .bitvec (bv₁.merge bv₂)
  | .string s₁, .string s₂ => .string (Field.string.merge s₁ s₂)
  | .entity euid₁, .entity euid₂ => .entity (EntityUID.merge euid₁ euid₂)
  | .ext ext₁, .ext ext₂ => .ext (ext₁.merge ext₂)
  | _, _ => t₂

def parseField (t : Tag) : Parser (MergeFn TermPrim) :=
  match t.fieldNum with
  | 1 => parseOneof Field.bool t merge .bool
  | 2 => parseOneof Bitvec.message.field t merge .bitvec
  | 3 => parseOneof Field.string t merge .string
  | 4 => parseOneof EntityUID.message.field t merge .entity
  | 5 => parseOneof Ext.message.field t merge .ext
  | _ => skipField t

def message : Message TermPrim := ⟨.bool false, parseField, merge⟩

def toCedar (t : TermPrim) : Option SymCC.TermPrim :=
  match t with
  | .bool b => some (.bool b)
  | .bitvec bv => do
    let ⟨_, bv⟩ ← bv.toCedar
    some (.bitvec bv)
  | .string s => some (.string s)
  | .entity euid => some (.entity euid)
  | .ext xt => do
    let xt ← xt.toCedar
    some (.ext xt)

end TermPrim

mutual

inductive Term where
  | prim (p : TermPrim)
  | var (v : TermVar)
  | none (ty : TermType)
  | some (t : Term)
  | set (s : Set)
  | record (r : Record)
  | app (a : App)

structure Set where
  elts : List Term
  ty : TermType

structure RecordField where
  attr : String
  term : Term

structure Record where
  fields : List RecordField

structure App where
  op : Op
  args : List Term
  ty : TermType

end

def Record.merge (r₁ r₂ : Record) : Record := ⟨r₁.fields ++ r₂.fields⟩

def Set.merge (s₁ s₂ : Set) : Set := ⟨s₁.elts ++ s₂.elts, s₁.ty.merge s₂.ty⟩

def App.merge (app₁ app₂ : App) : App :=
  ⟨app₁.op.merge app₂.op, app₁.args ++ app₂.args, app₁.ty.merge app₂.ty⟩

def Term.merge (t₁ t₂ : Term) : Term :=
  match t₁, t₂ with
  | .prim p₁, .prim p₂ => .prim (p₁.merge p₂)
  | .var v₁, .var v₂ => .var (v₁.merge v₂)
  | .none ty₁, .none ty₂ => .none (ty₁.merge ty₂)
  | .some t₁, .some t₂ => .some (t₁.merge t₂)
  | .set s₁, .set s₂ => .set (s₁.merge s₂)
  | .record r₁, .record r₂ => .record (r₁.merge r₂)
  | .app app₁, .app app₂ => .app (app₁.merge app₂)
  | _, _ => t₂

def RecordField.merge (rf₁ rf₂ : RecordField) : RecordField :=
  ⟨Field.string.merge rf₁.attr rf₂.attr, rf₁.term.merge rf₂.term⟩

def Term.init : Term := .prim (.bool false)

/-- The parsers of the messages that terms consist of, given the one for terms. -/
def RecordField.parseField (term : Message Term) (t : Tag) : Parser (MergeFn RecordField) :=
  match t.fieldNum with
  | 1 => parseFieldElement Field.string t RecordField.attr fun x attr => { x with attr }
  | 2 => parseFieldElement term.field t RecordField.term fun x term => { x with term }
  | _ => skipField t

def RecordField.message (term : Message Term) : Message RecordField :=
  ⟨⟨"", Term.init⟩, RecordField.parseField term, RecordField.merge⟩

def Record.parseField (term : Message Term) (t : Tag) : Parser (MergeFn Record) :=
  match t.fieldNum with
  | 1 =>
    parseOneof (Field.repeated (RecordField.message term).field) t Record.merge Record.mk
  | _ => skipField t

def Record.message (term : Message Term) : Message Record :=
  ⟨⟨[]⟩, Record.parseField term, Record.merge⟩

def Set.parseField (fuel : ℕ) (term : Message Term) (t : Tag) : Parser (MergeFn Set) :=
  match t.fieldNum with
  | 1 => parseFieldElement (Field.repeated term.field) t Set.elts fun x elts => { x with elts }
  | 2 => parseFieldElement (TermType.message fuel).field t Set.ty fun x ty => { x with ty }
  | _ => skipField t

def Set.message (fuel : ℕ) (term : Message Term) : Message Set :=
  ⟨⟨[], TermType.init⟩, Set.parseField fuel term, Set.merge⟩

def App.parseField (fuel : ℕ) (term : Message Term) (t : Tag) : Parser (MergeFn App) :=
  match t.fieldNum with
  | 1 => parseFieldElement (Op.message fuel).field t App.op fun x op => { x with op }
  | 2 => parseFieldElement (Field.repeated term.field) t App.args fun x args => { x with args }
  | 3 => parseFieldElement (TermType.message fuel).field t App.ty fun x ty => { x with ty }
  | _ => skipField t

def App.message (fuel : ℕ) (term : Message Term) : Message App :=
  ⟨⟨.base .not, [], TermType.init⟩, App.parseField fuel term, App.merge⟩

namespace Term

def parseField : ℕ → Tag → Parser (MergeFn Term)
  | 0, _ => fail "out of fuel"
  | fuel + 1, t =>
    let term : Message Term := ⟨init, parseField fuel, merge⟩
    match t.fieldNum with
    | 1 => parseOneof TermPrim.message.field t merge .prim
    | 2 => parseOneof (TermVar.message fuel).field t merge .var
    | 3 => parseOneof (TermType.message fuel).field t merge .none
    | 4 => parseOneof term.field t merge .some
    | 5 => parseOneof (Set.message fuel term).field t merge .set
    | 6 => parseOneof (Record.message term).field t merge .record
    | 7 => parseOneof (App.message fuel term).field t merge .app
    | _ => skipField t

def message (fuel : ℕ) : Message Term := ⟨init, parseField fuel, merge⟩

end Term

mutual

def Term.toCedar : Term → Option SymCC.Term
  | .prim p => do
    let p ← p.toCedar
    return .prim p
  | .var v => return .var v.toCedar
  | .none ty => return .none ty.toCedarTermType
  | .some t => do
    let t ← t.toCedar
    return .some t
  | .set ⟨elts, ty⟩ => do
    let elts ← termsToCedar elts
    return .set elts ty.toCedarTermType
  | .record ⟨fields⟩ => do
    let attrs ← fieldsToCedar fields
    return .record attrs
  | .app ⟨op, args, ty⟩ => do
    let args ← termsToCedar args
    return .app op.toCedar args ty.toCedarTermType

def termsToCedar : List Term → Option (List SymCC.Term)
  | [] => some []
  | t :: ts => do
    let t ← t.toCedar
    let ts ← termsToCedar ts
    return t :: ts

def fieldsToCedar : List RecordField → Option (List (String × SymCC.Term))
  | [] => some []
  | ⟨attr, t⟩ :: fields => do
    let t ← t.toCedar
    let fields ← fieldsToCedar fields
    return (attr, t) :: fields

end

/-- A message inside another one is shorter, so the length of the input is fuel enough. -/
def decode (b : Bytes) : Except String (Option SymCC.Term) := do
  let term ← (Term.message b.length).interpret? b
  return term.toCedar

end CedarSpec.SymCC.Proto
