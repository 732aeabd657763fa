import CedarSpec.ByteParser

/-! The decoder of protobuf messages: variable-width integers, tags, fields and messages. -/

namespace CedarSpec.Protobuf

open ByteParser

inductive WireType where
  | VARINT
  | I64
  | LEN
  | SGROUP
  | EGROUP
  | I32
  deriving DecidableEq

/-! ## Variable-width integers -/

def msbSet8 (i : UInt8) : Bool := i &&& 128 != 0
def clearMsb8 (i : UInt8) : UInt8 := i &&& 127

/-- The position after the varint, of which `n` bytes have been looked at. -/
def findEndOfVarintHelper (n : ℕ) : Parser ℕ := do
  let empty ← empty
  if empty then fail "Expected more bytes"
  else if n ≥ 10 then fail "Too many bytes in this varint"
  else
    let msbSet ← inspect fun pos => msbSet8 (pos.data.getD (pos.pos + n) 0)
    if ¬msbSet then
      let pos ← pos
      pure (pos + n + 1)
    else findEndOfVarintHelper (n + 1)
termination_by 10 - n

def findVarintSize : Parser ℕ := do
  let startIdx ← pos
  let endIdx ← findEndOfVarintHelper 0
  pure (endIdx - startIdx)

/-- Seven bits of each byte, the lowest first. Shifts wrap around at the width. -/
def parseUintHelper {w : ℕ} : ℕ → ℕ → BitVec w → Parser (BitVec w)
  | 0, _, r => pure r
  | remaining + 1, p, r => do
    let byte ← nextByte
    match byte with
    | none => fail "Expected more bytes"
    | some byte =>
      let byte3 := (clearMsb8 byte).toBitVec.setWidth w <<< (7 * p % w)
      parseUintHelper remaining (p + 1) (r ||| byte3)

def parseUint (w : ℕ) : Parser (BitVec w) := do
  let remaining ← findVarintSize
  parseUintHelper remaining 0 0

def parseUint64 : Parser (BitVec 64) := parseUint 64
def parseUint32 : Parser (BitVec 32) := parseUint 32

/-- Two's complement. -/
def signed {w : ℕ} (r : BitVec w) : ℤ :=
  if r.msb then -((~~~(r - 1)).toNat : ℤ) else r.toNat

def parseInt32 : Parser ℤ := do
  let r ← parseUint32
  pure (signed r)

def parseInt64 : Parser ℤ := do
  let r ← parseUint64
  pure (signed r)

def parseBool : Parser Bool := do
  let result ← parseInt32
  if result = 1 then pure true
  else if result = 0 then pure false
  else fail "Expected 00 or 01"

/-! ## Tags and lengths -/

structure Tag where
  fieldNum : ℕ
  wireType : WireType
  deriving DecidableEq

def WireType.ofNat? : ℕ → Option WireType
  | 0 => some .VARINT
  | 1 => some .I64
  | 2 => some .LEN
  | 3 => some .SGROUP
  | 4 => some .EGROUP
  | 5 => some .I32
  | _ => none

def Tag.parse : Parser Tag := do
  let element ← parseUint32
  match WireType.ofNat? (element &&& 7).toNat with
  | some wireType => pure ⟨(element >>> 3).toNat, wireType⟩
  | none => fail "Unexpected Wire Type"

def Len.parseSize : Parser ℕ := do
  let isize ← parseInt32
  match isize with
  | .negSucc _ => fail "Expected positive size in len payload"
  | .ofNat size => pure size

def VarInt.skip : Parser Unit := do
  let size ← findVarintSize
  forward size

def Len.skip : Parser Unit := do
  let size ← parseSize
  forward size

def WireType.skip : WireType → Parser Unit
  | .VARINT => VarInt.skip
  | .I64 => forward 8
  | .LEN => Len.skip
  | .SGROUP => pure ()
  | .EGROUP => pure ()
  | .I32 => forward 4

/-! ## Fields -/

variable {α β : Type}

structure Field (α : Type) where
  parse : Parser α
  expectedWireType : WireType
  merge : α → α → α

namespace Field

/-- Replaces the former value with the latter. -/
def override (_ x : α) : α := x

def guardedParse (F : Field α) (t : Tag) : Parser α :=
  if F.expectedWireType ≠ t.wireType then fail "WireType mismatch" else F.parse

def uint32 : Field UInt32 where
  parse := do
    let r ← parseUint32
    pure (UInt32.ofBitVec r)
  expectedWireType := .VARINT
  merge := override

def int64 : Field ℤ := ⟨parseInt64, .VARINT, override⟩

def bool : Field Bool := ⟨parseBool, .VARINT, override⟩

def parseString : Parser String := do
  let lenSize ← Len.parseSize
  let stringBytes ← nextBytes lenSize
  match stringBytes with
  | some stringBytes =>
    match String.fromUTF8? ⟨stringBytes.toArray⟩ with
    | some string => pure string
    | none => fail "[parse_string] invalid UTF-8 encoding in string bytes"
  | none => fail "[parse_string] expected more bytes for string but reached end of input"

def string : Field String := ⟨parseString, .LEN, override⟩

/-- An enumeration, by the numbers of its values. -/
def enum (fromInt : ℤ → Except String α) : Field α where
  parse := do
    let wdata ← parseInt32
    ofExcept (fromInt wdata)
  expectedWireType := .VARINT
  merge := override

def option (F : Field α) : Field (Option α) where
  parse := do
    let x ← F.parse
    pure (some x)
  expectedWireType := F.expectedWireType
  merge x y :=
    match x, y with
    | some a₁, some a₂ => some (F.merge a₁ a₂)
    | _, a₂ => a₂

/-- A repeated field comes one record at a time. -/
def repeated (F : Field α) : Field (List α) where
  parse := do
    let element ← F.parse
    pure [element]
  expectedWireType := F.expectedWireType
  merge := (· ++ ·)

def fromInterField (F : Field α) (convert : α → β) (merge : β → β → β) : Field β where
  parse := do
    let m ← F.parse
    pure (convert m)
  expectedWireType := F.expectedWireType
  merge := merge

end Field

/-! ## Messages -/

/-- What a parsed field does to the message read so far. -/
def MergeFn (α : Type) : Type := α → Parser α

def pureMergeFn (f : α → α) : Parser (MergeFn α) := pure fun x => pure (f x)

def ignore : MergeFn α := pure

structure Message (α : Type) where
  default : α
  parseField : Tag → Parser (MergeFn α)
  merge : α → α → α

def skipField (t : Tag) : Parser (MergeFn α) := do
  t.wireType.skip
  pure ignore

def parseFieldElement (F : Field β) (t : Tag) (get : α → β) (update : α → β → α) :
    Parser (MergeFn α) := do
  let x ← F.guardedParse t
  pureMergeFn fun result => update result (F.merge (get result) x)

/-- A field of a oneof: the message it stands for is merged into the one read so far. -/
def parseOneof (F : Field β) (t : Tag) (merge : α → α → α) (wrap : β → α) :
    Parser (MergeFn α) := do
  let x ← F.guardedParse t
  pureMergeFn fun result => merge result (wrap x)

namespace Message

def parseMessageHelper (M : Message α) (remaining : ℕ) (result : α) : Parser α :=
  if remaining = 0 then pure result
  else do
    let empty ← empty
    if empty then fail "Expected more bytes"
    else
      let startPos ← pos
      let tag ← Tag.parse
      let f ← M.parseField tag
      let endPos ← pos
      let newResult ← f result
      let elementSize := endPos - startPos
      if elementSize = 0 then fail "[parseMessageHelper] did not make progress"
      else parseMessageHelper M (remaining - elementSize) newResult
termination_by remaining

def parseWithSize (M : Message α) (size : ℕ) : Parser α := M.parseMessageHelper size M.default

def parseWithLen (M : Message α) : Parser α := do
  let lenSize ← Len.parseSize
  M.parseWithSize lenSize

def parse (M : Message α) : Parser α := do
  let remaining ← remaining
  let message ← M.parseWithSize remaining
  eof
  pure message

def interpret? (M : Message α) (b : Bytes) : Except String α := run M.parse b

def field (M : Message α) : Field α := ⟨M.parseWithLen, .LEN, M.merge⟩

end Message

end CedarSpec.Protobuf
