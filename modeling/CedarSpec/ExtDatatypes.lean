import CedarSpec.ExtValues

/-! Extension values on their way back from the solver: as JSON, as the data types of the
foreign interface, and as the expressions built from these. -/

namespace CedarSpec.Datatypes

open Text

/-! ## The data types -/

structure Bitvec where
  width : UInt8
  val : String
  deriving DecidableEq

structure Decimal where
  val : Int64
  deriving DecidableEq

structure Cidr where
  addr : Bitvec
  pre : Option Bitvec
  deriving DecidableEq

inductive IpAddr where
  | V4 (cidr : Cidr)
  | V6 (cidr : Cidr)
  deriving DecidableEq

structure Datetime where
  val : Int64
  deriving DecidableEq

structure Duration where
  val : Int64
  deriving DecidableEq

inductive Ext where
  | decimal (d : Decimal)
  | ipaddr (ip : IpAddr)
  | datetime (dt : Datetime)
  | duration (dur : Duration)
  deriving DecidableEq

/-! ## JSON -/

inductive Json where
  | null
  | num (i : ℤ)
  | str (s : String)
  | obj (fields : List (String × Json))

def natToString (n : ℕ) : String := String.ofList (Nat.toDigits 10 n)

def bitVecToJson {n : ℕ} (bv : BitVec n) : Json :=
  .obj [("size", .num n), ("value", .str (natToString bv.toNat))]

def int64ToJson (i : Int64) : Json := .num i.toInt

def cidrToJson {w : ℕ} (cidr : Extension.CIDR w) : Json :=
  .obj [("addr", bitVecToJson cidr.addr),
    ("pre", match cidr.pre with
      | none => .null
      | some pre => bitVecToJson pre)]

def ipNetToJson : Extension.IPNet → Json
  | .V4 cidr => .obj [("V4", cidrToJson cidr)]
  | .V6 cidr => .obj [("V6", cidrToJson cidr)]

def extToJson : Extension.Ext → Json
  | .decimal d => .obj [("decimal", .obj [("d", int64ToJson d)])]
  | .ipaddr ip => .obj [("ipaddr", .obj [("ip", ipNetToJson ip)])]
  | .datetime dt => .obj [("datetime", .obj [("dt", .obj [("val", int64ToJson dt.val)])])]
  | .duration dur => .obj [("duration", .obj [("dur", .obj [("val", int64ToJson dur.val)])])]

def Json.field (name : String) : Json → Option Json
  | .obj fields => fields.lookup name
  | _ => none

def deserializeI64 : Json → Option Int64
  | .num i => Extension.ofInt? i
  | _ => none

def deserializeU8 : Json → Option UInt8
  | .num i => if 0 ≤ i ∧ i < 256 then some (UInt8.ofNat i.toNat) else none
  | _ => none

def deserializeString : Json → Option String
  | .str s => some s
  | _ => none

def deserializeBitvec (j : Json) : Option Bitvec := do
  let width ← deserializeU8 (← j.field "size")
  let val ← deserializeString (← j.field "value")
  some ⟨width, val⟩

/-- A missing field and a null are both no prefix. -/
def deserializePrefix (j : Option Json) : Option (Option Bitvec) :=
  match j with
  | none | some .null => some none
  | some j => (deserializeBitvec j).map some

def deserializeCidr (j : Json) : Option Cidr := do
  let addr ← deserializeBitvec (← j.field "addr")
  let pre ← deserializePrefix (j.field "pre")
  some ⟨addr, pre⟩

/-- An enumeration is an object whose one key is the variant. -/
def deserializeVariant : Json → Option (String × Json)
  | .obj [entry] => some entry
  | _ => none

def deserializeIpAddr (j : Json) : Option IpAddr := do
  let (tag, j) ← deserializeVariant j
  match tag with
  | "V4" => (deserializeCidr j).map .V4
  | "V6" => (deserializeCidr j).map .V6
  | _ => none

def deserializeVal (j : Json) : Option Int64 := do
  deserializeI64 (← j.field "val")

def deserializeExt (j : Json) : Option Ext := do
  let (tag, j) ← deserializeVariant j
  match tag with
  | "decimal" => (j.field "d").bind fun d => (deserializeI64 d).map fun d => .decimal ⟨d⟩
  | "ipaddr" => (j.field "ip").bind fun ip => (deserializeIpAddr ip).map .ipaddr
  | "datetime" => (j.field "dt").bind fun dt => (deserializeVal dt).map fun v => .datetime ⟨v⟩
  | "duration" => (j.field "dur").bind fun dur => (deserializeVal dur).map fun v => .duration ⟨v⟩
  | _ => none

/-! ## Texts of values -/

def dropPlus (s : List Char) : List Char :=
  match s with
  | '+' :: rest => rest
  | _ => s

/-- Reading an unsigned number of `bits` bits. -/
def parseUnsigned (bits : ℕ) (s : List Char) : Option ℕ :=
  let digits := dropPlus s
  if digits ≠ [] ∧ digits.all Char.isDigit ∧ Nat.ofDigitChars 10 digits 0 < 2 ^ bits then
    some (Nat.ofDigitChars 10 digits 0)
  else none

/-- None where the assertion or the reading fails, which panics. -/
def Bitvec.asU64 (bv : Bitvec) : Option UInt64 :=
  if bv.width ≤ 64 then (parseUnsigned 64 bv.val.toList).map UInt64.ofNat else none

def Bitvec.asU128 (bv : Bitvec) : Option (BitVec 128) :=
  if bv.width ≤ 128 then (parseUnsigned 128 bv.val.toList).map (BitVec.ofNat 128) else none

def Decimal.text (decimal : Decimal) : List Char :=
  let neg := if decimal.val < 0 then ['-'] else []
  let absval := decimal.val.toInt.natAbs
  let left := absval / 10000
  let right := absval % 10000
  neg ++ Nat.toDigits 10 left ++ '.' :: padZeros 4 right

/-- The dotted form of four octets. -/
def dotted (a₀ a₁ a₂ a₃ : ℕ) : List Char :=
  Nat.toDigits 10 a₀ ++ '.' :: (Nat.toDigits 10 a₁ ++ '.' ::
    (Nat.toDigits 10 a₂ ++ '.' :: Nat.toDigits 10 a₃))

/-- The eight segments of an IPv6 address. -/
def segments (addr : BitVec 128) : List (BitVec 16) :=
  [(addr >>> 112).setWidth 16, (addr >>> 96).setWidth 16, (addr >>> 80).setWidth 16,
    (addr >>> 64).setWidth 16, (addr >>> 48).setWidth 16, (addr >>> 32).setWidth 16,
    (addr >>> 16).setWidth 16, addr.setWidth 16]

/-- An address of `::ffff:0:0/96` stands for the IPv4 address in its last 32 bits. -/
def toIpv4Mapped (addr : BitVec 128) : Option (BitVec 32) :=
  if addr >>> 32 = 0xffff#128 then some (addr.setWidth 32) else none

def displayIpv4 (addr : BitVec 32) : List Char :=
  dotted ((addr >>> 24).setWidth 8).toNat ((addr >>> 16).setWidth 8).toNat
    ((addr >>> 8).setWidth 8).toNat (addr.setWidth 8).toNat

/-- A run of zero segments. -/
structure Span where
  start : ℕ := 0
  len : ℕ := 0

/-- The longest run so far and the one that ends here. -/
structure Scan where
  longest : Span := {}
  current : Span := {}

def Scan.next (scan : Scan) (entry : BitVec 16 × ℕ) : Scan :=
  if entry.1 = 0 then
    let start := if scan.current.len = 0 then entry.2 else scan.current.start
    let current : Span := ⟨start, scan.current.len + 1⟩
    ⟨if current.len > scan.longest.len then current else scan.longest, current⟩
  else ⟨scan.longest, {}⟩

def longestZeroes (segs : List (BitVec 16)) : Span := (segs.zipIdx.foldl Scan.next {}).longest

def fmtSubslice : List (BitVec 16) → List Char
  | [] => []
  | first :: tail =>
    Nat.toDigits 16 first.toNat ++ tail.flatMap fun seg => ':' :: Nat.toDigits 16 seg.toNat

/-- An IPv6 address as the standard library prints it. -/
def displayIpv6 (addr : BitVec 128) : List Char :=
  let segs := segments addr
  match toIpv4Mapped addr with
  | some ipv4 => [':', ':', 'f', 'f', 'f', 'f', ':'] ++ displayIpv4 ipv4
  | none =>
    let zeroes := longestZeroes segs
    if zeroes.len > 1 then
      fmtSubslice (segs.take zeroes.start) ++ ':' :: ':' ::
        fmtSubslice (segs.drop (zeroes.start + zeroes.len))
    else fmtSubslice segs

def prefixLength (pre : Option Bitvec) (whole : UInt64) : Option UInt64 :=
  match pre with
  | none => some whole
  | some p => p.asU64

def IpAddr.text : IpAddr → Option (List Char)
  | .V4 cidr => do
    let addr ← cidr.addr.asU64
    let pre ← prefixLength cidr.pre 32
    some (dotted ((addr >>> 24) &&& 0xFF).toNat ((addr >>> 16) &&& 0xFF).toNat
      ((addr >>> 8) &&& 0xFF).toNat (addr &&& 0xFF).toNat ++ '/' :: Nat.toDigits 10 pre.toNat)
  | .V6 cidr => do
    let v6 ← cidr.addr.asU128
    let pre ← prefixLength cidr.pre 128
    some (displayIpv6 v6 ++ '/' :: Nat.toDigits 10 pre.toNat)

def millisText (val : Int64) : List Char := ofInt val.toInt ++ ['m', 's']

/-! ## Expressions -/

inductive RestrictedExpr where
  | val (s : String)
  | callExtensionFn (name : String) (args : List RestrictedExpr)

def constructor (name : String) (text : List Char) : RestrictedExpr :=
  .callExtensionFn name [.val (String.ofList text)]

def Decimal.toRestrictedExpr (decimal : Decimal) : RestrictedExpr :=
  constructor "decimal" decimal.text

def IpAddr.toRestrictedExpr (ip : IpAddr) : Option RestrictedExpr :=
  ip.text.map (constructor "ip")

/-- The epoch, moved by as many milliseconds as the value counts. -/
def Datetime.toRestrictedExpr (dt : Datetime) : RestrictedExpr :=
  let epoch := constructor "datetime" ['1', '9', '7', '0', '-', '0', '1', '-', '0', '1']
  let millisSinceEpoch := constructor "duration" (millisText dt.val)
  .callExtensionFn "offset" [epoch, millisSinceEpoch]

def Duration.toRestrictedExpr (dur : Duration) : RestrictedExpr :=
  constructor "duration" (millisText dur.val)

def Ext.toRestrictedExpr : Ext → Option RestrictedExpr
  | .decimal d => some d.toRestrictedExpr
  | .ipaddr ip => ip.toRestrictedExpr
  | .datetime dt => some dt.toRestrictedExpr
  | .duration dur => some dur.toRestrictedExpr

/-- The extension function of a name. -/
def extensionFunction (name : String) : Option Extension.ExtFun :=
  match name with
  | "decimal" => some .decimal
  | "ip" => some .ip
  | "datetime" => some .datetime
  | "duration" => some .duration
  | "offset" => some .offset
  | _ => none

mutual

def RestrictedExpr.toExpr : RestrictedExpr → Option Extension.Expr
  | .val s => some (.lit s)
  | .callExtensionFn name args => do
    let xfn ← extensionFunction name
    let xs ← toExprs args
    some (.call xfn xs)

def toExprs : List RestrictedExpr → Option (List Extension.Expr)
  | [] => some []
  | arg :: args => do
    let x ← arg.toExpr
    let xs ← toExprs args
    some (x :: xs)

end

/-- An extension value sent to the other side and written down there as an expression. -/
def render (x : Extension.Ext) : Option RestrictedExpr := do
  let x ← deserializeExt (extToJson x)
  x.toRestrictedExpr

/-- The expression is built without a panic, its constructors accept their arguments, and it
evaluates to the value. -/
def ReadsBack (x : Extension.Ext) : Prop :=
  ∃ e x', render x = some e ∧ e.toExpr = some x' ∧ Extension.evaluate x' = .ok (.ext x)

end CedarSpec.Datatypes
