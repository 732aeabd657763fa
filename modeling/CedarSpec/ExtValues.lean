import CedarSpec.Text

/-! Cedar's extension values, their constructors, and the evaluation of calls to them. -/

namespace CedarSpec.Extension

open Text

/-! ## Checked 64-bit integers -/

def int64Min : ℤ := -9223372036854775808
def int64Max : ℤ := 9223372036854775807

def ofInt? (i : ℤ) : Option Int64 :=
  if int64Min ≤ i ∧ i ≤ int64Max then some (Int64.ofInt i) else none

def add? (i₁ i₂ : Int64) : Option Int64 := ofInt? (i₁.toInt + i₂.toInt)

def toInt?' (str : List Char) : Option ℤ := if str.contains '_' then none else toInt? str

def toNat?' (str : List Char) : Option ℕ := if str.contains '_' then none else toNat? str

theorem ofInt?_toInt (i : Int64) : ofInt? i.toInt = some i := by
  have hmin : int64Min ≤ i.toInt := by simpa [int64Min] using i.le_toInt
  have hmax : i.toInt ≤ int64Max := by
    have hlt := i.toInt_lt
    simp only [int64Max]
    omega
  rw [ofInt?, if_pos ⟨hmin, hmax⟩, Int64.ofInt_toInt]

/-- Without underscores the checked readers are the plain ones. -/
theorem toNat?'_eq {str : List Char} (h : '_' ∉ str) : toNat?' str = toNat? str := by
  simp [toNat?', h]

theorem toInt?'_eq {str : List Char} (h : '_' ∉ str) : toInt?' str = toInt? str := by
  simp [toInt?', h]

/-! ## Decimals -/

def decimalDigits : ℕ := 4

/-- A decimal `v` is kept as the integer `10000 * v`. -/
abbrev Decimal := Int64

def Decimal.parse (str : List Char) : Option Decimal :=
  match str.splitOnP (· = '.') with
  | [['-'], _] => none
  | [left, right] =>
    let rlen := right.length
    if 0 < rlen ∧ rlen ≤ decimalDigits then
      match toInt?' left, toNat?' right with
      | some l, some r =>
        let l' := l * 10 ^ decimalDigits
        let r' := (r : ℤ) * 10 ^ (decimalDigits - rlen)
        let i := if !(['-'].isPrefixOf left) then l' + r' else l' - r'
        ofInt? i
      | _, _ => none
    else none
  | _ => none

/-! ## IP addresses -/

abbrev addrSize (w : ℕ) : ℕ := 2 ^ w

abbrev v4Width : ℕ := 5
abbrev v6Width : ℕ := 7

abbrev IPNetAddr (w : ℕ) := BitVec (addrSize w)
abbrev IPv4Addr := IPNetAddr v4Width
abbrev IPv6Addr := IPNetAddr v6Width

def IPv4Addr.mk (a₀ a₁ a₂ a₃ : BitVec 8) : IPv4Addr := a₀ ++ a₁ ++ a₂ ++ a₃

def IPv6Addr.mk (a₀ a₁ a₂ a₃ a₄ a₅ a₆ a₇ : BitVec 16) : IPv6Addr :=
  a₀ ++ a₁ ++ a₂ ++ a₃ ++ a₄ ++ a₅ ++ a₆ ++ a₇

/-- The length of a prefix; none stands for the whole address. -/
abbrev IPNetPrefix (w : ℕ) := Option (BitVec w)

def IPNetPrefix.ofNat (w pre : ℕ) : IPNetPrefix w :=
  if pre < addrSize w then some (BitVec.ofNat w pre) else none

def IPNetPrefix.toNat {w : ℕ} : IPNetPrefix w → ℕ
  | none => addrSize w
  | some preSize => preSize.toNat

theorem IPNetPrefix.toNat_le {w : ℕ} (pre : IPNetPrefix w) : pre.toNat ≤ addrSize w := by
  cases pre with
  | none => exact le_refl _
  | some preSize => exact le_of_lt preSize.isLt

theorem IPNetPrefix.ofNat_toNat {w : ℕ} (pre : IPNetPrefix w) : ofNat w pre.toNat = pre := by
  cases pre with
  | none => simp [ofNat, toNat]
  | some preSize =>
    have hlt : preSize.toNat < addrSize w := preSize.isLt
    simp [ofNat, toNat, hlt]

structure CIDR (w : ℕ) where
  addr : IPNetAddr w
  pre : IPNetPrefix w
  deriving DecidableEq

inductive IPNet where
  | V4 (cidr : CIDR v4Width)
  | V6 (cidr : CIDR v6Width)
  deriving DecidableEq

namespace IPAddr

def parsePrefixNat (str : List Char) (digits size : ℕ) : Option ℕ :=
  let len := str.length
  if 0 < len ∧ len ≤ digits ∧ (['0'].isPrefixOf str → str = ['0']) then do
    let n ← toNat?' str
    if n ≤ size then some n else none
  else none

def parseNumV4 (str : List Char) : Option (BitVec 8) :=
  let len := str.length
  if 0 < len ∧ len ≤ 3 ∧ (['0'].isPrefixOf str → str = ['0']) then do
    let n ← toNat?' str
    if n ≤ 0xff then some (BitVec.ofNat 8 n) else none
  else none

def parseSegsV4 (str : List Char) : Option IPv4Addr :=
  match str.splitOnP (· = '.') with
  | [s₀, s₁, s₂, s₃] => do
    let a₀ ← parseNumV4 s₀
    let a₁ ← parseNumV4 s₁
    let a₂ ← parseNumV4 s₂
    let a₃ ← parseNumV4 s₃
    some (IPv4Addr.mk a₀ a₁ a₂ a₃)
  | _ => none

/-- The prefix length that follows the address, if any. -/
def parsePrefix (rest : List (List Char)) (digits w : ℕ) : Option ℕ :=
  match rest with
  | [] => some (addrSize w)
  | [strPre] => parsePrefixNat strPre digits (addrSize w)
  | _ => none

def parseIPv4Net (str : List Char) : Option IPNet :=
  match str.splitOnP (· = '/') with
  | strV4 :: rest => do
    let pre ← parsePrefix rest 2 v4Width
    let v4 ← parseSegsV4 strV4
    some (.V4 ⟨v4, IPNetPrefix.ofNat v4Width pre⟩)
  | _ => none

def isHexDigit (c : Char) : Bool :=
  c.isDigit || ('a' ≤ c && c ≤ 'f') || ('A' ≤ c && c ≤ 'F')

def toHexNat (c : Char) : ℕ :=
  if c.isDigit then c.toNat - '0'.toNat
  else if 'a' ≤ c && c ≤ 'f' then c.toNat - 'a'.toNat + 10
  else if 'A' ≤ c && c ≤ 'F' then c.toNat - 'A'.toNat + 10
  else c.toNat

def parseNumV6 (str : List Char) : Option (BitVec 16) :=
  let len := str.length
  if 0 < len ∧ len ≤ 4 ∧ str.all isHexDigit then
    let n := str.foldl (fun n c => n * 16 + toHexNat c) 0
    if n ≤ 0xffff then some (BitVec.ofNat 16 n) else none
  else none

def parseNumSegsV6 (str : List Char) : Option (List (BitVec 16)) :=
  if str.isEmpty then some [] else (str.splitOnP (· = ':')).mapM parseNumV6

/-- The segments, with those that a double colon stands for. -/
def expandSegsV6 (str : List Char) : Option (List (BitVec 16)) :=
  match splitOn [':', ':'] str with
  | [s₁] => parseNumSegsV6 s₁
  | [s₁, s₂] => do
    let ns₁ ← parseNumSegsV6 s₁
    let ns₂ ← parseNumSegsV6 s₂
    let len := ns₁.length + ns₂.length
    if len < 8 then some (ns₁ ++ List.replicate (8 - len) 0 ++ ns₂) else none
  | _ => none

def parseSegsV6 (str : List Char) : Option IPv6Addr := do
  let segs ← expandSegsV6 str
  match segs with
  | [a₀, a₁, a₂, a₃, a₄, a₅, a₆, a₇] => some (IPv6Addr.mk a₀ a₁ a₂ a₃ a₄ a₅ a₆ a₇)
  | _ => none

def parseIPv6Net (str : List Char) : Option IPNet :=
  match str.splitOnP (· = '/') with
  | strV6 :: rest => do
    let pre ← parsePrefix rest 3 v6Width
    let v6 ← parseSegsV6 strV6
    some (.V6 ⟨v6, IPNetPrefix.ofNat v6Width pre⟩)
  | _ => none

def ip (str : List Char) : Option IPNet :=
  let net := parseIPv4Net str
  if net.isSome then net else parseIPv6Net str

end IPAddr

/-! ## Datetimes -/

structure Datetime where
  val : Int64
  deriving DecidableEq

namespace Datetime

def maxOffsetSeconds : ℕ := 86400

/-- A date and a time of day in a zone `offset` seconds ahead of UTC. -/
structure ZonedTime where
  year : ℕ := 0
  month : ℕ := 0
  day : ℕ := 0
  hour : ℕ := 0
  minute : ℕ := 0
  second : ℕ := 0
  millis : ℕ := 0
  offset : ℤ := 0

def isLeapYear (year : ℕ) : Bool := year % 4 = 0 && (year % 100 ≠ 0 || year % 400 = 0)

def daysInMonth (year month : ℕ) : ℕ :=
  match month with
  | 2 => if isLeapYear year then 29 else 28
  | 4 | 6 | 9 | 11 => 30
  | _ => 31

/-- The days of the years before this one, counted from the year 0. -/
def daysBeforeYear (year : ℕ) : ℕ := 365 * year + (year + 3) / 4 - (year + 99) / 100 + (year + 399) / 400

def ZonedTime.valid (t : ZonedTime) : Bool :=
  1 ≤ t.month && t.month ≤ 12 && 1 ≤ t.day && t.day ≤ daysInMonth t.year t.month &&
    t.hour ≤ 23 && t.minute ≤ 59 && t.second ≤ 59

/-- Days since 1970-01-01. -/
def ZonedTime.epochDay (t : ZonedTime) : ℤ :=
  let dayOfYear := ((List.range' 1 (t.month - 1)).map (daysInMonth t.year)).sum + (t.day - 1)
  (daysBeforeYear t.year + dayOfYear : ℤ) - daysBeforeYear 1970

def ZonedTime.toMillisecondsSinceUnixEpoch (t : ZonedTime) : ℤ :=
  (t.epochDay * 86400 + t.hour * 3600 + t.minute * 60 + t.second - t.offset) * 1000 + t.millis

/-- The parts of a date format: `yyyy`, `MM`, `dd`, `HH`, `mm`, `ss`, `SSS`, `xx` and literal
characters. -/
inductive FormatPart where
  | year
  | month
  | day
  | hour
  | minute
  | second
  | millis
  | offset
  | literal (c : Char)

def dateOnly : List FormatPart :=
  [.year, .literal '-', .month, .literal '-', .day]

def dateAndTime : List FormatPart :=
  dateOnly ++ [.literal 'T', .hour, .literal ':', .minute, .literal ':', .second]

def dateUTC : List FormatPart := dateAndTime ++ [.literal 'Z']

def dateUTCWithMillis : List FormatPart := dateAndTime ++ [.literal '.', .millis, .literal 'Z']

def dateWithOffset : List FormatPart := dateAndTime ++ [.offset]

def dateWithOffsetAndMillis : List FormatPart := dateAndTime ++ [.literal '.', .millis, .offset]

/-- Exactly `size` digits. -/
def parseNum (size : ℕ) (str : List Char) : Option (ℕ × List Char) := do
  let digits := str.take size
  if digits.length = size ∧ digits.all Char.isDigit then
    some (Nat.ofDigitChars 10 digits 0, str.drop size)
  else none

def parseOffset (str : List Char) : Option (ℤ × List Char) := do
  let (sign, rest) ←
    match str with
    | '+' :: rest => some ((1 : ℤ), rest)
    | '-' :: rest => some (-1, rest)
    | _ => none
  let (hours, rest) ← parseNum 2 rest
  let (minutes, rest) ← parseNum 2 rest
  some (sign * (hours * 3600 + minutes * 60), rest)

def parsePart (t : ZonedTime) (str : List Char) : FormatPart → Option (ZonedTime × List Char)
  | .year => (parseNum 4 str).map fun (n, rest) => ({ t with year := n }, rest)
  | .month => (parseNum 2 str).map fun (n, rest) => ({ t with month := n }, rest)
  | .day => (parseNum 2 str).map fun (n, rest) => ({ t with day := n }, rest)
  | .hour => (parseNum 2 str).map fun (n, rest) => ({ t with hour := n }, rest)
  | .minute => (parseNum 2 str).map fun (n, rest) => ({ t with minute := n }, rest)
  | .second => (parseNum 2 str).map fun (n, rest) => ({ t with second := n }, rest)
  | .millis => (parseNum 3 str).map fun (n, rest) => ({ t with millis := n }, rest)
  | .offset => (parseOffset str).map fun (o, rest) => ({ t with offset := o }, rest)
  | .literal c =>
    match str with
    | d :: rest => if d = c then some (t, rest) else none
    | [] => none

def parseParts (t : ZonedTime) (str : List Char) : List FormatPart → Option ZonedTime
  | [] => if str.isEmpty && t.valid then some t else none
  | part :: parts => do
    let (t, rest) ← parsePart t str part
    parseParts t rest parts

def parseFormat (format : List FormatPart) (str : List Char) : Option ZonedTime :=
  parseParts {} str format

def dateContainsLeapSeconds (str : List Char) : Bool :=
  str.length ≥ 20 && str[17]? = some '6' && str[18]? = some '0'

def tzOffsetMinsLt60 (str : List Char) : Bool :=
  str.length ≤ 10 || ['Z'].isSuffixOf str ||
    match toNat? (str.rtake 2) with
    | some minsOffset => minsOffset < 60
    | none => false

def checkDateComponentLen (str : List Char) : Bool :=
  match str.splitOnP (· == '-') with
  | [year, month, day] => year.length == 4 && month.length == 2 && day.length == 2
  | _ => false

def checkTimeLen (str : List Char) : Bool :=
  match str.splitOnP (· == ':') with
  | [h, m, s] => h.length == 2 && m.length == 2 && s.length == 2
  | _ => false

def checkTimeMsOffsetComponentLen (str : List Char) : Bool :=
  match str.splitOnP (fun c => c == '.' || c == '+' || c == '-' || c == 'Z') with
  | time :: _ => checkTimeLen time
  | _ => false

def checkComponentLen (str : List Char) : Bool :=
  match str.splitOnP (· == 'T') with
  | [date] => checkDateComponentLen date
  | [date, timeMsOffset] =>
    checkDateComponentLen date && checkTimeMsOffsetComponentLen timeMsOffset
  | _ => false

def datetime? (i : ℤ) : Option Datetime := (ofInt? i).map Datetime.mk

def parse (str : List Char) : Option Datetime := do
  if dateContainsLeapSeconds str then none
  if !checkComponentLen str then none
  if !tzOffsetMinsLt60 str then none
  let zonedTime ← parseFormat dateOnly str <|> parseFormat dateUTC str <|>
    parseFormat dateUTCWithMillis str <|> parseFormat dateWithOffset str <|>
    parseFormat dateWithOffsetAndMillis str
  if zonedTime.offset.natAbs < maxOffsetSeconds then
    datetime? zonedTime.toMillisecondsSinceUnixEpoch
  else none

end Datetime

/-! ## Durations -/

structure Duration where
  val : Int64
  deriving DecidableEq

namespace Duration

def millisecondsPerSecond : ℤ := 1000
def millisecondsPerMinute : ℤ := 60000
def millisecondsPerHour : ℤ := 3600000
def millisecondsPerDay : ℤ := 86400000

inductive DurationUnit where
  | ms
  | s
  | m
  | h
  | d

def DurationUnit.suffix : DurationUnit → List Char
  | .ms => ['m', 's']
  | .s => ['s']
  | .m => ['m']
  | .h => ['h']
  | .d => ['d']

def duration? (i : ℤ) : Option Duration := (ofInt? i).map Duration.mk

def durationUnits? (n : ℤ) (suffix : DurationUnit) : Option ℤ :=
  match ofInt? n with
  | none => none
  | some i =>
    match suffix with
    | .ms => some i.toInt
    | .s => some (i.toInt * millisecondsPerSecond)
    | .m => some (i.toInt * millisecondsPerMinute)
    | .h => some (i.toInt * millisecondsPerHour)
    | .d => some (i.toInt * millisecondsPerDay)

def isNegativeDuration (str : List Char) : Bool × List Char :=
  match str with
  | '-' :: rest => (true, rest)
  | _ => (false, str)

def parseUnit? (isNegative : Bool) (str : List Char) (suffix : DurationUnit) :
    Option (ℤ × List Char) :=
  if suffix.suffix.isSuffixOf str then
    let newStr := str.rdrop suffix.suffix.length
    let digits := newStr.rtakeWhile Char.isDigit
    if digits.isEmpty then none
    else do
      let nUnsignedUnits ← toNat?' digits
      let nUnits := if isNegative then Int.negOfNat nUnsignedUnits else Int.ofNat nUnsignedUnits
      let units ← durationUnits? nUnits suffix
      some (units, newStr.rdrop digits.length)
  else some (0, str)

def parseDuration? (isNegative : Bool) (str : List Char) : Option Duration := do
  if str.isEmpty then none
  let (milliseconds, restStr) ← parseUnit? isNegative str .ms
  let (seconds, restStr) ← parseUnit? isNegative restStr .s
  let (minutes, restStr) ← parseUnit? isNegative restStr .m
  let (hours, restStr) ← parseUnit? isNegative restStr .h
  let (days, restStr) ← parseUnit? isNegative restStr .d
  if restStr.isEmpty then duration? (days + hours + minutes + seconds + milliseconds) else none

def parse (str : List Char) : Option Duration :=
  let (isNegative, restStr) := isNegativeDuration str
  parseDuration? isNegative restStr

end Duration

def offset (datetime : Datetime) (duration : Duration) : Option Datetime :=
  (add? datetime.val duration.val).map Datetime.mk

/-! ## Calls -/

inductive Ext where
  | decimal (d : Decimal)
  | ipaddr (ip : IPNet)
  | datetime (dt : Datetime)
  | duration (dur : Duration)
  deriving DecidableEq

inductive Value where
  | string (s : String)
  | ext (x : Ext)
  deriving DecidableEq

inductive Error where
  | typeError
  | extensionError
  deriving DecidableEq

abbrev Result (α : Type) := Except Error α

/-- The functions that build extension values. -/
inductive ExtFun where
  | decimal
  | ip
  | datetime
  | duration
  | offset
  deriving DecidableEq

def res (x : Option Ext) : Result Value :=
  match x with
  | some v => .ok (.ext v)
  | none => .error .extensionError

def call : ExtFun → List Value → Result Value
  | .decimal, [.string s] => res ((Decimal.parse s.toList).map .decimal)
  | .ip, [.string s] => res ((IPAddr.ip s.toList).map .ipaddr)
  | .datetime, [.string s] => res ((Datetime.parse s.toList).map .datetime)
  | .duration, [.string s] => res ((Duration.parse s.toList).map .duration)
  | .offset, [.ext (.datetime dt), .ext (.duration dur)] => res ((offset dt dur).map .datetime)
  | _, _ => .error .typeError

inductive Expr where
  | lit (s : String)
  | call (xfn : ExtFun) (xs : List Expr)

mutual

def evaluate : Expr → Result Value
  | .lit s => .ok (.string s)
  | .call xfn xs => do
    let vs ← evaluateAll xs
    call xfn vs

def evaluateAll : List Expr → Result (List Value)
  | [] => .ok []
  | x :: xs => do
    let v ← evaluate x
    let vs ← evaluateAll xs
    .ok (v :: vs)

end

end CedarSpec.Extension
