import CedarSpec.IPv6Text

/-! Which extension values are read back from the expressions that the foreign interface writes
down for them. -/

namespace CedarSpec.Datatypes

open Text Extension Extension.IPAddr

/-! ## The value as the foreign interface holds it -/

def ofIPNet : IPNet → IpAddr
  | .V4 cidr => .V4 (ofCidr cidr)
  | .V6 cidr => .V6 (ofCidr cidr)

def ofExt : Extension.Ext → Ext
  | .decimal d => .decimal ⟨d⟩
  | .ipaddr ip => .ipaddr (ofIPNet ip)
  | .datetime dt => .datetime ⟨dt.val⟩
  | .duration dur => .duration ⟨dur.val⟩

theorem deserializeI64_toJson (i : Int64) : deserializeI64 (int64ToJson i) = some i :=
  ofInt?_toInt i

theorem deserializeIpAddr_toJson (ip : IPNet) :
    deserializeIpAddr (ipNetToJson ip) = some (ofIPNet ip) := by
  cases ip with
  | V4 cidr =>
    have h := deserializeCidr_toJson cidr (by decide)
    simp [deserializeIpAddr, ipNetToJson, deserializeVariant, h, ofIPNet]
  | V6 cidr =>
    have h := deserializeCidr_toJson cidr (by decide)
    simp [deserializeIpAddr, ipNetToJson, deserializeVariant, h, ofIPNet]

theorem deserializeExt_toJson (x : Extension.Ext) :
    deserializeExt (extToJson x) = some (ofExt x) := by
  cases x with
  | ipaddr ip =>
    simp [deserializeExt, extToJson, deserializeVariant, Json.field, List.lookup,
      deserializeIpAddr_toJson, ofExt]
  | decimal d | datetime d | duration d =>
    simp [deserializeExt, extToJson, deserializeVariant, Json.field, List.lookup, deserializeVal,
      deserializeI64_toJson, ofExt]

theorem render_eq (x : Extension.Ext) : render x = (ofExt x).toRestrictedExpr := by
  simp [render, deserializeExt_toJson]

/-! ## Evaluation -/

theorem toExpr_constructor {name : String} {xfn : ExtFun}
    (h : extensionFunction name = some xfn) (text : List Char) :
    (constructor name text).toExpr = some (.call xfn [.lit (String.ofList text)]) := by
  simp [constructor, RestrictedExpr.toExpr, toExprs, h]

theorem readsBack_constructor {x : Extension.Ext} {name : String} {xfn : ExtFun}
    {text : List Char} (hx : render x = some (constructor name text))
    (hname : extensionFunction name = some xfn) :
    ReadsBack x ↔ Extension.call xfn [.string (String.ofList text)] = .ok (.ext x) := by
  constructor
  · intro hy
    obtain ⟨e, x', he, hx', heval⟩ := hy
    rw [hx, Option.some.injEq] at he
    subst he
    rw [toExpr_constructor hname, Option.some.injEq] at hx'
    subst hx'
    exact heval
  · intro h
    exact ⟨_, _, hx, toExpr_constructor hname text, h⟩

/-! ## The four kinds of values -/

theorem readsBack_decimal (d : Extension.Decimal) : ReadsBack (.decimal d) := by
  refine (readsBack_constructor (render_eq _) rfl).mpr ?_
  simp [Extension.call, decimal_parse_text, res]

theorem readsBack_duration (d : Extension.Duration) : ReadsBack (.duration d) := by
  refine (readsBack_constructor (render_eq _) rfl).mpr ?_
  simp [Extension.call, duration_parse_text, res]

theorem readsBack_datetime (d : Extension.Datetime) : ReadsBack (.datetime d) := by
  have hepoch : Extension.call .datetime [.string (String.ofList
      ['1', '9', '7', '0', '-', '0', '1', '-', '0', '1'])] = .ok (.ext (.datetime ⟨0⟩)) := by
    simp [Extension.call, datetime_parse_epoch, res]
  have hmillis : Extension.call .duration [.string (String.ofList (millisText d.val))] =
      .ok (.ext (.duration ⟨d.val⟩)) := by
    simp [Extension.call, duration_parse_text, res]
  have hoffset : Extension.call .offset [.ext (.datetime ⟨0⟩), .ext (.duration ⟨d.val⟩)] =
      .ok (.ext (.datetime d)) := by
    simp [Extension.call, offset_epoch, res]
  refine ⟨_, .call .offset [.call .datetime [.lit (String.ofList
    ['1', '9', '7', '0', '-', '0', '1', '-', '0', '1'])],
    .call .duration [.lit (String.ofList (millisText d.val))]], render_eq _, ?_, ?_⟩
  · simp only [Datetime.toRestrictedExpr, RestrictedExpr.toExpr, toExprs,
      toExpr_constructor (show extensionFunction "datetime" = some .datetime from rfl),
      toExpr_constructor (show extensionFunction "duration" = some .duration from rfl)]
    rfl
  · simp only [evaluate, evaluateAll, bind, Except.bind, hepoch, hmillis, hoffset]

theorem render_ip (ip : IPNet) {text : List Char} (h : (ofIPNet ip).text = some text) :
    render (.ipaddr ip) = some (constructor "ip" text) := by
  rw [render_eq, ofExt, Ext.toRestrictedExpr, IpAddr.toRestrictedExpr, h, Option.map_some]

theorem readsBack_v4 (cidr : CIDR v4Width) : ReadsBack (.ipaddr (.V4 cidr)) := by
  refine (readsBack_constructor (render_ip (.V4 cidr) (text_v4 cidr)) rfl).mpr ?_
  rw [Extension.call, String.toList_ofList, ip_dotted]
  rfl

/-- An IPv6 network whose address lies in `::ffff:0:0/96`. -/
def IPv4Mapped : Extension.Ext → Prop
  | .ipaddr (.V6 cidr) => cidr.addr >>> 32 = 0xffff#128
  | _ => False

theorem text_v6 (cidr : CIDR v6Width) :
    (IpAddr.V6 (ofCidr cidr)).text =
      some (displayIpv6 cidr.addr ++ '/' :: Nat.toDigits 10 cidr.pre.toNat) := by
  have hpre := prefixLength_ofBitVec cidr.pre (by decide)
  have hwhole : (128 : UInt64) = UInt64.ofNat (addrSize v6Width) := rfl
  rw [IpAddr.text, ofCidr, asU128_ofBitVec, hwhole, hpre]
  simp only [Option.bind_eq_bind, Option.bind_some, toNat_prefix cidr.pre (by decide)]

theorem readsBack_v6 (cidr : CIDR v6Width) :
    ReadsBack (.ipaddr (.V6 cidr)) ↔ toIpv4Mapped cidr.addr = none := by
  rw [readsBack_constructor (render_ip (.V6 cidr) (text_v6 cidr)) rfl]
  cases h : toIpv4Mapped cidr.addr with
  | none => simp [Extension.call, ip_displayIpv6 h, res]
  | some ipv4 => simp [Extension.call, ip_ipv4Mapped h, res]

/-- Exactly the IPv4-mapped addresses are lost: they are printed with a dotted tail, which the
constructor rejects. -/
theorem readsBack_iff (x : Extension.Ext) : ReadsBack x ↔ ¬IPv4Mapped x := by
  cases x with
  | decimal d => exact iff_of_true (readsBack_decimal d) id
  | datetime d => exact iff_of_true (readsBack_datetime d) id
  | duration d => exact iff_of_true (readsBack_duration d) id
  | ipaddr ip =>
    cases ip with
    | V4 cidr => exact iff_of_true (readsBack_v4 cidr) id
    | V6 cidr => rw [readsBack_v6, toIpv4Mapped, IPv4Mapped, ite_eq_right_iff]; simp

theorem not_readsBack_mapped : ¬ReadsBack (.ipaddr (.V6 ⟨0xffff01020304#128, none⟩)) := by
  rw [readsBack_v6]
  decide

end CedarSpec.Datatypes
