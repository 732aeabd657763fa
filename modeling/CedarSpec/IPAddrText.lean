import CedarSpec.NumberText

/-! Numerals of addresses and prefixes, the bit vectors that carry them, and the texts of IPv4
networks, which are read back. -/

namespace CedarSpec.Datatypes

open Text Extension Extension.IPAddr

/-! ## Numerals of prefixes and octets -/

/-- No numeral but that of zero starts with a zero. -/
theorem toDigits_of_zero_prefix {n : ℕ} (h : ['0'].isPrefixOf (Nat.toDigits 10 n) = true) :
    Nat.toDigits 10 n = ['0'] := by
  by_cases hn : n = 0
  · rw [hn, Nat.toDigits_zero]
  · obtain ⟨rest, he⟩ := List.isPrefixOf_iff_prefix.mp h
    exact absurd (by rw [← he]; rfl) (head?_toDigits hn)

theorem parsePrefixNat_toDigits {n digits size : ℕ} (hn : n ≤ size) (hd : 0 < digits)
    (hsize : size < 10 ^ digits) : parsePrefixNat (Nat.toDigits 10 n) digits size = some n := by
  have hlen : (Nat.toDigits 10 n).length ≤ digits :=
    (Nat.length_toDigits_le_iff (by omega) hd).mpr (by omega)
  rw [parsePrefixNat, if_pos ⟨Nat.length_toDigits_pos, hlen, toDigits_of_zero_prefix⟩,
    toNat?'_toDigits]
  simp [hn]

theorem parseNumV4_toDigits {n : ℕ} (hn : n < 256) :
    parseNumV4 (Nat.toDigits 10 n) = some (BitVec.ofNat 8 n) := by
  have hlen : (Nat.toDigits 10 n).length ≤ 3 :=
    (Nat.length_toDigits_le_iff (by omega) (by omega)).mpr (by omega)
  have hle : n ≤ 0xff := by omega
  rw [parseNumV4, if_pos ⟨Nat.length_toDigits_pos, hlen, toDigits_of_zero_prefix⟩,
    toNat?'_toDigits]
  simp [hle]

theorem parseSegsV4_dotted {a₀ a₁ a₂ a₃ : ℕ} (h₀ : a₀ < 256) (h₁ : a₁ < 256) (h₂ : a₂ < 256)
    (h₃ : a₃ < 256) : parseSegsV4 (dotted a₀ a₁ a₂ a₃) =
      some (IPv4Addr.mk (BitVec.ofNat 8 a₀) (BitVec.ofNat 8 a₁) (BitVec.ofNat 8 a₂)
        (BitVec.ofNat 8 a₃)) := by
  have hdot : ∀ n, '.' ∉ Nat.toDigits 10 n := notMem_toDigits rfl
  rw [parseSegsV4, dotted, splitOnP_append (hdot a₀), splitOnP_append (hdot a₁),
    splitOnP_append (hdot a₂), splitOnP_single (hdot a₃)]
  simp [parseNumV4_toDigits, h₀, h₁, h₂, h₃]

theorem notMem_dotted {c : Char} (hc : c.isDigit = false) (hdot : c ≠ '.') (a₀ a₁ a₂ a₃ : ℕ) :
    c ∉ dotted a₀ a₁ a₂ a₃ := by
  simp [dotted, notMem_toDigits hc, hdot]

/-! ## Bit vectors sent as JSON -/

def ofBitVec {n : ℕ} (bv : BitVec n) : Bitvec := ⟨UInt8.ofNat n, natToString bv.toNat⟩

theorem parseUnsigned_toDigits {bits n : ℕ} (hn : n < 2 ^ bits) :
    parseUnsigned bits (Nat.toDigits 10 n) = some n := by
  have hall : (Nat.toDigits 10 n).all Char.isDigit = true := by
    simpa using fun c hc => isDigit_toDigits hc
  have hplus : dropPlus (Nat.toDigits 10 n) = Nat.toDigits 10 n := by
    unfold dropPlus
    split
    · next rest he => exact absurd (by simp [he]) (notMem_toDigits (c := '+') rfl n)
    · rfl
  rw [parseUnsigned, hplus, Nat.ofDigitChars_ten_toDigits,
    if_pos ⟨Nat.toDigits_ne_nil, hall, hn⟩]

theorem asU64_ofBitVec {w : ℕ} (bv : BitVec w) (hw : w ≤ 64) :
    (ofBitVec bv).asU64 = some (UInt64.ofNat bv.toNat) := by
  have hwidth : UInt8.ofNat w ≤ 64 := by
    rw [UInt8.le_iff_toNat_le]
    simp
    omega
  have hlt : bv.toNat < 2 ^ 64 :=
    Nat.lt_of_lt_of_le bv.isLt (Nat.pow_le_pow_right (by omega) hw)
  rw [Bitvec.asU64, ofBitVec, if_pos hwidth, natToString, String.toList_ofList,
    parseUnsigned_toDigits hlt, Option.map_some]

theorem asU128_ofBitVec (bv : BitVec 128) : (ofBitVec bv).asU128 = some bv := by
  have hwidth : UInt8.ofNat 128 ≤ 128 := by decide
  rw [Bitvec.asU128, ofBitVec, if_pos hwidth, natToString, String.toList_ofList,
    parseUnsigned_toDigits bv.isLt, Option.map_some, BitVec.ofNat_toNat, BitVec.setWidth_eq]

theorem deserializeBitvec_toJson {n : ℕ} (bv : BitVec n) (hn : n < 256) :
    deserializeBitvec (bitVecToJson bv) = some (ofBitVec bv) := by
  have hwidth : deserializeU8 (.num n) = some (UInt8.ofNat n) := by
    rw [deserializeU8, if_pos (by omega)]
    simp
  simp [deserializeBitvec, bitVecToJson, Json.field, List.lookup, hwidth, deserializeString,
    ofBitVec]

def ofCidr {w : ℕ} (cidr : CIDR w) : Cidr := ⟨ofBitVec cidr.addr, cidr.pre.map ofBitVec⟩

theorem deserializeCidr_toJson {w : ℕ} (cidr : CIDR w) (hw : w < 8) :
    deserializeCidr (cidrToJson cidr) = some (ofCidr cidr) := by
  have haddr : addrSize w < 256 :=
    Nat.lt_of_le_of_lt (Nat.pow_le_pow_right (by omega) (Nat.lt_succ_iff.mp hw)) (by omega)
  obtain ⟨addr, pre⟩ := cidr
  cases pre with
  | none =>
    simp [deserializeCidr, cidrToJson, Json.field, List.lookup,
      deserializeBitvec_toJson addr haddr, deserializePrefix, ofCidr]
  | some pre =>
    have hpre := deserializeBitvec_toJson pre (by omega)
    have hsome : deserializePrefix (some (bitVecToJson pre)) = some (some (ofBitVec pre)) := by
      simp only [deserializePrefix, bitVecToJson] at hpre ⊢
      rw [hpre, Option.map_some]
    simp [deserializeCidr, cidrToJson, Json.field, List.lookup,
      deserializeBitvec_toJson addr haddr, hsome, ofCidr]

/-! ## IPv4 -/

theorem toNat_append_eq {m n : ℕ} (x : BitVec m) (y : BitVec n) :
    (x ++ y).toNat = x.toNat * 2 ^ n + y.toNat := by
  rw [BitVec.toNat_append, ← Nat.shiftLeft_add_eq_or_of_lt y.isLt, Nat.shiftLeft_eq]

theorem mk_octets (a : IPv4Addr) :
    IPv4Addr.mk (BitVec.ofNat 8 (a.toNat / 2 ^ 24 % 256)) (BitVec.ofNat 8 (a.toNat / 2 ^ 16 % 256))
      (BitVec.ofNat 8 (a.toNat / 2 ^ 8 % 256)) (BitVec.ofNat 8 (a.toNat % 256)) = a := by
  apply BitVec.eq_of_toNat_eq
  have h : a.toNat < 2 ^ 32 := a.isLt
  simp only [IPv4Addr.mk, toNat_append_eq, BitVec.toNat_ofNat]
  omega

theorem toNat_and_255 (x : UInt64) : (x &&& 0xFF).toNat = x.toNat % 256 := by
  have h : (0xFF : UInt64).toNat = 2 ^ 8 - 1 := rfl
  rw [UInt64.toNat_and, h, Nat.and_two_pow_sub_one_eq_mod]

theorem prefixLength_ofBitVec {w : ℕ} (pre : IPNetPrefix w) (hw : w ≤ 64) :
    prefixLength (pre.map ofBitVec) (UInt64.ofNat (addrSize w)) = some (UInt64.ofNat pre.toNat) := by
  cases pre with
  | none => rfl
  | some pre => exact asU64_ofBitVec pre hw

/-- The texts of a network after the address and the slash. -/
theorem parsePrefix_toDigits {w : ℕ} (pre : IPNetPrefix w) (digits : ℕ) (hd : 0 < digits)
    (hw : addrSize w < 10 ^ digits) :
    parsePrefix [Nat.toDigits 10 pre.toNat] digits w = some pre.toNat :=
  parsePrefixNat_toDigits pre.toNat_le hd hw

theorem toNat_prefix {w : ℕ} (pre : IPNetPrefix w) (hw : w ≤ 7) :
    (UInt64.ofNat pre.toNat).toNat = pre.toNat := by
  have hle : addrSize w ≤ 2 ^ 7 := Nat.pow_le_pow_right (by omega) hw
  have hpre := pre.toNat_le
  exact UInt64.toNat_ofNat_of_lt' (Nat.lt_of_le_of_lt (hpre.trans hle) (by decide))

theorem ip_dotted (cidr : CIDR v4Width) :
    ip (dotted (cidr.addr.toNat / 2 ^ 24 % 256) (cidr.addr.toNat / 2 ^ 16 % 256)
      (cidr.addr.toNat / 2 ^ 8 % 256) (cidr.addr.toNat % 256) ++
        '/' :: Nat.toDigits 10 cidr.pre.toNat) = some (.V4 cidr) := by
  rw [ip, parseIPv4Net, splitOnP_append (notMem_dotted rfl (by decide) _ _ _ _),
    splitOnP_single (notMem_toDigits rfl _)]
  simp only [parsePrefix_toDigits cidr.pre 2 (by omega) (by decide),
    parseSegsV4_dotted (Nat.mod_lt _ (by omega)) (Nat.mod_lt _ (by omega))
      (Nat.mod_lt _ (by omega)) (Nat.mod_lt _ (by omega)), mk_octets, IPNetPrefix.ofNat_toNat,
    Option.bind_eq_bind, Option.bind_some, Option.isSome_some, if_true]

theorem text_v4 (cidr : CIDR v4Width) :
    (IpAddr.V4 (ofCidr cidr)).text =
      some (dotted (cidr.addr.toNat / 2 ^ 24 % 256) (cidr.addr.toNat / 2 ^ 16 % 256)
        (cidr.addr.toNat / 2 ^ 8 % 256) (cidr.addr.toNat % 256) ++
          '/' :: Nat.toDigits 10 cidr.pre.toNat) := by
  have hlt : cidr.addr.toNat < UInt64.size := Nat.lt_trans cidr.addr.isLt (by decide)
  have hpre := prefixLength_ofBitVec cidr.pre (by decide)
  have haddr := asU64_ofBitVec cidr.addr (by decide)
  have hshift : ∀ k : UInt64, (UInt64.ofNat cidr.addr.toNat >>> k).toNat =
      cidr.addr.toNat / 2 ^ (k.toNat % 64) := by
    intro k
    rw [UInt64.toNat_shiftRight, UInt64.toNat_ofNat_of_lt' hlt, Nat.shiftRight_eq_div_pow]
  have hwhole : (32 : UInt64) = UInt64.ofNat (addrSize v4Width) := rfl
  rw [IpAddr.text, ofCidr, haddr, hwhole, hpre]
  simp only [Option.bind_eq_bind, Option.bind_some, toNat_and_255, hshift,
    UInt64.toNat_ofNat_of_lt' hlt, toNat_prefix cidr.pre (by decide)]
  rfl

end CedarSpec.Datatypes
