import CedarSpec.Protobuf
import CedarSpec.ProtoWire

/-! The decoder reads what the wire format writes: varints, keys, lengths, scalars, strings,
and messages field by field. -/

namespace CedarSpec.Protobuf

open ByteParser ProtoWire

/-! ## Varints -/

theorem msbSet8_last {n : ℕ} (h : n < 128) : msbSet8 (UInt8.ofNat n) = false := by
  interval_cases n <;> rfl

theorem msbSet8_more {n : ℕ} (h : n < 128) : msbSet8 (UInt8.ofNat (n + 128)) = true := by
  interval_cases n <;> rfl

theorem clearMsb8_last {n : ℕ} (h : n < 128) : (clearMsb8 (UInt8.ofNat n)).toNat = n := by
  interval_cases n <;> rfl

theorem clearMsb8_more {n : ℕ} (h : n < 128) : (clearMsb8 (UInt8.ofNat (n + 128))).toNat = n := by
  interval_cases n <;> rfl

/-- Looking for the end of a varint, `k` bytes of which have been looked at. -/
theorem findEnd_varint {n k : ℕ} {it : Iterator} (post : Bytes)
    (hdata : it.data.drop (it.pos + k) = varint n ++ post) (hn : n < 2 ^ (7 * (10 - k)))
    (hk : k < 10) :
    findEndOfVarintHelper k it = ⟨it, .ok (it.pos + k + (varint n).length)⟩ := by
  induction n using Nat.strongRecOn generalizing k with
  | ind n ih =>
    have hlt : it.pos + k < it.data.length := by
      have hlen := congrArg List.length hdata
      have hpos := length_varint_pos n
      rw [List.length_drop, List.length_append] at hlen
      omega
    have hempty : empty it = ⟨it, .ok false⟩ := by
      have hne : it.data.length - it.pos ≠ 0 := by omega
      simp [empty, inspect, Iterator.remaining, hne]
    have hhead : it.data.getD (it.pos + k) 0 = (varint n ++ post).headD 0 := by
      rw [← hdata, List.getD_eq_getElem?_getD, ← List.head?_drop, List.headD_eq_head?_getD]
    have hpeek : inspect (fun pos => msbSet8 (pos.data.getD (pos.pos + k) 0)) it =
        ⟨it, .ok (msbSet8 ((varint n ++ post).headD 0))⟩ := by
      rw [← hhead]
      rfl
    rw [findEndOfVarintHelper, bind_of_ok hempty, if_neg (by simp), if_neg (by omega),
      bind_of_ok hpeek]
    by_cases h : n < 128
    · rw [varint, if_pos h, List.cons_append, List.headD_cons, msbSet8_last h, if_pos (by simp)]
      rfl
    · have hmod : n % 128 < 128 := Nat.mod_lt n (by omega)
      have hdrop : it.data.drop (it.pos + (k + 1)) = varint (n / 128) ++ post := by
        rw [← Nat.add_assoc, ← List.tail_drop, hdata, varint, if_neg h]
        rfl
      have hle : n < 2 ^ (7 * (10 - (k + 1))) * 128 := by
        have hpow : 2 ^ (7 * (10 - k)) = 2 ^ (7 * (10 - (k + 1))) * 128 := by
          have hexp : 7 * (10 - k) = 7 * (10 - (k + 1)) + 7 := by omega
          rw [hexp, Nat.pow_add]
        rw [← hpow]
        exact hn
      have hk' : k + 1 < 10 := by
        by_contra hge
        have hexp : 7 * (10 - (k + 1)) = 0 := by omega
        rw [hexp] at hle
        omega
      have hrest := ih (n / 128) (by omega) hdrop (by omega) hk'
      rw [varint, if_neg h, List.cons_append, List.headD_cons, msbSet8_more hmod,
        if_neg (by simp), hrest, List.length_cons]
      congr 2
      omega

theorem findVarintSize_varint {n : ℕ} (hn : n < 2 ^ 64) (pre post : Bytes) :
    findVarintSize ⟨pre ++ varint n ++ post, pre.length⟩ =
      ⟨⟨pre ++ varint n ++ post, pre.length⟩, .ok (varint n).length⟩ := by
  have hend : findEndOfVarintHelper 0 ⟨pre ++ varint n ++ post, pre.length⟩ =
      ⟨⟨pre ++ varint n ++ post, pre.length⟩, .ok (pre.length + 0 + (varint n).length)⟩ :=
    findEnd_varint post (by simp) (by omega) (by omega)
  have hpos : pos ⟨pre ++ varint n ++ post, pre.length⟩ =
      ⟨⟨pre ++ varint n ++ post, pre.length⟩, .ok pre.length⟩ := rfl
  rw [findVarintSize, bind_of_ok hpos, bind_of_ok hend]
  simp only [Nat.add_zero, Nat.add_sub_cancel_left]
  rfl

/-- One more group of seven bits above those read so far. -/
theorem toNat_or_shift {w p : ℕ} {r : BitVec w} {c : UInt8} (hr : r.toNat < 2 ^ (7 * p))
    (hc : c.toNat * 2 ^ (7 * p) < 2 ^ w) (hp : 7 * p < w) :
    (r ||| c.toBitVec.setWidth w <<< (7 * p % w)).toNat = r.toNat + c.toNat * 2 ^ (7 * p) := by
  have hmod : 7 * p % w = 7 * p := Nat.mod_eq_of_lt hp
  have hle : c.toNat < 2 ^ w := by
    refine Nat.lt_of_le_of_lt ?_ hc
    exact Nat.le_mul_of_pos_right _ (Nat.two_pow_pos _)
  rw [BitVec.toNat_or, BitVec.toNat_shiftLeft, BitVec.toNat_setWidth, hmod, UInt8.toNat_toBitVec,
    Nat.mod_eq_of_lt hle, Nat.shiftLeft_eq, Nat.mod_eq_of_lt hc, Nat.or_comm, Nat.mul_comm,
    ← Nat.two_pow_add_eq_or_of_lt hr, Nat.add_comm]

theorem reads_parseUintHelper {w n p : ℕ} {r : BitVec w} (hr : r.toNat < 2 ^ (7 * p))
    (hn : n * 2 ^ (7 * p) < 2 ^ w) (hp : 7 * p < w) :
    ∃ v : BitVec w, Reads (parseUintHelper (varint n).length p r) (varint n) v ∧
      v.toNat = r.toNat + n * 2 ^ (7 * p) := by
  induction n using Nat.strongRecOn generalizing p r with
  | ind n ih =>
    by_cases h : n < 128
    · have hc := clearMsb8_last h
      have hval := toNat_or_shift (c := clearMsb8 (UInt8.ofNat n)) hr (by rw [hc]; exact hn) hp
      rw [hc] at hval
      refine ⟨_, ?_, hval⟩
      rw [varint, if_pos h]
      exact (reads_nextByte _).bind (reads_pure _)
    · have hmod : n % 128 < 128 := Nat.mod_lt n (by omega)
      have hc := clearMsb8_more hmod
      have hpow : 2 ^ (7 * (p + 1)) = 128 * 2 ^ (7 * p) := by
        rw [Nat.mul_add, Nat.pow_add, Nat.mul_comm]
      have hsplit : n % 128 * 2 ^ (7 * p) + n / 128 * 2 ^ (7 * (p + 1)) = n * 2 ^ (7 * p) := by
        rw [hpow, ← Nat.mul_assoc, ← Nat.add_mul, Nat.mul_comm (n / 128), Nat.mod_add_div]
      have hlow : n % 128 * 2 ^ (7 * p) ≤ 127 * 2 ^ (7 * p) :=
        Nat.mul_le_mul_right _ (by omega)
      have hone : 2 ^ (7 * (p + 1)) ≤ n / 128 * 2 ^ (7 * (p + 1)) :=
        Nat.le_mul_of_pos_left _ (by omega)
      have hp' : 7 * (p + 1) < w := by
        have hlt : 2 ^ (7 * (p + 1)) < 2 ^ w := by omega
        exact (Nat.pow_lt_pow_iff_right (by omega)).mp hlt
      have hval := toNat_or_shift (c := clearMsb8 (UInt8.ofNat (n % 128 + 128))) hr
        (by rw [hc]; omega) hp
      rw [hc] at hval
      obtain ⟨v, hv, hsum⟩ := ih (n / 128) (by omega) (p := p + 1) (r := r |||
        (clearMsb8 (UInt8.ofNat (n % 128 + 128))).toBitVec.setWidth w <<< (7 * p % w))
        (by omega) (by omega) hp'
      refine ⟨v, ?_, by omega⟩
      rw [varint, if_neg h]
      exact (reads_nextByte _).bind hv

theorem reads_parseUint {w n : ℕ} (hw : 0 < w) (hw' : w ≤ 64) (hn : n < 2 ^ w) :
    Reads (parseUint w) (varint n) (BitVec.ofNat w n) := by
  obtain ⟨v, hv, hval⟩ := reads_parseUintHelper (p := 0) (r := (0 : BitVec w)) (n := n)
    (by simp) (by simpa using hn) (by omega)
  have heq : v = BitVec.ofNat w n := by
    apply BitVec.eq_of_toNat_eq
    simp [hval, Nat.mod_eq_of_lt hn]
  have hsize : n < 2 ^ 64 := Nat.lt_of_lt_of_le hn (Nat.pow_le_pow_right (by omega) hw')
  intro pre post
  rw [parseUint, bind_of_ok (findVarintSize_varint hsize pre post), hv pre post, heq]

theorem signed_eq_toInt {w : ℕ} (r : BitVec w) : signed r = r.toInt := by
  rw [signed, BitVec.toInt_eq_msb_cond]
  by_cases h : r.msb = true
  · have hge := BitVec.msb_eq_true_iff_two_mul_ge.mp h
    have hlt := r.isLt
    have hpos := Nat.two_pow_pos w
    have hneg : ~~~(r - 1) = -r := by
      rw [BitVec.neg_eq_not_add]
      exact BitVec.not_sub_one_eq_not_add_one
    rw [if_pos h, if_pos h, hneg, BitVec.toNat_neg, Nat.mod_eq_of_lt (by omega)]
    omega
  · rw [if_neg h, if_neg h]

/-! ## Keys and lengths -/

theorem reads_parseInt32 {n : ℕ} (hn : n < 2 ^ 32) :
    Reads parseInt32 (varint n) (BitVec.ofNat 32 n).toInt := by
  rw [← signed_eq_toInt]
  exact (reads_parseUint (by omega) (by omega) hn).bind_pure

theorem reads_parseInt32_of_lt {n : ℕ} (hn : n < 2 ^ 31) : Reads parseInt32 (varint n) n := by
  have h := reads_parseInt32 (n := n) (by omega)
  have hval : (BitVec.ofNat 32 n).toInt = n := by
    rw [BitVec.toInt_eq_toNat_cond, BitVec.toNat_ofNat, Nat.mod_eq_of_lt (by omega),
      if_pos (by omega)]
  rwa [hval] at h

def wireTypeOf (v : Value) : WireType :=
  match v with
  | .varint _ => .VARINT
  | .string _ | .message _ => .LEN

theorem reads_key {k : ℕ} (v : Value) (hk : k < 2 ^ 28) :
    Reads Tag.parse (varint (8 * k + v.wireType)) ⟨k, wireTypeOf v⟩ := by
  have hw : v.wireType = 0 ∧ wireTypeOf v = .VARINT ∨ v.wireType = 2 ∧ wireTypeOf v = .LEN := by
    cases v with
    | varint n => exact Or.inl ⟨rfl, rfl⟩
    | string s => exact Or.inr ⟨rfl, rfl⟩
    | message fs => exact Or.inr ⟨rfl, rfl⟩
  obtain ⟨n, hn⟩ : ∃ n, n = 8 * k + v.wireType := ⟨_, rfl⟩
  have hlt : n < 2 ^ 32 := by omega
  have hlow : (BitVec.ofNat 32 n &&& 7).toNat = n % 8 := by
    have h7 : (7 : BitVec 32).toNat = 2 ^ 3 - 1 := rfl
    rw [BitVec.toNat_and, BitVec.toNat_ofNat, Nat.mod_eq_of_lt hlt, h7,
      Nat.and_two_pow_sub_one_eq_mod]
  have hhigh : (BitVec.ofNat 32 n >>> 3).toNat = n / 8 := by
    rw [BitVec.toNat_ushiftRight, BitVec.toNat_ofNat, Nat.mod_eq_of_lt hlt,
      Nat.shiftRight_eq_div_pow]
  have hwt : WireType.ofNat? (n % 8) = some (wireTypeOf v) := by
    obtain ⟨hw, ht⟩ | ⟨hw, ht⟩ := hw
    · have hmod : n % 8 = 0 := by omega
      rw [hmod, ht]
      rfl
    · have hmod : n % 8 = 2 := by omega
      rw [hmod, ht]
      rfl
  have hk' : n / 8 = k := by omega
  have h := reads_parseUint (w := 32) (by omega) (by omega) hlt
  rw [← hn]
  refine Reads.bind_done h ?_
  rw [hlow, hwt, hhigh, hk']
  exact reads_pure _

theorem reads_parseSize {n : ℕ} (hn : n < 2 ^ 31) : Reads Len.parseSize (varint n) n := by
  refine Reads.bind_done (reads_parseInt32_of_lt hn) ?_
  exact reads_pure n

/-- Lengths from 2^31 on are taken for negative numbers. -/
theorem rejects_parseSize {n : ℕ} (hn : 2 ^ 31 ≤ n) (hn' : n < 2 ^ 32) :
    Rejects Len.parseSize (varint n) := by
  have hval : (BitVec.ofNat 32 n).toInt < 0 := by
    rw [BitVec.toInt_eq_toNat_cond, BitVec.toNat_ofNat, Nat.mod_eq_of_lt hn', if_neg (by omega)]
    omega
  have h := reads_parseInt32 hn'
  generalize (BitVec.ofNat 32 n).toInt = size at h hval
  cases size with
  | ofNat size =>
    rw [Int.ofNat_eq_natCast] at hval
    omega
  | negSucc size =>
    have hrej : Rejects Len.parseSize (varint n ++ []) := h.bind_rejects (rejects_fail _ [])
    rwa [List.append_nil] at hrej

/-! ## Scalars and strings -/

theorem reads_uint32 (n : UInt32) : Reads Field.uint32.parse (varint n.toNat) n := by
  have h := (reads_parseUint (w := 32) (by omega) (by omega) n.toNat_lt).bind_pure
    (g := UInt32.ofBitVec)
  have hval : UInt32.ofBitVec (BitVec.ofNat 32 n.toNat) = n := UInt32.ofNat_toNat
  rwa [hval] at h

theorem reads_int64 (i : Int64) : Reads Field.int64.parse (varint i.toUInt64.toNat) i.toInt := by
  have h := (reads_parseUint (w := 64) (by omega) (by omega) i.toUInt64.toNat_lt).bind_pure
    (g := signed)
  have hval : signed (BitVec.ofNat 64 i.toUInt64.toNat) = i.toInt := by
    have hbits : BitVec.ofNat 64 i.toUInt64.toNat = i.toBitVec := by
      apply BitVec.eq_of_toNat_eq
      simp
    rw [signed_eq_toInt, hbits]
    rfl
  rwa [hval] at h

theorem reads_bool (b : Bool) : Reads Field.bool.parse (varint b.toNat) b := by
  have h := reads_parseInt32_of_lt (n := b.toNat) (by cases b <;> decide)
  refine Reads.bind_done h ?_
  cases b <;> exact reads_pure _

theorem reads_enum {α : Type} {fromInt : ℤ → Except String α} {n : ℕ} {a : α} (hn : n < 2 ^ 31)
    (h : fromInt n = .ok a) : Reads (Field.enum fromInt).parse (varint n) a := by
  refine Reads.bind_done (reads_parseInt32_of_lt hn) ?_
  rw [h]
  exact reads_pure a

theorem fromUTF8?_utf8 (s : String) : String.fromUTF8? ⟨(utf8 s).toArray⟩ = some s := by
  have hdata : (⟨(utf8 s).toArray⟩ : ByteArray) = s.toByteArray := by simp [utf8]
  have hvalid : s.toByteArray.IsValidUTF8 := s.isValidUTF8
  rw [hdata, String.fromUTF8?, dif_pos hvalid]
  rfl

theorem reads_string {s : String} (h : (utf8 s).length < 2 ^ 31) :
    Reads Field.string.parse (varint (utf8 s).length ++ utf8 s) s := by
  refine (reads_parseSize h).bind (Reads.bind_done (reads_nextBytes (utf8 s)) ?_)
  simp only [fromUTF8?_utf8]
  exact reads_pure s

/-! ## Messages -/

variable {α β : Type} {M : Message α} {F : Field β} {x y z : α} {v : β} {bs cs : Bytes}

/-- The bytes are fields of the message, which take what was read before from `x` to `y`. -/
def Folds (M : Message α) (bs : Bytes) (x y : α) : Prop :=
  ∀ n pre post, M.parseMessageHelper (bs.length + n) x ⟨pre ++ bs ++ post, pre.length⟩ =
    M.parseMessageHelper n y ⟨pre ++ bs ++ post, pre.length + bs.length⟩

theorem Folds.nil (x : α) : Folds M [] x x := by
  intro n pre post
  simp

theorem Folds.append (h : Folds M bs x y) (h' : Folds M cs y z) : Folds M (bs ++ cs) x z := by
  intro n pre post
  have h₁ := h (cs.length + n) pre (cs ++ post)
  have h₂ := h' n (pre ++ bs) post
  simp only [List.append_assoc, List.length_append, Nat.add_assoc] at h₁ h₂ ⊢
  rw [h₁, h₂]

theorem Folds.field {t : Tag} {key : Bytes} {g : α → α} (hkey : 0 < key.length)
    (htag : Reads Tag.parse key t)
    (h : Reads (M.parseField t) bs fun x => pure (g x)) : Folds M (key ++ bs) x (g x) := by
  intro n pre post
  have hne : (key ++ bs).length + n ≠ 0 := by
    rw [List.length_append]
    omega
  have hempty : empty ⟨pre ++ (key ++ bs) ++ post, pre.length⟩ =
      ⟨⟨pre ++ (key ++ bs) ++ post, pre.length⟩, .ok false⟩ := by
    have hlen : (pre ++ (key ++ bs) ++ post).length - pre.length ≠ 0 := by
      simp only [List.length_append]
      omega
    simp only [empty, inspect, Iterator.remaining, beq_eq_false_iff_ne.mpr hlen]
  have htag := htag pre (bs ++ post)
  have hfield := h (pre ++ key) post
  have hpos : ∀ it : Iterator, pos it = ⟨it, .ok it.pos⟩ := fun it => rfl
  have hpure : ∀ it : Iterator, (pure (g x) : Parser α) it = ⟨it, .ok (g x)⟩ := fun it => rfl
  simp only [List.append_assoc, List.length_append, Nat.add_assoc] at htag hfield hempty hne ⊢
  rw [Message.parseMessageHelper, if_neg hne, bind_of_ok hempty, if_neg (by simp),
    bind_of_ok (hpos _), bind_of_ok htag, bind_of_ok hfield, bind_of_ok (hpos _),
    bind_of_ok (hpure _)]
  have hsize : pre.length + (key.length + bs.length) - pre.length = key.length + bs.length := by
    omega
  have hrest : key.length + (bs.length + n) - (key.length + bs.length) = n := by omega
  dsimp only
  rw [hsize, if_neg (by omega), hrest]

theorem parseMessageHelper_zero (M : Message α) (x : α) :
    M.parseMessageHelper 0 x = pure x := by
  rw [Message.parseMessageHelper, if_pos rfl]

theorem Folds.reads (h : Folds M bs M.default x) : Reads (M.parseWithSize bs.length) bs x := by
  intro pre post
  have hp := h 0 pre post
  rw [Nat.add_zero, parseMessageHelper_zero] at hp
  rw [Message.parseWithSize, hp]
  rfl

theorem Folds.reads_field (h : Folds M bs M.default x) (hlen : bs.length < 2 ^ 31) :
    Reads M.field.parse (varint bs.length ++ bs) x :=
  (reads_parseSize hlen).bind h.reads

theorem Folds.interpret (h : Folds M bs M.default x) : M.interpret? bs = .ok x := by
  have hp := h.reads [] []
  have hrem : remaining ⟨bs, 0⟩ = ⟨⟨bs, 0⟩, .ok bs.length⟩ := rfl
  have heof : eof ⟨bs, bs.length⟩ = ⟨⟨bs, bs.length⟩, .ok ()⟩ := by
    rw [eof, if_pos (le_refl _)]
  simp only [List.nil_append, List.append_nil, List.length_nil, Nat.zero_add] at hp
  rw [Message.interpret?, run, Message.parse, bind_of_ok hrem, bind_of_ok hp, bind_of_ok heof]
  rfl

/-- A field whose payload is read; left out, it must leave the message as it is. -/
theorem folds_entry {k : ℕ} {p : Presence} {e : Value} {g : α → α} (hk : k < 2 ^ 28)
    (h : Reads (M.parseField ⟨k, wireTypeOf e⟩) e.payload fun x => pure (g x))
    (hdef : p = .implicit → e.isDefault → g x = x) :
    Folds M (Entry.mk k p e).encode x (g x) := by
  rw [Entry.encode]
  split
  · next hom =>
    rw [hdef hom.1 hom.2]
    exact Folds.nil x
  · exact Folds.field (length_varint_pos _) (reads_key e hk) h

theorem reads_guardedParse {t : Tag} (hF : Reads F.parse bs v)
    (ht : F.expectedWireType = t.wireType) : Reads (F.guardedParse t) bs v := by
  rw [Field.guardedParse, if_neg (by simp [ht])]
  exact hF

theorem reads_parseOneof {t : Tag} (hF : Reads F.parse bs v)
    (ht : F.expectedWireType = t.wireType) (merge : α → α → α) (wrap : β → α) :
    Reads (parseOneof F t merge wrap) bs fun x => pure (merge x (wrap v)) :=
  Reads.bind_done (reads_guardedParse hF ht) (reads_pure _)

theorem reads_parseFieldElement {t : Tag} (hF : Reads F.parse bs v)
    (ht : F.expectedWireType = t.wireType) (get : α → β) (update : α → β → α) :
    Reads (parseFieldElement F t get update) bs fun x => pure (update x (F.merge (get x) v)) :=
  Reads.bind_done (reads_guardedParse hF ht) (reads_pure _)

theorem folds_element {k : ℕ} {p : Presence} {e : Value} {get : α → β} {update : α → β → α}
    (hk : k < 2 ^ 28)
    (hparse : M.parseField ⟨k, wireTypeOf e⟩ = parseFieldElement F ⟨k, wireTypeOf e⟩ get update)
    (hF : Reads F.parse e.payload v) (ht : F.expectedWireType = wireTypeOf e)
    (hmerge : update x (F.merge (get x) v) = y) (hdef : p = .implicit → e.isDefault → y = x) :
    Folds M (Entry.mk k p e).encode x y := by
  subst hmerge
  refine folds_entry (g := fun x => update x (F.merge (get x) v)) hk ?_ hdef
  rw [hparse]
  exact reads_parseFieldElement hF ht get update

end CedarSpec.Protobuf
