import CedarSpec.ByteParser

/-! The wire format of protobuf messages: a message is the list of its fields in the order of
their numbers, each written as a key and a payload. -/

namespace ProtoWire

open ByteParser

/-- Seven bits a byte, the lowest first; all bytes but the last have their high bit set. -/
def varint (n : ℕ) : Bytes :=
  if n < 128 then [UInt8.ofNat n]
  else UInt8.ofNat (n % 128 + 128) :: varint (n / 128)
termination_by n

def utf8 (s : String) : Bytes := s.toByteArray.data.toList

/-- Whether a field that holds its default is still written. -/
inductive Presence where
  | implicit
  | explicit
  deriving DecidableEq

mutual

inductive Value where
  | varint (n : UInt64)
  | string (s : String)
  | message (fields : List Entry)

/-- A field of a message that is set. -/
inductive Entry where
  | mk (number : ℕ) (presence : Presence) (value : Value)

end

def Value.isDefault : Value → Bool
  | .varint n => n == 0
  | .string s => s == ""
  | .message _ => false

def Value.wireType : Value → ℕ
  | .varint _ => 0
  | .string _ | .message _ => 2

mutual

def Value.payload : Value → Bytes
  | .varint n => ProtoWire.varint n.toNat
  | .string s => ProtoWire.varint (utf8 s).length ++ utf8 s
  | .message fields => ProtoWire.varint (encode fields).length ++ encode fields

def Entry.encode : Entry → Bytes
  | .mk number presence value =>
    if presence = .implicit ∧ value.isDefault then []
    else varint (8 * number + value.wireType) ++ value.payload

def encode : List Entry → Bytes
  | [] => []
  | entry :: entries => entry.encode ++ encode entries

end

/-- The length of a text or of a message within another one. -/
def Value.size : Value → ℕ
  | .varint _ => 0
  | .string s => (utf8 s).length
  | .message fields => (encode fields).length

variable {fields : List Entry} {entry : Entry}

theorem encode_append (fs gs : List Entry) : encode (fs ++ gs) = encode fs ++ encode gs := by
  induction fs with
  | nil => simp [encode]
  | cons f fs ih => simp [encode, ih]

theorem encode_singleton (e : Entry) : encode [e] = e.encode := by simp [encode]

theorem length_varint_pos (n : ℕ) : 0 < (varint n).length := by
  rw [varint]
  split <;> simp

theorem length_encode_le (h : entry ∈ fields) : entry.encode.length ≤ (encode fields).length := by
  induction fields with
  | nil => simp at h
  | cons f fs ih =>
    rw [encode, List.length_append]
    obtain rfl | h := List.mem_cons.mp h
    · omega
    · have hle := ih h
      omega

/-- A message within a message is at least two bytes shorter. -/
theorem length_message_lt {n : ℕ} {p : Presence} {inner : List Entry}
    (h : .mk n p (.message inner) ∈ fields) :
    (encode inner).length + 2 ≤ (encode fields).length := by
  have hle := length_encode_le h
  have hkey := length_varint_pos (8 * n + (Value.message inner).wireType)
  have hlen := length_varint_pos (encode inner).length
  rw [Entry.encode, if_neg (by simp [Value.isDefault]), Value.payload] at hle
  simp only [List.length_append] at hle
  omega

theorem size_le {n : ℕ} {p : Presence} {v : Value} (h : .mk n p v ∈ fields) :
    v.size ≤ (encode fields).length := by
  have hle := length_encode_le h
  cases v with
  | varint m => exact Nat.zero_le _
  | string s =>
    by_cases hs : s = ""
    · rw [hs]
      exact Nat.zero_le _
    · rw [Entry.encode, if_neg (by simp [Value.isDefault, hs]), Value.payload] at hle
      simp only [List.length_append] at hle
      rw [Value.size]
      omega
  | message inner =>
    have hlt := length_message_lt h
    rw [Value.size]
    omega

end ProtoWire
