import CedarSpec.TermTransfer

/-! Symbolic terms cross the language boundary unchanged as long as the decoder takes their
length, which it reads as a signed number of 32 bits. -/

namespace CedarSpec.SymCC.Proto

open ByteParser ProtoWire Protobuf Messages

attribute [local irreducible] parseFieldElement parseOneof

variable {P : ThirdParty} {t : Datatypes.Term} {T : SymCC.Term}

/-- The length of the message within the term's own message. Those further inside are shorter. -/
def payloadSize (P : ThirdParty) (t : Datatypes.Term) : ℕ :=
  match Term.new P t with
  | .mk _ _ value :: _ => value.size
  | [] => 0

theorem term_new_eq (P : ThirdParty) (t : Datatypes.Term) : ∃ k fields, k < 2 ^ 28 ∧
    Term.new P t = [.mk k .explicit (.message fields)] ∧
    ∀ n, ∃ (β : Type) (M : Message β) (wrap : β → Term),
      (Term.message (n + 1)).parseField ⟨k, .LEN⟩ =
        parseOneof M.field ⟨k, .LEN⟩ Term.merge wrap := by
  cases t with
  | prim p => exact ⟨1, _, by decide, rfl, fun n => ⟨_, TermPrim.message, _, rfl⟩⟩
  | var v => exact ⟨2, _, by decide, rfl, fun n => ⟨_, TermVar.message n, _, rfl⟩⟩
  | none ty => exact ⟨3, _, by decide, rfl, fun n => ⟨_, TermType.message n, _, rfl⟩⟩
  | some t => exact ⟨4, _, by decide, rfl, fun n => ⟨_, Term.message n, _, rfl⟩⟩
  | set elts ty => exact ⟨5, _, by decide, rfl, fun n => ⟨_, Set.message n _, _, rfl⟩⟩
  | record fields => exact ⟨6, _, by decide, rfl, fun n => ⟨_, Record.message _, _, rfl⟩⟩
  | app op args ty => exact ⟨7, _, by decide, rfl, fun n => ⟨_, App.message n _, _, rfl⟩⟩

/-- A term that stands for a term of the compiler is decoded to that term. -/
theorem decode_encodeToVec (hP : P.Documented) (h : t.counterpart = some T)
    (hlen : payloadSize P t < 2 ^ 31) :
    decode (P.encodeToVec (Term.new P t)) = .ok (some T) := by
  rw [hP.encodeToVec_eq]
  have hfits : Fits (encode (Term.new P t)).length (Term.new P t) := by
    obtain ⟨k, fields, -, heq, -⟩ := term_new_eq P t
    rw [payloadSize, heq] at hlen
    refine ⟨fun hmem => ?_, le_refl _⟩
    rw [heq, List.mem_singleton] at hmem
    cases hmem
    exact hlen
  obtain ⟨x, hx, hcedar⟩ := transmits_term hP t hfits (by rw [h]; rfl)
  rw [decode, hx.interpret, ← h, ← hcedar]
  rfl

/-- From a length of 2^31 on, nothing is decoded. -/
theorem decode_encodeToVec_error (hP : P.Documented) (hlen : 2 ^ 31 ≤ payloadSize P t)
    (hlen' : payloadSize P t < 2 ^ 32) :
    ∃ msg, decode (P.encodeToVec (Term.new P t)) = .error msg := by
  obtain ⟨k, fields, hk, heq, hparse⟩ := term_new_eq P t
  rw [payloadSize, heq] at hlen hlen'
  rw [hP.encodeToVec_eq, heq, decode]
  have hpos : 0 < (encode [.mk k .explicit (.message fields)]).length := by
    have hlt := length_message_lt (List.mem_singleton_self (Entry.mk k .explicit (.message fields)))
    omega
  obtain ⟨n, hn⟩ : ∃ n, (encode [.mk k .explicit (.message fields)]).length = n + 1 :=
    ⟨_, (Nat.succ_pred_eq_of_pos hpos).symm⟩
  obtain ⟨β, M, wrap, hfield⟩ := hparse n
  have hrejects : Rejects ((Term.message (n + 1)).parseField ⟨k, .LEN⟩)
      (Value.message fields).payload := by
    rw [hfield]
    exact rejects_parseOneof (rejects_field hlen hlen') rfl Term.merge wrap
  obtain ⟨msg, hmsg⟩ := Folds.interpret_error (reads_key (.message fields) hk)
    (length_varint_pos _) hrejects
  refine ⟨msg, ?_⟩
  rw [hn, encode_singleton, Entry.encode, if_neg (by simp), hmsg]
  rfl

/-! ## The serialisation of the encoder -/

/-- Names and entities as the encoder's packages document them. -/
def documented : ThirdParty where
  encodeToVec := encode
  nameFrom ety := .mk 1 .implicit (.string ety.basename) ::
    ety.namespaceComponents.map fun component => .mk 2 .explicit (.string component)
  entityUidFrom euid :=
    [.mk 1 .explicit (.message (.mk 1 .implicit (.string euid.ty.basename) ::
      euid.ty.namespaceComponents.map fun component => .mk 2 .explicit (.string component))),
      .mk 2 .implicit (.string euid.eid)]

theorem documented_documented : documented.Documented :=
  ⟨fun _ => rfl, fun _ => rfl, fun _ => rfl⟩

/-- A call on a record of a time and an entity. -/
theorem decode_encodeToVec_call : decode (documented.encodeToVec (Term.new documented
    (.app (.uuf ⟨"f", .record [("at", .option (.prim (.ext .datetime)))], .prim .string⟩)
      [.record [("at", .some (.prim (.ext (.datetime ⟨-1⟩)))),
        ("by", .prim (.entity ⟨⟨"User", ["App"]⟩, "alice"⟩))]] (.prim .string)))) =
    .ok (some (.app (.uuf ⟨"f", .record [("at", .option (.prim (.ext .datetime)))], .prim .string⟩)
      [.record [("at", .some (.prim (.ext (.datetime ⟨-1⟩)))),
        ("by", .prim (.entity ⟨⟨"User", ["App"]⟩, "alice"⟩))]] (.prim .string))) :=
  decode_encodeToVec documented_documented rfl (by decide +kernel)

/-! ## A term that is too long -/

theorem length_utf8_replicate (n : ℕ) :
    (utf8 (String.ofList (List.replicate n 'a'))).length = n := by
  rw [utf8, String.toByteArray_ofList]
  induction n with
  | zero => rfl
  | succ n ih =>
    have hone : ['a'].utf8Encode.data.toList.length = 1 := by decide
    rw [List.replicate_succ, List.utf8Encode_cons, ByteArray.data_append, Array.toList_append,
      List.length_append, ih, hone, Nat.add_comm]

theorem payloadSize_string (s : String) : payloadSize P (.prim (.string s)) =
    (varint 26).length + ((varint (utf8 s).length).length + (utf8 s).length) := by
  rw [payloadSize, Term.new]
  dsimp only
  rw [Value.size, TermPrim.new, encode_singleton, Entry.encode, if_neg (by simp), Value.payload,
    List.length_append, List.length_append]
  rfl

theorem not_decode_encodeToVec_long :
    (Datatypes.Term.prim (.string (String.ofList (List.replicate (2 ^ 31) 'a')))).counterpart =
      some (.prim (.string (String.ofList (List.replicate (2 ^ 31) 'a')))) ∧
    decode (documented.encodeToVec (Term.new documented
      (.prim (.string (String.ofList (List.replicate (2 ^ 31) 'a')))))) ≠
      .ok (some (.prim (.string (String.ofList (List.replicate (2 ^ 31) 'a'))))) := by
  have hkey : (varint 26).length = 1 := by decide +kernel
  have hlen : (varint (2 ^ 31)).length = 5 := by decide +kernel
  have hsize := payloadSize_string (P := documented) (String.ofList (List.replicate (2 ^ 31) 'a'))
  rw [length_utf8_replicate, hkey, hlen] at hsize
  refine ⟨rfl, ?_⟩
  obtain ⟨msg, hmsg⟩ := decode_encodeToVec_error documented_documented (t := .prim (.string _))
    (Nat.le_of_lt (by rw [hsize]; omega)) (by rw [hsize]; omega)
  rw [hmsg]
  exact fun h => by cases h

end CedarSpec.SymCC.Proto
