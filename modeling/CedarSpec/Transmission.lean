import CedarSpec.ProtobufReads

/-! What it takes to show that a message arrives: for each of its fields that the value is
read, and that merging the fields one by one builds up the whole. -/

namespace CedarSpec.Protobuf

open ByteParser ProtoWire

variable {α β γ δ : Type} {M : Message α} {F : Field β} {f : β → δ} {x y z : α} {b : β} {d : δ}
  {k n m : ℕ} {p : Presence} {v : Value} {e : Entry} {msg fields : List Entry}

/-- The decoder takes every length in the message, and the message is at most `n` bytes long. -/
structure Fits (n : ℕ) (msg : List Entry) : Prop where
  lengths : ∀ {k p v}, .mk k p v ∈ msg → v.size < 2 ^ 31
  length_le : (encode msg).length ≤ n

theorem Fits.inner (h : Fits n msg) (hm : .mk k p (.message fields) ∈ msg) (hn : n ≤ m + 2) :
    Fits m fields where
  lengths h' := Nat.lt_of_le_of_lt (size_le h') (h.lengths hm)
  length_le := by
    have hlt := length_message_lt hm
    have hle := h.length_le
    omega

theorem Fits.tail (h : Fits n (e :: msg)) : Fits n msg where
  lengths h' := h.lengths (List.mem_cons_of_mem e h')
  length_le := by
    have hle := h.length_le
    rw [encode, List.length_append] at hle
    omega

theorem Fits.append_left {msg' : List Entry} (h : Fits n (msg ++ msg')) : Fits n msg where
  lengths h' := h.lengths (List.mem_append_left msg' h')
  length_le := by
    have hle := h.length_le
    rw [encode_append, List.length_append] at hle
    omega

theorem Fits.append_right {msg' : List Entry} (h : Fits n (msg ++ msg')) : Fits n msg' where
  lengths h' := h.lengths (List.mem_append_right msg h')
  length_le := by
    have hle := h.length_le
    rw [encode_append, List.length_append] at hle
    omega

theorem Fits.head (h : Fits n (.mk k p v :: msg)) : v.size < 2 ^ 31 :=
  h.lengths (List.mem_cons_self ..)

theorem Fits.sub (h : Fits n (.mk k p (.message fields) :: msg)) (hn : n ≤ m + 2) :
    Fits m fields :=
  h.inner (List.mem_cons_self ..) hn

/-- Room for one message more is left inside. -/
theorem Fits.fuel (h : Fits n (.mk k p (.message fields) :: msg)) :
    ∃ m, n = m + 1 ∧ Fits m fields := by
  have hlt := length_message_lt (List.mem_cons_self .. : .mk k p (.message fields) ∈ _ :: msg)
  have hle := h.length_le
  exact ⟨n - 1, by omega, h.sub (by omega)⟩

/-- The field reads the value, as something that `f` takes to `d`. -/
def Carries (F : Field β) (f : β → δ) (v : Value) (d : δ) : Prop :=
  F.expectedWireType = wireTypeOf v ∧ ∃ b, Reads F.parse v.payload b ∧ f b = d

/-- The message is read, as something that `f` takes to `d`. -/
def Transmits (M : Message α) (f : α → δ) (msg : List Entry) (d : δ) : Prop :=
  ∃ x, Folds M (encode msg) M.default x ∧ f x = d

theorem Transmits.carries {f : α → δ} (h : Transmits M f msg d)
    (hlen : (Value.message msg).size < 2 ^ 31) : Carries M.field f (.message msg) d := by
  obtain ⟨x, hx, hd⟩ := h
  exact ⟨rfl, x, hx.reads_field hlen, hd⟩

/-! ## Values -/

theorem carries_string {s : String} (h : (Value.string s).size < 2 ^ 31) :
    Carries Field.string id (.string s) s :=
  ⟨rfl, s, reads_string h, rfl⟩

theorem carries_uint32 (c : UInt32) : Carries Field.uint32 id (.varint c.toUInt64) c :=
  ⟨rfl, c, by simpa [Value.payload] using reads_uint32 c, rfl⟩

theorem carries_bool (t : Bool) : Carries Field.bool id (.varint t.toUInt64) t := by
  refine ⟨rfl, t, ?_, rfl⟩
  cases t
  · exact reads_bool false
  · exact reads_bool true

theorem carries_enum {fromInt : ℤ → Except String β} {w : UInt64} (hw : w.toNat < 2 ^ 31)
    (h : fromInt w.toNat = .ok b) (hf : f b = d) : Carries (Field.enum fromInt) f (.varint w) d :=
  ⟨rfl, b, reads_enum hw h, hf⟩

theorem Carries.repeated (h : Carries F f v d) : Carries (Field.repeated F) (List.map f) v [d] := by
  obtain ⟨ht, b, hb, hd⟩ := h
  exact ⟨ht, [b], hb.bind_pure, by rw [← hd]; rfl⟩

theorem Carries.option (h : Carries F f v d) :
    Carries (Field.option F) (Option.map f) v (some d) := by
  obtain ⟨ht, b, hb, hd⟩ := h
  exact ⟨ht, some b, hb.bind_pure, by rw [← hd]; rfl⟩

theorem Carries.fromInterField (h : Carries F f v d) (merge : δ → δ → δ) :
    Carries (Field.fromInterField F f merge) id v d := by
  obtain ⟨ht, b, hb, hd⟩ := h
  exact ⟨ht, d, by rw [← hd]; exact hb.bind_pure, rfl⟩

/-! ## Fields -/

theorem Folds.cons (h : Folds M e.encode x y) (h' : Folds M (encode msg) y z) :
    Folds M (encode (e :: msg)) x z := by
  rw [encode]
  exact h.append h'

theorem Folds.last (h : Folds M e.encode x y) : Folds M (encode [e]) x y := by
  rw [encode_singleton]
  exact h

/-- A record that is merged into the message read so far. -/
theorem folds_merged {merge : α → α → α} {wrap : β → α} (hk : k < 2 ^ 28)
    (hparse : M.parseField ⟨k, wireTypeOf v⟩ = parseOneof F ⟨k, wireTypeOf v⟩ merge wrap)
    (ht : F.expectedWireType = wireTypeOf v) (hb : Reads F.parse v.payload b) (x : α) :
    Folds M (Entry.mk k .explicit v).encode x (merge x (wrap b)) := by
  refine folds_entry (g := fun x => merge x (wrap b)) hk ?_ (by simp)
  rw [hparse]
  exact reads_parseOneof hb ht merge wrap

/-- The only field of a oneof. -/
theorem Carries.oneof {merge : α → α → α} {wrap : β → α} {f' : α → γ} {c : γ}
    (h : Carries F f v d) (hk : k < 2 ^ 28)
    (hparse : M.parseField ⟨k, wireTypeOf v⟩ = parseOneof F ⟨k, wireTypeOf v⟩ merge wrap)
    (hmerge : ∀ b, merge M.default (wrap b) = wrap b) (hf : ∀ b, f b = d → f' (wrap b) = c) :
    Transmits M f' [.mk k .explicit v] c := by
  obtain ⟨ht, b, hb, hd⟩ := h
  refine ⟨wrap b, Folds.last ?_, hf b hd⟩
  have hfolds := folds_merged hk hparse ht hb M.default
  rwa [hmerge] at hfolds

/-- A repeated field: each record adds one element. -/
theorem folds_repeated {l : List γ} {value : γ → Value} {g : γ → δ} (add : α → List β → α)
    (hnil : ∀ x, add x [] = x) (hadd : ∀ x l m, add (add x l) m = add x (l ++ m))
    (hstep : ∀ {v b} x, (Field.repeated F).expectedWireType = wireTypeOf v →
      Reads (Field.repeated F).parse v.payload [b] →
      Folds M (Entry.mk k .explicit v).encode x (add x [b]))
    (h : ∀ c ∈ l, Carries F f (value c) (g c)) (x : α) :
    ∃ bs, bs.map f = l.map g ∧
      Folds M (encode (l.map fun c => .mk k .explicit (value c))) x (add x bs) := by
  induction l generalizing x with
  | nil =>
    refine ⟨[], rfl, ?_⟩
    rw [List.map_nil, hnil, encode]
    exact Folds.nil x
  | cons c l ih =>
    obtain ⟨ht, b, hb, hd⟩ := h c (by simp)
    obtain ⟨bs, hbs, hrest⟩ := ih (fun c' hc' => h c' (List.mem_cons_of_mem c hc')) (add x [b])
    rw [hadd] at hrest
    refine ⟨b :: bs, by rw [List.map_cons, List.map_cons, hd, hbs], ?_⟩
    exact Folds.cons (hstep x ht hb.bind_pure) hrest

/-- A message that is nothing but a repeated field. -/
theorem transmits_repeated {l : List γ} {value : γ → Value} {g : γ → δ} {wrap : List β → α}
    {merge : α → α → α} {f' : α → List δ} (hk : k < 2 ^ 28)
    (hparse : ∀ t, M.parseField ⟨k, t⟩ = parseOneof (Field.repeated F) ⟨k, t⟩ merge wrap)
    (hnil : ∀ x, merge x (wrap []) = x)
    (hadd : ∀ x l m, merge (merge x (wrap l)) (wrap m) = merge x (wrap (l ++ m)))
    (hdef : ∀ l, merge M.default (wrap l) = wrap l) (hf : ∀ l, f' (wrap l) = l.map f)
    (h : ∀ c ∈ l, Carries F f (value c) (g c)) :
    Transmits M f' (l.map fun c => .mk k .explicit (value c)) (l.map g) := by
  obtain ⟨bs, hbs, hfolds⟩ := folds_repeated (fun x l => merge x (wrap l)) hnil hadd
    (fun x ht hb => folds_merged hk (hparse _) ht hb x) h M.default
  rw [hdef] at hfolds
  exact ⟨wrap bs, hfolds, by rw [hf, hbs]⟩

/-! ## Messages that are not read -/

theorem Folds.interpret_error {t : Tag} {key bs : Bytes} (htag : Reads Tag.parse key t)
    (hkey : 0 < key.length) (h : Rejects (M.parseField t) bs) :
    ∃ msg, M.interpret? (key ++ bs) = .error msg := by
  obtain ⟨it, msg, hfield⟩ := h key []
  have htag := htag [] bs
  have hrem : remaining ⟨key ++ bs, 0⟩ = ⟨⟨key ++ bs, 0⟩, .ok (key ++ bs).length⟩ := rfl
  have hpos : pos ⟨key ++ bs, 0⟩ = ⟨⟨key ++ bs, 0⟩, .ok 0⟩ := rfl
  have hne : (key ++ bs).length ≠ 0 := by
    rw [List.length_append]
    omega
  have hempty : empty ⟨key ++ bs, 0⟩ = ⟨⟨key ++ bs, 0⟩, .ok false⟩ := by
    simp only [empty, inspect, Iterator.remaining, Nat.sub_zero, beq_eq_false_iff_ne.mpr hne]
  simp only [List.nil_append, List.append_nil, List.length_nil, Nat.zero_add] at htag hfield
  have hhelper : M.parseWithSize (key ++ bs).length ⟨key ++ bs, 0⟩ = ⟨it, .error msg⟩ := by
    rw [Message.parseWithSize, Message.parseMessageHelper, if_neg hne, bind_of_ok hempty,
      if_neg (by simp), bind_of_ok hpos, bind_of_ok htag, bind_of_error hfield]
  refine ⟨msg, ?_⟩
  rw [Message.interpret?, run, Message.parse, bind_of_ok hrem, bind_of_error hhelper]

/-- A message within another one whose length is too large for the decoder. -/
theorem rejects_field (hlen : 2 ^ 31 ≤ (encode fields).length)
    (hlen' : (encode fields).length < 2 ^ 32) :
    Rejects M.field.parse (Value.message fields).payload :=
  ((rejects_parseSize hlen hlen').bind).append _

theorem rejects_parseOneof {t : Tag} {bs : Bytes} (h : Rejects F.parse bs)
    (ht : F.expectedWireType = t.wireType) (merge : α → α → α) (wrap : β → α) :
    Rejects (parseOneof F t merge wrap) bs := by
  rw [parseOneof, Field.guardedParse, if_neg (by simp [ht])]
  exact h.bind

end CedarSpec.Protobuf
