import CedarSpec.Transmission
import CedarSpec.TermTypeProto
import CedarSpec.Messages

/-! Names, entities and term types arrive as they were sent. -/

namespace CedarSpec.SymCC.Proto

open ByteParser ProtoWire Protobuf Messages

-- a message's parser is to be unfolded down to these, and no further
attribute [local irreducible] parseFieldElement parseOneof

variable {P : ThirdParty} {α : Type} {M : Message α} {n k : ℕ} {x y : α}

/-- A text that is left out if it is empty, as the field is then empty already. -/
theorem folds_string {s : String} {get : α → String} {update : α → String → α} (hk : k < 2 ^ 28)
    (hparse : M.parseField ⟨k, .LEN⟩ = parseFieldElement Field.string ⟨k, .LEN⟩ get update)
    (hs : (Value.string s).size < 2 ^ 31) (hupdate : update x s = y) (hempty : update x "" = x) :
    Folds M (Entry.mk k .implicit (.string s)).encode x y := by
  refine folds_element (v := s) hk hparse (reads_string hs) rfl hupdate ?_
  intro _ hdef
  have hs : s = "" := by simpa [Value.isDefault] using hdef
  rw [← hupdate, hs, hempty]

theorem transmits_name (hP : P.Documented) (ety : Datatypes.EntityTypeName)
    (h : Fits n (P.nameFrom ety)) :
    Transmits Name.message Name.toName (P.nameFrom ety) ety.counterpart := by
  rw [hP.nameFrom_eq] at h ⊢
  have hpath : ∀ c ∈ ety.namespaceComponents, Carries Field.string id (.string c) c := by
    intro c hc
    exact carries_string (h.tail.lengths (List.mem_map_of_mem hc))
  obtain ⟨path, hmap, hfolds⟩ := folds_repeated (M := Name.message) (g := id) (k := 2)
    (fun x l => ⟨x.id, x.path ++ l⟩) (by simp) (by simp)
    (fun x ht hb => folds_element (by decide) rfl hb ht rfl (by simp)) hpath
    ⟨ety.basename, []⟩
  have heq : path = ety.namespaceComponents := by simpa using hmap
  refine ⟨⟨ety.basename, path⟩, Folds.cons ?_ hfolds, by rw [heq]; rfl⟩
  exact folds_string (by decide) rfl h.head rfl rfl

theorem transmits_entityUid (hP : P.Documented) (euid : Datatypes.EntityUid)
    (h : Fits n (P.entityUidFrom euid)) :
    Transmits EntityUID.message id (P.entityUidFrom euid) euid.counterpart := by
  rw [hP.entityUidFrom_eq] at h ⊢
  have hname := transmits_name hP euid.ty (h.sub (m := n) (by omega))
  have hcarries : Carries EntityType.field id (.message (P.nameFrom euid.ty)) euid.ty.counterpart :=
    (hname.carries h.head).fromInterField EntityType.merge
  obtain ⟨ht, ty, hb, hty⟩ := hcarries
  refine ⟨⟨ty, euid.eid⟩, Folds.cons (y := ⟨ty, ""⟩) ?_ (Folds.last ?_), ?_⟩
  · exact folds_element (by decide) rfl hb ht rfl (by simp)
  · exact folds_string (by decide) rfl h.tail.head rfl rfl
  · rw [id_eq] at hty
    rw [hty]
    rfl

/-! ## Term types -/

theorem TermPrimType.merge_default (pty : TermPrimType) :
    merge (.prim .bool) pty = pty := by
  cases pty with
  | prim p => cases p <;> rfl
  | bitvec n => rfl
  | entity ety => rfl
  | ext xty => rfl

theorem TermType.merge_init (ty : TermType) : init.merge ty = ty := by
  cases ty with
  | prim pty => exact congrArg TermType.prim pty.merge_default
  | option ty => rfl
  | set ty => rfl
  | record rty => rfl

theorem transmits_termPrimType (hP : P.Documented) (pty : Datatypes.TermPrimType)
    (h : Fits n (TermPrimType.new P pty)) :
    Transmits TermPrimType.message TermPrimType.toCedarTermPrimType (TermPrimType.new P pty)
      pty.counterpart := by
  cases pty with
  | bool =>
    have hv : Carries (Field.enum PrimType.fromInt) id (.varint 0) .bool :=
      carries_enum (by decide) rfl rfl
    exact hv.oneof (by decide) rfl (fun p => TermPrimType.merge_default (.prim p))
      (by rintro _ rfl; rfl)
  | string =>
    have hv : Carries (Field.enum PrimType.fromInt) id (.varint 1) .string :=
      carries_enum (by decide) rfl rfl
    exact hv.oneof (by decide) rfl (fun p => TermPrimType.merge_default (.prim p))
      (by rintro _ rfl; rfl)
  | bitvec w =>
    have hv := carries_uint32 w.val.toUInt32
    rw [UInt8.toUInt64_toUInt32] at hv
    exact hv.oneof (by decide) rfl (fun _ => rfl) (by rintro _ rfl; rfl)
  | entity ety =>
    have hv := (transmits_name hP ety (h.sub (m := n) (by omega))).carries h.head
    refine hv.oneof (by decide) rfl (fun _ => rfl) ?_
    intro b hb
    rw [TermPrimType.toCedarTermPrimType, hb]
    rfl
  | ext xty =>
    have hv : Carries (Field.enum ExtType.fromInt) ExtType.toCedarExtType
        (.varint (ExtType.new xty)) xty.counterpart := by
      cases xty <;> exact carries_enum (by decide) rfl rfl
    refine hv.oneof (by decide) rfl (fun _ => rfl) ?_
    intro b hb
    rw [TermPrimType.toCedarTermPrimType, hb]
    rfl

theorem transmits_recordFieldType {attr : String} {msg : List Entry} {ty : SymCC.TermType}
    (h : Fits k (RecordFieldType.new attr msg))
    (hty : Transmits (TermType.message n) TermType.toCedarTermType msg ty) :
    Transmits (RecordFieldType.message (TermType.message n))
      (fun rf => (rf.attr, rf.ty.toCedarTermType)) (RecordFieldType.new attr msg) (attr, ty) := by
  obtain ⟨ht, b, hb, rfl⟩ := hty.carries h.tail.head
  refine ⟨⟨attr, b⟩, Folds.cons (y := ⟨attr, TermType.init⟩) ?_ (Folds.last ?_), rfl⟩
  · exact folds_string (by decide) rfl h.head rfl rfl
  · refine folds_element (by decide) rfl hb ht ?_ (by simp)
    exact congrArg (RecordFieldType.mk attr) b.merge_init

theorem fieldTypesToCedar_eq_map (fields : List RecordFieldType) :
    fieldTypesToCedar fields = fields.map fun rf => (rf.attr, rf.ty.toCedarTermType) := by
  induction fields with
  | nil => rfl
  | cons rf fields ih =>
    obtain ⟨attr, ty⟩ := rf
    rw [fieldTypesToCedar, ih, List.map_cons]

theorem recordType_new_eq_map (rty : List (String × Datatypes.TermType)) :
    RecordType.new P rty = rty.map fun field =>
      .mk 1 .explicit (.message (RecordFieldType.new field.1 (TermType.new P field.2))) := by
  induction rty with
  | nil => rfl
  | cons field rty ih => rw [RecordType.new, ih, List.map_cons]

theorem transmits_recordType {rty : List (String × Datatypes.TermType)}
    (h : Fits n (RecordType.new P rty))
    (hty : ∀ field ∈ rty, Fits n (TermType.new P field.2) →
      Transmits (TermType.message n) TermType.toCedarTermType (TermType.new P field.2)
        field.2.counterpart) :
    Transmits (RecordType.message (TermType.message n)) (fun x => fieldTypesToCedar x.fields)
      (RecordType.new P rty) (Datatypes.fieldTypesCounterpart rty) := by
  rw [recordType_new_eq_map] at h ⊢
  rw [Datatypes.fieldTypesCounterpart_eq_map]
  refine transmits_repeated (by decide) (fun _ => rfl) ?_ ?_ ?_
    (fun fields => fieldTypesToCedar_eq_map fields) ?_
  · intro hx
    obtain ⟨fields⟩ := hx
    rw [RecordType.merge, List.append_nil]
  · intro x l m
    simp only [RecordType.merge, List.append_assoc]
  · intro l
    rfl
  · intro field hfield
    have hmem := List.mem_map_of_mem (f := fun field : String × Datatypes.TermType =>
      Entry.mk 1 .explicit (.message (RecordFieldType.new field.1 (TermType.new P field.2)))) hfield
    have hfits : Fits n (RecordFieldType.new field.1 (TermType.new P field.2)) :=
      h.inner hmem (by omega)
    have htype := hty field hfield (hfits.tail.sub (by omega))
    exact (transmits_recordFieldType hfits htype).carries (h.lengths hmem)

theorem transmits_termType (hP : P.Documented) (ty : Datatypes.TermType)
    (h : Fits n (TermType.new P ty)) :
    Transmits (TermType.message n) TermType.toCedarTermType (TermType.new P ty) ty.counterpart := by
  induction ty using Datatypes.TermType.induct generalizing n with
  | prim pty =>
    obtain ⟨m, rfl, hm⟩ := h.fuel
    refine ((transmits_termPrimType hP pty hm).carries h.head).oneof (by decide) rfl ?_ ?_
    · exact fun b => TermType.merge_init (.prim b)
    · intro b hb
      rw [TermType.toCedarTermType, hb, Datatypes.TermType.counterpart]
  | option ty ih =>
    obtain ⟨m, rfl, hm⟩ := h.fuel
    refine ((ih hm).carries h.head).oneof (by decide) rfl (fun _ => rfl) ?_
    intro b hb
    rw [TermType.toCedarTermType, hb, Datatypes.TermType.counterpart]
  | set ty ih =>
    obtain ⟨m, rfl, hm⟩ := h.fuel
    refine ((ih hm).carries h.head).oneof (by decide) rfl (fun _ => rfl) ?_
    intro b hb
    rw [TermType.toCedarTermType, hb, Datatypes.TermType.counterpart]
  | record rty ih =>
    obtain ⟨m, rfl, hm⟩ := h.fuel
    have hrty := transmits_recordType hm fun field hfield hf => ih field hfield hf
    refine (hrty.carries h.head).oneof (by decide) rfl (fun _ => rfl) ?_
    rintro ⟨fields⟩ hb
    rw [TermType.toCedarTermType, hb, Datatypes.TermType.counterpart]

end CedarSpec.SymCC.Proto
