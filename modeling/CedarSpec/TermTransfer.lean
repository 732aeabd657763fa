import CedarSpec.TermTypeTransfer
import CedarSpec.TermProto

/-! Operators, values and symbolic terms arrive as they were sent. -/

namespace CedarSpec.SymCC.Proto

open ByteParser ProtoWire Protobuf Messages

attribute [local irreducible] parseFieldElement parseOneof

variable {P : ThirdParty} {α : Type} {M : Message α} {n m k : ℕ} {x y : α}

/-! ## Operators -/

theorem transmits_uuf (hP : P.Documented) (uuf : Datatypes.Uuf) (h : Fits n (Uuf.new P uuf)) :
    Transmits (UUF.message n) UUF.toCedar (Uuf.new P uuf) uuf.counterpart := by
  have harg := transmits_termType hP uuf.arg (h.tail.sub (m := n) (by omega))
  have hout := transmits_termType hP uuf.out (h.tail.tail.sub (m := n) (by omega))
  obtain ⟨harg, a, ha, haeq⟩ := harg.carries h.tail.head
  obtain ⟨hout, b, hb, hbeq⟩ := hout.carries h.tail.tail.head
  refine ⟨⟨uuf.id, a, b⟩, ?_, by rw [UUF.toCedar, haeq, hbeq]; rfl⟩
  refine Folds.cons (y := ⟨uuf.id, TermType.init, TermType.init⟩) ?_
    (Folds.cons (y := ⟨uuf.id, a, TermType.init⟩) ?_ (Folds.last ?_))
  · exact folds_string (by decide) rfl h.head rfl rfl
  · refine folds_element (by decide) rfl ha harg ?_ (by simp)
    exact congrArg (UUF.mk uuf.id · TermType.init) a.merge_init
  · refine folds_element (by decide) rfl hb hout ?_ (by simp)
    exact congrArg (UUF.mk uuf.id a) b.merge_init

theorem transmits_patElem {elem : Datatypes.PatElem} (h : elem.counterpart.isSome) :
    Transmits PatElem.message (fun x => some x.toCedar) (PatElem.new elem) elem.counterpart := by
  cases elem with
  | star => exact (carries_bool true).oneof (by decide) rfl (fun _ => rfl) (fun _ _ => rfl)
  | char c =>
    have hvalid : c.isValidChar := by
      by_contra hc
      simp [Datatypes.PatElem.counterpart, hc] at h
    refine (carries_uint32 c).oneof (by decide) rfl (fun _ => rfl) ?_
    intro b hb
    rw [Datatypes.PatElem.counterpart, dif_pos hvalid, show b = c from hb]
    exact congrArg (fun c => some (SymCC.PatElem.justChar c)) (Char.ofNat_toNat ⟨c, hvalid⟩)

theorem transmits_pattern {pattern : List Datatypes.PatElem} (h : Fits n (Pattern.new pattern))
    (hsome : ∀ elem ∈ pattern, elem.counterpart.isSome) :
    Transmits Pattern.message (List.map fun x => some x.toCedar) (Pattern.new pattern)
      (pattern.map Datatypes.PatElem.counterpart) := by
  refine transmits_repeated (by decide) (fun _ => rfl) ?_ ?_ (fun _ => rfl) (fun _ => rfl) ?_
  · exact fun x => List.append_nil x
  · exact fun x l m => List.append_assoc x l m
  · intro elem helem
    exact (transmits_patElem (hsome elem helem)).carries (h.lengths (List.mem_map_of_mem helem))

theorem Op.merge_default (op : Op) : merge (.base .not) op = op := by
  cases op <;> rfl

theorem transmits_op (hP : P.Documented) {op : Datatypes.Op} (h : Fits n (Op.new P op))
    (hsome : op.counterpart.isSome) :
    Transmits (Op.message n) (fun x => some x.toCedar) (Op.new P op) op.counterpart := by
  cases op with
  | uuf uuf =>
    have hv := (transmits_uuf hP uuf (h.sub (m := n) (by omega))).carries h.head
    refine hv.oneof (by decide) rfl (fun _ => rfl) ?_
    intro b hb
    rw [Op.toCedar, hb]
    rfl
  | zeroExtend bvWidth =>
    have hv := carries_uint32 bvWidth.toUInt32
    rw [UInt8.toUInt64_toUInt32] at hv
    refine hv.oneof (by decide) rfl (fun _ => rfl) ?_
    rintro _ rfl
    rfl
  | recordGet attr =>
    refine (carries_string h.head).oneof (by decide) rfl (fun _ => rfl) ?_
    rintro _ rfl
    rfl
  | stringLike pattern =>
    rw [Datatypes.Op.counterpart, Option.isSome_map] at hsome
    have hpattern := transmits_pattern (h.sub (m := n) (by omega)) fun elem helem =>
      isSome_of_mem_mapM hsome helem
    refine (hpattern.carries h.head).oneof (by decide) rfl (fun _ => rfl) ?_
    intro b hb
    rw [Datatypes.Op.counterpart, mapM_eq_mapM_id, ← hb, mapM_id_map_some]
    rfl
  | ext extOp =>
    have hv : Carries (Field.enum ExtOp.fromInt) ExtOp.toCedar (.varint (ExtOp.new extOp))
        extOp.counterpart := by
      cases extOp <;> exact carries_enum (by decide) rfl rfl
    refine hv.oneof (by decide) rfl (fun _ => rfl) ?_
    intro b hb
    rw [Op.toCedar, hb]
    rfl
  | _ =>
    refine Carries.oneof (F := Field.enum BaseOp.fromInt) (f := fun x => some x.toCedar)
      (carries_enum (by decide) rfl rfl) (by decide) rfl (fun _ => rfl) (fun _ hb => hb)

/-! ## Values -/

/-- A number that is left out if it is zero, as the field is then zero already. -/
theorem folds_int64 {i : Int64} {get : α → ℤ} {update : α → ℤ → α} (hk : k < 2 ^ 28)
    (hparse : M.parseField ⟨k, .VARINT⟩ = parseFieldElement Field.int64 ⟨k, .VARINT⟩ get update)
    (hupdate : update x i.toInt = y) (hzero : update x 0 = x) :
    Folds M (Entry.mk k .implicit (.varint i.toUInt64)).encode x y := by
  refine folds_element (v := i.toInt) hk hparse (reads_int64 i) rfl hupdate ?_
  intro _ hdef
  have hi : i.toUInt64 = 0 := by simpa [Value.isDefault] using hdef
  have hint : i.toInt = 0 := by
    obtain ⟨u⟩ := i
    rw [show u = 0 from hi]
    rfl
  rw [← hupdate, hint, hzero]

theorem folds_uint32 {c : UInt32} {get : α → UInt32} {update : α → UInt32 → α} (hk : k < 2 ^ 28)
    (hparse : M.parseField ⟨k, .VARINT⟩ = parseFieldElement Field.uint32 ⟨k, .VARINT⟩ get update)
    (hupdate : update x c = y) (hzero : update x 0 = x) :
    Folds M (Entry.mk k .implicit (.varint c.toUInt64)).encode x y := by
  obtain ⟨ht, b, hb, hbc⟩ := carries_uint32 c
  rw [id_eq] at hbc
  subst hbc
  refine folds_element hk hparse hb ht hupdate ?_
  intro _ hdef
  have hc : b.toUInt64 = 0 := by simpa [Value.isDefault] using hdef
  have hb0 : b = 0 := UInt32.toUInt64_inj.mp hc
  rw [← hupdate, hb0, hzero]

theorem transmits_bitvec {bv : Datatypes.Bitvec} (h : Fits n (Bitvec.new bv)) :
    Transmits Bitvec.message id (Bitvec.new bv) ⟨bv.width.toUInt32, bv.val⟩ := by
  refine ⟨_, Folds.cons (y := ⟨bv.width.toUInt32, ""⟩) ?_ (Folds.last ?_), rfl⟩
  · exact folds_uint32 (c := bv.width.toUInt32) (by decide) rfl rfl rfl
  · exact folds_string (by decide) rfl h.tail.head rfl rfl

theorem Bitvec.toCedar_eq_counterpart (bv : Datatypes.Bitvec) :
    toCedar ⟨bv.width.toUInt32, bv.val⟩ = bv.counterpart := by
  rw [toCedar, Datatypes.Bitvec.counterpart]
  cases bv.val.toNat? <;> rfl

theorem transmits_decimal (d : Datatypes.Decimal) :
    Transmits Decimal.message Decimal.toCedar (Decimal.new d) d.val := by
  refine ⟨⟨d.val.toInt⟩, Folds.last ?_, Int64.ofInt_toInt d.val⟩
  exact folds_int64 (by decide) rfl rfl rfl

theorem transmits_datetime (dt : Datatypes.Datetime) :
    Transmits Datetime.message Datetime.toCedar (Datetime.new dt) ⟨dt.val⟩ := by
  refine ⟨⟨dt.val.toInt⟩, Folds.last ?_, congrArg Extension.Datetime.mk (Int64.ofInt_toInt dt.val)⟩
  exact folds_int64 (by decide) rfl rfl rfl

theorem transmits_duration (dur : Datatypes.Duration) :
    Transmits Duration.message Duration.toCedar (Duration.new dur) ⟨dur.val⟩ := by
  refine ⟨⟨dur.val.toInt⟩, Folds.last ?_, congrArg Extension.Duration.mk (Int64.ofInt_toInt _)⟩
  exact folds_int64 (by decide) rfl rfl rfl

theorem transmits_optional {pre : Option Datatypes.Bitvec} {addr : Bitvec}
    (h : Fits n (optional 2 (pre.map Bitvec.new))) :
    Folds Cidr.message (encode (optional 2 (pre.map Bitvec.new))) ⟨addr, none⟩
      ⟨addr, pre.map fun bv => ⟨bv.width.toUInt32, bv.val⟩⟩ := by
  cases pre with
  | none => exact Folds.nil _
  | some bv =>
    have hbv := transmits_bitvec (h.sub (m := n) (by omega))
    obtain ⟨ht, b, hb, hbeq⟩ := (hbv.carries h.head).option
    rw [Option.map_id_fun, id_eq] at hbeq
    refine Folds.last (folds_element (by decide) rfl hb ht ?_ (by simp))
    rw [hbeq]
    rfl

theorem Cidr.prefixToCedar_eq_counterpart (pre : Option Datatypes.Bitvec) (w : ℕ) :
    prefixToCedar w (pre.map fun bv => ⟨bv.width.toUInt32, bv.val⟩) =
      Datatypes.prefixCounterpart w pre := by
  cases pre with
  | none => rfl
  | some bv =>
    simp only [Option.map_some, prefixToCedar, Bitvec.toCedar_eq_counterpart,
      Datatypes.prefixCounterpart, Datatypes.Bitvec.counterpart, Datatypes.Bitvec.toWidth]
    by_cases hw : w = bv.width.toNat
    · cases bv.val.toNat? <;> simp [hw]
    · cases bv.val.toNat? <;> simp [hw, Ne.symm hw]

theorem Cidr.toCedar_eq_counterpart (cidr : Datatypes.Cidr) (w : ℕ) :
    toCedar ⟨⟨cidr.addr.width.toUInt32, cidr.addr.val⟩,
      cidr.pre.map fun bv => ⟨bv.width.toUInt32, bv.val⟩⟩ w = cidr.counterpart w := by
  simp only [toCedar, prefixToCedar_eq_counterpart, Bitvec.toCedar_eq_counterpart,
    Datatypes.Cidr.counterpart, Datatypes.Bitvec.counterpart, Datatypes.Bitvec.toWidth]
  by_cases hw : 2 ^ w = cidr.addr.width.toNat
  · cases cidr.addr.val.toNat? <;> simp [hw]
  · cases cidr.addr.val.toNat? <;> simp [hw, Ne.symm hw]

theorem transmits_cidr (cidr : Datatypes.Cidr) (w : ℕ) (h : Fits n (Cidr.new cidr)) :
    Transmits Cidr.message (fun x => x.toCedar w) (Cidr.new cidr) (cidr.counterpart w) := by
  have haddr := transmits_bitvec (h.sub (m := n) (by omega))
  obtain ⟨ht, b, hb, hbeq⟩ := haddr.carries h.head
  rw [id_eq] at hbeq
  subst hbeq
  refine ⟨_, Folds.cons ?_ (transmits_optional h.tail), Cidr.toCedar_eq_counterpart cidr w⟩
  exact folds_element (by decide) rfl hb ht rfl (by simp)

theorem transmits_ipAddr (ip : Datatypes.IpAddr) (h : Fits n (IpAddr.new ip)) :
    Transmits IpAddr.message IpAddr.toCedar (IpAddr.new ip) ip.counterpart := by
  cases ip with
  | V4 cidr =>
    have hv := (transmits_cidr cidr 5 (h.sub (m := n) (by omega))).carries h.head
    refine hv.oneof (by decide) rfl ?_ ?_
    · intro hx
      obtain ⟨addr, pre⟩ := hx
      cases pre <;> rfl
    · intro b hb
      simp only [IpAddr.toCedar, hb, Datatypes.IpAddr.counterpart]
      cases cidr.counterpart 5 <;> rfl
  | V6 cidr =>
    have hv := (transmits_cidr cidr 7 (h.sub (m := n) (by omega))).carries h.head
    refine hv.oneof (by decide) rfl (fun _ => rfl) ?_
    intro b hb
    simp only [IpAddr.toCedar, hb, Datatypes.IpAddr.counterpart]
    cases cidr.counterpart 7 <;> rfl

theorem transmits_ext (ext : Datatypes.Ext) (h : Fits n (Ext.new ext)) :
    Transmits Ext.message Ext.toCedar (Ext.new ext) ext.counterpart := by
  cases ext with
  | decimal d =>
    refine ((transmits_decimal d).carries h.head).oneof (by decide) rfl (fun _ => rfl) ?_
    intro b hb
    rw [Ext.toCedar, hb, Datatypes.Ext.counterpart]
  | ipaddr ip =>
    have hv := (transmits_ipAddr ip (h.sub (m := n) (by omega))).carries h.head
    refine hv.oneof (by decide) rfl (fun _ => rfl) ?_
    intro b hb
    simp only [Ext.toCedar, hb, Datatypes.Ext.counterpart]
    cases ip.counterpart <;> rfl
  | datetime dt =>
    refine ((transmits_datetime dt).carries h.head).oneof (by decide) rfl (fun _ => rfl) ?_
    intro b hb
    rw [Ext.toCedar, hb, Datatypes.Ext.counterpart]
  | duration dur =>
    refine ((transmits_duration dur).carries h.head).oneof (by decide) rfl (fun _ => rfl) ?_
    intro b hb
    rw [Ext.toCedar, hb, Datatypes.Ext.counterpart]

/-! ## Terms -/

theorem transmits_termVar (hP : P.Documented) (v : Datatypes.TermVar)
    (h : Fits n (TermVar.new P v)) :
    Transmits (TermVar.message n) TermVar.toCedar (TermVar.new P v) v.counterpart := by
  have hty := transmits_termType hP v.ty (h.tail.sub (m := n) (by omega))
  obtain ⟨ht, b, hb, hbeq⟩ := hty.carries h.tail.head
  refine ⟨⟨v.id, b⟩, Folds.cons (y := ⟨v.id, TermType.init⟩) ?_ (Folds.last ?_), ?_⟩
  · exact folds_string (by decide) rfl h.head rfl rfl
  · refine folds_element (by decide) rfl hb ht ?_ (by simp)
    exact congrArg (TermVar.mk v.id) b.merge_init
  · rw [TermVar.toCedar, hbeq, Datatypes.TermVar.counterpart]

theorem TermPrim.merge_default (t : TermPrim) : merge (.bool false) t = t := by
  cases t <;> rfl

theorem transmits_termPrim (hP : P.Documented) (prim : Datatypes.TermPrim)
    (h : Fits n (TermPrim.new P prim)) :
    Transmits TermPrim.message TermPrim.toCedar (TermPrim.new P prim) prim.counterpart := by
  cases prim with
  | bool b =>
    refine (carries_bool b).oneof (by decide) rfl (fun _ => rfl) ?_
    rintro _ rfl
    rfl
  | bitvec bv =>
    have hv := (transmits_bitvec (h.sub (m := n) (by omega))).carries h.head
    refine hv.oneof (by decide) rfl (fun _ => rfl) ?_
    intro b hb
    rw [id_eq] at hb
    simp only [TermPrim.toCedar, hb, Bitvec.toCedar_eq_counterpart, Datatypes.TermPrim.counterpart]
    cases bv.counterpart <;> rfl
  | string s =>
    refine (carries_string h.head).oneof (by decide) rfl (fun _ => rfl) ?_
    rintro _ rfl
    rfl
  | entity euid =>
    have hv := (transmits_entityUid hP euid (h.sub (m := n) (by omega))).carries h.head
    refine hv.oneof (by decide) rfl (fun _ => rfl) ?_
    intro b hb
    rw [TermPrim.toCedar, show b = euid.counterpart from hb]
    rfl
  | ext x =>
    have hv := (transmits_ext x (h.sub (m := n) (by omega))).carries h.head
    refine hv.oneof (by decide) rfl (fun _ => rfl) ?_
    intro b hb
    simp only [TermPrim.toCedar, hb, Datatypes.TermPrim.counterpart]
    cases x.counterpart <;> rfl

theorem Term.merge_init (t : Term) : init.merge t = t := by
  cases t with
  | prim p => exact congrArg Term.prim p.merge_default
  | var v => rfl
  | none ty => rfl
  | some t => rfl
  | set s => rfl
  | record r => rfl
  | app a => rfl

theorem termsToCedar_eq_mapM (ts : List Term) : termsToCedar ts = ts.mapM Term.toCedar := by
  induction ts with
  | nil => rfl
  | cons t ts ih =>
    rw [termsToCedar, ih, List.mapM_cons]

theorem fieldsToCedar_eq_mapM (fields : List RecordField) :
    fieldsToCedar fields = fields.mapM fun rf => rf.term.toCedar.map (Prod.mk rf.attr) := by
  induction fields with
  | nil => rfl
  | cons rf fields ih =>
    obtain ⟨attr, t⟩ := rf
    rw [fieldsToCedar, ih, List.mapM_cons]
    cases t.toCedar <;> rfl

theorem repeatedTerm_eq_map (ts : List Datatypes.Term) :
    repeatedTerm P k ts = ts.map fun t => .mk k .explicit (.message (Term.new P t)) := by
  induction ts with
  | nil => rfl
  | cons t ts ih => rw [repeatedTerm, ih, List.map_cons]

theorem record_new_eq_map (fields : List (String × Datatypes.Term)) :
    Record.new P fields = fields.map fun field =>
      .mk 1 .explicit (.message (RecordField.new field.1 (Term.new P field.2))) := by
  induction fields with
  | nil => rfl
  | cons field fields ih => rw [Record.new, ih, List.map_cons]

/-- The terms that were read stand for the terms that were sent. -/
theorem termsToCedar_eq_termsCounterpart {es : List Term} {ts : List Datatypes.Term}
    (h : es.map Term.toCedar = ts.map Datatypes.Term.counterpart) :
    termsToCedar es = Datatypes.termsCounterpart ts := by
  rw [termsToCedar_eq_mapM, Datatypes.termsCounterpart_eq_mapM, mapM_eq_mapM_id, h,
    ← mapM_eq_mapM_id]

theorem carries_terms {ts : List Datatypes.Term} (h : Fits n (repeatedTerm P k ts))
    (hterm : ∀ t ∈ ts, Fits n (Term.new P t) →
      Transmits (Term.message n) Term.toCedar (Term.new P t) t.counterpart) :
    ∀ t ∈ ts, Carries (Term.message n).field Term.toCedar (.message (Term.new P t))
      t.counterpart := by
  intro t ht
  rw [repeatedTerm_eq_map] at h
  have hmem := List.mem_map_of_mem (f := fun t =>
    Entry.mk k .explicit (.message (Term.new P t))) ht
  exact (hterm t ht (h.inner hmem (by omega))).carries (h.lengths hmem)

theorem transmits_set (hP : P.Documented) {elts : List Datatypes.Term} {ty : Datatypes.TermType}
    (h : Fits n (Set.new P (repeatedTerm P 1 elts) ty))
    (helts : ∀ t ∈ elts, Carries (Term.message n).field Term.toCedar (.message (Term.new P t))
      t.counterpart) :
    Transmits (Set.message n (Term.message n)) (fun s => Term.toCedar (.set s))
      (Set.new P (repeatedTerm P 1 elts) ty) (Datatypes.Term.counterpart (.set elts ty)) := by
  rw [repeatedTerm_eq_map, Set.new] at h ⊢
  have hty := transmits_termType hP ty (h.append_right.sub (m := n) (by omega))
  obtain ⟨ht, b, hb, hbeq⟩ := hty.carries h.append_right.head
  obtain ⟨es, hes, hfolds⟩ := folds_repeated (M := Set.message n (Term.message n)) (k := 1)
    (fun x l => ⟨x.elts ++ l, x.ty⟩) (fun ⟨_, _⟩ => by simp) (by simp)
    (fun x ht hb => folds_element (by decide) rfl hb ht rfl (by simp)) helts ⟨[], TermType.init⟩
  refine ⟨⟨es, b⟩, ?_, ?_⟩
  · rw [encode_append]
    refine hfolds.append (Folds.last (folds_element (by decide) rfl hb ht ?_ (by simp)))
    exact congrArg (Set.mk es) b.merge_init
  · simp only [Term.toCedar, Datatypes.Term.counterpart, termsToCedar_eq_termsCounterpart hes, hbeq]
    cases Datatypes.termsCounterpart elts <;> rfl

theorem transmits_app (hP : P.Documented) {op : Datatypes.Op} {args : List Datatypes.Term}
    {ty : Datatypes.TermType} (h : Fits n (App.new P op (repeatedTerm P 2 args) ty))
    (hop : op.counterpart.isSome)
    (hargs : ∀ t ∈ args, Carries (Term.message n).field Term.toCedar (.message (Term.new P t))
      t.counterpart) :
    Transmits (App.message n (Term.message n)) (fun a => Term.toCedar (.app a))
      (App.new P op (repeatedTerm P 2 args) ty) (Datatypes.Term.counterpart (.app op args ty)) := by
  rw [repeatedTerm_eq_map, App.new] at h ⊢
  have hopm := transmits_op hP (h.sub (m := n) (by omega)) hop
  obtain ⟨hto, o, ho, hoeq⟩ := hopm.carries h.head
  have hty := transmits_termType hP ty (h.tail.append_right.sub (m := n) (by omega))
  obtain ⟨ht, b, hb, hbeq⟩ := hty.carries h.tail.append_right.head
  obtain ⟨es, hes, hfolds⟩ := folds_repeated (M := App.message n (Term.message n)) (k := 2)
    (fun x l => ⟨x.op, x.args ++ l, x.ty⟩) (fun ⟨_, _, _⟩ => by simp) (by simp)
    (fun x ht hb => folds_element (by decide) rfl hb ht rfl (by simp)) hargs
    ⟨o, [], TermType.init⟩
  refine ⟨⟨o, es, b⟩, Folds.cons (y := ⟨o, [], TermType.init⟩) ?_ ?_, ?_⟩
  · refine folds_element (by decide) rfl ho hto ?_ (by simp)
    exact congrArg (App.mk · [] TermType.init) o.merge_default
  · rw [encode_append]
    refine hfolds.append (Folds.last (folds_element (by decide) rfl hb ht ?_ (by simp)))
    exact congrArg (App.mk o es) b.merge_init
  · simp only [Term.toCedar, Datatypes.Term.counterpart, termsToCedar_eq_termsCounterpart hes,
      hbeq, ← hoeq]
    cases Datatypes.termsCounterpart args <;> rfl

theorem transmits_recordField {attr : String} {msg : List Entry} {c : Option SymCC.Term}
    (h : Fits k (RecordField.new attr msg))
    (hterm : Transmits (Term.message n) Term.toCedar msg c) :
    Transmits (RecordField.message (Term.message n))
      (fun rf => rf.term.toCedar.map (Prod.mk rf.attr)) (RecordField.new attr msg)
      (c.map (Prod.mk attr)) := by
  obtain ⟨ht, b, hb, rfl⟩ := hterm.carries h.tail.head
  refine ⟨⟨attr, b⟩, Folds.cons (y := ⟨attr, Term.init⟩) ?_ (Folds.last ?_), rfl⟩
  · exact folds_string (by decide) rfl h.head rfl rfl
  · refine folds_element (by decide) rfl hb ht ?_ (by simp)
    exact congrArg (RecordField.mk attr) b.merge_init

theorem transmits_record {fields : List (String × Datatypes.Term)}
    (h : Fits n (Record.new P fields))
    (hterm : ∀ field ∈ fields, Fits n (Term.new P field.2) →
      Transmits (Term.message n) Term.toCedar (Term.new P field.2) field.2.counterpart) :
    Transmits (Record.message (Term.message n))
      (fun r => r.fields.map fun rf => rf.term.toCedar.map (Prod.mk rf.attr))
      (Record.new P fields)
      (fields.map fun field => field.2.counterpart.map (Prod.mk field.1)) := by
  rw [record_new_eq_map] at h ⊢
  refine transmits_repeated (by decide) (fun _ => rfl) ?_ ?_ (fun _ => rfl) (fun _ => rfl) ?_
  · intro hx
    obtain ⟨fields⟩ := hx
    rw [Record.merge, List.append_nil]
  · intro x l m
    simp only [Record.merge, List.append_assoc]
  · intro field hfield
    have hmem := List.mem_map_of_mem (f := fun field : String × Datatypes.Term =>
      Entry.mk 1 .explicit (.message (RecordField.new field.1 (Term.new P field.2)))) hfield
    have hfits : Fits n (RecordField.new field.1 (Term.new P field.2)) :=
      h.inner hmem (by omega)
    have hvalue := hterm field hfield (hfits.tail.sub (by omega))
    exact (transmits_recordField hfits hvalue).carries (h.lengths hmem)

theorem transmits_term (hP : P.Documented) (t : Datatypes.Term) (h : Fits n (Term.new P t))
    (hsome : t.counterpart.isSome) :
    Transmits (Term.message n) Term.toCedar (Term.new P t) t.counterpart := by
  induction t using Datatypes.Term.induct generalizing n with
  | prim p =>
    obtain ⟨m, rfl, hm⟩ := h.fuel
    refine ((transmits_termPrim hP p hm).carries h.head).oneof (by decide) rfl ?_ ?_
    · exact fun b => Term.merge_init (.prim b)
    · intro b hb
      simp only [Term.toCedar, hb, Datatypes.Term.counterpart]
      cases p.counterpart <;> rfl
  | var v =>
    obtain ⟨m, rfl, hm⟩ := h.fuel
    refine ((transmits_termVar hP v hm).carries h.head).oneof (by decide) rfl (fun _ => rfl) ?_
    intro b hb
    rw [Term.toCedar, hb, Datatypes.Term.counterpart]
    rfl
  | none ty =>
    obtain ⟨m, rfl, hm⟩ := h.fuel
    refine ((transmits_termType hP ty hm).carries h.head).oneof (by decide) rfl (fun _ => rfl) ?_
    intro b hb
    rw [Term.toCedar, hb, Datatypes.Term.counterpart]
    rfl
  | some t ih =>
    obtain ⟨m, rfl, hm⟩ := h.fuel
    rw [Datatypes.Term.counterpart, Option.isSome_map] at hsome
    refine ((ih hm hsome).carries h.head).oneof (by decide) rfl (fun _ => rfl) ?_
    intro b hb
    simp only [Term.toCedar, hb, Datatypes.Term.counterpart]
    cases t.counterpart <;> rfl
  | set elts ty ih =>
    obtain ⟨m, rfl, hm⟩ := h.fuel
    rw [Datatypes.Term.counterpart, Option.isSome_map, Datatypes.termsCounterpart_eq_mapM] at hsome
    have helts := carries_terms hm.append_left fun t ht hf =>
      ih t ht hf (isSome_of_mem_mapM hsome ht)
    have hset := transmits_set hP hm helts
    exact (hset.carries h.head).oneof (by decide) rfl (fun _ => rfl) (fun _ hb => hb)
  | record fields ih =>
    obtain ⟨m, rfl, hm⟩ := h.fuel
    rw [Datatypes.Term.counterpart, Option.isSome_map, Datatypes.fieldsCounterpart_eq_mapM] at hsome
    have hrecord := transmits_record hm fun field hfield hf =>
      ih field hfield hf (by simpa using isSome_of_mem_mapM hsome hfield)
    refine (hrecord.carries h.head).oneof (by decide) rfl (fun _ => rfl) ?_
    rintro ⟨rfs⟩ hb
    rw [Term.toCedar, fieldsToCedar_eq_mapM, mapM_eq_mapM_id, hb, ← mapM_eq_mapM_id,
      Datatypes.Term.counterpart, Datatypes.fieldsCounterpart_eq_mapM]
    exact Option.map_eq_bind.symm
  | app op args ty ih =>
    obtain ⟨m, rfl, hm⟩ := h.fuel
    obtain ⟨hop, hargs⟩ := Datatypes.isSome_of_app hsome
    have hcarries := carries_terms hm.tail.append_left fun t ht hf =>
      ih t ht hf (isSome_of_mem_mapM hargs ht)
    have happ := transmits_app hP hm hop hcarries
    exact (happ.carries h.head).oneof (by decide) rfl (fun _ => rfl) (fun _ hb => hb)

end CedarSpec.SymCC.Proto
