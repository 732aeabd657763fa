import CedarSpec.Encoder
import CedarSpec.SmtLib

/-! The encoder as a state machine: every step enters one type, function or term in its table
and writes the command that declares or defines it. -/

namespace CedarSpec.SymCC

open SmtLib

/-! ## The commands -/

def sym (s : String) : SExp := .atom s.toList
def numeral (n : ℕ) : SExp := .atom (Nat.toDigits 10 n)

def bitVecSort (n : ℕ) : SExp := .list [sym "_", sym "BitVec", numeral n]

namespace EncoderState

def typeId (st : EncoderState) (ty : TermType) : String := (st.types.lookup ty).getD ""
def uufId (st : EncoderState) (f : UUF) : String := (st.uufs.lookup f).getD ""
def termId (st : EncoderState) (t : Term) : String := (st.terms.lookup t).getD ""

/-- The sort of a type by the tables. -/
def sortOf (st : EncoderState) : TermType → SExp
  | .prim .bool => sym "Bool"
  | .prim .string => sym "String"
  | .prim (.bitvec n) => bitVecSort n
  | .option ty => .list [sym "Option", st.sortOf ty]
  | .set ty => .list [sym "Set", st.sortOf ty]
  | .prim (.entity ety) => sym (st.typeId (.entity ety))
  | .prim (.ext xty) => sym (st.typeId (.ext xty))
  | .record rty => sym (st.typeId (.record rty))

end EncoderState

def bitVecLit {n : ℕ} (bv : BitVec n) : SExp :=
  .list [sym "_", .atom ('b' :: 'v' :: Nat.toDigits 10 bv.toNat), numeral n]

/-- The characters of the theory of strings that stand for a character. -/
def escapeChar (c : Char) : List Char :=
  if c = '\\' then "\\u\x7b5c\x7d".toList
  else if 32 ≤ c.toNat ∧ c.toNat ≤ 126 then [c]
  else "\\u\x7b".toList ++ Nat.toDigits 16 c.toNat ++ "\x7d".toList

def escape (s : List Char) : List Char := s.flatMap escapeChar

def stringLit (s : String) : SExp := .str (escape s.toList)

/-- What stands for a term that is not entered in the table. -/
def inlined? : Term → Option SExp
  | .prim (.bool b) => some (sym (if b then "true" else "false"))
  | .prim (.bitvec bv) => some (bitVecLit bv)
  | .prim (.string s) => some (stringLit s)
  | .app .bvnego [t] (.prim .bool) =>
    match t.typeOf with
    | .prim (.bitvec _) => none
    | _ => some (sym "false")
  | _ => none

/-- The reference to a term by the tables. -/
def EncoderState.ref (st : EncoderState) (t : Term) : SExp :=
  (inlined? t).getD (sym (st.termId t))

def prefixLit {w : ℕ} : Extension.IPNetPrefix w → SExp
  | some p => .list [sym "some", bitVecLit p]
  | none => .list [sym "as", sym "none", .list [sym "Option", bitVecSort w]]

def extLit : Extension.Ext → SExp
  | .decimal d => .list [sym "Decimal", bitVecLit (BitVec.ofInt 64 d.toInt)]
  | .ipaddr (.V4 ⟨addrV4, preV4⟩) => .list [sym "V4", bitVecLit addrV4, prefixLit preV4]
  | .ipaddr (.V6 ⟨addrV6, preV6⟩) => .list [sym "V6", bitVecLit addrV6, prefixLit preV6]
  | .datetime dt => .list [sym "Datetime", bitVecLit (BitVec.ofInt 64 dt.val.toInt)]
  | .duration d => .list [sym "Duration", bitVecLit (BitVec.ofInt 64 d.val.toInt)]

def extOpSym : ExtOp → SExp
  | .ipaddrIsV4 => .list [sym "_", sym "is", sym "V4"]
  | xop => sym (Encoder.encodeExtOp xop)

def opSym : Op → SExp
  | .zeroExtend n => .list [sym "_", sym "zero_extend", numeral n]
  | .ext xop => extOpSym xop
  | op => sym (Encoder.encodeOp op)

def patElemRe : PatElem → SExp
  | .star => .list [sym "re.*", sym "re.allchar"]
  | .justChar c => .list [sym "str.to_re", stringLit (String.singleton c)]

def patternRe : List PatElem → SExp
  | [] => .list [sym "str.to_re", .str []]
  | [e] => patElemRe e
  | p => .list (sym "re.++" :: p.map patElemRe)

namespace EncoderState

/-- An application by the tables, with what stands for its arguments. -/
def appForm (st : EncoderState) (op : Op) (ts : List Term) (args : List SExp) : SExp :=
  match op with
  | .recordGet a =>
    let ty := (ts.headD (.bool false)).typeOf
    let index := match ty with
      | .record rty => (rty.findIdx? (·.1 = a)).getD 0
      | _ => 0
    .list (sym (Encoder.recordAttrId (st.typeId ty) index) :: args)
  | .stringLike p => .list (sym "str.in_re" :: (args ++ [patternRe p]))
  | .uuf f => .list (sym (st.uufId f) :: args)
  | op => .list (opSym op :: args)

/-- The body that defines a term by the tables. -/
def body (st : EncoderState) (t : Term) : SExp :=
  match t with
  | .prim (.entity e) => .list [sym (st.typeId (.entity e.ty)), stringLit e.eid]
  | .prim (.ext x) => extLit x
  | .none ty => .list [sym "as", sym "none", st.sortOf (.option ty)]
  | .some t => .list [sym "some", st.ref t]
  | .set [] ty => .list [sym "as", sym "set.empty", st.sortOf (.set ty)]
  | .set ts ty =>
    .list (sym "set.insert" ::
      (ts.map st.ref ++ [.list [sym "as", sym "set.empty", st.sortOf (.set ty)]]))
  | .record [] => st.sortOf (.record [])
  | .record ats =>
    .list (st.sortOf (.record (fieldTypesOf ats)) :: ats.map fun field => st.ref field.2)
  | .app .bvnego [t₁] (.prim .bool) =>
    match t₁.typeOf with
    | .prim (.bitvec n) => .list [sym "=", st.ref t₁, bitVecLit (BitVec.intMin n)]
    | _ => sym "false"
  | .app op ts _ => st.appForm op ts (ts.map st.ref)
  | t => st.ref t

end EncoderState

def datatypeCommand (id : String) (constructors : List SExp) : SExp :=
  .list [sym "declare-datatype", sym id, .list constructors]

/-- A constructor by its selectors and their sorts. -/
def constructorDecl (id : String) (fields : List (String × SExp)) : SExp :=
  .list (sym id :: fields.map fun field => .list [sym field.1, field.2])

def constCommand (id : String) (sort : SExp) : SExp :=
  .list [sym "declare-const", sym id, sort]

def funCommand (id : String) (arg out : SExp) : SExp :=
  .list [sym "declare-fun", sym id, .list [arg], out]

def defineCommand (id : String) (sort body : SExp) : SExp :=
  .list [sym "define-fun", sym id, .list [], sort, body]

def assertCommand (e : SExp) : SExp := .list [sym "assert", e]

def extConstructors : ExtType → List SExp
  | .decimal => [constructorDecl "Decimal" [("decimalVal", bitVecSort 64)]]
  | .ipAddr =>
    [constructorDecl "V4"
      [("addrV4", bitVecSort 32), ("prefixV4", .list [sym "Option", bitVecSort 5])],
     constructorDecl "V6"
      [("addrV6", bitVecSort 128), ("prefixV6", .list [sym "Option", bitVecSort 7])]]
  | .datetime => [constructorDecl "Datetime" [("datetimeVal", bitVecSort 64)]]
  | .duration => [constructorDecl "Duration" [("durationVal", bitVecSort 64)]]

def extTypeId : ExtType → String
  | .decimal => "Decimal"
  | .ipAddr => "IPAddr"
  | .datetime => "Datetime"
  | .duration => "Duration"

def entityConstructors (id : String) : Option (List String) → List SExp
  | some members => members.mapIdx fun i _ => constructorDecl (Encoder.enumId id i) []
  | none => [constructorDecl id [("eid", sym "String")]]

def EncoderState.recordConstructor (st : EncoderState) (id : String)
    (rty : List (String × TermType)) : SExp :=
  constructorDecl id (rty.mapIdx fun i field => (Encoder.recordAttrId id i, st.sortOf field.2))

/-! ## What the tables cover -/

/-- The text consists of characters of the theory of strings. -/
def Representable (s : String) : Prop := ∀ c ∈ s.toList, c.toNat ≤ Encoder.smtLibMaxCodePoint

/-- The term is not entered in the table, and it can be written. -/
def Inlined (t : Term) : Prop := (inlined? t).isSome ∧ ∀ s, t = .string s → Representable s

namespace EncoderState

/-- Every entity, extension and record type in the type is in the table. -/
def CoversType (st : EncoderState) : TermType → Prop
  | .prim .bool | .prim .string | .prim (.bitvec _) => True
  | .option ty => st.CoversType ty
  | .set ty => st.CoversType ty
  | .prim (.entity ety) => TermType.entity ety ∈ st.types
  | .prim (.ext xty) => TermType.ext xty ∈ st.types
  | .record rty => TermType.record rty ∈ st.types

/-- The term is in the table, or it is one of those that are not entered. -/
def Covers (st : EncoderState) (t : Term) : Prop := Inlined t ∨ t ∈ st.terms

end EncoderState

def Term.children : Term → List Term
  | .some t => [t]
  | .set ts _ => ts
  | .record ats => ats.map Prod.snd
  | .app _ ts _ => ts
  | _ => []

namespace EncoderState

/-- The operator of an application can be encoded. -/
def OpReady (st : EncoderState) (ts : List Term) : Op → Prop
  | .uuf f => f ∈ st.uufs
  | .recordGet a => ∃ rty i, (ts.headD (.bool false)).typeOf = .record rty ∧
      rty.findIdx? (·.1 = a) = some i
  | .stringLike p => ∀ c, PatElem.justChar c ∈ p → c.toNat ≤ Encoder.smtLibMaxCodePoint
  | _ => True

/-- The term can be defined by what the tables hold. -/
def Ready (st : EncoderState) (t : Term) : Prop :=
  (∀ c ∈ t.children, st.Covers c) ∧
    match t with
    | .prim (.entity e) => st.enums.lookup e.ty = none ∧ Representable e.eid
    | .app op ts _ => st.OpReady ts op
    | .var _ => False
    | _ => True

def enterType (st : EncoderState) (ty : TermType) (id : String) : EncoderState :=
  { st with types := st.types.insert ty id }

def enterUUF (st : EncoderState) (f : UUF) (id : String) : EncoderState :=
  { st with uufs := st.uufs.insert f id }

def enterTerm (st : EncoderState) (t : Term) (id : String) : EncoderState :=
  { st with terms := st.terms.insert t id }

end EncoderState

/-- One entry of a table, and the commands that go with it. -/
inductive Step : EncoderState → List SExp → EncoderState → Prop
  | entity {st ety} (fresh : TermType.entity ety ∉ st.types) :
    Step st
      [datatypeCommand (Encoder.entityTypeId st.types.size)
        (entityConstructors (Encoder.entityTypeId st.types.size) (st.enums.lookup ety))]
      (st.enterType (.entity ety) (Encoder.entityTypeId st.types.size))
  | ext {st xty} (fresh : TermType.ext xty ∉ st.types) :
    Step st [datatypeCommand (extTypeId xty) (extConstructors xty)]
      (st.enterType (.ext xty) (extTypeId xty))
  | record {st rty} (fresh : TermType.record rty ∉ st.types)
    (covered : ∀ field ∈ rty, st.CoversType field.2) :
    Step st
      [datatypeCommand (Encoder.recordTypeId st.types.size)
        [st.recordConstructor (Encoder.recordTypeId st.types.size) rty]]
      (st.enterType (.record rty) (Encoder.recordTypeId st.types.size))
  | uuf {st f} (fresh : f ∉ st.uufs) (arg : st.CoversType f.arg) (out : st.CoversType f.out) :
    Step st [funCommand (Encoder.uufId st.uufs.size) (st.sortOf f.arg) (st.sortOf f.out)]
      (st.enterUUF f (Encoder.uufId st.uufs.size))
  | var {st v} (fresh : Term.var v ∉ st.terms) (covered : st.CoversType v.ty) :
    Step st [constCommand (Encoder.termId st.terms.size) (st.sortOf v.ty)]
      (st.enterTerm (.var v) (Encoder.termId st.terms.size))
  | define {st t} (fresh : t ∉ st.terms) (entered : inlined? t = none)
    (covered : st.CoversType t.typeOf) (ready : st.Ready t) :
    Step st
      [defineCommand (Encoder.termId st.terms.size) (st.sortOf t.typeOf) (st.body t)]
      (st.enterTerm t (Encoder.termId st.terms.size))
  | member {st e members i} (fresh : Term.entity e ∉ st.terms)
    (covered : st.CoversType (.entity e.ty)) (enumerated : st.enums.lookup e.ty = some members)
    (index : members.idxOf? e.eid = some i) :
    Step st []
      (st.enterTerm (.entity e) (Encoder.enumId (st.typeId (.entity e.ty)) i))

/-- A run of steps, and the commands it writes. -/
inductive Steps : EncoderState → List SExp → EncoderState → Prop
  | refl (st : EncoderState) : Steps st [] st
  | tail {st st' st'' cmds cmds'} : Steps st cmds st' → Step st' cmds' st'' →
    Steps st (cmds ++ cmds') st''

variable {st st' st'' : EncoderState} {cmds cmds' : List SExp}

theorem Step.steps (h : Step st cmds st') : Steps st cmds st' := by
  have hs := (Steps.refl st).tail h
  rwa [List.nil_append] at hs

theorem Steps.trans (h : Steps st cmds st') (h' : Steps st' cmds' st'') :
    Steps st (cmds ++ cmds') st'' := by
  induction h' with
  | refl => rwa [List.append_nil]
  | tail _ hstep ih =>
    rw [← List.append_assoc]
    exact ih.tail hstep

/-! ## Entries are never changed -/

theorem lookup_insert_of_notMem {α : Type} [DecidableEq α] {m : Table α} {a b : α}
    {id id' : String} (fresh : a ∉ m) (h : m.lookup b = some id') :
    (m.insert a id).lookup b = some id' := by
  have hne : b ≠ a := by
    intro hab
    subst hab
    exact fresh (AList.lookup_isSome.mp (by rw [h]; rfl))
  rw [AList.lookup_insert_ne hne, h]

theorem Table.size_insert {α : Type} [DecidableEq α] {m : Table α} {a : α} (id : String)
    (fresh : a ∉ m) : Table.size (m.insert a id) = m.size + 1 := by
  rw [Table.size, AList.entries_insert_of_notMem fresh, List.length_cons, Table.size]

structure Extends (st st' : EncoderState) : Prop where
  types : ∀ ty id, st.types.lookup ty = some id → st'.types.lookup ty = some id
  uufs : ∀ f id, st.uufs.lookup f = some id → st'.uufs.lookup f = some id
  terms : ∀ t id, st.terms.lookup t = some id → st'.terms.lookup t = some id
  typeNum : st.types.size ≤ st'.types.size
  uufNum : st.uufs.size ≤ st'.uufs.size
  termNum : st.terms.size ≤ st'.terms.size
  enums : st'.enums = st.enums

theorem Extends.refl (st : EncoderState) : Extends st st :=
  ⟨fun _ _ h => h, fun _ _ h => h, fun _ _ h => h, le_rfl, le_rfl, le_rfl, rfl⟩

theorem Extends.trans (h : Extends st st') (h' : Extends st' st'') : Extends st st'' where
  types ty id hty := h'.types ty id (h.types ty id hty)
  uufs f id hf := h'.uufs f id (h.uufs f id hf)
  terms t id ht := h'.terms t id (h.terms t id ht)
  typeNum := h.typeNum.trans h'.typeNum
  uufNum := h.uufNum.trans h'.uufNum
  termNum := h.termNum.trans h'.termNum
  enums := h'.enums.trans h.enums

theorem extends_enterType {ty : TermType} (id : String) (fresh : ty ∉ st.types) :
    Extends st (st.enterType ty id) :=
  { Extends.refl st with
    types := fun _ _ h => lookup_insert_of_notMem fresh h
    typeNum := by simp [EncoderState.enterType, Table.size_insert id fresh] }

theorem extends_enterUUF {f : UUF} (id : String) (fresh : f ∉ st.uufs) :
    Extends st (st.enterUUF f id) :=
  { Extends.refl st with
    uufs := fun _ _ h => lookup_insert_of_notMem fresh h
    uufNum := by simp [EncoderState.enterUUF, Table.size_insert id fresh] }

theorem extends_enterTerm {t : Term} (id : String) (fresh : t ∉ st.terms) :
    Extends st (st.enterTerm t id) :=
  { Extends.refl st with
    terms := fun _ _ h => lookup_insert_of_notMem fresh h
    termNum := by simp [EncoderState.enterTerm, Table.size_insert id fresh] }

theorem Step.extends (h : Step st cmds st') : Extends st st' := by
  cases h with
  | entity fresh => exact extends_enterType _ fresh
  | ext fresh => exact extends_enterType _ fresh
  | record fresh => exact extends_enterType _ fresh
  | uuf fresh => exact extends_enterUUF _ fresh
  | var fresh => exact extends_enterTerm _ fresh
  | define fresh => exact extends_enterTerm _ fresh
  | member fresh => exact extends_enterTerm _ fresh

theorem Steps.extends (h : Steps st cmds st') : Extends st st' := by
  induction h with
  | refl => exact Extends.refl _
  | tail _ hstep ih => exact ih.trans hstep.extends

namespace Extends

theorem mem_types (h : Extends st st') {ty : TermType} (hty : ty ∈ st.types) :
    ty ∈ st'.types := by
  obtain ⟨id, hid⟩ := Option.isSome_iff_exists.mp (AList.lookup_isSome.mpr hty)
  exact AList.lookup_isSome.mp (by rw [h.types ty id hid]; rfl)

theorem mem_uufs (h : Extends st st') {f : UUF} (hf : f ∈ st.uufs) : f ∈ st'.uufs := by
  obtain ⟨id, hid⟩ := Option.isSome_iff_exists.mp (AList.lookup_isSome.mpr hf)
  exact AList.lookup_isSome.mp (by rw [h.uufs f id hid]; rfl)

theorem mem_terms (h : Extends st st') {t : Term} (ht : t ∈ st.terms) : t ∈ st'.terms := by
  obtain ⟨id, hid⟩ := Option.isSome_iff_exists.mp (AList.lookup_isSome.mpr ht)
  exact AList.lookup_isSome.mp (by rw [h.terms t id hid]; rfl)

theorem typeId (h : Extends st st') {ty : TermType} (hty : ty ∈ st.types) :
    st'.typeId ty = st.typeId ty := by
  obtain ⟨id, hid⟩ := Option.isSome_iff_exists.mp (AList.lookup_isSome.mpr hty)
  rw [EncoderState.typeId, EncoderState.typeId, hid, h.types ty id hid]

theorem uufId (h : Extends st st') {f : UUF} (hf : f ∈ st.uufs) :
    st'.uufId f = st.uufId f := by
  obtain ⟨id, hid⟩ := Option.isSome_iff_exists.mp (AList.lookup_isSome.mpr hf)
  rw [EncoderState.uufId, EncoderState.uufId, hid, h.uufs f id hid]

theorem termId (h : Extends st st') {t : Term} (ht : t ∈ st.terms) :
    st'.termId t = st.termId t := by
  obtain ⟨id, hid⟩ := Option.isSome_iff_exists.mp (AList.lookup_isSome.mpr ht)
  rw [EncoderState.termId, EncoderState.termId, hid, h.terms t id hid]

theorem coversType (h : Extends st st') (ty : TermType) (hty : st.CoversType ty) :
    st'.CoversType ty := by
  induction ty using TermType.induct with
  | prim pty =>
    cases pty with
    | bool => trivial
    | bitvec n => trivial
    | string => trivial
    | entity ety => exact h.mem_types hty
    | ext xty => exact h.mem_types hty
  | option ty ih => exact ih hty
  | set ty ih => exact ih hty
  | record rty ih => exact h.mem_types hty

theorem sortOf (h : Extends st st') (ty : TermType) (hty : st.CoversType ty) :
    st'.sortOf ty = st.sortOf ty := by
  induction ty using TermType.induct with
  | prim pty =>
    cases pty with
    | bool => rfl
    | bitvec n => rfl
    | string => rfl
    | entity ety => exact congrArg sym (h.typeId hty)
    | ext xty => exact congrArg sym (h.typeId hty)
  | option ty ih => rw [EncoderState.sortOf, EncoderState.sortOf, ih hty]
  | set ty ih => rw [EncoderState.sortOf, EncoderState.sortOf, ih hty]
  | record rty ih => exact congrArg sym (h.typeId hty)

theorem covers (h : Extends st st') {t : Term} (ht : st.Covers t) : st'.Covers t := by
  cases ht with
  | inl ht => exact .inl ht
  | inr ht => exact .inr (h.mem_terms ht)

theorem ref (h : Extends st st') {t : Term} (ht : st.Covers t) : st'.ref t = st.ref t := by
  cases ht with
  | inl ht =>
    obtain ⟨e, he⟩ := Option.isSome_iff_exists.mp ht.1
    rw [EncoderState.ref, EncoderState.ref, he, Option.getD_some, Option.getD_some]
  | inr ht => rw [EncoderState.ref, EncoderState.ref, h.termId ht]

end Extends

/-! ## What an entry tells -/

namespace EncoderState

def TypeEntry (st : EncoderState) (ty : TermType) (id : String) : Prop :=
  match ty with
  | .prim (.entity _) => ∃ n < st.types.size, id = Encoder.entityTypeId n
  | .prim (.ext xty) => id = extTypeId xty
  | .record rty =>
    (∃ n < st.types.size, id = Encoder.recordTypeId n) ∧ ∀ field ∈ rty, st.CoversType field.2
  | _ => False

def UUFEntry (st : EncoderState) (f : UUF) (id : String) : Prop :=
  (∃ n < st.uufs.size, id = Encoder.uufId n) ∧ st.CoversType f.arg ∧ st.CoversType f.out

def IsMember (st : EncoderState) (t : Term) (id : String) : Prop :=
  ∃ e members i, t = .entity e ∧ st.enums.lookup e.ty = some members ∧
    members.idxOf? e.eid = some i ∧ id = Encoder.enumId (st.typeId (.entity e.ty)) i

def TermEntry (st : EncoderState) (t : Term) (id : String) : Prop :=
  inlined? t = none ∧ st.CoversType t.typeOf ∧
    ((∃ n < st.terms.size, id = Encoder.termId n) ∨ st.IsMember t id)

end EncoderState

structure Inv (st : EncoderState) : Prop where
  type : ∀ ty id, st.types.lookup ty = some id → st.TypeEntry ty id
  uuf : ∀ f id, st.uufs.lookup f = some id → st.UUFEntry f id
  term : ∀ t id, st.terms.lookup t = some id → st.TermEntry t id

theorem Extends.typeEntry (h : Extends st st') {ty : TermType} {id : String}
    (hty : st.TypeEntry ty id) : st'.TypeEntry ty id := by
  cases ty with
  | prim pty =>
    cases pty with
    | entity ety =>
      obtain ⟨n, hn, hid⟩ := hty
      exact ⟨n, hn.trans_le h.typeNum, hid⟩
    | ext xty => exact hty
    | _ => exact hty.elim
  | record rty =>
    obtain ⟨⟨n, hn, hid⟩, hcov⟩ := hty
    exact ⟨⟨n, hn.trans_le h.typeNum, hid⟩, fun field hf => h.coversType _ (hcov field hf)⟩
  | _ => exact hty.elim

theorem Extends.uufEntry (h : Extends st st') {f : UUF} {id : String} (hf : st.UUFEntry f id) :
    st'.UUFEntry f id := by
  obtain ⟨⟨n, hn, hid⟩, harg, hout⟩ := hf
  exact ⟨⟨n, hn.trans_le h.uufNum, hid⟩, h.coversType _ harg, h.coversType _ hout⟩

theorem Extends.isMember (h : Extends st st') {t : Term} {id : String}
    (hcov : st.CoversType t.typeOf) (ht : st.IsMember t id) : st'.IsMember t id := by
  obtain ⟨e, members, i, rfl, hmem, hi, hid⟩ := ht
  refine ⟨e, members, i, rfl, by rw [h.enums, hmem], hi, ?_⟩
  rw [hid]
  exact congrArg (Encoder.enumId · i) (h.typeId hcov).symm

theorem Extends.termEntry (h : Extends st st') {t : Term} {id : String}
    (ht : st.TermEntry t id) : st'.TermEntry t id := by
  obtain ⟨hentered, hcov, hid⟩ := ht
  refine ⟨hentered, h.coversType _ hcov, ?_⟩
  cases hid with
  | inl hid =>
    obtain ⟨n, hn, hid⟩ := hid
    exact .inl ⟨n, hn.trans_le h.termNum, hid⟩
  | inr hid => exact .inr (h.isMember hcov hid)

theorem forall_lookup_insert {α : Type} [DecidableEq α] {m : Table α} {a : α} {id : String}
    {P : α → String → Prop} (h : ∀ b id', m.lookup b = some id' → P b id') (ha : P a id) (b : α)
    (id' : String) (hb : (m.insert a id).lookup b = some id') : P b id' := by
  by_cases hab : b = a
  · subst hab
    rw [AList.lookup_insert, Option.some.injEq] at hb
    rwa [← hb]
  · rw [AList.lookup_insert_ne hab] at hb
    exact h b id' hb

theorem Inv.enterType {ty : TermType} {id : String} (h : Inv st) (fresh : ty ∉ st.types)
    (hty : (st.enterType ty id).TypeEntry ty id) : Inv (st.enterType ty id) := by
  have hext := extends_enterType id fresh
  exact ⟨forall_lookup_insert (fun b id' hb => hext.typeEntry (h.type b id' hb)) hty,
    fun f id' hf => hext.uufEntry (h.uuf f id' hf),
    fun t id' ht => hext.termEntry (h.term t id' ht)⟩

theorem Inv.enterUUF {f : UUF} {id : String} (h : Inv st) (fresh : f ∉ st.uufs)
    (hf : (st.enterUUF f id).UUFEntry f id) : Inv (st.enterUUF f id) := by
  have hext := extends_enterUUF id fresh
  exact ⟨fun ty id' hty => hext.typeEntry (h.type ty id' hty),
    forall_lookup_insert (fun b id' hb => hext.uufEntry (h.uuf b id' hb)) hf,
    fun t id' ht => hext.termEntry (h.term t id' ht)⟩

theorem Inv.enterTerm {t : Term} {id : String} (h : Inv st) (fresh : t ∉ st.terms)
    (ht : (st.enterTerm t id).TermEntry t id) : Inv (st.enterTerm t id) := by
  have hext := extends_enterTerm id fresh
  exact ⟨fun ty id' hty => hext.typeEntry (h.type ty id' hty),
    fun f id' hf => hext.uufEntry (h.uuf f id' hf),
    forall_lookup_insert (fun b id' hb => hext.termEntry (h.term b id' hb)) ht⟩

theorem Inv.step (hinv : Inv st) (h : Step st cmds st') : Inv st' := by
  have hext := h.extends
  cases h with
  | entity fresh =>
    exact hinv.enterType fresh ⟨_, Nat.lt_of_succ_le (Table.size_insert _ fresh).ge, rfl⟩
  | ext fresh => exact hinv.enterType fresh rfl
  | record fresh covered =>
    exact hinv.enterType fresh
      ⟨⟨_, Nat.lt_of_succ_le (Table.size_insert _ fresh).ge, rfl⟩,
        fun field hf => hext.coversType _ (covered field hf)⟩
  | uuf fresh arg out =>
    exact hinv.enterUUF fresh
      ⟨⟨_, Nat.lt_of_succ_le (Table.size_insert _ fresh).ge, rfl⟩,
        hext.coversType _ arg, hext.coversType _ out⟩
  | var fresh covered =>
    exact hinv.enterTerm fresh
      ⟨rfl, hext.coversType _ covered,
        .inl ⟨_, Nat.lt_of_succ_le (Table.size_insert _ fresh).ge, rfl⟩⟩
  | define fresh entered covered =>
    exact hinv.enterTerm fresh
      ⟨entered, hext.coversType _ covered,
        .inl ⟨_, Nat.lt_of_succ_le (Table.size_insert _ fresh).ge, rfl⟩⟩
  | member fresh covered enumerated index =>
    exact hinv.enterTerm fresh
      ⟨rfl, hext.coversType _ covered, .inr ⟨_, _, _, rfl, enumerated, index, rfl⟩⟩

theorem Inv.steps (hinv : Inv st) (h : Steps st cmds st') : Inv st' := by
  induction h with
  | refl => exact hinv
  | tail _ hstep ih => exact ih.step hstep

theorem inv_init (env : SymEnv) : Inv (EncoderState.init env) := by
  constructor <;> intro _ _ h <;> simp [EncoderState.init] at h

/-- Whatever refers to a term, its type is in the tables as well. -/
theorem Inv.coversType (hinv : Inv st) {t : Term} (ht : st.Covers t) :
    st.CoversType t.typeOf := by
  cases ht with
  | inl ht =>
    obtain ⟨ht, _⟩ := ht
    cases t with
    | prim p => cases p <;> trivial
    | app op ts ty =>
      rw [Term.typeOf]
      unfold inlined? at ht
      split at ht <;> rename_i heq
      all_goals first | cases heq | cases ht
      trivial
    | _ => cases ht
  | inr ht =>
    obtain ⟨id, hid⟩ := Option.isSome_iff_exists.mp (AList.lookup_isSome.mpr ht)
    exact (hinv.term t id hid).2.1

/-! ## Tables of well-typed entries -/

/-- Whatever is in the tables is well formed or well typed. -/
structure EncoderState.Typed (st : EncoderState) : Prop where
  types : ∀ ty ∈ st.types, ty.WellFormed
  uufs : ∀ f ∈ st.uufs, f.arg.WellFormed ∧ f.out.WellFormed
  terms : ∀ t ∈ st.terms, t.WellTyped

namespace EncoderState.Typed

theorem init (env : SymEnv) : (EncoderState.init env).Typed := by
  constructor <;> intro _ h <;> exact (AList.notMem_empty _ h).elim

theorem enterType (h : st.Typed) {ty : TermType} (hty : ty.WellFormed) (id : String) :
    (st.enterType ty id).Typed := by
  refine ⟨?_, h.uufs, h.terms⟩
  intro ty' hty'
  cases (AList.mem_insert _).mp hty' with
  | inl heq => rwa [heq]
  | inr hmem => exact h.types ty' hmem

theorem enterUUF (h : st.Typed) {f : UUF} (harg : f.arg.WellFormed) (hout : f.out.WellFormed)
    (id : String) : (st.enterUUF f id).Typed := by
  refine ⟨h.types, ?_, h.terms⟩
  intro f' hf'
  cases (AList.mem_insert _).mp hf' with
  | inl heq =>
    rw [heq]
    exact ⟨harg, hout⟩
  | inr hmem => exact h.uufs f' hmem

theorem enterTerm (h : st.Typed) {t : Term} (ht : t.WellTyped) (id : String) :
    (st.enterTerm t id).Typed := by
  refine ⟨h.types, h.uufs, ?_⟩
  intro t' ht'
  cases (AList.mem_insert _).mp ht' with
  | inl heq => rwa [heq]
  | inr hmem => exact h.terms t' hmem

/-- Entries are never removed, so that earlier tables are no worse. -/
theorem of_extends (h : st'.Typed) (hext : Extends st st') : st.Typed :=
  ⟨fun ty hty => h.types ty (hext.mem_types hty), fun f hf => h.uufs f (hext.mem_uufs hf),
    fun t ht => h.terms t (hext.mem_terms ht)⟩

end EncoderState.Typed

end CedarSpec.SymCC
