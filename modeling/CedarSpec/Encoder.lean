import CedarSpec.TermTyping

/-! The encoder of symbolic terms as an SMT-LIB script in A-normal form. Types, functions and
terms are entered in tables as they are encoded, and their identifiers count the entries. -/

namespace CedarSpec.SymCC

/-! ## The solver -/

/-- What has been written to the solver so far, or the error that ended the run. -/
abbrev SolverM := StateT String (Except String)

namespace Solver

def emitln (str : String) : SolverM Unit := modify fun out => out ++ s!"{str}\n"

def setLogic (logic : String) : SolverM Unit := emitln s!"(set-logic {logic})"

def setOption (opt val : String) : SolverM Unit := emitln s!"(set-option {opt} {val})"

def setOptionProduceModels (b : Bool) : SolverM Unit :=
  setOption ":produce-models" (if b then "true" else "false")

/-- A comment is kept on one line. -/
def inlined (comment : String) : String := comment.map fun c => if c = '\n' then ' ' else c

def comment (comment : String) : SolverM Unit := emitln s!"; {inlined comment}"

def assert (expr : String) : SolverM Unit := emitln s!"(assert {expr})"

def defineFun (id : String) (args : List (String × String)) (type expr : String) :
    SolverM Unit :=
  let inline := String.intercalate " " (args.map fun (p, ty) => s!"({p} {ty})")
  emitln s!"(define-fun {id} ({inline}) {type} {expr})"

def declareConst (id type : String) : SolverM Unit := emitln s!"(declare-const {id} {type})"

def declareFun (id : String) (args : List String) (type : String) : SolverM Unit :=
  let inline := String.intercalate " " args
  emitln s!"(declare-fun {id} ({inline}) {type})"

def declareDatatype (id : String) (params constructors : List String) : SolverM Unit :=
  let cInline := "\n  " ++ String.intercalate "\n  " constructors
  let pInline := String.intercalate " " params
  if params.isEmpty then emitln s!"(declare-datatype {id} ({cInline}))"
  else emitln s!"(declare-datatype {id} (par ({pInline}) ({cInline})))"

def reset : SolverM Unit := emitln "(reset)"

end Solver

/-! ## The state of the encoder -/

structure SymEntityData where
  members : Option (List String)

structure SymEnv where
  entities : List (EntityType × SymEntityData)

abbrev Table (α : Type) := AList fun _ : α => String

def Table.size {α : Type} (m : Table α) : ℕ := m.entries.length

structure EncoderState where
  terms : Table Term
  types : Table TermType
  uufs : Table UUF
  enums : AList fun _ : EntityType => List String

def EncoderState.init (env : SymEnv) : EncoderState :=
  let enums := env.entities.filterMap fun (ety, d) => d.members.map (Prod.mk ety)
  ⟨∅, ∅, ∅, enums.foldl (fun m (ety, members) => m.insert ety members) ∅⟩

abbrev EncoderM := StateT EncoderState SolverM

def Name.toString (n : Name) : String := String.join (n.path.map fun s => s!"{s}::") ++ n.id

namespace Encoder

open Solver

def termId (n : ℕ) : String := s!"t{n}"
def uufId (n : ℕ) : String := s!"f{n}"
def entityTypeId (n : ℕ) : String := s!"E{n}"
def enumId (E : String) (n : ℕ) : String := s!"{E}_m{n}"
def recordTypeId (n : ℕ) : String := s!"R{n}"
def recordAttrId (R : String) (a : ℕ) : String := s!"{R}_a{a}"

def typeNum : EncoderM ℕ := do return (← get).types.size
def termNum : EncoderM ℕ := do return (← get).terms.size
def uufNum : EncoderM ℕ := do return (← get).uufs.size

def rememberType (ty : TermType) (enc : String) : EncoderM String :=
  modifyGet fun state => (enc, { state with types := state.types.insert ty enc })

def rememberTerm (t : Term) (enc : String) : EncoderM String :=
  modifyGet fun state => (enc, { state with terms := state.terms.insert t enc })

def rememberUUF (uuf : UUF) (enc : String) : EncoderM String :=
  modifyGet fun state => (enc, { state with uufs := state.uufs.insert uuf enc })

/-! ## Types -/

def declareType (id : String) (mks : List String) : EncoderM String := do
  declareDatatype id [] mks
  return id

def declareEntityType (ety : EntityType) : EncoderM String := do
  let etyId := entityTypeId (← typeNum)
  match (← get).enums.lookup ety with
  | some members =>
    let names := String.intercalate ", " members
    comment s!"{ety.toString}::[{names}]"
    declareType etyId (members.mapIdx fun i _ => s!"({enumId etyId i})")
  | none =>
    comment ety.toString
    declareType etyId [s!"({etyId} (eid String))"]

def declareExtType : ExtType → EncoderM String
  | .decimal => declareType "Decimal" ["(Decimal (decimalVal (_ BitVec 64)))"]
  | .ipAddr =>
    declareType "IPAddr"
      ["(V4 (addrV4 (_ BitVec 32)) (prefixV4 (Option (_ BitVec 5))))",
       "(V6 (addrV6 (_ BitVec 128)) (prefixV6 (Option (_ BitVec 7))))"]
  | .datetime => declareType "Datetime" ["(Datetime (datetimeVal (_ BitVec 64)))"]
  | .duration => declareType "Duration" ["(Duration (durationVal (_ BitVec 64)))"]

def declareRecordType (rty : List (String × String)) : EncoderM String := do
  let rtyId := recordTypeId (← typeNum)
  let attrs := rty.mapIdx fun i field => s!"({recordAttrId rtyId i} {field.2})"
  comment ("\x7b" ++ String.intercalate ", " (rty.map Prod.fst) ++ "\x7d")
  let fields := String.intercalate " " attrs
  declareType rtyId [s!"({rtyId} {fields})"]

mutual

/-- Only entity, extension and record types are entered. -/
def encodeType (ty : TermType) : EncoderM String := do
  match (← get).types.lookup ty with
  | some enc => return enc
  | none =>
    match ty with
    | .prim .bool => return "Bool"
    | .prim .string => return "String"
    | .prim (.bitvec n) => return s!"(_ BitVec {n})"
    | .option oty => return s!"(Option {← encodeType oty})"
    | .set sty => return s!"(Set {← encodeType sty})"
    | .prim (.entity ety) => rememberType (.entity ety) (← declareEntityType ety)
    | .prim (.ext xty) => rememberType (.ext xty) (← declareExtType xty)
    | .record rty => rememberType (.record rty) (← declareRecordType (← encodeFieldTypes rty))

def encodeFieldTypes : List (String × TermType) → EncoderM (List (String × String))
  | [] => return []
  | (a, ty) :: rty => do
    let enc ← encodeType ty
    return (a, enc) :: (← encodeFieldTypes rty)

end

/-! ## Literals -/

/-- The largest code point of the theory of strings. -/
def smtLibMaxCodePoint : ℕ := 196607

def encodeChar (s : String) (c : Char) : Except String String :=
  if c = '"' then return "\"\""
  else if c = '\\' then return "\\u\x7b5c\x7d"
  else if 32 ≤ c.toNat ∧ c.toNat ≤ 126 then return String.singleton c
  else if c.toNat ≤ smtLibMaxCodePoint then
    return "\\u\x7b" ++ String.ofList (Nat.toDigits 16 c.toNat) ++ "\x7d"
  else throw s!"Code point {c.toNat} not supported in SMT-LIB: {s}"

/-- Escapes on two levels: those of the theory of strings, and the doubled quotation mark. -/
def encodeString (s : String) : Except String String := do
  let l ← s.toList.mapM (encodeChar s)
  return String.join l

def encodeBitVec {n : ℕ} (bv : BitVec n) : String := s!"(_ bv{bv.toNat} {n})"

def encodeIPAddrPrefix {w : ℕ} : Extension.IPNetPrefix w → String
  | some p => s!"(some {encodeBitVec p})"
  | none => s!"(as none (Option (_ BitVec {w})))"

def encodeExt : Extension.Ext → String
  | .decimal d => s!"(Decimal {encodeBitVec (BitVec.ofInt 64 d.toInt)})"
  | .ipaddr (.V4 ⟨addrV4, preV4⟩) => s!"(V4 {encodeBitVec addrV4} {encodeIPAddrPrefix preV4})"
  | .ipaddr (.V6 ⟨addrV6, preV6⟩) => s!"(V6 {encodeBitVec addrV6} {encodeIPAddrPrefix preV6})"
  | .datetime dt => s!"(Datetime {encodeBitVec (BitVec.ofInt 64 dt.val.toInt)})"
  | .duration d => s!"(Duration {encodeBitVec (BitVec.ofInt 64 d.val.toInt)})"

/-! ## Definitions -/

def declareVar (v : TermVar) (tyEnc : String) : EncoderM String := do
  let id := termId (← termNum)
  comment (reprStr v.id)
  declareConst id tyEnc
  return id

def defineTerm (tyEnc tEnc : String) : EncoderM String := do
  let id := termId (← termNum)
  defineFun id [] tyEnc tEnc
  return id

def defineSet (tyEnc : String) (tEncs : List String) : EncoderM String :=
  if tEncs.isEmpty then defineTerm tyEnc s!"(as set.empty {tyEnc})"
  else
    let elems := String.intercalate " " tEncs
    defineTerm tyEnc s!"(set.insert {elems} (as set.empty {tyEnc}))"

def defineRecord (tyEnc : String) (tEncs : List String) : EncoderM String :=
  let fields := String.intercalate " " tEncs
  defineTerm tyEnc (if tEncs.isEmpty then tyEnc else s!"({tyEnc} {fields})")

def encodeUUF (uuf : UUF) : EncoderM String := do
  match (← get).uufs.lookup uuf with
  | some enc => return enc
  | none =>
    let id := uufId (← uufNum)
    comment uuf.id
    declareFun id [← encodeType uuf.arg] (← encodeType uuf.out)
    rememberUUF uuf id

def encodeExtOp : ExtOp → String
  | .decimalVal => "decimalVal"
  | .ipaddrIsV4 => "(_ is V4)"
  | .ipaddrAddrV4 => "addrV4"
  | .ipaddrPrefixV4 => "prefixV4"
  | .ipaddrAddrV6 => "addrV6"
  | .ipaddrPrefixV6 => "prefixV6"
  | .datetimeVal => "datetimeVal"
  | .datetimeOfBitVec => "Datetime"
  | .durationVal => "durationVal"
  | .durationOfBitVec => "Duration"

def Op.mkName : Op → String
  | .not => "not"
  | .and => "and"
  | .or => "or"
  | .eq => "eq"
  | .ite => "ite"
  | .uuf _ => "uuf"
  | .bvneg => "bvneg"
  | .bvadd => "bvadd"
  | .bvsub => "bvsub"
  | .bvmul => "bvmul"
  | .bvsdiv => "bvsdiv"
  | .bvudiv => "bvudiv"
  | .bvsrem => "bvsrem"
  | .bvsmod => "bvsmod"
  | .bvurem => "bvurem"
  | .bvshl => "bvshl"
  | .bvlshr => "bvlshr"
  | .bvslt => "bvslt"
  | .bvsle => "bvsle"
  | .bvult => "bvult"
  | .bvule => "bvule"
  | .bvnego => "bvnego"
  | .bvsaddo => "bvsaddo"
  | .bvssubo => "bvssubo"
  | .bvsmulo => "bvsmulo"
  | .zeroExtend _ => "zero_extend"
  | .setMember => "set.member"
  | .setSubset => "set.subset"
  | .setInter => "set.inter"
  | .optionGet => "option.get"
  | .recordGet _ => "record.get"
  | .stringLike _ => "string.like"
  | .ext _ => "ext"

def encodeOp : Op → String
  | .eq => "="
  | .zeroExtend n => s!"(_ zero_extend {n})"
  | .optionGet => "val"
  | .ext xop => encodeExtOp xop
  | op => Op.mkName op

def encodePatElem : PatElem → Except String String
  | .star => return "(re.* re.allchar)"
  | .justChar c => return s!"(str.to_re \"{← encodeString (String.singleton c)}\")"

def encodePattern : List PatElem → Except String String
  | [] => return "(str.to_re \"\")"
  | [e] => encodePatElem e
  | p => do
    let elems := String.intercalate " " (← p.mapM encodePatElem)
    return s!"(re.++ {elems})"

def defineEntity (tyEnc : String) (entity : EntityUID) : EncoderM String := do
  match (← get).enums.lookup entity.ty with
  | some members =>
    match members.idxOf? entity.eid with
    | some i => return enumId tyEnc i
    | none => throw s!"Unknown enum member `{entity.eid}`, expected one of {members}"
  | none => defineTerm tyEnc s!"({tyEnc} \"{← encodeString entity.eid}\")"

def indexOfAttr (a : String) : TermType → Except String ℕ
  | .record rty =>
    match rty.findIdx? (·.1 = a) with
    | some i => return i
    | none => throw s!"Unknown record attribute `{a}`"
  | _ => throw s!"Bad term: record.get {a}"

def defineRecordGet (tyEnc a tEnc : String) (ty : TermType) : EncoderM String := do
  let rId := ((← get).types.lookup ty).getD ""
  let aId ← indexOfAttr a ty
  defineTerm tyEnc s!"({recordAttrId rId aId} {tEnc})"

def defineApp (tyEnc : String) (op : Op) (tEncs : List String) (ts : List Term) :
    EncoderM String := do
  let args := String.intercalate " " tEncs
  match op with
  | .recordGet a => defineRecordGet tyEnc a args (ts.headD (.bool false)).typeOf
  | .stringLike p => defineTerm tyEnc s!"(str.in_re {args} {← encodePattern p})"
  | .uuf f => defineTerm tyEnc s!"({← encodeUUF f} {args})"
  | _ => defineTerm tyEnc s!"({encodeOp op} {args})"

/-! ## Terms -/

mutual

/-- Booleans, bit vectors and strings are not entered. -/
def encodeTerm (t : Term) : EncoderM String := do
  match (← get).terms.lookup t with
  | some enc => return enc
  | none =>
    let tyEnc ← encodeType t.typeOf
    match t with
    | .var v => rememberTerm (.var v) (← declareVar v tyEnc)
    | .prim (.bool b) => return if b then "true" else "false"
    | .prim (.bitvec bv) => return encodeBitVec bv
    | .prim (.string s) => return s!"\"{← encodeString s}\""
    | .prim (.entity e) => rememberTerm (.entity e) (← defineEntity tyEnc e)
    | .prim (.ext x) => rememberTerm (.ext x) (← defineTerm tyEnc (encodeExt x))
    | .none ty => rememberTerm (.none ty) (← defineTerm tyEnc s!"(as none {tyEnc})")
    | .some t₁ => rememberTerm (.some t₁) (← defineTerm tyEnc s!"(some {← encodeTerm t₁})")
    | .set ts ty => rememberTerm (.set ts ty) (← defineSet tyEnc (← encodeTerms ts))
    | .record ats => rememberTerm (.record ats) (← defineRecord tyEnc (← encodeFields ats))
    | .app .bvnego [t₁] (.prim .bool) =>
      match t₁.typeOf with
      | .prim (.bitvec n) =>
        rememberTerm (.app .bvnego [t₁] .bool)
          (← defineApp tyEnc .eq [← encodeTerm t₁, encodeBitVec (BitVec.intMin n)]
            [t₁, .bitvec (BitVec.intMin n)])
      | _ => return "false"
    | .app op ts ty => rememberTerm (.app op ts ty) (← defineApp tyEnc op (← encodeTerms ts) ts)

def encodeTerms : List Term → EncoderM (List String)
  | [] => return []
  | t :: ts => do
    let enc ← encodeTerm t
    return enc :: (← encodeTerms ts)

def encodeFields : List (String × Term) → EncoderM (List String)
  | [] => return []
  | (_, t) :: ats => do
    let enc ← encodeTerm t
    return enc :: (← encodeFields ats)

end

/-- Encodes the terms after a reset and asserts them. -/
def encode (ts : List Term) (env : SymEnv) (produceModels : Bool) : SolverM EncoderState := do
  reset
  setOptionProduceModels produceModels
  setLogic "ALL"
  declareDatatype "Option" ["X"] ["(none)", "(some (val X))"]
  let (ids, s) ← (encodeTerms ts).run (EncoderState.init env)
  ids.forM assert
  return s

end Encoder

end CedarSpec.SymCC
