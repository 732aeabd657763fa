import CedarSpec.RandomGen
import CedarSpec.IndexCollections

/-! Generation of entity hierarchies: entity uids type by type, then for every uid its
parents, attributes and tags. -/

namespace CedarSpec.HierarchyGen
open RandomGen IndexCollections

/-- An entity type, under the fully qualified name that it is displayed as. -/
structure EntityType where
  name : String
  deriving DecidableEq, Repr

def EntityType.toString (ty : EntityType) : String := ty.name

abbrev Eid := String

structure EntityUID where
  entityType : EntityType
  eid : Eid
  deriving DecidableEq, Repr

structure NonEmpty (α : Type) where
  head : α
  tail : List α
  deriving DecidableEq, Repr

def NonEmpty.toList {α : Type} (l : NonEmpty α) : List α := l.head :: l.tail

def NonEmpty.len {α : Type} (l : NonEmpty α) : ℕ := l.tail.length + 1

/-- The errors of the generators that building a hierarchy can return. -/
inductive Error
  | notEnoughData
  | emptyChoose (doingWhat : String)
  | tooDeep
  | extensionsDisabled
  | entitiesError (message : String)
  | incorrectFormat (doingWhat : String)
  | otherArbitrary (message : String)
  deriving DecidableEq, Repr

/-- Types of attributes and tags; a record lists its attributes with whether each is
required. -/
inductive AbacType
  | bool
  | long
  | string
  | ipAddr
  | decimal
  | dateTime
  | duration
  | set (elementType : AbacType)
  | entity (ety : EntityType)
  | record (attrs : List (String × AbacType × Bool))

inductive AttrValue
  | boolLit (b : Bool)
  | intLit (i : Int)
  | stringLit (s : String)
  | uidLit (uid : EntityUID)
  | extFuncCall (fnName : String) (args : List AttrValue)
  | set (elements : List AttrValue)
  | record (attrs : List (String × AttrValue))

/-- The `Unstructured` of the `arbitrary` crate: what it can be asked for, in a state of
the bytes. `choose n` picks an index into a slice of length `n`. -/
structure Unstructured (U : Type) where
  isEmpty : U → Bool
  len : U → ℕ
  ratio : ℕ → ℕ → U → Except Error (Bool × U)
  intInRange : ℕ → ℕ → U → Except Error (ℕ × U)
  choose : ℕ → U → Except Error (ℕ × U)
  bool : U → Except Error (Bool × U)
  string : U → Except Error (String × U)
  eid : U → Except Error (Eid × U)
  entityTypes : U → Except Error (List EntityType × U)
  arbitraryLoop : {α : Type} → Option ℕ → Option ℕ → (α → Gen U Error α) → α → Gen U Error α

/-- What hierarchy generation asks of a schema, with the leaf generators of its expression
and type generators. Every declared type has parents, attributes and tags. -/
structure SchemaGen (U : Type) where
  entityTypes : List EntityType
  getUidEnumChoices : EntityType → Option (NonEmpty Eid)
  allowedParentTypenames : EntityType → Option (List EntityType)
  attributeByEntityType : EntityType → Option (List (String × AbacType × Bool) × Bool)
  tagTypeByEntityType : EntityType → Option (Option AbacType)
  maxDepth : ℕ
  maxWidth : ℕ
  generateType : ℕ → U → Except Error (AbacType × U)
  arbitraryIntConstant : U → Except Error (Int × U)
  arbitraryStringConstant : U → Except Error (String × U)
  arbitraryExtConstructorCallForType : AbacType → U → Except Error (AttrValue × U)
  declared : ∀ ty ∈ entityTypes, (allowedParentTypenames ty).isSome ∧
    (attributeByEntityType ty).isSome ∧ (tagTypeByEntityType ty).isSome

/-- Entity uids with their positions. -/
structure EntityUIDs where
  indices : IndexMap EntityUID ℕ
  uids : List EntityUID

def EntityUIDs.fromIter (uids : List EntityUID) : EntityUIDs :=
  ⟨IndexMap.collect uids.zipIdx, uids⟩

/-- The uids whose positions are greater than that of `uid`; looking up an unknown uid
panics. -/
def EntityUIDs.getSliceAfterUid (s : EntityUIDs) (uid : EntityUID) : Option (List EntityUID) :=
  (s.indices.get uid).map fun idx => s.uids.drop (idx + 1)

structure Entity where
  uid : EntityUID
  attrs : IndexMap String AttrValue
  parents : Finset EntityUID
  tags : IndexMap String AttrValue

def Entity.withUid (uid : EntityUID) : Entity := ⟨uid, .empty, ∅, .empty⟩

/-- Contains data about an entity hierarchy. -/
structure Hierarchy where
  entities : IndexMap EntityUID Entity
  uids : List EntityUID
  uidsByType : IndexMap EntityType EntityUIDs
  entityTypes : List EntityType

namespace Hierarchy

def fromUidsByType (uidsByType : IndexMap EntityType (IndexSet EntityUID)) : Hierarchy :=
  let uids := uidsByType.values.flatMap IndexSet.elems
  let uidsByType' := IndexMap.collect
    (uidsByType.entries.map fun e => (e.1, EntityUIDs.fromIter e.2.elems))
  { entities := IndexMap.collect (uids.map fun uid => (uid, Entity.withUid uid))
    uids
    uidsByType := uidsByType'
    entityTypes := uidsByType'.keys }

def replaceEntities (h : Hierarchy) (newEntities : IndexMap EntityUID Entity) : Hierarchy :=
  { h with entities := newEntities }

/-- The uids of a type that may become parents of `entity`: if it is of the same type, only
those after it. -/
def uidsForType (h : Hierarchy) (dstTy : EntityType) (entity : EntityUID) :
    Option (List EntityUID) :=
  match h.uidsByType.get dstTy with
  | some v =>
    if entity.entityType.toString = dstTy.toString then v.getSliceAfterUid entity
    else some v.uids
  | none => some []

end Hierarchy

variable {U : Type} (u : Unstructured U)

def generateEid : Option (NonEmpty Eid) → Gen U Error Eid
  | some choices => do
    let idx ← Gen.call (u.intInRange 0 (choices.len - 1))
    Gen.orPanic "called `Option::unwrap()` on a `None` value" choices.toList[idx]?
  | none => Gen.call u.eid

/-- A new uid of the given type, one of the choices if the type is enumerated. -/
def generateUidWithType (ty : EntityType) (choices : Option (NonEmpty Eid)) :
    Gen U Error EntityUID := do
  let eid ← generateEid u choices
  return ⟨ty, eid⟩

/-- An existing uid of the type nine times out of ten, and else a new one. -/
def Hierarchy.arbitraryUidWithType (h : Hierarchy) (schema : SchemaGen U) (ty : EntityType) :
    Gen U Error EntityUID := do
  if ← Gen.call (u.ratio 9 10) then
    match h.uidsByType.get ty with
    | none => Gen.fail (.emptyChoose s!"getting an existing uid with type {ty.name}")
    | some v => do
      let idx ← Gen.call (u.choose v.uids.length)
      Gen.orPanic "index out of bounds" v.uids[idx]?
  else generateUidWithType u ty (schema.getUidEnumChoices ty)

/-- No coin is tossed for a required attribute. -/
def requiredOrCoin (required : Bool) : Gen U Error Bool :=
  if required then return true else Gen.call (u.ratio 1 2)

/-- An attribute value of the type, nested at most `maxDepth` deep. -/
def generateAttrValueForType (schema : SchemaGen U) (h : Hierarchy) :
    ℕ → AbacType → Gen U Error AttrValue
  | _, .bool => do return .boolLit (← Gen.call u.bool)
  | _, .long => do return .intLit (← Gen.call schema.arbitraryIntConstant)
  | _, .string => do return .stringLit (← Gen.call schema.arbitraryStringConstant)
  | _, .entity ety => do return .uidLit (← h.arbitraryUidWithType u schema ety)
  | 0, .set _ => return .set []
  | 0, .record _ => return .record []
  | 0, .ipAddr | 0, .decimal | 0, .dateTime | 0, .duration => Gen.fail .tooDeep
  | _ + 1, .ipAddr => Gen.call (schema.arbitraryExtConstructorCallForType .ipAddr)
  | _ + 1, .decimal => Gen.call (schema.arbitraryExtConstructorCallForType .decimal)
  | _ + 1, .dateTime => Gen.call (schema.arbitraryExtConstructorCallForType .dateTime)
  | _ + 1, .duration => Gen.call (schema.arbitraryExtConstructorCallForType .duration)
  | maxDepth + 1, .set elementType => do
    let l ← u.arbitraryLoop none (some (schema.maxWidth % 2 ^ 32))
      (fun l => do return l ++ [← generateAttrValueForType schema h maxDepth elementType]) []
    return .set l
  | maxDepth + 1, .record m => do
    let r ← m.foldlM (fun r a => do
      if ← requiredOrCoin u a.2.2 then
        return r ++ [(a.1, ← generateAttrValueForType schema h maxDepth a.2.1)]
      else return r) []
    return .record r

/-- Modes of hierarchy generation; the arbitrary mode has neither attributes nor tags. -/
inductive HierarchyGeneratorMode (U : Type)
  | schemaBased (schema : SchemaGen U)
  | arbitrary

inductive NumEntities
  | exactly (numEntities : ℕ)
  | exactlyPerEntityType (numEntitiesPerType : ℕ)
  | rangePerEntityType (start stop : ℕ)
  deriving DecidableEq, Repr

/-- A generator. `evaluate` is the part of `Entity::new` that can fail, the evaluation of
the attributes and tags. -/
structure HierarchyGenerator (U : Type) where
  mode : HierarchyGeneratorMode U
  numEntities : NumEntities
  evaluate : IndexMap String AttrValue → IndexMap String AttrValue → Except String Unit

namespace HierarchyGenerator

variable (g : HierarchyGenerator U)

def chosenEntityTypes : Gen U Error (IndexSet EntityType) :=
  match g.mode with
  | .schemaBased schema => return .collect schema.entityTypes
  | .arbitrary => do return .collect (← Gen.call u.entityTypes)

def uidChoices (name : EntityType) : Option (NonEmpty Eid) :=
  match g.mode with
  | .schemaBased schema => schema.getUidEnumChoices name
  | .arbitrary => none

/-- One round of the loop that draws until there are enough distinct uids. -/
def drawUid (name : EntityType) (uids : IndexSet EntityUID) : Gen U Error (IndexSet EntityUID) := do
  -- If we run out of bytes, the uid will be the same on every subsequent iteration.
  if ← Gen.peek u.isEmpty then Gen.fail .notEnoughData
  else
    let uid ← generateUidWithType u name (g.uidChoices name)
    return uids.insert uid

/-- The uids of one of `nTypes` entity types. -/
def uidsOfType (fuel nTypes : ℕ) (name : EntityType) : Gen U Error (IndexSet EntityUID) :=
  match g.numEntities with
  | .rangePerEntityType start stop => do
    if start < 2 ^ 32 ∧ stop < 2 ^ 32 then
      u.arbitraryLoop (some start) (some stop)
        (fun uids => do return uids.insert (← generateUidWithType u name (g.uidChoices name))) .empty
    else Gen.panic "called `Result::unwrap()` on an `Err` value"
  | .exactlyPerEntityType numEntitiesPerType => do
    let uids ← (List.range numEntitiesPerType).mapM
      fun _ => generateUidWithType u name (g.uidChoices name)
    return .collect uids
  | .exactly numEntities =>
    whileLoop (fun uids => decide (uids.elems.length < numEntities / nTypes))
      (g.drawUid u name) fuel .empty

/-- The uids of the entity types in `names`, in their order. -/
def uidsByType (fuel nTypes : ℕ) (names : List EntityType) :
    Gen U Error (List (EntityType × IndexSet EntityUID)) :=
  names.mapM fun name => do return (name, ← g.uidsOfType u fuel nTypes name)

/-- Flip a coin for each candidate. -/
def chooseAmong (num den : ℕ) (candidates : List EntityUID) (parents : IndexSet EntityUID) :
    Gen U Error (IndexSet EntityUID) :=
  candidates.foldlM (fun parents uid => do
    if ← Gen.call (u.ratio num den) then return parents.insert uid else return parents) parents

/-- The parents of one allowed type: `uidsForType` only prevents cycles that come from
self-loops in the graph of entity types. -/
def chooseParentsOfType (h : Hierarchy) (uid : EntityUID) (parents : IndexSet EntityUID)
    (ty : EntityType) : Gen U Error (IndexSet EntityUID) := do
  let candidates ← Gen.orPanic "IndexMap: key not found" (h.uidsForType ty uid)
  chooseAmong u 1 2 candidates parents

/-- Choose parents for an entity. -/
def chooseParents (h : Hierarchy) (uid : EntityUID) : Gen U Error (IndexSet EntityUID) :=
  match g.mode with
  | .schemaBased schema => do
    let tys ← Gen.orPanic "called `Option::unwrap()` on a `None` value"
      (schema.allowedParentTypenames uid.entityType)
    tys.foldlM (chooseParentsOfType u h uid) .empty
  | .arbitrary => do
    let candidates ← Gen.orPanic "uid should be in the pool"
      ((h.uids.idxOf? uid).map fun thisIdx => h.uids.drop (thisIdx + 1))
    let parents ← chooseAmong u 1 3 candidates .empty
    if uid ∈ parents.elems then Gen.panic "assertion failed: !parents.contains(uid)"
    else return parents

/-- Attributes of arbitrary types and names. -/
def additionalAttrs (schema : SchemaGen U) (h : Hierarchy) :
    Gen U Error (IndexMap String AttrValue) :=
  u.arbitraryLoop none (some (schema.maxWidth % 2 ^ 32)) (fun attrs => do
    let attrType ← Gen.call (schema.generateType schema.maxDepth)
    let attrName ← Gen.call u.string
    let value ← generateAttrValueForType u schema h schema.maxDepth attrType
    return attrs.insert attrName value) .empty

/-- The declared attributes, the optional ones on the toss of a coin. -/
def declaredAttrs (schema : SchemaGen U) (h : Hierarchy)
    (entityAttrs : List (String × AbacType × Bool)) (attrs : IndexMap String AttrValue) :
    Gen U Error (IndexMap String AttrValue) :=
  entityAttrs.foldlM (fun attrs a => do
    if ← requiredOrCoin u a.2.2 then
      let value ← generateAttrValueForType u schema h schema.maxDepth a.2.1
      return attrs.insert a.1 value
    else return attrs) attrs

/-- The additional attributes come first, so that the declared ones overwrite them. -/
def chooseAttrs (h : Hierarchy) (uid : EntityUID) : Gen U Error (IndexMap String AttrValue) :=
  match g.mode with
  | .arbitrary => return .empty
  | .schemaBased schema => do
    let entityAttrs ← Gen.orPanic "in schema-based mode, this should always be Some"
      (schema.attributeByEntityType uid.entityType)
    if entityAttrs.2 then do
      let attrs ← additionalAttrs u schema h
      declaredAttrs u schema h entityAttrs.1 attrs
    else declaredAttrs u schema h entityAttrs.1 .empty

def chooseTags (h : Hierarchy) (uid : EntityUID) : Gen U Error (IndexMap String AttrValue) :=
  match g.mode with
  | .arbitrary => return .empty
  | .schemaBased schema => do
    let tagType ← Gen.orPanic "in schema-based mode, this should always be Some"
      (schema.tagTypeByEntityType uid.entityType)
    match tagType with
    | none => return .empty
    | some tagType =>
      u.arbitraryLoop none (some (schema.maxWidth % 2 ^ 32)) (fun tags => do
        let tagKey ← Gen.call u.string
        let value ← generateAttrValueForType u schema h schema.maxDepth tagType
        return tags.insert tagKey value) .empty

/-- The entity with the given uid: parents, then attributes, then tags. -/
def generateEntity (h : Hierarchy) (uid : EntityUID) : Gen U Error Entity := do
  let parents ← g.chooseParents u h uid
  let attrs ← g.chooseAttrs u h uid
  let tags ← g.chooseTags u h uid
  match g.evaluate attrs tags with
  | .ok _ => return ⟨uid, attrs, parents.elems.toFinset, tags⟩
  | .error e => Gen.fail (.entitiesError e)

/-- Generate a `Hierarchy` according to the specified parameters. -/
def generate (fuel : ℕ) : Gen U Error Hierarchy := do
  let entityTypes ← g.chosenEntityTypes u
  let uidsByType ← g.uidsByType u fuel entityTypes.elems.length entityTypes.elems
  let hierarchyNoAttrs := Hierarchy.fromUidsByType (.collect uidsByType)
  let entities ← hierarchyNoAttrs.entities.values.mapM fun e => do
    return (e.uid, ← g.generateEntity u hierarchyNoAttrs e.uid)
  return hierarchyNoAttrs.replaceEntities (.collect entities)

end HierarchyGenerator

end CedarSpec.HierarchyGen
