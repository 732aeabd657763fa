import CedarSpec.EncoderOperators

/-! Every step's commands are accepted, and the environment still holds what the tables hold. -/

namespace CedarSpec.SymCC

open SmtLib Encoder

variable {members : EntityType → Option (List String)} {I : Interpretation} {M : Model}
  {st st' : EncoderState} {env env' : Env}

/-! ## Commands that are read -/

abbrev declOf (id : String) (fields : List (String × SExp)) : ConstructorDecl :=
  (id.toList, fields.map fun field => (field.1.toList, field.2))

theorem map_mapIdx_eq {α β γ : Type} {f : ℕ → α → β} {g : β → γ} {k : ℕ → α → γ} (l : List α)
    (h : ∀ i a, g (f i a) = k i a) : (l.mapIdx f).map g = l.mapIdx k := by
  apply List.ext_getElem?
  intro i
  simp only [List.getElem?_map, List.getElem?_mapIdx, Option.map_map]
  congr 1
  funext a
  exact h i a

theorem mapM_map_some {α β γ : Type} {f : β → Option γ} {g : α → β} {k : α → γ} (l : List α)
    (h : ∀ a ∈ l, f (g a) = some (k a)) : (l.map g).mapM f = some (l.map k) := by
  induction l with
  | nil => rfl
  | cons a l ih =>
    obtain ⟨ha, hl⟩ := List.forall_mem_cons.mp h
    rw [List.map_cons, List.mapM_cons, ha, ih hl, List.map_cons]
    rfl

theorem constructorDecl?_eq (id : String) (fields : List (String × SExp)) :
    constructorDecl? (constructorDecl id fields) = some (declOf id fields) := by
  have h := mapM_map_some (f := fieldDecl?) (g := fun field : String × SExp =>
    SExp.list [sym field.1, field.2]) (k := fun field => (field.1.toList, field.2)) fields
    fun _ _ => rfl
  rw [constructorDecl, sym, constructorDecl?, h, Option.map_some]

/-- The declaration of a datatype without a parameter. -/
theorem command?_datatype (id : String) (decls : List (String × List (String × SExp))) :
    command? (datatypeCommand id (decls.map fun c => constructorDecl c.1 c.2)) =
      some (.datatype id.toList none (decls.map fun c => declOf c.1 c.2)) := by
  have h := mapM_map_some (f := constructorDecl?)
    (g := fun c : String × List (String × SExp) => constructorDecl c.1 c.2)
    (k := fun c => declOf c.1 c.2) decls fun c _ => constructorDecl?_eq c.1 c.2
  have hcommand : command? (datatypeCommand id (decls.map fun c => constructorDecl c.1 c.2)) =
      datatypeCommand? id.toList (decls.map fun c => constructorDecl c.1 c.2) := rfl
  rw [hcommand]
  cases decls with
  | nil => rfl
  | cons c decls =>
    rw [List.map_cons] at h ⊢
    rw [datatypeCommand?, h, Option.map_some]
    intro par x cs heq
    cases heq

theorem command?_const (id : String) (sort : SExp) :
    command? (constCommand id sort) = some (.function id.toList [] sort) := rfl

theorem command?_fun (id : String) (arg out : SExp) :
    command? (funCommand id arg out) = some (.function id.toList [arg] out) := rfl

theorem command?_define (id : String) (sort body : SExp) :
    command? (defineCommand id sort body) = some (.define id.toList sort body) := rfl

theorem command?_assert (e : SExp) : command? (assertCommand e) = some (.assert e) := rfl

theorem run_singleton {e : SExp} {c : Command} (h : command? e = some c) :
    run M env [e] = exec M env c := by
  rw [run, h, Option.bind_some]
  cases exec M env c <;> rfl

/-! ## Functions and constants -/

theorem entry_constant {f : Signature} (value : List Value → Value) (hdom : f.dom = []) :
    f.entry value = f.entry fun _ => value [] := by
  rw [Signature.entry, Signature.entry]
  congr 1
  funext vs
  split
  · rename_i hvs
    rw [hdom, List.map_eq_nil_iff] at hvs
    rw [hvs, List.map_nil]
  · rfl

theorem constant_congr (hext : Extends st st') {t : Term} (hty : st.CoversType t.typeOf)
    (id : String) : st'.constant t id = st.constant t id := by
  rw [EncoderState.constant, EncoderState.constant, hext.srt _ hty]

theorem signature_congr (hext : Extends st st') {f : UUF} (harg : st.CoversType f.arg)
    (hout : st.CoversType f.out) (id : String) : st'.signature f id = st.signature f id := by
  rw [EncoderState.signature, EncoderState.signature, hext.srt _ harg, hext.srt _ hout]

theorem free_termId (h : Denotes members I M st env) :
    env.Free (termId st.terms.size).toList := by
  constructor
  · rw [toList_termId]
    exact theoryFun_of_digits ['t'] _
  · intro e he heq
    have hknown := (h.known e he).term
    rw [heq, toList_termId, nameIndex_digits] at hknown
    exact (hknown rfl).false

theorem free_uufId (h : Denotes members I M st env) : env.Free (uufId st.uufs.size).toList := by
  constructor
  · rw [toList_uufId]
    exact theoryFun_of_digits ['f'] _
  · intro e he heq
    have hknown := (h.known e he).uuf
    rw [heq, toList_uufId, nameIndex_digits] at hknown
    exact (hknown rfl).false

namespace Denotes

variable (h : Denotes members I M st env)

include h

theorem declares (hext : Extends st st') {f : Signature} (hf : st.Declares f) :
    st'.Declares f := by
  cases hf with
  | inl huuf =>
    obtain ⟨g, id, hid, rfl⟩ := huuf
    obtain ⟨_, harg, hout⟩ := h.inv.uuf g id hid
    exact .inl ⟨g, id, hext.uufs g id hid, (signature_congr hext harg hout id).symm⟩
  | inr hvar =>
    obtain ⟨v, id, hid, rfl⟩ := hvar
    have hty := (h.inv.term _ id hid).2.1
    exact .inr ⟨v, id, hext.terms _ id hid, (constant_congr hext hty id).symm⟩

/-- Later environments hold what earlier tables hold, so that only new entries count. -/
theorem extend (hext : Extends st st') (hinv : Inv st') (hcoh : env'.Coherent M)
    (hdatatypes : env.datatypes ⊆ env'.datatypes) (hentries : env.entries ⊆ env'.entries)
    (hmono : env.functions ⊆ env'.functions)
    (htype : ∀ ty id, st'.types.lookup ty = some id → st.types.lookup ty = some id ∨
      st'.datatypeOf id ty ∈ env'.datatypes)
    (huuf : ∀ f id, st'.uufs.lookup f = some id → st.uufs.lookup f = some id ∨
      (st'.signature f id).entry (M.fn id.toList) ∈ env'.entries ∧
        st'.signature f id ∈ env'.functions)
    (hterm : ∀ t id, st'.terms.lookup t = some id → st.terms.lookup t = some id ∨
      (st'.constant t id).entry (fun _ => t.meaning members I) ∈ env'.entries ∧
        (∀ v, t = .var v → st'.constant t id ∈ env'.functions) ∨ st'.IsMember t id)
    (hknown : ∀ e ∈ env'.entries, e ∈ env.entries ∨
      st'.Known e.name ∧ (e.name = "eid".toList → e.selects.isSome))
    (hfunctions : ∀ f ∈ env'.functions, f ∈ env.functions ∨ st'.Declares f)
    (honly : ∀ d ∈ env'.datatypes, d ∈ env.datatypes ∨ st'.DeclaresSort d) :
    Denotes members I M st' env' := by
  constructor
  · exact hinv
  · intro ety
    rw [hext.enums, h.enums]
  · exact hcoh
  · exact hdatatypes h.option
  · intro ty id hid
    cases htype ty id hid with
    | inl hold =>
      rw [hext.datatypeOf (h.inv.type ty id hold)]
      exact hdatatypes (h.type ty id hold)
    | inr hnew => exact hnew
  · intro f id hid
    cases huuf f id hid with
    | inl hold =>
      obtain ⟨_, harg, hout⟩ := h.inv.uuf f id hold
      rw [signature_congr hext harg hout]
      exact hentries (h.uuf f id hold)
    | inr hnew => exact hnew.1
  · intro t id hid
    cases hterm t id hid with
    | inl hold =>
      have hty := (h.inv.term t id hold).2.1
      cases h.term t id hold with
      | inl hentry =>
        rw [constant_congr hext hty]
        exact .inl (hentries hentry)
      | inr hmember => exact .inr (hext.isMember hty hmember)
    | inr hnew => exact hnew.imp_left And.left
  · intro e he
    cases hknown e he with
    | inl hold => exact hext.known (h.known e hold)
    | inr hnew => exact hnew.1
  · intro e he hname
    cases hknown e he with
    | inl hold => exact h.eid e hold hname
    | inr hnew => exact hnew.2 hname
  · intro f
    constructor
    · intro hf
      cases hfunctions f hf with
      | inl hold => exact h.declares hext ((h.functions f).mp hold)
      | inr hnew => exact hnew
    · intro hf
      cases hf with
      | inl huufs =>
        obtain ⟨g, id, hid, rfl⟩ := huufs
        cases huuf g id hid with
        | inl hold =>
          obtain ⟨_, harg, hout⟩ := h.inv.uuf g id hold
          rw [signature_congr hext harg hout]
          exact hmono ((h.functions _).mpr (.inl ⟨g, id, hold, rfl⟩))
        | inr hnew => exact hnew.2
      | inr hvars =>
        obtain ⟨v, id, hid, rfl⟩ := hvars
        cases hterm (.var v) id hid with
        | inl hold =>
          rw [constant_congr hext (h.inv.term _ id hold).2.1]
          exact hmono ((h.functions _).mpr (.inr ⟨v, id, hold, rfl⟩))
        | inr hnew =>
          cases hnew with
          | inl hnew => exact hnew.2 v rfl
          | inr hmember =>
            obtain ⟨_, _, _, heq, _⟩ := hmember
            cases heq
  · intro d hd
    cases honly d hd with
    | inl hold =>
      cases h.datatypes d hold with
      | inl heq => exact .inl heq
      | inr hsort =>
        obtain ⟨ty, id, hid, rfl⟩ := hsort
        exact .inr ⟨ty, id, hext.types ty id hid, (hext.datatypeOf (h.inv.type ty id hid)).symm⟩
    | inr hnew => exact .inr hnew

end Denotes

/-! ## Datatypes -/

/-- The constructors of a type by the types of their fields. -/
def EncoderState.constructorsOf (st : EncoderState) (id : String) :
    TermType → List (String × List (String × TermType))
  | .prim (.entity ety) =>
    match st.enums.lookup ety with
    | some members => members.mapIdx fun i _ => (enumId id i, [])
    | none => [(id, [("eid", .string)])]
  | .prim (.ext .decimal) => [("Decimal", [("decimalVal", .bitvec 64)])]
  | .prim (.ext .ipAddr) =>
    [("V4", [("addrV4", .bitvec 32), ("prefixV4", .option (.bitvec 5))]),
     ("V6", [("addrV6", .bitvec 128), ("prefixV6", .option (.bitvec 7))])]
  | .prim (.ext .datetime) => [("Datetime", [("datetimeVal", .bitvec 64)])]
  | .prim (.ext .duration) => [("Duration", [("durationVal", .bitvec 64)])]
  | .record rty => [(id, rty.mapIdx fun i field => (recordAttrId id i, field.2))]
  | _ => []

def EncoderState.constructorOf (st : EncoderState) (c : String × List (String × TermType)) :
    Constructor :=
  ⟨c.1.toList, c.2.map fun field => (field.1.toList, st.srt field.2)⟩

def EncoderState.constructorSExp (st : EncoderState) (c : String × List (String × TermType)) :
    SExp :=
  constructorDecl c.1 (c.2.map fun field => (field.1, st.sortOf field.2))

theorem constructors_datatypeOf {ty : TermType} {id : String} (hentry : st.TypeEntry ty id) :
    (st.datatypeOf id ty).constructors = (st.constructorsOf id ty).map st.constructorOf := by
  cases ty with
  | prim pty =>
    cases pty with
    | entity ety =>
      rw [EncoderState.datatypeOf, EncoderState.constructorsOf]
      cases st.enums.lookup ety with
      | some members =>
        have h := map_mapIdx_eq (f := fun i (_ : String) => (enumId id i, []))
          (g := st.constructorOf) (k := fun i _ => ⟨(enumId id i).toList, []⟩) members
          fun _ _ => rfl
        exact h.symm
      | none => rfl
    | ext xty => cases xty <;> rfl
    | _ => exact hentry.elim
  | record rty =>
    have h := map_mapIdx_eq (f := fun i (field : String × TermType) =>
        (recordAttrId id i, field.2))
      (g := fun field => (field.1.toList, st.srt field.2))
      (k := fun i field => ((recordAttrId id i).toList, st.srt field.2)) rty fun _ _ => rfl
    rw [EncoderState.datatypeOf, EncoderState.recordDatatype, EncoderState.fieldsOf,
      EncoderState.constructorsOf, List.map_singleton, EncoderState.constructorOf, h]
  | _ => exact hentry.elim

theorem constructor?_constructorOf (h : Denotes members I M st env)
    {c : String × List (String × TermType)}
    (hcov : ∀ field ∈ c.2, st.CoversType field.2 ∧ field.2.WellFormed) :
    env.constructor? none (declOf c.1 (c.2.map fun field => (field.1, st.sortOf field.2))) =
      some (st.constructorOf c) := by
  have hfields := mapM_map_some (f := fun field : FieldDecl =>
      (env.sort? none field.2).map (Prod.mk field.1))
    (g := fun field : String × TermType => (field.1.toList, st.sortOf field.2))
    (k := fun field => (field.1.toList, st.srt field.2)) c.2 (by
      intro field hfield
      obtain ⟨hty, hwf⟩ := hcov field hfield
      rw [h.sort? hty hwf, Option.map_some])
  rw [Env.constructor?, declOf, List.map_map]
  exact congrArg (Option.map (Constructor.mk c.1.toList)) hfields

/-- The command that declares a type is accepted where the datatype may be declared. -/
theorem run_declare (h : Denotes members I M st env) {id : String} {ty : TermType}
    (hcov : ∀ c ∈ st.constructorsOf id ty, ∀ field ∈ c.2,
      st.CoversType field.2 ∧ field.2.WellFormed)
    (hcan : env.CanDeclare ⟨id.toList, false, (st.constructorsOf id ty).map st.constructorOf⟩) :
    run M env [datatypeCommand id ((st.constructorsOf id ty).map st.constructorSExp)] =
      some (env.declare M
        ⟨id.toList, false, (st.constructorsOf id ty).map st.constructorOf⟩) := by
  have hcommand : command? (datatypeCommand id ((st.constructorsOf id ty).map st.constructorSExp)) =
      some (.datatype id.toList none ((st.constructorsOf id ty).map fun c =>
        declOf c.1 (c.2.map fun field => (field.1, st.sortOf field.2)))) := by
    have hdecl := command?_datatype id ((st.constructorsOf id ty).map fun c =>
      (c.1, c.2.map fun field => (field.1, st.sortOf field.2)))
    rw [List.map_map, List.map_map] at hdecl
    exact hdecl
  have hmapM := mapM_map_some (f := env.constructor? none)
    (g := fun c : String × List (String × TermType) =>
      declOf c.1 (c.2.map fun field => (field.1, st.sortOf field.2)))
    (k := st.constructorOf) (st.constructorsOf id ty) fun c hc =>
      constructor?_constructorOf h (hcov c hc)
  rw [run_singleton hcommand, exec, hmapM, Option.bind_some]
  exact if_pos hcan

/-! ## Names that are not known -/

theorem not_known_typeName {c : Char} {rest : List Char} (hc : c = 'E' ∨ c = 'R')
    (hidx : nameIndex (c :: rest) = st.types.size) : ¬ st.Known (c :: rest) := by
  intro hknown
  have hlt := hknown.type (by
    cases hc with
    | inl hc => exact .inl (by rw [hc]; rfl)
    | inr hc => exact .inr (by rw [hc]; rfl))
  rw [hidx] at hlt
  exact hlt.false

theorem not_known_ext {xty : ExtType} {name : List Char} (fresh : TermType.ext xty ∉ st.types)
    (hname : name ∈ extNames xty) : ¬ st.Known name :=
  fun hknown => fresh (hknown.ext xty hname)

/-- A name that no theory and no table has. -/
def EncoderState.New (st : EncoderState) (name : List Char) : Prop :=
  theoryFun name = none ∧ ¬ st.Known name

theorem EncoderState.New.free {name : List Char} (hnew : st.New name)
    (h : Denotes members I M st env) : env.Free name :=
  ⟨hnew.1, fun e he heq => hnew.2 (heq ▸ h.known e he)⟩

theorem EncoderState.New.selectorFree {name : List Char} (hnew : st.New name)
    (h : Denotes members I M st env) : env.SelectorFree name :=
  ⟨hnew.1, fun e he heq => (hnew.2 (heq ▸ h.known e he)).elim⟩

theorem selectorFree_eid (h : Denotes members I M st env) : env.SelectorFree "eid".toList :=
  ⟨rfl, h.eid⟩

theorem new_entityTypeId : st.New (entityTypeId st.types.size).toList := by
  rw [toList_entityTypeId]
  exact ⟨theoryFun_of_digits ['E'] _,
    not_known_typeName (.inl rfl) (nameIndex_digits _ _)⟩

theorem new_recordTypeId : st.New (recordTypeId st.types.size).toList := by
  rw [toList_recordTypeId]
  exact ⟨theoryFun_of_digits ['R'] _,
    not_known_typeName (.inr rfl) (nameIndex_digits _ _)⟩

theorem new_enumId (i : ℕ) : st.New (enumId (entityTypeId st.types.size) i).toList := by
  rw [toList_enumId, toList_entityTypeId]
  constructor
  · have h := theoryFun_of_digits ('E' :: Nat.toDigits 10 st.types.size ++ ['_', 'm']) i
    rwa [List.append_assoc] at h
  · apply not_known_typeName (.inl rfl)
    rw [List.append_eq, ← List.cons_append, nameIndex_digits_append]

theorem new_recordAttrId (i : ℕ) :
    st.New (recordAttrId (recordTypeId st.types.size) i).toList := by
  rw [toList_recordAttrId, toList_recordTypeId]
  constructor
  · have h := theoryFun_of_digits ('R' :: Nat.toDigits 10 st.types.size ++ ['_', 'a']) i
    rwa [List.append_assoc] at h
  · apply not_known_typeName (.inr rfl)
    rw [List.append_eq, ← List.cons_append, nameIndex_digits_append]

theorem new_extName {xty : ExtType} {name : List Char} (fresh : TermType.ext xty ∉ st.types)
    (hname : name ∈ extNames xty) : st.New name := by
  refine ⟨?_, not_known_ext fresh hname⟩
  have hall : ∀ name ∈ extNames xty, theoryFun name = none := by
    cases xty <;>
    simp only [extNames, extDatatype, wrapper, ipAddrDatatype, Datatype.names, List.flatMap_cons,
      List.flatMap_nil, List.map_cons, List.map_nil, List.append_nil, List.cons_append,
      List.nil_append, List.forall_mem_cons, List.not_mem_nil, false_implies, implies_true,
      and_true] <;>
    exact ⟨rfl, by simp [theoryFun, theory]⟩
  exact hall name hname

/-! ## Datatypes that may be declared -/

def EncoderState.declared (st : EncoderState) (id : String) (ty : TermType) : Datatype :=
  ⟨id.toList, false, (st.constructorsOf id ty).map st.constructorOf⟩

/-- Nothing that the type declares has been declared. -/
structure EncoderState.Declarable (st : EncoderState) (id : String) (ty : TermType) : Prop where
  reserved : id.toList ∉ Env.reservedSorts
  name : st.New id.toList
  nonempty : st.constructorsOf id ty ≠ []
  nodup : (st.declared id ty).names.Nodup
  constructors : ∀ c ∈ st.constructorsOf id ty, st.New c.1.toList
  selectors : ∀ c ∈ st.constructorsOf id ty, ∀ field ∈ c.2,
    field.1 = "eid" ∨ st.New field.1.toList

theorem EncoderState.Declarable.canDeclare {id : String} {ty : TermType}
    (hty : st.Declarable id ty) (h : Denotes members I M st env) :
    env.CanDeclare (st.declared id ty) := by
  constructor
  · refine ⟨hty.reserved, ?_⟩
    intro d hd heq
    have hknown := h.knownSort hd
    rw [heq] at hknown
    exact hty.name.2 hknown
  · intro hnil
    exact hty.nonempty (List.map_eq_nil_iff.mp hnil)
  · exact hty.nodup
  · intro c hc
    obtain ⟨c', hc', rfl⟩ := List.mem_map.mp hc
    exact (hty.constructors c' hc').free h
  · intro c hc field hfield
    obtain ⟨c', hc', rfl⟩ := List.mem_map.mp hc
    obtain ⟨field', hfield', rfl⟩ := List.mem_map.mp hfield
    cases hty.selectors c' hc' field' hfield' with
    | inl heid =>
      simp only [heid]
      exact selectorFree_eid h
    | inr hnew => exact hnew.selectorFree h

theorem reservedSorts_typeName {c : Char} {n : ℕ} (hc : c = 'E' ∨ c = 'R') :
    c :: Nat.toDigits 10 n ∉ Env.reservedSorts := by
  intro hmem
  have hdigits := all_isDigit_toDigits n
  simp only [Env.reservedSorts, List.mem_cons, List.not_mem_nil, or_false] at hmem
  cases hc with
  | inl hc =>
    subst hc
    simp at hmem
  | inr hc =>
    subst hc
    have heq : Nat.toDigits 10 n = "egLan".toList := by simpa using hmem
    rw [heq] at hdigits
    simp at hdigits

theorem declarable_members {ety : EntityType}
    {ms : List String} (hms : st.enums.lookup ety = some ms) (hne : ms ≠ []) :
    st.Declarable (entityTypeId st.types.size) (.entity ety) := by
  have hcs : st.constructorsOf (entityTypeId st.types.size) (.entity ety) =
      ms.mapIdx fun i _ => (enumId (entityTypeId st.types.size) i, []) := by
    rw [EncoderState.constructorsOf, hms]
  constructor
  · rw [toList_entityTypeId]
    exact reservedSorts_typeName (.inl rfl)
  · exact new_entityTypeId
  · rw [hcs]
    simpa using hne
  · have hnames : (st.declared (entityTypeId st.types.size) (.entity ety)).names =
        ms.mapIdx fun i _ => (enumId (entityTypeId st.types.size) i).toList := by
      have hmap := map_mapIdx_eq (g := fun c => c.1.toList)
        (f := fun i (_ : String) =>
          (enumId (entityTypeId st.types.size) i, ([] : List (String × TermType))))
        (k := fun i _ => (enumId (entityTypeId st.types.size) i).toList) ms fun _ _ => rfl
      rw [Datatype.names, EncoderState.declared, hcs, List.flatMap_map, ← hmap,
        List.map_eq_flatMap]
      apply List.flatMap_congr
      intro c hc
      obtain ⟨i, _, rfl⟩ := List.mem_mapIdx.mp hc
      rfl
    rw [hnames]
    apply nodup_mapIdx
    intro i j _ _ heq
    exact enumId_injective _ (String.toList_injective heq)
  · intro c hc
    rw [hcs] at hc
    obtain ⟨i, _, rfl⟩ := List.mem_mapIdx.mp hc
    exact new_enumId i
  · intro c hc field hfield
    rw [hcs] at hc
    obtain ⟨i, _, rfl⟩ := List.mem_mapIdx.mp hc
    cases hfield

theorem declarable_entity {ety : EntityType}
    (hms : st.enums.lookup ety = none) :
    st.Declarable (entityTypeId st.types.size) (.entity ety) := by
  have hcs : st.constructorsOf (entityTypeId st.types.size) (.entity ety) =
      [(entityTypeId st.types.size, [("eid", .string)])] := by
    rw [EncoderState.constructorsOf, hms]
  constructor
  · rw [toList_entityTypeId]
    exact reservedSorts_typeName (.inl rfl)
  · exact new_entityTypeId
  · simp [hcs]
  · simp [Datatype.names, EncoderState.declared, hcs, EncoderState.constructorOf,
      toList_entityTypeId]
  · simp [hcs, new_entityTypeId]
  · simp [hcs]

theorem declarable_ext {xty : ExtType}
    (fresh : TermType.ext xty ∉ st.types) :
    st.Declarable (extTypeId xty) (.ext xty) := by
  have hnames : extNames xty =
      (extTypeId xty).toList :: (st.declared (extTypeId xty) (.ext xty)).names := by
    cases xty <;> rfl
  have hmem : ∀ c ∈ st.constructorsOf (extTypeId xty) (.ext xty),
      c.1.toList ∈ extNames xty ∧ ∀ field ∈ c.2, field.1.toList ∈ extNames xty := by
    cases xty <;>
    simp only [EncoderState.constructorsOf, List.forall_mem_cons, List.not_mem_nil, false_implies,
      implies_true, and_true] <;>
    simp [extNames, extDatatype, wrapper, ipAddrDatatype, Datatype.names]
  constructor
  · cases xty <;> simp [extTypeId, Env.reservedSorts]
  · apply new_extName fresh
    rw [hnames]
    exact List.mem_cons_self
  · cases xty <;> simp [EncoderState.constructorsOf]
  · cases xty <;> simp [Datatype.names, EncoderState.declared, EncoderState.constructorsOf,
      EncoderState.constructorOf]
  · intro c hc
    exact new_extName fresh (hmem c hc).1
  · intro c hc field hfield
    exact .inr (new_extName fresh ((hmem c hc).2 field hfield))

theorem declarable_record (rty : List (String × TermType)) :
    st.Declarable (recordTypeId st.types.size) (.record rty) := by
  constructor
  · rw [toList_recordTypeId]
    exact reservedSorts_typeName (.inr rfl)
  · exact new_recordTypeId
  · simp [EncoderState.constructorsOf]
  · have hnames : (st.declared (recordTypeId st.types.size) (.record rty)).names =
        (recordTypeId st.types.size).toList ::
          rty.mapIdx fun i _ => (recordAttrId (recordTypeId st.types.size) i).toList := by
      simp only [Datatype.names, EncoderState.declared, EncoderState.constructorsOf,
        EncoderState.constructorOf, List.map_singleton, List.flatMap_singleton, List.map_map]
      congr 1
      exact map_mapIdx_eq rty fun _ _ => rfl
    rw [hnames, List.nodup_cons]
    constructor
    · intro hmem
      obtain ⟨i, _, heq⟩ := List.mem_mapIdx.mp hmem
      rw [toList_recordAttrId] at heq
      simp at heq
    · apply nodup_mapIdx
      intro i j _ _ heq
      exact recordAttrId_injective _ (String.toList_injective heq)
  · intro c hc
    rw [EncoderState.constructorsOf, List.mem_singleton] at hc
    rw [hc]
    exact new_recordTypeId
  · intro c hc field hfield
    rw [EncoderState.constructorsOf, List.mem_singleton] at hc
    rw [hc] at hfield
    obtain ⟨i, _, rfl⟩ := List.mem_mapIdx.mp hfield
    exact .inr (new_recordAttrId i)

/-! ## Steps -/

namespace Denotes

variable (h : Denotes members I M st env)

include h

theorem declare {id : String} {ty : TermType} (fresh : ty ∉ st.types)
    (hinv : Inv (st.enterType ty id)) (hty : st.Declarable id ty)
    (hd : (st.enterType ty id).datatypeOf id ty = st.declared id ty) :
    Denotes members I M (st.enterType ty id) (env.declare M (st.declared id ty)) := by
  have hmem : ty ∈ (st.enterType ty id).types := (AList.mem_insert _).mpr (.inl rfl)
  have hentry : (st.enterType ty id).TypeEntry ty id :=
    hinv.type ty id (AList.lookup_insert _)
  apply h.extend (extends_enterType id fresh) hinv (h.coherent.declare (hty.canDeclare h))
    (List.subset_cons_self _ _) (List.subset_append_right _ _) (List.Subset.refl _)
  · apply forall_lookup_insert
    · intro ty' id' hid'
      exact .inl hid'
    · right
      rw [hd]
      exact List.mem_cons_self
  · intro f id' hid'
    exact .inl hid'
  · intro t id' hid'
    exact .inl hid'
  · intro e he
    cases List.mem_append.mp he with
    | inl he =>
      right
      have hname := List.mem_map_of_mem (f := Entry.name) he
      rw [map_name_entries, ← hd] at hname
      refine ⟨known_datatypeOf hentry hmem (.inr hname), ?_⟩
      intro heid
      obtain ⟨k, c, hc, he⟩ := mem_entries.mp he
      cases he with
      | inl he =>
        -- constructors are new names, but this one may have been declared
        obtain ⟨c', hc', rfl⟩ := List.mem_map.mp (List.mem_of_getElem? hc)
        rw [he] at heid
        have hnew := (hty.constructors c' hc').2
        rw [show c'.1.toList = "eid".toList from heid] at hnew
        exact (hnew (known_of_head (by decide))).elim
      | inr he =>
        obtain ⟨j, field, _, rfl⟩ := he
        rfl
    | inr he => exact .inl he
  · intro f hf
    exact .inl hf
  · intro d hmemd
    cases List.mem_cons.mp hmemd with
    | inl heq =>
      right
      rw [heq, ← hd]
      exact ⟨ty, id, AList.lookup_insert _, rfl⟩
    | inr hmemd => exact .inl hmemd

theorem run_enterType {id : String} {ty : TermType} (fresh : ty ∉ st.types)
    (hinv : Inv (st.enterType ty id)) (hty : st.Declarable id ty)
    (hcov : ∀ c ∈ st.constructorsOf id ty, ∀ field ∈ c.2,
      st.CoversType field.2 ∧ field.2.WellFormed) :
    ∃ env', run M env [datatypeCommand id ((st.constructorsOf id ty).map st.constructorSExp)] =
      some env' ∧ Denotes members I M (st.enterType ty id) env' ∧ env'.holds = env.holds := by
  have hext := extends_enterType id fresh
  have hentry : (st.enterType ty id).TypeEntry ty id :=
    hinv.type ty id (AList.lookup_insert _)
  have hd : (st.enterType ty id).datatypeOf id ty = st.declared id ty := by
    obtain ⟨hname, hpar⟩ := name_datatypeOf hentry
    have hcs : ((st.enterType ty id).datatypeOf id ty).constructors =
        (st.constructorsOf id ty).map st.constructorOf := by
      rw [constructors_datatypeOf hentry]
      apply List.map_congr_left
      intro c hc
      rw [EncoderState.constructorOf, EncoderState.constructorOf]
      congr 1
      apply List.map_congr_left
      intro field hfield
      rw [hext.srt _ (hcov c hc field hfield).1]
    rw [EncoderState.declared, ← hname, ← hpar, ← hcs]
  exact ⟨_, run_declare h hcov (hty.canDeclare h), h.declare fresh hinv hty hd, rfl⟩

theorem run_uuf {f : UUF} (fresh : f ∉ st.uufs) (harg : st.CoversType f.arg)
    (hout : st.CoversType f.out) (hwf : f.arg.WellFormed ∧ f.out.WellFormed)
    (hinv : Inv (st.enterUUF f (uufId st.uufs.size))) :
    ∃ env', run M env [funCommand (uufId st.uufs.size) (st.sortOf f.arg) (st.sortOf f.out)] =
      some env' ∧ Denotes members I M (st.enterUUF f (uufId st.uufs.size)) env' ∧
        env'.holds = env.holds := by
  have hext := extends_enterUUF (uufId st.uufs.size) fresh
  have hfree := free_uufId h
  have hsorts : [st.sortOf f.arg].mapM (env.sort? none) = some [st.srt f.arg] := by
    rw [List.mapM_cons, h.sort? harg hwf.1]
    rfl
  refine ⟨env.addFunction M ⟨(uufId st.uufs.size).toList, [st.srt f.arg], st.srt f.out⟩, ?_, ?_,
    rfl⟩
  · rw [run_singleton (command?_fun _ _ _), exec, hsorts, Option.bind_some, h.sort? hout hwf.2,
      Option.bind_some, if_pos hfree]
  · apply h.extend hext hinv (h.coherent.addFunction hfree) (List.Subset.refl _)
      (List.subset_cons_self _ _) (List.subset_cons_self _ _)
    · intro ty id hid
      exact .inl hid
    · apply forall_lookup_insert
      · intro f' id hid
        exact .inl hid
      · right
        rw [signature_congr hext harg hout]
        exact ⟨List.mem_cons_self, List.mem_cons_self⟩
    · intro t id hid
      exact .inl hid
    · intro e he
      cases List.mem_cons.mp he with
      | inl heq =>
        right
        rw [heq]
        constructor
        · apply known_uufId
          rw [EncoderState.enterUUF, Table.size_insert _ fresh]
          exact Nat.lt_succ_self _
        · intro heid
          change (uufId st.uufs.size).toList = _ at heid
          rw [toList_uufId] at heid
          simp at heid
      | inr he => exact .inl he
    · intro f' hf'
      cases List.mem_cons.mp hf' with
      | inl heq =>
        right
        left
        refine ⟨f, _, AList.lookup_insert _, ?_⟩
        rw [heq, signature_congr hext harg hout]
        rfl
      | inr hf' => exact .inl hf'
    · intro d hd
      exact .inl hd

theorem run_enterTerm {t : Term} {c : SExp} (fresh : t ∉ st.terms)
    (hinv : Inv (st.enterTerm t (termId st.terms.size))) (hcov : st.CoversType t.typeOf)
    (fs : List Signature) (hmono : env.functions ⊆ fs)
    (hvar : ∀ v, t = .var v → st.constant t (termId st.terms.size) ∈ fs)
    (hfs : ∀ f ∈ fs, f ∈ env.functions ∨
      (∃ v, t = .var v) ∧ f = st.constant t (termId st.terms.size))
    (hrun : run M env [c] = some
      { env with
        functions := fs
        entries := (st.constant t (termId st.terms.size)).entry (fun _ => t.meaning members I) ::
          env.entries }) :
    ∃ env', run M env [c] = some env' ∧
      Denotes members I M (st.enterTerm t (termId st.terms.size)) env' ∧
        env'.holds = env.holds := by
  have hext := extends_enterTerm (termId st.terms.size) fresh
  have hadd := h.coherent.addEntry (free_termId h)
    (e := (st.constant t (termId st.terms.size)).entry fun _ => t.meaning members I) rfl
  refine ⟨_, hrun, ?_, rfl⟩
  have hcoh : ({ env with
      functions := fs
      entries := (st.constant t (termId st.terms.size)).entry (fun _ => t.meaning members I) ::
        env.entries } : Env).Coherent M :=
    ⟨hadd.theory, hadd.reserved, hadd.entries, hadd.sorts, hadd.selectors, hadd.agree⟩
  apply h.extend hext hinv hcoh (List.Subset.refl _) (List.subset_cons_self _ _) hmono
  · intro ty id hid
    exact .inl hid
  · intro f id hid
    exact .inl hid
  · apply forall_lookup_insert
    · intro t' id hid
      exact .inl hid
    · right
      left
      rw [constant_congr hext hcov]
      exact ⟨List.mem_cons_self, hvar⟩
  · intro e he
    cases List.mem_cons.mp he with
    | inl heq =>
      right
      rw [heq]
      constructor
      · apply known_termId
        rw [EncoderState.enterTerm, Table.size_insert _ fresh]
        exact Nat.lt_succ_self _
      · intro heid
        change (termId st.terms.size).toList = _ at heid
        rw [toList_termId] at heid
        simp at heid
    | inr he => exact .inl he
  · intro f hf
    cases hfs f hf with
    | inl hold => exact .inl hold
    | inr hnew =>
      obtain ⟨⟨v, rfl⟩, rfl⟩ := hnew
      exact .inr (.inr ⟨v, _, AList.lookup_insert _, (constant_congr hext hcov _).symm⟩)
  · intro d hd
    exact .inl hd

/-- A member of an enumerated entity type needs no entry. -/
theorem enterMember {t : Term} {id : String} (fresh : t ∉ st.terms)
    (hinv : Inv (st.enterTerm t id)) (hcov : st.CoversType t.typeOf) (hmember : st.IsMember t id) :
    Denotes members I M (st.enterTerm t id) env := by
  have hext := extends_enterTerm id fresh
  apply h.extend hext hinv h.coherent (List.Subset.refl _) (List.Subset.refl _)
    (List.Subset.refl _)
  · intro ty id' hid'
    exact .inl hid'
  · intro f id' hid'
    exact .inl hid'
  · apply forall_lookup_insert
    · intro t' id' hid'
      exact .inl hid'
    · exact .inr (.inr (hext.isMember hcov hmember))
  · intro e he
    exact .inl he
  · intro f hf
    exact .inl hf
  · intro d hd
    exact .inl hd

end Denotes

theorem Agrees.of_extends (h : Agrees M I st') (hext : Extends st st') : Agrees M I st where
  var v id hid := h.var v id (hext.terms _ id hid)
  uuf f id hid := h.uuf f id (hext.uufs f id hid)
  sel op ty sel hplace hsel hcov v := by
    rw [← hext.srt ty hcov]
    refine h.sel op ty sel hplace ?_ (hext.coversType ty hcov) v
    rw [← hsel]
    cases op with
    | recordGet a =>
      cases ty with
      | record rty =>
        rw [EncoderState.selector?, EncoderState.selector?, hext.typeId hcov]
      | _ => rfl
    | _ =>
      cases ty with
      | prim pty => cases pty <;> rfl
      | _ => rfl

/-! ## Runs -/

theorem covers_ext (xty : ExtType) (id : String) :
    ∀ c ∈ st.constructorsOf id (.ext xty), ∀ field ∈ c.2,
      st.CoversType field.2 ∧ field.2.WellFormed := by
  have hbit : ∀ n, 0 < n → st.CoversType (.bitvec n) ∧ (TermType.bitvec n).WellFormed :=
    fun _ hn => ⟨trivial, .bitvec hn⟩
  have hoption : ∀ n, 0 < n →
      st.CoversType (.option (.bitvec n)) ∧ (TermType.option (.bitvec n)).WellFormed :=
    fun _ hn => ⟨trivial, .option (.bitvec hn)⟩
  cases xty <;>
  simp only [EncoderState.constructorsOf, List.forall_mem_cons, List.not_mem_nil, false_implies,
    implies_true, and_true] <;>
  simp [hbit, hoption]

section Runs

variable {cmds : List SExp}

/-- The commands of a step are accepted, and what they add is what the step has entered. -/
theorem Denotes.step (h : Denotes members I M st env) (hstep : Step st cmds st')
    (htyped : st'.Typed) (hagree : Agrees M I st')
    (hne : ∀ ety ms, members ety = some ms → ms ≠ []) :
    ∃ env', run M env cmds = some env' ∧ Denotes members I M st' env' ∧
      env'.holds = env.holds := by
  have hinv := h.inv.step hstep
  have hext := hstep.extends
  have hold := hagree.of_extends hext
  cases hstep with
  | @entity ety fresh =>
    cases hms : st.enums.lookup ety with
    | none =>
      have hrun := h.run_enterType fresh hinv (declarable_entity hms) (by
        rw [EncoderState.constructorsOf, hms]
        simp [EncoderState.CoversType, TermType.WellFormed.string])
      rw [EncoderState.constructorsOf, hms] at hrun
      exact hrun
    | some ms =>
      have hdecl := declarable_members hms (hne ety ms (by rw [← h.enums, hms]))
      have hcs : st.constructorsOf (entityTypeId st.types.size) (.entity ety) =
          ms.mapIdx fun i _ => (enumId (entityTypeId st.types.size) i, []) := by
        rw [EncoderState.constructorsOf, hms]
      have hrun := h.run_enterType fresh hinv hdecl (by
        intro c hc field hfield
        rw [hcs] at hc
        obtain ⟨i, _, rfl⟩ := List.mem_mapIdx.mp hc
        cases hfield)
      have hmap := map_mapIdx_eq (g := st.constructorSExp)
        (f := fun i (_ : String) => (enumId (entityTypeId st.types.size) i, []))
        (k := fun i _ => constructorDecl (enumId (entityTypeId st.types.size) i) []) ms
        fun _ _ => rfl
      rw [hcs, hmap] at hrun
      exact hrun
  | @ext xty fresh =>
    have hrun := h.run_enterType fresh hinv (declarable_ext fresh) (covers_ext xty _)
    have hcs : (st.constructorsOf (extTypeId xty) (.ext xty)).map st.constructorSExp =
        extConstructors xty := by
      cases xty <;> rfl
    rwa [hcs] at hrun
  | @record rty fresh covered =>
    have hwf := htyped.types (.record rty) ((AList.mem_insert _).mpr (.inl rfl))
    have hrun := h.run_enterType fresh hinv (declarable_record rty) (by
      intro c hc field hfield
      rw [EncoderState.constructorsOf, List.mem_singleton] at hc
      rw [hc] at hfield
      obtain ⟨i, hi, rfl⟩ := List.mem_mapIdx.mp hfield
      cases hwf with
      | record hwf =>
        have hmem := List.getElem_mem hi
        exact ⟨covered rty[i] hmem, hwf rty[i] hmem⟩)
    have hmap := map_mapIdx_eq (g := fun field => (field.1, st.sortOf field.2))
      (f := fun i (field : String × TermType) =>
        (recordAttrId (recordTypeId st.types.size) i, field.2))
      (k := fun i field => (recordAttrId (recordTypeId st.types.size) i, st.sortOf field.2)) rty
      fun _ _ => rfl
    rw [EncoderState.constructorsOf, List.map_singleton, EncoderState.constructorSExp, hmap] at hrun
    exact hrun
  | @uuf f fresh harg hout =>
    exact h.run_uuf fresh harg hout (htyped.uufs f ((AList.mem_insert _).mpr (.inl rfl))) hinv
  | @var v fresh covered =>
    have hwt := htyped.terms (.var v) ((AList.mem_insert _).mpr (.inl rfl))
    have hvalue := hagree.var v (termId st.terms.size) (AList.lookup_insert _)
    have hentry := entry_constant (f := st.constant (.var v) (termId st.terms.size))
      (M.fn (termId st.terms.size).toList) rfl
    rw [hvalue] at hentry
    cases hwt with
    | var hwf =>
      apply h.run_enterTerm fresh hinv covered (st.constant (.var v) _ :: env.functions)
        (List.subset_cons_self _ _) fun _ _ => List.mem_cons_self
      · intro f hf
        cases List.mem_cons.mp hf with
        | inl heq => exact .inr ⟨⟨v, rfl⟩, heq⟩
        | inr hf => exact .inl hf
      rw [run_singleton (command?_const _ _), exec, List.mapM_nil, Option.pure_def,
        Option.bind_some, h.sort? covered hwf, Option.bind_some, if_pos (free_termId h)]
      rw [Term.meaning, ← hentry]
      rfl
  | @define t fresh entered covered ready =>
    have hwt := htyped.terms t ((AList.mem_insert _).mpr (.inl rfl))
    have hvar : ∀ v, t ≠ .var v := by
      rintro v rfl
      exact ready.2
    apply h.run_enterTerm fresh hinv covered env.functions (List.Subset.refl _)
      (fun v heq => (hvar v heq).elim) fun f hf => .inl hf
    rw [run_singleton (command?_define _ _ _), exec, h.sort? covered hwt.typeOf, Option.bind_some,
      h.eval_body hold entered ready hwt covered, Option.bind_some,
      if_pos ⟨free_termId h, rfl⟩]
    rfl
  | member fresh covered enumerated index =>
    exact ⟨env, rfl, h.enterMember fresh hinv covered ⟨_, _, _, rfl, enumerated, index, rfl⟩, rfl⟩

/-- The commands of a run are accepted. -/
theorem Denotes.steps (h : Denotes members I M st env) (hsteps : Steps st cmds st')
    (htyped : st'.Typed) (hagree : Agrees M I st')
    (hne : ∀ ety ms, members ety = some ms → ms ≠ []) :
    ∃ env', run M env cmds = some env' ∧ Denotes members I M st' env' ∧
      env'.holds = env.holds := by
  induction hsteps with
  | refl => exact ⟨env, rfl, h, rfl⟩
  | tail _ hstep ih =>
    have hext := hstep.extends
    obtain ⟨env₁, hrun₁, h₁, hholds₁⟩ := ih (htyped.of_extends hext) (hagree.of_extends hext)
    obtain ⟨env₂, hrun₂, h₂, hholds₂⟩ := h₁.step hstep htyped hagree hne
    refine ⟨env₂, ?_, h₂, hholds₂.trans hholds₁⟩
    rw [run_append, hrun₁, Option.bind_some, hrun₂]

end Runs

/-- Assertions neither declare nor define. -/
theorem Denotes.withHolds (h : Denotes members I M st env) (b : Bool) :
    Denotes members I M st { env with holds := b } :=
  ⟨h.inv, h.enums, ⟨h.coherent.theory, h.coherent.reserved, h.coherent.entries, h.coherent.sorts,
    h.coherent.selectors, h.coherent.agree⟩, h.option, h.type, h.uuf, h.term, h.known, h.eid,
    h.functions, h.datatypes⟩

/-- The assertions are accepted, and they hold where the terms are true. -/
theorem Denotes.asserts (h : Denotes members I M st env) {ts : List Term}
    (hcov : ∀ t ∈ ts, st.Covers t) (hwt : ∀ t ∈ ts, t.WellTyped)
    (hbool : ∀ t ∈ ts, t.typeOf = .bool) :
    run M env (ts.map fun t => assertCommand (st.ref t)) = some { env with
      holds := env.holds && ts.all fun t => (t.meaning members I).isTrue } := by
  induction ts generalizing env with
  | nil =>
    rw [List.map_nil, run, List.all_nil, Bool.and_true]
  | cons t ts ih =>
    obtain ⟨hcovt, hcovs⟩ := List.forall_mem_cons.mp hcov
    obtain ⟨hwtt, hwts⟩ := List.forall_mem_cons.mp hwt
    obtain ⟨hboolt, hbools⟩ := List.forall_mem_cons.mp hbool
    have heval : env.eval (st.ref t) = some (.bool, t.meaning members I) := by
      rw [h.eval_ref hcovt hwtt, hboolt]
      rfl
    have hasserted := h.withHolds (env.holds && (t.meaning members I).isTrue)
    rw [List.map_cons, run, command?_assert, Option.bind_some, exec, heval, Option.bind_some,
      if_pos rfl, Option.bind_some, ih hasserted hcovs hwts hbools, List.all_cons, Bool.and_assoc]

/-! ## The beginning of the script -/

theorem canDeclare_option : Env.empty.CanDeclare optionDatatype := by
  have hfree : ∀ name, theoryFun name = none → Env.empty.Free name :=
    fun _ htheory => ⟨htheory, fun e he => (List.not_mem_nil he).elim⟩
  constructor
  · exact ⟨by simp [optionDatatype, Env.reservedSorts], fun d hd => (List.not_mem_nil hd).elim⟩
  · simp [optionDatatype]
  · simp [optionDatatype, Datatype.names]
  · intro c hc
    cases List.mem_pair.mp hc with
    | inl hc =>
      rw [hc]
      exact hfree _ rfl
    | inr hc =>
      rw [hc]
      exact hfree _ rfl
  · intro c hc field hfield
    cases List.mem_pair.mp hc with
    | inl hc =>
      rw [hc] at hfield
      cases hfield
    | inr hc =>
      rw [hc] at hfield
      rw [List.mem_singleton.mp hfield]
      exact ⟨rfl, fun e he => (List.not_mem_nil he).elim⟩

theorem run_prelude (b : Bool) :
    run M .empty (preludeCommands b) = some (Env.empty.declare M optionDatatype) := by
  have hcommand : command? optionCommand = some (.datatype "Option".toList (some "X".toList)
      [("none".toList, []), ("some".toList, [("val".toList, sym "X")])]) := rfl
  have hcs : [("none".toList, []), ("some".toList, [("val".toList, sym "X")])].mapM
      (Env.empty.constructor? (some "X".toList)) = some optionDatatype.constructors := rfl
  have hset : command? (.list [sym "set-option", sym ":produce-models",
    sym (if b then "true" else "false")]) = some .setup := rfl
  rw [preludeCommands, run, show command? (.list [sym "reset"]) = some .reset from rfl,
    Option.bind_some, exec, Option.bind_some, run, hset, Option.bind_some, exec, Option.bind_some,
    run, show command? (.list [sym "set-logic", sym "ALL"]) = some .setup from rfl,
    Option.bind_some, exec, Option.bind_some, run_singleton hcommand, exec, hcs, Option.bind_some]
  exact if_pos canDeclare_option

theorem denotes_prelude (senv : SymEnv) :
    Denotes (fun ety => (EncoderState.init senv).enums.lookup ety) I M (EncoderState.init senv)
      (Env.empty.declare M optionDatatype) := by
  have hentries : ∀ e ∈ (Env.empty.declare M optionDatatype).entries,
      e.name ∈ ["none".toList, "some".toList, "val".toList] := by
    intro e he
    have hname := List.mem_map_of_mem (f := Entry.name) he
    rw [Env.declare, Env.empty, List.append_nil, map_name_entries] at hname
    exact hname
  constructor
  · exact inv_init senv
  · intro ety
    rfl
  · exact coherent_empty.declare canDeclare_option
  · exact List.mem_cons_self
  · intro ty id hid
    cases hid
  · intro f id hid
    cases hid
  · intro t id hid
    cases hid
  · intro e he
    have hname := hentries e he
    simp only [List.mem_cons, List.not_mem_nil, or_false] at hname
    rcases hname with hname | hname | hname <;>
    · rw [hname]
      exact known_of_head (by decide)
  · intro e he heid
    have hname := hentries e he
    rw [heid] at hname
    simp at hname
  · intro f
    constructor
    · intro hf
      cases hf
    · intro hf
      cases hf with
      | inl huuf =>
        obtain ⟨_, _, hid, _⟩ := huuf
        cases hid
      | inr hvar =>
        obtain ⟨_, _, hid, _⟩ := hvar
        cases hid
  · intro d hd
    exact .inl (List.mem_singleton.mp hd)

end CedarSpec.SymCC
