import CedarSpec.TermMeaning

/-! The datatypes that the encoder declares, and why no name is declared twice. -/

namespace CedarSpec.SymCC

open SmtLib Encoder

/-! ## Sorts and datatypes -/

namespace EncoderState

/-- The sort of a type by the tables. -/
def srt (st : EncoderState) : TermType → Srt
  | .prim .bool => .bool
  | .prim .string => .string
  | .prim (.bitvec n) => .bitvec n
  | .option ty => .dataOf "Option".toList (st.srt ty)
  | .set ty => .set (st.srt ty)
  | .prim (.entity ety) => .data (st.typeId (.entity ety)).toList
  | .prim (.ext xty) => .data (st.typeId (.ext xty)).toList
  | .record rty => .data (st.typeId (.record rty)).toList

end EncoderState

def optionDatatype : Datatype :=
  ⟨"Option".toList, true, [⟨"none".toList, []⟩, ⟨"some".toList, [("val".toList, .param)]⟩]⟩

/-- A datatype with one constructor of its name and one field. -/
def wrapper (name sel : String) : Datatype :=
  ⟨name.toList, false, [⟨name.toList, [(sel.toList, .bitvec 64)]⟩]⟩

def ipAddrDatatype : Datatype :=
  ⟨"IPAddr".toList, false,
    [⟨"V4".toList, [("addrV4".toList, .bitvec 32),
        ("prefixV4".toList, .dataOf "Option".toList (.bitvec 5))]⟩,
     ⟨"V6".toList, [("addrV6".toList, .bitvec 128),
        ("prefixV6".toList, .dataOf "Option".toList (.bitvec 7))]⟩]⟩

def extDatatype : ExtType → Datatype
  | .decimal => wrapper "Decimal" "decimalVal"
  | .ipAddr => ipAddrDatatype
  | .datetime => wrapper "Datetime" "datetimeVal"
  | .duration => wrapper "Duration" "durationVal"

def memberConstructors (id : String) (members : List String) : List Constructor :=
  members.mapIdx fun i _ => ⟨(enumId id i).toList, []⟩

def entityDatatype (id : String) : Option (List String) → Datatype
  | some members => ⟨id.toList, false, memberConstructors id members⟩
  | none => ⟨id.toList, false, [⟨id.toList, [("eid".toList, .string)]⟩]⟩

namespace EncoderState

def fieldsOf (st : EncoderState) (id : String) (rty : List (String × TermType)) :
    List (List Char × Srt) :=
  rty.mapIdx fun i field => ((recordAttrId id i).toList, st.srt field.2)

def recordDatatype (st : EncoderState) (id : String) (rty : List (String × TermType)) : Datatype :=
  ⟨id.toList, false, [⟨id.toList, st.fieldsOf id rty⟩]⟩

/-- The datatype of an entry in the table of types. -/
def datatypeOf (st : EncoderState) (id : String) : TermType → Datatype
  | .prim (.entity ety) => entityDatatype id (st.enums.lookup ety)
  | .prim (.ext xty) => extDatatype xty
  | .record rty => st.recordDatatype id rty
  | _ => optionDatatype

end EncoderState

variable {st st' : EncoderState} {env : Env} {M : Model} {n i : ℕ} {s : String}

theorem inst_srt (arg : Srt) (ty : TermType) : (st.srt ty).inst arg = st.srt ty := by
  induction ty using TermType.induct with
  | prim pty => cases pty <;> rfl
  | option ty ih => rw [EncoderState.srt, Srt.inst, ih]
  | set ty ih => rw [EncoderState.srt, Srt.inst, ih]
  | record rty ih => rfl

theorem Extends.srt (h : Extends st st') (ty : TermType) (hty : st.CoversType ty) :
    st'.srt ty = st.srt ty := by
  induction ty using TermType.induct with
  | prim pty =>
    cases pty with
    | bool => rfl
    | bitvec n => rfl
    | string => rfl
    | entity ety => rw [EncoderState.srt, EncoderState.srt, h.typeId hty]
    | ext xty => rw [EncoderState.srt, EncoderState.srt, h.typeId hty]
  | option ty ih => rw [EncoderState.srt, EncoderState.srt, ih hty]
  | set ty ih => rw [EncoderState.srt, EncoderState.srt, ih hty]
  | record rty ih => rw [EncoderState.srt, EncoderState.srt, h.typeId hty]

theorem Extends.fieldsOf (h : Extends st st') {rty : List (String × TermType)}
    (hrty : ∀ field ∈ rty, st.CoversType field.2) (id : String) :
    st'.fieldsOf id rty = st.fieldsOf id rty := by
  apply List.ext_getElem?
  intro i
  rw [EncoderState.fieldsOf, EncoderState.fieldsOf, List.getElem?_mapIdx, List.getElem?_mapIdx]
  cases hi : rty[i]? with
  | none => rfl
  | some field =>
    rw [Option.map_some, Option.map_some, h.srt _ (hrty field (List.mem_of_getElem? hi))]

/-- Later entries leave the datatype of an entry as it is. -/
theorem Extends.datatypeOf (h : Extends st st') {ty : TermType} {id : String}
    (hty : st.TypeEntry ty id) : st'.datatypeOf id ty = st.datatypeOf id ty := by
  cases ty with
  | prim pty =>
    cases pty with
    | entity ety => rw [EncoderState.datatypeOf, EncoderState.datatypeOf, h.enums]
    | ext xty => rfl
    | _ => exact hty.elim
  | record rty =>
    rw [EncoderState.datatypeOf, EncoderState.datatypeOf, EncoderState.recordDatatype,
      EncoderState.recordDatatype, h.fieldsOf hty.2]
  | _ => exact hty.elim

theorem name_datatypeOf {ty : TermType} {id : String} (hty : st.TypeEntry ty id) :
    (st.datatypeOf id ty).name = id.toList ∧ (st.datatypeOf id ty).parametric = false := by
  cases ty with
  | prim pty =>
    cases pty with
    | entity ety =>
      rw [EncoderState.datatypeOf]
      cases st.enums.lookup ety with
      | some members => exact ⟨rfl, rfl⟩
      | none => exact ⟨rfl, rfl⟩
    | ext xty =>
      cases hty
      cases xty <;> exact ⟨rfl, rfl⟩
    | _ => exact hty.elim
  | record rty => exact ⟨rfl, rfl⟩
  | _ => exact hty.elim

/-! ## Identifiers -/

/-- The number behind the first character of a name. -/
def nameIndex (name : List Char) : ℕ := Nat.ofDigitChars 10 (name.tail.takeWhile Char.isDigit) 0

theorem toList_termId (n : ℕ) : (termId n).toList = 't' :: Nat.toDigits 10 n := by
  simp [termId, toString_self]

theorem toList_uufId (n : ℕ) : (uufId n).toList = 'f' :: Nat.toDigits 10 n := by
  simp [uufId, toString_self]

theorem toList_entityTypeId (n : ℕ) : (entityTypeId n).toList = 'E' :: Nat.toDigits 10 n := by
  simp [entityTypeId, toString_self]

theorem toList_recordTypeId (n : ℕ) : (recordTypeId n).toList = 'R' :: Nat.toDigits 10 n := by
  simp [recordTypeId, toString_self]

theorem toList_enumId (s : String) (i : ℕ) :
    (enumId s i).toList = s.toList ++ '_' :: 'm' :: Nat.toDigits 10 i := by
  simp [enumId, toString_self]

theorem toList_recordAttrId (s : String) (i : ℕ) :
    (recordAttrId s i).toList = s.toList ++ '_' :: 'a' :: Nat.toDigits 10 i := by
  simp [recordAttrId, toString_self]

theorem all_isDigit_toDigits (n : ℕ) : ∀ c ∈ Nat.toDigits 10 n, c.isDigit :=
  fun _ hc => Text.isDigit_toDigits hc

theorem nameIndex_digits (c : Char) (n : ℕ) : nameIndex (c :: Nat.toDigits 10 n) = n := by
  rw [nameIndex, List.tail_cons, List.takeWhile_eq_self_iff.mpr (all_isDigit_toDigits n),
    Nat.ofDigitChars_ten_toDigits]

theorem nameIndex_digits_append (c : Char) (n : ℕ) (rest : List Char) :
    nameIndex (c :: Nat.toDigits 10 n ++ '_' :: rest) = n := by
  rw [nameIndex, List.cons_append, List.tail_cons,
    List.takeWhile_append_of_pos (all_isDigit_toDigits n),
    List.takeWhile_cons_of_neg (by decide), List.append_nil, Nat.ofDigitChars_ten_toDigits]

theorem toDigits_injective : Function.Injective (Nat.toDigits 10) := by
  intro m n h
  rw [← Nat.ofDigitChars_ten_toDigits (n := m), h, Nat.ofDigitChars_ten_toDigits]

theorem enumId_injective (s : String) : Function.Injective (enumId s) := by
  intro i j h
  have hlist := congrArg String.toList h
  rw [toList_enumId, toList_enumId, List.append_cancel_left_eq] at hlist
  exact toDigits_injective (List.cons.inj (List.cons.inj hlist).2).2

theorem recordAttrId_injective (s : String) : Function.Injective (recordAttrId s) := by
  intro i j h
  have hlist := congrArg String.toList h
  rw [toList_recordAttrId, toList_recordAttrId, List.append_cancel_left_eq] at hlist
  exact toDigits_injective (List.cons.inj (List.cons.inj hlist).2).2

/-- No symbol of a theory ends with a digit. -/
theorem theoryFun_of_digits (name : List Char) (n : ℕ) :
    theoryFun (name ++ Nat.toDigits 10 n) = none := by
  have hlast : ∀ entry ∈ theory, entry.1.getLast?.all fun c => !c.isDigit := by
    unfold theory
    simp only [List.forall_mem_cons, List.not_mem_nil, false_implies, implies_true, and_true]
    decide
  rw [theoryFun, List.lookup_eq_none_iff]
  intro entry hentry
  have hentry := hlast entry hentry
  rw [bne_iff_ne]
  intro heq
  have hne : Nat.toDigits 10 n ≠ [] := Nat.toDigits_ne_nil
  have hdigit := all_isDigit_toDigits n _ (List.getLast_mem hne)
  rw [← heq, List.getLast?_append_of_ne_nil _ hne, List.getLast?_eq_getLast_of_ne_nil hne] at hentry
  simp [hdigit] at hentry

/-! ## Names that are known -/

def extNames (xty : ExtType) : List (List Char) := (extDatatype xty).name :: (extDatatype xty).names

/-- The name may have been declared: where it counts terms, functions or types, it counts one
of those in the tables. -/
structure EncoderState.Known (st : EncoderState) (name : List Char) : Prop where
  term : name.head? = some 't' → nameIndex name < st.terms.size
  uuf : name.head? = some 'f' → nameIndex name < st.uufs.size
  type : name.head? = some 'E' ∨ name.head? = some 'R' → nameIndex name < st.types.size
  ext : ∀ xty, name ∈ extNames xty → TermType.ext xty ∈ st.types

theorem Extends.known (h : Extends st st') {name : List Char} (hname : st.Known name) :
    st'.Known name :=
  ⟨fun hhead => (hname.term hhead).trans_le h.termNum,
    fun hhead => (hname.uuf hhead).trans_le h.uufNum,
    fun hhead => (hname.type hhead).trans_le h.typeNum,
    fun xty hmem => h.mem_types (hname.ext xty hmem)⟩

theorem head?_extNames {xty : ExtType} {name : List Char} (h : name ∈ extNames xty) :
    ∃ c ∈ ['D', 'd', 'I', 'V', 'a', 'p'], name.head? = some c := by
  have hall : ∀ name ∈ extNames xty, ∃ c ∈ ['D', 'd', 'I', 'V', 'a', 'p'], name.head? = some c := by
    cases xty <;>
    simp [extNames, extDatatype, wrapper, ipAddrDatatype, Datatype.names]
  exact hall name h

theorem notMem_extNames {c : Char} {rest : List Char} (h : c ∉ ['D', 'd', 'I', 'V', 'a', 'p'])
    (xty : ExtType) : c :: rest ∉ extNames xty := by
  intro hmem
  obtain ⟨c', hc', hhead⟩ := head?_extNames hmem
  cases hhead
  exact h hc'

/-- A name that counts nothing. -/
theorem known_of_head {c : Char} {rest : List Char}
    (h : c ∉ ['t', 'f', 'E', 'R', 'D', 'd', 'I', 'V', 'a', 'p']) : st.Known (c :: rest) := by
  simp only [List.mem_cons, not_or] at h
  obtain ⟨ht, hf, hE, hR, hext⟩ := h
  constructor
  · intro hhead
    exact (ht (Option.some.inj hhead)).elim
  · intro hhead
    exact (hf (Option.some.inj hhead)).elim
  · intro hhead
    cases hhead with
    | inl hhead => exact (hE (Option.some.inj hhead)).elim
    | inr hhead => exact (hR (Option.some.inj hhead)).elim
  · intro xty hmem
    exact (notMem_extNames (by simpa [not_or] using hext) xty hmem).elim

theorem known_termId (h : n < st.terms.size) : st.Known (termId n).toList := by
  rw [toList_termId]
  constructor
  · intro _
    rwa [nameIndex_digits]
  · intro hhead
    cases hhead
  · intro hhead
    simp at hhead
  · intro xty hmem
    exact (notMem_extNames (by decide) xty hmem).elim

theorem known_uufId (h : n < st.uufs.size) : st.Known (uufId n).toList := by
  rw [toList_uufId]
  constructor
  · intro hhead
    cases hhead
  · intro _
    rwa [nameIndex_digits]
  · intro hhead
    simp at hhead
  · intro xty hmem
    exact (notMem_extNames (by decide) xty hmem).elim

theorem known_typeName {c : Char} {rest : List Char} (hc : c = 'E' ∨ c = 'R')
    (h : nameIndex (c :: rest) < st.types.size) : st.Known (c :: rest) := by
  constructor
  · intro hhead
    cases hhead
    cases hc <;> contradiction
  · intro hhead
    cases hhead
    cases hc <;> contradiction
  · intro _
    exact h
  · intro xty hmem
    refine (notMem_extNames ?_ xty hmem).elim
    cases hc with
    | inl hc =>
      rw [hc]
      decide
    | inr hc =>
      rw [hc]
      decide

theorem known_entityTypeId (h : n < st.types.size) : st.Known (entityTypeId n).toList := by
  rw [toList_entityTypeId]
  exact known_typeName (.inl rfl) (by rwa [nameIndex_digits])

theorem known_recordTypeId (h : n < st.types.size) : st.Known (recordTypeId n).toList := by
  rw [toList_recordTypeId]
  exact known_typeName (.inr rfl) (by rwa [nameIndex_digits])

theorem known_enumId (h : n < st.types.size) (i : ℕ) :
    st.Known (enumId (entityTypeId n) i).toList := by
  rw [toList_enumId, toList_entityTypeId]
  apply known_typeName (.inl rfl)
  rwa [List.append_eq, ← List.cons_append, nameIndex_digits_append]

theorem known_recordAttrId (h : n < st.types.size) (i : ℕ) :
    st.Known (recordAttrId (recordTypeId n) i).toList := by
  rw [toList_recordAttrId, toList_recordTypeId]
  apply known_typeName (.inr rfl)
  rwa [List.append_eq, ← List.cons_append, nameIndex_digits_append]

theorem known_ext {xty : ExtType} (h : TermType.ext xty ∈ st.types) {name : List Char}
    (hname : name ∈ extNames xty) : st.Known name := by
  obtain ⟨c, hc, hhead⟩ := head?_extNames hname
  constructor
  · intro hhead'
    rw [hhead', Option.some.injEq] at hhead
    subst hhead
    simp at hc
  · intro hhead'
    rw [hhead', Option.some.injEq] at hhead
    subst hhead
    simp at hc
  · intro hhead'
    rw [hhead, Option.some.injEq, Option.some.injEq] at hhead'
    cases hhead' with
    | inl heq =>
      subst heq
      simp at hc
    | inr heq =>
      subst heq
      simp at hc
  · intro xty' hname'
    have hsame : xty' = xty := by
      have hall : ∀ xty xty', ∀ name ∈ extNames xty, name ∈ extNames xty' → xty' = xty := by
        intro xty xty'
        cases xty <;> cases xty' <;>
        simp [extNames, extDatatype, wrapper, ipAddrDatatype, Datatype.names]
      exact hall xty xty' name hname hname'
    rwa [hsame]

/-! ## The names of datatypes -/

theorem names_memberConstructors {id : String} {members : List String} {name : List Char}
    (h : name ∈ (entityDatatype id (some members)).names) : ∃ i, name = (enumId id i).toList := by
  obtain ⟨c, hc, hname⟩ := List.mem_flatMap.mp h
  obtain ⟨i, _, rfl⟩ := List.mem_mapIdx.mp hc
  exact ⟨i, by simpa using hname⟩

theorem names_recordDatatype {id : String} {rty : List (String × TermType)} {name : List Char}
    (h : name ∈ (st.recordDatatype id rty).names) :
    name = id.toList ∨ ∃ i, name = (recordAttrId id i).toList := by
  have h : name = id.toList ∨ name ∈ (st.fieldsOf id rty).map Prod.fst := by
    simpa [EncoderState.recordDatatype, Datatype.names] using h
  cases h with
  | inl h => exact .inl h
  | inr h =>
    obtain ⟨field, hfield, rfl⟩ := List.mem_map.mp h
    obtain ⟨i, _, rfl⟩ := List.mem_mapIdx.mp hfield
    exact .inr ⟨i, rfl⟩

/-- The names that an entry in the table of types declares are known from then on. -/
theorem known_datatypeOf {ty : TermType} {id : String} (hty : st.TypeEntry ty id)
    (hmem : ty ∈ st.types) {name : List Char}
    (hname : name = (st.datatypeOf id ty).name ∨ name ∈ (st.datatypeOf id ty).names) :
    st.Known name := by
  cases ty with
  | prim pty =>
    cases pty with
    | entity ety =>
      obtain ⟨n, hn, rfl⟩ := hty
      rw [EncoderState.datatypeOf] at hname
      cases hmembers : st.enums.lookup ety with
      | some members =>
        rw [hmembers] at hname
        cases hname with
        | inl hname =>
          rw [hname]
          exact known_entityTypeId hn
        | inr hname =>
          obtain ⟨i, rfl⟩ := names_memberConstructors hname
          exact known_enumId hn i
      | none =>
        rw [hmembers] at hname
        have hname : name = (entityTypeId n).toList ∨ name = "eid".toList := by
          simpa [entityDatatype, Datatype.names] using hname
        cases hname with
        | inl hname =>
          rw [hname]
          exact known_entityTypeId hn
        | inr hname =>
          rw [hname]
          exact known_of_head (by decide)
    | ext xty =>
      apply known_ext hmem
      cases hname with
      | inl hname =>
        rw [hname]
        exact List.mem_cons_self
      | inr hname => exact List.mem_cons_of_mem _ hname
    | _ => exact hty.elim
  | record rty =>
    obtain ⟨⟨n, hn, rfl⟩, _⟩ := hty
    cases hname with
    | inl hname =>
      rw [hname]
      exact known_recordTypeId hn
    | inr hname =>
      cases names_recordDatatype hname with
      | inl hname =>
        rw [hname]
        exact known_recordTypeId hn
      | inr hname =>
        obtain ⟨i, rfl⟩ := hname
        exact known_recordAttrId hn i
  | _ => exact hty.elim

theorem nodup_mapIdx {α β : Type} {f : ℕ → α → β} (l : List α)
    (hf : ∀ i j a b, f i a = f j b → i = j) : (l.mapIdx f).Nodup := by
  rw [List.mapIdx_eq_zipIdx_map]
  apply List.Nodup.map_on
  · intro p hp q hq heq
    have hidx := hf _ _ _ _ heq
    have hp := List.mem_zipIdx_iff_getElem?.mp hp
    have hq := List.mem_zipIdx_iff_getElem?.mp hq
    rw [hidx, hq] at hp
    exact Prod.ext (Option.some.inj hp).symm hidx
  · exact List.Nodup.of_map Prod.snd (by simp [List.nodup_range'])

end CedarSpec.SymCC
