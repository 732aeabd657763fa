import CedarSpec.SmtScript

/-! What the environment of a script says about a symbol: entries of one name never disagree,
whatever has been declared since. -/

namespace SmtLib

variable {M : Model} {env env' : Env} {d d' : Datatype} {e e' : Entry} {name : List Char}

/-! ## Lists -/

theorem findSome?_of_agree {α β : Type} {f : α → Option β} {l : List α} {a : α} {b : β}
    (ha : a ∈ l) (hb : f a = some b) (h : ∀ a' ∈ l, ∀ b', f a' = some b' → b' = b) :
    l.findSome? f = some b := by
  induction l with
  | nil => cases ha
  | cons a' l ih =>
    rw [List.findSome?_cons]
    cases hf : f a' with
    | some b' =>
      rw [h a' List.mem_cons_self b' hf]
    | none =>
      cases List.mem_cons.mp ha with
      | inl heq =>
        rw [← heq, hb] at hf
        cases hf
      | inr hmem => exact ih hmem fun a'' ha'' => h a'' (List.mem_cons_of_mem a' ha'')

theorem find?_of_unique {α β : Type} [DecidableEq β] {f : α → β} {l : List α} {a : α}
    (ha : a ∈ l) (h : ∀ a' ∈ l, f a' = f a → a' = a) :
    l.find? (fun a' => f a' = f a) = some a := by
  induction l with
  | nil => cases ha
  | cons a' l ih =>
    rw [List.find?_cons]
    by_cases heq : f a' = f a
    · rw [h a' List.mem_cons_self heq]
      simp
    · have hmem : a ∈ l := by
        cases List.mem_cons.mp ha with
        | inl hhead => exact (heq (by rw [hhead])).elim
        | inr hmem => exact hmem
      simp only [heq, decide_false]
      exact ih hmem fun a'' ha'' => h a'' (List.mem_cons_of_mem a' ha'')

/-! ## The entries of a datatype -/

theorem Datatype.arg?_data (h : d.parametric = false) : d.arg? (.data d.name) = some .param :=
  if_pos ⟨rfl, h⟩

theorem Datatype.name_of_arg? {s arg arg' : Srt} (h : d.arg? s = some arg)
    (h' : d'.arg? s = some arg') :
    d.name = d'.name := by
  cases s with
  | data n =>
    simp only [arg?, Option.ite_none_right_eq_some] at h h'
    exact h.1.1.symm.trans h'.1.1
  | dataOf n t =>
    simp only [arg?, Option.ite_none_right_eq_some] at h h'
    exact h.1.1.symm.trans h'.1.1
  | _ => cases h

theorem map_mapIdx_const {α β γ : Type} {f : ℕ → α → β} {g : β → γ} {h : α → γ} (l : List α)
    (hf : ∀ i a, g (f i a) = h a) : (l.mapIdx f).map g = l.map h := by
  apply List.ext_getElem?
  intro i
  simp only [List.getElem?_map, List.getElem?_mapIdx, Option.map_map]
  congr 1
  funext a
  exact hf i a

theorem map_name_constructorEntries (M : Model) (d : Datatype) (k : ℕ) (c : Constructor) :
    (d.constructorEntries M k c).map Entry.name = c.name :: c.fields.map Prod.fst := by
  have hfields := map_mapIdx_const (g := Entry.name) (h := Prod.fst)
    (f := fun j field => Datatype.selectorEntry M d k j field) c.fields fun _ _ => rfl
  rw [Datatype.constructorEntries, List.map_cons, hfields]
  rfl

theorem map_name_entries (M : Model) (d : Datatype) :
    (d.entries M).map Entry.name = d.names := by
  have h := map_mapIdx_const (g := List.map Entry.name)
    (h := fun c : Constructor => c.name :: c.fields.map Prod.fst)
    (f := fun k c => d.constructorEntries M k c) d.constructors
    fun k c => map_name_constructorEntries M d k c
  rw [Datatype.entries, List.map_flatten, h, Datatype.names, List.flatMap]

theorem mem_entries : e ∈ d.entries M ↔
    ∃ k c, d.constructors[k]? = some c ∧
      (e = d.constructorEntry k c ∨
        ∃ j field, c.fields[j]? = some field ∧ e = Datatype.selectorEntry M d k j field) := by
  rw [Datatype.entries, List.mem_flatten]
  constructor
  · intro h
    obtain ⟨l, hl, he⟩ := h
    obtain ⟨k, hk, rfl⟩ := List.mem_mapIdx.mp hl
    refine ⟨k, d.constructors[k], List.getElem?_eq_getElem hk, ?_⟩
    cases List.mem_cons.mp he with
    | inl he => exact .inl he
    | inr he =>
      obtain ⟨j, hj, rfl⟩ := List.mem_mapIdx.mp he
      exact .inr ⟨j, _, List.getElem?_eq_getElem hj, rfl⟩
  · intro h
    obtain ⟨k, c, hc, he⟩ := h
    obtain ⟨hk, rfl⟩ := List.getElem?_eq_some_iff.mp hc
    refine ⟨_, List.mem_mapIdx.mpr ⟨k, hk, rfl⟩, ?_⟩
    cases he with
    | inl he => exact List.mem_cons.mpr (.inl he)
    | inr he =>
      obtain ⟨j, field, hfield, rfl⟩ := he
      obtain ⟨hj, rfl⟩ := List.getElem?_eq_some_iff.mp hfield
      exact List.mem_cons_of_mem _ (List.mem_mapIdx.mpr ⟨j, hj, rfl⟩)

/-! ## Coherent environments -/

/-- What keeps the entries of one name apart: only selectors share names, and those belong to
different datatypes. -/
structure Env.Coherent (env : Env) (M : Model) : Prop where
  theory : ∀ e ∈ env.entries, theoryFun e.name = none
  reserved : ∀ d ∈ env.datatypes, d.name ∉ Env.reservedSorts
  entries : ∀ d ∈ env.datatypes, ∀ e ∈ d.entries M, e ∈ env.entries
  sorts : ∀ d ∈ env.datatypes, ∀ d' ∈ env.datatypes, d'.name = d.name → d' = d
  selectors : ∀ e ∈ env.entries, ∀ n, e.selects = some n →
    ∃ d ∈ env.datatypes, d.name = n ∧ ∃ k j field, e = Datatype.selectorEntry M d k j field
  agree : ∀ e ∈ env.entries, ∀ e' ∈ env.entries, e.name = e'.name →
    e = e' ∨ ∃ n n', e.selects = some n ∧ e'.selects = some n' ∧ n ≠ n'

theorem coherent_empty : Env.empty.Coherent M := by
  constructor <;> intro _ h <;> cases h

namespace Env.Coherent

/-- A name that is not shared belongs to one entry. -/
theorem eq_of_name (h : env.Coherent M) (he : e ∈ env.entries) (hsel : e.selects = none)
    (he' : e' ∈ env.entries) (hname : e'.name = e.name) : e' = e := by
  cases h.agree e' he' e he hname with
  | inl heq => exact heq
  | inr hne =>
    obtain ⟨_, n, _, hn, _⟩ := hne
    rw [hsel] at hn
    cases hn

theorem apply_eq (h : env.Coherent M) (he : e ∈ env.entries) {vs : List TypedValue}
    {r : TypedValue} (hr : e.apply vs = some r) : env.apply e.name vs = some r := by
  rw [Env.apply, h.theory e he]
  apply findSome?_of_agree he
  · rw [if_pos rfl, hr]
  · intro e' he' r' hr'
    by_cases hname : e'.name = e.name
    · rw [if_pos hname] at hr'
      cases h.agree e' he' e he hname with
      | inl heq =>
        rw [heq, hr] at hr'
        exact (Option.some.inj hr').symm
      | inr hne =>
        -- selectors of different datatypes do not take the same argument
        obtain ⟨n', n, hn', hn, hdiff⟩ := hne
        obtain ⟨d', _, rfl, k', j', field', rfl⟩ := h.selectors e' he' n' hn'
        obtain ⟨d, _, rfl, k, j, field, rfl⟩ := h.selectors e he n hn
        rcases vs with _ | ⟨⟨s, v⟩, _ | ⟨v', vs⟩⟩
        · cases hr
        · obtain ⟨arg, harg, _⟩ := Option.map_eq_some_iff.mp hr
          obtain ⟨arg', harg', _⟩ := Option.map_eq_some_iff.mp hr'
          exact (hdiff (Datatype.name_of_arg? harg' harg)).elim
        · cases hr
    · rw [if_neg hname] at hr'
      cases hr'

theorem ascribe_eq (h : env.Coherent M) (he : e ∈ env.entries) (hsel : e.selects = none)
    {s : Srt} {v : Value} (hv : e.ascribe s = some v) : env.ascribe e.name s = some v := by
  apply findSome?_of_agree he
  · rw [if_pos rfl, hv]
  · intro e' he' v' hv'
    by_cases hname : e'.name = e.name
    · rw [if_pos hname, h.eq_of_name he hsel he' hname, hv] at hv'
      exact (Option.some.inj hv').symm
    · rw [if_neg hname] at hv'
      cases hv'

theorem test_eq (h : env.Coherent M) (he : e ∈ env.entries) (hsel : e.selects = none)
    {v : TypedValue} {b : Bool} (hb : e.test v = some b) : env.test e.name v = some b := by
  apply findSome?_of_agree he
  · rw [if_pos rfl, hb]
  · intro e' he' b' hb'
    by_cases hname : e'.name = e.name
    · rw [if_pos hname, h.eq_of_name he hsel he' hname, hb] at hb'
      exact (Option.some.inj hb').symm
    · rw [if_neg hname] at hb'
      cases hb'

theorem datatype?_eq (h : env.Coherent M) (hd : d ∈ env.datatypes) :
    env.datatype? d.name = some d :=
  find?_of_unique hd (h.sorts d hd)

/-- Fields of one name belong to one constructor where their datatypes have one sort. -/
theorem field_unique (h : env.Coherent M) {c c' : Constructor} {t t' s arg arg' : Srt}
    (hd : d ∈ env.datatypes) (hc : c ∈ d.constructors) (hfield : (name, t) ∈ c.fields)
    (harg : d.arg? s = some arg) (hd' : d' ∈ env.datatypes) (hc' : c' ∈ d'.constructors)
    (hfield' : (name, t') ∈ c'.fields) (harg' : d'.arg? s = some arg') :
    t.inst arg = t'.inst arg' := by
  have heq := h.sorts d' hd' d hd (Datatype.name_of_arg? harg harg')
  subst heq
  obtain ⟨k, hk⟩ := List.getElem?_of_mem hc
  obtain ⟨k', hk'⟩ := List.getElem?_of_mem hc'
  obtain ⟨j, hj⟩ := List.getElem?_of_mem hfield
  obtain ⟨j', hj'⟩ := List.getElem?_of_mem hfield'
  have he := h.entries d hd _ (mem_entries.mpr ⟨k, c, hk, .inr ⟨j, _, hj, rfl⟩⟩)
  have he' := h.entries d hd _ (mem_entries.mpr ⟨k', c', hk', .inr ⟨j', _, hj', rfl⟩⟩)
  rw [harg, Option.some.injEq] at harg'
  subst harg'
  cases h.agree _ he _ he' rfl with
  | inl hsame =>
    have happly := congrArg (fun e : Entry => e.apply [(s, .bool true)]) hsame
    simp only [Datatype.selectorEntry, harg, Option.map_some, Option.some.injEq] at happly
    exact congrArg Prod.fst happly
  | inr hne =>
    obtain ⟨n, n', hn, hn', hdiff⟩ := hne
    cases hn
    cases hn'
    exact (hdiff rfl).elim

section Declared

variable {k j : ℕ} {c : Constructor} {field : List Char × Srt} {arg s : Srt}

theorem construct (h : env.Coherent M) (hd : d ∈ env.datatypes)
    (hc : d.constructors[k]? = some c) {vs : List TypedValue}
    (harg : d.inferArg c (vs.map Prod.fst) = some arg) (hsorts : vs.map Prod.fst = c.sorts arg) :
    env.apply c.name vs = some (d.sort arg, .con k (vs.map Prod.snd)) := by
  have he := h.entries d hd _ (mem_entries.mpr ⟨k, c, hc, .inl rfl⟩)
  apply h.apply_eq he
  change d.construct k c vs = _
  rw [Datatype.construct, harg, Option.bind_some, if_pos hsorts]

theorem select (h : env.Coherent M) (hd : d ∈ env.datatypes)
    (hc : d.constructors[k]? = some c) (hfield : c.fields[j]? = some field)
    (harg : d.arg? s = some arg) (v : Value) :
    env.apply field.1 [(s, v)] =
      some (field.2.inst arg, v.project k j (M.sel field.1 s v)) := by
  have he := h.entries d hd _ (mem_entries.mpr ⟨k, c, hc, .inr ⟨j, field, hfield, rfl⟩⟩)
  apply h.apply_eq he
  change (d.arg? s).map _ = _
  rw [harg, Option.map_some]

theorem test_constructor (h : env.Coherent M) (hd : d ∈ env.datatypes)
    (hc : d.constructors[k]? = some c) (harg : d.arg? s = some arg) (v : Value) :
    env.test c.name (s, v) = some (decide (v.tag = k)) := by
  have he := h.entries d hd _ (mem_entries.mpr ⟨k, c, hc, .inl rfl⟩)
  apply h.test_eq he rfl
  change (d.arg? s).map _ = _
  rw [harg, Option.map_some]

theorem ascribe_constructor (h : env.Coherent M) (hd : d ∈ env.datatypes)
    (hc : d.constructors[k]? = some c) (hfields : c.fields = []) (harg : d.arg? s = some arg) :
    env.ascribe c.name s = some (.con k []) := by
  have he := h.entries d hd _ (mem_entries.mpr ⟨k, c, hc, .inl rfl⟩)
  apply h.ascribe_eq he rfl
  change (if c.fields = [] then (d.arg? s).map _ else none) = _
  rw [if_pos hfields, harg, Option.map_some]

theorem sort?_data (h : env.Coherent M) (hd : d ∈ env.datatypes) (hpar : d.parametric = false) :
    env.sort? none (.atom d.name) = some (.data d.name) := by
  have hreserved := h.reserved d hd
  have hbool : d.name ≠ "Bool".toList := by
    intro heq
    exact hreserved (by rw [heq, reservedSorts]; exact List.mem_cons_self)
  have hstring : d.name ≠ "String".toList := by
    intro heq
    exact hreserved (by rw [heq, reservedSorts]; exact List.mem_cons_of_mem _ List.mem_cons_self)
  rw [Env.sort?, if_neg (by simp), if_neg hbool, if_neg hstring, h.datatype?_eq hd,
    Option.bind_some, hpar]
  rfl

end Declared

/-! ## Declarations keep an environment coherent -/

theorem addEntry (h : env.Coherent M) (hfree : env.Free e.name) (hsel : e.selects = none) :
    ({ env with entries := e :: env.entries } : Env).Coherent M := by
  obtain ⟨htheory, hfresh⟩ := hfree
  constructor
  · intro e' he'
    cases List.mem_cons.mp he' with
    | inl heq => rwa [heq]
    | inr he' => exact h.theory e' he'
  · exact h.reserved
  · intro d hd e' he'
    exact List.mem_cons_of_mem e (h.entries d hd e' he')
  · exact h.sorts
  · intro e' he' n hn
    cases List.mem_cons.mp he' with
    | inl heq =>
      rw [heq, hsel] at hn
      cases hn
    | inr he' => exact h.selectors e' he' n hn
  · intro e₁ he₁ e₂ he₂ hname
    cases List.mem_cons.mp he₁ with
    | inl heq₁ =>
      cases List.mem_cons.mp he₂ with
      | inl heq₂ => exact .inl (heq₁.trans heq₂.symm)
      | inr he₂ => exact (hfresh e₂ he₂ (by rw [← hname, heq₁])).elim
    | inr he₁ =>
      cases List.mem_cons.mp he₂ with
      | inl heq₂ => exact (hfresh e₁ he₁ (by rw [hname, heq₂])).elim
      | inr he₂ => exact h.agree e₁ he₁ e₂ he₂ hname

theorem addFunction (h : env.Coherent M) {f : Signature} (hfree : env.Free f.name) :
    (env.addFunction M f).Coherent M := by
  have hadd := h.addEntry (e := f.entry (M.fn f.name)) hfree rfl
  exact ⟨hadd.theory, hadd.reserved, hadd.entries, hadd.sorts, hadd.selectors, hadd.agree⟩

theorem define (h : env.Coherent M) {v : TypedValue} (hfree : env.Free name) :
    (env.define name v).Coherent M :=
  h.addEntry (e := Signature.entry ⟨name, [], v.1⟩ fun _ => v.2) hfree rfl

end Env.Coherent

theorem Env.CanDeclare.theory (h : env.CanDeclare d) (he : e ∈ d.entries M) :
    theoryFun e.name = none := by
  obtain ⟨k, c, hc, he⟩ := mem_entries.mp he
  have hmem := List.mem_of_getElem? hc
  cases he with
  | inl he =>
    rw [he]
    exact (h.free c hmem).1
  | inr he =>
    obtain ⟨j, field, hfield, rfl⟩ := he
    exact (h.selectors c hmem field (List.mem_of_getElem? hfield)).1

/-- A new entry shares its name with an old one only where both are selectors. -/
theorem Env.CanDeclare.agree (h : env.CanDeclare d) (hcoh : env.Coherent M)
    (he : e ∈ d.entries M) (he' : e' ∈ env.entries) (hname : e'.name = e.name) :
    ∃ n n', e.selects = some n ∧ e'.selects = some n' ∧ n ≠ n' := by
  obtain ⟨k, c, hc, he⟩ := mem_entries.mp he
  have hmem := List.mem_of_getElem? hc
  cases he with
  | inl he =>
    rw [he] at hname
    exact ((h.free c hmem).2 e' he' hname).elim
  | inr he =>
    obtain ⟨j, field, hfield, rfl⟩ := he
    have hsel := (h.selectors c hmem field (List.mem_of_getElem? hfield)).2 e' he' hname
    obtain ⟨n', hn'⟩ := Option.isSome_iff_exists.mp hsel
    obtain ⟨d', hd', rfl, _⟩ := hcoh.selectors e' he' n' hn'
    exact ⟨d.name, d'.name, rfl, hn', fun heq => h.sort.2 d' hd' heq.symm⟩

theorem Env.Coherent.declare (h : env.Coherent M) (hcan : env.CanDeclare d) :
    (env.declare M d).Coherent M := by
  constructor
  · intro e he
    cases List.mem_append.mp he with
    | inl he => exact hcan.theory he
    | inr he => exact h.theory e he
  · intro d' hd'
    cases List.mem_cons.mp hd' with
    | inl heq =>
      rw [heq]
      exact hcan.sort.1
    | inr hd' => exact h.reserved d' hd'
  · intro d' hd' e he
    apply List.mem_append.mpr
    cases List.mem_cons.mp hd' with
    | inl heq => exact .inl (by rwa [← heq])
    | inr hd' => exact .inr (h.entries d' hd' e he)
  · intro d₁ hd₁ d₂ hd₂ hname
    cases List.mem_cons.mp hd₁ with
    | inl heq₁ =>
      cases List.mem_cons.mp hd₂ with
      | inl heq₂ => exact heq₂.trans heq₁.symm
      | inr hd₂ => exact (hcan.sort.2 d₂ hd₂ (by rw [hname, heq₁])).elim
    | inr hd₁ =>
      cases List.mem_cons.mp hd₂ with
      | inl heq₂ => exact (hcan.sort.2 d₁ hd₁ (by rw [← hname, heq₂])).elim
      | inr hd₂ => exact h.sorts d₁ hd₁ d₂ hd₂ hname
  · intro e he n hn
    cases List.mem_append.mp he with
    | inl he =>
      refine ⟨d, List.mem_cons_self, ?_⟩
      obtain ⟨k, c, hc, he⟩ := mem_entries.mp he
      cases he with
      | inl he =>
        rw [he] at hn
        cases hn
      | inr he =>
        obtain ⟨j, field, hfield, rfl⟩ := he
        exact ⟨Option.some.inj hn, k, j, field, rfl⟩
    | inr he =>
      obtain ⟨d', hd', hname, hform⟩ := h.selectors e he n hn
      exact ⟨d', List.mem_cons_of_mem d hd', hname, hform⟩
  · intro e he e' he' hname
    cases List.mem_append.mp he with
    | inl he =>
      cases List.mem_append.mp he' with
      | inl he' =>
        have hnodup := hcan.nodup
        rw [← map_name_entries M d] at hnodup
        exact .inl (List.inj_on_of_nodup_map hnodup he he' hname)
      | inr he' => exact .inr (hcan.agree h he he' hname.symm)
    | inr he =>
      cases List.mem_append.mp he' with
      | inl he' =>
        obtain ⟨n, n', hn, hn', hne⟩ := hcan.agree h he' he hname
        exact .inr ⟨n', n, hn', hn, hne.symm⟩
      | inr he' => exact h.agree e he e' he' hname

/-- Accepted commands keep the environment coherent. -/
theorem exec_coherent {c : Command} (h : env.Coherent M) (hexec : exec M env c = some env') :
    env'.Coherent M := by
  cases c with
  | reset =>
    cases hexec
    exact coherent_empty
  | setup =>
    cases hexec
    exact h
  | datatype name param cs =>
    obtain ⟨constructors, _, hexec⟩ := Option.bind_eq_some_iff.mp hexec
    obtain ⟨hcan, hexec⟩ := Option.ite_none_right_eq_some.mp hexec
    cases hexec
    exact h.declare hcan
  | function name dom out =>
    obtain ⟨dom, _, hexec⟩ := Option.bind_eq_some_iff.mp hexec
    obtain ⟨out, _, hexec⟩ := Option.bind_eq_some_iff.mp hexec
    obtain ⟨hfree, hexec⟩ := Option.ite_none_right_eq_some.mp hexec
    cases hexec
    exact h.addFunction hfree
  | define name sort body =>
    obtain ⟨s, _, hexec⟩ := Option.bind_eq_some_iff.mp hexec
    obtain ⟨v, _, hexec⟩ := Option.bind_eq_some_iff.mp hexec
    obtain ⟨hfree, hexec⟩ := Option.ite_none_right_eq_some.mp hexec
    cases hexec
    exact h.define hfree.1
  | assert e =>
    obtain ⟨v, _, hexec⟩ := Option.bind_eq_some_iff.mp hexec
    obtain ⟨_, hexec⟩ := Option.ite_none_right_eq_some.mp hexec
    cases hexec
    exact ⟨h.theory, h.reserved, h.entries, h.sorts, h.selectors, h.agree⟩

theorem run_coherent {script : List SExp} (h : env.Coherent M)
    (hrun : run M env script = some env') : env'.Coherent M := by
  induction script generalizing env with
  | nil =>
    cases hrun
    exact h
  | cons e script ih =>
    obtain ⟨c, _, hrun⟩ := Option.bind_eq_some_iff.mp hrun
    obtain ⟨env₁, hexec, hrun⟩ := Option.bind_eq_some_iff.mp hrun
    exact ih (exec_coherent h hexec) hrun

end SmtLib
