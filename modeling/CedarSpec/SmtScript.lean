import CedarSpec.SmtTheory

/-! Scripts: what their commands declare and define under a model, and when a script is
satisfiable. -/

namespace SmtLib

/-! ## Datatypes -/

structure Constructor where
  name : List Char
  fields : List (List Char × Srt)

/-- A datatype with at most one parameter. -/
structure Datatype where
  name : List Char
  parametric : Bool
  constructors : List Constructor

def Constructor.sorts (c : Constructor) (arg : Srt) : List Srt :=
  c.fields.map fun field => field.2.inst arg

namespace Datatype

def sort (d : Datatype) (arg : Srt) : Srt :=
  if d.parametric then .dataOf d.name arg else .data d.name

/-- The argument of a sort of the datatype. -/
def arg? (d : Datatype) : Srt → Option Srt
  | .data name => if name = d.name ∧ d.parametric = false then some .param else none
  | .dataOf name s => if name = d.name ∧ d.parametric then some s else none
  | _ => none

/-- What the parameter has to be for arguments of these sorts. -/
def inferArg (d : Datatype) (c : Constructor) (sorts : List Srt) : Option Srt :=
  if d.parametric then
    ((c.fields.map Prod.snd).zip sorts).findSome? fun pair => pair.1.arg? pair.2
  else some .param

def construct (d : Datatype) (k : ℕ) (c : Constructor) : TheoryFun := fun vs =>
  (d.inferArg c (vs.map Prod.fst)).bind fun arg =>
    if vs.map Prod.fst = c.sorts arg then some (d.sort arg, .con k (vs.map Prod.snd)) else none

end Datatype

/-! ## Environments -/

/-- What the symbols of a script stand for. A selector also has values where its argument
belongs to another constructor. -/
structure Model where
  fn : List Char → List Value → Value
  sel : List Char → Srt → Value → Value

structure Signature where
  name : List Char
  dom : List Srt
  out : Srt

/-- A declared or defined function. Selectors of different datatypes may share a name. -/
structure Entry where
  name : List Char
  apply : TheoryFun
  ascribe : Srt → Option Value
  test : TypedValue → Option Bool
  selects : Option (List Char)

structure Env where
  datatypes : List Datatype
  functions : List Signature
  entries : List Entry
  holds : Bool

def Env.empty : Env := ⟨[], [], [], true⟩

def Signature.entry (f : Signature) (value : List Value → Value) : Entry where
  name := f.name
  apply vs := if vs.map Prod.fst = f.dom then some (f.out, value (vs.map Prod.snd)) else none
  ascribe s := if f.dom = [] ∧ s = f.out then some (value []) else none
  test _ := none
  selects := none

namespace Datatype

def constructorEntry (d : Datatype) (k : ℕ) (c : Constructor) : Entry where
  name := c.name
  apply := d.construct k c
  ascribe s := if c.fields = [] then (d.arg? s).map fun _ => .con k [] else none
  test v := (d.arg? v.1).map fun _ => decide (v.2.tag = k)
  selects := none

def selectorEntry (M : Model) (d : Datatype) (k j : ℕ) (field : List Char × Srt) : Entry where
  name := field.1
  apply vs :=
    match vs with
    | [(s, v)] => (d.arg? s).map fun arg => (field.2.inst arg, v.project k j (M.sel field.1 s v))
    | _ => none
  ascribe _ := none
  test _ := none
  selects := some d.name

def constructorEntries (M : Model) (d : Datatype) (k : ℕ) (c : Constructor) : List Entry :=
  d.constructorEntry k c :: c.fields.mapIdx fun j field => selectorEntry M d k j field

def entries (M : Model) (d : Datatype) : List Entry :=
  (d.constructors.mapIdx fun k c => d.constructorEntries M k c).flatten

/-- The names of the constructors and selectors. -/
def names (d : Datatype) : List (List Char) :=
  d.constructors.flatMap fun c => c.name :: c.fields.map Prod.fst

def constructorNames (d : Datatype) : List (List Char) := d.constructors.map Constructor.name

def selectorNames (d : Datatype) : List (List Char) :=
  d.constructors.flatMap fun c => c.fields.map Prod.fst

end Datatype

namespace Env

noncomputable def apply (env : Env) (name : List Char) (vs : List TypedValue) :
    Option TypedValue :=
  match theoryFun name with
  | some f => f vs
  | none => env.entries.findSome? fun e => if e.name = name then e.apply vs else none

def ascribe (env : Env) (name : List Char) (s : Srt) : Option Value :=
  env.entries.findSome? fun e => if e.name = name then e.ascribe s else none

def test (env : Env) (name : List Char) (v : TypedValue) : Option Bool :=
  env.entries.findSome? fun e => if e.name = name then e.test v else none

def datatype? (env : Env) (name : List Char) : Option Datatype :=
  env.datatypes.find? fun d => d.name = name

/-- The sort of an expression, where a parameter may stand. -/
def sort? (env : Env) (param : Option (List Char)) : SExp → Option Srt
  | .atom a =>
    if param = some a then some .param
    else if a = "Bool".toList then some .bool
    else if a = "String".toList then some .string
    else (env.datatype? a).bind fun d => if d.parametric then none else some (.data a)
  | .list [.atom u, .atom b, .atom n] =>
    if u = "_".toList ∧ b = "BitVec".toList then
      (numeral? n).bind fun n => if 0 < n then some (.bitvec n) else none
    else none
  | .list [.atom c, e] =>
    (env.sort? param e).bind fun s =>
      if c = "Set".toList then some (.set s)
      else (env.datatype? c).bind fun d => if d.parametric then some (.dataOf c s) else none
  | _ => none

/-! ## Terms -/

def bvLiteral : List SExp → Option TypedValue
  | [.atom ('b' :: 'v' :: ds), .atom n] =>
    (numeral? ds).bind fun x => (numeral? n).bind fun n =>
      if 0 < n then some (.bitvec n, .bitvec n (BitVec.ofNat n x)) else none
  | _ => none

/-- A symbol with its sort. -/
def ascribed (env : Env) : List SExp → Option TypedValue
  | [.atom c, e] =>
    (env.sort? none e).bind fun s =>
      if c = "set.empty".toList then
        match s with
        | .set t => some (.set t, .set [])
        | _ => none
      else (env.ascribe c s).map fun v => (s, v)
  | _ => none

open Classical in
noncomputable def inRe (args : List SExp) (vs : List (Option TypedValue)) : Option TypedValue :=
  match args, vs with
  | [_, re], some (.string, v) :: _ =>
    (language? re).map fun l => (.bool, .bool (decide (v.text ∈ l)))
  | _, _ => none

def indexed (env : Env) (f x : List Char) (vs : List TypedValue) : Option TypedValue :=
  if f = "is".toList then
    match vs with
    | [v] => (env.test x v).map fun b => (.bool, .bool b)
    | _ => none
  else if f = "zero_extend".toList then (numeral? x).bind fun i => zeroExtend i vs
  else none

/-- The value of a compound term, with those of its parts. -/
noncomputable def form (env : Env) (es : List SExp) (vs : List (Option TypedValue)) :
    Option TypedValue :=
  match es, vs with
  | .atom f :: args, _ :: vs =>
    if f = "_".toList then bvLiteral args
    else if f = "as".toList then env.ascribed args
    else if f = "str.in_re".toList then inRe args vs
    else (vs.mapM id).bind (env.apply f)
  | .list [.atom u, .atom f, .atom x] :: _, _ :: vs =>
    if u = "_".toList then (vs.mapM id).bind (env.indexed f x) else none
  | _, _ => none

mutual

noncomputable def eval (env : Env) : SExp → Option TypedValue
  | .atom a => env.apply a []
  | .str s => (unescape s).map fun t => (.string, .str t)
  | .list es => env.form es (env.evals es)

noncomputable def evals (env : Env) : List SExp → List (Option TypedValue)
  | [] => []
  | e :: es => env.eval e :: env.evals es

end

theorem evals_eq_map (env : Env) (es : List SExp) : env.evals es = es.map env.eval := by
  induction es with
  | nil => rfl
  | cons e es ih => rw [evals, ih, List.map_cons]

/-! ## Declarations -/

/-- The sorts of the theories. -/
def reservedSorts : List (List Char) :=
  ["Bool".toList, "String".toList, "Set".toList, "BitVec".toList, "RegLan".toList]

/-- A name that is neither one of the theories nor declared. -/
def Free (env : Env) (name : List Char) : Prop :=
  theoryFun name = none ∧ ∀ e ∈ env.entries, e.name ≠ name

/-- A name that may be declared as a selector. -/
def SelectorFree (env : Env) (name : List Char) : Prop :=
  theoryFun name = none ∧ ∀ e ∈ env.entries, e.name = name → e.selects.isSome

def SortFree (env : Env) (name : List Char) : Prop :=
  name ∉ reservedSorts ∧ ∀ d ∈ env.datatypes, d.name ≠ name

structure CanDeclare (env : Env) (d : Datatype) : Prop where
  sort : env.SortFree d.name
  constructors : d.constructors ≠ []
  nodup : d.names.Nodup
  free : ∀ c ∈ d.constructors, env.Free c.name
  selectors : ∀ c ∈ d.constructors, ∀ field ∈ c.fields, env.SelectorFree field.1

def declare (env : Env) (M : Model) (d : Datatype) : Env :=
  { env with datatypes := d :: env.datatypes, entries := d.entries M ++ env.entries }

def addFunction (env : Env) (M : Model) (f : Signature) : Env :=
  { env with
    functions := f :: env.functions, entries := f.entry (M.fn f.name) :: env.entries }

def define (env : Env) (name : List Char) (v : TypedValue) : Env :=
  { env with entries := Signature.entry ⟨name, [], v.1⟩ (fun _ => v.2) :: env.entries }

end Env

/-! ## Commands -/

abbrev FieldDecl := List Char × SExp
abbrev ConstructorDecl := List Char × List FieldDecl

inductive Command where
  | reset
  | setup
  | datatype (name : List Char) (param : Option (List Char)) (constructors : List ConstructorDecl)
  | function (name : List Char) (dom : List SExp) (out : SExp)
  | define (name : List Char) (sort body : SExp)
  | assert (e : SExp)

def fieldDecl? : SExp → Option FieldDecl
  | .list [.atom sel, sort] => some (sel, sort)
  | _ => none

def constructorDecl? : SExp → Option ConstructorDecl
  | .list (.atom name :: fields) => (fields.mapM fieldDecl?).map fun fields => (name, fields)
  | _ => none

def datatypeCommand? (name : List Char) : List SExp → Option Command
  | [.atom par, .list [.atom x], .list cs] =>
    if par = "par".toList then
      (cs.mapM constructorDecl?).map fun cs => .datatype name (some x) cs
    else none
  | cs => (cs.mapM constructorDecl?).map fun cs => .datatype name none cs

def command? : SExp → Option Command
  | .list (.atom h :: args) =>
    if h = "reset".toList then
      match args with
      | [] => some .reset
      | _ => none
    else if h = "set-option".toList ∨ h = "set-logic".toList then some .setup
    else if h = "declare-datatype".toList then
      match args with
      | [.atom name, .list cs] => datatypeCommand? name cs
      | _ => none
    else if h = "declare-const".toList then
      match args with
      | [.atom name, out] => some (.function name [] out)
      | _ => none
    else if h = "declare-fun".toList then
      match args with
      | [.atom name, .list dom, out] => some (.function name dom out)
      | _ => none
    else if h = "define-fun".toList then
      match args with
      | [.atom name, .list [], sort, body] => some (.define name sort body)
      | _ => none
    else if h = "assert".toList then
      match args with
      | [e] => some (.assert e)
      | _ => none
    else none
  | _ => none

/-- The fields of a constructor by the sorts that are declared already: a datatype may not be
recursive. -/
def Env.constructor? (env : Env) (param : Option (List Char)) (c : ConstructorDecl) :
    Option Constructor :=
  (c.2.mapM fun field => (env.sort? param field.2).map (Prod.mk field.1)).map
    (Constructor.mk c.1)

open Classical in
/-- What a command does, where it is accepted. -/
noncomputable def exec (M : Model) (env : Env) : Command → Option Env
  | .reset => some .empty
  | .setup => some env
  | .datatype name param cs =>
    (cs.mapM (env.constructor? param)).bind fun cs =>
      if env.CanDeclare ⟨name, param.isSome, cs⟩ then
        some (env.declare M ⟨name, param.isSome, cs⟩)
      else none
  | .function name dom out =>
    (dom.mapM (env.sort? none)).bind fun dom => (env.sort? none out).bind fun out =>
      if env.Free name then some (env.addFunction M ⟨name, dom, out⟩) else none
  | .define name sort body =>
    (env.sort? none sort).bind fun s => (env.eval body).bind fun v =>
      if env.Free name ∧ v.1 = s then some (env.define name v) else none
  | .assert e =>
    (env.eval e).bind fun v =>
      if v.1 = .bool then some { env with holds := env.holds && v.2.isTrue } else none

noncomputable def run (M : Model) (env : Env) : List SExp → Option Env
  | [] => some env
  | e :: es => (command? e).bind fun c => (exec M env c).bind fun env => run M env es

theorem run_append (M : Model) (env : Env) (es fs : List SExp) :
    run M env (es ++ fs) = (run M env es).bind fun env => run M env fs := by
  induction es generalizing env with
  | nil => rfl
  | cons e es ih =>
    rw [List.cons_append, run, run]
    cases command? e with
    | none => rfl
    | some c =>
      rw [Option.bind_some, Option.bind_some]
      cases exec M env c with
      | none => rfl
      | some env' => exact ih env'

/-! ## Models -/

/-- The values of a sort. -/
inductive HasSort (ds : List Datatype) : Srt → Value → Prop
  | bool (b : Bool) : HasSort ds .bool (.bool b)
  | bitvec {n : ℕ} (x : BitVec n) : HasSort ds (.bitvec n) (.bitvec n x)
  | str (s : List StrChar) : HasSort ds .string (.str s)
  | set {s : Srt} {v : Value} (f : Finset Value) (hv : v = .ofFinset f)
    (h : ∀ w ∈ f, HasSort ds s w) : HasSort ds (.set s) v
  | con {s arg : Srt} {k : ℕ} {args : List Value} (d : Datatype) (c : Constructor) (hd : d ∈ ds)
    (hs : d.arg? s = some arg) (hc : d.constructors[k]? = some c)
    (hlen : args.length = c.fields.length)
    (h : ∀ (i : ℕ) (field : List Char × Srt) (v : Value), c.fields[i]? = some field →
      args[i]? = some v → HasSort ds (field.2.inst arg) v) : HasSort ds s (.con k args)

/-- The model gives every function values of its sort, and every selector where its sort has
any. -/
structure Model.Respects (M : Model) (env : Env) : Prop where
  fn : ∀ f ∈ env.functions, ∀ vs, List.Forall₂ (HasSort env.datatypes) f.dom vs →
    HasSort env.datatypes f.out (M.fn f.name vs)
  sel : ∀ d ∈ env.datatypes, ∀ c ∈ d.constructors, ∀ field ∈ c.fields, ∀ s arg,
    d.arg? s = some arg → ∀ v, HasSort env.datatypes s v →
      (∃ w, HasSort env.datatypes (field.2.inst arg) w) →
        HasSort env.datatypes (field.2.inst arg) (M.sel field.1 s v)

/-- Some model makes all assertions of the script true. -/
def Satisfiable (script : List SExp) : Prop :=
  ∃ M env, run M .empty script = some env ∧ M.Respects env ∧ env.holds

end SmtLib
