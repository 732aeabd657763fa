import CedarSpec.EncoderTermRuns

/-! The script as a whole, and the symbols that it declares. -/

namespace CedarSpec.SymCC

open SmtLib Encoder

/-! ## The text of the script -/

def optionCommand : SExp :=
  .list [sym "declare-datatype", sym "Option", .list [sym "par", .list [sym "X"],
    .list [constructorDecl "none" [], constructorDecl "some" [("val", sym "X")]]]]

/-- The commands before the first step. -/
def preludeCommands (produceModels : Bool) : List SExp :=
  [.list [sym "reset"],
   .list [sym "set-option", sym ":produce-models", sym (if produceModels then "true" else "false")],
   .list [sym "set-logic", sym "ALL"],
   optionCommand]

/-- The commands of a script whose steps have written `cmds`. -/
def scriptCommands (produceModels : Bool) (cmds : List SExp) (st : EncoderState)
    (ts : List Term) : List SExp :=
  preludeCommands produceModels ++ cmds ++ ts.map fun t => assertCommand (st.ref t)

variable {out out' s : String} {cmds : List SExp} {st st' : EncoderState} {α β : Type}

theorem solver_bind {m : SolverM α} {f : α → SolverM β} {b : β}
    (h : (m >>= f) out = .ok (b, out')) :
    ∃ a out₁, m out = .ok (a, out₁) ∧ f a out₁ = .ok (b, out') := by
  simp only [Bind.bind, StateT.bind, Except.bind] at h
  cases hm : m out with
  | error msg => simp [hm] at h
  | ok r =>
    obtain ⟨a, out₁⟩ := r
    exact ⟨a, out₁, rfl, by simpa [hm] using h⟩

theorem wrote_reset (hrun : Solver.reset out = .ok ((), out')) :
    Wrote out out' [.list [sym "reset"]] := by
  apply wrote_emitln ?_ hrun
  exact (shows_sym (s := "reset") rfl).paren

theorem wrote_setOption {b : Bool} (hrun : Solver.setOptionProduceModels b out = .ok ((), out')) :
    Wrote out out' [.list [sym "set-option", sym ":produce-models",
      sym (if b then "true" else "false")]] := by
  apply wrote_emitln ?_ hrun
  have hval : Shows (if b then "true" else "false") (sym (if b then "true" else "false")) := by
    apply shows_sym
    cases b <;> rfl
  have hform := ((shows_sym (s := "set-option") rfl).join (b := ' ') rfl
    ((shows_sym (s := ":produce-models") rfl).join (b := ' ') rfl hval)).paren
  simpa [toString_self] using hform

theorem wrote_setLogic (hrun : Solver.setLogic "ALL" out = .ok ((), out')) :
    Wrote out out' [.list [sym "set-logic", sym "ALL"]] := by
  apply wrote_emitln ?_ hrun
  have hform := ((shows_sym (s := "set-logic") rfl).join (b := ' ') rfl
    (shows_sym (s := "ALL") rfl)).paren
  simpa [toString_self] using hform

/-- The declaration of a datatype with one parameter. -/
theorem wrote_declareParametric {p : String} {mks : List String} {es : List SExp}
    (hs : isSymbol s.toList) (hp : isSymbol p.toList) (h : List.Forall₂ Shows mks es)
    (hrun : Solver.declareDatatype s [p] mks out = .ok ((), out')) :
    Wrote out out' [.list [sym "declare-datatype", sym s,
      .list [sym "par", .list [sym p], .list es]]] := by
  apply wrote_emitln ?_ hrun
  have hblank : ∀ c ∈ ['\n', ' ', ' '], isBlank c := by simp [isBlank]
  have hmks : List.Forall₂ (fun w e => Spells w [e]) (mks.map String.toList) es :=
    List.forall₂_map_left_iff.mpr h
  have hlist := ((spells_intercalate hblank hmks).blanks hblank).paren
  have hpar := ((shows_sym (s := "par") rfl).join (b := ' ') rfl
    ((shows_sym hp).paren.join (b := ' ') rfl hlist)).paren
  have hform := ((shows_sym (s := "declare-datatype") rfl).join (b := ' ') rfl
    ((shows_sym hs).join (b := ' ') rfl hpar)).paren
  simpa [toString_self] using hform

theorem shows_noneDecl : Shows "(none)" (constructorDecl "none" []) := by
  have h := shows_nullary (s := "none") rfl
  simpa [Shows, toString_self] using h

theorem shows_someDecl : Shows "(some (val X))" (constructorDecl "some" [("val", sym "X")]) := by
  have h := shows_constructor₁ "some" "val" rfl rfl (shows_sym (s := "X") rfl)
  simpa [Shows, toString_self] using h

theorem wrote_declareOption
    (hrun : Solver.declareDatatype "Option" ["X"] ["(none)", "(some (val X))"] out =
      .ok ((), out')) : Wrote out out' [optionCommand] :=
  wrote_declareParametric rfl rfl (.cons shows_noneDecl (.cons shows_someDecl .nil)) hrun

theorem wrote_asserts {ids : List String} {es : List SExp} (h : List.Forall₂ Shows ids es)
    (hrun : ids.forM Solver.assert out = .ok ((), out')) :
    Wrote out out' (es.map assertCommand) := by
  induction h generalizing out with
  | nil =>
    cases hrun
    exact .refl _
  | cons hid hids ih =>
    obtain ⟨u, out₁, hone, hrest⟩ := solver_bind hrun
    exact (wrote_assert hid hone).trans (ih hrest)

theorem runs_encodeTerms_init {ts : List Term} {ids : List String} {env : SymEnv}
    (h : Runs (encodeTerms ts) (EncoderState.init env) out ids st out') :
    ∃ n, EncodesTerms n ts (EncoderState.init env) out ids st out' :=
  ⟨sizeOf ts, runs_encodeTerms (fun _ ht => (List.sizeOf_lt_of_mem ht).le)
    (fun t _ {_ _ _ _ _} hinv hrun => runs_encodeTerm t hinv hrun) (inv_init env) h⟩

theorem wrote_encode {ts : List Term} {env : SymEnv} {produceModels : Bool}
    (h : encode ts env produceModels out = .ok (st, out')) :
    ∃ cmds, Steps (EncoderState.init env) cmds st ∧ (∀ t ∈ ts, st.Covers t) ∧
      ((∀ t ∈ ts, t.WellTyped) → st.Typed) ∧
      Wrote out out' (scriptCommands produceModels cmds st ts) := by
  unfold encode at h
  obtain ⟨u₁, out₁, hreset, h₁⟩ := solver_bind h
  obtain ⟨u₂, out₂, hoption, h₂⟩ := solver_bind h₁
  obtain ⟨u₃, out₃, hlogic, h₃⟩ := solver_bind h₂
  obtain ⟨u₄, out₄, hdatatype, h₄⟩ := solver_bind h₃
  obtain ⟨⟨ids, st'⟩, out₅, hterms, h₅⟩ := solver_bind h₄
  obtain ⟨u₆, out₆, hasserts, h₆⟩ := solver_bind h₅
  cases h₆
  obtain ⟨n, hts⟩ := runs_encodeTerms_init hterms
  obtain ⟨cmds, hsteps, hw⟩ := hts.steps
  have hprelude := (wrote_reset hreset).trans
    ((wrote_setOption hoption).trans ((wrote_setLogic hlogic).trans
      (wrote_declareOption hdatatype)))
  have hscript := (hprelude.trans hw).trans (wrote_asserts hts.shows hasserts)
  rw [List.map_map] at hscript
  exact ⟨cmds, hsteps, hts.covers, fun hwt => hts.typed hwt (.init env), hscript⟩

/-- Entities of the one type are its two members. -/
def colorEnv : SymEnv := ⟨[(⟨"Color", []⟩, ⟨some ["red", "green"]⟩)]⟩

/-- A variable is the second member. -/
def colorTerm : Term :=
  .app .eq [.entity ⟨⟨"Color", []⟩, "green"⟩, .var ⟨"x", .entity ⟨"Color", []⟩⟩] .bool

theorem encode_color : ∃ st out, encode [colorTerm] colorEnv false "" = .ok (st, out) := by
  simp only [encode, colorTerm, encodeTerms, encodeTerm, Term.typeOf, TermPrim.typeOf, encodeType]
  exact ⟨_, _, rfl⟩

end CedarSpec.SymCC
