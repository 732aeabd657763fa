import CedarSpec.EncoderSteps
import CedarSpec.Text

/-! What the encoder writes, read back as s-expressions. -/

namespace CedarSpec.SymCC

open SmtLib Encoder

/-- The text of one s-expression. -/
def Shows (s : String) (e : SExp) : Prop := Spells s.toList [e]

theorem shows_sym {s : String} (h : isSymbol s.toList) : Shows s (sym s) := spells_atom h

theorem forall₂_of_mapM {α β ε : Type} {f : α → Except ε β} {l : List α} {r : List β}
    (h : l.mapM f = .ok r) : List.Forall₂ (fun a b => f a = .ok b) l r := by
  induction l generalizing r with
  | nil =>
    cases h
    exact .nil
  | cons a l ih =>
    rw [List.mapM_cons] at h
    cases ha : f a with
    | error msg => simp [ha, bind, Except.bind] at h
    | ok b =>
      cases hl : l.mapM f with
      | error msg => simp [ha, hl, bind, Except.bind] at h
      | ok bs =>
        simp only [ha, hl, bind, Except.bind, pure, Except.pure, Except.ok.injEq] at h
        subst h
        exact .cons ha (ih hl)

/-! ## Identifiers -/

theorem isSymbol_append {a b : List Char} (ha : isSymbol a) (hb : isSymbol b) :
    isSymbol (a ++ b) := by
  obtain ⟨hne, ha⟩ := isSymbol_iff.mp ha
  apply isSymbol_iff.mpr
  constructor
  · simp [hne]
  · intro c hc
    cases List.mem_append.mp hc with
    | inl hc => exact ha c hc
    | inr hc => exact (isSymbol_iff.mp hb).2 c hc

theorem isSymbol_digits (n : ℕ) : isSymbol (Nat.toDigits 10 n) := by
  apply isSymbol_iff.mpr
  constructor
  · exact Nat.toDigits_ne_nil
  · intro c hc
    have hdigit : c.isDigit := Text.isDigit_toDigits hc
    have hbreak : isBreak c = false := by
      simp only [isBreak, isBlank, Bool.or_eq_false_iff, decide_eq_false_iff_not]
      refine ⟨⟨⟨⟨⟨⟨⟨?_, ?_⟩, ?_⟩, ?_⟩, ?_⟩, ?_⟩, ?_⟩, ?_⟩ <;>
      · intro h
        subst h
        cases hdigit
    refine ⟨hbreak, ?_⟩
    intro h
    subst h
    cases hdigit

theorem toList_toString (n : ℕ) : (toString n).toList = Nat.toDigits 10 n := by
  simp [toString, Nat.repr]

theorem isSymbol_numbered {s : String} (n : ℕ) (h : isSymbol s.toList) :
    isSymbol (s ++ toString n).toList := by
  rw [String.toList_append, toList_toString]
  exact isSymbol_append h (isSymbol_digits n)

theorem isSymbol_termId (n : ℕ) : isSymbol (termId n).toList :=
  isSymbol_numbered (s := "t") n rfl

theorem isSymbol_uufId (n : ℕ) : isSymbol (uufId n).toList :=
  isSymbol_numbered (s := "f") n rfl

theorem isSymbol_entityTypeId (n : ℕ) : isSymbol (entityTypeId n).toList :=
  isSymbol_numbered (s := "E") n rfl

theorem isSymbol_recordTypeId (n : ℕ) : isSymbol (recordTypeId n).toList :=
  isSymbol_numbered (s := "R") n rfl

variable {s s' f : String} {e e' : SExp} {n : ℕ}

theorem isSymbol_enumId (h : isSymbol s.toList) (n : ℕ) : isSymbol (enumId s n).toList := by
  apply isSymbol_numbered (s := s ++ "_m")
  rw [String.toList_append]
  exact isSymbol_append h rfl

theorem isSymbol_recordAttrId (h : isSymbol s.toList) (n : ℕ) :
    isSymbol (recordAttrId s n).toList := by
  apply isSymbol_numbered (s := s ++ "_a")
  rw [String.toList_append]
  exact isSymbol_append h rfl

theorem isSymbol_extTypeId (xty : ExtType) : isSymbol (extTypeId xty).toList := by
  cases xty <;> rfl

/-! ## Lists -/

theorem spells_words {words : List String} {es : List SExp} (h : List.Forall₂ Shows words es) :
    Spells (String.intercalate " " words).toList es := by
  have hblank : ∀ c ∈ [' '], isBlank c := by simp [isBlank]
  have hwords : List.Forall₂ (fun w e => Spells w [e]) (words.map String.toList) es :=
    List.forall₂_map_left_iff.mpr h
  simpa using spells_intercalate hblank hwords

theorem toString_self (s : String) : toString s = s := rfl

/-- An application whose function stands in the text before the arguments. -/
theorem shows_app {p : String} {es : List SExp} (hp : p.toList = '(' :: f.toList ++ [' '])
    (hf : Shows f e) (h : Spells s.toList es) : Shows (p ++ s ++ ")") (.list (e :: es)) := by
  have hform := (hf.join (b := ' ') rfl h).paren
  simpa [Shows, hp] using hform

theorem shows_app₂ {p : String} {e'' : SExp} (hp : p.toList = '(' :: f.toList ++ [' '])
    (hf : Shows f e) (h : Shows s e') (h' : Shows s' e'') :
    Shows (p ++ s ++ " " ++ s' ++ ")") (.list [e, e', e'']) := by
  have hargs : Spells (s ++ " " ++ s').toList [e', e''] := by
    have hjoin := Spells.join h (b := ' ') rfl h'
    simpa using hjoin
  have happ := shows_app hp hf hargs
  simpa only [String.append_assoc] using happ

/-! ## Sorts and literals -/

theorem shows_numeral (n : ℕ) : Shows (toString n) (numeral n) := by
  rw [Shows, toList_toString]
  exact spells_atom (isSymbol_digits n)

theorem shows_bitVecSort (n : ℕ) : Shows s!"(_ BitVec {n})" (bitVecSort n) := by
  have h := shows_app₂ (p := "(_ ") rfl (shows_sym (s := "_") rfl)
    (shows_sym (s := "BitVec") rfl) (shows_numeral n)
  simpa [Shows, bitVecSort, toString_self] using h

theorem shows_option (h : Shows s e) : Shows s!"(Option {s})" (.list [sym "Option", e]) :=
  shows_app (p := "(Option ") rfl (shows_sym rfl) h

theorem shows_set (h : Shows s e) : Shows s!"(Set {s})" (.list [sym "Set", e]) :=
  shows_app (p := "(Set ") rfl (shows_sym rfl) h

theorem shows_bitVec (bv : BitVec n) : Shows (encodeBitVec bv) (bitVecLit bv) := by
  have hbv : Shows ("bv" ++ toString bv.toNat)
      (.atom ('b' :: 'v' :: Nat.toDigits 10 bv.toNat)) := by
    have h := shows_sym (isSymbol_numbered (s := "bv") bv.toNat rfl)
    simpa [sym, toList_toString] using h
  have h := shows_app₂ (p := "(_ ") rfl (shows_sym (s := "_") rfl) hbv (shows_numeral n)
  simpa [Shows, encodeBitVec, bitVecLit, toString_self] using h

theorem shows_none (h : Shows s e) : Shows s!"(as none {s})" (.list [sym "as", sym "none", e]) := by
  have hform := shows_app₂ (p := "(as ") rfl (shows_sym (s := "as") rfl)
    (shows_sym (s := "none") rfl) h
  simpa [Shows, toString_self] using hform

theorem shows_netMask (pre : Extension.IPNetPrefix n) :
    Shows (encodeIPAddrPrefix pre) (prefixLit pre) := by
  cases pre with
  | none =>
    have h := shows_none (shows_option (shows_bitVecSort n))
    have hnone : encodeIPAddrPrefix (none : Extension.IPNetPrefix n) =
        s!"(as none (Option (_ BitVec {n})))" := rfl
    rw [hnone]
    simpa [Shows, toString_self, prefixLit] using h
  | some p => exact shows_app (p := "(some ") rfl (shows_sym rfl) (shows_bitVec p)

theorem shows_ext (x : Extension.Ext) : Shows (encodeExt x) (extLit x) := by
  cases x with
  | decimal d => exact shows_app (p := "(Decimal ") rfl (shows_sym rfl) (shows_bitVec _)
  | ipaddr ip =>
    cases ip with
    | V4 cidr =>
      exact shows_app₂ (p := "(V4 ") rfl (shows_sym rfl) (shows_bitVec cidr.addr)
        (shows_netMask cidr.pre)
    | V6 cidr =>
      exact shows_app₂ (p := "(V6 ") rfl (shows_sym rfl) (shows_bitVec cidr.addr)
        (shows_netMask cidr.pre)
  | datetime dt => exact shows_app (p := "(Datetime ") rfl (shows_sym rfl) (shows_bitVec _)
  | duration dur => exact shows_app (p := "(Duration ") rfl (shows_sym rfl) (shows_bitVec _)

/-! ## Strings -/

theorem double_append (a b : List Char) : double (a ++ b) = double a ++ double b := by
  induction a with
  | nil => rfl
  | cons c a ih =>
    rw [List.cons_append, double, double, ih]
    split <;> rfl

theorem double_of_notMem {a : List Char} (h : '"' ∉ a) : double a = a := by
  induction a with
  | nil => rfl
  | cons c a ih =>
    obtain ⟨hc, ha⟩ := List.ne_and_not_mem_of_not_mem_cons h
    rw [double, if_neg hc.symm, ih ha]

theorem quote_notMem_hex (n : ℕ) : '"' ∉ Nat.toDigits 16 n := by
  intro h
  obtain ⟨d, hd, hc⟩ := Text.mem_toDigits (by decide) h
  interval_cases d <;> cases hc

theorem encodeChar_ok {c : Char} (h : encodeChar s c = .ok s') :
    c.toNat ≤ smtLibMaxCodePoint ∧ s'.toList = double (escapeChar c) := by
  unfold encodeChar at h
  split_ifs at h with hquote hslash hprint hmax
  · cases h
    subst hquote
    exact ⟨by decide, by simp [escapeChar, double]⟩
  · cases h
    subst hslash
    exact ⟨by decide, by simp [escapeChar, double]⟩
  · cases h
    refine ⟨by simp only [smtLibMaxCodePoint]; omega, ?_⟩
    rw [escapeChar, if_neg hslash, if_pos hprint, double_of_notMem (by simp [Ne.symm hquote])]
    simp
  · cases h
    refine ⟨hmax, ?_⟩
    rw [escapeChar, if_neg hslash, if_neg hprint, double_of_notMem]
    · simp
    · simp [quote_notMem_hex]

theorem encodeChars_ok {cs : List Char} {l : List String}
    (h : List.Forall₂ (fun c enc => encodeChar s c = .ok enc) cs l) :
    (∀ c ∈ cs, c.toNat ≤ smtLibMaxCodePoint) ∧
      l.flatMap String.toList = double (escape cs) := by
  induction h with
  | nil => simp [escape, double]
  | cons hc hcs ih =>
    obtain ⟨hmax, henc⟩ := encodeChar_ok hc
    constructor
    · exact List.forall_mem_cons.mpr ⟨hmax, ih.1⟩
    · rw [List.flatMap_cons, henc, ih.2, escape, escape, List.flatMap_cons, double_append]

theorem toList_join (l : List String) : (String.join l).toList = l.flatMap String.toList := by
  simp [List.flatMap]

theorem encodeString_ok (h : encodeString s = .ok s') :
    Representable s ∧ s'.toList = double (escape s.toList) := by
  unfold encodeString at h
  cases hl : s.toList.mapM (encodeChar s) with
  | error msg => simp [hl, bind, Except.bind] at h
  | ok l =>
    simp only [hl, bind, Except.bind, pure, Except.pure, Except.ok.injEq] at h
    obtain ⟨hall, hjoin⟩ := encodeChars_ok (forall₂_of_mapM hl)
    rw [← h, toList_join]
    exact ⟨hall, hjoin⟩

theorem shows_string {enc : String} (h : encodeString s = .ok enc) :
    Shows s!"\"{enc}\"" (stringLit s) := by
  have hlit := spells_str (escape s.toList)
  rw [← (encodeString_ok h).2] at hlit
  simpa [Shows, toString_self, stringLit] using hlit

theorem encodePatElem_ok {pe : PatElem} (h : encodePatElem pe = .ok s) :
    (∀ c, pe = .justChar c → c.toNat ≤ smtLibMaxCodePoint) ∧ Shows s (patElemRe pe) := by
  cases pe with
  | star =>
    cases h
    have h := shows_app (p := "(re.* ") rfl (shows_sym (s := "re.*") rfl)
      (shows_sym (s := "re.allchar") rfl)
    exact ⟨by simp, by simpa [Shows, patElemRe] using h⟩
  | justChar c =>
    cases hc : encodeString (String.singleton c) with
    | error msg => simp [encodePatElem, hc, bind, Except.bind] at h
    | ok enc =>
      simp only [encodePatElem, hc, bind, Except.bind, pure, Except.pure, Except.ok.injEq] at h
      subst h
      constructor
      · intro d hd
        cases hd
        exact (encodeString_ok hc).1 c (by simp)
      · have h := shows_app (p := "(str.to_re ") rfl (shows_sym (s := "str.to_re") rfl)
          (shows_string hc)
        simpa [Shows, toString_self, patElemRe] using h

theorem encodePatElems_ok {p : List PatElem} {words : List String}
    (h : List.Forall₂ (fun pe w => encodePatElem pe = .ok w) p words) :
    (∀ c, PatElem.justChar c ∈ p → c.toNat ≤ smtLibMaxCodePoint) ∧
      List.Forall₂ Shows words (p.map patElemRe) := by
  induction h with
  | nil => exact ⟨by simp, .nil⟩
  | cons hpe hp ih =>
    obtain ⟨hmax, hw⟩ := encodePatElem_ok hpe
    constructor
    · intro c hc
      cases List.mem_cons.mp hc with
      | inl hc => exact hmax c hc.symm
      | inr hc => exact ih.1 c hc
    · exact .cons hw ih.2

theorem encodePattern_ok {p : List PatElem} (h : encodePattern p = .ok s) :
    (∀ c, PatElem.justChar c ∈ p → c.toNat ≤ smtLibMaxCodePoint) ∧ Shows s (patternRe p) := by
  match p with
  | [] =>
    cases h
    have hempty : Shows "\"\"" (.str []) := spells_str []
    have h := shows_app (p := "(str.to_re ") rfl (shows_sym (s := "str.to_re") rfl) hempty
    exact ⟨by simp, by simpa [Shows, patternRe] using h⟩
  | [pe] =>
    obtain ⟨hmax, hs⟩ := encodePatElem_ok h
    exact ⟨fun c hc => hmax c (List.mem_singleton.mp hc).symm, hs⟩
  | pe :: pe' :: p =>
    cases hp : (pe :: pe' :: p).mapM encodePatElem with
    | error msg => simp [encodePattern, hp, bind, Except.bind] at h
    | ok words =>
      simp only [encodePattern, hp, bind, Except.bind, pure, Except.pure, Except.ok.injEq] at h
      obtain ⟨hall, hwords⟩ := encodePatElems_ok (forall₂_of_mapM hp)
      subst h
      exact ⟨hall, shows_app (p := "(re.++ ") rfl (shows_sym rfl) (spells_words hwords)⟩

/-! ## Operators -/

theorem isSymbol_extOp (xop : ExtOp) (h : xop ≠ .ipaddrIsV4) :
    isSymbol (encodeExtOp xop).toList := by
  cases xop with
  | ipaddrIsV4 => exact absurd rfl h
  | _ => simp only [encodeExtOp]; rfl

theorem isSymbol_mkName (op : Op) : isSymbol (Op.mkName op).toList := by
  cases op <;> simp only [Op.mkName] <;> rfl

theorem shows_extOpSym (xop : ExtOp) : Shows (encodeExtOp xop) (extOpSym xop) := by
  cases xop with
  | ipaddrIsV4 =>
    have h := shows_app₂ (p := "(_ ") rfl (shows_sym (s := "_") rfl) (shows_sym (s := "is") rfl)
      (shows_sym (s := "V4") rfl)
    simpa [Shows, encodeExtOp, extOpSym] using h
  | _ => exact shows_sym (isSymbol_extOp _ (by simp))

theorem shows_opSym (op : Op) : Shows (encodeOp op) (opSym op) := by
  cases op with
  | eq => exact shows_sym rfl
  | zeroExtend n =>
    have h := shows_app₂ (p := "(_ ") rfl (shows_sym (s := "_") rfl)
      (shows_sym (s := "zero_extend") rfl) (shows_numeral n)
    simpa [Shows, encodeOp, opSym, toString_self] using h
  | optionGet => exact shows_sym rfl
  | ext xop => exact shows_extOpSym xop
  | _ => exact shows_sym (isSymbol_mkName _)

end CedarSpec.SymCC
