import CedarSpec.ExtDatatypes

/-! Decimals, durations and datetimes are read back from their texts. -/

namespace CedarSpec.Datatypes

open Text Extension

/-! ## Numbers within a text -/

theorem notMem_toDigits {c : Char} (hc : c.isDigit = false) (n : ℕ) : c ∉ Nat.toDigits 10 n := by
  intro h
  rw [isDigit_toDigits h] at hc
  cases hc

theorem notMem_padZeros {c : Char} (hc : c.isDigit = false) (width n : ℕ) :
    c ∉ padZeros width n := by
  intro h
  rw [isDigit_padZeros h] at hc
  cases hc

theorem toNat?'_toDigits (n : ℕ) : toNat?' (Nat.toDigits 10 n) = some n := by
  rw [toNat?'_eq (notMem_toDigits rfl n), toNat?_toDigits]

/-! ## Decimals -/

/-- A text with one point whose left part is not just a sign. -/
theorem decimal_parse_eq {left right : List Char} {l : ℤ} {r : ℕ} (hleft : '.' ∉ left)
    (hright : '.' ∉ right) (hne : left ≠ ['-']) (hlen : right.length = decimalDigits)
    (hl : toInt?' left = some l) (hr : toNat?' right = some r) :
    Decimal.parse (left ++ '.' :: right) =
      ofInt? (if ['-'].isPrefixOf left then l * 10000 - r else l * 10000 + r) := by
  rw [Decimal.parse, splitOnP_append hleft, splitOnP_single hright]
  split
  · next he =>
    cases he
    exact absurd rfl hne
  · next he =>
    cases he
    rw [hl, hr, hlen]
    cases ['-'].isPrefixOf left <;> simp [decimalDigits]
  · next hno =>
    exact absurd rfl (hno left right)

theorem decimal_parse_text (d : Int64) : Decimal.parse (Decimal.text ⟨d⟩) = some d := by
  obtain ⟨n, hn⟩ : ∃ n, n = d.toInt.natAbs := ⟨_, rfl⟩
  have hright := notMem_padZeros (c := '.') rfl 4 (n % 10000)
  have hlen := length_padZeros (n := n % 10000) 4 (by omega) (by omega)
  have hr : toNat?' (padZeros 4 (n % 10000)) = some (n % 10000) := by
    rw [toNat?'_eq (notMem_padZeros rfl _ _), toNat?_padZeros]
  by_cases hd : d < 0
  · have hneg : d.toInt < 0 := Int64.lt_iff_toInt_lt.mp hd
    have hleft : '.' ∉ '-' :: Nat.toDigits 10 (n / 10000) := by
      simpa using notMem_toDigits (c := '.') rfl (n / 10000)
    have hl : toInt?' ('-' :: Nat.toDigits 10 (n / 10000)) = some (-((n / 10000 : ℕ) : ℤ)) := by
      rw [toInt?'_eq (by simp), toInt?_minus_toDigits]
    have hval : -((n / 10000 : ℕ) : ℤ) * 10000 - (n % 10000 : ℕ) = d.toInt := by omega
    rw [Decimal.text, if_pos hd, ← hn, List.cons_append, List.nil_append,
      decimal_parse_eq hleft hright (by simp) hlen hl hr, if_pos (by simp), hval, ofInt?_toInt]
  · have hnonneg : 0 ≤ d.toInt := by
      simpa using mt Int64.lt_iff_toInt_lt.mpr hd
    have hleft := notMem_toDigits (c := '.') rfl (n / 10000)
    have hsign := notMem_toDigits (c := '-') rfl (n / 10000)
    have hl : toInt?' (Nat.toDigits 10 (n / 10000)) = some ((n / 10000 : ℕ) : ℤ) := by
      rw [toInt?'_eq (by simp), toInt?_toDigits]
    have hval : ((n / 10000 : ℕ) : ℤ) * 10000 + (n % 10000 : ℕ) = d.toInt := by omega
    have hne : Nat.toDigits 10 (n / 10000) ≠ ['-'] := by
      intro he
      exact hsign (by simp [he])
    have hno : ¬['-'].isPrefixOf (Nat.toDigits 10 (n / 10000)) = true := by
      intro hpre
      exact hsign ((List.isPrefixOf_iff_prefix.mp hpre).subset (by simp))
    rw [Decimal.text, if_neg hd, ← hn, List.nil_append,
      decimal_parse_eq hleft hright hne hlen hl hr, if_neg hno, hval, ofInt?_toInt]

/-! ## Durations -/

/-- A text without units is left alone. -/
theorem parseUnit?_nil (isNegative : Bool) (unit : Duration.DurationUnit) :
    Duration.parseUnit? isNegative [] unit = some (0, []) := by
  cases unit <;> rfl

theorem parseUnit?_ms {isNegative : Bool} {n : ℕ} {d : Int64}
    (hd : (if isNegative then Int.negOfNat n else Int.ofNat n) = d.toInt) :
    Duration.parseUnit? isNegative (Nat.toDigits 10 n ++ ['m', 's']) .ms =
      some (d.toInt, []) := by
  have hsuffix : ['m', 's'].isSuffixOf (Nat.toDigits 10 n ++ ['m', 's']) = true := by
    rw [List.isSuffixOf_iff_suffix]
    exact List.suffix_append _ _
  have hdrop : (Nat.toDigits 10 n ++ ['m', 's']).rdrop 2 = Nat.toDigits 10 n := by
    simp [List.rdrop]
  have hdigits : (Nat.toDigits 10 n).rtakeWhile Char.isDigit = Nat.toDigits 10 n := by
    rw [List.rtakeWhile_eq_self_iff]
    exact fun c hc => isDigit_toDigits hc
  have hrest : (Nat.toDigits 10 n).rdrop (Nat.toDigits 10 n).length = [] := by
    simp [List.rdrop]
  have hne : (Nat.toDigits 10 n).isEmpty = false := by simp
  have hunits : Duration.durationUnits? d.toInt .ms = some d.toInt := by
    rw [Duration.durationUnits?, ofInt?_toInt]
  simp only [Duration.parseUnit?, Duration.DurationUnit.suffix, hsuffix, if_true,
    List.length_cons, List.length_nil, hdrop, hdigits, hne, toNat?'_toDigits,
    Option.bind_eq_bind, Option.bind_some, hd, hunits, hrest]
  rfl

theorem parseDuration?_ms {isNegative : Bool} {n : ℕ} {d : Int64}
    (hd : (if isNegative then Int.negOfNat n else Int.ofNat n) = d.toInt) :
    Duration.parseDuration? isNegative (Nat.toDigits 10 n ++ ['m', 's']) = some ⟨d⟩ := by
  have hne : (Nat.toDigits 10 n ++ ['m', 's']).isEmpty = false := by simp
  simp [Duration.parseDuration?, hne, parseUnit?_ms hd, parseUnit?_nil, Duration.duration?,
    ofInt?_toInt]

theorem duration_parse_text (d : Int64) : Duration.parse (millisText d) = some ⟨d⟩ := by
  by_cases hd : d.toInt < 0
  · have hval : (if true then Int.negOfNat d.toInt.natAbs else Int.ofNat d.toInt.natAbs) =
        d.toInt := by
      rw [if_pos rfl, Int.negOfNat_eq, Int.ofNat_eq_natCast]
      omega
    rw [millisText, ofInt, if_pos hd, List.cons_append, Duration.parse]
    exact parseDuration?_ms hval
  · have hval : (if false then Int.negOfNat d.toInt.natAbs else Int.ofNat d.toInt.natAbs) =
        d.toInt := by
      rw [if_neg (by simp), Int.ofNat_eq_natCast]
      omega
    have hneg : Duration.isNegativeDuration (Nat.toDigits 10 d.toInt.natAbs ++ ['m', 's']) =
        (false, Nat.toDigits 10 d.toInt.natAbs ++ ['m', 's']) := by
      unfold Duration.isNegativeDuration
      split
      · next rest he =>
        cases hdigits : Nat.toDigits 10 d.toInt.natAbs with
        | nil => exact absurd hdigits Nat.toDigits_ne_nil
        | cons c t =>
          rw [hdigits, List.cons_append, List.cons.injEq] at he
          exact absurd (by simp [hdigits, he.1]) (notMem_toDigits (c := '-') rfl d.toInt.natAbs)
      · rfl
    rw [millisText, ofInt, if_neg hd, Duration.parse, hneg]
    exact parseDuration?_ms hval

/-! ## The epoch -/

theorem datetime_parse_epoch :
    Datetime.parse ['1', '9', '7', '0', '-', '0', '1', '-', '0', '1'] = some ⟨0⟩ := by
  decide +kernel

theorem offset_epoch (d : Int64) : Extension.offset ⟨0⟩ ⟨d⟩ = some ⟨d⟩ := by
  have hzero : (0 : Int64).toInt + d.toInt = d.toInt := by simp
  rw [Extension.offset, add?, hzero, ofInt?_toInt]
  rfl

end CedarSpec.Datatypes
