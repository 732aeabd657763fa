import Mathlib

/-! Programs that draw from a source of random data. A run returns a value with the rest of
the source, fails with an error, panics, or is still going when its fuel is used up. -/

namespace RandomGen

inductive Outcome (ε α : Type)
  | ok (a : α)
  | error (e : ε)
  | panic (message : String)
  | timeout
  deriving DecidableEq, Repr

/-- A program over a source with states in `U`. -/
def Gen (U ε α : Type) := U → Outcome ε (α × U)

variable {U ε α β σ : Type}

namespace Gen

def fail (e : ε) : Gen U ε α := fun _ => .error e

def panic (message : String) : Gen U ε α := fun _ => .panic message

def timeout : Gen U ε α := fun _ => .timeout

/-- A library call, which returns or fails. -/
def call (draw : U → Except ε (α × U)) : Gen U ε α := fun u =>
  match draw u with
  | .ok r => .ok r
  | .error e => .error e

/-- Look at the source without drawing from it. -/
def peek (f : U → α) : Gen U ε α := fun u => .ok (f u, u)

def orPanic (message : String) : Option α → Gen U ε α
  | some a => fun u => .ok (a, u)
  | none => panic message

end Gen

instance : Monad (Gen U ε) where
  pure a := fun u => .ok (a, u)
  bind m f := fun u =>
    match m u with
    | .ok (a, u') => f a u'
    | .error e => .error e
    | .panic message => .panic message
    | .timeout => .timeout

theorem bind_of_ok {m : Gen U ε α} {u u' : U} {a : α} (h : m u = .ok (a, u'))
    (f : α → Gen U ε β) : (m >>= f) u = f a u' := by
  change (match m u with
    | .ok (a, u') => f a u' | .error e => .error e
    | .panic message => .panic message | .timeout => .timeout) = _
  rw [h]

theorem bind_of_error {m : Gen U ε α} {u : U} {e : ε} (h : m u = .error e)
    (f : α → Gen U ε β) : (m >>= f) u = .error e := by
  change (match m u with
    | .ok (a, u') => f a u' | .error e => .error e
    | .panic message => .panic message | .timeout => .timeout) = _
  rw [h]

theorem bind_of_panic {m : Gen U ε α} {u : U} {s : String} (h : m u = .panic s)
    (f : α → Gen U ε β) : (m >>= f) u = .panic s := by
  change (match m u with
    | .ok (a, u') => f a u' | .error e => .error e
    | .panic message => .panic message | .timeout => .timeout) = _
  rw [h]

theorem bind_of_timeout {m : Gen U ε α} {u : U} (h : m u = .timeout)
    (f : α → Gen U ε β) : (m >>= f) u = .timeout := by
  change (match m u with
    | .ok (a, u') => f a u' | .error e => .error e
    | .panic message => .panic message | .timeout => .timeout) = _
  rw [h]

theorem id_map_gen (m : Gen U ε α) : id <$> m = m := by
  funext u
  change (m >>= fun a => pure (id a)) u = m u
  cases h : m u with
  | ok r => rw [bind_of_ok h]; rfl
  | error e => rw [bind_of_error h]
  | panic s => rw [bind_of_panic h]
  | timeout => rw [bind_of_timeout h]

theorem bind_assoc_gen (m : Gen U ε α) (f : α → Gen U ε β) (g : β → Gen U ε σ) :
    m >>= f >>= g = m >>= fun a => f a >>= g := by
  funext u
  cases h : m u with
  | ok r =>
    rw [bind_of_ok h]
    cases h' : f r.1 r.2 with
    | ok r' => rw [bind_of_ok (by rw [bind_of_ok h, h']), bind_of_ok h']
    | error e => rw [bind_of_error h', bind_of_error (by rw [bind_of_ok h, h'])]
    | panic s => rw [bind_of_panic h', bind_of_panic (by rw [bind_of_ok h, h'])]
    | timeout => rw [bind_of_timeout h', bind_of_timeout (by rw [bind_of_ok h, h'])]
  | error e => rw [bind_of_error h, bind_of_error (bind_of_error h f)]
  | panic s => rw [bind_of_panic h, bind_of_panic (bind_of_panic h f)]
  | timeout => rw [bind_of_timeout h, bind_of_timeout (bind_of_timeout h f)]

instance : LawfulMonad (Gen U ε) :=
  LawfulMonad.mk' _ id_map_gen (fun _ _ => rfl) bind_assoc_gen

theorem bind_eq_ok {m : Gen U ε α} {f : α → Gen U ε β} {u : U} {r : β × U} :
    (m >>= f) u = .ok r ↔ ∃ a u', m u = .ok (a, u') ∧ f a u' = .ok r := by
  cases h : m u with
  | ok x =>
    obtain ⟨a, u'⟩ := x
    rw [bind_of_ok h]
    constructor
    · exact fun hr => ⟨a, u', rfl, hr⟩
    · intro hx
      obtain ⟨_, _, he, hr⟩ := hx
      cases he
      exact hr
  | error e => simp [bind_of_error h]
  | panic s => simp [bind_of_panic h]
  | timeout => simp [bind_of_timeout h]

theorem call_eq_ok {draw : U → Except ε (α × U)} {u : U} {r : α × U} :
    Gen.call draw u = .ok r ↔ draw u = .ok r := by
  simp only [Gen.call]
  cases draw u <;> simp

/-- The run returns or fails: it neither panics nor goes on for ever. -/
def Halts (m : Gen U ε α) (u : U) : Prop :=
  (∃ r, m u = .ok r) ∨ ∃ e, m u = .error e

theorem halts_pure (a : α) (u : U) : Halts (pure a : Gen U ε α) u := Or.inl ⟨_, rfl⟩

theorem halts_fail (e : ε) (u : U) : Halts (Gen.fail e : Gen U ε α) u := Or.inr ⟨e, rfl⟩

theorem halts_call (draw : U → Except ε (α × U)) (u : U) : Halts (Gen.call draw) u := by
  unfold Halts Gen.call
  cases draw u with
  | ok r => exact Or.inl ⟨r, rfl⟩
  | error e => exact Or.inr ⟨e, rfl⟩

theorem halts_bind {m : Gen U ε α} {f : α → Gen U ε β} {u : U} (hm : Halts m u)
    (hf : ∀ a u', m u = .ok (a, u') → Halts (f a) u') : Halts (m >>= f) u := by
  obtain ⟨⟨a, u'⟩, h⟩ | ⟨e, h⟩ := hm
  · obtain ⟨r, hr⟩ | ⟨e, he⟩ := hf a u' h
    · exact Or.inl ⟨r, by rw [bind_of_ok h, hr]⟩
    · exact Or.inr ⟨e, by rw [bind_of_ok h, he]⟩
  · exact Or.inr ⟨e, bind_of_error h f⟩

/-! ## Loops over a list -/

/-- What every step preserves holds at the end of the loop. -/
theorem foldlM_invariant {f : σ → α → Gen U ε σ} {l : List α} (P : σ → Prop)
    (hstep : ∀ s a u s' u', a ∈ l → P s → f s a u = .ok (s', u') → P s')
    {s s' : σ} {u u' : U} (hs : P s) (h : l.foldlM f s u = .ok (s', u')) : P s' := by
  induction l generalizing s u with
  | nil =>
    cases h
    exact hs
  | cons a l ih =>
    rw [List.foldlM_cons] at h
    obtain ⟨s₁, u₁, h₁, h₂⟩ := bind_eq_ok.mp h
    exact ih (fun s b u s' u' hb => hstep s b u s' u' (List.mem_cons_of_mem a hb))
      (hstep s a u s₁ u₁ (by simp) hs h₁) h₂

theorem foldlM_halts {f : σ → α → Gen U ε σ} {l : List α} (P : σ → Prop)
    (hstep : ∀ s a u s' u', a ∈ l → P s → f s a u = .ok (s', u') → P s')
    (hhalt : ∀ s a u, a ∈ l → P s → Halts (f s a) u) {s : σ} (hs : P s) (u : U) :
    Halts (l.foldlM f s) u := by
  induction l generalizing s u with
  | nil => exact halts_pure s u
  | cons a l ih =>
    rw [List.foldlM_cons]
    refine halts_bind (hhalt s a u (by simp) hs) fun s' u' h => ?_
    exact ih (fun s b u s' u' hb => hstep s b u s' u' (List.mem_cons_of_mem a hb))
      (fun s b u hb => hhalt s b u (List.mem_cons_of_mem a hb))
      (hstep s a u s' u' (by simp) hs h) u'

theorem mapM_eq_ok {f : α → Gen U ε β} {l : List α} {ys : List β} {u u' : U}
    (h : l.mapM f u = .ok (ys, u')) :
    List.Forall₂ (fun x y => ∃ v v', f x v = .ok (y, v')) l ys := by
  induction l generalizing ys u with
  | nil =>
    cases h
    exact .nil
  | cons x l ih =>
    rw [List.mapM_cons] at h
    obtain ⟨y, u₁, h₁, h₂⟩ := bind_eq_ok.mp h
    obtain ⟨ys', u₂, h₃, h₄⟩ := bind_eq_ok.mp h₂
    cases h₄
    exact .cons ⟨u, u₁, h₁⟩ (ih h₃)

/-- Every result of the loop comes from one of its rounds. -/
theorem exists_of_mem_mapM {f : α → Gen U ε β} {l : List α} {ys : List β} {u u' : U}
    (h : l.mapM f u = .ok (ys, u')) {y : β} (hy : y ∈ ys) :
    ∃ x ∈ l, ∃ v v', f x v = .ok (y, v') := by
  have hall := mapM_eq_ok h
  clear h
  induction hall with
  | nil => simp at hy
  | @cons x z l ys hz _ ih =>
    obtain rfl | hy := List.mem_cons.mp hy
    · exact ⟨x, by simp, hz⟩
    · obtain ⟨x', hx', hv⟩ := ih hy
      exact ⟨x', List.mem_cons_of_mem x hx', hv⟩

theorem mapM_halts {f : α → Gen U ε β} {l : List α} (h : ∀ x ∈ l, ∀ u, Halts (f x) u) (u : U) :
    Halts (l.mapM f) u := by
  induction l generalizing u with
  | nil => exact halts_pure [] u
  | cons x l ih =>
    rw [List.mapM_cons]
    refine halts_bind (h x (by simp) u) fun y u' _ => ?_
    exact halts_bind (ih (fun z hz => h z (List.mem_cons_of_mem x hz)) u')
      fun ys u'' _ => halts_pure _ u''

/-- A loop whose body is refined where it does not run out of fuel is refined likewise. -/
theorem mapM_mono {f f' : α → Gen U ε β} {l : List α}
    (hf : ∀ x ∈ l, ∀ u, f x u ≠ .timeout → f' x u = f x u) {u : U}
    (h : l.mapM f u ≠ .timeout) : l.mapM f' u = l.mapM f u := by
  induction l generalizing u with
  | nil => rfl
  | cons x l ih =>
    rw [List.mapM_cons] at h ⊢
    rw [List.mapM_cons]
    have hx : f x u ≠ .timeout := fun ht => h (bind_of_timeout ht _)
    have hx' := hf x (by simp) u hx
    cases hfx : f x u with
    | ok r =>
      obtain ⟨y, u₁⟩ := r
      rw [hfx] at hx'
      rw [bind_of_ok hfx] at h
      rw [bind_of_ok hfx, bind_of_ok hx']
      have htail : l.mapM f u₁ ≠ .timeout := fun ht => h (bind_of_timeout ht _)
      have hrest := ih (fun z hz => hf z (List.mem_cons_of_mem x hz)) htail
      cases hl : l.mapM f u₁ with
      | ok r =>
        obtain ⟨ys, u₂⟩ := r
        rw [hl] at hrest
        rw [bind_of_ok hl, bind_of_ok hrest]
      | error e => rw [bind_of_error hl, bind_of_error (hrest.trans hl)]
      | panic m => rw [bind_of_panic hl, bind_of_panic (hrest.trans hl)]
      | timeout => exact absurd hl htail
    | error e => rw [bind_of_error hfx, bind_of_error (hx'.trans hfx)]
    | panic m => rw [bind_of_panic hfx, bind_of_panic (hx'.trans hfx)]
    | timeout => exact absurd hfx hx

/-! ## While loops -/

/-- `while cond s { s = body s }`, for at most `fuel` tests of the condition. -/
def whileLoop (cond : σ → Bool) (body : σ → Gen U ε σ) : ℕ → σ → Gen U ε σ
  | 0, _ => Gen.timeout
  | fuel + 1, s => if cond s then body s >>= whileLoop cond body fuel else pure s

variable {cond : σ → Bool} {body : σ → Gen U ε σ}

/-- A loop that returns leaves through its condition, with its invariant intact. -/
theorem whileLoop_invariant (P : σ → Prop)
    (hstep : ∀ s u s' u', P s → cond s = true → body s u = .ok (s', u') → P s') {fuel : ℕ}
    {s s' : σ} {u u' : U} (hs : P s) (h : whileLoop cond body fuel s u = .ok (s', u')) :
    P s' ∧ cond s' = false := by
  induction fuel generalizing s u with
  | zero => cases h
  | succ fuel ih =>
    rw [whileLoop] at h
    split at h
    · next hc =>
      obtain ⟨s₁, u₁, h₁, h₂⟩ := bind_eq_ok.mp h
      exact ih (hstep s u s₁ u₁ hs hc h₁) h₂
    · next hc =>
      cases h
      exact ⟨hs, by simpa using hc⟩

/-- A loop whose every round shrinks a measure ends within that many rounds. -/
theorem whileLoop_halts (P : σ → U → Prop) (μ : σ → U → ℕ)
    (hhalt : ∀ s u, P s u → cond s = true → Halts (body s) u)
    (hstep : ∀ s u s' u', P s u → cond s = true → body s u = .ok (s', u') →
      P s' u' ∧ μ s' u' < μ s u) {fuel : ℕ} {s : σ} {u : U} (hs : P s u) (hf : μ s u < fuel) :
    Halts (whileLoop cond body fuel s) u := by
  induction fuel generalizing s u with
  | zero => omega
  | succ fuel ih =>
    rw [whileLoop]
    split
    · next hc =>
      refine halts_bind (hhalt s u hs hc) fun s' u' h => ?_
      obtain ⟨hs', hμ⟩ := hstep s u s' u' hs hc h
      exact ih hs' (by omega)
    · exact halts_pure s u

/-- A loop whose every round succeeds and keeps the condition true never ends. -/
theorem whileLoop_diverges (P : σ → U → Prop)
    (hstep : ∀ s u, P s u → cond s = true ∧ ∃ s' u', body s u = .ok (s', u') ∧ P s' u')
    (fuel : ℕ) {s : σ} {u : U} (hs : P s u) : whileLoop cond body fuel s u = .timeout := by
  induction fuel generalizing s u with
  | zero => rfl
  | succ fuel ih =>
    obtain ⟨hc, s', u', hb, hs'⟩ := hstep s u hs
    rw [whileLoop, if_pos hc, bind_of_ok hb]
    exact ih hs'

/-- More fuel changes nothing once a run has ended. -/
theorem whileLoop_mono {fuel fuel' : ℕ} (hle : fuel ≤ fuel') {s : σ} {u : U}
    (h : whileLoop cond body fuel s u ≠ .timeout) :
    whileLoop cond body fuel' s u = whileLoop cond body fuel s u := by
  induction fuel generalizing fuel' s u with
  | zero => exact absurd rfl h
  | succ fuel ih =>
    obtain ⟨fuel', rfl⟩ : ∃ k, fuel' = k + 1 := ⟨fuel' - 1, by omega⟩
    rw [whileLoop] at h ⊢
    rw [whileLoop]
    split
    · next hc =>
      rw [if_pos hc] at h
      cases hb : body s u with
      | ok r =>
        obtain ⟨s₁, u₁⟩ := r
        rw [bind_of_ok hb] at h
        rw [bind_of_ok hb, bind_of_ok hb]
        exact ih (by omega) h
      | error e => rw [bind_of_error hb, bind_of_error hb]
      | panic m => rw [bind_of_panic hb, bind_of_panic hb]
      | timeout => rw [bind_of_timeout hb, bind_of_timeout hb]
    · rfl

end RandomGen
