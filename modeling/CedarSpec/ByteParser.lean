import Mathlib

/-! Parsers that walk through a list of bytes, and what it means that a parser reads a piece of
its input whatever stands before and after it. -/

namespace ByteParser

abbrev Bytes := List UInt8

structure Iterator where
  data : Bytes
  pos : ℕ

structure ParseResult (α : Type) where
  pos : Iterator
  res : Except String α

def Parser (α : Type) : Type := Iterator → ParseResult α

variable {α β : Type}

def fail (msg : String) : Parser α := fun pos => ⟨pos, .error msg⟩

instance : Monad Parser where
  pure a := fun pos => ⟨pos, .ok a⟩
  bind f g := fun pos₀ =>
    match f pos₀ with
    | ⟨pos, .ok a⟩ => g a pos
    | ⟨pos, .error msg⟩ => ⟨pos, .error msg⟩

def ofExcept : Except String α → Parser α
  | .ok a => pure a
  | .error e => fail e

/-- Some computation on the iterator, which stays where it is. -/
def inspect (f : Iterator → α) : Parser α := fun pos => ⟨pos, .ok (f pos)⟩

def Iterator.remaining (i : Iterator) : ℕ := i.data.length - i.pos

def Iterator.forward (i : Iterator) (n : ℕ) : Iterator := ⟨i.data, i.pos + n⟩

def pos : Parser ℕ := inspect Iterator.pos
def remaining : Parser ℕ := inspect Iterator.remaining
def empty : Parser Bool := inspect fun i => i.remaining == 0

def forward (n : ℕ) : Parser Unit := fun pos => ⟨pos.forward n, .ok ()⟩

def nextByte : Parser (Option UInt8) := fun pos => ⟨pos.forward 1, .ok pos.data[pos.pos]?⟩

/-- The next `n` bytes, or none if there are fewer. -/
def nextBytes (n : ℕ) : Parser (Option Bytes) := fun pos =>
  if n > pos.remaining then ⟨pos.forward n, .ok none⟩
  else ⟨pos.forward n, .ok (some ((pos.data.drop pos.pos).take n))⟩

def eof : Parser Unit := fun pos =>
  if pos.pos ≥ pos.data.length then ⟨pos, .ok ()⟩ else ⟨pos, .error "Expected end of file"⟩

def run (p : Parser α) (data : Bytes) : Except String α :=
  match p ⟨data, 0⟩ with
  | ⟨_, .ok a⟩ => .ok a
  | ⟨_, .error msg⟩ => .error msg

/-! ## Reading -/

/-- The parser reads `bs` as `a`, in every context. -/
def Reads (p : Parser α) (bs : Bytes) (a : α) : Prop :=
  ∀ pre post, p ⟨pre ++ bs ++ post, pre.length⟩ =
    ⟨⟨pre ++ bs ++ post, pre.length + bs.length⟩, .ok a⟩

/-- The parser fails where `bs` comes next, in every context. -/
def Rejects (p : Parser α) (bs : Bytes) : Prop :=
  ∀ pre post, ∃ it msg, p ⟨pre ++ bs ++ post, pre.length⟩ = ⟨it, .error msg⟩

variable {p : Parser α} {f : α → Parser β} {bs cs : Bytes} {a : α} {b : β}

theorem bind_of_ok {it it' : Iterator} (h : p it = ⟨it', .ok a⟩) : (p >>= f) it = f a it' := by
  simp only [Bind.bind, h]

theorem bind_of_error {it it' : Iterator} {msg : String} (h : p it = ⟨it', .error msg⟩) :
    (p >>= f) it = ⟨it', .error msg⟩ := by
  simp only [Bind.bind, h]

theorem reads_pure (a : α) : Reads (pure a) [] a := by
  intro pre post
  rfl

theorem Reads.bind (h : Reads p bs a) (hf : Reads (f a) cs b) :
    Reads (p >>= f) (bs ++ cs) b := by
  intro pre post
  have hp := h pre (cs ++ post)
  have hq := hf (pre ++ bs) post
  simp only [List.append_assoc, List.length_append, Nat.add_assoc] at hp hq ⊢
  rw [bind_of_ok hp, hq]

/-- A parser that returns what another one read. -/
theorem Reads.bind_pure {g : α → β} (h : Reads p bs a) :
    Reads (p >>= fun x => pure (g x)) bs (g a) := by
  simpa using Reads.bind (f := fun x => pure (g x)) h (reads_pure (g a))

/-- A parser whose result only has to be looked at. -/
theorem Reads.bind_done (h : Reads p bs a) (hf : Reads (f a) [] b) : Reads (p >>= f) bs b := by
  simpa using h.bind hf

theorem Rejects.bind (h : Rejects p bs) : Rejects (p >>= f) bs := by
  intro pre post
  obtain ⟨it, msg, hp⟩ := h pre post
  exact ⟨it, msg, bind_of_error hp⟩

theorem Rejects.append (h : Rejects p bs) (cs : Bytes) : Rejects p (bs ++ cs) := by
  intro pre post
  simpa using h pre (cs ++ post)

theorem Reads.bind_rejects (h : Reads p bs a) (hf : Rejects (f a) cs) :
    Rejects (p >>= f) (bs ++ cs) := by
  intro pre post
  have hp := h pre (cs ++ post)
  obtain ⟨it, msg, hq⟩ := hf (pre ++ bs) post
  simp only [List.append_assoc, List.length_append] at hp hq ⊢
  exact ⟨it, msg, by rw [bind_of_ok hp, hq]⟩

theorem rejects_fail (msg : String) (bs : Bytes) : Rejects (fail msg : Parser α) bs := by
  intro pre post
  exact ⟨_, msg, rfl⟩

theorem Reads.run (h : Reads p bs a) : run p bs = .ok a := by
  have hp := h [] []
  simp only [List.nil_append, List.append_nil, List.length_nil, Nat.zero_add] at hp
  rw [ByteParser.run, hp]

theorem Rejects.run (h : Rejects p bs) : ∃ msg, run p bs = .error msg := by
  obtain ⟨it, msg, hp⟩ := h [] []
  simp only [List.nil_append, List.append_nil, List.length_nil] at hp
  exact ⟨msg, by rw [ByteParser.run, hp]⟩

/-! ## Bytes -/

theorem reads_nextByte (c : UInt8) : Reads nextByte [c] (some c) := by
  intro pre post
  simp [nextByte, Iterator.forward]

theorem reads_nextBytes (bs : Bytes) : Reads (nextBytes bs.length) bs (some bs) := by
  intro pre post
  have hle : ¬bs.length > Iterator.remaining ⟨pre ++ bs ++ post, pre.length⟩ := by
    simp only [Iterator.remaining, List.length_append]
    omega
  rw [nextBytes, if_neg hle]
  simp [Iterator.forward]

end ByteParser
