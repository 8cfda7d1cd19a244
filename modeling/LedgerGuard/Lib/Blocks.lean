import LedgerGuard.Lib.Savepoint

/-! # Blocks of statements

Code that reads and writes tables and may raise. What it wrote before it raises stays
written, unless the code stands in an atomic block. A handler sees the tables that the
block left to it. The connection has no marks, so an atomic block is that of the
savepoints.
-/

/-- What a block leaves: its value or exception, and the tables. -/
structure Ran (σ ε α : Type) where
  outcome : Except ε α
  state : σ

/-- What is seen of it behind a savepoint. -/
def Ran.result {σ ε α : Type} (r : Ran σ ε α) : Savepoint.Result σ ε Empty where
  outcome :=
    match r.outcome with
    | .ok _ => .completed
    | .error e => .raised (.own e)
  conn := { data := r.state }

def Block (σ ε α : Type) : Type := σ → Ran σ ε α

namespace Block

variable {σ ε α β : Type}

def bind (x : Block σ ε α) (f : α → Block σ ε β) : Block σ ε β := fun s =>
  match x s with
  | ⟨.ok a, s'⟩ => f a s'
  | ⟨.error e, s'⟩ => ⟨.error e, s'⟩

instance : Monad (Block σ ε) where
  pure a := fun s => ⟨.ok a, s⟩
  bind := bind

def read : Block σ ε σ := fun s => ⟨.ok s, s⟩

def write (f : σ → σ) : Block σ ε Unit := fun s => ⟨.ok (), f s⟩

def raise (e : ε) : Block σ ε α := fun s => ⟨.error e, s⟩

def atomic (x : Block σ ε α) : Block σ ε α := fun s =>
  match x s with
  | ⟨.ok a, s'⟩ => ⟨.ok a, s'⟩
  | ⟨.error e, _⟩ => ⟨.error e, s⟩

def attempt (x : Block σ ε α) (handler : ε → Block σ ε α) : Block σ ε α := fun s =>
  match x s with
  | ⟨.ok a, s'⟩ => ⟨.ok a, s'⟩
  | ⟨.error e, s'⟩ => handler e s'

/-- What a function leaves that changes the tables or raises. -/
def settle (s : σ) : Except ε (σ × α) → Ran σ ε α
  | .ok (s', a) => ⟨.ok a, s'⟩
  | .error e => ⟨.error e, s⟩

variable {x : Block σ ε α} {f : α → Block σ ε β} {s s' : σ} {a : α} {e : ε}

theorem bind_ok (h : x s = ⟨.ok a, s'⟩) : (x >>= f) s = f a s' := by
  change bind x f s = _
  rw [bind, h]

theorem bind_error (h : x s = ⟨.error e, s'⟩) : (x >>= f) s = ⟨.error e, s'⟩ := by
  change bind x f s = _
  rw [bind, h]

@[simp] theorem read_bind {f : σ → Block σ ε β} : (read >>= f) s = f s s := rfl

@[simp] theorem write_bind {g : σ → σ} {f : Unit → Block σ ε β} :
    (write g >>= f) s = f () (g s) := rfl

@[simp] theorem pure_apply : (pure a : Block σ ε α) s = ⟨.ok a, s⟩ := rfl

@[simp] theorem raise_apply : (raise e : Block σ ε α) s = ⟨.error e, s⟩ := rfl

theorem atomic_ok (h : x s = ⟨.ok a, s'⟩) : atomic x s = ⟨.ok a, s'⟩ := by
  rw [atomic, h]

theorem atomic_error (h : (x s).outcome = .error e) : atomic x s = ⟨.error e, s⟩ := by
  unfold atomic
  split
  case h_1 a s' hx =>
    rw [hx] at h
    cases h
  case h_2 e' s' hx =>
    rw [hx] at h
    rw [Except.error.inj h]

theorem atomic_outcome : (atomic x s).outcome = (x s).outcome := by
  unfold atomic
  split
  case h_1 a s' hx => rw [hx]
  case h_2 e s' hx => rw [hx]

theorem savepoint_atomic :
    Savepoint.atomic (fun c => (x c.data).result) { data := s } = (atomic x s).result := by
  rw [Savepoint.atomic_eq_release ⟨rfl, rfl⟩]
  unfold atomic
  split
  case h_1 a s' hx => exact congrArg (Savepoint.release s) (congrArg Ran.result hx)
  case h_2 e s' hx => exact congrArg (Savepoint.release s) (congrArg Ran.result hx)

theorem atomic_keeps {P : σ → Prop} (hs : P s) (hx : P (x s).state) : P (atomic x s).state := by
  have h := @Savepoint.atomic_keeps σ ε Empty P (fun c => (x c.data).result) { data := s } hs hx
  rw [savepoint_atomic] at h
  exact h

theorem attempt_ok {handler : ε → Block σ ε α} (h : x s = ⟨.ok a, s'⟩) :
    attempt x handler s = ⟨.ok a, s'⟩ := by
  rw [attempt, h]

theorem attempt_error {handler : ε → Block σ ε α} (h : x s = ⟨.error e, s'⟩) :
    attempt x handler s = handler e s' := by
  rw [attempt, h]

end Block
