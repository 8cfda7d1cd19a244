import Mathlib.Data.List.Basic

/-! # Nested atomic blocks

Code that runs inside one database transaction, with a savepoint for each nested
atomic block. A block that ends in an exception, or whose connection is marked for
rollback, goes back to its savepoint; a statement fails while the connection is marked
or the transaction aborted.
-/

namespace Savepoint

variable {σ ε ω : Type}

/-- The part of a connection that code can see: what a savepoint restores, and why statements are
refused. -/
structure Conn (σ : Type) where
  data : σ
  needsRollback : Bool := false
  aborted : Bool := false
  deriving DecidableEq

/-- An exception of the database layer, or one of the code itself. -/
inductive Raised (ε : Type)
  | transactionManagementError
  | databaseError
  | internalError
  | own (e : ε)
  deriving DecidableEq

/-- How a block of code ends; `returned` is on its way out of the enclosing function. -/
inductive Outcome (ε : Type)
  | completed
  | returned
  | raised (e : Raised ε)
  deriving DecidableEq

structure Result (σ ε ω : Type) where
  outcome : Outcome ε
  conn : Conn σ
  log : List ω := []

def Outcome.isRaised : Outcome ε → Bool
  | .raised _ => true
  | _ => false

/-- What a statement raises before it reaches the tables. -/
def Conn.refusal (c : Conn σ) : Option (Raised ε) :=
  if c.needsRollback then some .transactionManagementError
  else if c.aborted then some .internalError
  else none

/-- A statement that reads or writes what savepoints restore. -/
def statement (f : Conn σ → Result σ ε ω) (c : Conn σ) : Result σ ε ω :=
  match c.refusal with
  | some e => { outcome := .raised e, conn := c }
  | none => f c

def release (saved : σ) (r : Result σ ε ω) : Result σ ε ω :=
  if r.outcome.isRaised || r.conn.needsRollback then { r with conn := { data := saved } }
  else if r.conn.aborted then { r with outcome := .raised .internalError, conn := { data := saved } }
  else r

/-- Leave a block that took no savepoint: the mark is all that a rollback leaves. -/
def leaveUnsaved (r : Result σ ε ω) : Result σ ε ω :=
  if r.outcome.isRaised || r.conn.needsRollback then
    { r with conn := { r.conn with needsRollback := true } }
  else r

/-- `with transaction.atomic()` inside a transaction. -/
def atomic (body : Conn σ → Result σ ε ω) (c : Conn σ) : Result σ ε ω :=
  if c.needsRollback then leaveUnsaved (body c)
  else if c.aborted then { outcome := .raised .internalError, conn := c }
  else release c.data (body c)

theorem statement_refused {f : Conn σ → Result σ ε ω} {c : Conn σ} {e : Raised ε}
    (h : c.refusal = some e) : statement f c = { outcome := .raised e, conn := c } := by
  rw [statement, h]

theorem statement_usable {f : Conn σ → Result σ ε ω} {c : Conn σ}
    (h : (c.refusal : Option (Raised ε)) = none) : statement f c = f c := by
  rw [statement, h]

theorem refusal_eq_none {c : Conn σ} :
    (c.refusal : Option (Raised ε)) = none ↔ c.needsRollback = false ∧ c.aborted = false := by
  unfold Conn.refusal
  split_ifs with h₁ h₂ <;> simp_all

def Conn.Usable (c : Conn σ) : Prop := c.needsRollback = false ∧ c.aborted = false

theorem atomic_eq_release {body : Conn σ → Result σ ε ω} {c : Conn σ} (h : c.Usable) :
    atomic body c = release c.data (body c) := by
  rw [atomic, if_neg (by simp [h.1]), if_neg (by simp [h.2])]

theorem release_raised {saved : σ} {r : Result σ ε ω} {e : Raised ε} (h : r.outcome = .raised e) :
    release saved r = ⟨.raised e, { data := saved }, r.log⟩ := by
  unfold release
  rw [h]
  rfl

theorem release_usable {saved : σ} {r : Result σ ε ω} (hc : r.conn.Usable)
    (h : r.outcome.isRaised = false) : release saved r = r := by
  simp [release, h, hc.1, hc.2]

theorem usable_release (saved : σ) (r : Result σ ε ω) : (release saved r).conn.Usable := by
  unfold release
  split_ifs with hr ha
  · exact ⟨rfl, rfl⟩
  · exact ⟨rfl, rfl⟩
  · rw [Bool.or_eq_true, not_or] at hr
    exact ⟨by simpa using hr.2, by simpa using ha⟩

theorem release_data (saved : σ) (r : Result σ ε ω) :
    (release saved r).conn.data = r.conn.data ∨ (release saved r).conn.data = saved := by
  unfold release
  split_ifs
  · exact Or.inr rfl
  · exact Or.inr rfl
  · exact Or.inl rfl

@[simp] theorem leaveUnsaved_data (r : Result σ ε ω) :
    (leaveUnsaved r).conn.data = r.conn.data := by
  unfold leaveUnsaved
  split_ifs <;> rfl

@[simp] theorem leaveUnsaved_log (r : Result σ ε ω) : (leaveUnsaved r).log = r.log := by
  unfold leaveUnsaved
  split_ifs <;> rfl

@[simp] theorem release_log (saved : σ) (r : Result σ ε ω) : (release saved r).log = r.log := by
  unfold release
  split_ifs <;> rfl

theorem atomic_keeps {P : σ → Prop} {body : Conn σ → Result σ ε ω} {c : Conn σ} (hc : P c.data)
    (hbody : P (body c).conn.data) : P (atomic body c).conn.data := by
  unfold atomic
  split_ifs
  · rwa [leaveUnsaved_data]
  · exact hc
  · rcases release_data c.data (body c) with h | h
    · rw [h]
      exact hbody
    · rw [h]
      exact hc

theorem mem_atomic_log {body : Conn σ → Result σ ε ω} {c : Conn σ} {x : ω}
    (h : x ∈ (atomic body c).log) : x ∈ (body c).log := by
  unfold atomic at h
  split_ifs at h
  · rwa [leaveUnsaved_log] at h
  · exact absurd h List.not_mem_nil
  · rwa [release_log] at h

end Savepoint
