import Mathlib.Data.List.Basic

/-! # Computations that log and raise

A sequence of steps that logs what it does on the way and ends with a value or an
exception. What was logged before the exception stays logged.
-/

structure Logged (ε α β : Type) where
  log : List α
  outcome : Except ε β

namespace Logged

variable {ε α β γ : Type}

def bind (x : Logged ε α β) (f : β → Logged ε α γ) : Logged ε α γ :=
  match x.outcome with
  | .error e => ⟨x.log, .error e⟩
  | .ok b => ⟨x.log ++ (f b).log, (f b).outcome⟩

instance : Monad (Logged ε α) where
  pure b := ⟨[], .ok b⟩
  bind := bind

def lift (x : Except ε β) : Logged ε α β := ⟨[], x⟩

def raise (e : ε) : Logged ε α β := ⟨[], .error e⟩

def tell (a : α) : Logged ε α Unit := ⟨[a], .ok ()⟩

def each (f : β → Logged ε α Unit) : List β → Logged ε α Unit
  | [] => pure ()
  | x :: xs => do
    f x
    each f xs

variable {x : Logged ε α β} {f : β → Logged ε α γ} {a : α} {b : β} {c : γ}

theorem outcome_bind : (x >>= f).outcome = x.outcome.bind fun b => (f b).outcome := by
  change (x.bind f).outcome = _
  unfold bind
  cases x.outcome <;> rfl

theorem bind_ok : (x >>= f).outcome = .ok c ↔
    ∃ b, x.outcome = .ok b ∧ (f b).outcome = .ok c ∧ (x >>= f).log = x.log ++ (f b).log := by
  change (x.bind f).outcome = _ ↔ ∃ b, _ ∧ _ ∧ (x.bind f).log = _
  unfold bind
  cases x.outcome with
  | error e => simp
  | ok b => simp

theorem mem_log_bind : a ∈ (x >>= f).log ↔
    a ∈ x.log ∨ ∃ b, x.outcome = .ok b ∧ a ∈ (f b).log := by
  change a ∈ (x.bind f).log ↔ _
  unfold bind
  cases x.outcome with
  | error e => simp
  | ok b => simp

variable {g : β → Logged ε α Unit} {xs : List β}

theorem outcome_each : (each g xs).outcome = xs.forM fun b => (g b).outcome := by
  induction xs with
  | nil => rfl
  | cons x xs ih =>
    rw [List.forM, ← ih]
    exact outcome_bind

theorem each_ok (h : (each g xs).outcome = .ok ()) :
    ∀ b ∈ xs, (g b).outcome = .ok () ∧ ∀ a ∈ (g b).log, a ∈ (each g xs).log := by
  induction xs with
  | nil => exact List.forall_mem_nil _
  | cons x xs ih =>
    obtain ⟨_, hx, hxs, hlog⟩ := bind_ok.mp h
    change (each g (x :: xs)).log = _ at hlog
    intro b hb
    rw [hlog]
    rcases List.mem_cons.mp hb with rfl | hb
    · exact ⟨hx, fun a ha => List.mem_append_left _ ha⟩
    · obtain ⟨ho, hl⟩ := ih hxs b hb
      exact ⟨ho, fun a ha => List.mem_append_right _ (hl a ha)⟩

end Logged
