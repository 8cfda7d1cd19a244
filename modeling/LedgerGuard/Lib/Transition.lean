import Mathlib.Data.List.Induction

/-! # Runs of a labelled transition system

A run lists the labels of its steps in order. A statement about histories is
proved by one step lemma: it holds at the start, and appending a step keeps it.
-/

namespace Transition

variable {σ α : Type*}

/-- The states that a list of labelled steps leads to. -/
inductive Run (step : σ → α → σ → Prop) (init : σ) : List α → σ → Prop
  | nil : Run step init [] init
  | snoc {as s a s'} : Run step init as s → step s a s' → Run step init (as ++ [a]) s'

/-- The steps of `step` whose label and source state meet a condition. -/
def Guarded (step : σ → α → σ → Prop) (ok : σ → α → Prop) (s : σ) (a : α) (s' : σ) : Prop :=
  ok s a ∧ step s a s'

variable {step : σ → α → σ → Prop} {init s : σ} {as : List α}

theorem Run.invariant {I : List α → σ → Prop} (h₀ : I [] init)
    (hstep : ∀ as s a s', I as s → step s a s' → I (as ++ [a]) s')
    (h : Run step init as s) : I as s := by
  induction h with
  | nil => exact h₀
  | snoc _ hs ih => exact hstep _ _ _ _ ih hs

theorem Run.invariant_state {I : σ → Prop} (h₀ : I init)
    (hstep : ∀ s a s', I s → step s a s' → I s') (h : Run step init as s) : I s :=
  h.invariant (I := fun _ s => I s) h₀ fun _ s a s' hi hs => hstep s a s' hi hs

theorem Run.step_at {a : α} {bs : List α} (h : Run step init (as ++ a :: bs) s) :
    ∃ s₁ s₂, Run step init as s₁ ∧ step s₁ a s₂ := by
  induction bs using List.reverseRecOn generalizing s with
  | nil =>
    generalize hes : as ++ [a] = es at h
    cases h with
    | nil => simp at hes
    | snoc hr hs =>
      obtain ⟨rfl, ha⟩ := List.append_inj' hes rfl
      obtain rfl := List.singleton_inj.mp ha
      exact ⟨_, _, hr, hs⟩
  | append_singleton bs b ih =>
    generalize hes : as ++ a :: (bs ++ [b]) = es at h
    cases h with
    | nil => simp at hes
    | snoc hr hs =>
      rw [← List.cons_append, ← List.append_assoc] at hes
      obtain ⟨rfl, -⟩ := List.append_inj' hes rfl
      exact ih hr

theorem Run.mono {step' : σ → α → σ → Prop} (hstep : ∀ s a s', step s a s' → step' s a s')
    (h : Run step init as s) : Run step' init as s := by
  induction h with
  | nil => exact .nil
  | snoc _ hs ih => exact ih.snoc (hstep _ _ _ hs)

theorem Run.foldl {f : σ → α → σ} (h : ∀ a ∈ as, ∀ s, step s a (f s a)) :
    Run step init as (as.foldl f init) := by
  induction as using List.reverseRecOn with
  | nil => exact .nil
  | append_singleton as a ih =>
    rw [List.foldl_append]
    exact (ih fun b hb => h b (List.mem_append_left _ hb)).snoc (h a (by simp) _)

theorem Run.of_foldlM {f : σ → α → Option σ} (hf : ∀ s a s', f s a = some s' → step s a s')
    (h : as.foldlM f init = some s) : Run step init as s := by
  induction as using List.reverseRecOn generalizing s with
  | nil =>
    obtain rfl := Option.some.inj h
    exact .nil
  | append_singleton as a ih =>
    rw [List.foldlM_append] at h
    obtain ⟨s₁, h₁, h₂⟩ := Option.bind_eq_some_iff.mp h
    exact (ih h₁).snoc (hf _ _ _ (by simpa using h₂))

/-- A run, and what is seen of its last state, from one evaluation. -/
theorem Run.exists_of_foldlM {β : Type*} {f : σ → α → Option σ}
    (hf : ∀ s a s', f s a = some s' → step s a s') {view : σ → β} {b : β}
    (h : (as.foldlM f init).map view = some b) : ∃ s, Run step init as s ∧ view s = b := by
  obtain ⟨s, hs, hview⟩ := Option.map_eq_some_iff.mp h
  exact ⟨s, of_foldlM hf hs, hview⟩

end Transition
