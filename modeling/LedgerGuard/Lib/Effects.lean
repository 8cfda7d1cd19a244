import Mathlib.Data.List.Basic

/-! # Programs with a state and exceptions

A program that raises keeps the changes it has made; whoever catches the exception
goes on from them. How a program ends follows the way it is put together, and what
each part keeps, the whole program keeps.
-/

namespace Effects

variable {σ ε α β : Type}

abbrev Program (σ ε α : Type) := ExceptT ε (StateM σ) α

/-- The program, begun in the first state, returns or raises in the second. -/
def Ends (x : Program σ ε α) (s : σ) (r : Except ε α) (s' : σ) : Prop := x.run.run s = (r, s')

variable {x : Program σ ε α} {f : α → Program σ ε β} {s s' t : σ} {r : Except ε α}
  {q : Except ε β} {a : α} {e : ε}

theorem ends_pure : Ends (pure a) s r s' ↔ r = .ok a ∧ s' = s := by
  change (Except.ok a, s) = (r, s') ↔ _
  rw [Prod.mk.injEq, eq_comm, @eq_comm _ s]

theorem ends_throw : Ends (throw e) s r s' ↔ r = .error e ∧ s' = s := by
  change (Except.error e, s) = (r, s') ↔ _
  rw [Prod.mk.injEq, eq_comm, @eq_comm _ s]

theorem ends_lift {y : Except ε α} : Ends (liftExcept y) s r s' ↔ r = y ∧ s' = s := by
  cases y with
  | ok a => exact ends_pure
  | error e => exact ends_throw

theorem ends_get {r : Except ε σ} : Ends (get : Program σ ε σ) s r s' ↔ r = .ok s ∧ s' = s := by
  change (Except.ok s, s) = (r, s') ↔ _
  rw [Prod.mk.injEq, eq_comm, @eq_comm _ s]

theorem ends_set {r : Except ε PUnit} :
    Ends (set t : Program σ ε PUnit) s r s' ↔ r = .ok ⟨⟩ ∧ s' = t := by
  change (Except.ok ⟨⟩, t) = (r, s') ↔ _
  rw [Prod.mk.injEq, eq_comm, @eq_comm _ t]

theorem ends_bind : Ends (x >>= f) s q s' ↔
    (∃ a t, Ends x s (.ok a) t ∧ Ends (f a) t q s') ∨
      ∃ e, Ends x s (.error e) s' ∧ q = .error e := by
  have hbind : (x >>= f).run.run s = match x.run.run s with
      | (.ok a, t) => (f a).run.run t
      | (.error e, t) => (.error e, t) := by
    change (ExceptT.bindCont f (x.run.run s).1).run (x.run.run s).2 = _
    rcases x.run.run s with ⟨_ | _, _⟩ <;> rfl
  unfold Ends
  rw [hbind]
  rcases x.run.run s with ⟨e | a, t⟩
  · constructor
    · intro h
      obtain ⟨rfl, rfl⟩ := Prod.mk.inj h
      exact Or.inr ⟨e, rfl, rfl⟩
    · rintro (⟨a, t', h, -⟩ | ⟨e', h, rfl⟩)
      · cases (Prod.mk.inj h).1
      · obtain ⟨he, rfl⟩ := Prod.mk.inj h
        rw [Except.error.inj he]
  · constructor
    · intro h
      exact Or.inl ⟨a, t, rfl, h⟩
    · rintro (⟨a', t', h, hq⟩ | ⟨e, h, -⟩)
      · obtain ⟨ha, rfl⟩ := Prod.mk.inj h
        rwa [Except.ok.inj ha]
      · cases (Prod.mk.inj h).1

theorem ends_lift_bind {y : Except ε α} : Ends (liftExcept y >>= f) s q s' ↔
    (∃ a, y = .ok a ∧ Ends (f a) s q s') ∨ ∃ e, y = .error e ∧ q = .error e ∧ s' = s := by
  rw [ends_bind]
  simp only [ends_lift]
  constructor
  · rintro (⟨a, t, ⟨ha, rfl⟩, h⟩ | ⟨e, ⟨he, hs⟩, hq⟩)
    · exact Or.inl ⟨a, ha.symm, h⟩
    · exact Or.inr ⟨e, he.symm, hq, hs⟩
  · rintro (⟨a, rfl, h⟩ | ⟨e, rfl, hq, hs⟩)
    · exact Or.inl ⟨a, s, ⟨rfl, rfl⟩, h⟩
    · exact Or.inr ⟨e, ⟨rfl, hs⟩, hq⟩

theorem ends_tryCatch {handle : ε → Program σ ε α} : Ends (tryCatch x handle) s r s' ↔
    (∃ a, Ends x s (.ok a) s' ∧ r = .ok a) ∨
      ∃ e t, Ends x s (.error e) t ∧ Ends (handle e) t r s' := by
  have hcatch : (tryCatch x handle : Program σ ε α).run.run s = match x.run.run s with
      | (.ok a, t) => (.ok a, t)
      | (.error e, t) => (handle e).run.run t := by
    change (match (x.run.run s).1 with
      | .ok a => pure (Except.ok a)
      | .error e => handle e : StateM σ (Except ε α)).run (x.run.run s).2 = _
    rcases x.run.run s with ⟨_ | _, _⟩ <;> rfl
  unfold Ends
  rw [hcatch]
  rcases x.run.run s with ⟨e | a, t⟩
  · constructor
    · intro h
      exact Or.inr ⟨e, t, rfl, h⟩
    · rintro (⟨a, h, -⟩ | ⟨e', t', h, hr⟩)
      · cases (Prod.mk.inj h).1
      · obtain ⟨he, rfl⟩ := Prod.mk.inj h
        rwa [Except.error.inj he]
  · constructor
    · intro h
      obtain ⟨rfl, rfl⟩ := Prod.mk.inj h
      exact Or.inl ⟨a, rfl, rfl⟩
    · rintro (⟨a', h, rfl⟩ | ⟨e, t', h, -⟩)
      · obtain ⟨ha, rfl⟩ := Prod.mk.inj h
        rw [Except.ok.inj ha]
      · cases (Prod.mk.inj h).1

/-- However the program ends, its first and its last state are related. -/
def Within (R : σ → σ → Prop) (x : Program σ ε α) : Prop := ∀ s r s', Ends x s r s' → R s s'

def Keeping (I : σ → Prop) (s t : σ) : Prop := I s → I t

instance (I : σ → Prop) : IsPreorder σ (Keeping I) where
  refl _ := id
  trans _ _ _ h h' hs := h' (h hs)

section Within

variable {R : σ → σ → Prop} [IsPreorder σ R]

theorem within_of_ends (h : ∀ s r s', Ends x s r s' → s' = s) : Within R x := by
  intro s r s' he
  rw [h s r s' he]
  exact refl s

theorem within_pure : Within R (pure a : Program σ ε α) :=
  within_of_ends fun _ _ _ h => (ends_pure.mp h).2

theorem within_throw : Within R (throw e : Program σ ε α) :=
  within_of_ends fun _ _ _ h => (ends_throw.mp h).2

theorem within_lift {y : Except ε α} : Within R (liftExcept y : Program σ ε α) :=
  within_of_ends fun _ _ _ h => (ends_lift.mp h).2

theorem within_bind (hx : Within R x) (hf : ∀ a, Within R (f a)) : Within R (x >>= f) := by
  intro s q s' h
  rcases ends_bind.mp h with ⟨a, t, ha, hq⟩ | ⟨e, he, -⟩
  · exact IsTrans.trans _ _ _ (hx _ _ _ ha) (hf a _ _ _ hq)
  · exact hx _ _ _ he

theorem within_tryCatch {handle : ε → Program σ ε α} (hx : Within R x)
    (hh : ∀ e, Within R (handle e)) : Within R (tryCatch x handle) := by
  intro s r s' h
  rcases ends_tryCatch.mp h with ⟨a, ha, -⟩ | ⟨e, t, he, hr⟩
  · exact hx _ _ _ ha
  · exact IsTrans.trans _ _ _ (hx _ _ _ he) (hh e _ _ _ hr)

theorem within_forM {g : α → Program σ ε PUnit} {xs : List α} (hg : ∀ a, Within R (g a)) :
    Within R (xs.forM g) := by
  induction xs with
  | nil => exact within_pure
  | cons a xs ih => exact within_bind (hg a) fun _ => ih

end Within

theorem forM_ok {g : α → Program σ ε PUnit} {xs : List α} {I : σ → Prop}
    (hg : ∀ a s s', I s → Ends (g a) s (.ok ⟨⟩) s' → I s')
    (h : Ends (xs.forM g) s (.ok ⟨⟩) s') (hs : I s) : I s' := by
  induction xs generalizing s with
  | nil =>
    obtain ⟨-, rfl⟩ := ends_pure.mp h
    exact hs
  | cons a xs ih =>
    rcases ends_bind.mp h with ⟨⟨⟩, t, ha, hr⟩ | ⟨e, -, hr⟩
    · exact ih hr (hg a s t hs ha)
    · cases hr

end Effects
