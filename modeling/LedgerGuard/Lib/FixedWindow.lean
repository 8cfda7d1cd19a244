import Mathlib.Data.Int.Init
import Mathlib.Data.List.Count
import Mathlib.Data.List.Induction
import Mathlib.Tactic.Linarith

/-! # Fixed windows

Times counted by the window they fall into, which is their quotient by the length
of a window. A limit on each window bounds what any stretch of that length can
admit, since such a stretch meets two windows at most.
-/

namespace FixedWindow

variable {length : ℤ} {limit : ℕ} {ts : List ℤ} {t w : ℤ}

/-- How many of the times fall into a window. -/
def used (length : ℤ) (ts : List ℤ) (w : ℤ) : ℕ := ts.countP (· / length = w)

def Limited (length : ℤ) (limit : ℕ) (ts : List ℤ) : Prop :=
  ∀ as t bs, ts = as ++ t :: bs → used length as (t / length) < limit

@[simp] theorem used_nil : used length [] w = 0 := rfl

theorem used_snoc : used length (ts ++ [t]) w =
    used length ts w + if t / length = w then 1 else 0 := by
  simp [used, List.countP_append, List.countP_cons]

theorem limited_nil : Limited length limit [] := by
  intro as t bs h
  simp at h

theorem limited_snoc (h : Limited length limit ts) (ht : used length ts (t / length) < limit) :
    Limited length limit (ts ++ [t]) := by
  intro as u bs he
  rcases List.eq_nil_or_concat bs with rfl | ⟨bs', v, rfl⟩
  · obtain ⟨rfl, hu⟩ := List.append_inj' he rfl
    obtain rfl := List.singleton_inj.mp hu
    exact ht
  · rw [List.concat_eq_append, ← List.cons_append, ← List.append_assoc] at he
    exact h as u bs' (List.append_inj' he rfl).1

theorem limited_of_snoc (h : Limited length limit (ts ++ [t])) :
    Limited length limit ts ∧ used length ts (t / length) < limit :=
  ⟨fun as u bs he => h as u (bs ++ [t]) (by simp [he]), h ts t [] rfl⟩

theorem used_le (h : Limited length limit ts) (w : ℤ) : used length ts w ≤ limit := by
  induction ts using List.reverseRecOn with
  | nil => simp
  | append_singleton ts t ih =>
    obtain ⟨hts, ht⟩ := limited_of_snoc h
    rw [used_snoc]
    split
    · rename_i hw
      rw [← hw]
      exact ht
    · exact ih hts

theorem window_of_stretch (hl : 0 < length) {a : ℤ} (ha : a ≤ t) (ht : t < a + length) :
    t / length = a / length ∨ t / length = a / length + 1 := by
  have h₁ : a / length ≤ t / length := Int.ediv_le_ediv hl ha
  have h₂ : t / length ≤ (a + length) / length := Int.ediv_le_ediv hl ht.le
  rw [Int.add_ediv_of_dvd_right (dvd_refl length), Int.ediv_self hl.ne'] at h₂
  omega

theorem countP_stretch_le (hl : 0 < length) (h : Limited length limit ts) (a : ℤ) :
    ts.countP (fun t => a ≤ t ∧ t < a + length) ≤ 2 * limit := by
  have htwo : ts.countP (fun t => a ≤ t ∧ t < a + length) ≤
      used length ts (a / length) + used length ts (a / length + 1) := by
    clear h
    induction ts with
    | nil => simp [used]
    | cons t ts ih =>
      simp only [used, List.countP_cons, decide_eq_true_eq] at ih ⊢
      by_cases ht : a ≤ t ∧ t < a + length
      · rcases window_of_stretch hl ht.1 ht.2 with hw | hw
        · rw [if_pos ht, if_pos hw]
          omega
        · rw [if_pos ht, if_pos hw]
          omega
      · rw [if_neg ht]
        omega
  have h₁ := used_le h (a / length)
  have h₂ := used_le h (a / length + 1)
  omega

end FixedWindow
