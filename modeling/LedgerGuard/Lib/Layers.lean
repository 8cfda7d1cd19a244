import Mathlib.Data.Fintype.Card
import Mathlib.Data.List.Perm.Basic
import Mathlib.Data.Set.Finite.Basic
import Mathlib.Logic.Relation
import Mathlib.Order.WellFounded

/-! # Peeling a relation in layers

In rounds, what nothing that remains refers to is taken from a list. The rounds
empty the list exactly if its elements do not refer to one another in a cycle, and
then every element comes before those it refers to.
-/

namespace Layers

open Relation

variable {α : Type*} {refs : α → α → Prop} {xs ys : List α} {x : α}

def Among (refs : α → α → Prop) (xs : List α) (a b : α) : Prop := a ∈ xs ∧ b ∈ xs ∧ refs a b

def Acyclic (refs : α → α → Prop) (xs : List α) : Prop := ∀ x, ¬ TransGen (Among refs xs) x x

def Leaf (refs : α → α → Prop) (xs : List α) (x : α) : Prop := ∀ y ∈ xs, ¬ refs y x

theorem Acyclic.mono (h : Acyclic refs ys) (hsub : xs ⊆ ys) : Acyclic refs xs := by
  intro x hx
  have hmono : ∀ a b, Among refs xs a b → Among refs ys a b := fun _ _ ⟨ha, hb, hr⟩ =>
    ⟨hsub ha, hsub hb, hr⟩
  exact h x (TransGen.mono hmono x x hx)

theorem Acyclic.exists_leaf (h : Acyclic refs xs) (hne : xs ≠ []) : ∃ x ∈ xs, Leaf refs xs x := by
  let before : {x // x ∈ xs} → {x // x ∈ xs} → Prop :=
    fun a b => TransGen (Among refs xs) a.val b.val
  have : Finite {x // x ∈ xs} := (List.finite_toSet xs).to_subtype
  have : IsTrans _ before := ⟨fun _ _ _ => TransGen.trans⟩
  have : Std.Irrefl before := ⟨fun a => h a.val⟩
  obtain ⟨y, hy⟩ := List.exists_mem_of_ne_nil xs hne
  obtain ⟨x, -, hmin⟩ := (Finite.wellFounded_of_trans_of_irrefl before).has_min Set.univ
    ⟨⟨y, hy⟩, trivial⟩
  use x.val, x.property
  intro z hz hr
  exact hmin ⟨z, hz⟩ trivial (.single ⟨hz, x.property, hr⟩)

theorem Acyclic.of_rest (h : Acyclic refs ys)
    (hrest : ∀ x ∈ xs, x ∈ ys ∨ Leaf refs xs x) : Acyclic refs xs := by
  have hkept : ∀ {a b}, Among refs xs a b → b ∈ ys := by
    rintro a b ⟨ha, hb, hr⟩
    exact (hrest b hb).resolve_right fun hleaf => hleaf a ha hr
  have hpath : ∀ {a b}, a ∈ ys → TransGen (Among refs xs) a b → TransGen (Among refs ys) a b := by
    intro a b ha hab
    induction hab with
    | single hr => exact .single ⟨ha, hkept hr, hr.2.2⟩
    | tail hab hr ih =>
      obtain ⟨_, -, hlast⟩ := TransGen.tail'_iff.mp hab
      exact ih.tail ⟨hkept hlast, hkept hr, hr.2.2⟩
  intro x hx
  obtain ⟨_, -, hlast⟩ := TransGen.tail'_iff.mp hx
  exact h x (hpath (hkept hlast) hx)

/-- The rounds that empty a list: its leaves come first, then the layers of the rest. -/
inductive Peeled (refs : α → α → Prop) : List α → List α → Prop
  | nil : Peeled refs [] []
  | layer {xs leaves rest order} (hparts : (leaves ++ rest).Perm xs)
      (hleaves : ∀ x ∈ leaves, Leaf refs xs x) (hrest : Peeled refs rest order) :
      Peeled refs xs (leaves ++ order)

variable {order : List α}

theorem Peeled.perm (h : Peeled refs xs order) : order.Perm xs := by
  induction h with
  | nil => exact .nil
  | layer hparts _ _ ih => exact (ih.append_left _).trans hparts

theorem Peeled.ordered (h : Peeled refs xs order) :
    order.Pairwise (fun a b => ¬ refs b a) ∧ ∀ x ∈ order, ¬ refs x x := by
  induction h with
  | nil => exact ⟨.nil, nofun⟩
  | @layer xs leaves rest order hparts hleaves hrest ih =>
    have hmem : ∀ y, y ∈ leaves ++ order → y ∈ xs := fun y hy =>
      hparts.subset ((hrest.perm.append_left leaves).subset hy)
    constructor
    · rw [List.pairwise_append]
      have hlayer : ∀ a ∈ leaves, ∀ b ∈ leaves, ¬ refs b a := fun a ha b hb =>
        hleaves a ha b (hmem b (List.mem_append_left _ hb))
      exact ⟨List.pairwise_of_forall_mem_list hlayer, ih.1, fun a ha b hb =>
        hleaves a ha b (hmem b (List.mem_append_right _ hb))⟩
    · intro x hx
      rcases List.mem_append.mp hx with hx | hx
      · exact hleaves x hx x (hmem x (List.mem_append_left _ hx))
      · exact ih.2 x hx

theorem Peeled.lt_of_refs (h : Peeled refs xs order) {i j : ℕ} (hi : i < order.length)
    (hj : j < order.length) (hr : refs order[i] order[j]) : i < j := by
  obtain ⟨hpairs, hself⟩ := h.ordered
  rcases Nat.lt_trichotomy i j with hlt | rfl | hgt
  · exact hlt
  · exact absurd hr (hself _ (List.getElem_mem hi))
  · exact absurd hr (List.pairwise_iff_getElem.mp hpairs j i hj hi hgt)

theorem Peeled.acyclic (h : Peeled refs xs order) : Acyclic refs xs := by
  induction h with
  | nil =>
    intro x hx
    obtain ⟨_, -, hlast⟩ := TransGen.tail'_iff.mp hx
    cases hlast.1
  | layer hparts hleaves _ ih =>
    apply ih.of_rest
    intro x hx
    exact (List.mem_append.mp (hparts.symm.subset hx)).symm.imp_right (hleaves x)

end Layers
