import Mathlib.Data.List.Basic

/-! # Computations that raise

A sequence of steps returns exactly when each of its steps does, and a loop raises
what one of its rounds raises.
-/

namespace Raising

variable {ε α β : Type*}

theorem bind_eq_ok {x : Except ε α} {f : α → Except ε β} {b : β} :
    x.bind f = .ok b ↔ ∃ a, x = .ok a ∧ f a = .ok b := by
  cases x with
  | error e => exact ⟨nofun, fun ⟨_, h, _⟩ => nomatch h⟩
  | ok a => exact ⟨fun h => ⟨a, rfl, h⟩, fun ⟨_, ha, h⟩ => Except.ok.inj ha ▸ h⟩

theorem completes_congr {f : α → β} {x y : Except ε α} (h : x.map f = y.map f) :
    (∃ a, x = .ok a) ↔ ∃ a, y = .ok a := by
  cases x with
  | error e =>
    cases y with
    | error e' => exact iff_of_false nofun nofun
    | ok b => cases h
  | ok a =>
    cases y with
    | error e => cases h
    | ok b => exact iff_of_true ⟨a, rfl⟩ ⟨b, rfl⟩

theorem exists_of_isOk {x : Except ε α} (h : x.isOk = true) : ∃ a, x = .ok a := by
  cases x with
  | error e => cases h
  | ok a => exact ⟨a, rfl⟩

section Loop

variable {ε : Type} {xs : List α} {f : α → Except ε Unit} {e : ε}

theorem forM_error (h : xs.forM f = .error e) : ∃ x ∈ xs, f x = .error e := by
  induction xs with
  | nil => cases h
  | cons x xs ih =>
    rw [List.forM] at h
    cases hx : f x with
    | error e' =>
      rw [hx] at h
      exact ⟨x, List.mem_cons_self, hx.trans h⟩
    | ok u =>
      rw [hx] at h
      obtain ⟨y, hy, he⟩ := ih h
      exact ⟨y, List.mem_cons_of_mem _ hy, he⟩

theorem forM_ok : xs.forM f = .ok () ↔ ∀ x ∈ xs, f x = .ok () := by
  induction xs with
  | nil => exact ⟨fun _ => nofun, fun _ => rfl⟩
  | cons x xs ih =>
    rw [List.forM, List.forall_mem_cons, ← ih]
    exact bind_eq_ok.trans ⟨fun ⟨_, ha, h⟩ => ⟨ha, h⟩, fun ⟨ha, h⟩ => ⟨(), ha, h⟩⟩

theorem mapM_ok {g : α → Except ε β} {ys : List β} :
    xs.mapM g = .ok ys ↔ List.Forall₂ (fun x y => g x = .ok y) xs ys := by
  induction xs generalizing ys with
  | nil =>
    rw [List.mapM_nil]
    constructor
    · intro h
      obtain rfl := Except.ok.inj h
      exact .nil
    · rintro ⟨⟩
      rfl
  | cons x xs ih =>
    rw [List.mapM_cons]
    constructor
    · intro h
      obtain ⟨y, hy, h⟩ := bind_eq_ok.mp h
      obtain ⟨ys, hys, h⟩ := bind_eq_ok.mp h
      obtain rfl := Except.ok.inj h
      exact .cons hy (ih.mp hys)
    · rintro (_ | ⟨hy, hys⟩)
      exact bind_eq_ok.mpr ⟨_, hy, bind_eq_ok.mpr ⟨_, ih.mpr hys, rfl⟩⟩

theorem mapM_completes {g : α → Except ε β} :
    (∃ ys, xs.mapM g = .ok ys) ↔ ∀ x ∈ xs, ∃ y, g x = .ok y := by
  simp only [mapM_ok]
  induction xs with
  | nil => exact iff_of_true ⟨[], .nil⟩ nofun
  | cons x xs ih =>
    rw [List.forall_mem_cons, ← ih]
    constructor
    · rintro ⟨_, _ | ⟨hy, hys⟩⟩
      exact ⟨⟨_, hy⟩, ⟨_, hys⟩⟩
    · rintro ⟨⟨y, hy⟩, ⟨ys, hys⟩⟩
      exact ⟨y :: ys, .cons hy hys⟩

theorem exists_of_mem_mapM {g : α → Except ε β} {ys : List β} (h : xs.mapM g = .ok ys) {y : β}
    (hy : y ∈ ys) : ∃ x ∈ xs, g x = .ok y := by
  rw [mapM_ok] at h
  induction h with
  | nil => cases hy
  | @cons x y' xs ys hxy _ ih =>
    rcases List.mem_cons.mp hy with rfl | hy
    · exact ⟨x, List.mem_cons_self, hxy⟩
    · obtain ⟨x', hx', he⟩ := ih hy
      exact ⟨x', List.mem_cons_of_mem _ hx', he⟩

theorem map_of_mapM {γ : Type*} {g : α → Except ε β} {ys : List β} {f : β → γ} {f' : α → γ}
    (h : xs.mapM g = .ok ys) (hf : ∀ x y, g x = .ok y → f y = f' x) : ys.map f = xs.map f' := by
  rw [mapM_ok] at h
  induction h with
  | nil => rfl
  | cons hxy _ ih => rw [List.map_cons, List.map_cons, hf _ _ hxy, ih]

theorem mapM_map {γ : Type*} {g : α → Except ε β} {f : β → γ} :
    xs.mapM (fun x => (g x).map f) = (xs.mapM g).map (List.map f) := by
  induction xs with
  | nil => rfl
  | cons x xs ih =>
    rw [List.mapM_cons, List.mapM_cons, ih]
    cases g x with
    | error e => rfl
    | ok y =>
      cases xs.mapM g with
      | error e => rfl
      | ok ys => rfl

end Loop

end Raising
