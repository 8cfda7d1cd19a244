import Mathlib.Data.List.Dedup
import Mathlib.Data.List.Sort

/-! # Sorting by a key

A stable sort by a key, and the sorted list of distinct elements that
represents a finite set. Sorting never changes membership, and a list is
determined by its elements once its keys are distinct.
-/

namespace Ordered

variable {α κ : Type*} [LinearOrder κ]

def sortBy (key : α → κ) (xs : List α) : List α :=
  xs.insertionSort (fun a b => key a ≤ key b)

def sortedSet [DecidableEq α] (key : α → κ) (xs : List α) : List α := sortBy key xs.dedup

@[simp] theorem mem_sortBy {key : α → κ} {xs : List α} {a : α} : a ∈ sortBy key xs ↔ a ∈ xs :=
  List.mem_insertionSort _

@[simp] theorem mem_sortedSet [DecidableEq α] {key : α → κ} {xs : List α} {a : α} :
    a ∈ sortedSet key xs ↔ a ∈ xs := by
  simp [sortedSet]

theorem sortBy_perm (key : α → κ) (xs : List α) : (sortBy key xs).Perm xs :=
  List.perm_insertionSort _ _

theorem pairwise_sortBy (key : α → κ) (xs : List α) :
    (sortBy key xs).Pairwise fun a b => key a ≤ key b :=
  List.pairwise_insertionSort (fun a b => key a ≤ key b) xs

theorem sortBy_eq_nil {key : α → κ} {xs : List α} : sortBy key xs = [] ↔ xs = [] := by
  simp only [List.eq_nil_iff_forall_not_mem, mem_sortBy]

theorem mem_take_sortBy {key : α → κ} {xs : List α} {n : ℕ} {a b : α} (ha : a ∈ xs)
    (hb : b ∈ (sortBy key xs).take n) : a ∈ (sortBy key xs).take n ∨ key b ≤ key a := by
  have hsorted := pairwise_sortBy key xs
  have hmem : a ∈ sortBy key xs := mem_sortBy.mpr ha
  rw [← List.take_append_drop n (sortBy key xs)] at hsorted hmem
  rcases List.mem_append.mp hmem with ht | hd
  · exact Or.inl ht
  · exact Or.inr ((List.pairwise_append.mp hsorted).2.2 b hb a hd)

theorem sortBy_congr {key : α → κ} {xs ys : List α} (hx : (xs.map key).Nodup)
    (h : xs.Perm ys) : sortBy key xs = sortBy key ys := by
  have hp : (sortBy key xs).Perm (sortBy key ys) :=
    (sortBy_perm key xs).trans (h.trans (sortBy_perm key ys).symm)
  apply hp.eq_of_pairwise ?_ (pairwise_sortBy key xs) (pairwise_sortBy key ys)
  intro a b ha hb hab hba
  exact List.inj_on_of_nodup_map hx (mem_sortBy.mp ha) (h.mem_iff.mpr (mem_sortBy.mp hb))
    (le_antisymm hab hba)

theorem map_sortBy_congr {key : α → κ} {xs ys : List α} (h : (xs.map key).Perm (ys.map key)) :
    (sortBy key xs).map key = (sortBy key ys).map key := by
  have hsorted : ∀ zs : List α, ((sortBy key zs).map key).Pairwise fun a b => a ≤ b := by
    intro zs
    rw [List.pairwise_map]
    exact pairwise_sortBy key zs
  have hp : ((sortBy key xs).map key).Perm ((sortBy key ys).map key) :=
    ((sortBy_perm key xs).map key).trans (h.trans ((sortBy_perm key ys).map key).symm)
  exact hp.eq_of_pairwise (fun _ _ _ _ hab hba => le_antisymm hab hba) (hsorted xs) (hsorted ys)

theorem filter_sortBy_congr {key : α → κ} {xs ys : List α} {P : α → Bool}
    (hx : (xs.map key).Nodup) (h : (xs.filter P).Perm (ys.filter P)) :
    (sortBy key xs).filter P = (sortBy key ys).filter P := by
  have hsorted : ∀ zs : List α,
      ((sortBy key zs).filter P).Pairwise fun a b => key a ≤ key b := fun zs =>
    (pairwise_sortBy key zs).sublist List.filter_sublist
  have hp : ((sortBy key xs).filter P).Perm ((sortBy key ys).filter P) :=
    ((sortBy_perm key xs).filter P).trans (h.trans ((sortBy_perm key ys).filter P).symm)
  refine hp.eq_of_pairwise ?_ (hsorted xs) (hsorted ys)
  intro a b ha hb hab hba
  have hm : ∀ c ∈ (sortBy key xs).filter P, c ∈ xs := fun c hc =>
    mem_sortBy.mp (List.mem_filter.mp hc).1
  exact List.inj_on_of_nodup_map hx (hm a ha) (hm b (hp.mem_iff.mpr hb)) (le_antisymm hab hba)

theorem flatMap_sortBy_congr {β : Type*} {key : α → κ} {xs ys zs : List α} {f : α → List β}
    (hx : (xs.map key).Nodup) (h : xs.Perm (ys ++ zs)) (hz : ∀ a ∈ zs, f a = []) :
    (sortBy key xs).flatMap f = (sortBy key ys).flatMap f := by
  have hfilter : ∀ as : List α, as.flatMap f = (as.filter fun a => !(f a).isEmpty).flatMap f := by
    intro as
    induction as with
    | nil => rfl
    | cons a as ih =>
      rw [List.flatMap_cons, ih]
      by_cases ha : f a = []
      · rw [ha, List.nil_append, List.filter_cons_of_neg (by simp [ha])]
      · rw [List.filter_cons_of_pos (by simpa using ha), List.flatMap_cons]
  have hnone : zs.filter (fun a => !(f a).isEmpty) = [] := by
    rw [List.filter_eq_nil_iff]
    intro a ha
    simp [hz a ha]
  have hp : (xs.filter fun a => !(f a).isEmpty).Perm (ys.filter fun a => !(f a).isEmpty) := by
    have hp := h.filter fun a => !(f a).isEmpty
    rwa [List.filter_append, hnone, List.append_nil] at hp
  rw [hfilter, hfilter (sortBy key ys), filter_sortBy_congr hx hp]

theorem sortedSet_congr [DecidableEq α] {key : α → κ} (hk : Function.Injective key)
    {xs ys : List α} (h : ∀ a, a ∈ xs ↔ a ∈ ys) : sortedSet key xs = sortedSet key ys := by
  refine sortBy_congr ((List.nodup_map_iff hk).mpr xs.nodup_dedup) ?_
  rw [List.perm_ext_iff_of_nodup xs.nodup_dedup ys.nodup_dedup]
  intro a
  rw [List.mem_dedup, List.mem_dedup, h]

theorem filter_perm {xs ys : List α} (hx : xs.Nodup) (hy : ys.Nodup) {P : α → Bool}
    (h : ∀ a, P a = true → (a ∈ xs ↔ a ∈ ys)) : (xs.filter P).Perm (ys.filter P) := by
  rw [List.perm_ext_iff_of_nodup (hx.filter _) (hy.filter _)]
  intro a
  rw [List.mem_filter, List.mem_filter]
  exact and_congr_left (h a)

theorem map_filterMap_sublist {α β γ : Type*} {f : α → Option β} {g : β → γ} {g' : α → γ}
    (h : ∀ a b, f a = some b → g b = g' a) (xs : List α) :
    ((xs.filterMap f).map g).Sublist (xs.map g') := by
  induction xs with
  | nil => exact .slnil
  | cons a xs ih =>
    cases ha : f a with
    | none =>
      rw [List.filterMap_cons_none ha]
      exact ih.cons _
    | some b =>
      rw [List.filterMap_cons_some ha, List.map_cons, List.map_cons, h a b ha]
      exact ih.cons_cons _

theorem find?_of_nodup {α κ : Type*} [DecidableEq κ] {key : α → κ} {xs : List α} {a : α}
    (h : (xs.map key).Nodup) (ha : a ∈ xs) : xs.find? (key · = key a) = some a := by
  cases hf : xs.find? (key · = key a) with
  | none =>
    have hn := List.find?_eq_none.mp hf a ha
    simp at hn
  | some b =>
    have hk : key b = key a := by simpa using List.find?_some hf
    rw [List.inj_on_of_nodup_map h (List.mem_of_find?_eq_some hf) ha hk]

/-- A scan reads a list up to the first element beyond `b`, and this one is not beyond `m`. -/
def StopsWithin (b m : κ) (xs : List κ) : Prop := ∀ x ∈ xs.find? (b < ·), x ≤ m

section Scan

variable {b m : κ} {xs : List κ}

theorem stopsWithin_cons {x : κ} (hb : b ≤ m) :
    StopsWithin b m (x :: xs) ↔ x ≤ m ∧ (b < x ∨ StopsWithin b m xs) := by
  unfold StopsWithin
  by_cases hx : b < x
  · simp [hx]
  · simp [hx, (not_lt.mp hx).trans hb]

theorem forall_read_iff (hb : b ≤ m) :
    (∀ x ∈ xs.takeWhile (· ≤ b) ++ (xs.dropWhile (· ≤ b)).take 1, x ≤ m) ↔
      StopsWithin b m xs := by
  induction xs with
  | nil => simp [StopsWithin]
  | cons x xs ih =>
    rw [stopsWithin_cons hb, ← ih]
    by_cases hx : x ≤ b
    · simp [hx, hx.trans hb]
    · simp [hx, not_le.mp hx]

theorem StopsWithin.of_forall (h : ∀ x ∈ xs, x ≤ m) : StopsWithin b m xs :=
  fun x hx => h x (List.mem_of_find?_eq_some hx)

theorem StopsWithin.escapes (hb : b ≤ m) (h : StopsWithin b m xs) :
    (∀ x ∈ xs, x ≤ m) ∨ ∃ x ∈ xs, b < x ∧ x ≤ m := by
  cases hf : xs.find? (b < ·) with
  | none =>
    refine Or.inl fun x hx => ?_
    have hle : x ≤ b := by simpa using List.find?_eq_none.mp hf x hx
    exact hle.trans hb
  | some x =>
    have hx := List.find?_some hf
    exact Or.inr ⟨x, List.mem_of_find?_eq_some hf, by simpa using hx, h x hf⟩

theorem stopsWithin_ascending (hb : b ≤ m) (hs : xs.Pairwise (· ≤ ·)) :
    StopsWithin b m xs ↔ (∀ x ∈ xs, x ≤ m) ∨ ∃ x ∈ xs, b < x ∧ x ≤ m := by
  refine ⟨StopsWithin.escapes hb, ?_⟩
  rintro (h | h)
  · exact .of_forall h
  · induction xs with
    | nil => simp at h
    | cons x xs ih =>
      obtain ⟨hx, hs⟩ := List.pairwise_cons.mp hs
      obtain ⟨y, hy, hby, hym⟩ := h
      rw [stopsWithin_cons hb]
      rcases List.mem_cons.mp hy with rfl | hy
      · exact ⟨hym, Or.inl hby⟩
      · exact ⟨(hx y hy).trans hym, Or.inr (ih hs ⟨y, hy, hby, hym⟩)⟩

theorem stopsWithin_descending (hb : b ≤ m) (hs : xs.Pairwise (· ≥ ·)) :
    StopsWithin b m xs ↔ ∀ x ∈ xs, x ≤ m := by
  refine ⟨?_, .of_forall⟩
  intro h x hx
  cases xs with
  | nil => simp at hx
  | cons y ys =>
    rw [stopsWithin_cons hb] at h
    rcases List.mem_cons.mp hx with rfl | hx
    · exact h.1
    · exact ((List.pairwise_cons.mp hs).1 x hx).trans h.1

end Scan

end Ordered
