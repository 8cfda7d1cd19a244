import Mathlib.Data.List.Basic

/-! # Reading a list page by page

A reader asks for the elements behind the last one that it has seen, named by its
key. Whatever the sizes of the pages, nothing is left out: what is not on a page is
behind its last element.
-/

namespace Paging

variable {α κ : Type*} [DecidableEq κ] (key : α → Option κ)

/-- The elements behind the first one with a key; all of them without a key. -/
def after (xs : List α) : Option κ → List α
  | none => xs
  | some k => (xs.dropWhile fun x => key x ≠ some k).drop 1

/-- A page of the elements behind a key, and whether there are more. -/
structure IsPage (xs : List α) (cursor : Option κ) (limit : ℕ) (rows : List α) (hasMore : Bool) :
    Prop where
  isPrefix : rows <+: after key xs cursor
  length_le : rows.length ≤ limit
  hasMore_iff : hasMore = true ↔ rows ≠ after key xs cursor

variable {key} {xs rows : List α} {cursor : Option κ} {limit : ℕ} {hasMore : Bool} {x last : α}
  {k : κ}

theorem after_suffix : after key xs cursor <:+ xs := by
  cases cursor with
  | none => exact List.suffix_rfl
  | some k => exact (List.drop_suffix _ _).trans (List.dropWhile_suffix _)

theorem after_cons_of_eq {xs : List α} (h : key x = some k) :
    after key (x :: xs) (some k) = xs := by
  rw [after, List.dropWhile_cons_of_neg (by simp [h]), List.drop_one, List.tail_cons]

theorem after_cons_of_ne {xs : List α} (h : key x ≠ some k) :
    after key (x :: xs) (some k) = after key xs (some k) := by
  rw [after, List.dropWhile_cons_of_pos (by simpa using h), after]

theorem mem_after_append {front rest : List α} (hlast : key last = some k) (hx : x ∈ rest) :
    x ∈ after key (front ++ last :: rest) (some k) := by
  induction front with
  | nil =>
    rw [List.nil_append, after_cons_of_eq hlast]
    exact hx
  | cons y front ih =>
    by_cases hy : key y = some k
    · rw [List.cons_append, after_cons_of_eq hy]
      exact List.mem_append_right _ (List.mem_cons_of_mem _ hx)
    · rw [List.cons_append, after_cons_of_ne hy]
      exact ih

theorem IsPage.mem_after (h : IsPage key xs cursor limit rows hasMore)
    (hlast : rows.getLast? = some last) (hkey : key last = some k)
    (hx : x ∈ after key xs cursor) : x ∈ rows ∨ x ∈ after key xs (some k) := by
  obtain ⟨rest, hrest⟩ := h.isPrefix
  obtain ⟨pre, hpre⟩ := @after_suffix _ _ _ key xs cursor
  rw [← hrest] at hx
  rcases List.mem_append.mp hx with hx | hx
  · exact Or.inl hx
  · right
    have hrows := List.dropLast_append_getLast? _ hlast
    have hxs : xs = (pre ++ rows.dropLast) ++ last :: rest := by
      rw [← hpre, ← hrest, ← hrows]
      simp
    rw [hxs]
    exact mem_after_append hkey hx

theorem IsPage.mem_last (h : IsPage key xs cursor limit rows false) (hx : x ∈ after key xs cursor) :
    x ∈ rows := by
  have heq : rows = after key xs cursor := by
    by_contra hne
    exact absurd (h.hasMore_iff.mpr hne) Bool.false_ne_true
  rwa [heq]

end Paging
