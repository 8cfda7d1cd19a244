import Mathlib.Data.List.Basic

/-! # Self-delimiting words

Words that can be cut off the front of a text in one way only, as long as a
stop character or the end follows. Words without stop characters are such
words, and so are bracketed lists of them.
-/

namespace SelfDelimiting

variable {α : Type*} {stop : α → Prop} {u v r r' : List α}

def Stops (stop : α → Prop) (r : List α) : Prop := ∀ c ∈ r.head?, stop c

theorem stops_cons {c : α} (h : stop c) : Stops stop (c :: r) := by
  rintro d hd
  obtain rfl := Option.some.inj hd
  exact h

/-- Both words are at the front of one text only if they are equal. -/
def Unambiguous (stop : α → Prop) (u v : List α) : Prop :=
  ∀ r r', Stops stop r → Stops stop r' → u ++ r = v ++ r' → u = v ∧ r = r'

def Starts (stop : α → Prop) (u : List α) : Prop := ∃ c ∈ u.head?, ¬ stop c

theorem unambiguous_of_free (hu : ∀ c ∈ u, ¬ stop c) (hv : ∀ c ∈ v, ¬ stop c) :
    Unambiguous stop u v := by
  induction u generalizing v with
  | nil =>
    rintro r r' hr hr' h
    cases v with
    | nil => exact ⟨rfl, h⟩
    | cons d v =>
      rw [List.nil_append] at h
      subst h
      exact absurd (hr d rfl) (hv d List.mem_cons_self)
  | cons c u ih =>
    rintro r r' hr hr' h
    cases v with
    | nil =>
      rw [List.nil_append] at h
      subst h
      exact absurd (hr' c rfl) (hu c List.mem_cons_self)
    | cons d v =>
      obtain ⟨rfl, ht⟩ := List.cons.inj h
      obtain ⟨rfl, rfl⟩ := ih (fun x hx => hu x (List.mem_cons_of_mem _ hx))
        (fun x hx => hv x (List.mem_cons_of_mem _ hx)) r r' hr hr' ht
      exact ⟨rfl, rfl⟩

theorem unambiguous_of_head (h : u.head? ≠ v.head?) (hu : u ≠ []) (hv : v ≠ []) :
    Unambiguous stop u v := by
  rintro r r' - - he
  have hh := congrArg List.head? he
  rw [List.head?_append_of_ne_nil _ hu, List.head?_append_of_ne_nil _ hv] at hh
  exact absurd hh h

/-- Words with a separator between them. -/
def joined (sep : α) : List (List α) → List α
  | [] => []
  | [x] => x
  | x :: y :: xs => x ++ sep :: joined sep (y :: xs)

theorem joined_cons {sep : α} {x : List α} {xs : List (List α)} (h : xs ≠ []) :
    joined sep (x :: xs) = x ++ sep :: joined sep xs := by
  cases xs with
  | nil => exact absurd rfl h
  | cons y xs => rfl

theorem joined_close {sep close : α} {x : List α} {xs : List (List α)} :
    joined sep (x :: xs) ++ close :: r =
      x ++ if xs = [] then close :: r else sep :: (joined sep xs ++ close :: r) := by
  cases xs with
  | nil => rfl
  | cons y xs => rw [joined_cons (List.cons_ne_nil _ _), if_neg (List.cons_ne_nil _ _)]; simp

theorem close_ne {sep close : α} {x : List α} {xs : List (List α)} (hc : stop close)
    (hx : Starts stop x) : close :: r ≠ joined sep (x :: xs) ++ close :: r' := by
  rintro h
  obtain ⟨c, hc', hn⟩ := hx
  cases x with
  | nil => cases hc'
  | cons d x =>
    obtain rfl := Option.some.inj hc'
    rw [joined_close, List.cons_append] at h
    exact hn ((List.cons.inj h).1 ▸ hc)

theorem joined_inj {sep close : α} (hs : stop sep) (hc : stop close) (hne : sep ≠ close)
    {xs ys : List (List α)} (h : ∀ x ∈ xs, ∀ y ∈ ys, Unambiguous stop x y)
    (hx : ∀ x ∈ xs, Starts stop x) (hy : ∀ y ∈ ys, Starts stop y)
    (he : joined sep xs ++ close :: r = joined sep ys ++ close :: r') : xs = ys ∧ r = r' := by
  induction xs generalizing ys with
  | nil =>
    cases ys with
    | nil => exact ⟨rfl, (List.cons.inj he).2⟩
    | cons y ys => exact absurd he (close_ne hc (hy y List.mem_cons_self))
  | cons x xs ih =>
    cases ys with
    | nil => exact absurd he.symm (close_ne hc (hx x List.mem_cons_self))
    | cons y ys =>
      rw [joined_close, joined_close] at he
      have hstop : ∀ (zs : List (List α)) (q : List α),
          Stops stop (if zs = [] then close :: q else sep :: (joined sep zs ++ close :: q)) := by
        intro zs q
        split
        · exact stops_cons hc
        · exact stops_cons hs
      obtain ⟨rfl, ht⟩ := h x List.mem_cons_self y List.mem_cons_self _ _ (hstop xs r)
        (hstop ys r') he
      by_cases hxs : xs = []
      · by_cases hys : ys = []
        · rw [if_pos hxs, if_pos hys] at ht
          exact ⟨by rw [hxs, hys], (List.cons.inj ht).2⟩
        · rw [if_pos hxs, if_neg hys] at ht
          exact absurd (List.cons.inj ht).1.symm hne
      · by_cases hys : ys = []
        · rw [if_neg hxs, if_pos hys] at ht
          exact absurd (List.cons.inj ht).1 hne
        · rw [if_neg hxs, if_neg hys] at ht
          obtain ⟨rfl, rfl⟩ := ih
            (fun x hx y hy => h x (List.mem_cons_of_mem _ hx) y (List.mem_cons_of_mem _ hy))
            (fun x hx' => hx x (List.mem_cons_of_mem _ hx'))
            (fun y hy' => hy y (List.mem_cons_of_mem _ hy')) (List.cons.inj ht).2
          exact ⟨rfl, rfl⟩

theorem unambiguous_bracketed {start sep close : α} (hs : stop sep) (hc : stop close)
    (hne : sep ≠ close) {xs ys : List (List α)}
    (h : ∀ x ∈ xs, ∀ y ∈ ys, Unambiguous stop x y) (hx : ∀ x ∈ xs, Starts stop x)
    (hy : ∀ y ∈ ys, Starts stop y) :
    Unambiguous stop (start :: (joined sep xs ++ [close]))
      (start :: (joined sep ys ++ [close])) := by
  rintro r r' - - he
  simp only [List.cons_append, List.append_assoc, List.nil_append, List.cons.injEq,
    true_and] at he
  obtain ⟨rfl, rfl⟩ := joined_inj hs hc hne h hx hy he
  exact ⟨rfl, rfl⟩

end SelfDelimiting
