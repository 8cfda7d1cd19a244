import Mathlib.Data.List.Basic
import Mathlib.Data.List.Nodup

/-! # Grouping values by key

An association list from keys to the values pushed under them, in the order of
the pushes. Built from a list of pairs, its entry at a key holds exactly the
values paired with that key.
-/

namespace Grouping

variable {κ β : Type*} [DecidableEq κ]

/-- Append a value to the entry of its key, creating the entry when it is missing. -/
def push : List (κ × List β) → κ → β → List (κ × List β)
  | [], k, b => [(k, [b])]
  | (k', bs) :: d, k, b => if k' = k then (k', bs ++ [b]) :: d else (k', bs) :: push d k b

def values : List (κ × List β) → κ → List β
  | [], _ => []
  | (k', bs) :: d, k => if k' = k then bs else values d k

def keys (d : List (κ × List β)) : List κ := d.map Prod.fst

def collect (pairs : List (κ × β)) (d : List (κ × List β)) : List (κ × List β) :=
  pairs.foldl (fun d kb => push d kb.1 kb.2) d

variable {d : List (κ × List β)} {k k' : κ} {b : β}

theorem values_push : values (push d k b) k' = values d k' ++ if k = k' then [b] else [] := by
  induction d with
  | nil => by_cases h : k = k' <;> simp [push, values, h]
  | cons e d ih =>
    obtain ⟨k₀, bs⟩ := e
    by_cases h : k₀ = k
    · subst h
      by_cases h' : k₀ = k' <;> simp [push, values, h']
    · by_cases h' : k₀ = k'
      · subst h'
        simp [push, values, h, Ne.symm h]
      · simp [push, values, h, h', ih]

theorem mem_keys_push : k' ∈ keys (push d k b) ↔ k' ∈ keys d ∨ k' = k := by
  induction d with
  | nil => simp [push, keys]
  | cons e d ih =>
    obtain ⟨k₀, bs⟩ := e
    by_cases h : k₀ = k
    · subst h
      simp only [push, if_pos, keys, List.map_cons, List.mem_cons]
      tauto
    · simp only [push, if_neg h, keys, List.map_cons, List.mem_cons] at ih ⊢
      rw [ih, or_assoc]

theorem nodup_keys_push (h : (keys d).Nodup) : (keys (push d k b)).Nodup := by
  induction d with
  | nil => simp [push, keys]
  | cons e d ih =>
    obtain ⟨k₀, bs⟩ := e
    obtain ⟨hn, hd⟩ := List.nodup_cons.mp h
    by_cases hk : k₀ = k
    · simpa [push, hk, keys] using h
    · have hk₀ : k₀ ∉ keys (push d k b) := fun hm => (mem_keys_push.mp hm).elim hn hk
      simpa [push, hk, keys] using ⟨by simpa [keys] using hk₀, ih hd⟩

theorem values_eq_of_mem (h : (keys d).Nodup) {bs : List β} (hm : (k, bs) ∈ d) :
    values d k = bs := by
  induction d with
  | nil => simp at hm
  | cons e d ih =>
    obtain ⟨hn, hd⟩ := List.nodup_cons.mp h
    rcases List.mem_cons.mp hm with rfl | ht
    · simp [values]
    · have hne : e.1 ≠ k := fun he => hn (he ▸ List.mem_map.mpr ⟨_, ht, rfl⟩)
      simp only [values, if_neg hne]
      exact ih hd ht

theorem mem_of_mem_keys (h : k ∈ keys d) : (k, values d k) ∈ d := by
  induction d with
  | nil => simp [keys] at h
  | cons e d ih =>
    obtain ⟨k₀, bs⟩ := e
    by_cases hk : k₀ = k
    · subst hk
      simp [values]
    · have hd : k ∈ keys d := by simpa [keys, Ne.symm hk] using h
      simpa [values, hk] using Or.inr (ih hd)

variable {pairs : List (κ × β)}

theorem collect_append (ps : List (κ × β)) :
    collect (pairs ++ ps) d = collect ps (collect pairs d) := List.foldl_append

theorem values_collect : values (collect pairs d) k =
    values d k ++ (pairs.filter (fun kb => kb.1 = k)).map Prod.snd := by
  induction pairs generalizing d with
  | nil => simp [collect]
  | cons kb pairs ih =>
    have h := ih (d := push d kb.1 kb.2)
    rw [values_push] at h
    change values (collect pairs (push d kb.1 kb.2)) k = _
    rw [h]
    by_cases hk : kb.1 = k <;> simp [hk]

theorem mem_keys_collect : k ∈ keys (collect pairs d) ↔ k ∈ keys d ∨ ∃ b, (k, b) ∈ pairs := by
  induction pairs generalizing d with
  | nil => simp [collect]
  | cons kb pairs ih =>
    change k ∈ keys (collect pairs (push d kb.1 kb.2)) ↔ _
    rw [ih, mem_keys_push, or_assoc]
    obtain ⟨k₀, b₀⟩ := kb
    simp only [List.mem_cons, Prod.mk.injEq]
    constructor
    · rintro (h | rfl | ⟨b, h⟩)
      · exact Or.inl h
      · exact Or.inr ⟨b₀, Or.inl ⟨rfl, rfl⟩⟩
      · exact Or.inr ⟨b, Or.inr h⟩
    · rintro (h | ⟨b, ⟨rfl, rfl⟩ | h⟩)
      · exact Or.inl h
      · exact Or.inr (Or.inl rfl)
      · exact Or.inr (Or.inr ⟨b, h⟩)

theorem nodup_keys_collect (h : (keys d).Nodup) : (keys (collect pairs d)).Nodup := by
  induction pairs generalizing d with
  | nil => exact h
  | cons kb pairs ih => exact ih (nodup_keys_push h)

end Grouping
