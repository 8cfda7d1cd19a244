import Mathlib.Data.List.Basic

/-! # Deletions under references

The rows of one table refer to rows of another by a key. A protecting reference
refuses the deletion of the row it leads to, a cascading one is deleted with it;
either way no reference is left dangling.
-/

namespace References

variable {α β κ : Type*} [DecidableEq κ] (key : α → κ) (refers : β → Option κ)

def delete (p : α → Bool) (rows : List α) : List α := rows.filter fun r => !p r

def referenced (others : List β) (r : α) : Bool := others.any fun o => refers o = some (key r)

/-- Delete rows, unless the other table refers to one of them. -/
def deleteProtected (others : List β) (p : α → Bool) (rows : List α) : Option (List α) :=
  if rows.any fun r => p r && referenced key refers others r then none else some (delete p rows)

/-- The rows of the other table that do not refer to a deleted row. -/
def cascade (p : α → Bool) (rows : List α) (others : List β) : List β :=
  delete (fun o => rows.any fun r => p r && refers o = some (key r)) others

omit [DecidableEq κ] in
/-- Every reference leads to a row. -/
def Intact (rows : List α) (others : List β) : Prop :=
  ∀ o ∈ others, ∀ k, refers o = some k → ∃ r ∈ rows, key r = k

variable {key refers} {p : α → Bool} {rows rows' : List α} {others others' : List β} {r : α}

omit [DecidableEq κ] in
@[simp] theorem mem_delete : r ∈ delete p rows ↔ r ∈ rows ∧ p r = false := by
  simp [delete]

theorem referenced_iff :
    referenced key refers others r = true ↔ ∃ o ∈ others, refers o = some (key r) := by
  simp [referenced]

theorem mem_cascade {o : β} : o ∈ cascade key refers p rows others ↔
    o ∈ others ∧ ∀ r ∈ rows, p r = true → refers o ≠ some (key r) := by
  simp [cascade, List.any_eq_false]

theorem deleteProtected_eq_some :
    deleteProtected key refers others p rows = some rows' ↔
      (∀ r ∈ rows, p r = true → referenced key refers others r = false) ∧
        rows' = delete p rows := by
  unfold deleteProtected
  split
  case isTrue h =>
    obtain ⟨r, hr, hp⟩ := List.any_eq_true.mp h
    rw [Bool.and_eq_true] at hp
    refine iff_of_false nofun fun hn => ?_
    have := hn.1 r hr hp.1
    rw [hp.2] at this
    cases this
  case isFalse h =>
    have hfree : ∀ r ∈ rows, p r = true → referenced key refers others r = false := by
      intro r hr hp
      have := List.any_eq_false.mp (Bool.eq_false_iff.mpr h) r hr
      simpa [hp] using this
    rw [Option.some.injEq, eq_comm]
    exact ⟨fun h => ⟨hfree, h⟩, fun h => h.2⟩

theorem deleteProtected_unreferenced :
    deleteProtected key refers others (fun r => p r && !referenced key refers others r) rows =
      some (delete (fun r => p r && !referenced key refers others r) rows) := by
  rw [deleteProtected_eq_some]
  simp

omit [DecidableEq κ] in
theorem Intact.mono (h : Intact key refers rows others) (hrows : rows ⊆ rows')
    (hothers : others' ⊆ others) : Intact key refers rows' others' := by
  intro o ho k hk
  obtain ⟨r, hr, he⟩ := h o (hothers ho) k hk
  exact ⟨r, hrows hr, he⟩

theorem Intact.deleteProtected (h : Intact key refers rows others)
    (hd : deleteProtected key refers others p rows = some rows') :
    Intact key refers rows' others := by
  obtain ⟨hfree, rfl⟩ := deleteProtected_eq_some.mp hd
  intro o ho k hk
  obtain ⟨r, hr, rfl⟩ := h o ho k hk
  refine ⟨r, mem_delete.mpr ⟨hr, ?_⟩, rfl⟩
  by_contra hp
  have := hfree r hr (by simpa using hp)
  rw [referenced_iff.mpr ⟨o, ho, hk⟩] at this
  cases this

theorem Intact.cascade (h : Intact key refers rows others) :
    Intact key refers (delete p rows) (cascade key refers p rows others) := by
  intro o ho k hk
  obtain ⟨ho, hfree⟩ := mem_cascade.mp ho
  obtain ⟨r, hr, rfl⟩ := h o ho k hk
  refine ⟨r, mem_delete.mpr ⟨hr, ?_⟩, rfl⟩
  by_contra hp
  exact hfree r hr (by simpa using hp) hk

omit [DecidableEq κ] in
theorem Intact.append (h : Intact key refers rows others) {o : β}
    (ho : ∀ k, refers o = some k → ∃ r ∈ rows, key r = k) :
    Intact key refers rows (others ++ [o]) := by
  intro x hx
  rcases List.mem_append.mp hx with hx | hx
  · exact h x hx
  · rw [List.mem_singleton.mp hx]
    exact ho

end References
