import LedgerGuard.Lib.Ordered

/-! # Tables with a unique key

The rows of a database table under a unique constraint. Saving a row replaces
the row with its key or appends it, so no two rows ever share a key.
-/

structure Table {ρ κ : Type*} (key : ρ → κ) where
  rows : List ρ
  nodup : (rows.map key).Nodup

namespace Table

variable {ρ κ : Type*} [DecidableEq κ] {key : ρ → κ}

instance : Membership ρ (Table key) := ⟨fun t r => r ∈ t.rows⟩

omit [DecidableEq κ] in
theorem mem_rows {t : Table key} {r : ρ} : r ∈ t.rows ↔ r ∈ t := Iff.rfl

def empty : Table key := ⟨[], List.nodup_nil⟩

/-- The row with a key, if there is one. -/
def get (t : Table key) (k : κ) : Option ρ := t.rows.find? (key · = k)

def saved : List ρ → (ρ → κ) → ρ → List ρ
  | [], _, r => [r]
  | r' :: rs, key, r => if key r' = key r then r :: rs else r' :: saved rs key r

theorem mem_saved {rs : List ρ} {r x : ρ} (h : (rs.map key).Nodup) :
    x ∈ saved rs key r ↔ x = r ∨ (x ∈ rs ∧ key x ≠ key r) := by
  induction rs with
  | nil => simp [saved]
  | cons r' rs ih =>
    obtain ⟨hn, hd⟩ := List.nodup_cons.mp h
    by_cases hk : key r' = key r
    · have hne : ∀ y ∈ rs, key y ≠ key r := fun y hy he =>
        hn (List.mem_map.mpr ⟨y, hy, he.trans hk.symm⟩)
      simp only [saved, if_pos hk, List.mem_cons]
      constructor
      · rintro (rfl | hx)
        · exact Or.inl rfl
        · exact Or.inr ⟨Or.inr hx, hne x hx⟩
      · rintro (rfl | ⟨rfl | hx, hxk⟩)
        · exact Or.inl rfl
        · exact absurd hk hxk
        · exact Or.inr hx
    · simp only [saved, if_neg hk, List.mem_cons, ih hd]
      constructor
      · rintro (rfl | rfl | ⟨hx, hxk⟩)
        · exact Or.inr ⟨Or.inl rfl, hk⟩
        · exact Or.inl rfl
        · exact Or.inr ⟨Or.inr hx, hxk⟩
      · rintro (rfl | ⟨rfl | hx, hxk⟩)
        · exact Or.inr (Or.inl rfl)
        · exact Or.inl rfl
        · exact Or.inr (Or.inr ⟨hx, hxk⟩)

theorem nodup_saved {rs : List ρ} {r : ρ} (h : (rs.map key).Nodup) :
    ((saved rs key r).map key).Nodup := by
  induction rs with
  | nil => simp [saved]
  | cons r' rs ih =>
    obtain ⟨hn, hd⟩ := List.nodup_cons.mp h
    by_cases hk : key r' = key r
    · simpa [saved, hk] using h
    · rw [saved, if_neg hk, List.map_cons, List.nodup_cons]
      refine ⟨fun hm => ?_, ih hd⟩
      obtain ⟨x, hx, he⟩ := List.mem_map.mp hm
      rcases (mem_saved hd).mp hx with rfl | ⟨hx, -⟩
      · exact hk he.symm
      · exact hn (List.mem_map.mpr ⟨x, hx, he⟩)

def put (t : Table key) (r : ρ) : Table key := ⟨saved t.rows key r, nodup_saved t.nodup⟩

variable {t : Table key} {r x y : ρ} {k : κ}

theorem mem_put : x ∈ t.put r ↔ x = r ∨ (x ∈ t ∧ key x ≠ key r) := mem_saved t.nodup

omit [DecidableEq κ] in
theorem not_mem_empty : x ∉ (empty : Table key) := List.not_mem_nil

omit [DecidableEq κ] in
theorem eq_of_key (hx : x ∈ t) (hy : y ∈ t) (h : key x = key y) : x = y :=
  List.inj_on_of_nodup_map t.nodup hx hy h

theorem get_eq_some : t.get k = some x ↔ x ∈ t ∧ key x = k := by
  constructor
  · intro h
    exact ⟨List.mem_of_find?_eq_some h, by simpa using List.find?_some h⟩
  · rintro ⟨hx, rfl⟩
    exact Ordered.find?_of_nodup t.nodup hx

theorem get_eq_none : t.get k = none ↔ ∀ x ∈ t, key x ≠ k := by
  constructor
  · intro h x hx he
    rw [get_eq_some.mpr ⟨hx, he⟩] at h
    cases h
  · intro h
    cases hg : t.get k with
    | none => rfl
    | some x => exact absurd (get_eq_some.mp hg).2 (h x (get_eq_some.mp hg).1)

theorem get_empty : (empty : Table key).get k = none := rfl

theorem get_put : (t.put r).get k = if k = key r then some r else t.get k := by
  by_cases hk : k = key r
  · rw [if_pos hk]
    exact get_eq_some.mpr ⟨mem_put.mpr (Or.inl rfl), hk.symm⟩
  · rw [if_neg hk]
    cases hg : t.get k with
    | some x =>
      obtain ⟨hx, rfl⟩ := get_eq_some.mp hg
      exact get_eq_some.mpr ⟨mem_put.mpr (Or.inr ⟨hx, hk⟩), rfl⟩
    | none =>
      refine get_eq_none.mpr fun x hx => ?_
      rcases mem_put.mp hx with rfl | ⟨hx, -⟩
      · exact Ne.symm hk
      · exact get_eq_none.mp hg x hx

/-- Delete the rows that do not meet a condition. -/
def filter (t : Table key) (p : ρ → Bool) : Table key :=
  ⟨t.rows.filter p, t.nodup.sublist (List.filter_sublist.map key)⟩

omit [DecidableEq κ] in
theorem mem_filter {p : ρ → Bool} : x ∈ t.filter p ↔ x ∈ t ∧ p x = true := List.mem_filter

theorem get_filter {p : ρ → Bool} : (t.filter p).get k = (t.get k).filter p := by
  cases hg : t.get k with
  | none =>
    apply get_eq_none.mpr
    intro x hx
    exact get_eq_none.mp hg x (mem_filter.mp hx).1
  | some x =>
    obtain ⟨hx, hk⟩ := get_eq_some.mp hg
    by_cases hp : p x = true
    · rw [Option.filter_some, if_pos hp]
      exact get_eq_some.mpr ⟨mem_filter.mpr ⟨hx, hp⟩, hk⟩
    · rw [Option.filter_some, if_neg hp]
      apply get_eq_none.mpr
      intro y hy he
      obtain ⟨hy, hpy⟩ := mem_filter.mp hy
      obtain rfl := eq_of_key hx hy (hk.trans he.symm)
      exact hp hpy

/-- Change every row without changing its key. -/
def map (t : Table key) (f : ρ → ρ) (hf : ∀ r, key (f r) = key r) : Table key :=
  ⟨t.rows.map f, by
    rw [List.map_map, show key ∘ f = key from funext hf]
    exact t.nodup⟩

omit [DecidableEq κ] in
theorem mem_map {f : ρ → ρ} (hf : ∀ r, key (f r) = key r) :
    x ∈ t.map f hf ↔ ∃ r ∈ t, f r = x := List.mem_map

theorem get_map {f : ρ → ρ} (hf : ∀ r, key (f r) = key r) :
    (t.map f hf).get k = (t.get k).map f := by
  unfold get map
  dsimp only
  rw [List.find?_map]
  simp only [Function.comp_def, hf]

theorem mem_foldl_put {f : ρ → ρ} (hf : ∀ r, key (f r) = key r) {rs : List ρ}
    (hn : (rs.map key).Nodup) : x ∈ rs.foldl (fun t r => t.put (f r)) t ↔
      (∃ r ∈ rs, x = f r) ∨ (x ∈ t ∧ key x ∉ rs.map key) := by
  induction rs generalizing t with
  | nil => simp
  | cons r rs ih =>
    obtain ⟨hr, hrs⟩ := List.nodup_cons.mp hn
    rw [List.foldl_cons, ih hrs, mem_put, hf]
    simp only [List.map_cons, List.mem_cons, not_or, exists_eq_or_imp]
    constructor
    · rintro (h | ⟨rfl | ⟨hx, hk⟩, hkn⟩)
      · exact Or.inl (Or.inr h)
      · exact Or.inl (Or.inl rfl)
      · exact Or.inr ⟨hx, hk, hkn⟩
    · rintro ((rfl | h) | ⟨hx, hk, hkn⟩)
      · exact Or.inr ⟨Or.inl rfl, by rwa [hf]⟩
      · exact Or.inl h
      · exact Or.inr ⟨Or.inr ⟨hx, hk⟩, hkn⟩

section Replaced

variable {rs : List ρ} {k' : κ}

theorem not_mem_eraseP (h : (rs.map key).Nodup) (hx : x ∈ rs.eraseP (key · = k)) : key x ≠ k := by
  induction rs with
  | nil => cases hx
  | cons r rs ih =>
    obtain ⟨hn, hd⟩ := List.nodup_cons.mp h
    by_cases hr : key r = k
    · rw [List.eraseP_cons_of_pos (by simpa using hr)] at hx
      rintro rfl
      exact hn (List.mem_map.mpr ⟨x, hx, hr.symm⟩)
    · rw [List.eraseP_cons_of_neg (by simpa using hr)] at hx
      rcases List.mem_cons.mp hx with rfl | hx
      · exact hr
      · exact ih hd hx

theorem nodup_replaced (h : (rs.map key).Nodup) (hr : key r = k) :
    ((rs.eraseP (key · = k) ++ [r]).map key).Nodup := by
  rw [List.map_append, List.map_singleton, List.nodup_append]
  refine ⟨h.sublist (List.eraseP_sublist.map key), List.nodup_singleton _, ?_⟩
  intro a ha b hb
  obtain ⟨x, hx, rfl⟩ := List.mem_map.mp ha
  obtain rfl := List.mem_singleton.mp hb
  rw [hr]
  exact not_mem_eraseP h hx

theorem find_replaced (h : (rs.map key).Nodup) (hr : key r = k) :
    (rs.eraseP (key · = k) ++ [r]).find? (key · = k) = some r := by
  rw [List.find?_append, List.find?_eq_none.mpr]
  · simp [hr]
  · intro x hx
    simpa using not_mem_eraseP h hx

theorem find_other (hr : key r = k') (hk : k ≠ k') :
    (rs.eraseP (key · = k') ++ [r]).find? (key · = k) = rs.find? (key · = k) := by
  have hlast : [r].find? (key · = k) = none := by simp [hr, hk.symm]
  rw [List.find?_append, hlast, Option.or_none]
  induction rs with
  | nil => rfl
  | cons x rs ih =>
    by_cases hx : key x = k'
    · rw [List.eraseP_cons_of_pos (by simpa using hx), List.find?_cons_of_neg]
      simpa [hx] using hk.symm
    · rw [List.eraseP_cons_of_neg (by simpa using hx), List.find?_cons, List.find?_cons, ih]

end Replaced

end Table
