import Mathlib.Algebra.BigOperators.Group.List.Basic
import Mathlib.Data.List.Nodup
import Mathlib.Data.Set.Disjoint
import Mathlib.Data.Set.Lattice
import Mathlib.Order.CompletePartialOrder

/-! # Accumulating loops

A loop adds what each element contributes to an accumulator that its body may
read. When every element reads and writes only its own footprint of the marks
in the accumulator and the footprints are disjoint, the loop contributes what it
would if every element read the initial accumulator.
-/

namespace Sweep

variable {α β ε ι M : Type*} [AddMonoid M]

/-- Run a body that reads the accumulator, adding its contribution for each element. -/
def sweep (body : M → α → Except ε M) : M → List α → Except ε M
  | acc, [] => .ok acc
  | acc, a :: as => do
    let d ← body acc a
    sweep body (acc + d) as

/-- Add up the contributions of a body that reads no accumulator. -/
def gather (f : α → Except ε M) : List α → Except ε M
  | [] => .ok 0
  | a :: as => do
    let d ← f a
    let r ← gather f as
    .ok (d + r)

/-- A list-valued field of the accumulator that additions append to. -/
structure Field (M β : Type*) [AddMonoid M] where
  get : M → List β
  get_zero : get 0 = []
  get_add : ∀ x y, get (x + y) = get x ++ get y

theorem Field.mem_sum (F : Field M β) {xs : List M} {b : β} :
    b ∈ F.get xs.sum ↔ ∃ x ∈ xs, b ∈ F.get x := by
  induction xs with
  | nil => simp [F.get_zero]
  | cons x xs ih => simp [F.get_add, ih]

theorem Field.get_sum (F : Field M β) (xs : List M) : F.get xs.sum = xs.flatMap F.get := by
  induction xs with
  | nil => exact F.get_zero
  | cons x xs ih => rw [List.sum_cons, F.get_add, ih, List.flatMap_cons]

theorem Field.nodup_sum (F : Field M β) {as : List α} {f : α → M}
    (hn : ∀ a ∈ as, (F.get (f a)).Nodup)
    (hd : as.Pairwise fun a b => List.Disjoint (F.get (f a)) (F.get (f b))) :
    (F.get (as.map f).sum).Nodup := by
  rw [F.get_sum, List.flatMap_map, List.nodup_flatMap]
  exact ⟨hn, hd⟩

variable {body : M → α → Except ε M} {f g : α → Except ε M} {acc m : M} {a : α} {as bs : List α}

theorem sweep_cons_ok : sweep body acc (a :: as) = .ok m ↔
    ∃ d, body acc a = .ok d ∧ sweep body (acc + d) as = .ok m := by
  simp only [sweep]
  cases body acc a <;> simp [bind, Except.bind]

theorem gather_cons_ok : gather f (a :: as) = .ok m ↔
    ∃ d r, f a = .ok d ∧ gather f as = .ok r ∧ d + r = m := by
  simp only [gather]
  cases f a <;> cases gather f as <;> simp [bind, Except.bind]

theorem sweep_append : sweep body acc (as ++ bs) = (sweep body acc as >>= fun m => sweep body m bs) := by
  induction as generalizing acc with
  | nil => rfl
  | cons a as ih =>
    simp only [List.cons_append, sweep]
    cases body acc a with
    | error e => rfl
    | ok d => exact ih

theorem gather_ok {f : α → M} : gather (ε := ε) (fun a => .ok (f a)) as = .ok (as.map f).sum := by
  induction as with
  | nil => rfl
  | cons a as ih => simp only [gather, ih, bind, Except.bind, List.map_cons, List.sum_cons]

theorem gather_ok_iff : (∃ m, gather f as = .ok m) ↔ ∀ a ∈ as, ∃ d, f a = .ok d := by
  induction as with
  | nil => simp [gather]
  | cons a as ih =>
    rw [List.forall_mem_cons, ← ih]
    constructor
    · rintro ⟨m, hm⟩
      obtain ⟨d, r, hd, hr, -⟩ := gather_cons_ok.mp hm
      exact ⟨⟨d, hd⟩, ⟨r, hr⟩⟩
    · rintro ⟨⟨d, hd⟩, ⟨r, hr⟩⟩
      exact ⟨d + r, gather_cons_ok.mpr ⟨d, r, hd, hr, rfl⟩⟩

theorem mem_gather (F : Field M β) (h : gather f as = .ok m) {b : β} :
    b ∈ F.get m ↔ ∃ a ∈ as, ∃ d, f a = .ok d ∧ b ∈ F.get d := by
  induction as generalizing m with
  | nil =>
    obtain rfl := Except.ok.inj h
    simp [F.get_zero]
  | cons a as ih =>
    obtain ⟨d, r, hd, hr, rfl⟩ := gather_cons_ok.mp h
    rw [F.get_add, List.mem_append, ih hr]
    constructor
    · rintro (hb | ⟨a', ha', d', hd', hb⟩)
      · exact ⟨a, List.mem_cons_self, d, hd, hb⟩
      · exact ⟨a', List.mem_cons_of_mem _ ha', d', hd', hb⟩
    · rintro ⟨a', ha', d', hd', hb⟩
      rcases List.mem_cons.mp ha' with rfl | ha'
      · obtain rfl : d' = d := Except.ok.inj (hd'.symm.trans hd)
        exact Or.inl hb
      · exact Or.inr ⟨a', ha', d', hd', hb⟩

theorem Field.nodup_gather (F : Field M β)
    (hn : ∀ a ∈ as, ∀ d, f a = .ok d → (F.get d).Nodup)
    (hd : as.Pairwise fun a b => ∀ d d', f a = .ok d → f b = .ok d' →
      List.Disjoint (F.get d) (F.get d'))
    (h : gather f as = .ok m) : (F.get m).Nodup := by
  induction as generalizing m with
  | nil =>
    obtain rfl := Except.ok.inj h
    rw [F.get_zero]
    exact List.nodup_nil
  | cons a as ih =>
    obtain ⟨d, r, ha, hr, rfl⟩ := gather_cons_ok.mp h
    obtain ⟨hn, hns⟩ := List.forall_mem_cons.mp hn
    obtain ⟨hda, hds⟩ := List.pairwise_cons.mp hd
    rw [F.get_add, List.nodup_append']
    refine ⟨hn d ha, ih hns hds hr, fun b hb hb' => ?_⟩
    obtain ⟨a', ha', d', hd', hb'⟩ := (mem_gather F hr).mp hb'
    exact hda a' ha' d d' ha hd' hb hb'

theorem gather_congr (h : ∀ a ∈ as, f a = g a) : gather f as = gather g as := by
  induction as with
  | nil => rfl
  | cons a as ih =>
    obtain ⟨ha, has⟩ := List.forall_mem_cons.mp h
    simp only [gather, ha, ih has]

/-- A loop whose rounds check something first runs as without the checks, if each of them passes
when its element has its turn. -/
theorem sweep_guarded_ok {check : M → α → Except ε PUnit} :
    sweep (fun acc a => check acc a >>= fun _ => body acc a) acc as = .ok m ↔
      sweep body acc as = .ok m ∧ ∀ before a after out, as = before ++ a :: after →
        sweep body acc before = .ok out → check out a = .ok .unit := by
  induction as generalizing acc with
  | nil =>
    refine ⟨fun h => ⟨h, ?_⟩, And.left⟩
    intro before a after out he
    exact absurd he.symm (by simp)
  | cons a as ih =>
    rw [sweep_cons_ok, sweep_cons_ok]
    constructor
    · rintro ⟨d, hd, hrest⟩
      cases hc : check acc a with
      | error e =>
        rw [hc] at hd
        cases hd
      | ok u =>
        rw [hc] at hd
        obtain ⟨hrun, hchecks⟩ := ih.mp hrest
        refine ⟨⟨d, hd, hrun⟩, ?_⟩
        intro before b after out he hout
        cases before with
        | nil =>
          obtain ⟨rfl, -⟩ := List.cons.inj he
          obtain rfl := Except.ok.inj hout
          exact hc
        | cons b' before =>
          obtain ⟨rfl, htail⟩ := List.cons.inj he
          obtain ⟨d', hd', hout⟩ := sweep_cons_ok.mp hout
          obtain rfl := Except.ok.inj (hd'.symm.trans hd)
          exact hchecks before b after out htail hout
    · rintro ⟨⟨d, hd, hrun⟩, hchecks⟩
      refine ⟨d, ?_, ih.mpr ⟨hrun, ?_⟩⟩
      · rw [hchecks [] a as acc rfl rfl]
        exact hd
      · intro before b after out he hout
        exact hchecks (a :: before) b after out (by rw [he]; rfl) (sweep_cons_ok.mpr ⟨d, hd, hout⟩)

section Footprint

variable {marks : M → Set ι} {F : α → Set ι}

/-- The body of `a` sees the accumulator only through the marks in its own footprint. -/
def ReadsFootprint (body : M → α → Except ε M) (marks : M → Set ι) (F : α → Set ι) (init : M)
    (a : α) : Prop :=
  ∀ acc, (∀ i ∈ F a, i ∈ marks acc ↔ i ∈ marks init) → body acc a = body init a

/-- From the initial accumulator the body of `a` marks nothing outside its own footprint. -/
def WritesFootprint (body : M → α → Except ε M) (marks : M → Set ι) (F : α → Set ι) (init : M)
    (a : α) : Prop :=
  ∀ d, body init a = .ok d → marks d ⊆ F a

theorem sweep_of_agree {init : M} (hadd : ∀ x y, marks (x + y) = marks x ∪ marks y)
    (hread : ∀ a ∈ as, ReadsFootprint body marks F init a)
    (hwrite : ∀ a ∈ as, WritesFootprint body marks F init a)
    (hdisj : as.Pairwise (fun a b => Disjoint (F a) (F b)))
    (hacc : ∀ a ∈ as, ∀ i ∈ F a, i ∈ marks acc ↔ i ∈ marks init) :
    sweep body acc as = (gather (body init) as >>= fun m => .ok (acc + m)) := by
  induction as generalizing acc with
  | nil => simp [sweep, gather, bind, Except.bind]
  | cons a as ih =>
    obtain ⟨hra, hras⟩ := List.forall_mem_cons.mp hread
    obtain ⟨hwa, hwas⟩ := List.forall_mem_cons.mp hwrite
    obtain ⟨hda, hdas⟩ := List.pairwise_cons.mp hdisj
    obtain ⟨haa, haas⟩ := List.forall_mem_cons.mp hacc
    simp only [sweep, gather, hra acc haa]
    cases hb : body init a with
    | error e => rfl
    | ok d =>
      -- what `a` marks lies in its own footprint, so the rest still sees the initial marks
      have hacc' : ∀ b ∈ as, ∀ i ∈ F b, i ∈ marks (acc + d) ↔ i ∈ marks init := by
        intro b hm i hi
        have hni : i ∉ marks d := fun h =>
          Set.disjoint_left.mp (hda b hm) (hwa d hb h) hi
        rw [hadd, Set.mem_union, or_iff_left hni, haas b hm i hi]
      have hs := ih hras hwas hdas hacc'
      simp only [bind, Except.bind] at hs ⊢
      rw [hs]
      cases gather (body init) as <;> simp [add_assoc]

/-- A loop whose elements read and mark disjoint footprints contributes what it would if every
element read the initial accumulator. -/
theorem sweep_eq_gather {init : M} (hadd : ∀ x y, marks (x + y) = marks x ∪ marks y)
    (hread : ∀ a ∈ as, ReadsFootprint body marks F init a)
    (hwrite : ∀ a ∈ as, WritesFootprint body marks F init a)
    (hdisj : as.Pairwise (fun a b => Disjoint (F a) (F b))) :
    sweep body init as = (gather (body init) as >>= fun m => .ok (init + m)) :=
  sweep_of_agree hadd hread hwrite hdisj (fun _ _ _ _ => Iff.rfl)

theorem marks_gather {init : M} (hzero : marks 0 = ∅)
    (hadd : ∀ x y, marks (x + y) = marks x ∪ marks y)
    (hwrite : ∀ a ∈ as, WritesFootprint body marks F init a)
    (h : gather (body init) as = .ok m) {i : ι} (hi : i ∈ marks m) : ∃ a ∈ as, i ∈ F a := by
  induction as generalizing m with
  | nil =>
    obtain rfl := Except.ok.inj h
    simp [hzero] at hi
  | cons a as ih =>
    obtain ⟨hwa, hwas⟩ := List.forall_mem_cons.mp hwrite
    obtain ⟨d, r, hd, hr, rfl⟩ := gather_cons_ok.mp h
    rw [hadd] at hi
    rcases hi with hi | hi
    · exact ⟨a, List.mem_cons_self, hwa d hd hi⟩
    · obtain ⟨b, hb, hi⟩ := ih hwas hr hi
      exact ⟨b, List.mem_cons_of_mem _ hb, hi⟩

/-- When an element has its turn, the accumulator still shows the initial marks on its
footprint. -/
theorem agree_of_sweep {init : M} (hzero : marks 0 = ∅)
    (hadd : ∀ x y, marks (x + y) = marks x ∪ marks y)
    (hread : ∀ b ∈ as ++ a :: bs, ReadsFootprint body marks F init b)
    (hwrite : ∀ b ∈ as ++ a :: bs, WritesFootprint body marks F init b)
    (hdisj : (as ++ a :: bs).Pairwise (fun a b => Disjoint (F a) (F b)))
    (h : sweep body init as = .ok acc) {i : ι} (hi : i ∈ F a) :
    i ∈ marks acc ↔ i ∈ marks init := by
  have hm : ∀ b ∈ as, b ∈ as ++ a :: bs := fun b hb => List.mem_append_left _ hb
  have hd := List.pairwise_append.mp hdisj
  rw [sweep_eq_gather hadd (fun b hb => hread b (hm b hb)) (fun b hb => hwrite b (hm b hb))
    hd.1] at h
  cases hg : gather (body init) as with
  | error e => rw [hg] at h; cases h
  | ok m =>
    rw [hg] at h
    obtain rfl := Except.ok.inj h
    have hni : i ∉ marks m := by
      intro him
      obtain ⟨b, hb, hib⟩ := marks_gather hzero hadd (fun b hb => hwrite b (hm b hb)) hg him
      exact Set.disjoint_left.mp (hd.2.2 b hb a List.mem_cons_self) hib hi
    rw [hadd, Set.mem_union, or_iff_left hni]

end Footprint

end Sweep
