import Mathlib.Order.Interval.Set.Basic
import Mathlib.Order.MinMax

/-! # Hulls of closed spans

A tracker keeps only the two ends of what a history of closed spans covers.
Taking a span into the hull leaves a gap exactly when the span lies below the
hull and ends before it, provided it starts no later than the hull ends.
-/

namespace Spans

variable {α : Type*} [LinearOrder α]

def hull (range : Option (α × α)) (start till : α) : α × α :=
  range.elim (start, till) fun r => (min r.1 start, max r.2 till)

def Gapless (spans : Set (α × α)) (range : Option (α × α)) : Prop :=
  ∀ r, range = some r → ∀ x ∈ Set.Icc r.1 r.2, ∃ w ∈ spans, x ∈ Set.Icc w.1 w.2

def FromStart (spans : Set (α × α)) (range : Option (α × α)) : Prop :=
  ∀ w ∈ spans, ∃ r, range = some r ∧ r.1 ≤ w.1

/-- Between the start of a span and the start of the range, the span leaves no point of their
hull out. -/
def Reaches (range : Option (α × α)) (start till : α) : Prop :=
  ∀ r, range = some r → ∀ x, start ≤ x → x < r.1 → x ≤ max r.2 till → x ≤ till

variable {spans spans' : Set (α × α)} {range : Option (α × α)} {r : α × α} {start till : α}

theorem gapless_none : Gapless spans none := by
  rintro r ⟨⟩

theorem Gapless.mono (h : Gapless spans range) (hs : spans ⊆ spans') : Gapless spans' range := by
  intro r hr x hx
  obtain ⟨w, hw, hxw⟩ := h r hr x hx
  exact ⟨w, hs hw, hxw⟩

theorem FromStart.hull (h : FromStart spans range) :
    FromStart (insert (start, till) spans) (some (hull range start till)) := by
  rintro w (rfl | hw)
  · refine ⟨_, rfl, ?_⟩
    cases range with
    | none => exact le_rfl
    | some r => exact min_le_right _ _
  · obtain ⟨r, rfl, hr⟩ := h w hw
    exact ⟨_, rfl, (min_le_left _ _).trans hr⟩

theorem FromStart.insert (h : FromStart spans range) (hr : range = some r) (hs : r.1 ≤ start) :
    FromStart (insert (start, till) spans) range := by
  rintro w (rfl | hw)
  · exact ⟨r, hr, hs⟩
  · exact h w hw

theorem gapless_hull_iff (hg : Gapless spans range) (hf : FromStart spans range)
    (hs : ∀ r, range = some r → start ≤ r.2) :
    Gapless (insert (start, till) spans) (some (hull range start till)) ↔
      Reaches range start till := by
  constructor
  · rintro h r rfl x hsx hxr hxt
    obtain ⟨w, hw, hx⟩ := h _ rfl x ⟨(min_le_right _ _).trans hsx, hxt⟩
    rcases hw with rfl | hw
    · exact hx.2
    · obtain ⟨r', hr', hlo⟩ := hf w hw
      obtain rfl := Option.some.inj hr'
      exact absurd (hlo.trans hx.1) (not_le.mpr hxr)
  · intro h r' hr' x hx
    obtain rfl := Option.some.inj hr'
    cases range with
    | none => exact ⟨_, Set.mem_insert _ _, hx⟩
    | some r =>
      have hmax : x ≤ max r.2 till := hx.2
      rcases lt_or_ge x r.1 with hxr | hrx
      · have hsx : start ≤ x := (min_le_iff.mp hx.1).resolve_left (not_le.mpr hxr)
        exact ⟨_, Set.mem_insert _ _, hsx, h r rfl x hsx hxr hmax⟩
      · rcases le_or_gt x r.2 with hxt | htx
        · obtain ⟨w, hw, hxw⟩ := hg r rfl x ⟨hrx, hxt⟩
          exact ⟨w, Set.mem_insert_of_mem _ hw, hxw⟩
        · have hxt : x ≤ till := (le_max_iff.mp hmax).resolve_left (not_le.mpr htx)
          exact ⟨_, Set.mem_insert _ _, (hs r rfl).trans htx.le, hxt⟩

end Spans
