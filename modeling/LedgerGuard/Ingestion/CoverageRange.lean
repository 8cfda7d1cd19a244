import LedgerGuard.Ingestion.History
import LedgerGuard.Core.Fixtures
import LedgerGuard.Lib.Sha256
import LedgerGuard.Lib.Spans
import Mathlib.Data.Int.ConditionallyCompleteOrder
import Mathlib.Order.ConditionallyCompleteLattice.Basic

/-! # Claimed coverage without gaps

The covered range of a complete cursor against the windows of the scans that
finished without a rejected record. The range is the hull of such windows, and
it has no gap as long as every clean scan that extends it downwards reaches up
to it.
-/

namespace LedgerGuard.Ingestion

open Transition

def Cursor.range (c : Cursor) : Option (Instant × Instant) :=
  c.coveredFrom.bind fun covered => c.coveredThrough.map fun through => (covered, through)

/-- Both ends of the range are known, or none is. -/
def Cursor.Paired (c : Cursor) : Prop := c.coveredFrom.isSome = c.coveredThrough.isSome

def Db.range (db : Db) (k : ObjectClass) : Option (Instant × Instant) :=
  (db.cursors.get k).bind Cursor.range

section Cursors

variable {c : Cursor} {db : Db} {k : ObjectClass} {now start till : Instant}
  {r : Instant × Instant}

theorem range_extend (now : Instant) (h : c.Paired) :
    (c.extend now start till).range = some (Spans.hull c.range start till) := by
  unfold Cursor.Paired at h
  unfold Cursor.range Cursor.extend Spans.hull
  cases hf : c.coveredFrom with
  | none =>
    rw [hf] at h
    cases ht : c.coveredThrough with
    | none => simp
    | some t =>
      rw [ht] at h
      cases h
  | some f =>
    rw [hf] at h
    cases ht : c.coveredThrough with
    | none =>
      rw [ht] at h
      cases h
    | some t => rfl

theorem contiguous_iff (h : c.Paired) :
    c.contiguous start = true ↔ ∀ r, c.range = some r → start ≤ r.2 := by
  unfold Cursor.Paired at h
  unfold Cursor.range Cursor.contiguous
  cases hf : c.coveredFrom with
  | none =>
    rw [hf] at h
    cases ht : c.coveredThrough with
    | none => simp
    | some t =>
      rw [ht] at h
      cases h
  | some f =>
    rw [hf] at h
    cases ht : c.coveredThrough with
    | none =>
      rw [ht] at h
      cases h
    | some t => simp

theorem range_cursor : (db.cursor now k).range = db.range k := by
  unfold Db.cursor Db.range
  cases db.cursors.get k <;> rfl

theorem paired_cursor (h : ∀ c, db.cursors.get k = some c → c.Paired) :
    (db.cursor now k).Paired := by
  unfold Db.cursor
  cases hg : db.cursors.get k with
  | none => rfl
  | some c => exact h c hg

end Cursors

variable {sha256 : String → String} {connector : Installation} {now : Instant} {e : Envelope}
  {s s' : Server} {cursor c : Cursor} {start till : Instant} {rejected : Bool}

/-- The windows of the scans that finished without a rejected record. -/
def Server.cleanWindows (s : Server) : Set (Instant × Instant) :=
  {w | ∃ a ∈ s.accepted, a.envelope.finalPage = true ∧
    timestamp a.envelope.coveredFrom = some w.1 ∧
    timestamp a.envelope.coveredThrough = some w.2 ∧
    ∀ b ∈ s.accepted, b.envelope.scanId = a.envelope.scanId → b.rejected = false}

/-- Every instant that a complete cursor claims lies in the window of a clean scan. -/
def Server.GapFree (s : Server) : Prop :=
  ∀ k ∈ [ObjectClass.wooOrders, .wooRefunds], ∀ c, s.db.cursors.get k = some c →
    c.complete = true → Spans.Gapless s.cleanWindows c.range

def Server.EndsClean (s : Server) (sha256 : String → String) (connector : Installation)
    (now : Instant) (e : Envelope) (cursor : Cursor) : Prop :=
  e.finalPage = true ∧
    (cursor.scanFailed || (storeRecords sha256 connector now e.records s.db.facts).rejected) =
      false

/-- A clean scan that the page ends and that joins the covered range leaves no gap below it. -/
def PageReaches (sha256 : String → String) (connector : Installation) (s : Server)
    (call : Instant × Envelope) : Prop :=
  ∀ start till cursor, s.db.Admits call.1 call.2 start till cursor →
    s.EndsClean sha256 connector call.1 call.2 cursor → cursor.contiguous start = true →
    Spans.Reaches (s.db.range .wooOrders) start till

/-- The orders' range is the gapless hull of the clean windows, and the refunds follow it. -/
structure Server.RangeIsHull (s : Server) : Prop where
  consistent : s.Consistent
  paired : ∀ c, s.db.cursors.get .wooOrders = some c → c.Paired
  ordered : ∀ r, s.db.range .wooOrders = some r → r.1 ≤ r.2
  gapless : Spans.Gapless s.cleanWindows (s.db.range .wooOrders)
  fromStart : Spans.FromStart s.cleanWindows (s.db.range .wooOrders)
  refunds : ∀ c, s.db.cursors.get .wooRefunds = some c → c.complete = true →
    c.range = s.db.range .wooOrders

theorem Server.RangeIsHull.gapFree (h : s.RangeIsHull) : s.GapFree := by
  intro k hk c hc hcomplete
  have hr : c.range = s.db.range .wooOrders := by
    simp only [List.mem_cons, List.not_mem_nil, or_false] at hk
    rcases hk with rfl | rfl
    · rw [Db.range, hc]
      rfl
    · exact h.refunds c hc hcomplete
  rw [hr]
  exact h.gapless

theorem Db.Admits.range {db : Db} (h : db.Admits now e start till cursor) :
    cursor.range = db.range .wooOrders := by
  rcases (forPage_ok h.place).1 with ⟨-, rfl⟩ | ⟨-, -, rfl⟩
  · exact range_cursor
  · exact range_cursor

theorem Server.RangeIsHull.cursor_paired (hs : s.RangeIsHull) (ha : s.db.Admits now e start till cursor) :
    cursor.Paired := by
  have hp : (s.db.cursor now .wooOrders).Paired := paired_cursor hs.paired
  rcases (forPage_ok ha.place).1 with ⟨-, rfl⟩ | ⟨-, -, rfl⟩
  · exact hp
  · exact hp

theorem mem_cleanWindows_withPage (hs : s.Consistent) (ha : s.db.Admits now e start till cursor)
    {w : Instant × Instant} :
    w ∈ (s.withPage sha256 connector now e start till cursor).cleanWindows ↔
      w ∈ s.cleanWindows ∨ (s.EndsClean sha256 connector now e cursor ∧ w = (start, till)) := by
  obtain ⟨-, ht⟩ := hs.tracks ha
  have hfail := hs.failed_withPage sha256 connector ha
  obtain ⟨hfrom, hthrough⟩ := window_timestamps ha.window
  constructor
  · rintro ⟨a, ham, hfin, hf, hthr, hclean⟩
    rcases mem_withPage.mp ham with ham | rfl
    · exact Or.inl ⟨a, ham, hfin, hf, hthr, fun b hb => hclean b (mem_withPage.mpr (Or.inl hb))⟩
    · refine Or.inr ⟨⟨hfin, ?_⟩, Prod.ext ?_ ?_⟩
      · rw [Bool.eq_false_iff, ne_eq, hfail]
        rintro ⟨b, hb, hbe, hbr⟩
        rw [hclean b hb hbe] at hbr
        cases hbr
      · exact Option.some.inj (hf.symm.trans hfrom)
      · exact Option.some.inj (hthr.symm.trans hthrough)
  · rintro (⟨a, ham, hfin, hf, hthr, hclean⟩ | ⟨⟨hfin, hclean⟩, rfl⟩)
    · refine ⟨a, mem_withPage.mpr (Or.inl ham), hfin, hf, hthr, fun b hb hbe => ?_⟩
      rcases mem_withPage.mp hb with hb | rfl
      · exact hclean b hb hbe
      · have hun := ht.unfinished a ham hbe.symm
        rw [hfin] at hun
        cases hun
    · refine ⟨_, mem_withPage.mpr (Or.inr rfl), hfin, hfrom, hthrough, fun b hb hbe => ?_⟩
      rw [Bool.eq_false_iff]
      intro hbr
      rw [hfail.mpr ⟨b, hb, hbe, hbr⟩] at hclean
      cases hclean

theorem afterPage_extended (hf : e.finalPage = true) (hc : (cursor.scanFailed || rejected) = false)
    (hj : cursor.contiguous start = true) :
    cursor.afterPage now e start till rejected =
      { (cursor.afterRecords now rejected).extend now start till with
        scanId := none, scanThrough := none } := by
  have hclean : ¬ (cursor.afterRecords now rejected).scanFailed = true ∧
      (cursor.afterRecords now rejected).contiguous start = true :=
    ⟨by simpa [Cursor.afterRecords] using hc, hj⟩
  simp only [Cursor.afterPage, Cursor.endScan, hf, if_true, if_pos hclean]

theorem afterPage_kept (now till : Instant) (h : ¬ (e.finalPage = true ∧
    (cursor.scanFailed || rejected) = false ∧ cursor.contiguous start = true)) :
    (cursor.afterPage now e start till rejected).coveredFrom = cursor.coveredFrom ∧
      (cursor.afterPage now e start till rejected).coveredThrough = cursor.coveredThrough := by
  unfold Cursor.afterPage Cursor.endScan
  split
  · rename_i hf
    split
    · rename_i hc
      refine absurd ⟨hf, ?_, hc.2⟩ h
      simpa [Cursor.afterRecords] using hc.1
    · split <;> exact ⟨rfl, rfl⟩
  · exact ⟨rfl, rfl⟩

theorem range_withPage (ha : s.db.Admits now e start till cursor) :
    (s.withPage sha256 connector now e start till cursor).db.range .wooOrders =
      (cursor.afterPage now e start till
        (storeRecords sha256 connector now e.records s.db.facts).rejected).range := by
  unfold Db.range Server.withPage
  rw [acceptPage_orders _ _ ha]
  rfl

/-- The refunds' cursor at the end of a scan: it takes over the range that a clean scan extended,
and otherwise is not made complete. -/
theorem endScan_refunds {db : Db}
    (hc : (db.endScan now cursor start till).cursors.get .wooRefunds = some c)
    (hcomplete : c.complete = true) :
    (cursor.scanFailed = false ∧ cursor.contiguous start = true ∧
      c.range = (cursor.extend now start till).range) ∨
    (¬ (cursor.scanFailed = false ∧ cursor.contiguous start = true) ∧
      db.cursors.get .wooRefunds = some c) := by
  unfold Db.endScan at hc
  split at hc
  · rename_i hadv
    rw [Table.get_put] at hc
    have hk : (db.cursor now .wooRefunds).objectClass = .wooRefunds := cursor_objectClass
    rw [if_pos hk.symm] at hc
    obtain rfl := Option.some.inj hc
    exact Or.inl ⟨by simpa using hadv.1, hadv.2, rfl⟩
  · rename_i hadv
    refine Or.inr ⟨by simpa using hadv, ?_⟩
    split at hc
    · rw [get_invalidate] at hc
      obtain ⟨c₀, -, rfl⟩ := Option.map_eq_some_iff.mp hc
      rw [if_pos rfl] at hcomplete
      cases hcomplete
    · exact hc

/-- A refunds' cursor that is complete after the page has the range of the orders' cursor that
the page extended, or was complete before. -/
theorem refunds_withPage (ha : s.db.Admits now e start till cursor)
    (hc : (s.withPage sha256 connector now e start till cursor).db.cursors.get .wooRefunds =
      some c) (hcomplete : c.complete = true) :
    (s.EndsClean sha256 connector now e cursor ∧ cursor.contiguous start = true ∧
      c.range = (cursor.extend now start till).range) ∨
    (¬ (s.EndsClean sha256 connector now e cursor ∧ cursor.contiguous start = true) ∧
      s.db.cursors.get .wooRefunds = some c) := by
  have hbefore : ∀ d : Db, d = (if (s.db.cursor now .wooOrders).scanId = some e.scanId then s.db
      else s.db.invalidate .wooRefunds) → d.cursors.get .wooRefunds = some c →
      s.db.cursors.get .wooRefunds = some c := by
    rintro d rfl hd
    split at hd
    · exact hd
    · rw [get_invalidate] at hd
      obtain ⟨c₀, -, rfl⟩ := Option.map_eq_some_iff.mp hd
      rw [if_pos rfl] at hcomplete
      cases hcomplete
  unfold Server.withPage acceptPage at hc
  dsimp only at hc
  rw [Table.get_put, if_neg] at hc
  · unfold Server.EndsClean
    cases hf : e.finalPage with
    | false =>
      rw [hf] at hc
      exact Or.inr ⟨fun h => Bool.false_ne_true h.1.1, hbefore _ rfl hc⟩
    | true =>
      rw [hf] at hc
      rcases endScan_refunds hc hcomplete with ⟨hclean, hj, hr⟩ | ⟨hn, hc⟩
      · exact Or.inl ⟨⟨rfl, hclean⟩, hj, hr⟩
      · exact Or.inr ⟨fun h => hn ⟨h.1.2, h.2⟩, hbefore _ rfl hc⟩
  · have hk : (cursor.afterPage now e start till
        (storeRecords sha256 connector now e.records s.db.facts).rejected).objectClass =
          .wooOrders := afterPage_objectClass.trans ha.objectClass
    exact fun h => absurd (h.trans hk) (by decide)

theorem cleanWindows_withPage (hs : s.Consistent) (ha : s.db.Admits now e start till cursor)
    (hclean : s.EndsClean sha256 connector now e cursor) :
    (s.withPage sha256 connector now e start till cursor).cleanWindows =
      insert (start, till) s.cleanWindows := by
  ext w
  rw [mem_cleanWindows_withPage hs ha, Set.mem_insert_iff, or_comm]
  exact or_congr_left ⟨And.right, fun hw => ⟨hclean, hw⟩⟩

theorem Server.RangeIsHull.range_extended (hs : s.RangeIsHull) (ha : s.db.Admits now e start till cursor)
    (hclean : s.EndsClean sha256 connector now e cursor) (hj : cursor.contiguous start = true) :
    (s.withPage sha256 connector now e start till cursor).db.range .wooOrders =
      some (Spans.hull (s.db.range .wooOrders) start till) := by
  have hpaired := hs.cursor_paired ha
  have hp : (cursor.afterRecords now
      (storeRecords sha256 connector now e.records s.db.facts).rejected).Paired := hpaired
  rw [range_withPage ha, afterPage_extended hclean.1 hclean.2 hj, ← ha.range]
  exact range_extend now hp

theorem Server.RangeIsHull.gapless_extended (hs : s.RangeIsHull)
    (ha : s.db.Admits now e start till cursor)
    (hclean : s.EndsClean sha256 connector now e cursor) (hj : cursor.contiguous start = true) :
    Spans.Gapless (s.withPage sha256 connector now e start till cursor).cleanWindows
        ((s.withPage sha256 connector now e start till cursor).db.range .wooOrders) ↔
      Spans.Reaches (s.db.range .wooOrders) start till := by
  rw [cleanWindows_withPage hs.consistent ha hclean, hs.range_extended ha hclean hj]
  refine Spans.gapless_hull_iff hs.gapless hs.fromStart ?_
  rw [← ha.range]
  exact (contiguous_iff (hs.cursor_paired ha)).mp hj

theorem Server.RangeIsHull.extended (hs : s.RangeIsHull) (ha : s.db.Admits now e start till cursor)
    (hclean : s.EndsClean sha256 connector now e cursor) (hj : cursor.contiguous start = true)
    (hr : Spans.Reaches (s.db.range .wooOrders) start till) :
    (s.withPage sha256 connector now e start till cursor).RangeIsHull where
  consistent := hs.consistent.withPage ha
  paired := by
    intro c hc
    obtain rfl := Option.some.inj ((acceptPage_orders _ _ ha).symm.trans hc)
    rw [afterPage_extended hclean.1 hclean.2 hj]
    rfl
  ordered := by
    intro r hr
    rw [hs.range_extended ha hclean hj] at hr
    obtain rfl := Option.some.inj hr
    have hle := window_le ha.window
    cases s.db.range .wooOrders with
    | none => exact hle
    | some r => exact (min_le_right _ _).trans (hle.trans (le_max_right _ _))
  gapless := (hs.gapless_extended ha hclean hj).mpr hr
  fromStart := by
    rw [cleanWindows_withPage hs.consistent ha hclean, hs.range_extended ha hclean hj]
    exact hs.fromStart.hull
  refunds := by
    intro c hc hcomplete
    rw [hs.range_extended ha hclean hj, ← ha.range]
    rcases refunds_withPage ha hc hcomplete with ⟨-, -, hcr⟩ | ⟨hn, -⟩
    · rw [hcr]
      exact range_extend now (hs.cursor_paired ha)
    · exact absurd ⟨hclean, hj⟩ hn

theorem Server.RangeIsHull.kept (hs : s.RangeIsHull) (ha : s.db.Admits now e start till cursor)
    (hn : ¬ (s.EndsClean sha256 connector now e cursor ∧ cursor.contiguous start = true)) :
    (s.withPage sha256 connector now e start till cursor).RangeIsHull := by
  have hkept := afterPage_kept now till fun h => hn ⟨⟨h.1, h.2.1⟩, h.2.2⟩
  have hrange : (s.withPage sha256 connector now e start till cursor).db.range .wooOrders =
      s.db.range .wooOrders := by
    rw [range_withPage ha, ← ha.range, Cursor.range, hkept.1, hkept.2]
    rfl
  have hmono : s.cleanWindows ⊆
      (s.withPage sha256 connector now e start till cursor).cleanWindows :=
    fun w hw => (mem_cleanWindows_withPage hs.consistent ha).mpr (Or.inl hw)
  refine ⟨hs.consistent.withPage ha, ?_, ?_, ?_, ?_, ?_⟩
  · intro c hc
    obtain rfl := Option.some.inj ((acceptPage_orders _ _ ha).symm.trans hc)
    rw [Cursor.Paired, hkept.1, hkept.2]
    exact hs.cursor_paired ha
  · rw [hrange]
    exact hs.ordered
  · rw [hrange]
    exact hs.gapless.mono hmono
  · rw [hrange]
    by_cases hclean : s.EndsClean sha256 connector now e cursor
    · rw [cleanWindows_withPage hs.consistent ha hclean]
      have hj : ¬ ∀ r, cursor.range = some r → start ≤ r.2 := fun h =>
        hn ⟨hclean, (contiguous_iff (hs.cursor_paired ha)).mpr h⟩
      push Not at hj
      obtain ⟨r, hr, hlt⟩ := hj
      rw [ha.range] at hr
      exact hs.fromStart.insert hr ((hs.ordered r hr).trans hlt.le)
    · intro w hw
      rcases (mem_cleanWindows_withPage hs.consistent ha).mp hw with hw | ⟨hc, -⟩
      · exact hs.fromStart w hw
      · exact absurd hc hclean
  · intro c hc hcomplete
    rw [hrange]
    rcases refunds_withPage ha hc hcomplete with ⟨hclean, hj, -⟩ | ⟨-, hc⟩
    · exact absurd ⟨hclean, hj⟩ hn
    · exact hs.refunds c hc hcomplete

theorem covered_empty : ({} : Server).RangeIsHull where
  consistent := consistent_empty
  paired := by
    rintro c ⟨⟩
  ordered := by
    rintro r ⟨⟩
  gapless := Spans.gapless_none
  fromStart := by
    rintro w ⟨a, ha, -⟩
    cases ha
  refunds := by
    rintro c ⟨⟩

theorem covered_step {call : Instant × Envelope} (hs : s.RangeIsHull)
    (hr : PageReaches sha256 connector s call) (h : batchStep sha256 connector s call s') :
    s'.RangeIsHull := by
  obtain ⟨now, e⟩ := call
  rcases batchStep_cases h with ⟨rfl, -⟩ | ⟨start, till, cursor, ha, rfl⟩
  · exact hs
  · by_cases hadv : s.EndsClean sha256 connector now e cursor ∧ cursor.contiguous start = true
    · exact hs.extended ha hadv.1 hadv.2 (hr start till cursor ha hadv.1 hadv.2)
    · exact hs.kept ha hadv

/-- After one more call the claimed coverage is free of gaps exactly when the call reaches the
covered range. -/
theorem gapFree_step_iff {call : Instant × Envelope} (hs : s.RangeIsHull)
    (h : batchStep sha256 connector s call s') :
    s'.GapFree ↔ PageReaches sha256 connector s call := by
  constructor
  · intro hg start till cursor ha hclean hj
    obtain ⟨now, e⟩ := call
    rcases batchStep_cases h with ⟨-, hn⟩ | ⟨start', till', cursor', ha', rfl⟩
    · exact absurd ha (hn start till cursor)
    · obtain ⟨rfl, rfl⟩ := Prod.mk.inj (Except.ok.inj (ha'.window.symm.trans ha.window))
      obtain rfl := Except.ok.inj (ha'.place.symm.trans ha.place)
      refine (hs.gapless_extended ha hclean hj).mp ?_
      have hget := acceptPage_orders sha256 connector ha
      rw [range_withPage ha]
      refine hg .wooOrders (by simp) _ hget ?_
      rw [afterPage_extended hclean.1 hclean.2 hj]
      rfl
  · intro hr
    exact (covered_step hs hr h).gapFree

/-- The cursors of a Stripe connector and the windows of its finished scans. -/
structure StripeHistory where
  db : Db := {}
  windows : List (Instant × Instant) := []

structure StripeScan where
  now : Instant
  start : Instant
  till : Instant

/-- The cursors after a finished scan; one that raises for a gap leaves them as they were. -/
def StripeHistory.next (s : StripeHistory) (scan : StripeScan) : StripeHistory :=
  (advanceStripeCoverage scan.now scan.start scan.till s.db).toOption.elim s
    fun db => ⟨db, (scan.start, scan.till) :: s.windows⟩

def stripeStep (s : StripeHistory) (scan : StripeScan) (s' : StripeHistory) : Prop :=
  s' = s.next scan

def stripeClasses : List ObjectClass := [.stripePayments, .stripeRefunds]

namespace StripeHistory

/-- Every instant that a complete cursor claims lies in the window of a finished scan. -/
def GapFree (s : StripeHistory) : Prop :=
  ∀ k ∈ stripeClasses, ∀ c, s.db.cursors.get k = some c → c.complete = true →
    Spans.Gapless {w | w ∈ s.windows} c.range

/-- A scan that joins the covered range leaves no gap below it. -/
def ScanReaches (s : StripeHistory) (scan : StripeScan) : Prop :=
  (s.db.cursor scan.now .stripePayments).contiguous scan.start = true →
    Spans.Reaches (s.db.range .stripePayments) scan.start scan.till

/-- Both cursors have one range, the gapless hull of the windows. -/
structure RangeIsHull (s : StripeHistory) : Prop where
  paired : ∀ k ∈ stripeClasses, ∀ c, s.db.cursors.get k = some c → c.Paired
  agree : ∀ k ∈ stripeClasses, s.db.range k = s.db.range .stripePayments
  gapless : Spans.Gapless {w | w ∈ s.windows} (s.db.range .stripePayments)
  fromStart : Spans.FromStart {w | w ∈ s.windows} (s.db.range .stripePayments)

variable {s s' : StripeHistory} {scan : StripeScan} {db db' : Db} {k k' : ObjectClass}

theorem RangeIsHull.gapFree (h : s.RangeIsHull) : s.GapFree := by
  intro k hk c hc _
  have hr : c.range = s.db.range k := by
    rw [Db.range, hc]
    rfl
  rw [hr, h.agree k hk]
  exact h.gapless

theorem advanceStripeCursor_ok (h : advanceStripeCursor now start till db k = .ok db') :
    (db.cursor now k).contiguous start = true ∧ ∀ k', db'.cursors.get k' =
      if k' = k then some { (db.cursor now k).extend now start till with
        lockVersion := (db.cursor now k).lockVersion + 1 }
      else db.cursors.get k' := by
  unfold advanceStripeCursor at h
  dsimp only at h
  split at h
  · rename_i hj
    obtain rfl := Except.ok.inj h
    refine ⟨hj, fun k' => ?_⟩
    rw [Table.get_put]
    have hk : (db.cursor now k).objectClass = k := cursor_objectClass
    change (if k' = (db.cursor now k).objectClass then _ else _) = _
    rw [hk]
  · cases h

theorem cursor_congr (h : db'.cursors.get k = db.cursors.get k) :
    db'.cursor now k = db.cursor now k := by
  rw [Db.cursor, Db.cursor, h]

theorem advanceStripeCoverage_ok (h : advanceStripeCoverage now start till db = .ok db') :
    (db.cursor now .stripePayments).contiguous start = true ∧
      ∀ k ∈ stripeClasses, db'.cursors.get k = some { (db.cursor now k).extend now start till with
        lockVersion := (db.cursor now k).lockVersion + 1 } := by
  unfold advanceStripeCoverage at h
  cases h₁ : advanceStripeCursor now start till db .stripePayments with
  | error r =>
    rw [h₁] at h
    cases h
  | ok db₁ =>
    rw [h₁] at h
    have h₂ : advanceStripeCursor now start till db₁ .stripeRefunds = .ok db' := h
    obtain ⟨hj, hp⟩ := advanceStripeCursor_ok h₁
    obtain ⟨-, hr⟩ := advanceStripeCursor_ok h₂
    have hsame : db₁.cursor now .stripeRefunds = db.cursor now .stripeRefunds :=
      cursor_congr ((hp _).trans (if_neg (by decide)))
    refine ⟨hj, fun k hk => ?_⟩
    simp only [stripeClasses, List.mem_cons, List.not_mem_nil, or_false] at hk
    rcases hk with rfl | rfl
    · rw [hr, if_neg (by decide), hp, if_pos rfl]
    · rw [hr, if_pos rfl, hsame]

theorem advanceStripeCursor_of_contiguous (till : Instant)
    (h : (db.cursor now k).contiguous start = true) :
    ∃ db', advanceStripeCursor now start till db k = .ok db' := by
  unfold advanceStripeCursor
  rw [if_pos h]
  exact ⟨_, rfl⟩

theorem advanceStripeCoverage_of_contiguous (till : Instant) (hs : s.RangeIsHull)
    (hj : (s.db.cursor now .stripePayments).contiguous start = true) :
    ∃ db', advanceStripeCoverage now start till s.db = .ok db' := by
  obtain ⟨db₁, h₁⟩ := advanceStripeCursor_of_contiguous till hj
  have hsame : db₁.cursor now .stripeRefunds = s.db.cursor now .stripeRefunds :=
    cursor_congr (((advanceStripeCursor_ok h₁).2 _).trans (if_neg (by decide)))
  have hj₂ : (db₁.cursor now .stripeRefunds).contiguous start = true := by
    rw [hsame, contiguous_iff (paired_cursor (hs.paired _ (by decide))), range_cursor,
      hs.agree _ (by decide), ← range_cursor, ← contiguous_iff]
    · exact hj
    · exact paired_cursor (hs.paired _ (by decide))
  obtain ⟨db₂, h₂⟩ := advanceStripeCursor_of_contiguous till hj₂
  refine ⟨db₂, ?_⟩
  unfold advanceStripeCoverage
  rw [h₁]
  exact h₂

/-- A scan that does not join the covered range changes nothing; one that joins it extends the
range of both cursors by its window. -/
theorem stripeStep_cases (hs : s.RangeIsHull) (h : stripeStep s scan s') :
    (s' = s ∧ ¬ (s.db.cursor scan.now .stripePayments).contiguous scan.start = true) ∨
    ((s.db.cursor scan.now .stripePayments).contiguous scan.start = true ∧
      s'.windows = (scan.start, scan.till) :: s.windows ∧
      ∀ k ∈ stripeClasses, ∃ c, s'.db.cursors.get k = some c ∧ c.complete = true ∧ c.Paired ∧
        c.range = some (Spans.hull (s.db.range .stripePayments) scan.start scan.till)) := by
  unfold stripeStep StripeHistory.next at h
  cases ha : advanceStripeCoverage scan.now scan.start scan.till s.db with
  | error r =>
    rw [ha] at h
    refine Or.inl ⟨h, fun hj => ?_⟩
    obtain ⟨db', hd⟩ := advanceStripeCoverage_of_contiguous scan.till hs hj
    rw [ha] at hd
    cases hd
  | ok db =>
    rw [ha] at h
    obtain rfl := h
    obtain ⟨hj, hk⟩ := advanceStripeCoverage_ok ha
    refine Or.inr ⟨hj, rfl, fun k hkm => ⟨_, hk k hkm, rfl, rfl, ?_⟩⟩
    rw [← hs.agree k hkm, ← @range_cursor _ _ scan.now]
    exact range_extend scan.now (paired_cursor (hs.paired k hkm))

theorem setOf_mem_cons {x : Instant × Instant} {l : List (Instant × Instant)} :
    {w | w ∈ x :: l} = insert x {w | w ∈ l} := by
  ext w
  simp

theorem range_extended
    (h : ∀ k ∈ stripeClasses, ∃ c, s'.db.cursors.get k = some c ∧ c.complete = true ∧ c.Paired ∧
      c.range = some (Spans.hull (s.db.range .stripePayments) scan.start scan.till))
    (hk : k ∈ stripeClasses) :
    s'.db.range k = some (Spans.hull (s.db.range .stripePayments) scan.start scan.till) := by
  obtain ⟨c, hc, -, -, hr⟩ := h k hk
  rw [Db.range, hc]
  exact hr

theorem joins_iff (hs : s.RangeIsHull) {now : Instant} :
    (s.db.cursor now .stripePayments).contiguous start = true ↔
      ∀ r, s.db.range .stripePayments = some r → start ≤ r.2 := by
  rw [contiguous_iff (paired_cursor (hs.paired _ (by decide))), range_cursor]

theorem covered_empty : ({} : StripeHistory).RangeIsHull where
  paired := by
    rintro k hk c ⟨⟩
  agree := fun _ _ => rfl
  gapless := Spans.gapless_none
  fromStart := by
    rintro w ⟨⟩

theorem covered_step (hs : s.RangeIsHull) (hr : s.ScanReaches scan) (h : stripeStep s scan s') :
    s'.RangeIsHull := by
  rcases stripeStep_cases hs h with ⟨rfl, -⟩ | ⟨hj, hw, hk⟩
  · exact hs
  · have hp : ObjectClass.stripePayments ∈ stripeClasses := by decide
    refine ⟨fun k hkm c hc => ?_, fun k hkm => ?_, ?_, ?_⟩
    · obtain ⟨c', hc', -, hpaired, -⟩ := hk k hkm
      obtain rfl := Option.some.inj (hc'.symm.trans hc)
      exact hpaired
    · rw [range_extended hk hkm, range_extended hk hp]
    · rw [range_extended hk hp, hw, setOf_mem_cons]
      exact (Spans.gapless_hull_iff hs.gapless hs.fromStart ((joins_iff hs).mp hj)).mpr (hr hj)
    · rw [range_extended hk hp, hw, setOf_mem_cons]
      exact hs.fromStart.hull

theorem gapFree_step_iff (hs : s.RangeIsHull) (h : stripeStep s scan s') :
    s'.GapFree ↔ s.ScanReaches scan := by
  constructor
  · intro hg hj
    rcases stripeStep_cases hs h with ⟨-, hn⟩ | ⟨-, hw, hk⟩
    · exact absurd hj hn
    · obtain ⟨c, hc, hcomplete, -, hrange⟩ := hk .stripePayments (by decide)
      have hgap := hg .stripePayments (by decide) c hc hcomplete
      rw [hrange, hw, setOf_mem_cons] at hgap
      exact (Spans.gapless_hull_iff hs.gapless hs.fromStart ((joins_iff hs).mp hj)).mp hgap
  · intro hr
    exact (covered_step hs hr h).gapFree

end StripeHistory

/-- As long as every clean scan that joins the covered range reaches it, a complete cursor claims
only instants in the windows of clean scans; and a call that does not reach it makes a gap. -/
theorem complete_without_gaps (sha256 : String → String) (connector : Installation) :
    (∀ calls s, Run (Guarded (batchStep sha256 connector) (PageReaches sha256 connector)) {}
        calls s → s.GapFree ∧ ∀ call s', batchStep sha256 connector s call s' →
          (s'.GapFree ↔ PageReaches sha256 connector s call)) ∧
    ∀ scans s, Run (Guarded stripeStep StripeHistory.ScanReaches) {} scans s →
      s.GapFree ∧ ∀ scan s', stripeStep s scan s' → (s'.GapFree ↔ s.ScanReaches scan) := by
  constructor
  · intro calls s h
    have hs : s.RangeIsHull := h.invariant_state covered_empty fun _ _ _ hs hg =>
      covered_step hs hg.1 hg.2
    exact ⟨hs.gapFree, fun _ _ => gapFree_step_iff hs⟩
  · intro scans s h
    have hs : s.RangeIsHull := h.invariant_state StripeHistory.covered_empty fun _ _ _ hs hg =>
      StripeHistory.covered_step hs hg.1 hg.2
    exact ⟨hs.gapFree, fun _ _ => StripeHistory.gapFree_step_iff hs⟩

def scanPage (scanId coveredFrom coveredThrough : String) : Envelope where
  requestId := "request-" ++ scanId
  installationId := "connector"
  sentAt := "2026-09-05T12:00:00Z"
  coveredFrom := coveredFrom
  coveredThrough := coveredThrough
  scanId := scanId
  page := 1
  finalPage := true
  records := []

def days (n : ℤ) : Duration := minutes (n * 24 * 60)

def recentPage : Envelope := scanPage "recent" "2026-09-05T11:00:00Z" "2026-09-05T12:00:00Z"

def overlappingPage : Envelope := scanPage "repair" "2026-09-01T12:00:00Z" "2026-09-05T11:30:00Z"

def earlyPage : Envelope := scanPage "early" "2026-09-01T12:00:00Z" "2026-09-02T12:00:00Z"

def recentScan : StripeScan := ⟨noon, noon - minutes 60, noon⟩

def overlappingScan : StripeScan := ⟨noon, noon - days 4, noon - minutes 30⟩

def earlyScan : StripeScan := ⟨noon, noon - days 4, noon - days 3⟩

def shop : Installation := ⟨"connector", "organization", some "store", .live⟩

def Server.atNoon (s : Server) (e : Envelope) : Server := s.next Sha256.hexdigest shop (noon, e)

/-- The windows of the pages that ever were accepted, read from their text. -/
def Server.windows (s : Server) : List (Option Instant × Option Instant) :=
  s.accepted.map fun a => (timestamp a.envelope.coveredFrom, timestamp a.envelope.coveredThrough)

theorem not_gapFree {s : Server} {r : Instant × Instant} {ws : List (Instant × Instant)}
    {x : Instant}
    (hc : (s.db.cursors.get .wooOrders).map (fun c => (c.complete, c.range)) =
      some (true, some r))
    (hw : s.windows = ws.map fun w => (some w.1, some w.2)) (hx : x ∈ Set.Icc r.1 r.2)
    (hn : ∀ w ∈ ws, x ∉ Set.Icc w.1 w.2) : ¬ s.GapFree := by
  intro hg
  obtain ⟨c, hget, he⟩ := Option.map_eq_some_iff.mp hc
  obtain ⟨hcomplete, hrange⟩ := Prod.mk.inj he
  obtain ⟨w, ⟨a, ha, -, hf, ht, -⟩, hxw⟩ := hg .wooOrders (by simp) c hget hcomplete r hrange x hx
  have hm : (timestamp a.envelope.coveredFrom, timestamp a.envelope.coveredThrough) ∈ s.windows :=
    List.mem_map.mpr ⟨a, ha, rfl⟩
  rw [hw, hf, ht] at hm
  obtain ⟨w', hw', he⟩ := List.mem_map.mp hm
  obtain ⟨h₁, h₂⟩ := Prod.mk.inj he
  obtain rfl : w' = w := Prod.ext (Option.some.inj h₁) (Option.some.inj h₂)
  exact hn w' hw' hxw

/-- A second clean scan that overlaps the covered range from below, for Woo and for Stripe. -/
theorem complete_without_gaps_overlapping :
    (∃ s, Run (Guarded (batchStep Sha256.hexdigest shop) (PageReaches Sha256.hexdigest shop)) {}
      [(noon, recentPage), (noon, overlappingPage)] s ∧ s.GapFree) ∧
    ∃ s, Run (Guarded stripeStep StripeHistory.ScanReaches) {} [recentScan, overlappingScan] s ∧
      s.GapFree := by
  have h₁ : PageReaches Sha256.hexdigest shop {} (noon, recentPage) := by
    rintro start till cursor - - - r ⟨⟩
  have h₂ : PageReaches Sha256.hexdigest shop (({} : Server).atNoon recentPage)
      (noon, overlappingPage) := by
    rintro start till cursor ha - - r hr x - hx -
    have hrange : ((({} : Server).atNoon recentPage).db.range .wooOrders) =
        some (noon - minutes 60, noon) := by decide +kernel
    obtain rfl := Option.some.inj (hrange.symm.trans hr)
    have ht : timestamp overlappingPage.coveredThrough = some (noon - minutes 30) := by
      decide +kernel
    obtain rfl := Option.some.inj ((window_timestamps ha.window).2.symm.trans ht)
    have hle : noon - minutes 60 ≤ noon - minutes 30 := by decide
    exact (le_of_lt hx).trans hle
  have hw : Run (Guarded (batchStep Sha256.hexdigest shop) (PageReaches Sha256.hexdigest shop)) {}
      [(noon, recentPage), (noon, overlappingPage)]
      ((({} : Server).atNoon recentPage).atNoon overlappingPage) :=
    (Run.nil.snoc ⟨h₁, rfl⟩).snoc ⟨h₂, rfl⟩
  have h₃ : ({} : StripeHistory).ScanReaches recentScan := by
    rintro - r ⟨⟩
  have h₄ : (({} : StripeHistory).next recentScan).ScanReaches overlappingScan := by
    rintro - r hr x - hx -
    have hrange : (({} : StripeHistory).next recentScan).db.range .stripePayments =
        some (noon - minutes 60, noon) := by decide +kernel
    obtain rfl := Option.some.inj (hrange.symm.trans hr)
    have hle : noon - minutes 60 ≤ noon - minutes 30 := by decide
    exact (le_of_lt hx).trans hle
  have hs : Run (Guarded stripeStep StripeHistory.ScanReaches) {} [recentScan, overlappingScan]
      ((({} : StripeHistory).next recentScan).next overlappingScan) :=
    (Run.nil.snoc ⟨h₃, rfl⟩).snoc ⟨h₄, rfl⟩
  have hall := complete_without_gaps Sha256.hexdigest shop
  exact ⟨⟨_, hw, (hall.1 _ _ hw).1⟩, _, hs, (hall.2 _ _ hs).1⟩

/-- A clean scan that ends before the covered range starts is taken into it across the gap. -/
theorem early_scan_leaves_gap :
    (∃ s, Run (batchStep Sha256.hexdigest shop) {} [(noon, recentPage), (noon, earlyPage)] s ∧
      ¬ s.GapFree) ∧
    ∃ s, Run stripeStep {} [recentScan, earlyScan] s ∧ ¬ s.GapFree := by
  constructor
  · refine ⟨(({} : Server).atNoon recentPage).atNoon earlyPage, (Run.nil.snoc rfl).snoc rfl, ?_⟩
    have hc : (((({} : Server).atNoon recentPage).atNoon earlyPage).db.cursors.get
        .wooOrders).map (fun c => (c.complete, c.range)) = some (true, some (noon - days 4, noon)) := by
      decide +kernel
    have hw : ((({} : Server).atNoon recentPage).atNoon earlyPage).windows =
        [(noon - minutes 60, noon), (noon - days 4, noon - days 3)].map
          fun w => (some w.1, some w.2) := by decide +kernel
    refine not_gapFree (x := noon - days 2) hc hw (by decide) ?_
    decide
  · refine ⟨(({} : StripeHistory).next recentScan).next earlyScan,
      (Run.nil.snoc rfl).snoc rfl, fun hg => ?_⟩
    have hc : (((({} : StripeHistory).next recentScan).next earlyScan).db.cursors.get
        .stripePayments).map (fun c => (c.complete, c.range)) =
          some (true, some (noon - days 4, noon)) := by decide +kernel
    obtain ⟨c, hget, he⟩ := Option.map_eq_some_iff.mp hc
    obtain ⟨hcomplete, hrange⟩ := Prod.mk.inj he
    obtain ⟨w, hw, hx⟩ := hg .stripePayments (by decide) c hget hcomplete _ hrange (noon - days 2)
      (by decide)
    have hws : ((({} : StripeHistory).next recentScan).next earlyScan).windows =
        [(noon - days 4, noon - days 3), (noon - minutes 60, noon)] := by decide +kernel
    change w ∈ ((({} : StripeHistory).next recentScan).next earlyScan).windows at hw
    rw [hws] at hw
    have hn : ∀ w ∈ [(noon - days 4, noon - days 3), (noon - minutes 60, noon)],
        ¬ (w.1 ≤ noon - days 2 ∧ noon - days 2 ≤ w.2) := by decide
    exact hn w hw hx

end LedgerGuard.Ingestion
