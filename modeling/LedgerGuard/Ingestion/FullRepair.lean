import LedgerGuard.Ingestion.CoverageRange
import LedgerGuard.Lib.Raising

/-! # Coverage after a full repair

A clean scan against the covered range that is stored before it. No operation takes the range
back, so the scan is taken into it only if the window starts before the range ends; a full repair
of a connector that was away for longer is refused.
-/

namespace LedgerGuard.Ingestion

open Transition

def Cursor.incomplete (c : Cursor) : Cursor := { c with complete := false }

theorem incomplete_objectClass (c : Cursor) : c.incomplete.objectClass = c.objectClass := rfl

/-- A connector is disconnected or suspended, or its work is given up. -/
def Db.incomplete (db : Db) : Db :=
  { db with cursors := db.cursors.map Cursor.incomplete incomplete_objectClass }

inductive CursorEvent
  | page (call : Instant × Envelope)
  | incomplete
  | retention

/-- The calls of `accept_woo_batch`, and what else changes the cursors and pages of a connector. -/
inductive CursorStep (sha256 : String → String) (connector : Installation) :
    Server → CursorEvent → Server → Prop
  | page {s} (call : Instant × Envelope) :
      CursorStep sha256 connector s (.page call) (s.next sha256 connector call)
  | incomplete {s} : CursorStep sha256 connector s .incomplete { s with db := s.db.incomplete }
  /-- Old pages are deleted. -/
  | retention {s} (old : BatchPage → Bool) :
      CursorStep sha256 connector s .retention
        { s with db.pages := s.db.pages.filter fun p => !old p }

/-- The cursor is complete over at least a window. -/
def Db.Covers (db : Db) (k : ObjectClass) (start till : Instant) : Prop :=
  ∃ c, db.cursors.get k = some c ∧ c.complete = true ∧ ∃ covered through,
    c.coveredFrom = some covered ∧ c.coveredThrough = some through ∧ covered ≤ start ∧ till ≤ through

/-- A window starts no later than the stored range ends, if there is one. -/
def Db.Meets (db : Db) (k : ObjectClass) (start : Instant) : Prop :=
  ∀ c, db.cursors.get k = some c → ∀ through, c.coveredThrough = some through → start ≤ through

/-- The window spans the evaluation window, up to within the freshness limit. -/
def Spanning (now : Instant) (freshness : Duration) (start till : Instant) : Prop :=
  start ≤ now - days 30 ∧ now - freshness ≤ till

def wooClasses : List ObjectClass := [.wooOrders, .wooRefunds]

/-- A call accepts the last page of a scan, and none of the scan's pages has a rejected record. -/
structure Server.Finishes (s : Server) (sha256 : String → String) (connector : Installation)
    (now : Instant) (e : Envelope) (start till : Instant) (s' : Server) (result : BatchResult) :
    Prop where
  new : s.db.pages.get (e.scanId, e.page) = none
  received : s.receive sha256 connector now e = .ok (s', result)
  window : window now e = .ok (start, till)
  final : e.finalPage = true
  clean : ∀ a ∈ s'.accepted, a.envelope.scanId = e.scanId → a.rejected = false

variable {sha256 : String → String} {connector : Installation} {now : Instant} {e : Envelope}
  {s s' : Server} {cursor c : Cursor} {start till : Instant} {result : BatchResult} {db db' : Db}
  {k : ObjectClass}

theorem contiguous_cursor : (db.cursor now k).contiguous start = true ↔ db.Meets k start := by
  unfold Db.cursor Db.Meets Cursor.contiguous
  cases hg : db.cursors.get k with
  | none => simp
  | some c => simp [Option.all_eq_true]

theorem Db.Admits.contiguous_iff (ha : db.Admits now e start till cursor) :
    cursor.contiguous start = true ↔ db.Meets .wooOrders start := by
  have hthrough : cursor.coveredThrough = (db.cursor now .wooOrders).coveredThrough := by
    rcases (forPage_ok ha.place).1 with ⟨-, rfl⟩ | ⟨-, -, rfl⟩ <;> rfl
  rw [Cursor.contiguous, hthrough]
  exact contiguous_cursor

theorem covers_of_range {x y : Instant} (hget : db.cursors.get k = some c)
    (hcomplete : c.complete = true) (hfrom : c.coveredFrom = some (min x start))
    (hthrough : c.coveredThrough = some (max y till)) : db.Covers k start till :=
  ⟨c, hget, hcomplete, _, _, hfrom, hthrough, min_le_right _ _, le_max_right _ _⟩

theorem acceptPage_refunds (sha256 : String → String) (connector : Installation)
    (ha : db.Admits now e start till cursor) (hfinal : e.finalPage = true) :
    ∃ d : Db, (acceptPage sha256 connector now e start till cursor db).1.cursors.get .wooRefunds =
      (d.endScan now (cursor.afterRecords now
        (storeRecords sha256 connector now e.records db.facts).rejected) start till).cursors.get
          .wooRefunds := by
  refine ⟨if (db.cursor now .wooOrders).scanId = some e.scanId then db
    else db.invalidate .wooRefunds, ?_⟩
  have hclass : (cursor.afterPage now e start till
      (storeRecords sha256 connector now e.records db.facts).rejected).objectClass =
        .wooOrders := afterPage_objectClass.trans ha.objectClass
  unfold acceptPage
  dsimp only
  rw [Table.get_put, if_neg, if_pos hfinal]
  intro h
  exact absurd (h.trans hclass) (by decide)

theorem acceptPage_covers (ha : db.Admits now e start till cursor) (hfinal : e.finalPage = true)
    (hclean : (cursor.scanFailed || (storeRecords sha256 connector now e.records db.facts).rejected)
      = false) (hj : cursor.contiguous start = true) (hk : k ∈ wooClasses) :
    (acceptPage sha256 connector now e start till cursor db).1.Covers k start till := by
  simp only [wooClasses, List.mem_cons, List.not_mem_nil, or_false] at hk
  rcases hk with rfl | rfl
  · have hget := acceptPage_orders sha256 connector ha
    rw [afterPage_extended hfinal hclean hj] at hget
    exact covers_of_range hget rfl rfl rfl
  · obtain ⟨d, hget⟩ := acceptPage_refunds sha256 connector ha hfinal
    have hadv : ¬ (cursor.afterRecords now
        (storeRecords sha256 connector now e.records db.facts).rejected).scanFailed = true ∧
        (cursor.afterRecords now
          (storeRecords sha256 connector now e.records db.facts).rejected).contiguous start = true :=
      ⟨by rw [Cursor.afterRecords, hclean]; exact Bool.false_ne_true, hj⟩
    rw [Db.endScan, if_pos hadv, Table.get_put, if_pos cursor_objectClass.symm] at hget
    exact covers_of_range hget rfl rfl rfl

theorem coverageAdvanced_iff (hfinal : e.finalPage = true)
    (hclean : (cursor.scanFailed || (storeRecords sha256 connector now e.records db.facts).rejected)
      = false) :
    (acceptPage sha256 connector now e start till cursor db).2.coverageAdvanced = true ↔
      cursor.contiguous start = true := by
  change (e.finalPage && !(cursor.scanFailed ||
    (storeRecords sha256 connector now e.records db.facts).rejected) &&
      cursor.contiguous start) = true ↔ _
  rw [hfinal, hclean]
  simp

def Server.FailedFor (s : Server) : Prop :=
  ∀ c scan, s.db.cursors.get .wooOrders = some c → c.scanId = some scan → c.scanFailed = true →
    ∃ a ∈ s.accepted, a.envelope.scanId = scan ∧ a.rejected = true

theorem Server.FailedFor.place (hs : s.FailedFor) (ha : s.db.Admits now e start till cursor) :
    cursor.scanId = some e.scanId ∧ (cursor.scanFailed = true →
      ∃ a ∈ s.accepted, a.envelope.scanId = e.scanId ∧ a.rejected = true) := by
  rcases (forPage_ok ha.place).1 with ⟨hid, rfl⟩ | ⟨-, -, rfl⟩
  · refine ⟨hid, fun hfailed => ?_⟩
    cases hg : s.db.cursors.get .wooOrders with
    | none =>
      simp only [Db.cursor, hg, Option.getD_none] at hid
      cases hid
    | some c =>
      rw [Db.cursor, hg, Option.getD_some] at hid hfailed
      exact hs c _ hg hid hfailed
  · refine ⟨rfl, ?_⟩
    intro hfailed
    cases hfailed

theorem Server.FailedFor.page (hs : s.FailedFor) (ha : s.db.Admits now e start till cursor) :
    (s.withPage sha256 connector now e start till cursor).FailedFor := by
  intro c scan hc hscan hfailed
  obtain rfl := Option.some.inj ((acceptPage_orders sha256 connector ha).symm.trans hc)
  obtain ⟨hid, hplace⟩ := hs.place ha
  obtain rfl := Option.some.inj (hid.symm.trans (afterPage_scanId hscan).2)
  rw [afterPage_scanFailed, Bool.or_eq_true] at hfailed
  rcases hfailed with hfailed | hrejected
  · obtain ⟨a, ham, h⟩ := hplace hfailed
    exact ⟨a, mem_withPage.mpr (Or.inl ham), h⟩
  · exact ⟨_, mem_withPage.mpr (Or.inr rfl), rfl, hrejected⟩

theorem failedFor_step {event : CursorEvent} (hs : s.FailedFor)
    (h : CursorStep sha256 connector s event s') : s'.FailedFor := by
  cases h with
  | page call =>
    obtain ⟨now, e⟩ := call
    rcases @batchStep_cases sha256 connector now e s _ rfl with ⟨hsame, -⟩ |
      ⟨start, till, cursor, ha, hpage⟩
    · rw [hsame]
      exact hs
    · rw [hpage]
      exact hs.page ha
  | incomplete =>
    intro c scan hc hscan hfailed
    have hget := Table.get_map (t := s.db.cursors) (k := .wooOrders) incomplete_objectClass
    obtain ⟨c₀, hc₀, rfl⟩ := Option.map_eq_some_iff.mp (hget.symm.trans hc)
    exact hs c₀ scan hc₀ hscan hfailed
  | retention old => exact hs

theorem failedFor_of_run {events : List CursorEvent}
    (hrun : Run (CursorStep sha256 connector) {} events s) : s.FailedFor := by
  apply hrun.invariant_state (I := Server.FailedFor)
  · rintro c scan ⟨⟩
  · exact fun _ _ _ hs h => failedFor_step hs h

theorem Server.Finishes.admitted (hs : s.FailedFor)
    (h : s.Finishes sha256 connector now e start till s' result) :
    ∃ cursor, s.db.Admits now e start till cursor ∧
      s' = s.withPage sha256 connector now e start till cursor ∧
      result = (acceptPage sha256 connector now e start till cursor s.db).2 ∧
      (cursor.scanFailed || (storeRecords sha256 connector now e.records s.db.facts).rejected) =
        false := by
  have hreceived := h.received
  unfold Server.receive at hreceived
  cases hr : acceptWooBatch sha256 connector now e s.db with
  | error r =>
    rw [hr] at hreceived
    cases hreceived
  | ok r =>
    obtain ⟨db, result'⟩ := r
    rw [hr] at hreceived
    obtain ⟨hs', rfl⟩ := Prod.mk.inj (Except.ok.inj hreceived)
    rcases acceptWooBatch_ok hr with ⟨prior, hp, -⟩ | ⟨start', till', cursor, ha, he⟩
    · rw [h.new] at hp
      cases hp
    · obtain ⟨rfl, rfl⟩ := Prod.mk.inj (Except.ok.inj (ha.window.symm.trans h.window))
      obtain ⟨rfl, rfl⟩ := Prod.mk.inj he
      rw [h.new] at hs'
      have heq : s' = s.withPage sha256 connector now e start' till' cursor := hs'.symm
      refine ⟨cursor, ha, heq, rfl, ?_⟩
      rw [Bool.eq_false_iff, ne_eq, Bool.or_eq_true]
      rintro (hfailed | hrejected)
      · obtain ⟨a, ham, hae, har⟩ := (hs.place ha).2 hfailed
        have hclean := h.clean a (by rw [heq]; exact mem_withPage.mpr (Or.inl ham)) hae
        rw [hclean] at har
        cases har
      · have hclean := h.clean _ (by rw [heq]; exact mem_withPage.mpr (Or.inr rfl)) rfl
        exact absurd (hclean.symm.trans hrejected) Bool.false_ne_true

theorem finishes_of_place (hs : s.FailedFor) (hnew : s.db.pages.get (e.scanId, e.page) = none)
    (hwindow : window now e = .ok (start, till))
    (hplace : ((s.db.cursor now .wooOrders).forPage now e start till).isOk = true)
    (hfinal : e.finalPage = true)
    (hclean : ∀ a ∈ (s.next sha256 connector (now, e)).accepted, a.envelope.scanId = e.scanId →
      a.rejected = false) :
    ∃ result, s.Finishes sha256 connector now e start till (s.next sha256 connector (now, e))
      result ∧ (result.coverageAdvanced = true ↔ s.db.Meets .wooOrders start) := by
  cases hp : (s.db.cursor now .wooOrders).forPage now e start till with
  | error r =>
    rw [hp] at hplace
    cases hplace
  | ok cursor =>
    have ha : s.db.Admits now e start till cursor := ⟨hnew, hwindow, hp⟩
    have hreceived : s.receive sha256 connector now e =
        .ok (s.withPage sha256 connector now e start till cursor,
          (acceptPage sha256 connector now e start till cursor s.db).2) := by
      rw [Server.receive, acceptWooBatch_of_admits ha, hnew]
      rfl
    have hnext : s.next sha256 connector (now, e) =
        s.withPage sha256 connector now e start till cursor := by
      rw [Server.next, hreceived]
      rfl
    rw [hnext] at hclean ⊢
    have hf : s.Finishes sha256 connector now e start till
        (s.withPage sha256 connector now e start till cursor)
        (acceptPage sha256 connector now e start till cursor s.db).2 :=
      ⟨hnew, hreceived, hwindow, hfinal, hclean⟩
    obtain ⟨cursor', ha', -, -, hnone⟩ := hf.admitted hs
    obtain rfl := Except.ok.inj (ha'.place.symm.trans hp)
    refine ⟨_, hf, ?_⟩
    rw [coverageAdvanced_iff hfinal hnone, ha.contiguous_iff]

open StripeHistory in
theorem advanceStripeCoverage_iff :
    (∃ db', advanceStripeCoverage now start till db = .ok db') ↔
      ∀ k ∈ stripeClasses, db.Meets k start := by
  have hrefunds : ∀ {db₁}, advanceStripeCursor now start till db .stripePayments = .ok db₁ →
      ((db₁.cursor now .stripeRefunds).contiguous start = true ↔ db.Meets .stripeRefunds start) := by
    intro db₁ h₁
    rw [cursor_congr (((advanceStripeCursor_ok h₁).2 _).trans (if_neg (by decide)))]
    exact contiguous_cursor
  constructor
  · rintro ⟨db', h⟩ k hk
    unfold advanceStripeCoverage at h
    obtain ⟨db₁, h₁, h₂⟩ := Raising.bind_eq_ok.mp h
    simp only [stripeClasses, List.mem_cons, List.not_mem_nil, or_false] at hk
    rcases hk with rfl | rfl
    · exact contiguous_cursor.mp (advanceStripeCursor_ok h₁).1
    · exact (hrefunds h₁).mp (advanceStripeCursor_ok h₂).1
  · intro hmeets
    have hp : (db.cursor now .stripePayments).contiguous start = true :=
      contiguous_cursor.mpr (hmeets .stripePayments (by decide))
    obtain ⟨db₁, h₁⟩ := advanceStripeCursor_of_contiguous till hp
    have hr := (hrefunds h₁).mpr (hmeets .stripeRefunds (by decide))
    obtain ⟨db₂, h₂⟩ := advanceStripeCursor_of_contiguous till hr
    exact ⟨db₂, Raising.bind_eq_ok.mpr ⟨db₁, h₁, h₂⟩⟩

theorem advanceStripeCoverage_covers (h : advanceStripeCoverage now start till db = .ok db')
    (hk : k ∈ stripeClasses) : db'.Covers k start till :=
  covers_of_range ((StripeHistory.advanceStripeCoverage_ok h).2 k hk) rfl rfl rfl

/-- In every run, a clean scan of any window advances coverage, and leaves both cursors complete
over at least the window, exactly if the window starts no later than the stored range ends. The
same holds of finished Stripe scans on any cursors. -/
theorem clean_scan_covers_iff (sha256 : String → String) (connector : Installation) :
    (∀ events s, Run (CursorStep sha256 connector) {} events s →
      ∀ now e start till s' result, s.Finishes sha256 connector now e start till s' result →
        ((result.coverageAdvanced = true ∧ ∀ k ∈ wooClasses, s'.db.Covers k start till) ↔
          s.db.Meets .wooOrders start)) ∧
    ∀ now start till db,
      ((∃ db', advanceStripeCoverage now start till db = .ok db' ∧
        ∀ k ∈ stripeClasses, db'.Covers k start till) ↔
          ∀ k ∈ stripeClasses, db.Meets k start) := by
  constructor
  · intro events s hrun now e start till s' result h
    obtain ⟨cursor, ha, rfl, rfl, hclean⟩ := h.admitted (failedFor_of_run hrun)
    rw [coverageAdvanced_iff h.final hclean, ← ha.contiguous_iff]
    constructor
    · exact And.left
    · exact fun hj => ⟨hj, fun k hk => acceptPage_covers ha h.final hclean hj hk⟩
  · intro now start till db
    rw [← @advanceStripeCoverage_iff now start till db]
    constructor
    · rintro ⟨db', h, -⟩
      exact ⟨db', h⟩
    · rintro ⟨db', h⟩
      exact ⟨db', h, fun k hk => advanceStripeCoverage_covers h hk⟩

namespace Away

/-- A scan that ended 50 days before the repair. -/
def oldPage : Envelope := scanPage "old" "2026-07-16T12:00:00Z" "2026-07-17T12:00:00Z"

/-- A scan that ended 20 days before the repair. -/
def newerPage : Envelope := scanPage "newer" "2026-08-15T12:00:00Z" "2026-08-16T12:00:00Z"

def repairPage : Envelope := scanPage "repair" "2026-08-01T12:00:00Z" "2026-09-05T12:00:00Z"

/-- The server before the repair. -/
def server (call : Instant × Envelope) : Server := ({} : Server).next Sha256.hexdigest shop call

theorem run_server (call : Instant × Envelope) :
    Run (CursorStep Sha256.hexdigest shop) {} [.page call] (server call) :=
  Run.nil.snoc (CursorStep.page call)

theorem repair_finishes {call : Instant × Envelope}
    (hnew : (server call).db.pages.get ("repair", 1) = none)
    (hplace : (((server call).db.cursor noon .wooOrders).forPage noon repairPage (noon - days 35)
      noon).isOk = true)
    (hclean : ∀ a ∈ ((server call).next Sha256.hexdigest shop (noon, repairPage)).accepted,
      a.rejected = false) :
    ∃ result, (server call).Finishes Sha256.hexdigest shop noon repairPage (noon - days 35) noon
      ((server call).next Sha256.hexdigest shop (noon, repairPage)) result ∧
        (result.coverageAdvanced = true ↔ (server call).db.Meets .wooOrders (noon - days 35)) :=
  finishes_of_place (failedFor_of_run (run_server call)) hnew (by decide +kernel) hplace rfl
    fun a ha _ => hclean a ha

end Away

open Away

/-- A full repair after a window that it reaches, and after none. -/
theorem clean_scan_covers_iff_repair :
    (∀ k ∈ wooClasses, ((server (noon - days 20, newerPage)).next Sha256.hexdigest shop
      (noon, repairPage)).db.Covers k (noon - days 35) noon) ∧
    ∃ db, advanceStripeCoverage noon (noon - days 30) noon {} = .ok db ∧
      ∀ k ∈ stripeClasses, db.Covers k (noon - days 30) noon := by
  have h := clean_scan_covers_iff Sha256.hexdigest shop
  constructor
  · obtain ⟨result, hf, -⟩ := @repair_finishes (noon - days 20, newerPage) (by decide +kernel)
      (by decide +kernel) (by decide +kernel)
    have hmeets : (server (noon - days 20, newerPage)).db.Meets .wooOrders (noon - days 35) := by
      intro c hc through hthrough
      have hstored : ((server (noon - days 20, newerPage)).db.cursors.get .wooOrders).bind
          Cursor.coveredThrough = some (noon - days 20) := by decide +kernel
      rw [hc, Option.bind_some, hthrough] at hstored
      obtain rfl := Option.some.inj hstored
      decide
    exact ((h.1 _ _ (run_server _) _ _ _ _ _ _ hf).mpr hmeets).2
  · apply (h.2 noon (noon - days 30) noon {}).mpr
    rintro k hk c ⟨⟩

/-- A full repair after a window that lies farther back is clean, spans the evaluation window and
is refused, for Woo and for Stripe. -/
theorem full_repair_refused :
    (∃ s s' result, Run (CursorStep Sha256.hexdigest shop) {} [.page (noon - days 50, oldPage)] s ∧
      s.Finishes Sha256.hexdigest shop noon repairPage (noon - days 35) noon s' result ∧
      Spanning noon (minutes 15) (noon - days 35) noon ∧ result.coverageAdvanced = false) ∧
    ∃ db, advanceStripeCoverage (noon - days 50) (noon - days 80) (noon - days 50) {} = .ok db ∧
      Spanning (noon + minutes 5) (minutes 15) (noon - days 30) noon ∧
      advanceStripeCoverage (noon + minutes 5) (noon - days 30) noon db =
        .error (.problem "COVERAGE_GAP" 409) := by
  constructor
  · obtain ⟨result, hf, hiff⟩ := @repair_finishes (noon - days 50, oldPage) (by decide +kernel)
      (by decide +kernel) (by decide +kernel)
    refine ⟨_, _, result, run_server _, hf, ⟨by decide, by decide⟩, ?_⟩
    rw [Bool.eq_false_iff, ne_eq, hiff]
    intro hmeets
    have hstored : ((server (noon - days 50, oldPage)).db.cursors.get .wooOrders).bind
        Cursor.coveredThrough = some (noon - days 50) := by decide +kernel
    obtain ⟨c, hc, hthrough⟩ := Option.bind_eq_some_iff.mp hstored
    exact absurd (hmeets c hc _ hthrough) (by decide)
  · exact ⟨_, rfl, ⟨by decide, by decide⟩, rfl⟩

end LedgerGuard.Ingestion
