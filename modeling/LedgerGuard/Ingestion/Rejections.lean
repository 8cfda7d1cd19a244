import LedgerGuard.Ingestion.CoverageRange

/-! # Rejected records and complete coverage

A scan that finishes with a rejected record owes the instant of its revision
until a later scan over that instant finishes clean. A complete cursor leaves
out what is owed as long as every clean scan that joins the covered range takes
the owed instants of the joined range into its own window.
-/

namespace LedgerGuard.Ingestion

open Transition

def Accepted.Spans (a : Accepted) (r : Instant) : Prop :=
  ∃ start till, timestamp a.envelope.coveredFrom = some start ∧
    timestamp a.envelope.coveredThrough = some till ∧ start ≤ r ∧ r ≤ till

def Accepted.Rejects (a : Accepted) (r : Instant) : Prop :=
  ∃ x ∈ a.envelope.records.zip a.result.results, x.2.status = .rejected ∧
    timestamp x.1.revision = some r

/-- The page is the last of a scan that ends without a rejected record, over the instant. -/
def Server.Rescanned (s : Server) (a : Accepted) (r : Instant) : Prop :=
  a.envelope.finalPage = true ∧ a.Spans r ∧
    ∀ b ∈ s.accepted, b.envelope.scanId = a.envelope.scanId → b.rejected = false

/-- A finished scan over the instant rejected a record of this revision, and no scan over it has
finished clean since. -/
def Server.Owes (s : Server) (r : Instant) : Prop :=
  ∃ before f after, s.accepted = before ++ f :: after ∧ f.envelope.finalPage = true ∧ f.Spans r ∧
    (∃ a ∈ before ++ [f], a.envelope.scanId = f.envelope.scanId ∧ a.Rejects r) ∧
    ∀ g ∈ after, ¬ s.Rescanned g r

def Cursor.Covers (c : Cursor) (r : Instant) : Prop :=
  ∃ start till, c.coveredFrom = some start ∧ c.coveredThrough = some till ∧ start ≤ r ∧ r ≤ till

/-- No complete cursor covers an owed instant. -/
def Server.KeepsIncomplete (s : Server) : Prop :=
  ∀ c, s.db.cursors.get .wooOrders = some c → c.complete = true →
    ∀ r, s.Owes r → ¬ c.Covers r

/-- A clean scan that the page ends and that joins the covered range has in its window every owed
instant from the earlier start to the later end of both. -/
def PageRescans (sha256 : String → String) (connector : Installation) (s : Server)
    (call : Instant × Envelope) : Prop :=
  ∀ start till cursor, s.db.Admits call.1 call.2 start till cursor →
    s.EndsClean sha256 connector call.1 call.2 cursor → cursor.contiguous start = true →
    ∀ r, s.Owes r → min (cursor.coveredFrom.getD start) start ≤ r →
      r ≤ max (cursor.coveredThrough.getD till) till → start ≤ r ∧ r ≤ till

variable {sha256 : String → String} {connector : Installation} {now : Instant} {e : Envelope}
  {s s' : Server} {cursor c : Cursor} {start till r : Instant} {a : Accepted}

theorem Accepted.Rejects.rejected (h : a.Rejects r) : a.rejected = true := by
  obtain ⟨x, hx, hs, -⟩ := h
  exact List.any_eq_true.mpr ⟨x.2, (List.of_mem_zip hx).2, decide_eq_true hs⟩

theorem spans_window (ha : s.db.Admits now e start till cursor) {result : BatchResult} :
    Accepted.Spans ⟨e, result⟩ r ↔ start ≤ r ∧ r ≤ till := by
  obtain ⟨hf, ht⟩ := window_timestamps ha.window
  constructor
  · rintro ⟨start', till', hf', ht', h⟩
    obtain rfl := Option.some.inj (hf.symm.trans hf')
    obtain rfl := Option.some.inj (ht.symm.trans ht')
    exact h
  · intro h
    exact ⟨start, till, hf, ht, h⟩

theorem Server.Consistent.ended (hs : s.Consistent) (ha : s.db.Admits now e start till cursor)
    (hm : a ∈ s.accepted) (hf : a.envelope.finalPage = true) : e.scanId ≠ a.envelope.scanId := by
  rintro he
  have hn := (hs.tracks ha).2.unfinished a hm he.symm
  rw [hf] at hn
  cases hn

theorem rescanned_withPage (hs : s.Consistent) (ha : s.db.Admits now e start till cursor)
    (hm : a ∈ s.accepted) :
    (s.withPage sha256 connector now e start till cursor).Rescanned a r ↔ s.Rescanned a r := by
  constructor
  · rintro ⟨hf, hsp, hclean⟩
    exact ⟨hf, hsp, fun b hb => hclean b (mem_withPage.mpr (Or.inl hb))⟩
  · rintro ⟨hf, hsp, hclean⟩
    refine ⟨hf, hsp, fun b hb hid => ?_⟩
    rcases mem_withPage.mp hb with hb | rfl
    · exact hclean b hb hid
    · exact absurd hid (hs.ended ha hm hf)

theorem rescanned_page (hs : s.Consistent) (ha : s.db.Admits now e start till cursor) :
    (s.withPage sha256 connector now e start till cursor).Rescanned
        ⟨e, (acceptPage sha256 connector now e start till cursor s.db).2⟩ r ↔
      s.EndsClean sha256 connector now e cursor ∧ start ≤ r ∧ r ≤ till := by
  have hfail := hs.failed_withPage sha256 connector ha
  constructor
  · rintro ⟨hf, hsp, hclean⟩
    refine ⟨⟨hf, ?_⟩, (spans_window ha).mp hsp⟩
    rw [Bool.eq_false_iff, ne_eq, hfail]
    rintro ⟨b, hb, hid, hr⟩
    rw [hclean b hb hid] at hr
    cases hr
  · rintro ⟨⟨hf, hclean⟩, hw⟩
    refine ⟨hf, (spans_window ha).mpr hw, fun b hb hid => ?_⟩
    rw [Bool.eq_false_iff]
    intro hr
    rw [hfail.mpr ⟨b, hb, hid, hr⟩] at hclean
    cases hclean

/-- What is owed after a page: what was, unless the page ends a clean scan over it, and what the
scan rejected if the page ends it. -/
theorem owes_withPage (hs : s.Consistent) (ha : s.db.Admits now e start till cursor)
    (h : (s.withPage sha256 connector now e start till cursor).Owes r) :
    (s.Owes r ∧ ¬ (s.EndsClean sha256 connector now e cursor ∧ start ≤ r ∧ r ≤ till)) ∨
      (e.finalPage = true ∧ ¬ s.EndsClean sha256 connector now e cursor) := by
  obtain ⟨before, f, after, hlog, hfin, hsp, hrej, hafter⟩ := h
  have hlog : s.accepted ++ [⟨e, (acceptPage sha256 connector now e start till cursor s.db).2⟩] =
      before ++ f :: after := hlog
  rcases List.eq_nil_or_concat after with rfl | ⟨after, g, rfl⟩
  · obtain ⟨rfl, rfl⟩ := List.append_inj' hlog rfl |>.imp_right List.singleton_inj.mp
    refine Or.inr ⟨hfin, fun hclean => ?_⟩
    obtain ⟨a, hm, hid, hr⟩ := hrej
    have hf := (hs.failed_withPage sha256 connector ha).mpr
      ⟨a, hm, hid, hr.rejected⟩
    rw [hclean.2] at hf
    cases hf
  · rw [List.concat_eq_append] at hlog hafter
    rw [← List.cons_append, ← List.append_assoc] at hlog
    obtain ⟨hold, rfl⟩ := List.append_inj' hlog rfl |>.imp_right List.singleton_inj.mp
    have hm : ∀ g ∈ after, g ∈ s.accepted := by
      intro g hg
      rw [hold]
      exact List.mem_append_right _ (List.mem_cons_of_mem _ hg)
    refine Or.inl ⟨⟨before, f, after, hold, hfin, hsp, hrej, fun g hg hres => ?_⟩, fun hw => ?_⟩
    · exact hafter g (List.mem_append_left _ hg) ((rescanned_withPage hs ha (hm g hg)).mpr hres)
    · exact hafter _ (List.mem_append_right _ List.mem_cons_self) ((rescanned_page hs ha).mpr hw)

theorem owes_of_owes (hs : s.Consistent) (ha : s.db.Admits now e start till cursor)
    (h : s.Owes r) (hn : ¬ (s.EndsClean sha256 connector now e cursor ∧ start ≤ r ∧ r ≤ till)) :
    (s.withPage sha256 connector now e start till cursor).Owes r := by
  obtain ⟨before, f, after, hlog, hfin, hsp, hrej, hafter⟩ := h
  refine ⟨before, f,
    after ++ [⟨e, (acceptPage sha256 connector now e start till cursor s.db).2⟩], ?_, hfin, hsp,
    hrej, fun g hg hres => ?_⟩
  · unfold Server.withPage
    rw [hlog, List.append_assoc]
    rfl
  · rcases List.mem_append.mp hg with hg | hg
    · have hm : g ∈ s.accepted := by
        rw [hlog]
        exact List.mem_append_right _ (List.mem_cons_of_mem _ hg)
      exact hafter g hg ((rescanned_withPage hs ha hm).mp hres)
    · obtain rfl := List.mem_singleton.mp hg
      exact hn ((rescanned_page hs ha).mp hres)

theorem complete_admitted (ha : s.db.Admits now e start till cursor)
    (hc : cursor.complete = true) : s.db.cursors.get .wooOrders = some cursor := by
  rcases (forPage_ok ha.place).1 with ⟨-, rfl⟩ | ⟨-, -, rfl⟩
  · unfold Db.cursor at hc ⊢
    cases hg : s.db.cursors.get .wooOrders with
    | none =>
      rw [hg] at hc
      cases hc
    | some c => rfl
  · cases hc

theorem complete_kept {rejected : Bool}
    (h : ¬ (e.finalPage = true ∧ (cursor.scanFailed || rejected) = false ∧
      cursor.contiguous start = true))
    (hc : (cursor.afterPage now e start till rejected).complete = true) :
    cursor.complete = true ∧
      (e.finalPage = true → (cursor.scanFailed || rejected) = false) := by
  unfold Cursor.afterPage Cursor.endScan at hc
  split at hc
  · rename_i hf
    split at hc
    · rename_i hj
      refine absurd ⟨hf, ?_, hj.2⟩ h
      simpa [Cursor.afterRecords] using hj.1
    · split at hc
      · cases hc
      · rename_i hfail
        exact ⟨hc, fun _ => by simpa [Cursor.afterRecords] using hfail⟩
  · rename_i hf
    exact ⟨hc, fun h => absurd h hf⟩

theorem covers_iff {first last : Instant} (hf : c.coveredFrom = some first)
    (hl : c.coveredThrough = some last) : c.Covers r ↔ first ≤ r ∧ r ≤ last := by
  constructor
  · rintro ⟨f, t, hf', hl', h⟩
    obtain rfl := Option.some.inj (hf.symm.trans hf')
    obtain rfl := Option.some.inj (hl.symm.trans hl')
    exact h
  · intro h
    exact ⟨first, last, hf, hl, h⟩

theorem keepsIncomplete_extended (hs : s.Consistent) (ha : s.db.Admits now e start till cursor)
    (hclean : s.EndsClean sha256 connector now e cursor) (hj : cursor.contiguous start = true) :
    (s.withPage sha256 connector now e start till cursor).KeepsIncomplete ↔
      ∀ r, s.Owes r → min (cursor.coveredFrom.getD start) start ≤ r →
        r ≤ max (cursor.coveredThrough.getD till) till → start ≤ r ∧ r ≤ till := by
  have hget := (acceptPage_orders sha256 connector ha).trans
    (congrArg some (afterPage_extended hclean.1 hclean.2 hj))
  constructor
  · intro hk r ho hmin hmax
    by_contra hw
    exact hk _ hget rfl r (owes_of_owes hs ha ho fun h => hw h.2)
      ((covers_iff rfl rfl).mpr ⟨hmin, hmax⟩)
  · intro hr c hc _ r ho hcov
    obtain rfl := Option.some.inj (hget.symm.trans hc)
    obtain ⟨hmin, hmax⟩ := (covers_iff rfl rfl).mp hcov
    rcases owes_withPage hs ha ho with ⟨ho, hn⟩ | ⟨-, hn⟩
    · exact hn ⟨hclean, hr r ho hmin hmax⟩
    · exact hn hclean

theorem keepsIncomplete_kept (hs : s.Consistent) (hk : s.KeepsIncomplete)
    (ha : s.db.Admits now e start till cursor)
    (hn : ¬ (s.EndsClean sha256 connector now e cursor ∧ cursor.contiguous start = true)) :
    (s.withPage sha256 connector now e start till cursor).KeepsIncomplete := by
  intro c hc hcomplete r ho hcov
  obtain rfl := Option.some.inj ((acceptPage_orders _ _ ha).symm.trans hc)
  have hext : ¬ (e.finalPage = true ∧ (cursor.scanFailed ||
      (storeRecords sha256 connector now e.records s.db.facts).rejected) = false ∧
        cursor.contiguous start = true) := fun h => hn ⟨⟨h.1, h.2.1⟩, h.2.2⟩
  obtain ⟨hbefore, hend⟩ := complete_kept hext hcomplete
  obtain ⟨hf, ht⟩ := afterPage_kept now till hext
  have hcovers : cursor.Covers r := by
    unfold Cursor.Covers at hcov ⊢
    rwa [hf, ht] at hcov
  rcases owes_withPage hs ha ho with ⟨ho, -⟩ | ⟨hfin, hfail⟩
  · exact hk cursor (complete_admitted ha hbefore) hbefore r ho hcovers
  · exact hfail ⟨hfin, hend hfin⟩

theorem keepsIncomplete_empty : ({} : Server).KeepsIncomplete := by
  rintro c ⟨⟩

theorem keepsIncomplete_step {call : Instant × Envelope} (hs : s.Consistent)
    (hk : s.KeepsIncomplete) (hr : PageRescans sha256 connector s call)
    (h : batchStep sha256 connector s call s') : s'.KeepsIncomplete := by
  rcases batchStep_cases h with ⟨rfl, -⟩ | ⟨start, till, cursor, ha, rfl⟩
  · exact hk
  · by_cases hadv : s.EndsClean sha256 connector call.1 call.2 cursor ∧
        cursor.contiguous start = true
    · exact (keepsIncomplete_extended hs ha hadv.1 hadv.2).mpr
        (hr start till cursor ha hadv.1 hadv.2)
    · exact keepsIncomplete_kept hs hk ha hadv

theorem pageRescans_of_step {call : Instant × Envelope} (hs : s.Consistent)
    (h : batchStep sha256 connector s call s') (hk : s'.KeepsIncomplete) :
    PageRescans sha256 connector s call := by
  intro start till cursor ha hclean hj
  rcases batchStep_cases h with ⟨-, hn⟩ | ⟨start', till', cursor', ha', rfl⟩
  · exact absurd ha (hn start till cursor)
  · obtain ⟨rfl, rfl⟩ := Prod.mk.inj (Except.ok.inj (ha.window.symm.trans ha'.window))
    obtain rfl := Except.ok.inj (ha.place.symm.trans ha'.place)
    exact (keepsIncomplete_extended hs ha hclean hj).mp hk

/-- As long as every clean scan that joins the covered range rescans what is owed there, no complete
cursor covers the revision of a rejected record; and a call that does not breaks it. -/
theorem incomplete_until_rescanned {calls : List (Instant × Envelope)} {s : Server}
    (h : Run (Guarded (batchStep sha256 connector) (PageRescans sha256 connector)) {} calls s) :
    s.KeepsIncomplete ∧ ∀ call s', batchStep sha256 connector s call s' →
      (s'.KeepsIncomplete ↔ PageRescans sha256 connector s call) := by
  obtain ⟨hs, hk⟩ : s.Consistent ∧ s.KeepsIncomplete :=
    h.invariant_state (I := fun s => s.Consistent ∧ s.KeepsIncomplete)
      ⟨consistent_empty, keepsIncomplete_empty⟩ fun _ _ _ hs hg =>
        ⟨consistent_step hs.1 hg.2, keepsIncomplete_step hs.1 hs.2 hg.1 hg.2⟩
  exact ⟨hk, fun call s' hc => ⟨pageRescans_of_step hs hc, fun hr =>
    keepsIncomplete_step hs hk hr hc⟩⟩

def inexactOrder : WooRecord := .order
  { sourceId := "101", revision := "2026-09-05T10:30:00Z", createdAt := "2026-09-05T10:00:00Z"
    status := "completed", amount := "10.001", totalRefunded := "0.00", currency := "USD"
    paymentMethod := "stripe", transactionId := "" }

def initialPage : Envelope := scanPage "initial" "2026-09-05T10:00:00Z" "2026-09-05T11:30:00Z"

def rejectedPage : Envelope :=
  { scanPage "rejected" "2026-09-05T10:00:00Z" "2026-09-05T11:40:00Z" with
    records := [inexactOrder] }

def deltaPage : Envelope := scanPage "delta" "2026-09-05T11:00:00Z" "2026-09-05T11:50:00Z"

def rescanPage : Envelope := scanPage "rescan" "2026-09-05T10:00:00Z" "2026-09-05T11:50:00Z"

/-- The server after the initial scan and the one that rejected a record. -/
def rejectedServer : Server := (({} : Server).atNoon initialPage).atNoon rejectedPage

/-- What the server answered to a page with these results. -/
def answer (e : Envelope) (results : List RecordResult) (advanced : Bool) : Accepted :=
  ⟨e, { requestId := e.requestId, results, coverageAdvanced := advanced, serverTime := noon }⟩

def rejectedAnswer : Accepted :=
  answer rejectedPage [⟨"101", .order, .rejected, some "INVALID_SOURCE_FACT"⟩] false

/-- The scan after the rejected record goes back before its revision. -/
theorem incomplete_until_rescanned_whole : ∃ s,
    Run (Guarded (batchStep Sha256.hexdigest shop) (PageRescans Sha256.hexdigest shop)) {}
      [(noon, initialPage), (noon, rejectedPage), (noon, rescanPage)] s ∧ s.KeepsIncomplete := by
  have h₁ : PageRescans Sha256.hexdigest shop {} (noon, initialPage) := by
    rintro start till cursor - - - r ⟨before, f, after, hlog, -⟩
    simp at hlog
  have h₂ : PageRescans Sha256.hexdigest shop (({} : Server).atNoon initialPage)
      (noon, rejectedPage) := by
    rintro start till cursor - ⟨-, hclean⟩
    have hr : (storeRecords Sha256.hexdigest shop noon rejectedPage.records
        (({} : Server).atNoon initialPage).db.facts).rejected = true := by decide +kernel
    rw [hr, Bool.or_true] at hclean
    cases hclean
  have h₃ : PageRescans Sha256.hexdigest shop rejectedServer (noon, rescanPage) := by
    rintro start till cursor ha - - r - hmin hmax
    have hrange : rejectedServer.db.range .wooOrders =
        some (noon - minutes 120, noon - minutes 30) := by decide +kernel
    have hwindow : window noon rescanPage = .ok (noon - minutes 120, noon - minutes 10) := by
      decide +kernel
    obtain ⟨rfl, rfl⟩ := Prod.mk.inj (Except.ok.inj (ha.window.symm.trans hwindow))
    have hc := ha.range.trans hrange
    unfold Cursor.range at hc
    obtain ⟨f, hf, hc⟩ := Option.bind_eq_some_iff.mp hc
    obtain ⟨t, ht, hc⟩ := Option.map_eq_some_iff.mp hc
    obtain ⟨rfl, rfl⟩ := Prod.mk.inj hc
    rw [hf, Option.getD_some, min_self] at hmin
    rw [ht, Option.getD_some, max_eq_right (by decide)] at hmax
    exact ⟨hmin, hmax⟩
  have hw : Run (Guarded (batchStep Sha256.hexdigest shop) (PageRescans Sha256.hexdigest shop)) {}
      [(noon, initialPage), (noon, rejectedPage), (noon, rescanPage)]
      (rejectedServer.atNoon rescanPage) :=
    ((Run.nil.snoc ⟨h₁, rfl⟩).snoc ⟨h₂, rfl⟩).snoc ⟨h₃, rfl⟩
  exact ⟨_, hw, (incomplete_until_rescanned hw).1⟩

/-- A scan that starts after the revision of the rejected record completes the cursor over it. -/
theorem delta_scan_covers_rejected : ∃ s,
    Run (batchStep Sha256.hexdigest shop) {}
      [(noon, initialPage), (noon, rejectedPage), (noon, deltaPage)] s ∧ ¬ s.KeepsIncomplete := by
  refine ⟨rejectedServer.atNoon deltaPage, ((Run.nil.snoc rfl).snoc rfl).snoc rfl, fun hk => ?_⟩
  have hc : ((rejectedServer.atNoon deltaPage).db.cursors.get .wooOrders).map
      (fun c => (c.complete, c.coveredFrom, c.coveredThrough)) =
        some (true, some (noon - minutes 120), some (noon - minutes 10)) := by decide +kernel
  obtain ⟨c, hget, he⟩ := Option.map_eq_some_iff.mp hc
  obtain ⟨hcomplete, hrange⟩ := Prod.mk.inj he
  obtain ⟨hf, ht⟩ := Prod.mk.inj hrange
  have hlog : (rejectedServer.atNoon deltaPage).accepted =
      [answer initialPage [] true] ++ rejectedAnswer :: [answer deltaPage [] true] := by
    decide +kernel
  have hfrom : timestamp deltaPage.coveredFrom = some (noon - minutes 60) := by decide +kernel
  refine hk c hget hcomplete (noon - minutes 90) ⟨_, _, _, hlog, rfl, ?_, ?_, ?_⟩
    ((covers_iff hf ht).mpr (by decide))
  · exact ⟨noon - minutes 120, noon - minutes 20, by decide +kernel, by decide +kernel, by decide⟩
  · refine ⟨rejectedAnswer, by simp, rfl, (inexactOrder, _), List.mem_cons_self, rfl, ?_⟩
    decide +kernel
  · intro g hg
    obtain rfl := List.mem_singleton.mp hg
    rintro ⟨-, ⟨start, till, hs, -, hle, -⟩, -⟩
    obtain rfl := Option.some.inj (hfrom.symm.trans hs)
    revert hle
    decide

end LedgerGuard.Ingestion
