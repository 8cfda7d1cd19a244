import LedgerGuard.Ingestion.CoverageRange

/-! # The pages of a scan

The pages that a server accepted for one scan are numbered from one without a
gap, and no page follows the last. Coverage advances only with the last page of
a scan whose pages were accepted one after another and without a rejected
record.
-/

namespace LedgerGuard.Ingestion

open Transition

def Server.scanPages (s : Server) (scanId : String) : List Accepted :=
  s.accepted.filter (·.envelope.scanId = scanId)

variable {sha256 : String → String} {connector : Installation} {now : Instant} {e : Envelope}
  {s s' : Server} {cursor c : Cursor} {start till : Instant} {scan : String} {a : Accepted}

theorem mem_scanPages : a ∈ s.scanPages scan ↔ a ∈ s.accepted ∧ a.envelope.scanId = scan := by
  simp [Server.scanPages]

/-- The accepted pages and the rows that answer their replays. -/
structure Server.Logged (s : Server) (sha256 : String → String) : Prop where
  row : ∀ a ∈ s.accepted, s.db.pages.get (a.envelope.scanId, a.envelope.page) =
    some ⟨a.envelope.scanId, a.envelope.page, pageHash sha256 a.envelope, a.result⟩
  entry : ∀ k p, s.db.pages.get k = some p → ∃ a ∈ s.accepted,
    (a.envelope.scanId, a.envelope.page) = k ∧ p.contentHash = pageHash sha256 a.envelope ∧
      p.result = a.result

theorem logged_empty : ({} : Server).Logged sha256 := by
  refine ⟨fun _ ha => absurd ha List.not_mem_nil, fun k p hp => ?_⟩
  cases hp

theorem Server.Logged.not_key (hs : s.Logged sha256) (ha : s.db.Admits now e start till cursor)
    (hm : a ∈ s.accepted) : (a.envelope.scanId, a.envelope.page) ≠ (e.scanId, e.page) := by
  rintro hk
  have hr := hs.row a hm
  rw [hk, ha.new] at hr
  cases hr

theorem Server.Logged.withPage (hs : s.Logged sha256)
    (ha : s.db.Admits now e start till cursor) :
    (s.withPage sha256 connector now e start till cursor).Logged sha256 := by
  constructor
  · intro a hm
    rw [withPage_pages]
    rcases mem_withPage.mp hm with hm | rfl
    · rw [if_neg (hs.not_key ha hm)]
      exact hs.row a hm
    · exact if_pos rfl
  · intro k p hp
    rw [withPage_pages] at hp
    split at hp
    · rename_i hk
      obtain rfl := Option.some.inj hp
      exact ⟨_, mem_withPage.mpr (Or.inr rfl), hk.symm, rfl, rfl⟩
    · obtain ⟨a, hm, h⟩ := hs.entry k p hp
      exact ⟨a, mem_withPage.mpr (Or.inl hm), h⟩

/-- The numbers of the pages of every scan, and the place of the cursor among them. -/
structure Server.Numbered (s : Server) : Prop where
  consecutive : ∀ scan, (s.scanPages scan).map (·.envelope.page) =
    List.range' 1 (s.scanPages scan).length
  last : ∀ a ∈ s.accepted, a.envelope.finalPage = true →
    a.envelope.page = (s.scanPages a.envelope.scanId).length
  next : ∀ c scan, s.db.cursors.get .wooOrders = some c → c.scanId = some scan →
    c.nextPage = (s.scanPages scan).length + 1

theorem numbered_empty : ({} : Server).Numbered := by
  refine ⟨fun _ => rfl, fun _ ha => absurd ha List.not_mem_nil, fun c scan hc => ?_⟩
  cases hc

theorem scanPages_withPage : (s.withPage sha256 connector now e start till cursor).scanPages scan =
    if e.scanId = scan then
      s.scanPages scan ++ [⟨e, (acceptPage sha256 connector now e start till cursor s.db).2⟩]
    else s.scanPages scan := by
  unfold Server.scanPages Server.withPage
  rw [List.filter_append]
  by_cases h : e.scanId = scan <;> simp [h]

theorem Server.Numbered.page (hn : s.Numbered) (hl : s.Logged sha256)
    (ha : s.db.Admits now e start till cursor) :
    e.page = (s.scanPages e.scanId).length + 1 ∧ cursor.nextPage = e.page := by
  obtain ⟨hplace, hnext⟩ := forPage_ok ha.place
  refine ⟨?_, hnext⟩
  rcases hplace with ⟨hid, rfl⟩ | ⟨-, hp, -⟩
  · cases hg : s.db.cursors.get .wooOrders with
    | none =>
      simp only [Db.cursor, hg, Option.getD_none] at hid
      cases hid
    | some c =>
      have hc : s.db.cursor now .wooOrders = c := by rw [Db.cursor, hg, Option.getD_some]
      rw [hc] at hid hnext
      rw [← hnext]
      exact hn.next c _ hg hid
  · -- A scan that starts has no page yet, or its first page would be a replay.
    have hnil : s.scanPages e.scanId = [] := by
      cases hpages : s.scanPages e.scanId with
      | nil => rfl
      | cons a as =>
        have hm : a ∈ s.scanPages e.scanId := by rw [hpages]; exact List.mem_cons_self
        obtain ⟨hm, hid⟩ := mem_scanPages.mp hm
        have hc := hn.consecutive e.scanId
        rw [hpages, List.map_cons, List.length_cons, List.range'_succ] at hc
        refine absurd ?_ (hl.not_key ha hm)
        rw [hid, hp, (List.cons.inj hc).1]
    rw [hnil, hp]
    rfl

theorem Server.Numbered.withPage (hs : s.Consistent) (hn : s.Numbered) (hl : s.Logged sha256)
    (ha : s.db.Admits now e start till cursor) :
    (s.withPage sha256 connector now e start till cursor).Numbered := by
  obtain ⟨hpage, hnext⟩ := hn.page hl ha
  refine ⟨fun scan => ?_, fun a hm hfin => ?_, fun c scan hc hid => ?_⟩
  · rw [scanPages_withPage]
    split
    · rename_i he
      subst he
      rw [List.map_append, hn.consecutive, List.length_append, List.length_singleton,
        List.range'_concat, List.map_singleton, hpage, Nat.one_mul, Nat.add_comm]
    · exact hn.consecutive scan
  · rw [scanPages_withPage]
    rcases mem_withPage.mp hm with hm | rfl
    · -- A scan whose last page was accepted is not in progress.
      have hne : e.scanId ≠ a.envelope.scanId := by
        rintro he
        have hf := (hs.tracks ha).2.unfinished a hm he.symm
        rw [hfin] at hf
        cases hf
      rw [if_neg hne]
      exact hn.last a hm hfin
    · rw [if_pos rfl, List.length_append, List.length_singleton]
      exact hpage
  · obtain rfl := Option.some.inj ((acceptPage_orders sha256 connector ha).symm.trans hc)
    obtain ⟨hfin, hscan⟩ := afterPage_scanId hid
    obtain rfl := Option.some.inj ((hs.tracks ha).1.symm.trans hscan)
    rw [scanPages_withPage, if_pos rfl, List.length_append, List.length_singleton, ← hpage,
      ← hnext]
    unfold Cursor.afterPage
    rw [if_neg (by rw [hfin]; decide)]
    rfl

theorem Server.Numbered.get (hn : s.Numbered) (hm : a ∈ s.scanPages scan) :
    1 ≤ a.envelope.page ∧ (s.scanPages scan)[a.envelope.page - 1]? = some a := by
  obtain ⟨i, hi, rfl⟩ := List.mem_iff_getElem.mp hm
  have hp := congrArg (·[i]?) (hn.consecutive scan)
  have hp : (s.scanPages scan)[i].envelope.page = 1 + i := by
    simpa [hi] using hp
  rw [hp, Nat.add_sub_cancel_left]
  exact ⟨Nat.le_add_right 1 i, List.getElem?_eq_getElem hi⟩

theorem scanPages_prefix :
    s.scanPages scan <+: (s.withPage sha256 connector now e start till cursor).scanPages scan := by
  rw [scanPages_withPage]
  split
  · exact List.prefix_append _ _
  · exact List.prefix_rfl

/-- A page of the scan, with the window of the scan. -/
structure Accepted.OfScan (a : Accepted) (scan : String) (start till : Instant) : Prop where
  scanId : a.envelope.scanId = scan
  coveredFrom : timestamp a.envelope.coveredFrom = some start
  coveredThrough : timestamp a.envelope.coveredThrough = some till

/-- Every record of the page was stored or known, and answered so. -/
def Accepted.Clean (a : Accepted) : Prop :=
  List.Forall₂ (fun x r => (∃ d, x.status = .stored d) ∧ x.sourceId = r.sourceId ∧ x.kind = r.kind)
    a.result.results a.envelope.records

/-- A call that changes nothing, or brings a page of the scan. -/
def scanStep (sha256 : String → String) (connector : Installation) (scan : String) (s : Server)
    (call : Instant × Envelope) (s' : Server) : Prop :=
  batchStep sha256 connector s call s' ∧ (s' = s ∨ call.2.scanId = scan)

/-- The calls from a server without pages of the scan on, in which nothing but the given pages of
the scan was accepted. -/
def ScanRun (sha256 : String → String) (connector : Installation) (scan : String)
    (start till : Instant) (calls : List (Instant × Envelope)) (s : Server)
    (pages : List Accepted) : Prop :=
  ∃ before during s₀, calls = before ++ during ∧ Run (batchStep sha256 connector) {} before s₀ ∧
    Run (scanStep sha256 connector scan) s₀ during s ∧ s.accepted = s₀.accepted ++ pages ∧
    (∀ a ∈ s₀.accepted, a.envelope.scanId ≠ scan) ∧ ∀ a ∈ pages, a.OfScan scan start till

variable {calls : List (Instant × Envelope)} {pages : List Accepted}

theorem ScanRun.scanPages (h : ScanRun sha256 connector scan start till calls s pages) :
    s.scanPages scan = pages := by
  obtain ⟨before, during, s₀, -, -, -, hlog, hbefore, hpages⟩ := h
  unfold Server.scanPages
  rw [hlog, List.filter_append, List.filter_eq_nil_iff.mpr, List.filter_eq_self.mpr,
    List.nil_append]
  · intro a ha
    exact decide_eq_true (hpages a ha).scanId
  · intro a ha h
    exact hbefore a ha (of_decide_eq_true h)

theorem ScanRun.idle {call : Instant × Envelope}
    (h : ScanRun sha256 connector scan start till calls s pages)
    (hc : batchStep sha256 connector s call s) :
    ScanRun sha256 connector scan start till (calls ++ [call]) s pages := by
  obtain ⟨before, during, s₀, rfl, hb, hd, h⟩ := h
  exact ⟨before, during ++ [call], s₀, List.append_assoc _ _ _, hb, hd.snoc ⟨hc, Or.inl rfl⟩, h⟩

theorem batchStep_withPage (ha : s.db.Admits now e start till cursor) :
    batchStep sha256 connector s (now, e)
      (s.withPage sha256 connector now e start till cursor) := by
  unfold batchStep Server.next Server.receive
  rw [acceptWooBatch_of_admits ha, ha.new]
  rfl

theorem ofScan_withPage (ha : s.db.Admits now e start till cursor) {result : BatchResult} :
    Accepted.OfScan ⟨e, result⟩ e.scanId start till :=
  ⟨rfl, (window_timestamps ha.window).1, (window_timestamps ha.window).2⟩

theorem ScanRun.snoc (h : ScanRun sha256 connector e.scanId start till calls s pages)
    (ha : s.db.Admits now e start till cursor) :
    ScanRun sha256 connector e.scanId start till (calls ++ [(now, e)])
      (s.withPage sha256 connector now e start till cursor)
      (pages ++ [⟨e, (acceptPage sha256 connector now e start till cursor s.db).2⟩]) := by
  obtain ⟨before, during, s₀, rfl, hb, hd, hlog, hbefore, hpages⟩ := h
  refine ⟨before, during ++ [(now, e)], s₀, List.append_assoc _ _ _, hb,
    hd.snoc ⟨batchStep_withPage ha, Or.inr rfl⟩, ?_, hbefore, fun a hm => ?_⟩
  · unfold Server.withPage
    rw [hlog, List.append_assoc]
  · rcases List.mem_append.mp hm with hm | hm
    · exact hpages a hm
    · obtain rfl := List.mem_singleton.mp hm
      exact ofScan_withPage ha

theorem ScanRun.first (hr : Run (batchStep sha256 connector) {} calls s)
    (hnil : s.scanPages e.scanId = []) (ha : s.db.Admits now e start till cursor) :
    ScanRun sha256 connector e.scanId start till (calls ++ [(now, e)])
      (s.withPage sha256 connector now e start till cursor)
      [⟨e, (acceptPage sha256 connector now e start till cursor s.db).2⟩] := by
  refine ⟨calls, [(now, e)], s, rfl, hr, Run.nil.snoc ⟨batchStep_withPage ha, Or.inr rfl⟩,
    rfl, fun a hm he => ?_, fun a hm => ?_⟩
  · have hs : a ∈ s.scanPages e.scanId := mem_scanPages.mpr ⟨hm, he⟩
    rw [hnil] at hs
    cases hs
  · obtain rfl := List.mem_singleton.mp hm
    exact ofScan_withPage ha

theorem forPage_window (h : cursor.forPage now e start till = .ok c) :
    c.scanFrom = some start ∧ c.scanThrough = some till := by
  unfold Cursor.forPage at h
  split at h
  · cases h
  · dsimp only at h
    generalize (if cursor.scanId = some e.scanId then cursor
      else cursor.start e.scanId start till) = place at h
    split at h
    · cases h
    · rename_i hw
      obtain rfl := Except.ok.inj h
      simpa using (not_or.mp hw).2

theorem storeRecords_results (rs : List WooRecord) (facts : Facts) :
    List.Forall₂ (fun x r => x.sourceId = r.sourceId ∧ x.kind = r.kind)
      (storeRecords sha256 connector now rs facts).results rs := by
  induction rs generalizing facts with
  | nil => exact .nil
  | cons r rs ih =>
    unfold storeRecords
    split
    · exact .cons ⟨rfl, rfl⟩ (ih _)
    · exact .cons ⟨rfl, rfl⟩ (ih _)

def Accepted.Answered (a : Accepted) : Prop :=
  List.Forall₂ (fun x r => x.sourceId = r.sourceId ∧ x.kind = r.kind) a.result.results
    a.envelope.records

theorem Accepted.Answered.clean (h : a.Answered) (hr : a.rejected = false) : a.Clean := by
  refine (List.forall₂_and_left _ _).mpr ⟨fun x hx => ?_, h⟩
  unfold Accepted.rejected at hr
  have hx := List.any_eq_false.mp hr x hx
  cases hs : x.status with
  | stored d => exact ⟨d, rfl⟩
  | rejected =>
    rw [hs] at hx
    exact absurd (decide_eq_true rfl) hx

/-- What any sequence of calls leaves: numbered pages, and a cursor in the middle of a run of its
scan. -/
structure Server.Sequenced (s : Server) (sha256 : String → String) (connector : Installation)
    (calls : List (Instant × Envelope)) : Prop where
  consistent : s.Consistent
  logged : s.Logged sha256
  numbered : s.Numbered
  answered : ∀ a ∈ s.accepted, a.Answered
  current : ∀ c scan, s.db.cursors.get .wooOrders = some c → c.scanId = some scan →
    ∃ start till pages, c.scanFrom = some start ∧ c.scanThrough = some till ∧
      ScanRun sha256 connector scan start till calls s pages

theorem sequenced_empty : ({} : Server).Sequenced sha256 connector [] := by
  refine ⟨consistent_empty, logged_empty, numbered_empty,
    fun _ ha => absurd ha List.not_mem_nil, fun c scan hc => ?_⟩
  cases hc

theorem Server.Sequenced.scanRun (hr : Run (batchStep sha256 connector) {} calls s)
    (hs : s.Sequenced sha256 connector calls) (ha : s.db.Admits now e start till cursor) :
    ScanRun sha256 connector e.scanId start till (calls ++ [(now, e)])
      (s.withPage sha256 connector now e start till cursor)
      (s.scanPages e.scanId ++
        [⟨e, (acceptPage sha256 connector now e start till cursor s.db).2⟩]) := by
  obtain ⟨hfrom, hthrough⟩ := forPage_window ha.place
  rcases (forPage_ok ha.place).1 with ⟨hid, rfl⟩ | ⟨-, hp, -⟩
  · cases hg : s.db.cursors.get .wooOrders with
    | none =>
      simp only [Db.cursor, hg, Option.getD_none] at hid
      cases hid
    | some c =>
      have hc : s.db.cursor now .wooOrders = c := by rw [Db.cursor, hg, Option.getD_some]
      rw [hc] at hid hfrom hthrough ha
      obtain ⟨start', till', pages, hf, ht, hrun⟩ := hs.current c _ hg hid
      obtain rfl := Option.some.inj (hf.symm.trans hfrom)
      obtain rfl := Option.some.inj (ht.symm.trans hthrough)
      rw [hc, hrun.scanPages]
      exact hrun.snoc ha
  · have hlen := (hs.numbered.page hs.logged ha).1
    have hnil : s.scanPages e.scanId = [] := List.length_eq_zero_iff.mp (by omega)
    rw [hnil]
    exact ScanRun.first hr hnil ha

theorem sequenced_step {call : Instant × Envelope}
    (hr : Run (batchStep sha256 connector) {} calls s) (hs : s.Sequenced sha256 connector calls)
    (h : batchStep sha256 connector s call s') :
    s'.Sequenced sha256 connector (calls ++ [call]) := by
  rcases batchStep_cases h with ⟨rfl, -⟩ | ⟨start, till, cursor, ha, rfl⟩
  · refine ⟨hs.consistent, hs.logged, hs.numbered, hs.answered, fun c scan hc hid => ?_⟩
    obtain ⟨start, till, pages, hf, ht, hrun⟩ := hs.current c scan hc hid
    exact ⟨start, till, pages, hf, ht, hrun.idle h⟩
  · refine ⟨hs.consistent.withPage ha, hs.logged.withPage ha,
      hs.numbered.withPage hs.consistent hs.logged ha, fun a hm => ?_, fun c scan hc hid => ?_⟩
    · rcases mem_withPage.mp hm with hm | rfl
      · exact hs.answered a hm
      · exact storeRecords_results call.2.records s.db.facts
    obtain rfl := Option.some.inj ((acceptPage_orders sha256 connector ha).symm.trans hc)
    obtain ⟨hfin, hscan⟩ := afterPage_scanId hid
    obtain rfl := Option.some.inj ((hs.consistent.tracks ha).1.symm.trans hscan)
    have hw : ∀ rejected, cursor.afterPage call.1 call.2 start till rejected =
        cursor.afterRecords call.1 rejected := by
      intro rejected
      unfold Cursor.afterPage
      rw [if_neg (by rw [hfin]; decide)]
    rw [hw]
    obtain ⟨hfrom, hthrough⟩ := forPage_window ha.place
    exact ⟨start, till, _, hfrom, hthrough, hs.scanRun hr ha⟩

theorem sequenced_of_run (h : Run (batchStep sha256 connector) {} calls s) :
    s.Sequenced sha256 connector calls := by
  induction h with
  | nil => exact sequenced_empty
  | snoc hr h ih => exact sequenced_step hr ih h

theorem receive_new {result : BatchResult} (hnew : s.db.pages.get (e.scanId, e.page) = none)
    (hok : s.receive sha256 connector now e = .ok (s', result)) :
    ∃ start till cursor, s.db.Admits now e start till cursor ∧
      s' = s.withPage sha256 connector now e start till cursor ∧
      result = (acceptPage sha256 connector now e start till cursor s.db).2 := by
  unfold Server.receive at hok
  cases hr : acceptWooBatch sha256 connector now e s.db with
  | error refusal =>
    rw [hr] at hok
    cases hok
  | ok r =>
    obtain ⟨db, answer⟩ := r
    rw [hr, hnew] at hok
    obtain ⟨rfl, rfl⟩ := Prod.mk.inj (Except.ok.inj hok)
    rcases acceptWooBatch_ok hr with ⟨prior, hp, -⟩ | ⟨start, till, cursor, ha, he⟩
    · rw [hp] at hnew
      cases hnew
    · obtain ⟨rfl, rfl⟩ := Prod.mk.inj he
      exact ⟨start, till, cursor, ha, rfl, rfl⟩

/-- Coverage advances only with the last page of a scan whose pages from the first on were accepted
one after another, in one window, without a rejected record and without a page of another scan. -/
theorem coverage_advances_after_clean_scan {calls : List (Instant × Envelope)} {s s' : Server}
    {now : Instant} {e : Envelope} {result : BatchResult}
    (hrun : Run (batchStep sha256 connector) {} calls s)
    (hnew : s.db.pages.get (e.scanId, e.page) = none)
    (hok : s.receive sha256 connector now e = .ok (s', result))
    (hadvanced : result.coverageAdvanced = true) :
    ∃ start till pages,
      ScanRun sha256 connector e.scanId start till (calls ++ [(now, e)]) s' pages ∧
      pages.map (·.envelope.page) = List.range' 1 e.page ∧
      ∀ a ∈ pages, a.Clean ∧ (a.envelope.finalPage = true ↔ a.envelope.page = e.page) := by
  have hs := sequenced_of_run hrun
  obtain ⟨start, till, cursor, ha, rfl, rfl⟩ := receive_new hnew hok
  have hs' := sequenced_step hrun hs (batchStep_withPage ha)
  have hscan := hs.scanRun hrun ha
  have hpages := hscan.scanPages
  have hpage := (hs.numbered.page hs.logged ha).1
  refine ⟨start, till, _, hscan, ?_, fun a hm => ?_⟩
  · rw [← hpages, hs'.numbered.consecutive, hpages, List.length_append, List.length_singleton,
      hpage]
  · rw [← hpages] at hm
    obtain ⟨hm, hid⟩ := mem_scanPages.mp hm
    have hadv : (e.finalPage && !(cursor.scanFailed ||
        (storeRecords sha256 connector now e.records s.db.facts).rejected)) = true :=
      Bool.and_elim_left hadvanced
    obtain ⟨hfin, hclean⟩ := Bool.and_eq_true_iff.mp hadv
    refine ⟨(hs'.answered a hm).clean ?_, fun hf => ?_, fun hp => ?_⟩
    · -- A rejected record of the scan would have failed it.
      by_contra hr
      have hfailed := (hs.consistent.failed_withPage sha256 connector ha).mpr
        ⟨a, hm, hid, Bool.eq_true_of_not_eq_false hr⟩
      rw [hfailed] at hclean
      cases hclean
    · have hl := hs'.numbered.last a hm hf
      rw [hid, hpages, List.length_append, List.length_singleton] at hl
      rw [hl, hpage]
    · rcases mem_withPage.mp hm with hm | rfl
      · exact absurd (by rw [hid, hp]) (hs.logged.not_key ha hm)
      · exact hfin

def firstOfTwo : Envelope :=
  { scanPage "split" "2026-09-05T11:00:00Z" "2026-09-05T12:00:00Z" with finalPage := false }

def secondOfTwo : Envelope :=
  { scanPage "split" "2026-09-05T11:00:00Z" "2026-09-05T12:00:00Z" with page := 2 }

/-- A scan of two pages. -/
theorem coverage_advances_after_two_pages : ∃ s' pages start till,
    ScanRun Sha256.hexdigest shop "split" start till [(noon, firstOfTwo), (noon, secondOfTwo)] s'
      pages ∧ pages.map (·.envelope.page) = [1, 2] := by
  have hnew : (({} : Server).atNoon firstOfTwo).db.pages.get
      (secondOfTwo.scanId, secondOfTwo.page) = none := by decide +kernel
  have hr : ((({} : Server).atNoon firstOfTwo).receive Sha256.hexdigest shop noon
      secondOfTwo).toOption.map (fun r => r.2.coverageAdvanced) = some true := by decide +kernel
  obtain ⟨⟨s', result⟩, ho, hadvanced⟩ := Option.map_eq_some_iff.mp hr
  have hok : (({} : Server).atNoon firstOfTwo).receive Sha256.hexdigest shop noon secondOfTwo =
      .ok (s', result) := by
    cases he : (({} : Server).atNoon firstOfTwo).receive Sha256.hexdigest shop noon secondOfTwo with
    | error refusal =>
      rw [he] at ho
      cases ho
    | ok r =>
      rw [he] at ho
      exact congrArg Except.ok (Option.some.inj ho)
  have hrun : Run (batchStep Sha256.hexdigest shop) {} [(noon, firstOfTwo)]
      (({} : Server).atNoon firstOfTwo) := Run.nil.snoc rfl
  obtain ⟨start, till, pages, hscan, hpages, -⟩ :=
    coverage_advances_after_clean_scan hrun hnew hok hadvanced
  exact ⟨s', pages, start, till, hscan, hpages⟩

end LedgerGuard.Ingestion
