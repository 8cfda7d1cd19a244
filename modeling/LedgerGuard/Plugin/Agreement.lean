import LedgerGuard.Ingestion.Rejections
import LedgerGuard.Plugin.Completeness

/-! # The cursor of the plugin and the coverage of the server

The site moves its own cursor when the server answers the last page of a scan
with advanced coverage. Whatever is lost, repeated or delayed in between, the
server then covers the window of the scan and has a row for every record on the
pages of the scan, and keeps both.
-/

namespace LedgerGuard.Ingestion

variable {sha256 : String → String} {connector : Installation} {now : Instant} {e : Envelope}
  {s s' : Server} {cursor : Cursor} {start till : Instant} {f f' f'' : Facts} {a : Accepted}

theorem storeRecord_keepsRows {r : WooRecord} {d : Disposition}
    (h : storeRecord sha256 connector now r f = .ok (f', d)) :
    f.KeepsRows f' ∧ (f'.projections.get (r.kind, r.sourceId)).isSome := by
  unfold storeRecord at h
  split at h
  · cases h
  · split at h
    · cases h
    · split at h
      · cases h
      · exact upsert_keepsRows h

theorem storeRecords_keepsRows (rs : List WooRecord) (f : Facts) :
    f.KeepsRows (storeRecords sha256 connector now rs f).facts := by
  induction rs generalizing f with
  | nil => exact .refl f
  | cons r rs ih =>
    unfold storeRecords
    split
    · rename_i f' d hr
      exact (storeRecord_keepsRows hr).1.trans (ih f')
    · exact ih f

theorem storeRecords_rows {rs : List WooRecord}
    (h : (storeRecords sha256 connector now rs f).rejected = false) :
    ∀ r ∈ rs, ((storeRecords sha256 connector now rs f).facts.projections.get
      (r.kind, r.sourceId)).isSome := by
  induction rs generalizing f with
  | nil => exact fun _ hr => absurd hr List.not_mem_nil
  | cons r rs ih =>
    unfold storeRecords at h ⊢
    cases hr : storeRecord sha256 connector now r f with
    | ok fd =>
      rw [hr] at h
      have hrest : (storeRecords sha256 connector now rs fd.1).rejected = false := by
        simpa [Stored.rejected] using h
      intro x hx
      rcases List.mem_cons.mp hx with rfl | hx
      · exact storeRecords_keepsRows rs fd.1 _ (storeRecord_keepsRows hr).2
      · exact ih hrest x hx
    | error error =>
      simp [hr, Stored.rejected] at h

/-- The covered range of the orders spans a window on the wire. -/
def Db.SpansWindow (db : Db) (coveredFrom coveredThrough : String) : Prop :=
  ∃ start till r, timestamp coveredFrom = some start ∧ timestamp coveredThrough = some till ∧
    db.range .wooOrders = some r ∧ r.1 ≤ start ∧ till ≤ r.2

/-- Pages without a rejection left their rows, and advanced coverage holds its window. -/
structure Server.Promised (s : Server) : Prop where
  paired : ∀ c, s.db.cursors.get .wooOrders = some c → c.Paired
  rows : ∀ a ∈ s.accepted, a.rejected = false → ∀ r ∈ a.envelope.records,
    (s.db.facts.projections.get (r.kind, r.sourceId)).isSome
  advanced : ∀ a ∈ s.accepted, a.result.coverageAdvanced = true → a.envelope.finalPage = true ∧
    s.db.SpansWindow a.envelope.coveredFrom a.envelope.coveredThrough ∧
      ∀ b ∈ s.accepted, b.envelope.scanId = a.envelope.scanId → b.rejected = false

theorem promised_empty : ({} : Server).Promised := by
  refine ⟨fun c hc => ?_, fun _ ha => absurd ha List.not_mem_nil,
    fun _ ha => absurd ha List.not_mem_nil⟩
  cases hc

theorem Server.Promised.cursor_paired (hs : s.Promised)
    (ha : s.db.Admits now e start till cursor) : cursor.Paired := by
  have hp : (s.db.cursor now .wooOrders).Paired := paired_cursor hs.paired
  rcases (forPage_ok ha.place).1 with ⟨-, rfl⟩ | ⟨-, -, rfl⟩ <;> exact hp

theorem Server.Promised.range_cases (hs : s.Promised) (sha256 : String → String)
    (connector : Installation) (ha : s.db.Admits now e start till cursor) :
    (s.EndsClean sha256 connector now e cursor ∧ cursor.contiguous start = true ∧
      (s.withPage sha256 connector now e start till cursor).db.range .wooOrders =
        some (Spans.hull (s.db.range .wooOrders) start till)) ∨
    (¬ (s.EndsClean sha256 connector now e cursor ∧ cursor.contiguous start = true) ∧
      (s.withPage sha256 connector now e start till cursor).db.range .wooOrders =
        s.db.range .wooOrders) := by
  rw [range_withPage ha]
  by_cases h : s.EndsClean sha256 connector now e cursor ∧ cursor.contiguous start = true
  · obtain ⟨hclean, hj⟩ := h
    refine Or.inl ⟨hclean, hj, ?_⟩
    have hpaired := hs.cursor_paired ha
    have hp : (cursor.afterRecords now
        (storeRecords sha256 connector now e.records s.db.facts).rejected).Paired := hpaired
    rw [afterPage_extended hclean.1 hclean.2 hj, ← ha.range]
    exact range_extend now hp
  · refine Or.inr ⟨h, ?_⟩
    have hn : ¬ (e.finalPage = true ∧ (cursor.scanFailed ||
        (storeRecords sha256 connector now e.records s.db.facts).rejected) = false ∧
        cursor.contiguous start = true) :=
      fun hn => h ⟨⟨hn.1, hn.2.1⟩, hn.2.2⟩
    obtain ⟨hfrom, hthrough⟩ := afterPage_kept now till hn
    rw [Cursor.range, hfrom, hthrough, ← ha.range]
    rfl

theorem Server.Promised.spansWindow (hs : s.Promised) (ha : s.db.Admits now e start till cursor)
    {coveredFrom coveredThrough : String} (h : s.db.SpansWindow coveredFrom coveredThrough) :
    (s.withPage sha256 connector now e start till cursor).db.SpansWindow coveredFrom
      coveredThrough := by
  obtain ⟨start', till', r, hf, ht, hr, hle, hge⟩ := h
  rcases hs.range_cases sha256 connector ha with ⟨-, -, hext⟩ | ⟨-, hkept⟩
  · rw [hr] at hext
    exact ⟨start', till', _, hf, ht, hext, (min_le_left _ _).trans hle, hge.trans (le_max_left _ _)⟩
  · exact ⟨start', till', r, hf, ht, hkept.trans hr, hle, hge⟩

theorem acceptPage_advanced {db : Db} (till : Instant) :
    (acceptPage sha256 connector now e start till cursor db).2.coverageAdvanced = true ↔
      (e.finalPage = true ∧ (cursor.scanFailed ||
        (storeRecords sha256 connector now e.records db.facts).rejected) = false) ∧
        cursor.contiguous start = true := by
  change (e.finalPage && !(cursor.scanFailed ||
    (storeRecords sha256 connector now e.records db.facts).rejected) &&
      cursor.contiguous start) = true ↔ _
  simp only [Bool.and_eq_true, Bool.not_eq_true']

theorem Server.Promised.withPage (hs : s.Promised) (hc : s.Consistent)
    (ha : s.db.Admits now e start till cursor) :
    (s.withPage sha256 connector now e start till cursor).Promised := by
  have hkeeps : s.db.facts.KeepsRows
      (s.withPage sha256 connector now e start till cursor).db.facts :=
    storeRecords_keepsRows e.records s.db.facts
  refine ⟨fun c hget => ?_, fun a hm hclean r hr => ?_, fun a hm hadv => ?_⟩
  · obtain rfl := Option.some.inj ((acceptPage_orders sha256 connector ha).symm.trans hget)
    by_cases h : s.EndsClean sha256 connector now e cursor ∧ cursor.contiguous start = true
    · rw [afterPage_extended h.1.1 h.1.2 h.2]
      rfl
    · have hn : ¬ (e.finalPage = true ∧ (cursor.scanFailed ||
          (storeRecords sha256 connector now e.records s.db.facts).rejected) = false ∧
          cursor.contiguous start = true) :=
        fun hn => h ⟨⟨hn.1, hn.2.1⟩, hn.2.2⟩
      obtain ⟨hfrom, hthrough⟩ := afterPage_kept now till hn
      rw [Cursor.Paired, hfrom, hthrough]
      exact hs.cursor_paired ha
  · rcases mem_withPage.mp hm with hm | rfl
    · exact hkeeps _ (hs.rows a hm hclean r hr)
    · exact storeRecords_rows hclean r hr
  · rcases mem_withPage.mp hm with hm | rfl
    · obtain ⟨hfin, hspan, hall⟩ := hs.advanced a hm hadv
      refine ⟨hfin, hs.spansWindow ha hspan, fun b hb hid => ?_⟩
      rcases mem_withPage.mp hb with hb | rfl
      · exact hall b hb hid
      · exact absurd hid (hc.ended ha hm hfin)
    · obtain ⟨hclean, hj⟩ := (acceptPage_advanced till).mp hadv
      obtain ⟨hf, ht⟩ := window_timestamps ha.window
      refine ⟨hclean.1, ?_, fun b hb hid => ?_⟩
      · rcases hs.range_cases sha256 connector ha with ⟨-, -, hext⟩ | ⟨hn, -⟩
        · refine ⟨start, till, _, hf, ht, hext, ?_⟩
          cases s.db.range .wooOrders with
          | none => exact ⟨le_rfl, le_rfl⟩
          | some r => exact ⟨min_le_right _ _, le_max_right _ _⟩
        · exact absurd ⟨hclean, hj⟩ hn
      · rw [Bool.eq_false_iff]
        intro hrej
        have hfail := (hc.failed_withPage sha256 connector ha).mpr ⟨b, hb, hid, hrej⟩
        rw [hclean.2] at hfail
        cases hfail

theorem accepted_withPage (sha256 : String → String) (connector : Installation) (now : Instant)
    (e : Envelope) (start till : Instant) (cursor : Cursor) :
    s.accepted ⊆ (s.withPage sha256 connector now e start till cursor).accepted :=
  fun _ hm => mem_withPage.mpr (Or.inl hm)

theorem receive_advanced {result : BatchResult} (hl : s.Logged sha256)
    (h : s.receive sha256 connector now e = .ok (s', result)) :
    ∃ a ∈ s'.accepted, a.envelope.scanId = e.scanId ∧
      pageHash sha256 a.envelope = pageHash sha256 e ∧
        a.result.coverageAdvanced = result.coverageAdvanced := by
  cases hp : s.db.pages.get (e.scanId, e.page) with
  | none =>
    obtain ⟨start, till, cursor, -, rfl, rfl⟩ := receive_new hp h
    exact ⟨_, mem_withPage.mpr (Or.inr rfl), rfl, rfl, rfl⟩
  | some p =>
    unfold Server.receive at h
    cases hr : acceptWooBatch sha256 connector now e s.db with
    | error refusal =>
      rw [hr] at h
      cases h
    | ok r =>
      rw [hr, hp] at h
      obtain ⟨rfl, rfl⟩ := Prod.mk.inj (Except.ok.inj h)
      rcases acceptWooBatch_ok hr with ⟨prior, hprior, hh, -, hres⟩ | ⟨start, till, cursor, ha, -⟩
      · obtain ⟨a, hm, hk, hhash, hresult⟩ := hl.entry _ prior hprior
        obtain ⟨hid, -⟩ := Prod.mk.inj hk
        rw [hres, hresult]
        exact ⟨a, hm, hid, hhash.symm.trans hh, rfl⟩
      · rw [ha.new] at hp
        cases hp

end LedgerGuard.Ingestion

namespace LedgerGuard.Plugin

open Ingestion Transition

variable {sha256 : String → String} {connector : Installation} {scan scan' : Scan}
  {server server' : Server} {s s' : Site}

/-- The pending page of a copy is a page of its scan, with the window of the scan. -/
def Scan.Framed (scan : Scan) : Prop :=
  ∀ e, scan.pending = some e → e.scanId = scan.scanId ∧ e.coveredFrom = scan.coveredFrom ∧
    e.coveredThrough = scan.coveredThrough

/-- The server accepted a page of the scan with advanced coverage. -/
def Scan.Granted (scan : Scan) (server : Server) : Prop :=
  ∃ a ∈ server.accepted, a.envelope.scanId = scan.scanId ∧ a.result.coverageAdvanced = true ∧
    a.envelope.coveredFrom = scan.coveredFrom ∧ a.envelope.coveredThrough = scan.coveredThrough

/-- The window of the scan is covered, and every record on its pages has a row. -/
structure Scan.ServedBy (scan : Scan) (server : Server) : Prop where
  window : server.db.SpansWindow scan.coveredFrom scan.coveredThrough
  clean : ∀ a ∈ server.scanPages scan.scanId, a.rejected = false
  rows : ∀ a ∈ server.scanPages scan.scanId, ∀ r ∈ a.envelope.records,
    (server.db.facts.projections.get (r.kind, r.sourceId)).isSome

theorem Scan.Granted.mono (h : scan.Granted server) (hsub : server.accepted ⊆ server'.accepted) :
    scan.Granted server' := by
  obtain ⟨a, hm, hrest⟩ := h
  exact ⟨a, hsub hm, hrest⟩

theorem Scan.Granted.covered (h : scan.Granted server) (hp : server.Promised) :
    scan.ServedBy server := by
  obtain ⟨a, hm, hid, hadv, hfrom, hthrough⟩ := h
  obtain ⟨-, hspan, hall⟩ := hp.advanced a hm hadv
  rw [hfrom, hthrough] at hspan
  rw [hid] at hall
  refine ⟨hspan, fun b hb => ?_, fun b hb => ?_⟩
  · obtain ⟨hb, hbid⟩ := mem_scanPages.mp hb
    exact hall b hb hbid
  · obtain ⟨hb, hbid⟩ := mem_scanPages.mp hb
    exact hp.rows b hb (hall b hb hbid)

theorem framed_start {now : ℤ} {isRepair : Bool} {cursor : Option String} {scanId : String}
    {wcGetOrders : ℤ → ℤ → List ℕ}
    (h : startScan now isRepair cursor scanId wcGetOrders = .ok scan) : scan.Framed := by
  unfold startScan at h
  dsimp only at h
  generalize (if isRepair = true then now - 120 - 35 * daySeconds
    else cursor.elim (now - 120 - 35 * daySeconds) fun text => strtotime text - 1800) = start at h
  split at h
  · cases h
  · obtain rfl := Except.ok.inj h
    rintro e ⟨⟩

theorem Scan.Framed.build {facts : ℕ → Except String (List WooRecord)} {now : ℤ}
    {requestId installationId : String} {error : Option String} (h : scan.Framed)
    (hb : scan.build facts now requestId installationId = (scan', error)) : scan'.Framed := by
  unfold Scan.build at hb
  dsimp only at hb
  split at hb
  · obtain ⟨rfl, -⟩ := Prod.mk.inj hb
    exact h
  · obtain ⟨rfl, -⟩ := Prod.mk.inj hb
    rintro e he
    obtain rfl := Option.some.inj he
    exact ⟨rfl, rfl, rfl⟩

theorem Scan.Framed.resign {e : Envelope} (now : ℤ) (requestId : String) (h : scan.Framed)
    (hp : scan.pending = some e) :
    ({ scan with pending := some (Plugin.resign now requestId e) } : Scan).Framed := by
  intro e' he'
  obtain rfl := Option.some.inj he'
  exact h e hp

/-- A scan is finished by an answer with advanced coverage, and its copy then has the window of the
scan. -/
theorem acknowledge_finished {e : Envelope} {result : BatchResult}
    (h : acknowledge scan e result = .finished scan') :
    result.coverageAdvanced = true ∧ scan' = { scan with attempt := 0 } := by
  unfold acknowledge at h
  split at h
  · cases h
  split at h
  · cases h
  dsimp only at h
  split at h
  · split at h
    · rename_i hadv
      cases h
      exact ⟨hadv, rfl⟩
    · cases h
  · cases h

/-- The copies of a site are framed. -/
structure Site.Framed (s : Site) : Prop where
  option : ∀ scan, s.scan = some scan → scan.Framed
  jobs : ∀ job ∈ s.jobs, job.scan.Framed

theorem Site.Framed.persist (h : s.Framed) (i : ℕ) (phase : Phase) (hf : scan.Framed) :
    (s.persist i scan phase).Framed := by
  constructor
  · rintro scan' ⟨⟩
    exact hf
  · intro job hm
    rcases List.mem_or_eq_of_mem_set hm with hm | rfl
    · exact h.jobs job hm
    · exact hf

theorem Site.Framed.abort (h : s.Framed) {i : ℕ} (hf : scan.Framed) :
    (s.abort i scan).Framed := by
  constructor
  · rintro scan' ⟨⟩
    exact hf
  · intro job hm
    exact h.jobs job (List.mem_of_mem_eraseIdx hm)

theorem Site.Framed.send (h : s.Framed) {i : ℕ} {job : Job} {e : Envelope} {now : ℤ}
    {requestId : String} (hf : job.scan.Framed) (hp : job.scan.pending = some e) :
    (s.send i job e now requestId).Framed := by
  unfold Site.send
  split
  · have hk := h.persist i .waiting (hf.resign now requestId hp)
    exact ⟨hk.option, hk.jobs⟩
  · refine ⟨h.option, fun job' hm => ?_⟩
    rcases List.mem_or_eq_of_mem_set hm with hm | rfl
    · exact h.jobs job' hm
    · exact hf

theorem Site.Framed.answer (h : s.Framed) {i : ℕ} {job : Job} {e : Envelope}
    {result : BatchResult} (hf : job.scan.Framed) : (s.answer i job e result).Framed := by
  unfold Site.answer
  rcases acknowledge_cases job.scan e result with ⟨n, error, hk⟩ | ⟨-, hk⟩ | hk
  · rw [hk]
    exact h.abort hf
  · rw [hk]
    refine ⟨?_, fun job' hm => ?_⟩
    · rintro scan ⟨⟩
    · rcases List.mem_or_eq_of_mem_set hm with hm | rfl
      · exact h.jobs job' hm
      · exact hf
  · rw [hk]
    refine h.persist _ _ ?_
    rintro e' ⟨⟩

theorem Site.Framed.does {event : Event} (h : s.Framed) (hd : s.Does connector event s') :
    s'.Framed := by
  have hmem : ∀ {i : ℕ} {job : Job}, s.jobs[i]? = some job → job.scan.Framed :=
    fun hj => h.jobs _ (List.mem_of_getElem? hj)
  cases hd with
  | start hscan =>
    refine ⟨?_, h.jobs⟩
    rintro scan' ⟨⟩
    exact framed_start hscan
  | refuse => exact h
  | discard =>
    refine ⟨?_, h.jobs⟩
    rintro scan' ⟨⟩
  | read hscan =>
    refine ⟨h.option, fun job hm => ?_⟩
    rcases List.mem_append.mp hm with hm | hm
    · exact h.jobs job hm
    · obtain rfl := List.mem_singleton.mp hm
      exact h.option _ hscan
  | build hj hp =>
    unfold Site.build
    split
    · rename_i hb
      exact h.persist _ _ ((hmem hj).build hb)
    · rename_i hb
      exact h.abort ((hmem hj).build hb)
  | send hj hp => exact h.send (hmem hj) hp
  | answer hj => exact h.answer (hmem hj)
  | fail hj => exact h.abort (hmem hj)
  | leave => exact ⟨h.option, fun job hm => h.jobs job (List.mem_of_mem_eraseIdx hm)⟩

/-- What the answers of a site have in common with its server. -/
structure Site.Agreed (s : Site) (sha256 : String → String) : Prop where
  recorded : s.Recorded sha256
  promised : s.server.Promised
  framed : s.Framed
  answered : ∀ er ∈ s.answers, er.1 ∈ s.sent ∧ ∃ a ∈ s.server.accepted,
    a.envelope.scanId = er.1.scanId ∧ pageHash sha256 a.envelope = pageHash sha256 er.1 ∧
      a.result.coverageAdvanced = er.2.coverageAdvanced

/-- Every finished scan was granted, and the cursor is the end of a finished scan. -/
structure Site.Honest (s : Site) : Prop where
  completed : ∀ scan ∈ s.completed, scan.Granted s.server
  cursor : ∀ text, s.cursor = some text → ∃ scan ∈ s.completed, scan.coveredThrough = text

theorem agreed_empty : ({} : Site).Agreed sha256 := by
  refine ⟨⟨consistent_empty, logged_empty, numbered_empty, fun _ ha => absurd ha List.not_mem_nil,
    fun _ ha => absurd ha List.not_mem_nil⟩, promised_empty,
    ⟨?_, fun _ hj => absurd hj List.not_mem_nil⟩, fun _ ha => absurd ha List.not_mem_nil⟩
  rintro scan ⟨⟩

theorem honest_empty : ({} : Site).Honest := by
  refine ⟨fun _ hm => absurd hm List.not_mem_nil, ?_⟩
  rintro text ⟨⟩

theorem Site.Agreed.granted (h : s.Agreed sha256) (hc : s.CollisionFree sha256) {e : Envelope}
    {result : BatchResult} (hf : scan.Framed) (hp : scan.pending = some e)
    (ha : (e, result) ∈ s.answers) (hadv : result.coverageAdvanced = true) :
    scan.Granted s.server := by
  obtain ⟨hid, hfrom, hthrough⟩ := hf e hp
  obtain ⟨hs, a, hm, haid, hhash, hres⟩ := h.answered _ ha
  have htext := hc ⟨a.envelope, h.recorded.known a hm, rfl⟩ ⟨e, hs, rfl⟩ hhash
  have he := Envelope.content_inj htext
  have hfrom' : e.coveredFrom = a.envelope.coveredFrom := by rw [he]
  have hthrough' : e.coveredThrough = a.envelope.coveredThrough := by rw [he]
  exact ⟨a, hm, haid.trans hid, hres.trans hadv, hfrom'.symm.trans hfrom,
    hthrough'.symm.trans hthrough⟩

theorem Site.Agreed.does {event : Event} (h : s.Agreed sha256) (hd : s.Does connector event s') :
    s'.Agreed sha256 := by
  obtain ⟨hserver, hanswers, hsent⟩ := hd.frames
  refine ⟨h.recorded.frames ⟨hserver, hanswers, hsent⟩, ?_, h.framed.does hd, ?_⟩
  · rw [hserver]
    exact h.promised
  · rw [hserver, hanswers]
    exact fun er her => ⟨hsent (h.answered er her).1, (h.answered er her).2⟩

theorem Site.Honest.does {event : Event} (h : s.Honest) (ha : s.Agreed sha256)
    (hc : s.CollisionFree sha256) (hd : s.Does connector event s') : s'.Honest := by
  have hkeep : ∀ {s' : Site}, s'.server = s.server → s'.completed = s.completed →
      s'.cursor = s.cursor ∨ s'.cursor = none → s'.Honest := by
    intro s' hserver hcompleted hcursor
    constructor
    · rw [hserver, hcompleted]
      exact h.completed
    · intro text htext
      rw [hcompleted]
      rcases hcursor with hcursor | hcursor
      · exact h.cursor text (hcursor.symm.trans htext)
      · rw [hcursor] at htext
        cases htext
  cases hd with
  | start => exact hkeep rfl rfl (Or.inl rfl)
  | refuse => exact h
  | discard =>
    rename_i cursor
    cases cursor with
    | false => exact hkeep rfl rfl (Or.inl rfl)
    | true => exact hkeep rfl rfl (Or.inr rfl)
  | read => exact hkeep rfl rfl (Or.inl rfl)
  | build hj hp =>
    unfold Site.build
    split <;> exact hkeep rfl rfl (Or.inl rfl)
  | send hj hp =>
    unfold Site.send
    split <;> exact hkeep rfl rfl (Or.inl rfl)
  | answer hj hp her =>
    unfold Site.answer
    split
    · exact hkeep rfl rfl (Or.inl rfl)
    · rename_i hk
      obtain ⟨hadv, rfl⟩ := acknowledge_finished hk
      have hg := ha.granted hc (ha.framed.jobs _ (List.mem_of_getElem? hj)) hp her hadv
      constructor
      · intro scan hm
        rcases List.mem_append.mp hm with hm | hm
        · exact h.completed scan hm
        · obtain rfl := List.mem_singleton.mp hm
          exact hg
      · intro text htext
        exact ⟨_, List.mem_append_right _ List.mem_cons_self, Option.some.inj htext⟩
    · exact hkeep rfl rfl (Or.inl rfl)
  | fail => exact hkeep rfl rfl (Or.inl rfl)
  | leave => exact hkeep rfl rfl (Or.inl rfl)

theorem Site.Agreed.receive (h : s.Agreed sha256) (connector : Installation) (now : Instant)
    {e : Envelope} (he : e ∈ s.sent) :
    (s.receive sha256 connector now e).Agreed sha256 ∧
      (s.receive sha256 connector now e).sent = s.sent ∧
      (s.Honest → (s.receive sha256 connector now e).Honest) := by
  have hrec := h.recorded.receive connector now he
  rcases receive_cases s now e with hr | ⟨server, result, hok, hr⟩
  · rw [hr]
    exact ⟨h, rfl, id⟩
  rw [hr] at hrec ⊢
  have hsub : server.Promised ∧ s.server.accepted ⊆ server.accepted := by
    rcases server_receive_cases h.recorded.logged hok with ⟨rfl, -⟩ | ⟨start, till, cursor, ha, rfl⟩
    · exact ⟨h.promised, List.Subset.refl _⟩
    · exact ⟨h.promised.withPage h.recorded.consistent ha, accepted_withPage _ _ _ _ _ _ _⟩
  refine ⟨⟨hrec.1, hsub.1, ⟨h.framed.option, h.framed.jobs⟩, fun er her => ?_⟩, rfl,
    fun hh => ⟨fun scan hm => (hh.completed scan hm).mono hsub.2, hh.cursor⟩⟩
  rcases List.mem_append.mp her with her | her
  · obtain ⟨hs, a, hm, hrest⟩ := h.answered er her
    exact ⟨hs, a, hsub.2 hm, hrest⟩
  · obtain rfl := List.mem_singleton.mp her
    exact ⟨he, receive_advanced h.recorded.logged hok⟩

/-- In every run, the window of a scan that the site finished is covered, every record on its pages
has a row without a rejection, and the cursor of the site is the end of such a window. -/
theorem finished_scan_is_covered {events : List Event} {s : Site}
    (h : Run (siteStep sha256 connector) {} events s) (hc : s.CollisionFree sha256) :
    (∀ scan ∈ s.completed, scan.ServedBy s.server) ∧
      ∀ text, s.cursor = some text → ∃ scan ∈ s.completed, scan.coveredThrough = text := by
  have hinv : s.Agreed sha256 ∧ (s.CollisionFree sha256 → s.Honest) := by
    refine h.invariant_state (I := fun s => s.Agreed sha256 ∧ (s.CollisionFree sha256 → s.Honest))
      ⟨agreed_empty, fun _ => honest_empty⟩ fun s event s' hs hstep => ?_
    obtain ⟨hagreed, hhonest⟩ := hs
    rcases siteStep_cases hstep with ⟨now, e, he, rfl⟩ | hd
    · obtain ⟨hagreed', hsent, hhonest'⟩ := hagreed.receive connector now he
      exact ⟨hagreed', fun hc => hhonest' (hhonest (hc.anti (by rw [hsent]; exact List.Subset.refl _)))⟩
    · have hsent := hd.frames.sent
      exact ⟨hagreed.does hd, fun hc => (hhonest (hc.anti hsent)).does hagreed (hc.anti hsent) hd⟩
  have hhonest := hinv.2 hc
  exact ⟨fun scan hm => (hhonest.completed scan hm).covered hinv.1.promised, hhonest.cursor⟩

/-- The second order raises at the first attempt, and the scan goes on to its end without it. -/
theorem finished_scan_is_covered_retried : ∃ events s,
    Run (siteStep Sha256.hexdigest Ingestion.shop) {} events s ∧ s.completed.length = 1 ∧
      (∀ scan ∈ s.completed, scan.ServedBy s.server) ∧
        ∀ text, s.cursor = some text → ∃ scan ∈ s.completed, scan.coveredThrough = text := by
  have hm : (finishedSite (undatedShop 102)).map (fun s => (s.sent.length, s.completed.length)) =
      some (1, 1) := by decide +kernel
  obtain ⟨s, hs, hl⟩ := Option.map_eq_some_iff.mp hm
  obtain ⟨hsent, hcompleted⟩ := Prod.mk.inj hl
  have hrun := Run.of_foldlM (fun _ _ _ h => h) hs
  exact ⟨_, s, hrun, hcompleted, finished_scan_is_covered hrun (collisionFree_of_length hsent)⟩

end LedgerGuard.Plugin
