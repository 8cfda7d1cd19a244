import LedgerGuard.Ingestion.PageHash
import LedgerGuard.Ingestion.ScanPages
import LedgerGuard.Plugin.Page

/-! # A finished scan has sent what it took

Any interleaving of page jobs, lost requests, lost answers and failures of one
site with the calls of its connector. What every copy of the scan took from the
orders is on the pages that the server accepted, on its pending page or in its
carry, as long as no order raises behind records of a page that is being built.
-/

namespace LedgerGuard.Plugin

open Ingestion Transition

/-- Where a job is: it has read the scan, persisted a page, sent it, or handled the answer. -/
inductive Phase
  | opened | ready | waiting | done
  deriving DecidableEq

structure Job where
  scan : Scan
  phase : Phase
  deriving DecidableEq

/-- The options and jobs of a site, the requests it sent, and the server with its answers. -/
structure Site where
  scan : Option Scan := none
  cursor : Option String := none
  jobs : List Job := []
  sent : List Envelope := []
  server : Server := {}
  answers : List (Envelope × BatchResult) := []
  /-- The copies that reached the end of their scan. -/
  completed : List Scan := []

inductive Event
  | start (now : ℤ) (isRepair : Bool) (scanId : String) (wcGetOrders : ℤ → ℤ → List ℕ)
  /-- `retry` and `disconnect` delete the scan, the latter also the cursor. -/
  | discard (cursor : Bool)
  | read
  | build (job : ℕ) (now : ℤ) (requestId : String) (shop : ℕ → Except String (Option WcOrder))
  | send (job : ℕ) (now : ℤ) (requestId : String)
  | receive (now : Instant) (e : Envelope)
  | answer (job : ℕ) (result : BatchResult)
  /-- Anything else raises in a job. -/
  | fail (job : ℕ)
  /-- A job returns, or is killed. -/
  | leave (job : ℕ)

/-- What the extraction gives for an id when the shop answers like this. -/
def extraction (shop : ℕ → Except String (Option WcOrder)) (id : ℕ) :
    Except String (List WooRecord) := shop id >>= order

namespace Site

variable (sha256 : String → String) (connector : Installation)

def abort (s : Site) (i : ℕ) (scan : Scan) : Site :=
  { s with scan := some scan.failed, jobs := s.jobs.eraseIdx i }

def persist (s : Site) (i : ℕ) (scan : Scan) (phase : Phase) : Site :=
  { s with scan := some scan, jobs := s.jobs.set i ⟨scan, phase⟩ }

def build (s : Site) (i : ℕ) (job : Job) (now : ℤ) (requestId : String)
    (shop : ℕ → Except String (Option WcOrder)) : Site :=
  match job.scan.build (extraction shop) now requestId connector.id with
  | (scan, none) => s.persist i scan .ready
  | (scan, some _) => s.abort i scan

def send (s : Site) (i : ℕ) (job : Job) (e : Envelope) (now : ℤ) (requestId : String) : Site :=
  if expired now e then
    let e := resign now requestId e
    { s.persist i { job.scan with pending := some e } .waiting with sent := s.sent ++ [e] }
  else { s with jobs := s.jobs.set i ⟨job.scan, .waiting⟩, sent := s.sent ++ [e] }

def receive (s : Site) (now : Instant) (e : Envelope) : Site :=
  match s.server.receive sha256 connector now e with
  | .ok (server, result) => { s with server, answers := s.answers ++ [(e, result)] }
  | .error _ => s

def answer (s : Site) (i : ℕ) (job : Job) (e : Envelope) (result : BatchResult) : Site :=
  match acknowledge job.scan e result with
  | .refused scan _ => s.abort i scan
  | .finished scan =>
    { s with
      scan := none, cursor := some scan.coveredThrough, jobs := s.jobs.set i ⟨scan, .done⟩
      completed := s.completed ++ [scan] }
  | .next scan => s.persist i scan .done

/-- One event, where it is possible. The lock of the scan does not exclude another job: a copy is
read before the lock is taken, and an old lock is removed. -/
def next (s : Site) : Event → Option Site
  | .start now isRepair scanId wcGetOrders =>
    match startScan now isRepair s.cursor scanId wcGetOrders with
    | .ok scan => some { s with scan := some scan }
    | .error _ => some s
  | .discard cursor => some { s with scan := none, cursor := if cursor then none else s.cursor }
  | .read => s.scan.map fun scan => { s with jobs := s.jobs ++ [⟨scan, .opened⟩] }
  | .build i now requestId shop => do
    let job ← s.jobs[i]?
    if job.phase = .opened ∧ job.scan.pending = none then
      some (s.build connector i job now requestId shop)
    else none
  | .send i now requestId => do
    let job ← s.jobs[i]?
    let e ← job.scan.pending
    if job.phase = .opened ∨ job.phase = .ready then some (s.send i job e now requestId) else none
  | .receive now e => if e ∈ s.sent then some (s.receive sha256 connector now e) else none
  | .answer i result => do
    let job ← s.jobs[i]?
    let e ← job.scan.pending
    if job.phase = .waiting ∧ (e, result) ∈ s.answers then some (s.answer i job e result)
    else none
  | .fail i => s.jobs[i]?.map fun job => s.abort i job.scan
  | .leave i => some { s with jobs := s.jobs.eraseIdx i }

end Site

def siteStep (sha256 : String → String) (connector : Installation) (s : Site) (event : Event)
    (s' : Site) : Prop :=
  s.next sha256 connector event = some s'

/-- An order that raises while a job builds a page comes before any record of the page. -/
def RaisesFirst (s : Site) : Event → Prop
  | .build i _ _ shop => ∀ job, s.jobs[i]? = some job → job.scan.RaisesFirst (extraction shop)
  | _ => True

/-- Everything the copy took is on the accepted pages before its own, on its pending page or in its
carry. -/
structure Scan.Faithful (scan : Scan) (server : Server) : Prop where
  offset : scan.consumed.length = scan.offset ∧ scan.offset ≤ scan.ids.length
  page : 1 ≤ scan.page ∧ scan.page ≤ (server.scanPages scan.scanId).length + 1
  records : ((server.scanPages scan.scanId).take (scan.page - 1)).flatMap (·.envelope.records) ++
    (scan.pending.elim [] (·.records) ++ scan.carry) = scan.consumed.flatten
  pending : ∀ e, scan.pending = some e → e.scanId = scan.scanId ∧ e.page = scan.page ∧
    (e.finalPage = true → scan.offset = scan.ids.length ∧ scan.carry = [])

/-- Every id of the scan was consumed, and the accepted pages of the scan hold what it gave. -/
structure Scan.Sent (scan : Scan) (server : Server) : Prop where
  consumed : scan.consumed.length = scan.ids.length
  records : (server.scanPages scan.scanId).flatMap (·.envelope.records) = scan.consumed.flatten
  ended : ∃ a ∈ server.scanPages scan.scanId, a.envelope.finalPage = true

variable {sha256 : String → String} {connector : Installation} {scan scan' : Scan}
  {server server' : Server} {s s' : Site}

theorem Scan.Faithful.mono (h : scan.Faithful server)
    (hp : server.scanPages scan.scanId <+: server'.scanPages scan.scanId) :
    scan.Faithful server' := by
  obtain ⟨more, hmore⟩ := hp
  refine ⟨h.offset, ⟨h.page.1, ?_⟩, ?_, h.pending⟩
  · rw [← hmore, List.length_append]
    have hle := h.page.2
    omega
  · have hle := h.page.2
    rw [← hmore, List.take_append_of_le_length (by omega)]
    exact h.records

theorem Scan.Sent.mono (h : scan.Sent server) (hn : server.Numbered) (hn' : server'.Numbered)
    (hp : server.scanPages scan.scanId <+: server'.scanPages scan.scanId) :
    scan.Sent server' := by
  obtain ⟨a, ha, hf⟩ := h.ended
  have ha' := hp.subset ha
  obtain ⟨hm, hid⟩ := mem_scanPages.mp ha
  have hl := hn.last a hm hf
  have hl' := hn'.last a (mem_scanPages.mp ha').1 hf
  rw [hid] at hl hl'
  have he := hp.eq_of_length (by omega)
  exact ⟨h.consumed, by rw [← he]; exact h.records, a, ha', hf⟩

theorem Scan.Faithful.attempt (h : scan.Faithful server) (n : ℕ) :
    ({ scan with attempt := n } : Scan).Faithful server :=
  ⟨h.offset, h.page, h.records, h.pending⟩

theorem faithful_start {now : ℤ} {isRepair : Bool} {cursor : Option String} {scanId : String}
    {wcGetOrders : ℤ → ℤ → List ℕ}
    (h : startScan now isRepair cursor scanId wcGetOrders = .ok scan) : scan.Faithful server := by
  unfold startScan at h
  dsimp only at h
  generalize (if isRepair = true then now - 120 - 35 * daySeconds
    else cursor.elim (now - 120 - 35 * daySeconds) fun text => strtotime text - 1800) = start at h
  split at h
  · cases h
  · obtain rfl := Except.ok.inj h
    refine ⟨⟨rfl, Nat.zero_le _⟩, ⟨le_rfl, Nat.le_add_left 1 _⟩, rfl, ?_⟩
    rintro e ⟨⟩

theorem Scan.Faithful.build {facts : ℕ → Except String (List WooRecord)} {now : ℤ}
    {requestId installationId : String} (h : scan.Faithful server) (hp : scan.pending = none)
    (hb : scan.build facts now requestId installationId = (scan', none)) :
    scan'.Faithful server := by
  obtain ⟨taken, e, he, heq, hr, hle, hid, hpage, hfin⟩ := build_ok hb h.offset
  have hrec := h.records
  rw [hp, Option.elim_none, List.nil_append] at hrec
  rw [heq]
  refine ⟨⟨?_, hle⟩, h.page, ?_, ?_⟩
  · rw [List.length_append, h.offset.1]
  · rw [List.flatten_append, ← hrec, List.append_assoc, ← hr]
    rfl
  · rintro e' he'
    obtain rfl := Option.some.inj he'
    exact ⟨hid, hpage, hfin⟩

theorem Scan.Faithful.build_error {facts : ℕ → Except String (List WooRecord)} {now : ℤ}
    {requestId installationId message : String} (h : scan.Faithful server)
    (hp : scan.pending = none) (hq : scan.RaisesFirst facts)
    (hb : scan.build facts now requestId installationId = (scan', some message)) :
    scan'.Faithful server := by
  obtain ⟨taken, heq, hle, hnone⟩ := Plugin.build_error hb
  obtain ⟨hc, ht⟩ := List.append_eq_nil_iff.mp (hnone hq)
  have hrec := h.records
  rw [hp, hc] at hrec
  rw [heq]
  refine ⟨⟨?_, hle h.offset.2⟩, h.page, ?_, ?_⟩
  · rw [List.length_append, h.offset.1]
  · simpa [ht, hp] using hrec
  · rintro e he
    rw [hp] at he
    cases he

theorem Scan.Faithful.resign {e : Envelope} (now : ℤ) (requestId : String)
    (h : scan.Faithful server) (hp : scan.pending = some e) :
    ({ scan with pending := some (Plugin.resign now requestId e) } : Scan).Faithful server := by
  have hrec := h.records
  rw [hp] at hrec
  refine ⟨h.offset, h.page, hrec, ?_⟩
  rintro e' he'
  obtain rfl := Option.some.inj he'
  exact h.pending e hp

/-- The server got its pages from the site, and an answer is about an accepted page of one hash with
the request. -/
structure Site.Recorded (s : Site) (sha256 : String → String) : Prop where
  consistent : s.server.Consistent
  logged : s.server.Logged sha256
  numbered : s.server.Numbered
  known : ∀ a ∈ s.server.accepted, a.envelope ∈ s.sent
  answered : ∀ er ∈ s.answers, er.1 ∈ s.sent ∧ ∃ a ∈ s.server.accepted,
    a.envelope.scanId = er.1.scanId ∧ a.envelope.page = er.1.page ∧
      pageHash sha256 a.envelope = pageHash sha256 er.1

/-- The hash function does not collide on the pages that the site sent. -/
def Site.CollisionFree (s : Site) (sha256 : String → String) : Prop :=
  Set.InjOn sha256 {text | ∃ e ∈ s.sent, text = canonical e.content}

theorem Site.Recorded.accepted_page (h : s.Recorded sha256) (hc : s.CollisionFree sha256)
    {e : Envelope} {result : BatchResult} (ha : (e, result) ∈ s.answers) :
    ∃ a ∈ s.server.scanPages e.scanId, a.envelope.records = e.records ∧
      a.envelope.finalPage = e.finalPage ∧ a.envelope.page = e.page ∧
      (s.server.scanPages e.scanId)[e.page - 1]? = some a := by
  obtain ⟨hs, a, hm, hid, hpage, hhash⟩ := h.answered _ ha
  have htext := hc ⟨a.envelope, h.known a hm, rfl⟩ ⟨e, hs, rfl⟩ hhash
  have he := Envelope.content_inj htext
  have hsp := mem_scanPages.mpr ⟨hm, hid⟩
  refine ⟨a, hsp, ?_, ?_, hpage, ?_⟩
  · rw [he]
  · rw [he]
  · dsimp only at hpage
    rw [← hpage]
    exact (h.numbered.get hsp).2

theorem Scan.Faithful.take_page (h : scan.Faithful server) {e : Envelope} {a : Accepted}
    (hp : scan.pending = some e) (hget : (server.scanPages scan.scanId)[scan.page - 1]? = some a)
    (hr : a.envelope.records = e.records) :
    ((server.scanPages scan.scanId).take scan.page).flatMap (·.envelope.records) ++ scan.carry =
      scan.consumed.flatten := by
  have hpage := h.page.1
  have hsucc : scan.page = scan.page - 1 + 1 := by omega
  have hrec := h.records
  rw [hp] at hrec
  rw [hsucc, List.take_add_one, hget, List.flatMap_append, ← hrec, List.append_assoc]
  simp [hr]

theorem Scan.Faithful.next (h : scan.Faithful s.server) (hs : s.Recorded sha256)
    (hc : s.CollisionFree sha256) {e : Envelope} {result : BatchResult}
    (hp : scan.pending = some e) (ha : (e, result) ∈ s.answers) :
    ({ scan with attempt := 0, pending := none, page := scan.page + 1 } : Scan).Faithful
      s.server := by
  obtain ⟨hid, hpage, -⟩ := h.pending e hp
  obtain ⟨a, hm, hr, -, -, hget⟩ := hs.accepted_page hc ha
  rw [hid, hpage] at hget
  have hlt := (List.getElem?_eq_some_iff.mp hget).1
  have hone := h.page.1
  refine ⟨h.offset, ⟨Nat.le_add_left 1 _, ?_⟩, h.take_page hp hget hr, ?_⟩
  · dsimp only
    omega
  · rintro e' ⟨⟩

theorem Scan.Faithful.finished (h : scan.Faithful s.server) (hs : s.Recorded sha256)
    (hc : s.CollisionFree sha256) {e : Envelope} {result : BatchResult}
    (hp : scan.pending = some e) (ha : (e, result) ∈ s.answers) (hf : e.finalPage = true) :
    ({ scan with attempt := 0 } : Scan).Sent s.server := by
  obtain ⟨hid, hpage, hend⟩ := h.pending e hp
  obtain ⟨hoffset, hcarry⟩ := hend hf
  obtain ⟨a, hm, hr, hfin, hap, hget⟩ := hs.accepted_page hc ha
  rw [hid] at hm
  rw [hid, hpage] at hget
  have htake := h.take_page hp hget hr
  have hl := hs.numbered.last a (mem_scanPages.mp hm).1 (hfin.trans hf)
  rw [hap, hpage, (mem_scanPages.mp hm).2] at hl
  rw [hl, List.take_length, hcarry, List.append_nil] at htake
  exact ⟨h.offset.1.trans hoffset, htake, a, hm, hfin.trans hf⟩

/-- Every copy of the scan accounts for what it took, and a finished one has sent it. -/
structure Site.Accounted (s : Site) : Prop where
  option : ∀ scan, s.scan = some scan → scan.Faithful s.server
  jobs : ∀ job ∈ s.jobs, job.scan.Faithful s.server
  completed : ∀ scan ∈ s.completed, scan.Sent s.server

theorem Site.Accounted.persist (h : s.Accounted) (i : ℕ) (phase : Phase)
    (hf : scan.Faithful s.server) : (s.persist i scan phase).Accounted := by
  refine ⟨?_, fun job hm => ?_, h.completed⟩
  · rintro scan' ⟨⟩
    exact hf
  · rcases List.mem_or_eq_of_mem_set hm with hm | rfl
    · exact h.jobs job hm
    · exact hf

theorem Site.Accounted.abort (h : s.Accounted) {i : ℕ} (hf : scan.Faithful s.server) :
    (s.abort i scan).Accounted := by
  refine ⟨?_, fun job hm => h.jobs job (List.mem_of_mem_eraseIdx hm), h.completed⟩
  rintro scan' ⟨⟩
  exact hf.attempt _

theorem Site.Accounted.build (h : s.Accounted) {i : ℕ} {job : Job} {now : ℤ} {requestId : String}
    {shop : ℕ → Except String (Option WcOrder)} (hm : job ∈ s.jobs)
    (hp : job.scan.pending = none) (hq : job.scan.RaisesFirst (extraction shop)) :
    (s.build connector i job now requestId shop).Accounted := by
  unfold Site.build
  split
  · rename_i hb
    exact h.persist _ _ ((h.jobs job hm).build hp hb)
  · rename_i hb
    exact h.abort ((h.jobs job hm).build_error hp hq hb)

theorem Site.Accounted.send (h : s.Accounted) {i : ℕ} {job : Job} {e : Envelope} {now : ℤ}
    {requestId : String} (hm : job ∈ s.jobs) (hp : job.scan.pending = some e) :
    (s.send i job e now requestId).Accounted := by
  unfold Site.send
  split
  · have hk := h.persist i .waiting ((h.jobs job hm).resign now requestId hp)
    exact ⟨hk.option, hk.jobs, hk.completed⟩
  · refine ⟨h.option, fun job' hm' => ?_, h.completed⟩
    rcases List.mem_or_eq_of_mem_set hm' with hm' | rfl
    · exact h.jobs job' hm'
    · exact h.jobs job hm

theorem Site.Accounted.answer (h : s.Accounted) (hs : s.Recorded sha256)
    (hc : s.CollisionFree sha256) {i : ℕ} {job : Job} {e : Envelope} {result : BatchResult}
    (hm : job ∈ s.jobs) (hp : job.scan.pending = some e) (ha : (e, result) ∈ s.answers) :
    (s.answer i job e result).Accounted := by
  have hf := h.jobs job hm
  unfold Site.answer
  rcases acknowledge_cases job.scan e result with ⟨n, error, hk⟩ | ⟨hfin, hk⟩ | hk
  · rw [hk]
    exact h.abort (hf.attempt n)
  · rw [hk]
    refine ⟨?_, fun job' hm' => ?_, fun scan hscan => ?_⟩
    · rintro scan ⟨⟩
    · rcases List.mem_or_eq_of_mem_set hm' with hm' | rfl
      · exact h.jobs job' hm'
      · exact hf.attempt 0
    · rcases List.mem_append.mp hscan with hscan | hscan
      · exact h.completed scan hscan
      · obtain rfl := List.mem_singleton.mp hscan
        exact hf.finished hs hc hp ha hfin
  · rw [hk]
    exact h.persist _ _ (hf.next hs hc hp ha)

theorem receive_cases (s : Site) (now : Instant) (e : Envelope) :
    s.receive sha256 connector now e = s ∨ ∃ server result,
      s.server.receive sha256 connector now e = .ok (server, result) ∧
      s.receive sha256 connector now e =
        { s with server, answers := s.answers ++ [(e, result)] } := by
  unfold Site.receive
  cases s.server.receive sha256 connector now e with
  | error refusal => exact Or.inl rfl
  | ok r => exact Or.inr ⟨r.1, r.2, rfl, rfl⟩

theorem server_receive_cases {now : Instant} {e : Envelope} {result : BatchResult}
    (hl : server.Logged sha256)
    (h : server.receive sha256 connector now e = .ok (server', result)) :
    (server' = server ∧ ∃ a ∈ server.accepted, a.envelope.scanId = e.scanId ∧
      a.envelope.page = e.page ∧ pageHash sha256 a.envelope = pageHash sha256 e) ∨
    ∃ start till cursor, server.db.Admits now e start till cursor ∧
      server' = server.withPage sha256 connector now e start till cursor := by
  cases hp : server.db.pages.get (e.scanId, e.page) with
  | none =>
    obtain ⟨start, till, cursor, ha, hs, -⟩ := receive_new hp h
    exact Or.inr ⟨start, till, cursor, ha, hs⟩
  | some p =>
    refine Or.inl ?_
    unfold Server.receive at h
    cases hr : acceptWooBatch sha256 connector now e server.db with
    | error refusal =>
      rw [hr] at h
      cases h
    | ok r =>
      rw [hr, hp] at h
      obtain ⟨rfl, -⟩ := Prod.mk.inj (Except.ok.inj h)
      rcases acceptWooBatch_ok hr with ⟨prior, hprior, hh, hdb, -⟩ | ⟨start, till, cursor, ha, -⟩
      · obtain ⟨a, hm, hk, hhash, -⟩ := hl.entry _ prior hprior
        obtain ⟨hid, hpage⟩ := Prod.mk.inj hk
        rw [hdb]
        exact ⟨rfl, a, hm, hid, hpage, hhash.symm.trans hh⟩
      · rw [ha.new] at hp
        cases hp

/-- Jobs leave the server and its answers alone, and only add requests. -/
structure Site.Frames (s s' : Site) : Prop where
  server : s'.server = s.server
  answers : s'.answers = s.answers
  sent : s.sent ⊆ s'.sent

theorem Site.Frames.refl (s : Site) : s.Frames s := ⟨rfl, rfl, List.Subset.refl _⟩

theorem frames_build (s : Site) (i : ℕ) (job : Job) (now : ℤ) (requestId : String)
    (shop : ℕ → Except String (Option WcOrder)) :
    s.Frames (s.build connector i job now requestId shop) := by
  unfold Site.build
  split
  · exact ⟨rfl, rfl, List.Subset.refl _⟩
  · exact ⟨rfl, rfl, List.Subset.refl _⟩

theorem frames_send (s : Site) (i : ℕ) (job : Job) (e : Envelope) (now : ℤ) (requestId : String) :
    s.Frames (s.send i job e now requestId) := by
  unfold Site.send
  split
  · exact ⟨rfl, rfl, List.subset_append_left _ _⟩
  · exact ⟨rfl, rfl, List.subset_append_left _ _⟩

theorem frames_answer (s : Site) (i : ℕ) (job : Job) (e : Envelope) (result : BatchResult) :
    s.Frames (s.answer i job e result) := by
  unfold Site.answer
  split
  · exact ⟨rfl, rfl, List.Subset.refl _⟩
  · exact ⟨rfl, rfl, List.Subset.refl _⟩
  · exact ⟨rfl, rfl, List.Subset.refl _⟩

/-- What an event of a job did, with the job and its page. -/
inductive Site.Does (connector : Installation) (s : Site) : Event → Site → Prop
  | start {now isRepair scanId wcGetOrders} {scan : Scan}
      (h : startScan now isRepair s.cursor scanId wcGetOrders = .ok scan) :
      Does connector s (.start now isRepair scanId wcGetOrders) { s with scan := some scan }
  | refuse {now isRepair scanId wcGetOrders} :
      Does connector s (.start now isRepair scanId wcGetOrders) s
  | discard {cursor} : Does connector s (.discard cursor)
      { s with scan := none, cursor := if cursor then none else s.cursor }
  | read {scan : Scan} (h : s.scan = some scan) :
      Does connector s .read { s with jobs := s.jobs ++ [⟨scan, .opened⟩] }
  | build {i now requestId shop job} (h : s.jobs[i]? = some job) (hp : job.scan.pending = none) :
      Does connector s (.build i now requestId shop) (s.build connector i job now requestId shop)
  | send {i now requestId job e} (h : s.jobs[i]? = some job) (hp : job.scan.pending = some e) :
      Does connector s (.send i now requestId) (s.send i job e now requestId)
  | answer {i result job e} (h : s.jobs[i]? = some job) (hp : job.scan.pending = some e)
      (ha : (e, result) ∈ s.answers) :
      Does connector s (.answer i result) (s.answer i job e result)
  | fail {i job} (h : s.jobs[i]? = some job) : Does connector s (.fail i) (s.abort i job.scan)
  | leave {i} : Does connector s (.leave i) { s with jobs := s.jobs.eraseIdx i }

theorem siteStep_cases {event : Event} (h : siteStep sha256 connector s event s') :
    (∃ now e, e ∈ s.sent ∧ s' = s.receive sha256 connector now e) ∨
      s.Does connector event s' := by
  unfold siteStep at h
  cases event with
  | start now isRepair scanId wcGetOrders =>
    refine Or.inr ?_
    simp only [Site.next] at h
    split at h
    · rename_i hs
      obtain rfl := Option.some.inj h
      exact .start hs
    · obtain rfl := Option.some.inj h
      exact .refuse
  | discard cursor =>
    obtain rfl := Option.some.inj h
    exact Or.inr .discard
  | read =>
    obtain ⟨scan, hs, rfl⟩ := Option.map_eq_some_iff.mp h
    exact Or.inr (.read hs)
  | build i now requestId shop =>
    obtain ⟨job, hj, h⟩ := Option.bind_eq_some_iff.mp h
    split at h
    · rename_i hc
      obtain rfl := Option.some.inj h
      exact Or.inr (.build hj hc.2)
    · cases h
  | send i now requestId =>
    obtain ⟨job, hj, h⟩ := Option.bind_eq_some_iff.mp h
    obtain ⟨e, he, h⟩ := Option.bind_eq_some_iff.mp h
    split at h
    · obtain rfl := Option.some.inj h
      exact Or.inr (.send hj he)
    · cases h
  | receive now e =>
    simp only [Site.next] at h
    split at h
    · rename_i hm
      obtain rfl := Option.some.inj h
      exact Or.inl ⟨now, e, hm, rfl⟩
    · cases h
  | answer i result =>
    obtain ⟨job, hj, h⟩ := Option.bind_eq_some_iff.mp h
    obtain ⟨e, he, h⟩ := Option.bind_eq_some_iff.mp h
    split at h
    · rename_i hc
      obtain rfl := Option.some.inj h
      exact Or.inr (.answer hj he hc.2)
    · cases h
  | fail i =>
    obtain ⟨job, hj, rfl⟩ := Option.map_eq_some_iff.mp h
    exact Or.inr (.fail hj)
  | leave i =>
    obtain rfl := Option.some.inj h
    exact Or.inr .leave

theorem Site.Does.frames {event : Event} (h : s.Does connector event s') : s.Frames s' := by
  cases h with
  | build => exact frames_build _ _ _ _ _ _
  | send => exact frames_send _ _ _ _ _ _
  | answer => exact frames_answer _ _ _ _ _
  | _ => exact ⟨rfl, rfl, List.Subset.refl _⟩

theorem Site.Accounted.does {event : Event} (h : s.Accounted) (hs : s.Recorded sha256)
    (hc : s.CollisionFree sha256) (hq : RaisesFirst s event) (hd : s.Does connector event s') :
    s'.Accounted := by
  have hmem : ∀ {i : ℕ} {job : Job}, s.jobs[i]? = some job → job ∈ s.jobs :=
    fun hj => List.mem_of_getElem? hj
  cases hd with
  | start hscan =>
    refine ⟨?_, h.jobs, h.completed⟩
    rintro scan' ⟨⟩
    exact faithful_start hscan
  | refuse => exact h
  | discard =>
    refine ⟨?_, h.jobs, h.completed⟩
    rintro scan' ⟨⟩
  | read hscan =>
    refine ⟨h.option, fun job hm => ?_, h.completed⟩
    rcases List.mem_append.mp hm with hm | hm
    · exact h.jobs job hm
    · obtain rfl := List.mem_singleton.mp hm
      exact h.option _ hscan
  | build hj hp => exact h.build (hmem hj) hp (hq _ hj)
  | send hj hp => exact h.send (hmem hj) hp
  | answer hj hp ha => exact h.answer hs hc (hmem hj) hp ha
  | fail hj => exact h.abort (h.jobs _ (hmem hj))
  | leave => exact ⟨h.option, fun job hm => h.jobs job (List.mem_of_mem_eraseIdx hm), h.completed⟩

theorem Site.Recorded.frames (h : s.Recorded sha256) (hf : s.Frames s') : s'.Recorded sha256 := by
  obtain ⟨hserver, hanswers, hsent⟩ := hf
  refine ⟨by rw [hserver]; exact h.consistent, by rw [hserver]; exact h.logged,
    by rw [hserver]; exact h.numbered, ?_, ?_⟩
  · rw [hserver]
    exact fun a ha => hsent (h.known a ha)
  · rw [hserver, hanswers]
    exact fun er her => ⟨hsent (h.answered er her).1, (h.answered er her).2⟩

theorem Site.CollisionFree.anti (h : s'.CollisionFree sha256) (hsub : s.sent ⊆ s'.sent) :
    s.CollisionFree sha256 := by
  apply Set.InjOn.mono _ h
  rintro text ⟨e, he, rfl⟩
  exact ⟨e, hsub he, rfl⟩

theorem Site.Recorded.receive (h : s.Recorded sha256) (connector : Installation)
    (now : Instant) {e : Envelope} (he : e ∈ s.sent) :
    (s.receive sha256 connector now e).Recorded sha256 ∧
      (s.receive sha256 connector now e).sent = s.sent ∧
      (s.Accounted → (s.receive sha256 connector now e).Accounted) := by
  rcases receive_cases s now e with hr | ⟨server, result, hok, hr⟩
  · rw [hr]
    exact ⟨h, rfl, id⟩
  rw [hr]
  rcases server_receive_cases h.logged hok with ⟨rfl, hknown⟩ | ⟨start, till, cursor, ha, rfl⟩
  · refine ⟨⟨h.consistent, h.logged, h.numbered, h.known, fun er her => ?_⟩, rfl,
      fun hacc => ⟨hacc.option, hacc.jobs, hacc.completed⟩⟩
    rcases List.mem_append.mp her with her | her
    · exact h.answered er her
    · obtain rfl := List.mem_singleton.mp her
      exact ⟨he, hknown⟩
  · have hnumbered : (s.server.withPage sha256 connector now e start till cursor).Numbered :=
      h.numbered.withPage h.consistent h.logged ha
    refine ⟨⟨h.consistent.withPage ha, h.logged.withPage ha, hnumbered, fun a hm => ?_,
      fun er her => ?_⟩, rfl, fun hacc => ⟨fun scan hscan => ?_, fun job hj => ?_, fun scan hc => ?_⟩⟩
    · rcases mem_withPage.mp hm with hm | rfl
      · exact h.known a hm
      · exact he
    · rcases List.mem_append.mp her with her | her
      · obtain ⟨hs, a, hm, hrest⟩ := h.answered er her
        exact ⟨hs, a, mem_withPage.mpr (Or.inl hm), hrest⟩
      · obtain rfl := List.mem_singleton.mp her
        exact ⟨he, _, mem_withPage.mpr (Or.inr rfl), rfl, rfl, rfl⟩
    · exact (hacc.option scan hscan).mono scanPages_prefix
    · exact (hacc.jobs job hj).mono scanPages_prefix
    · exact (hacc.completed scan hc).mono h.numbered hnumbered scanPages_prefix

/-- In every run in which an order raises only before any record of its page, a scan that reaches
the end has every record that its orders gave on its accepted pages, in order and once. -/
theorem finished_scan_was_sent {events : List Event} {s : Site}
    (h : Run (Guarded (siteStep sha256 connector) RaisesFirst) {} events s)
    (hc : s.CollisionFree sha256) : ∀ scan ∈ s.completed, scan.Sent s.server := by
  have hinv : s.Recorded sha256 ∧ (s.CollisionFree sha256 → s.Accounted) := by
    refine h.invariant_state (I := fun s => s.Recorded sha256 ∧
      (s.CollisionFree sha256 → s.Accounted)) ⟨?_, fun _ => ?_⟩ fun s event s' hs hg => ?_
    · refine ⟨consistent_empty, logged_empty, numbered_empty,
        fun _ ha => absurd ha List.not_mem_nil, fun _ ha => absurd ha List.not_mem_nil⟩
    · refine ⟨?_, fun _ hj => absurd hj List.not_mem_nil, fun _ hj => absurd hj List.not_mem_nil⟩
      rintro scan ⟨⟩
    · obtain ⟨hrec, hacc⟩ := hs
      obtain ⟨hq, hstep⟩ := hg
      rcases siteStep_cases hstep with ⟨now, e, he, rfl⟩ | hd
      · obtain ⟨hrec', hsent, hacc'⟩ := hrec.receive connector now he
        exact ⟨hrec', fun hc => hacc' (hacc (hc.anti (by rw [hsent]; exact List.Subset.refl _)))⟩
      · have hc' := hd.frames
        exact ⟨hrec.frames hc', fun hc =>
          (hacc (hc.anti hc'.sent)).does hrec (hc.anti hc'.sent) hq hd⟩
  exact (hinv.2 hc).completed

def siteNoon : ℤ := 1788609600

def paidOrder (id : ℕ) : WcOrder where
  id := id
  paymentMethod := "stripe"
  dateCreated := some (siteNoon - 3600)
  total := .text "10.00"
  currency := "USD"
  status := "completed"

/-- The shop answers for both orders, or has lost the date of one of them. -/
def paidShop (id : ℕ) : Except String (Option WcOrder) := .ok (some (paidOrder id))

def undatedShop (undated id : ℕ) : Except String (Option WcOrder) :=
  .ok (some (if id = undated then { paidOrder id with dateCreated := none } else paidOrder id))

/-- The last job sends the page it built, and the answer of the server ends the scan. -/
def finishScan (page : Envelope) : List Event :=
  [.send 0 siteNoon "request-2", .receive noon page,
    .answer 0 ⟨page.requestId, page.records.map fun r => ⟨r.sourceId, r.kind, .stored .accepted, none⟩,
      true, noon⟩]

/-- A first attempt at the page on a shop, and one after it that finds both orders. -/
def twoAttempts (shop : ℕ → Except String (Option WcOrder)) : List Event :=
  [.start siteNoon false "scan" fun _ _ => [101, 102], .read, .build 0 siteNoon "request-1" shop,
    .read, .build 0 siteNoon "request-2" paidShop]

def pendingPage (events : List Event) : Option Envelope :=
  (events.foldlM (Site.next Sha256.hexdigest Ingestion.shop) {}).bind fun s =>
    s.scan.bind Scan.pending

def finishedRun (shop : ℕ → Except String (Option WcOrder)) : List Event :=
  twoAttempts shop ++ (pendingPage (twoAttempts shop)).elim [] finishScan

def finishedSite (shop : ℕ → Except String (Option WcOrder)) : Option Site :=
  (finishedRun shop).foldlM (Site.next Sha256.hexdigest Ingestion.shop) {}

/-- For every finished scan, what its orders gave and what is on its accepted pages. -/
def takenAndSent (s : Site) : List (List WooRecord × List WooRecord) :=
  s.completed.map fun scan => (scan.consumed.flatten,
    (s.server.scanPages scan.scanId).flatMap (·.envelope.records))

theorem collisionFree_of_length {s : Site} (h : s.sent.length = 1) : s.CollisionFree sha256 := by
  obtain ⟨e, he⟩ := List.length_eq_one_iff.mp h
  apply Set.Subsingleton.injOn
  rintro text ⟨a, ha, rfl⟩ text' ⟨b, hb, rfl⟩
  rw [he] at ha hb
  rw [List.mem_singleton.mp ha, List.mem_singleton.mp hb]

/-- Nothing is carried over, and only the next order can raise. -/
def onlyNextRaises (s : Site) : Event → Bool
  | .build i _ _ shop => (s.jobs[i]?).all fun job => job.scan.carry.isEmpty &&
      (job.scan.ids.drop job.scan.offset).tail.all fun id => (extraction shop id).toOption.isSome
  | _ => true

theorem raisesFirst_of_onlyNext {s : Site} {event : Event} (h : onlyNextRaises s event = true) :
    RaisesFirst s event := by
  cases event with
  | build i now requestId shop =>
    rintro job hj before id after error taken hids he hb -
    simp only [onlyNextRaises, hj, Option.all_some, Bool.and_eq_true, List.isEmpty_iff,
      List.all_eq_true] at h
    cases before with
    | nil =>
      obtain rfl := List.map_eq_nil_iff.mp hb.symm
      rw [h.1]
      rfl
    | cons first before =>
      have hid := h.2 id (by rw [hids]; simp)
      rw [he] at hid
      cases hid
  | _ => exact trivial

/-- The first order raises at the first attempt, before there is any record. -/
theorem finished_scan_was_sent_retried : ∃ events s,
    Run (Guarded (siteStep Sha256.hexdigest Ingestion.shop) RaisesFirst) {} events s ∧
      s.completed.length = 1 ∧ ∀ scan ∈ s.completed, scan.Sent s.server := by
  have hm : ((finishedRun (undatedShop 101)).foldlM (fun s event =>
      if onlyNextRaises s event then s.next Sha256.hexdigest Ingestion.shop event else none)
        {}).map (fun s => (s.sent.length, s.completed.length)) = some (1, 1) := by decide +kernel
  obtain ⟨s, hs, hl⟩ := Option.map_eq_some_iff.mp hm
  obtain ⟨hsent, hcompleted⟩ := Prod.mk.inj hl
  have hrun : Run (Guarded (siteStep Sha256.hexdigest Ingestion.shop) RaisesFirst) {}
      (finishedRun (undatedShop 101)) s := by
    apply Run.of_foldlM _ hs
    intro s event s' h
    split at h
    · exact ⟨raisesFirst_of_onlyNext ‹_›, h⟩
    · cases h
  exact ⟨_, s, hrun, hcompleted, finished_scan_was_sent hrun (collisionFree_of_length hsent)⟩

/-- The second order raises at the first attempt: the record of the first is dropped, the scan goes
on behind both and reaches its end. -/
theorem raised_order_drops_record : ∃ events s,
    Run (siteStep Sha256.hexdigest Ingestion.shop) {} events s ∧ s.cursor.isSome ∧
      s.CollisionFree Sha256.hexdigest ∧ ∃ scan ∈ s.completed, ¬ scan.Sent s.server := by
  have hm : (finishedSite (undatedShop 102)).map (fun s => (s.sent.length, s.cursor.isSome,
      (takenAndSent s).map fun ts => decide (ts.2 = ts.1))) = some (1, true, [false]) := by
    decide +kernel
  obtain ⟨s, hs, hl⟩ := Option.map_eq_some_iff.mp hm
  obtain ⟨hsent, hl⟩ := Prod.mk.inj hl
  obtain ⟨hcursor, hdropped⟩ := Prod.mk.inj hl
  unfold takenAndSent at hdropped
  rw [List.map_map] at hdropped
  obtain ⟨scan, rest, hc, hne, -⟩ := List.map_eq_cons_iff.mp hdropped
  refine ⟨_, s, Run.of_foldlM (fun _ _ _ h => h) hs, hcursor, collisionFree_of_length hsent, scan,
    ?_, fun h => ?_⟩
  · rw [hc]
    exact List.mem_cons_self
  · exact absurd h.records (of_decide_eq_false hne)

end LedgerGuard.Plugin
