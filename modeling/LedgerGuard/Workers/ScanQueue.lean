import LedgerGuard.Connectors.ScanCoverage
import LedgerGuard.Core.Canonical
import LedgerGuard.Lib.Table
import LedgerGuard.Workers.Credentials

/-! # The work of a pending scan

The scans of the Stripe connectors and the rows of the outbox, as polls, pages, failures,
suspensions, replays and retention change them. A pending scan always has the work for its next
page in the outbox, under the key that counts its pages.
-/

namespace LedgerGuard.Workers.ScanQueue

open Connectors Credentials Transition

/-- A row of the outbox with its key and its age. -/
structure Work where
  dedupeKey : String
  createdAt : Instant
  row : Outbox

structure ScanRow where
  id : String
  connectorId : String
  repair : Bool
  scan : Scanning.Scan

structure Queue where
  works : Table Work.dedupeKey := .empty
  scans : Table ScanRow.id := .empty

/-- `enqueue`; a key that is taken stays with its row. -/
def Queue.enqueue (q : Queue) (work : Work) : Queue :=
  if (q.works.get work.dedupeKey).isSome then q else { q with works := q.works.put work }

def scanKey (scanId : String) (page : ℕ) : String :=
  "scan:" ++ scanId ++ ":" ++ toString page

def keyPrefixes : List String :=
  ["reconcile:", "periodic-reconcile:", "periodic-stripe:", "initial-stripe:", "stripe-receipt:",
    "link:", "report:", "delete:", "notify:", "security-notify:", "digest:", "email:"]

def pageWork (id organizationId scanId : String) (page : ℕ) (now : Instant) : Work where
  dedupeKey := scanKey scanId page
  createdAt := now
  row := Workers.enqueue id organizationId .stripeScanPage scanId now

def ScanRow.fail (p : ScanRow → Bool) (s : ScanRow) : ScanRow :=
  if s.scan.status = .pending ∧ p s then { s with scan.status := .failed } else s

theorem fail_id {p : ScanRow → Bool} (s : ScanRow) : (s.fail p).id = s.id := by
  unfold ScanRow.fail
  split <;> rfl

def Queue.failScans (q : Queue) (p : ScanRow → Bool) : Queue :=
  { q with scans := q.scans.map (ScanRow.fail p) fail_id }

structure World where
  queue : Queue := {}
  connectors : Table StripeInstallation.id := .empty
  /-- The failures that are yet to be recorded, with the keys of their work. -/
  failed : List (String × WorkFailure) := []

def World.active (w : World) (connectorId : String) : Option StripeInstallation :=
  (w.connectors.get connectorId).filter (·.status = .active)

def days (n : ℤ) : Duration := minutes (n * 24 * 60)

/-- What an attempt meets besides the tables. The identifiers are those of the rows that it
creates. -/
structure Scene where
  now : Instant
  scanId : String
  workId : String
  /-- `covered_through` of the payments of the connector. -/
  coveredThrough : Option Instant := none
  /-- The stores that are linked to the connector, with the identifiers of their work. -/
  linked : List (String × String) := []
  reader : Scanning.Circumstances
  orders : List Scanning.Order := []
  /-- A failure of the Stripe code as the worker sees it. -/
  failure : StripeFailure → WorkFailure
  receiptConnector : Except WorkFailure (Option String) := .ok none
  refreshAccessToken : Except WorkFailure Unit := .ok ()
  /-- How the handler of any other task ends. -/
  other : Except WorkFailure Unit := .ok ()

/-- `poll`. -/
def poll (o : Scene) (connectorId : String) (repair : Bool) (w : World) :
    Except WorkFailure Queue :=
  match w.active connectorId with
  | none => .error (.other "DoesNotExist")
  | some connector =>
    if w.queue.scans.rows.any fun s => s.connectorId = connectorId ∧ s.scan.status = .pending then
      .ok w.queue
    else
      let now := o.now / 1000000 * 1000000 - seconds 30
      let start :=
        if repair then now - days 30
        else o.coveredThrough.elim (now - days 30) fun t => max (now - days 30) (t - minutes 30)
      let scan : ScanRow :=
        ⟨o.scanId, connectorId, repair, { windowFrom := start, windowThrough := now }⟩
      .ok ({ w.queue with scans := w.queue.scans.put scan }.enqueue
        (pageWork o.workId connector.organizationId o.scanId 0 o.now))

/-- `reconcile_later`. -/
def reconcileLater (o : Scene) (organizationId reason : String) (q : Queue) : Queue :=
  o.linked.foldl (fun q x => q.enqueue
    { dedupeKey := "reconcile:" ++ x.1 ++ ":" ++ reason
      createdAt := o.now
      row := Workers.enqueue x.2 organizationId .reconcileStore x.1 o.now }) q

/-- `scan_page` with the work for the next page. -/
def scanPage (o : Scene) (scanId : String) (w : World) : Except WorkFailure Queue :=
  match w.queue.scans.get scanId with
  | none => .error (.other "DoesNotExist")
  | some s =>
    if s.scan.status ≠ .pending then .ok w.queue
    else
      match w.active s.connectorId with
      | none => .error (.other "DoesNotExist")
      | some connector =>
        match (Scanning.scanPage o.reader s.scan o.orders).outcome with
        | .error failure => .error (o.failure failure)
        | .ok scan =>
          let q := { w.queue with scans := w.queue.scans.put { s with scan } }
          if scan.status = .pending then
            .ok (q.enqueue (pageWork o.workId connector.organizationId s.id scan.pageCount o.now))
          else .ok (reconcileLater o connector.organizationId s.id q)

def Scene.handle (o : Scene) (row : Outbox) (w : World) : Except WorkFailure Queue :=
  match row.taskType with
  | .stripePoll => poll o row.resourceId false w
  | .stripeRepair => poll o row.resourceId true w
  | .stripeScanPage => scanPage o row.resourceId w
  | _ => o.other.map fun _ => w.queue

/-- `credential_connector`. -/
def Scene.credentialConnector (o : Scene) (row : Outbox) (w : World) :
    Except WorkFailure (Option String) :=
  match row.taskType with
  | .stripeReceipt => o.receiptConnector
  | .stripeScanPage =>
    match (w.queue.scans.get row.resourceId).filter (·.scan.status = .pending) with
    | none => .ok none
    | some s =>
      match w.active s.connectorId with
      | none => .error (.other "DoesNotExist")
      | some connector => .ok (some connector.id)
  | _ => .ok none

def Scene.conditions (o : Scene) (row : Outbox) (w : World) : Conditions where
  now := o.now
  credentialConnector := o.credentialConnector row w
  refreshAccessToken := o.refreshAccessToken
  task := (o.handle row w).map fun _ => ()

def World.suspend (w : World) (connectorId code : String) : World :=
  match w.connectors.get connectorId with
  | none => w
  | some connector => { w with connectors := w.connectors.put (connector.suspend code) }

def World.attempt (o : Scene) (m : Message) (work : Work) (w : World) : World :=
  let (verdict, row) := Workers.attempt (o.conditions work.row w) m work.row
  match verdict, o.handle work.row w with
  | .committed, .ok q => { w with queue := { q with works := q.works.put { work with row } } }
  | .failed failure suspended, _ =>
    let w := suspended.elim w fun x => w.suspend x.1 x.2
    { w with failed := (work.dedupeKey, failure) :: w.failed }
  | _, _ => w

def World.suffer (w : World) : Consequence → World
  | .scanFailed scan => { w with queue := w.queue.failScans fun s => s.id = scan }
  | .scansFailed connector =>
    { w with queue := w.queue.failScans fun s => s.connectorId = connector }
  | .connectorSuspended connector code => w.suspend connector code
  | _ => w

/-- The second transaction of a delivery, on the row as it finds it. -/
def World.record (failure : WorkFailure) (l : Lookups) (work : Work) (w : World) : World :=
  let l := { l with scanConnector := (w.queue.scans.get work.row.resourceId).map (·.connectorId) }
  let (row, consequences) := recordFailure failure l work.row
  let w := { w with queue.works := w.queue.works.put { work with row } }
  let w := consequences.foldl World.suffer w
  { w with failed := w.failed.erase (work.dedupeKey, failure) }

inductive Event
  | attempt (m : Message)
  | record (failure : WorkFailure)
  | crash
  | dispatch
  | replay (reason : String)
  | enqueue
  | retention
  | connect
  | disconnect
  | suspend

/-- The transactions of an active organization. -/
inductive Step : World → Event → World → Prop
  | attempt {w} (o : Scene) (m : Message) {work : Work}
      (hwork : w.queue.works.get work.dedupeKey = some work)
      (huuid : o.scanId.length = 36) (hfresh : w.queue.scans.get o.scanId = none) :
      Step w (.attempt m) (w.attempt o m work)
  | record {w failure} (l : Lookups) {work : Work}
      (hwork : w.queue.works.get work.dedupeKey = some work)
      (hfailed : (work.dedupeKey, failure) ∈ w.failed) :
      Step w (.record failure) (w.record failure l work)
  /-- A delivery ends before its second transaction. -/
  | crash {w} (x : String × WorkFailure) : Step w .crash { w with failed := w.failed.erase x }
  | dispatch {w} {work : Work} {now : Instant} {row : Outbox}
      (hwork : w.queue.works.get work.dedupeKey = some work)
      (h : Workers.dispatch now work.row = some row) :
      Step w .dispatch { w with queue.works := w.queue.works.put { work with row } }
  | replay {w} {work : Work} {now : Instant} {reason : String} {row : Outbox}
      (hwork : w.queue.works.get work.dedupeKey = some work)
      (h : replayWork now reason work.row = some row) :
      Step w (.replay reason) { w with queue.works := w.queue.works.put { work with row } }
  /-- Any other work. -/
  | enqueue {w} (work : Work) (htask : work.row.taskType ≠ .stripeScanPage)
      (hkey : ∃ p ∈ keyPrefixes, ∃ rest, work.dedupeKey = p ++ rest) :
      Step w .enqueue { w with queue := w.queue.enqueue work }
  | retention {w} (now : Instant) :
      Step w .retention
        { w with
          queue.works := w.queue.works.filter fun work =>
            !(work.row.status = .done && work.createdAt < now - days 2) }
  /-- A connector is authorized. -/
  | connect {w} (connector : StripeInstallation) :
      Step w .connect { w with connectors := w.connectors.put connector }
  | disconnect {w} {connector : StripeInstallation}
      (h : w.connectors.get connector.id = some connector) :
      Step w .disconnect
        { w with
          connectors := w.connectors.put
            { connector with
              status := .disconnected
              credentialCiphertext := .obj []
              tokenExpiresAt := none } }
  /-- The readiness check meets a permanent failure. -/
  | suspend {w} (connectorId code : String) :
      Step w .suspend
        { w.suspend connectorId code with
          queue := w.queue.failScans fun s => s.connectorId = connectorId }

variable {q q' : Queue} {work : Work} {s : ScanRow} {w w' : World} {row : Outbox}

/-- A row of the outbox is a page of a scan that has counted it, or no page at all. -/
def Work.Keyed (q : Queue) (work : Work) : Prop :=
  (work.row.taskType = .stripeScanPage ∧ ∃ s ∈ q.scans, work.row.resourceId = s.id ∧
    ∃ page ≤ s.scan.pageCount, work.dedupeKey = scanKey s.id page) ∨
  work.row.taskType ≠ .stripeScanPage ∧ ∀ id page, work.dedupeKey ≠ scanKey id page

def Work.NextOf (work : Work) (s : ScanRow) : Prop :=
  work.dedupeKey = scanKey s.id s.scan.pageCount

structure Queue.Consistent (q : Queue) : Prop where
  uuid : ∀ s ∈ q.scans, s.id.length = 36
  keyed : ∀ work ∈ q.works, work.Keyed q
  covered : ∀ s ∈ q.scans, s.scan.status = .pending →
    ∃ work ∈ q.works, work.NextOf s ∧ work.row.Open

theorem scanKey_inj {id id' : String} {page page' : ℕ} (hlength : id.length = id'.length)
    (h : scanKey id page = scanKey id' page') : id = id' ∧ page = page' := by
  have hl := congrArg String.toList h
  simp only [scanKey, String.toList_append, List.append_assoc] at hl
  obtain ⟨hid, hrest⟩ := List.append_inj (List.append_cancel_left hl) hlength
  exact ⟨String.toList_injective hid,
    toString_injective (String.toList_injective (List.append_cancel_left hrest))⟩

theorem scanKey_ne {key rest p id : String} {page : ℕ} (hp : p ∈ keyPrefixes)
    (hkey : key = p ++ rest) : key ≠ scanKey id page := by
  rintro rfl
  have htwo : ∀ p ∈ keyPrefixes, 2 ≤ p.toList.length ∧ p.toList.take 2 ≠ ['s', 'c'] := by decide
  obtain ⟨hlength, hne⟩ := htwo p hp
  apply hne
  have h := congrArg (List.take 2 ∘ String.toList) hkey
  simp only [scanKey, Function.comp_apply, String.toList_append, List.append_assoc] at h
  rw [← List.take_append_of_le_length hlength, ← h]
  rfl

theorem Queue.mem_enqueue {x : Work} (h : x ∈ (q.enqueue work).works) : x = work ∨ x ∈ q.works := by
  unfold Queue.enqueue at h
  split at h
  · exact Or.inr h
  · exact (Table.mem_put.mp h).imp_right And.left

theorem Queue.enqueue_keeps {x : Work} (h : x ∈ q.works) : x ∈ (q.enqueue work).works := by
  unfold Queue.enqueue
  split
  · exact h
  · rename_i hnone
    rw [Bool.not_eq_true, Option.isSome_eq_false_iff, Option.isNone_iff_eq_none] at hnone
    exact Table.mem_put.mpr (Or.inr ⟨h, Table.get_eq_none.mp hnone x h⟩)

theorem Queue.enqueue_scans : (q.enqueue work).scans = q.scans := by
  unfold Queue.enqueue
  split <;> rfl

theorem Queue.mem_failScans {p : ScanRow → Bool} :
    s ∈ (q.failScans p).scans ↔ ∃ r ∈ q.scans, r.fail p = s :=
  Table.mem_map fail_id

theorem Work.Keyed.mono (h : work.Keyed q)
    (hscans : ∀ s ∈ q.scans, ∃ s' ∈ q'.scans, s'.id = s.id ∧ s.scan.pageCount ≤ s'.scan.pageCount) :
    work.Keyed q' := by
  rcases h with ⟨htask, s, hs, hid, page, hpage, hkey⟩ | h
  · obtain ⟨s', hs', hid', hle⟩ := hscans s hs
    rw [← hid'] at hid hkey
    exact Or.inl ⟨htask, s', hs', hid, page, hpage.trans hle, hkey⟩
  · exact Or.inr h

namespace Queue.Consistent

variable (h : q.Consistent)
include h

theorem page_of_key (hwork : work ∈ q.works) {id : String} {page : ℕ} (hid : id.length = 36)
    (hkey : work.dedupeKey = scanKey id page) :
    work.row.taskType = .stripeScanPage ∧ work.row.resourceId = id ∧
      ∃ s ∈ q.scans, s.id = id ∧ page ≤ s.scan.pageCount := by
  rcases h.keyed work hwork with ⟨htask, s, hs, hres, page', hpage, hkey'⟩ | ⟨-, hne⟩
  · obtain ⟨rfl, rfl⟩ := scanKey_inj ((h.uuid s hs).trans hid.symm) (hkey'.symm.trans hkey)
    exact ⟨htask, hres, s, hs, rfl, hpage⟩
  · exact absurd hkey (hne id page)

theorem put_row (hwork : work ∈ q.works) (htask : row.taskType = work.row.taskType)
    (hres : row.resourceId = work.row.resourceId)
    (hopen : row.Open ∨ ∀ s ∈ q.scans, s.scan.status = .pending → ¬ work.NextOf s) :
    { q with works := q.works.put { work with row } }.Consistent := by
  constructor
  · exact h.uuid
  · intro x hx
    rcases Table.mem_put.mp hx with rfl | ⟨hx, -⟩
    · have hk := h.keyed work hwork
      simpa only [Work.Keyed, htask, hres] using hk
    · exact h.keyed x hx
  · intro s hs hp
    obtain ⟨x, hx, hnext, hxopen⟩ := h.covered s hs hp
    by_cases hk : x.dedupeKey = work.dedupeKey
    · obtain rfl := Table.eq_of_key hx hwork hk
      have hrow := hopen.resolve_right fun hn => hn s hs hp hnext
      exact ⟨_, Table.mem_put.mpr (Or.inl rfl), hnext, hrow⟩
    · exact ⟨x, Table.mem_put.mpr (Or.inr ⟨hx, hk⟩), hnext, hxopen⟩

theorem enqueue_other (htask : work.row.taskType ≠ .stripeScanPage)
    (hkey : ∀ id page, work.dedupeKey ≠ scanKey id page) : (q.enqueue work).Consistent := by
  constructor
  · rw [Queue.enqueue_scans]
    exact h.uuid
  · intro x hx
    rcases Queue.mem_enqueue hx with rfl | hx
    · exact Or.inr ⟨htask, hkey⟩
    · apply (h.keyed x hx).mono
      rw [Queue.enqueue_scans]
      exact fun s hs => ⟨s, hs, rfl, le_rfl⟩
  · rw [Queue.enqueue_scans]
    intro s hs hp
    obtain ⟨x, hx, hnext⟩ := h.covered s hs hp
    exact ⟨x, Queue.enqueue_keeps hx, hnext⟩

theorem failScans (p : ScanRow → Bool) : (q.failScans p).Consistent := by
  have hfail : ∀ s : ScanRow, (s.fail p).scan.pageCount = s.scan.pageCount ∧
      ((s.fail p).scan.status = .pending → s.fail p = s) := by
    intro s
    unfold ScanRow.fail
    split
    · exact ⟨rfl, nofun⟩
    · exact ⟨rfl, fun _ => rfl⟩
  constructor
  · intro s' hs'
    obtain ⟨s, hs, rfl⟩ := Queue.mem_failScans.mp hs'
    rw [fail_id]
    exact h.uuid s hs
  · intro x hx
    apply (h.keyed x hx).mono
    intro s hs
    exact ⟨s.fail p, Queue.mem_failScans.mpr ⟨s, hs, rfl⟩, fail_id s, (hfail s).1.ge⟩
  · intro s' hs' hp
    obtain ⟨s, hs, rfl⟩ := Queue.mem_failScans.mp hs'
    have heq := (hfail s).2 hp
    rw [heq] at hp ⊢
    exact h.covered s hs hp

theorem get_pageKey (hid : s.id.length = 36)
    (hlt : ∀ s₀ ∈ q.scans, s₀.id = s.id → s₀.scan.pageCount < s.scan.pageCount) :
    q.works.get (scanKey s.id s.scan.pageCount) = none := by
  apply Table.get_eq_none.mpr
  intro x hx hkey
  obtain ⟨-, -, s₀, hs₀, hs₀id, hle⟩ := h.page_of_key hx hid hkey
  have := hlt s₀ hs₀ hs₀id
  omega

omit h in
theorem keyed_put (hlt : ∀ s₀ ∈ q.scans, s₀.id = s.id → s₀.scan.pageCount < s.scan.pageCount)
    (hscans : q'.scans = q.scans.put s) (hkeyed : work.Keyed q) : work.Keyed q' := by
  apply hkeyed.mono
  rw [hscans]
  intro s₀ hs₀
  by_cases hk : s₀.id = s.id
  · exact ⟨s, Table.mem_put.mpr (Or.inl rfl), hk.symm, (hlt s₀ hs₀ hk).le⟩
  · exact ⟨s₀, Table.mem_put.mpr (Or.inr ⟨hs₀, hk⟩), rfl, le_rfl⟩

theorem uuid_put (hid : s.id.length = 36) : ∀ s' ∈ q.scans.put s, s'.id.length = 36 := by
  intro s' hs'
  rcases Table.mem_put.mp hs' with rfl | ⟨hs', -⟩
  · exact hid
  · exact h.uuid s' hs'

theorem put_scan {id organizationId : String} {now : Instant} (hid : s.id.length = 36)
    (hlt : ∀ s₀ ∈ q.scans, s₀.id = s.id → s₀.scan.pageCount < s.scan.pageCount) :
    (({ q with scans := q.scans.put s } : Queue).enqueue
      (pageWork id organizationId s.id s.scan.pageCount now)).Consistent := by
  have hfresh := h.get_pageKey hid hlt
  have heq : ({ q with scans := q.scans.put s } : Queue).enqueue
      (pageWork id organizationId s.id s.scan.pageCount now) =
        ⟨q.works.put (pageWork id organizationId s.id s.scan.pageCount now), q.scans.put s⟩ := by
    rw [Queue.enqueue, if_neg]
    change ¬ (q.works.get (scanKey s.id s.scan.pageCount)).isSome
    simp [hfresh]
  rw [heq]
  constructor
  · exact h.uuid_put hid
  · intro x hx
    rcases Table.mem_put.mp hx with rfl | ⟨hx, -⟩
    · exact Or.inl ⟨rfl, s, Table.mem_put.mpr (Or.inl rfl), rfl, _, le_rfl, rfl⟩
    · exact keyed_put hlt rfl (h.keyed x hx)
  · intro s' hs' hp
    rcases Table.mem_put.mp hs' with rfl | ⟨hs', -⟩
    · refine ⟨_, Table.mem_put.mpr (Or.inl rfl), rfl, ?_, ?_⟩
      · intro hdead
        cases hdead
      · intro hdone
        cases hdone
    · obtain ⟨x, hx, hnext, hopen⟩ := h.covered s' hs' hp
      have hne := Table.get_eq_none.mp hfresh x hx
      exact ⟨x, Table.mem_put.mpr (Or.inr ⟨hx, hne⟩), hnext, hopen⟩

theorem put_ended (hid : s.id.length = 36)
    (hlt : ∀ s₀ ∈ q.scans, s₀.id = s.id → s₀.scan.pageCount < s.scan.pageCount)
    (hended : s.scan.status ≠ .pending) : { q with scans := q.scans.put s }.Consistent := by
  constructor
  · exact h.uuid_put hid
  · exact fun x hx => keyed_put hlt rfl (h.keyed x hx)
  · intro s' hs' hp
    rcases Table.mem_put.mp hs' with rfl | ⟨hs', -⟩
    · exact absurd hp hended
    · exact h.covered s' hs' hp

theorem fail_page (hwork : work ∈ q.works) (htask : row.taskType = work.row.taskType)
    (hres : row.resourceId = work.row.resourceId) :
    (({ q with works := q.works.put { work with row } } : Queue).failScans
      fun s => s.id = work.row.resourceId).Consistent := by
  have hq := h.failScans fun s => s.id = work.row.resourceId
  apply hq.put_row hwork htask hres
  right
  intro s hs hp hnext
  obtain ⟨-, hid, -⟩ := hq.page_of_key hwork (hq.uuid s hs) hnext
  obtain ⟨s₀, -, rfl⟩ := Queue.mem_failScans.mp hs
  rw [fail_id] at hid
  unfold ScanRow.fail at hp
  split at hp
  · cases hp
  · rename_i hn
    exact hn ⟨hp, by simpa using hid.symm⟩

theorem filter_open {p : Work → Bool} (hp : ∀ x : Work, x.row.Open → p x = true) :
    { q with works := q.works.filter p }.Consistent := by
  constructor
  · exact h.uuid
  · exact fun x hx => h.keyed x (Table.mem_filter.mp hx).1
  · intro s hs hps
    obtain ⟨x, hx, hnext, hopen⟩ := h.covered s hs hps
    exact ⟨x, Table.mem_filter.mpr ⟨hx, hp x hopen⟩, hnext, hopen⟩

end Queue.Consistent

variable {o : Scene} {m : Message} {failure : WorkFailure} {l : Lookups} {events : List Event}
  {event : Event}

theorem attempt_row {c : Conditions} : (Workers.attempt c m row).2.taskType = row.taskType ∧
    (Workers.attempt c m row).2.resourceId = row.resourceId := by
  unfold Workers.attempt
  split_ifs
  all_goals try exact ⟨rfl, rfl⟩
  cases c.credentialConnector with
  | error failure => exact ⟨rfl, rfl⟩
  | ok connector =>
    dsimp only
    split <;> exact ⟨rfl, rfl⟩

theorem dispatch_row {now : Instant} {row' : Outbox} (hd : dispatch now row = some row') :
    row'.taskType = row.taskType ∧ row'.resourceId = row.resourceId ∧ row'.Open := by
  have hopen : row'.Open := by
    rw [Outbox.Open, (dispatch_cases hd).2]
    exact ⟨nofun, nofun⟩
  unfold dispatch at hd
  split at hd
  · cases hd
    exact ⟨rfl, rfl, hopen⟩
  · cases hd

theorem replayWork_row {now : Instant} {reason : String} {row' : Outbox}
    (hr : replayWork now reason row = some row') :
    row'.taskType = row.taskType ∧ row'.resourceId = row.resourceId ∧ row'.Open := by
  have hopen : row'.Open := by
    rw [Outbox.Open, (replayWork_cases hr).2]
    exact ⟨nofun, nofun⟩
  unfold replayWork at hr
  split at hr
  · cases hr
    exact ⟨rfl, rfl, hopen⟩
  · cases hr

theorem pageCount_scanPage {r : Scanning.Circumstances} {scan scan' : Scanning.Scan}
    {orders : List Scanning.Order} (hp : scan.status = .pending)
    (hok : (Scanning.scanPage r scan orders).outcome = .ok scan') :
    scan'.pageCount = scan.pageCount + 1 := by
  rcases Scanning.scanPage_ok hok with ⟨hne, -⟩ | ⟨-, next, hnext, rfl, -⟩
  · exact absurd hp hne
  change next.pageCount + 1 = scan.pageCount + 1
  rw [Nat.add_right_cancel_iff]
  unfold Scanning.readPage at hnext
  split at hnext
  · obtain ⟨page, rows, hasMore, -, -, -, -, hbehind⟩ := Scanning.listingPhase_ok hnext
    rcases Scanning.behind_ok hbehind with ⟨-, rfl⟩ | ⟨last, cursor, -, -, rfl⟩ <;> rfl
  · rcases Scanning.ordersPhase_ok hnext with ⟨-, rfl⟩ | ⟨last, -, rfl, -⟩ <;> rfl

theorem reconcileLater_invariant {P : Queue → Prop} {organizationId reason : String} (h : P q)
    (hstep : ∀ q (x : Work), P q → x.row.taskType = .reconcileStore →
      (∃ rest, x.dedupeKey = "reconcile:" ++ rest) → P (q.enqueue x)) :
    P (reconcileLater o organizationId reason q) := by
  unfold reconcileLater
  induction o.linked generalizing q with
  | nil => exact h
  | cons x linked ih =>
    apply ih
    exact hstep _ _ h rfl ⟨x.1 ++ ":" ++ reason, by simp only [String.append_assoc]⟩

/-- What the handler of a row leaves. -/
structure Handled (q q' : Queue) (row : Outbox) : Prop where
  consistent : q'.Consistent
  works : ∀ x ∈ q.works, x ∈ q'.works
  turned : row.taskType = .stripeScanPage → ∀ s ∈ q'.scans, s.id = row.resourceId →
    s.scan.status = .pending → ∀ s₀ ∈ q.scans, s₀.id = s.id → s₀.scan.pageCount < s.scan.pageCount

theorem Handled.of_other (h : q.Consistent) (htask : row.taskType ≠ .stripeScanPage) :
    Handled q q row :=
  ⟨h, fun _ hx => hx, fun ht => absurd ht htask⟩

theorem poll_ok {connectorId : String} {repair : Bool} (h : w.queue.Consistent)
    (huuid : o.scanId.length = 36) (hfresh : w.queue.scans.get o.scanId = none)
    (hok : poll o connectorId repair w = .ok q') :
    q'.Consistent ∧ ∀ x ∈ w.queue.works, x ∈ q'.works := by
  unfold poll at hok
  split at hok
  · cases hok
  split at hok
  · obtain rfl := Except.ok.inj hok
    exact ⟨h, fun _ hx => hx⟩
  · obtain rfl := Except.ok.inj hok
    constructor
    · apply h.put_scan huuid
      exact fun s₀ hs₀ hid => absurd hid (Table.get_eq_none.mp hfresh s₀ hs₀)
    · exact fun x hx => Queue.enqueue_keeps hx

theorem scanPage_ok (h : w.queue.Consistent)
    (hok : scanPage o row.resourceId w = .ok q') : Handled w.queue q' row := by
  unfold scanPage at hok
  split at hok
  · cases hok
  case h_2 s hs =>
  obtain ⟨hmem, hid⟩ := Table.get_eq_some.mp hs
  split at hok
  case isTrue hp =>
    obtain rfl := Except.ok.inj hok
    refine ⟨h, fun _ hx => hx, fun _ s' hs' hid' hp' => ?_⟩
    obtain rfl := Table.eq_of_key hmem hs' (hid.trans hid'.symm)
    exact absurd hp' hp
  case isFalse hp =>
  split at hok
  · cases hok
  split at hok
  · cases hok
  case h_2 scan hscan =>
  have hcount := pageCount_scanPage (not_not.mp hp) hscan
  have hlt : ∀ s₀ ∈ w.queue.scans, s₀.id = s.id → s₀.scan.pageCount < scan.pageCount := by
    intro s₀ hs₀ hid₀
    obtain rfl := Table.eq_of_key hs₀ hmem hid₀
    omega
  have hturned : ∀ s' ∈ w.queue.scans.put { s with scan }, s'.id = row.resourceId →
      s'.scan.status = .pending →
      ∀ s₀ ∈ w.queue.scans, s₀.id = s'.id → s₀.scan.pageCount < s'.scan.pageCount := by
    intro s' hs' hid' _ s₀ hs₀ hid₀
    rcases Table.mem_put.mp hs' with rfl | ⟨-, hne⟩
    · exact hlt s₀ hs₀ hid₀
    · exact absurd (hid'.trans hid.symm) hne
  dsimp only at hok
  split at hok
  case isTrue hpending =>
    obtain rfl := Except.ok.inj hok
    refine ⟨h.put_scan (h.uuid s hmem) hlt, fun x hx => Queue.enqueue_keeps hx, fun _ => ?_⟩
    rw [Queue.enqueue_scans]
    exact hturned
  case isFalse hpending =>
    obtain rfl := Except.ok.inj hok
    apply reconcileLater_invariant (P := fun q => Handled w.queue q row)
    · exact ⟨h.put_ended (h.uuid s hmem) hlt hpending, fun _ hx => hx, fun _ => hturned⟩
    · intro q x hq hx ⟨rest, hkey⟩
      refine ⟨?_, fun y hy => Queue.enqueue_keeps (hq.works y hy), ?_⟩
      · apply hq.consistent.enqueue_other (by rw [hx]; nofun)
        exact fun id page => scanKey_ne (by decide) hkey
      · rw [Queue.enqueue_scans]
        exact hq.turned

theorem handle_ok (h : w.queue.Consistent) (huuid : o.scanId.length = 36)
    (hfresh : w.queue.scans.get o.scanId = none) (hok : o.handle row w = .ok q') :
    Handled w.queue q' row := by
  unfold Scene.handle at hok
  split at hok
  case h_1 htask =>
    obtain ⟨hq, hworks⟩ := poll_ok h huuid hfresh hok
    exact ⟨hq, hworks, fun ht => by rw [htask] at ht; cases ht⟩
  case h_2 htask =>
    obtain ⟨hq, hworks⟩ := poll_ok h huuid hfresh hok
    exact ⟨hq, hworks, fun ht => by rw [htask] at ht; cases ht⟩
  case h_3 => exact scanPage_ok h hok
  case h_4 htask =>
    cases hother : o.other with
    | error e =>
      rw [hother] at hok
      cases hok
    | ok _ =>
      rw [hother] at hok
      obtain rfl := Except.ok.inj hok
      exact Handled.of_other h htask

theorem Handled.put_row (h : w.queue.Consistent) (hwork : work ∈ w.queue.works)
    (hq : Handled w.queue q' work.row) (htask : row.taskType = work.row.taskType)
    (hres : row.resourceId = work.row.resourceId) :
    { q' with works := q'.works.put { work with row } }.Consistent := by
  apply hq.consistent.put_row (hq.works work hwork) htask hres
  right
  intro s hs hp hnext
  obtain ⟨hpage, hid, s₀, hs₀, hid₀, hle⟩ :=
    h.page_of_key hwork (hq.consistent.uuid s hs) hnext
  have := hq.turned hpage s hs hid.symm hp s₀ hs₀ hid₀
  omega

theorem World.suspend_queue {connectorId code : String} :
    (w.suspend connectorId code).queue = w.queue := by
  unfold World.suspend
  split <;> rfl

theorem World.attempt_queue : (w.attempt o m work).queue = w.queue ∨
    ∃ q row, o.handle work.row w = .ok q ∧ row.taskType = work.row.taskType ∧
      row.resourceId = work.row.resourceId ∧
      (w.attempt o m work).queue = { q with works := q.works.put { work with row } } := by
  have hrow := @attempt_row work.row m (o.conditions work.row w)
  unfold World.attempt
  dsimp only
  split
  case h_1 q _ hok => exact Or.inr ⟨q, _, hok, hrow.1, hrow.2, rfl⟩
  case h_2 suspended _ =>
    left
    cases suspended with
    | none => rfl
    | some x => exact World.suspend_queue
  · exact Or.inl rfl

theorem Queue.Consistent.suffer (h : w.queue.Consistent) (x : Consequence) :
    (w.suffer x).queue.Consistent := by
  cases x with
  | scanFailed scan => exact h.failScans _
  | scansFailed connector => exact h.failScans _
  | connectorSuspended connector code =>
    rw [World.suffer, World.suspend_queue]
    exact h
  | _ => exact h

theorem Queue.Consistent.suffers {xs : List Consequence} (h : w.queue.Consistent) :
    (xs.foldl World.suffer w).queue.Consistent := by
  induction xs generalizing w with
  | nil => exact h
  | cons x xs ih => exact ih (Queue.Consistent.suffer h x)

theorem consequences_of_page (htask : row.taskType = .stripeScanPage)
    (hdead : Exhausting failure row) :
    ∃ rest, (recordFailure failure l row).2 = .scanFailed row.resourceId :: rest := by
  have hs := @recordFailure_status l row failure
  rw [if_pos hdead] at hs
  have htask' : (recordFailure failure l row).1.taskType = .stripeScanPage := htask
  change ∃ rest, consequences failure l (recordFailure failure l row).1 = _
  unfold consequences
  rw [if_pos hs, htask']
  exact ⟨_, rfl⟩

theorem Queue.Consistent.record (h : w.queue.Consistent) (hwork : work ∈ w.queue.works) :
    (w.record failure l work).queue.Consistent := by
  unfold World.record
  dsimp only
  generalize { l with scanConnector := _ } = l
  by_cases htask : work.row.taskType = .stripeScanPage
  · by_cases hdead : Exhausting failure work.row
    · obtain ⟨rest, hrest⟩ := @consequences_of_page work.row failure l htask hdead
      rw [hrest, List.foldl_cons]
      apply Queue.Consistent.suffers
      exact h.fail_page hwork rfl rfl
    · apply Queue.Consistent.suffers
      refine h.put_row hwork rfl rfl ?_
      left
      have hs := @recordFailure_status l work.row failure
      rw [if_neg hdead] at hs
      rw [Outbox.Open, hs]
      exact ⟨nofun, nofun⟩
  · apply Queue.Consistent.suffers
    refine h.put_row hwork rfl rfl ?_
    right
    intro s hs hp hnext
    exact htask (h.page_of_key hwork (h.uuid s hs) hnext).1

theorem Step.consistent {event : Event} (h : w.queue.Consistent) (hstep : Step w event w') :
    w'.queue.Consistent := by
  cases hstep with
  | attempt o m hwork huuid hfresh =>
    rcases @World.attempt_queue _ w o m with hq | ⟨q, row, hok, htask, hres, hq⟩
    · rw [hq]
      exact h
    · rw [hq]
      exact (handle_ok h huuid hfresh hok).put_row h (Table.get_eq_some.mp hwork).1 htask hres
  | record l hwork hfailed => exact h.record (Table.get_eq_some.mp hwork).1
  | crash x => exact h
  | dispatch hwork hd =>
    obtain ⟨htask, hres, hopen⟩ := dispatch_row hd
    exact h.put_row (Table.get_eq_some.mp hwork).1 htask hres (Or.inl hopen)
  | replay hwork hr =>
    obtain ⟨htask, hres, hopen⟩ := replayWork_row hr
    exact h.put_row (Table.get_eq_some.mp hwork).1 htask hres (Or.inl hopen)
  | enqueue work htask hkey =>
    obtain ⟨p, hp, rest, hkey⟩ := hkey
    exact h.enqueue_other htask fun id page => scanKey_ne hp hkey
  | retention now =>
    apply h.filter_open
    intro x hx
    simp [hx.1]
  | connect connector => exact h
  | disconnect hconnector => exact h
  | suspend connectorId code => exact h.failScans _

/-- Every pending scan has an outbox row for its next page that is neither done nor dead. -/
theorem pending_scan_has_work {events : List Event} (hrun : Run Step {} events w)
    (hs : s ∈ w.queue.scans) (hp : s.scan.status = .pending) :
    ∃ work ∈ w.queue.works, work.row.taskType = .stripeScanPage ∧ work.row.resourceId = s.id ∧
      work.row.Open := by
  have h : w.queue.Consistent := by
    apply hrun.invariant_state (I := fun w => w.queue.Consistent)
    · constructor
      · intro s hs
        cases hs
      · intro work hwork
        cases hwork
      · intro s hs
        cases hs
    · exact fun _ _ _ h hstep => hstep.consistent h
  obtain ⟨work, hwork, hnext, hopen⟩ := h.covered s hs hp
  obtain ⟨htask, hres, -⟩ := h.page_of_key hwork (h.uuid s hs) hnext
  exact ⟨work, hwork, htask, hres, hopen⟩

namespace Fixture

def connector : StripeInstallation where
  id := "connector"
  organizationId := "organization"
  mode := "test"
  accountId := "acct_1"
  credentialCiphertext := .obj []
  tokenExpiresAt := none

def pollWork : Work where
  dedupeKey := "periodic-stripe:" ++ "connector:1"
  createdAt := 0
  row := Workers.enqueue "work" "organization" .stripePoll "connector" 0

def scanId : String := "01890a5d-ac96-774b-bcce-b302099a8058"

def scene : Scene where
  now := seconds 60
  scanId := scanId
  workId := "page"
  reader :=
    { reader := .ok ()
      get _ _ := .error .other
      provider _ := .ok ()
      advance := .ok ()
      save := .ok () }
  failure _ := .other "Exception"

def connected : World := { connectors := (Table.empty).put connector }

def waiting : World := { connected with queue := connected.queue.enqueue pollWork }

def polled : World := waiting.attempt scene (message pollWork.row) pollWork

theorem run_polled :
    Run Step {} [.connect, .enqueue, .attempt (message pollWork.row)] polled := by
  have h₁ : Run Step {} [.connect] connected := Run.nil.snoc (Step.connect connector)
  have h₂ : Run Step {} [.connect, .enqueue] waiting :=
    h₁.snoc (Step.enqueue pollWork (by decide) ⟨_, by decide, _, rfl⟩)
  exact h₂.snoc (Step.attempt scene _ rfl rfl rfl)

def scan : ScanRow where
  id := scanId
  connectorId := "connector"
  repair := false
  scan := { windowFrom := seconds 30 - days 30, windowThrough := seconds 30 }

end Fixture

open ScanQueue.Fixture

theorem pending_scan_has_work_polled : ∃ work ∈ polled.queue.works,
    work.row.taskType = .stripeScanPage ∧ work.row.resourceId = scan.id ∧ work.row.Open :=
  pending_scan_has_work run_polled (List.mem_singleton.mpr rfl) rfl

end LedgerGuard.Workers.ScanQueue
