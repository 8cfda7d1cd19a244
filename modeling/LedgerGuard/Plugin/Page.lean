import LedgerGuard.Plugin.Extractor

/-! # The pages that the plugin builds

`start_scan` takes a snapshot of order ids, and `page` turns it page by page
into signed envelopes. The scan is an option of the site: a job works on a copy
of it and writes the copy back, also when it fails.
-/

namespace LedgerGuard.Plugin

open Ingestion

/-- The scan option. What the extraction returned for each consumed id is kept beside it; the
source forgets it. -/
structure Scan where
  scanId : String
  ids : List ℕ
  offset : ℕ := 0
  page : ℕ := 1
  coveredFrom : String
  coveredThrough : String
  carry : List WooRecord := []
  attempt : ℕ := 0
  pending : Option Envelope := none
  consumed : List (List WooRecord) := []
  deriving DecidableEq

def daySeconds : ℤ := 86400

/-- The seconds of a wire timestamp; a text that is none counts as zero. -/
def strtotime (text : String) : ℤ := ((timestamp text).map (· / 1000000)).getD 0

/-- The scan of the ids that the shop answers for the window of a scan. -/
def startScan (now : ℤ) (isRepair : Bool) (cursor : Option String) (scanId : String)
    (wcGetOrders : ℤ → ℤ → List ℕ) : Except String Scan :=
  let through := now - 120
  let start := if isRepair then through - 35 * daySeconds
    else cursor.elim (through - 35 * daySeconds) fun text => strtotime text - 1800
  let ids := wcGetOrders start through
  if 50000 < ids.length then .error "SCAN_LIMIT_EXCEEDED"
  else .ok { scanId, ids, coveredFrom := gmdate start, coveredThrough := gmdate through }

/-- The locals of the loop that fills a page. -/
structure Gathered where
  records : List WooRecord
  offset : ℕ
  consumed : List (List WooRecord)
  deriving DecidableEq

def pageSize : ℕ := 100

section

variable (facts : ℕ → Except String (List WooRecord))

/-- Take the facts of one order after another until the page is full; an order that raises ends the
loop with the locals as they are. -/
def gather : List ℕ → Gathered → Gathered × Option String
  | [], g => (g, none)
  | id :: ids, g =>
    if g.records.length < pageSize then
      match facts id with
      | .error error => (g, some error)
      | .ok found =>
        gather ids ⟨g.records ++ found, g.offset + 1, g.consumed ++ [found]⟩
    else (g, none)

/-- Build the next page of a scan. The carry is emptied before the orders are read. -/
def Scan.build (scan : Scan) (now : ℤ) (requestId installationId : String) :
    Scan × Option String :=
  let (g, error) := gather facts (scan.ids.drop scan.offset) ⟨scan.carry, scan.offset, scan.consumed⟩
  let scan := { scan with carry := [], offset := g.offset, consumed := g.consumed }
  match error with
  | some error => (scan, some error)
  | none =>
    let scan := { scan with carry := g.records.drop pageSize }
    let final := scan.ids.length ≤ scan.offset && scan.carry.isEmpty
    ({ scan with
      pending := some
        ⟨requestId, installationId, gmdate now, scan.coveredFrom, scan.coveredThrough,
          scan.scanId, scan.page, final, g.records.take pageSize⟩ }, none)

end

/-- The copy that a job writes back when it fails. -/
def Scan.failed (scan : Scan) : Scan := { scan with attempt := scan.attempt + 1 }

def expired (now : ℤ) (e : Envelope) : Bool := strtotime e.sentAt < now - 240

def resign (now : ℤ) (requestId : String) (e : Envelope) : Envelope :=
  { e with requestId, sentAt := gmdate now }

/-- What a job does with an answer to its pending page. -/
inductive Acknowledged
  | refused (scan : Scan) (error : String)
  /-- The last page: the cursor is stored and the scan deleted. -/
  | finished (scan : Scan)
  | next (scan : Scan)

def acknowledge (scan : Scan) (pending : Envelope) (result : BatchResult) : Acknowledged :=
  if result.requestId ≠ pending.requestId ∨ result.results.length ≠ pending.records.length then
    .refused scan "BATCH_ACK_INVALID"
  else if result.results.any (·.status = .rejected) then .refused scan "SOURCE_FACT_REJECTED"
  else
    let scan := { scan with attempt := 0 }
    if pending.finalPage then
      if result.coverageAdvanced then .finished scan else .refused scan "COVERAGE_NOT_ADVANCED"
    else .next { scan with pending := none, page := scan.page + 1 }

variable {facts : ℕ → Except String (List WooRecord)} {ids : List ℕ} {g g' : Gathered}
  {scan scan' : Scan} {error : Option String}

theorem gather_spec (h : gather facts ids g = (g', error)) :
    ∃ taken : List (List WooRecord), g'.records = g.records ++ taken.flatten ∧
      g'.consumed = g.consumed ++ taken ∧ g'.offset = g.offset + taken.length ∧
      taken.length ≤ ids.length ∧
      (error = none → g'.records.length < pageSize → taken.length = ids.length) := by
  induction ids generalizing g with
  | nil =>
    obtain ⟨rfl, rfl⟩ := Prod.mk.inj h
    exact ⟨[], by simp, by simp, rfl, le_rfl, fun _ _ => rfl⟩
  | cons id ids ih =>
    unfold gather at h
    split at h
    · split at h
      · obtain ⟨rfl, rfl⟩ := Prod.mk.inj h
        refine ⟨[], by simp, by simp, rfl, Nat.zero_le _, fun he => ?_⟩
        cases he
      · rename_i found hf
        obtain ⟨taken, hr, hc, ho, hl, hall⟩ := ih h
        refine ⟨found :: taken, by rw [hr]; simp, by rw [hc]; simp, ?_, ?_, fun he hlt => ?_⟩
        · rw [ho, List.length_cons]
          dsimp only
          omega
        · rw [List.length_cons, List.length_cons]
          omega
        · rw [List.length_cons, List.length_cons, hall he hlt]
    · rename_i hfull
      obtain ⟨rfl, rfl⟩ := Prod.mk.inj h
      refine ⟨[], by simp, by simp, rfl, Nat.zero_le _, fun _ hlt => absurd hlt hfull⟩

theorem build_ok {now : ℤ} {requestId installationId : String}
    (h : scan.build facts now requestId installationId = (scan', none))
    (hlen : scan.consumed.length = scan.offset ∧ scan.offset ≤ scan.ids.length) :
    ∃ (taken : List (List WooRecord)) (e : Envelope), scan'.pending = some e ∧
      scan' = { scan with
        carry := scan'.carry, offset := scan.offset + taken.length,
        consumed := scan.consumed ++ taken, pending := some e } ∧
      e.records ++ scan'.carry = scan.carry ++ taken.flatten ∧
      scan.offset + taken.length ≤ scan.ids.length ∧
      e.scanId = scan.scanId ∧ e.page = scan.page ∧
      (e.finalPage = true → scan.offset + taken.length = scan.ids.length ∧ scan'.carry = []) := by
  unfold Scan.build at h
  cases hg : gather facts (scan.ids.drop scan.offset) ⟨scan.carry, scan.offset, scan.consumed⟩ with
  | mk g error =>
    obtain ⟨taken, hr, hc, ho, hl, -⟩ := gather_spec hg
    rw [List.length_drop] at hl
    rw [hg] at h
    cases error with
    | some error => cases (Prod.mk.inj h).2
    | none =>
      obtain ⟨rfl, -⟩ := Prod.mk.inj h
      refine ⟨taken, _, rfl, ?_, ?_, by omega, rfl, rfl, ?_⟩
      · rw [hc, ho]
      · exact (List.take_append_drop pageSize g.records).trans hr
      · intro hf
        obtain ⟨hle, hempty⟩ := Bool.and_eq_true_iff.mp hf
        have hle := of_decide_eq_true hle
        dsimp only at hle ho
        exact ⟨by omega, List.isEmpty_iff.mp hempty⟩

theorem gather_error {message : String} (h : gather facts ids g = (g', some message)) :
    ∃ before id after, ∃ taken : List (List WooRecord), ids = before ++ id :: after ∧
      facts id = .error message ∧ before.map facts = taken.map .ok ∧
      g'.records = g.records ++ taken.flatten ∧ g'.records.length < pageSize := by
  induction ids generalizing g with
  | nil => cases (Prod.mk.inj h).2
  | cons id ids ih =>
    unfold gather at h
    split at h
    · rename_i hlt
      split at h
      · rename_i error he
        obtain ⟨rfl, hm⟩ := Prod.mk.inj h
        obtain rfl := Option.some.inj hm
        exact ⟨[], id, ids, [], rfl, he, rfl, by simp, hlt⟩
      · rename_i found hf
        obtain ⟨before, id', after, taken, hids, he, hb, hr, hlt⟩ := ih h
        refine ⟨id :: before, id', after, found :: taken, by rw [hids]; rfl, he, ?_, ?_, hlt⟩
        · rw [List.map_cons, List.map_cons, hf, hb]
        · rw [hr]
          simp
    · cases (Prod.mk.inj h).2

/-- Every order that can raise while the next page is built comes before any record of the page: the
carry is empty, and the orders before it gave no record. -/
def Scan.RaisesFirst (scan : Scan) (facts : ℕ → Except String (List WooRecord)) : Prop :=
  ∀ before id after error (taken : List (List WooRecord)),
    scan.ids.drop scan.offset = before ++ id :: after →
    facts id = .error error → before.map facts = taken.map .ok →
    (scan.carry ++ taken.flatten).length < pageSize → scan.carry ++ taken.flatten = []

theorem build_error {now : ℤ} {requestId installationId : String} {message : String}
    (h : scan.build facts now requestId installationId = (scan', some message)) :
    ∃ taken : List (List WooRecord), scan' = { scan with
        carry := [], offset := scan.offset + taken.length,
        consumed := scan.consumed ++ taken } ∧
      (scan.offset ≤ scan.ids.length → scan.offset + taken.length ≤ scan.ids.length) ∧
      (scan.RaisesFirst facts → scan.carry ++ taken.flatten = []) := by
  unfold Scan.build at h
  cases hg : gather facts (scan.ids.drop scan.offset) ⟨scan.carry, scan.offset, scan.consumed⟩ with
  | mk g error =>
    obtain ⟨taken, hr, hc, ho, hl, -⟩ := gather_spec hg
    rw [List.length_drop] at hl
    rw [hg] at h
    cases error with
    | none => cases (Prod.mk.inj h).2
    | some error =>
      obtain ⟨rfl, -⟩ := Prod.mk.inj h
      refine ⟨taken, ?_, fun hle => by omega, fun hq => ?_⟩
      · rw [hc, ho]
      · obtain ⟨before, id, after, found, hids, he, hb, hr', hlt⟩ := gather_error hg
        have hfound := List.append_cancel_left (hr.symm.trans hr')
        dsimp only at hr hr'
        rw [hr'] at hlt
        rw [hfound]
        exact hq before id after error found hids he hb hlt

theorem acknowledge_cases (scan : Scan) (e : Envelope) (result : BatchResult) :
    (∃ n error, acknowledge scan e result = .refused { scan with attempt := n } error) ∨
    (e.finalPage = true ∧ acknowledge scan e result = .finished { scan with attempt := 0 }) ∨
    acknowledge scan e result =
      .next { scan with attempt := 0, pending := none, page := scan.page + 1 } := by
  unfold acknowledge
  split
  · exact Or.inl ⟨scan.attempt, _, rfl⟩
  split
  · exact Or.inl ⟨scan.attempt, _, rfl⟩
  dsimp only
  split
  · rename_i hf
    split
    · exact Or.inr (Or.inl ⟨hf, rfl⟩)
    · exact Or.inl ⟨0, _, rfl⟩
  · exact Or.inr (Or.inr rfl)

end LedgerGuard.Plugin
