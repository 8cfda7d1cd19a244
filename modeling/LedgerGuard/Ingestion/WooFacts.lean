import LedgerGuard.Ingestion.CoverageRange
import LedgerGuard.Ingestion.WireSchema
import LedgerGuard.Lib.Raising
import Mathlib.Data.Finset.Order
import Mathlib.Data.Finset.Dedup

/-! # What the projections of a shop carry

The pages that reach `accept_woo_batch` passed the wire schema. So whatever calls
a server answered, every projection of its connector carries one record of the
wire language: its columns are those of the normalized record, and its revision is
at most a clock skew ahead of the last call.
-/

namespace LedgerGuard.Ingestion

open Raising Transition

/-- The row carries the record: its identity, its revision and every column that the normalized
data names. -/
structure Projection.Records (p : Projection) (connector : Installation) (r : WooRecord) :
    Prop where
  kind : p.kind = r.kind
  sourceId : p.sourceId = r.sourceId
  storeId : p.storeId = connector.storeId
  mode : p.mode = connector.mode
  revision : timestamp r.revision = some p.revision
  columns : ∃ data times, normalizeWoo r = .ok data ∧ data.times = some times ∧
    p.assign data times = p

/-- Every row carries a record of the wire language that was not from the future. -/
def Facts.Recorded (facts : Facts) (connector : Installation) (now : Instant) : Prop :=
  ∀ p ∈ facts.projections, ∃ r : WooRecord, r.Valid ∧ p.Records connector r ∧
    p.revision ≤ now + seconds 120

/-- A call whose page passed the schema. -/
def ValidCall (_ : Server) (call : Instant × Envelope) : Prop := ∀ r ∈ call.2.records, r.Valid

section

variable {sha256 : String → String} {connector : Installation} {clock now : Instant} {e : Envelope}
  {facts facts' : Facts} {r : WooRecord} {disposition : Disposition}

theorem upsert_projections {kind : Kind} {sourceId : String} {revision : Instant}
    {data : SourceData}
    (h : upsert sha256 connector kind sourceId revision data facts = .ok (facts', disposition)) :
    facts'.projections = facts.projections ∨
    ∃ p times, data.times = some times ∧ facts'.projections = facts.projections.put p ∧
      p.kind = kind ∧ p.sourceId = sourceId ∧ p.revision = revision ∧
      p.storeId = connector.storeId ∧ p.mode = connector.mode ∧ p.assign data times = p := by
  unfold upsert at h
  simp only [observe_projections] at h
  split at h
  · obtain ⟨rfl, -⟩ := Prod.mk.inj (Except.ok.inj h)
    exact Or.inl rfl
  split at h
  · obtain ⟨rfl, -⟩ := Prod.mk.inj (Except.ok.inj h)
    exact Or.inl (observe_projections)
  split at h
  · cases h
  split at h
  · cases h
  case h_2 times ht =>
    obtain ⟨rfl, -⟩ := Prod.mk.inj (Except.ok.inj h)
    refine Or.inr ⟨_, times, ht, rfl, ?_⟩
    cases hg : facts.projections.get (kind, sourceId) with
    | none => exact ⟨rfl, rfl, rfl, rfl, rfl, assign_save⟩
    | some q =>
      obtain ⟨hk, hs⟩ := Prod.mk.inj (Table.get_eq_some.mp hg).2
      exact ⟨hk, hs, rfl, rfl, rfl,
        congrArg (fun p : Projection => { p with lockVersion := q.lockVersion + 1 }) assign_save⟩

theorem storeRecord_recorded (hclock : clock ≤ now) (h : facts.Recorded connector now)
    (hr : r.Valid) (hs : storeRecord sha256 connector clock r facts = .ok (facts', disposition)) :
    facts'.Recorded connector now := by
  unfold storeRecord at hs
  split at hs
  · cases hs
  case h_2 revision hrev =>
    split at hs
    · cases hs
    case isFalse hfuture =>
      split at hs
      · cases hs
      case h_2 data hd =>
        rcases upsert_projections hs with he | ⟨p, times, ht, he, hk, hsid, hpr, hst, hm, hc⟩
        · intro p hp
          rw [he] at hp
          exact h p hp
        · intro q hq
          rw [he] at hq
          rcases Table.mem_put.mp hq with rfl | ⟨hq, -⟩
          · refine ⟨r, hr, ⟨hk, hsid, hst, hm, hpr.symm ▸ hrev, data, times, hd, ht, hc⟩, ?_⟩
            rw [hpr]
            exact le_trans (not_lt.mp hfuture) (Int.add_le_add_right hclock _)
          · exact h q hq

theorem storeRecords_recorded {rs : List WooRecord} (hclock : clock ≤ now)
    (h : facts.Recorded connector now) (hr : ∀ r ∈ rs, r.Valid) :
    (storeRecords sha256 connector clock rs facts).facts.Recorded connector now := by
  induction rs generalizing facts with
  | nil => exact h
  | cons r rs ih =>
    have hrs : ∀ r ∈ rs, r.Valid := fun r hm => hr r (List.mem_cons_of_mem _ hm)
    unfold storeRecords
    split
    case h_1 facts' disposition hs =>
      exact ih (storeRecord_recorded hclock h (hr r List.mem_cons_self) hs) hrs
    case h_2 => exact ih h hrs

/-- After any calls with valid pages, none later than an instant, every projection carries a
record of the wire language. -/
theorem recorded_of_run {calls : List (Instant × Envelope)} {s : Server}
    (hrun : Run (Guarded (batchStep sha256 connector) ValidCall) {} calls s)
    (hnow : ∀ call ∈ calls, call.1 ≤ now) : s.db.facts.Recorded connector now := by
  induction hrun with
  | nil => exact fun p hp => absurd hp Table.not_mem_empty
  | @snoc calls s call s' hrun hstep ih =>
    have hs := ih fun call hm => hnow call (List.mem_append_left _ hm)
    obtain ⟨hvalid, hstep⟩ := hstep
    rcases batchStep_cases hstep with ⟨rfl, -⟩ | ⟨start, till, cursor, -, rfl⟩
    · exact hs
    · exact storeRecords_recorded (hnow _ (by simp)) hs hvalid

theorem recorded_of_run_at {calls : List (Instant × Envelope)} {s : Server}
    (hrun : Run (Guarded (batchStep sha256 connector) ValidCall) {} calls s) :
    ∃ now, s.db.facts.Recorded connector now := by
  obtain ⟨now, hnow⟩ := (calls.map Prod.fst).toFinset.exists_le
  refine ⟨now, recorded_of_run hrun fun call hm => hnow call.1 ?_⟩
  exact List.mem_toFinset.mpr (List.mem_map_of_mem hm)

theorem normalizeWoo_order {r : OrderRecord} {data : SourceData}
    (h : normalizeWoo (.order r) = .ok data) :
    ∃ money refunded, parseWoo r.amount r.currency = .ok money ∧
      parseWoo r.totalRefunded r.currency = .ok refunded ∧
      data = { status := r.status, amountMinor := money.minor, currency := money.currency
               exponent := money.exponent, createdAtSource := r.createdAt
               refundedMinor := some refunded.minor, method := some r.paymentMethod
               transactionId := some r.transactionId
               piId := some (r.stripeIds.paymentIntent.getD "")
               chargeId := some (r.stripeIds.charge.getD "")
               sessionId := some (r.stripeIds.checkoutSession.getD "")
               paidAt := some r.paidAt, refundIds := some r.refundIds } := by
  obtain ⟨money, hm, h⟩ := bind_eq_ok.mp h
  obtain ⟨refunded, hf, h⟩ := bind_eq_ok.mp h
  exact ⟨money, refunded, hm, hf, (Except.ok.inj h).symm⟩

/-- The columns of an order's row are those of its record. -/
structure Projection.HasOrder (p : Projection) (r : OrderRecord) : Prop where
  sourceId : p.sourceId = r.sourceId
  status : p.status = r.status
  method : p.method = r.paymentMethod
  transactionId : p.transactionId = r.transactionId
  piId : p.piId = r.stripeIds.paymentIntent.getD ""
  chargeId : p.chargeId = r.stripeIds.charge.getD ""
  sessionId : p.sessionId = r.stripeIds.checkoutSession.getD ""
  amount : ∃ money, parseWoo r.amount r.currency = .ok money ∧ p.amountMinor = money.minor ∧
    p.currency = money.currency ∧ p.exponent = money.exponent
  refunded : ∃ money, parseWoo r.totalRefunded r.currency = .ok money ∧
    p.refundedMinor = money.minor
  createdAt : timestamp r.createdAt = some p.createdAtSource
  paidAt : p.paidAt = none ∧ r.paidAt = none ∨
    ∃ text paid, r.paidAt = some text ∧ timestamp text = some paid ∧ p.paidAt = some paid

theorem Projection.Records.hasOrder {p : Projection} {r : OrderRecord}
    (h : p.Records connector (.order r)) : p.HasOrder r := by
  obtain ⟨data, times, hd, ht, hc⟩ := h.columns
  obtain ⟨money, refunded, hm, hf, rfl⟩ := normalizeWoo_order hd
  -- assigning the record's columns once more changes none of them
  have hcol : ∀ {α : Type} {x : α} (f : Projection → α), f (p.assign _ times) = x → f p = x :=
    fun f hx => (congrArg f hc).symm.trans hx
  obtain ⟨created, hcreated, ht⟩ := Option.bind_eq_some_iff.mp ht
  have hpaid : times.createdAt = created ∧ (times.paidAt = some none ∧ r.paidAt = none ∨
      ∃ text paid, r.paidAt = some text ∧ timestamp text = some paid ∧
        times.paidAt = some (some paid)) := by
    dsimp only at ht
    cases hp : r.paidAt with
    | none =>
      rw [hp] at ht
      obtain rfl := Option.some.inj ht
      exact ⟨rfl, Or.inl ⟨rfl, rfl⟩⟩
    | some text =>
      rw [hp] at ht
      obtain ⟨paid, hpaid, ht⟩ := Option.bind_eq_some_iff.mp ht
      obtain rfl := Option.some.inj ht
      exact ⟨rfl, Or.inr ⟨text, paid, rfl, hpaid, rfl⟩⟩
  exact {
    sourceId := h.sourceId
    status := hcol Projection.status rfl
    method := hcol Projection.method rfl
    transactionId := hcol Projection.transactionId rfl
    piId := hcol Projection.piId rfl
    chargeId := hcol Projection.chargeId rfl
    sessionId := hcol Projection.sessionId rfl
    amount := ⟨money, hm, hcol Projection.amountMinor rfl, hcol Projection.currency rfl,
      hcol Projection.exponent rfl⟩
    refunded := ⟨refunded, hf, hcol Projection.refundedMinor rfl⟩
    createdAt := hcreated.trans (congrArg some (hcol Projection.createdAtSource hpaid.1).symm)
    paidAt := by
      rcases hpaid.2 with ⟨ht, hr⟩ | ⟨text, paid, hr, hp, ht⟩
      · exact Or.inl ⟨hcol Projection.paidAt (congrArg (·.getD p.paidAt) ht), hr⟩
      · exact Or.inr ⟨text, paid, hr, hp, hcol Projection.paidAt (congrArg (·.getD p.paidAt) ht)⟩ }

end

end LedgerGuard.Ingestion
