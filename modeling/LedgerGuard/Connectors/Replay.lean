import LedgerGuard.Connectors.SignedPlugin
import LedgerGuard.Core.Fixtures
import LedgerGuard.Lib.Sha256
import LedgerGuard.Lib.Transition
import Mathlib.Algebra.Order.Group.Abs
import Mathlib.Tactic.Linarith

/-! # Replayed requests of the plugin

A receipt is deleted two days after its request, and a signature is good for five
minutes around the time in its body. So the receipt of a body outlives every
signature under which the body could arrive again; it does not outlive the request
identifier, under which another body can arrive at any time.
-/

namespace LedgerGuard.Connectors

open Ingestion Raising Transition

def receiptDays : ℤ := 2

def receiptAge : Duration := minutes (receiptDays * 24 * 60)

def Receipt.expired (now : Instant) (r : Receipt) : Bool :=
  r.createdAt < now - receiptAge && (r.status = .normalized || r.status = .ignored)

section Retention

variable (expire : Instant → Ingestion.Facts → Ingestion.Facts)

/-- `retain`, as far as it concerns the connector; what it removes of the facts depends on the
findings of the organization. -/
def Server.retain (s : Server) (now : Instant) : Server :=
  { s with
    receipts := s.receipts.filter fun r => !r.expired now
    quotas := s.quotas.filter fun q => !decide (q.createdAt < now - receiptAge)
    db := { s.db with
      facts := expire now s.db.facts
      pages := s.db.pages.filter fun p => !decide (p.result.serverTime < now - receiptAge) } }

end Retention

inductive Event
  /-- The clock of the checks, and the later one of the handler and the receipt. -/
  | request (r : PluginRequest) (now written : Instant) (outcome : Outcome)
  | retain (now : Instant)

/-- A connector, and the last time that the clock of the server showed. -/
structure Timed where
  server : Server
  clock : Instant

section History

variable (sha256 : String → String) (verify : ℕ → String → String → Bool)
  (decode : String → Except Raised PluginEnvelope) (expire : Instant → Ingestion.Facts → Ingestion.Facts)

inductive Step : Timed → Event → Timed → Prop
  | request {w r now written} (hnow : w.clock ≤ now) (hwritten : now ≤ written) :
      Step w (.request r now written (w.server.signedPlugin sha256 verify decode r now written).1)
        ⟨(w.server.signedPlugin sha256 verify decode r now written).2, written⟩
  | retain {w now} (hnow : w.clock ≤ now) : Step w (.retain now) ⟨w.server.retain expire now, now⟩

def SameRequestId (r r' : PluginRequest) : Prop :=
  ∃ e e', decode r.body = .ok e ∧ decode r'.body = .ok e' ∧ e.requestId = e'.requestId

/-- What a request that was committed means for a later event. -/
def AppliedOnce : Event → Event → Prop
  | .request r _ written (.applied result), .request r' now' _ outcome' =>
    (r'.body = r.body → outcome' = .replayed result ∨ ∃ e, outcome' = .unauthenticated e) ∧
    (SameRequestId decode r r' → r'.body ≠ r.body → now' ≤ written + receiptAge →
      outcome'.isApplied = false)
  | _, _ => True

end History

section Invariant

variable {sha256 : String → String} {verify : ℕ → String → String → Bool}
  {decode : String → Except Raised PluginEnvelope} {expire : Instant → Ingestion.Facts → Ingestion.Facts}
  {s : Server} {w w' : Timed} {r : PluginRequest} {now written : Instant}

/-- The receipt of a committed request: stored as long as the signature of its body can be good,
and for two days at least. -/
def Receipted (sha256 : String → String) (decode : String → Except Raised PluginEnvelope)
    (w : Timed) : Event → Prop
  | .request r now written (.applied result) =>
    ∃ e sent, decode r.body = .ok e ∧ timestamp e.sentAt = some sent ∧
      |now - sent| ≤ seconds 300 ∧ now ≤ written ∧ written ≤ w.clock ∧
      ((∃ receipt, w.server.receipts.get e.requestId = some receipt ∧
          receipt.bodyHash = sha256 r.body ∧ receipt.result = result ∧
          receipt.createdAt = written) ∨ written + receiptAge < w.clock)
  | _ => True

theorem receipts_of_request {id : String} {receipt : Receipt}
    (h : s.receipts.get id = some receipt) :
    (s.signedPlugin sha256 verify decode r now written).2.receipts.get id = some receipt := by
  cases ho : (s.signedPlugin sha256 verify decode r now written).1.isApplied with
  | false => rwa [signedPlugin_unchanged ho]
  | true =>
    obtain ⟨result, hr⟩ : ∃ result,
        (s.signedPlugin sha256 verify decode r now written).1 = .applied result := by
      cases hc : (s.signedPlugin sha256 verify decode r now written).1 with
      | applied result => exact ⟨result, rfl⟩
      | _ =>
        rw [hc] at ho
        cases ho
    obtain ⟨e, key, -, hg, hp⟩ := signedPlugin_applied hr
    rw [apply_receipts hp, Table.get_put, if_neg]
    · exact h
    · rintro rfl
      rw [h] at hg
      cases hg

theorem le_of_near {t t' u : Instant} {d : Duration} (h : |t - u| ≤ d) (h' : |t' - u| ≤ d) :
    t' ≤ t + (d + d) := by
  have := (abs_le.mp h).1
  have := (abs_le.mp h').2
  linarith

theorem step_clock {b : Event} (h : Step sha256 verify decode expire w b w') :
    w.clock ≤ w'.clock := by
  cases h with
  | request hnow hwritten => exact hnow.trans hwritten
  | retain hnow => exact hnow

theorem receipted_step {a b : Event} (h : Step sha256 verify decode expire w b w')
    (ha : Receipted sha256 decode w a) : Receipted sha256 decode w' a := by
  have hclock := step_clock h
  unfold Receipted at ha ⊢
  split
  case h_2 => trivial
  case h_1 r now written result =>
    obtain ⟨e, sent, he, hs, hw, hnw, hc, hr⟩ := ha
    refine ⟨e, sent, he, hs, hw, hnw, hc.trans hclock, ?_⟩
    rcases hr with ⟨receipt, hg, hb, hres, hcr⟩ | hlate
    · cases h with
      | request =>
        exact Or.inl ⟨receipt, receipts_of_request hg, hb, hres, hcr⟩
      | @retain now' hnow =>
        cases hx : receipt.expired now' with
        | false =>
          refine Or.inl ⟨receipt, ?_, hb, hres, hcr⟩
          exact Table.get_filter.trans (by rw [hg, Option.filter_some, hx]; rfl)
        | true =>
          right
          simp only [Receipt.expired, Bool.and_eq_true, decide_eq_true_eq] at hx
          have hlate := lt_sub_iff_add_lt.mp hx.1
          rwa [hcr] at hlate
    · exact Or.inr (hlate.trans_le hclock)

theorem receipted_new {b : Event} (h : Step sha256 verify decode expire w b w') :
    Receipted sha256 decode w' b := by
  cases h with
  | retain hnow => trivial
  | @request r now written hnow hwritten =>
    unfold Receipted
    split
    case h_2 => trivial
    case h_1 r' now' written' result hb =>
      obtain ⟨rfl, rfl, rfl, ho⟩ := Event.request.inj hb
      obtain ⟨e, key, ha, -, hp⟩ := signedPlugin_applied ho
      obtain ⟨he, -, -, sent, hs, hw⟩ := authenticate_ok ha
      have hg := congrArg (Table.get · e.requestId) (apply_receipts hp)
      rw [Table.get_put, if_pos rfl] at hg
      exact ⟨e, sent, he, hs, hw, hwritten, le_rfl, Or.inl ⟨_, hg, rfl, rfl, rfl⟩⟩

theorem not_applied_of_receipt {e : PluginEnvelope} {receipt : Receipt}
    (he : decode r.body = .ok e) (hg : s.receipts.get e.requestId = some receipt) :
    (s.signedPlugin sha256 verify decode r now written).1.isApplied = false := by
  cases ho : (s.signedPlugin sha256 verify decode r now written).1 with
  | applied result =>
    obtain ⟨e', key, hauth, hfree, -⟩ := signedPlugin_applied ho
    obtain ⟨he', -⟩ := authenticate_ok hauth
    obtain rfl := Except.ok.inj (he.symm.trans he')
    rw [hg] at hfree
    cases hfree
  | _ => rfl

theorem signedPlugin_receipted {id : String} {receipt : Receipt}
    (ha : (s.authenticate sha256 verify decode r now).toOption.map (·.1.requestId) = some id)
    (hg : s.receipts.get id = some receipt) :
    s.signedPlugin sha256 verify decode r now written =
      (if receipt.bodyHash = sha256 r.body then .replayed receipt.result else .conflict, s) := by
  unfold Server.signedPlugin
  cases hc : s.authenticate sha256 verify decode r now with
  | error raised =>
    rw [hc] at ha
    cases ha
  | ok answer =>
    rw [hc] at ha
    obtain rfl := Option.some.inj ha
    by_cases hb : receipt.bodyHash = sha256 r.body
    · simp [hg, hb]
    · simp [hg, hb]

theorem appliedOnce_step {a b : Event} (h : Step sha256 verify decode expire w b w')
    (ha : Receipted sha256 decode w a) : AppliedOnce decode a b := by
  cases h with
  | retain =>
    unfold AppliedOnce
    split
    · rename_i hb
      cases hb
    · trivial
  | @request r' now' written' hnow hwritten =>
    unfold AppliedOnce
    split
    case h_2 => trivial
    case h_1 r now written result r₂ now₂ written₂ outcome₂ hb =>
      obtain ⟨rfl, rfl, rfl, rfl⟩ := Event.request.inj hb
      obtain ⟨e, sent, he, hs, hw, hnw, hc, hr⟩ := ha
      constructor
      · intro hbody
        rcases signedPlugin_cases w.server r' now' written' with
          ⟨raised, ho⟩ | ⟨e', key, hauth, hrest⟩
        · exact Or.inr ⟨raised, congrArg Prod.fst ho⟩
        · left
          obtain ⟨he', -, -, sent', hs', hw'⟩ := authenticate_ok hauth
          rw [hbody, he] at he'
          obtain rfl := Except.ok.inj he'
          obtain rfl := Option.some.inj (hs.symm.trans hs')
          -- both clocks are near the time in the body, so the receipt is still there
          rcases hr with ⟨receipt, hg, hb, rfl, -⟩ | hlate
          · rcases hrest with ⟨existing, hg', ho⟩ | ⟨hg', -⟩
            · obtain rfl := Option.some.inj (hg.symm.trans hg')
              rw [ho, hbody, if_pos hb]
            · rw [hg] at hg'
              cases hg'
          · have hnear := le_of_near hw hw'
            have hage : seconds 300 + seconds 300 ≤ receiptAge := by decide
            exact absurd (hlate.trans_le hnow) (not_lt.mpr (hnear.trans (add_le_add hnw hage)))
      · rintro ⟨e₁, e', he₁, he', hid⟩ - hsoon
        obtain rfl := Except.ok.inj (he.symm.trans he₁)
        rcases hr with ⟨receipt, hg, -⟩ | hlate
        · exact not_applied_of_receipt he' (hid ▸ hg)
        · exact absurd (hlate.trans_le (hnow.trans hsoon)) (lt_irrefl _)

end Invariant

/-- In every history of requests and retention runs, only an applied request changes anything, no
body is applied twice, and a replay of an applied body is answered with its stored result or
refused before the receipt is looked up. Nothing is applied under its identifier as long as the
receipt is there, which is for two days at least. -/
theorem plugin_requests_applied_once {sha256 : String → String}
    {verify : ℕ → String → String → Bool} {decode : String → Except Raised PluginEnvelope}
    {expire : Instant → Ingestion.Facts → Ingestion.Facts} {w w' : Timed} {events : List Event}
    (hrun : Run (Step sha256 verify decode expire) w events w') :
    (∀ (s : Server) (r : PluginRequest) (now written : Instant),
      (s.signedPlugin sha256 verify decode r now written).1.isApplied = false →
        (s.signedPlugin sha256 verify decode r now written).2 = s) ∧
    events.Pairwise (AppliedOnce decode) ∧
    (∀ a ∈ events, Receipted sha256 decode w' a) ∧
    ∀ (s : Server) (r : PluginRequest) (now written : Instant) (e : PluginEnvelope)
      (receipt : Receipt), decode r.body = .ok e → s.receipts.get e.requestId = some receipt →
        (s.signedPlugin sha256 verify decode r now written).1.isApplied = false := by
  have hinv : (∀ a ∈ events, Receipted sha256 decode w' a) ∧
      events.Pairwise (AppliedOnce decode) := by
    refine hrun.invariant (I := fun events w =>
      (∀ a ∈ events, Receipted sha256 decode w a) ∧ events.Pairwise (AppliedOnce decode)) ?_ ?_
    · exact ⟨fun _ h => absurd h List.not_mem_nil, .nil⟩
    · rintro events w b w' ⟨hr, hp⟩ hstep
      constructor
      · intro a ha
        rcases List.mem_append.mp ha with ha | ha
        · exact receipted_step hstep (hr a ha)
        · obtain rfl := List.mem_singleton.mp ha
          exact receipted_new hstep
      · apply List.pairwise_append.mpr
        refine ⟨hp, List.pairwise_singleton _ _, ?_⟩
        intro a ha b' hb
        obtain rfl := List.mem_singleton.mp hb
        exact appliedOnce_step hstep (hr a ha)
  exact ⟨fun s r now written h => signedPlugin_unchanged h, hinv.2, hinv.1,
    fun s r now written e receipt => not_applied_of_receipt⟩

theorem run_retain {sha256 : String → String} {verify : ℕ → String → String → Bool}
    {decode : String → Except Raised PluginEnvelope}
    {expire : Instant → Ingestion.Facts → Ingestion.Facts} {w : Timed} {events : List Event}
    {s s' : Server} {clock now : Instant}
    (hrun : Run (Step sha256 verify decode expire) w events ⟨s, clock⟩) (hnow : clock ≤ now)
    (hs : s.retain expire now = s') :
    Run (Step sha256 verify decode expire) w (events ++ [.retain now]) ⟨s', now⟩ := by
  subst hs
  exact hrun.snoc (.retain hnow)

theorem run_request {sha256 : String → String} {verify : ℕ → String → String → Bool}
    {decode : String → Except Raised PluginEnvelope}
    {expire : Instant → Ingestion.Facts → Ingestion.Facts} {w : Timed} {events : List Event}
    {s : Server} {r : PluginRequest} {clock now written : Instant} {answer : Outcome × Server}
    (hrun : Run (Step sha256 verify decode expire) w events ⟨s, clock⟩) (hnow : clock ≤ now)
    (hwritten : now ≤ written) (ha : s.signedPlugin sha256 verify decode r now written = answer) :
    Run (Step sha256 verify decode expire) w (events ++ [.request r now written answer.1])
      ⟨answer.2, written⟩ := by
  subst ha
  exact hrun.snoc (.request hnow hwritten)

/-- Receipts that nothing deletes: a request identifier is used up by its first request, and every
replay is answered. -/
def AnsweredForever (decode : String → Except Raised PluginEnvelope) : Event → Event → Prop
  | .request r _ _ (.applied result), .request r' _ _ outcome' =>
    (r'.body = r.body → outcome' = .replayed result) ∧
    (SameRequestId decode r r' → r'.body ≠ r.body → outcome'.isApplied = false)
  | _, _ => True

namespace Fixture

def installationId : String := "01890a5d-ac96-774b-bcce-b302099a8057"

def versions : Versions := ⟨"1.0.0", "6.8", "10.1", "9.8", "8.3"⟩

/-- A heartbeat of one request identifier, as it is sent at some time. -/
def heartbeat (sentAt : String) : HeartbeatEnvelope where
  requestId := "5c2c7a0e-8f63-4f0c-9f5e-0d7f2a1b3c4d"
  installationId := installationId
  sentAt := sentAt
  queueDepth := 0
  versions := versions
  hpos := true
  clockOffsetSeconds := 0

def heartbeatBody (sentAt : String) : String :=
  "\x7b\"schema_version\":\"1.0\",\"request_id\":\"5c2c7a0e-8f63-4f0c-9f5e-0d7f2a1b3c4d\"," ++
  "\"installation_id\":\"01890a5d-ac96-774b-bcce-b302099a8057\",\"sent_at\":\"" ++ sentAt ++
  "\",\"queue_depth\":0,\"versions\":\x7b\"plugin\":\"1.0.0\",\"wordpress\":\"6.8\"," ++
  "\"woocommerce\":\"10.1\",\"gateway\":\"9.8\",\"php\":\"8.3\"\x7d,\"hpos\":true," ++
  "\"clock_offset_seconds\":0\x7d"

/-- The reading of the bodies. -/
def decode (body : String) : Except Raised PluginEnvelope :=
  if body = heartbeatBody "2026-09-05T12:00:00Z" then
    .ok (.heartbeat (heartbeat "2026-09-05T12:00:00Z"))
  else if body = heartbeatBody "2026-09-05T12:02:00Z" then
    .ok (.heartbeat (heartbeat "2026-09-05T12:02:00Z"))
  else if body = heartbeatBody "2026-09-08T00:00:00Z" then
    .ok (.heartbeat (heartbeat "2026-09-08T00:00:00Z"))
  else .error (.problem "INVALID_JSON" 400)

def signature : String := "c2lnbmF0dXJl"

def verify (publicKey : ℕ) (given _ : String) : Bool := publicKey = 7 && given = signature

def request (sentAt : String) : PluginRequest where
  kind := .heartbeat
  contentLength := some 400
  body := heartbeatBody sentAt
  keyId := "9b1deb4d-3b7d-4bad-9bdd-2b0d7b3dcb6d"
  signature := signature

/-- A connector with one key. -/
def server : Server where
  connector := ⟨installationId, "01890a5d-ac96-774b-bcce-b302099a8056",
    some "01890a5d-ac96-774b-bcce-b302099a8055", .test⟩
  versions := versions
  keys := Table.empty.put
    { keyId := "9b1deb4d-3b7d-4bad-9bdd-2b0d7b3dcb6d"
      organizationId := "01890a5d-ac96-774b-bcce-b302099a8056"
      installationId := installationId
      publicKey := 7 }
  receipts := .empty

def later : Instant := noon + minutes (60 * 60)

def first : Outcome × Server :=
  server.signedPlugin Sha256.hexdigest verify decode (request "2026-09-05T12:00:00Z") noon noon

abbrev retained : Server := first.2.retain (fun _ facts => facts) later

def second : Outcome × Server :=
  retained.signedPlugin Sha256.hexdigest verify decode (request "2026-09-08T00:00:00Z") later later

theorem both_applied :
    first.1 = .applied (.accepted "5c2c7a0e-8f63-4f0c-9f5e-0d7f2a1b3c4d" noon) ∧
      second.1.isApplied = true := by
  decide +kernel

theorem le_later : noon ≤ later := le_add_of_nonneg_right (by decide)

abbrev Timeline := Run (Step Sha256.hexdigest verify decode fun _ facts => facts) ⟨server, noon⟩

theorem run_first : Timeline [.request (request "2026-09-05T12:00:00Z") noon noon first.1]
    ⟨first.2, noon⟩ :=
  run_request Run.nil le_rfl le_rfl rfl

theorem history : Timeline
    [.request (request "2026-09-05T12:00:00Z") noon noon first.1, .retain later,
      .request (request "2026-09-08T00:00:00Z") later later second.1] ⟨second.2, later⟩ := by
  have hretained : Timeline
      [.request (request "2026-09-05T12:00:00Z") noon noon first.1, .retain later]
      ⟨retained, later⟩ := run_retain run_first le_later rfl
  exact run_request hretained le_rfl le_rfl rfl

def soon : Instant := noon + minutes 2

/-- The heartbeat arrives once more. -/
def again : Outcome × Server :=
  first.2.signedPlugin Sha256.hexdigest verify decode (request "2026-09-05T12:00:00Z") soon soon

/-- Another heartbeat under the same identifier. -/
def other : Outcome × Server :=
  again.2.signedPlugin Sha256.hexdigest verify decode (request "2026-09-05T12:02:00Z") soon soon

/-- The receipt of the first heartbeat. -/
theorem exists_receipt : ∃ receipt,
    first.2.receipts.get "5c2c7a0e-8f63-4f0c-9f5e-0d7f2a1b3c4d" = some receipt ∧
      receipt.bodyHash = Sha256.hexdigest (request "2026-09-05T12:00:00Z").body ∧
      receipt.result = .accepted "5c2c7a0e-8f63-4f0c-9f5e-0d7f2a1b3c4d" noon := by
  obtain ⟨e, key, hauth, -, hp⟩ := signedPlugin_applied both_applied.1
  obtain ⟨he, -⟩ := authenticate_ok hauth
  have hd : decode (heartbeatBody "2026-09-05T12:00:00Z") =
      .ok (.heartbeat (heartbeat "2026-09-05T12:00:00Z")) := if_pos rfl
  obtain rfl := Except.ok.inj (hd.symm.trans he)
  unfold first
  rw [apply_receipts hp]
  exact ⟨_, Table.get_eq_some.mpr ⟨Table.mem_put.mpr (Or.inl rfl), rfl⟩, rfl, rfl⟩

theorem authenticated : ∀ sentAt ∈ ["2026-09-05T12:00:00Z", "2026-09-05T12:02:00Z"],
    (first.2.authenticate Sha256.hexdigest verify decode (request sentAt) soon).toOption.map
      (·.1.requestId) = some "5c2c7a0e-8f63-4f0c-9f5e-0d7f2a1b3c4d" := by
  decide +kernel

theorem again_replayed :
    again = (.replayed (.accepted "5c2c7a0e-8f63-4f0c-9f5e-0d7f2a1b3c4d" noon), first.2) := by
  obtain ⟨receipt, hg, hb, hr⟩ := exists_receipt
  have ha := authenticated "2026-09-05T12:00:00Z" (by simp)
  rw [again, signedPlugin_receipted ha hg, if_pos hb, hr]

theorem hexdigest_body_ne : Sha256.hexdigest (request "2026-09-05T12:00:00Z").body ≠
    Sha256.hexdigest (request "2026-09-05T12:02:00Z").body := by
  -- `String.toList` of a long text is slow to evaluate, so it goes to the pieces first.
  rw [Sha256.hexdigest_eq, Sha256.hexdigest_eq]
  unfold request heartbeatBody
  repeat rw [String.toList_append]
  decide +kernel

theorem other_conflict : other = (.conflict, first.2) := by
  obtain ⟨receipt, hg, hb, -⟩ := exists_receipt
  have ha := authenticated "2026-09-05T12:02:00Z" (by simp)
  rw [other, again_replayed, signedPlugin_receipted ha hg, hb, if_neg hexdigest_body_ne]

theorem le_soon : noon ≤ soon := le_add_of_nonneg_right (by decide)

theorem soon_le_later : soon ≤ later := Int.add_le_add_left (by decide) noon

def events : List Event :=
  [.request (request "2026-09-05T12:00:00Z") noon noon first.1,
    .request (request "2026-09-05T12:00:00Z") soon soon again.1,
    .request (request "2026-09-05T12:02:00Z") soon soon other.1, .retain later]

theorem run_events :
    Timeline events ⟨other.2.retain (fun _ facts => facts) later, later⟩ := by
  have hagain := run_request run_first le_soon le_rfl (show _ = again from rfl)
  have hother := run_request hagain le_rfl le_rfl (show _ = other from rfl)
  exact run_retain hother soon_le_later rfl

theorem same_requestId :
    (decode (request "2026-09-05T12:00:00Z").body =
        .ok (.heartbeat (heartbeat "2026-09-05T12:00:00Z")) ∧
      decode (request "2026-09-08T00:00:00Z").body =
        .ok (.heartbeat (heartbeat "2026-09-08T00:00:00Z"))) ∧
    (request "2026-09-08T00:00:00Z").body ≠ (request "2026-09-05T12:00:00Z").body := by
  decide +kernel

end Fixture

/-- A heartbeat is applied, its replay is answered, and another one under its identifier is
refused. -/
theorem plugin_requests_applied_once_heartbeats :
    Fixture.first.1 = .applied (.accepted "5c2c7a0e-8f63-4f0c-9f5e-0d7f2a1b3c4d" noon) ∧
      Fixture.again.1 =
        .replayed (.accepted "5c2c7a0e-8f63-4f0c-9f5e-0d7f2a1b3c4d" noon) ∧
      Fixture.other.1 = .conflict ∧ Fixture.events.Pairwise (AppliedOnce Fixture.decode) :=
  ⟨Fixture.both_applied.1, congrArg Prod.fst Fixture.again_replayed,
    congrArg Prod.fst Fixture.other_conflict,
    (plugin_requests_applied_once Fixture.run_events).2.1⟩

/-- Two and a half days after a heartbeat, another one is applied under its identifier. -/
theorem request_id_applied_twice :
    ¬ ∀ (w w' : Timed) (events : List Event),
      Run (Step Sha256.hexdigest Fixture.verify Fixture.decode fun _ facts => facts) w events w' →
        events.Pairwise (AnsweredForever Fixture.decode) := by
  intro h
  have hpairs := h _ _ _ Fixture.history
  rw [Fixture.both_applied.1] at hpairs
  obtain ⟨hfirst, -⟩ := List.pairwise_cons.mp hpairs
  obtain ⟨-, hnever⟩ := hfirst _ (List.mem_cons_of_mem _ List.mem_cons_self)
  obtain ⟨⟨hfirst', hsecond⟩, hbody⟩ := Fixture.same_requestId
  have hno := hnever ⟨_, _, hfirst', hsecond, rfl⟩ hbody
  rw [Fixture.both_applied.2] at hno
  cases hno

end LedgerGuard.Connectors
