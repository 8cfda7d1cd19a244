import LedgerGuard.Workers.Credentials

/-! # What credentials are destroyed for

An attempt on a receipt or a scan of a connector, with its two transactions. An exception
of the refresh that is no connector failure counts as uncertain storage, also before a
token was requested, and the connector then loses its credentials.
-/

namespace LedgerGuard.Workers.Credentials

open Savepoint

/-- What an attempt meets besides the row of the queue and the row of the connector. -/
structure Scene where
  now : Instant
  active : Bool := true
  deletionRequested : Bool := false
  deletionEmail : Bool := false
  /-- The receipt or the scan of the row is still to be processed. -/
  unprocessed : Bool := true
  circumstances : Circumstances
  work : Work
  commits : Bool := true

/-- The refresh of a connector, before any exception of it is converted. -/
def Scene.tried (s : Scene) (connector : StripeInstallation) : CredentialResult :=
  refreshAccessToken s.circumstances { data := connector }

/-- The attempt is about to use the credentials of the connector. -/
def Scene.locks (s : Scene) (row : Outbox) : Bool :=
  (row.taskType = .stripeReceipt || row.taskType = .stripeScanPage) && s.unprocessed

/-- `credential_connector` on a row that is about the connector. -/
def Scene.credentialConnector (s : Scene) (connector : StripeInstallation) (row : Outbox) :
    Except WorkFailure (Option String) :=
  if s.locks row then
    if connector.status = .active then .ok (some connector.id) else .error (.other "DoesNotExist")
  else .ok none

/-- The connection that the resource work gets. -/
def Scene.opened (s : Scene) (connector : StripeInstallation) (row : Outbox) : Conn StripeInstallation :=
  if s.locks row then (refreshed s.circumstances { data := connector }).conn
  else { data := connector }

def Scene.conditions (s : Scene) (connector : StripeInstallation) (row : Outbox) : Conditions where
  now := s.now
  active := s.active
  deletionRequested := s.deletionRequested
  deletionEmail := s.deletionEmail
  credentialConnector := s.credentialConnector connector row
  refreshAccessToken := ending (Savepoint.atomic (refreshAccessToken s.circumstances)
    { data := connector })
  task := ending (worked s.work (s.opened connector row))

/-- The row of the connector as the two savepoints leave it. -/
def Scene.kept (s : Scene) (connector : StripeInstallation) (row : Outbox) : StripeInstallation :=
  match s.credentialConnector connector row with
  | .error _ => connector
  | .ok none => (worked s.work { data := connector }).conn.data
  | .ok (some _) =>
    let r := refreshed s.circumstances { data := connector }
    if r.outcome.isRaised then r.conn.data else (worked s.work r.conn).conn.data

/-- The first transaction of `_run_message`: what it raises, and the connector that it leaves. -/
def Scene.first (s : Scene) (m : Message) (connector : StripeInstallation) (row : Outbox) :
    Option WorkFailure × StripeInstallation :=
  match (attempt (s.conditions connector row) m row).1 with
  | .unknown => (some (.other "ValueError"), connector)
  | .returned _ => (none, connector)
  | .committed =>
    if s.commits then (none, s.kept connector row) else (some (.other "DatabaseError"), connector)
  | .failed failure suspended =>
    if s.commits then
      (some failure, suspended.elim (s.kept connector row) fun x =>
        (s.kept connector row).suspend x.2)
    else (some (.other "DatabaseError"), connector)

/-- What a recorded failure does to the row of the connector. -/
def StripeInstallation.suffer (connector : StripeInstallation) : Consequence → StripeInstallation
  | .connectorSuspended id code =>
    if connector.id = id then connector.suspend code else connector
  | _ => connector

/-- The second transaction, on the rows as it finds them. -/
def recorded (failure : WorkFailure) (l : Lookups) (connector : StripeInstallation) (row : Outbox) :
    StripeInstallation × Outbox :=
  ((recordFailure failure l row).2.foldl StripeInstallation.suffer connector,
    (recordFailure failure l row).1)

def Work.raises (t : Work) : Option (Raised WorkFailure) :=
  match t.outcome with
  | .error e => some e
  | .ok _ => none

def Scene.raises (s : Scene) (connector : StripeInstallation) (row : Outbox) :
    Option (Raised WorkFailure) :=
  match s.credentialConnector connector row, (s.tried connector).outcome with
  | .ok (some _), .raised e => some e
  | .error _, _ => none
  | _, _ => s.work.raises

def Scene.StripeFails (s : Scene) (connector : StripeInstallation) (row : Outbox) : Prop :=
  ∃ code retryAfter, s.raises connector row = some (.own (.connector code true retryAfter))

/-- A token has been requested; without a developer key nothing is sent. -/
def Scene.Requests (s : Scene) (connector : StripeInstallation) (row : Outbox) : Prop :=
  (∃ id, s.credentialConnector connector row = .ok (some id)) ∧
    s.circumstances.configured = true ∧ (s.tried connector).log ≠ []

/-- Both transactions leave status and credentials, and the work can be tried again until its
attempts are used up. -/
structure Scene.Spares (s : Scene) (m : Message) (connector : StripeInstallation) (row : Outbox) :
    Prop where
  status : (s.first m connector row).2.status = connector.status
  credentials : (s.first m connector row).2.credentialCiphertext = connector.credentialCiphertext
  recorded : ∀ failure, (s.first m connector row).1 = some failure → ∀ l connector' row',
    (recorded failure l connector' row').1 = connector' ∧
      ((recorded failure l connector' row').2.status = .pending ∨ maxAttempts ≤ row'.attempts + 1)

/-- The attempt destroys no credentials, unless Stripe fails for good or a token was requested. -/
def Scene.ForCause (s : Scene) (m : Message) (connector : StripeInstallation) (row : Outbox) : Prop :=
  s.StripeFails connector row ∨ s.Requests connector row ∨ s.Spares m connector row

/-- The refresh fails before a token is requested: the stored credentials cannot be opened, lack
the token that is needed, or have expired while no developer key is configured. -/
def Circumstances.Unprovoked (o : Circumstances) (connector : StripeInstallation) : Prop :=
  match o.vault.decryptSecret connector.credentialCiphertext connector.organizationId connector.id
    "oauth" with
  | .error _ => True
  | .ok value =>
    if connector.expired o.now then value.lookup "refresh_token" = none ∨ o.configured = false
    else value.lookup "access_token" = none

/-- The message is about open work that is due, of an active organization or about the deletion of
one. -/
structure Scene.Attempts (s : Scene) (m : Message) (row : Outbox) : Prop where
  organization : row.organizationId = m.organizationId
  message : row.id = m.messageId
  task : row.taskType = m.taskType
  resource : row.resourceId = m.resourceId
  done : row.status ≠ .done
  dead : row.status ≠ .dead
  due : row.availableAt ≤ s.now
  active : s.active = true ∨ row.taskType = .securityNotify ∧ s.deletionRequested = true ∨
    row.taskType = .deliverEmail ∧ s.deletionEmail = true

/-- The attempt uses the credentials of an active connector, fails before a token is requested, and
commits. -/
structure Scene.Unprovoked (s : Scene) (m : Message) (connector : StripeInstallation) (row : Outbox) :
    Prop where
  attempts : s.Attempts m row
  locks : s.locks row = true
  active : connector.status = .active
  commits : s.commits = true
  refresh : s.circumstances.Unprovoked connector

variable {s : Scene} {m : Message} {connector : StripeInstallation} {row : Outbox}
  {failure : WorkFailure} {o : Circumstances} {c : Conn StripeInstallation} {t : Work}

theorem tried_unprovoked (hactive : connector.status = .active)
    (h : s.circumstances.Unprovoked connector) :
    (∃ typeName, (s.tried connector).outcome = .raised (.own (.other typeName))) ∧
      (s.circumstances.configured = true → (s.tried connector).log = []) := by
  unfold Scene.tried refreshAccessToken
  unfold Circumstances.Unprovoked at h
  simp only [hactive, ne_eq, not_true_eq_false, if_false]
  cases hv : s.circumstances.vault.decryptSecret connector.credentialCiphertext
      connector.organizationId connector.id "oauth" with
  | error typeName => exact ⟨⟨typeName, rfl⟩, fun _ => rfl⟩
  | ok value =>
    rw [hv] at h
    by_cases hexpired : connector.expired s.circumstances.now = true
    · simp only [hexpired, if_true] at h ⊢
      cases ht : value.lookup "refresh_token" with
      | none => exact ⟨⟨"KeyError", rfl⟩, fun _ => rfl⟩
      | some refreshToken =>
        have hc : s.circumstances.configured = false := by simpa [ht] using h
        simp [exchange, hc, raising]
    · simp only [hexpired, if_false, Bool.false_eq_true] at h ⊢
      rw [h]
      exact ⟨⟨"KeyError", rfl⟩, fun _ => rfl⟩

theorem tried_provoked (hactive : connector.status = .active)
    (h : ¬ s.circumstances.Unprovoked connector) :
    s.tried connector = ⟨.completed, { data := connector }, []⟩ ∨
      s.circumstances.configured = true ∧ (s.tried connector).log ≠ [] := by
  unfold Scene.tried refreshAccessToken
  unfold Circumstances.Unprovoked at h
  simp only [hactive, ne_eq, not_true_eq_false, if_false]
  cases hv : s.circumstances.vault.decryptSecret connector.credentialCiphertext
      connector.organizationId connector.id "oauth" with
  | error typeName =>
    rw [hv] at h
    exact absurd trivial h
  | ok value =>
    rw [hv] at h
    by_cases hexpired : connector.expired s.circumstances.now = true
    · simp only [hexpired, if_true, not_or] at h ⊢
      obtain ⟨refreshToken, ht⟩ := Option.ne_none_iff_exists'.mp h.1
      refine Or.inr ⟨by simpa using h.2, ?_⟩
      simp only [ht]
      cases exchange s.circumstances.configured connector.mode s.circumstances.answer with
      | error e => exact List.cons_ne_nil _ _
      | ok pair =>
        rcases @persist_cases s.circumstances { data := connector } ⟨refreshToken, some pair⟩ pair
          with ⟨e, -, -, hl⟩ | ⟨sealed, -, hp⟩
        · simp [hl]
        · simp [hp]
    · simp only [hexpired, if_false, Bool.false_eq_true] at h ⊢
      obtain ⟨accessToken, ht⟩ := Option.ne_none_iff_exists'.mp h
      rw [ht]
      exact Or.inl rfl

theorem recorded_retry (hp : failure.permanent = false) (l : Lookups) (connector : StripeInstallation)
    (row : Outbox) : (recorded failure l connector row).1 = connector ∧
      ((recorded failure l connector row).2.status = .pending ∨
        maxAttempts ≤ row.attempts + 1) := by
  constructor
  · have hsuffer : ∀ x ∈ (recordFailure failure l row).2, connector.suffer x = connector := by
      intro x hx
      cases x with
      | connectorSuspended id code =>
        change _ ∈ consequences failure l (recordFailure failure l row).1 at hx
        unfold consequences at hx
        rw [hp] at hx
        rcases List.mem_append.mp hx with hx | hx
        · split at hx
          · cases ht : (recordFailure failure l row).1.taskType <;> simp [ht] at hx
          · cases hx
        · cases hf : failureConnector l (recordFailure failure l row).1 <;> simp [hf] at hx
      | _ => rfl
    unfold recorded
    generalize (recordFailure failure l row).2 = xs at hsuffer
    induction xs with
    | nil => rfl
    | cons x xs ih =>
      rw [List.foldl_cons, hsuffer x (List.mem_cons_self)]
      exact ih fun y hy => hsuffer y (List.mem_cons_of_mem _ hy)
  · change (recordFailure failure l row).1.status = .pending ∨ _
    rw [recordFailure_status]
    by_cases hx : Exhausting failure row
    · exact Or.inr (hx.resolve_left (by simp [hp]))
    · exact Or.inl (if_neg hx)

theorem worked_data (hc : c.Usable) : (worked t c).conn.data.status = c.data.status ∧
    (worked t c).conn.data.credentialCiphertext = c.data.credentialCiphertext := by
  rw [worked, atomic_eq_release hc]
  rcases release_data c.data (handle t c) with h | h
  · rw [h]
    exact ⟨rfl, rfl⟩
  · rw [h]
    exact ⟨rfl, rfl⟩

theorem worked_permanent (hc : c.Usable) (h : ending (worked t c) = .error failure)
    (hp : failure.permanent = true) :
    ∃ code retryAfter, t.raises = some (.own (.connector code true retryAfter)) := by
  rw [worked, atomic_eq_release hc] at h
  unfold Work.raises
  cases ht : t.outcome with
  | error e =>
    have hr : (handle t c).outcome = .raised e := by
      unfold handle
      rw [ht]
    rw [release_raised hr] at h
    obtain rfl := Except.error.inj h
    cases e with
    | own failure =>
      cases failure with
      | connector code permanent retryAfter =>
        obtain rfl : permanent = true := hp
        exact ⟨code, retryAfter, rfl⟩
      | other typeName => cases hp
    | _ => cases hp
  | ok u =>
    have hr : (handle t c).outcome = .completed := by
      unfold handle
      rw [ht]
    unfold release at h
    rw [hr] at h
    split_ifs at h with h₁ h₂
    · simp [ending] at h
    · obtain rfl := Except.error.inj h
      cases hp
    · simp [ending, hr] at h

/-- How the work of an attempt ends. -/
def verdict (w : Conditions) (row : Outbox) : Verdict :=
  match w.credentialConnector with
  | .error failure => .failed failure none
  | .ok connector =>
    match (do refresh w connector; Workers.handle w row) with
    | .error failure => .failed failure (Workers.suspension failure connector)
    | .ok _ => .committed

section Verdict

variable {w : Conditions} {locked : Option String}

theorem verdict_refused (h : w.credentialConnector = .error failure) :
    verdict w row = .failed failure none := by
  rw [verdict, h]

theorem verdict_failed (h : w.credentialConnector = .ok locked)
    (hb : (do refresh w locked; Workers.handle w row) = .error failure) :
    verdict w row = .failed failure (Workers.suspension failure locked) := by
  rw [verdict, h]
  dsimp only
  rw [hb]

theorem verdict_committed (h : w.credentialConnector = .ok locked)
    (hb : (do refresh w locked; Workers.handle w row) = .ok ()) : verdict w row = .committed := by
  rw [verdict, h]
  dsimp only
  rw [hb]

end Verdict

theorem attempt_verdict :
    (¬ s.Attempts m row ∧ ((attempt (s.conditions connector row) m row).1 = .unknown ∨
      ∃ value, (attempt (s.conditions connector row) m row).1 = .returned value)) ∨
    s.Attempts m row ∧ (attempt (s.conditions connector row) m row).1 =
      verdict (s.conditions connector row) row := by
  unfold attempt
  split
  case isTrue h =>
    refine Or.inl ⟨fun ha => ?_, Or.inl rfl⟩
    exact h.elim (fun h => h ha.organization) fun h => h ha.message
  case isFalse hrow =>
  split
  case isTrue h =>
    refine Or.inl ⟨fun ha => ?_, Or.inr ⟨_, rfl⟩⟩
    exact h.elim (fun h => h ha.task) fun h => h ha.resource
  case isFalse hreference =>
  split
  case isTrue h => exact Or.inl ⟨fun ha => ha.done h, Or.inr ⟨_, rfl⟩⟩
  case isFalse hdone =>
  split
  case isTrue h => exact Or.inl ⟨fun ha => ha.dead h, Or.inr ⟨_, rfl⟩⟩
  case isFalse hdead =>
  split
  case isTrue h => exact Or.inl ⟨fun ha => absurd ha.due (not_le.mpr h), Or.inr ⟨_, rfl⟩⟩
  case isFalse hdue =>
  split
  case isTrue h =>
    refine Or.inl ⟨fun ha => ?_, Or.inr ⟨_, rfl⟩⟩
    rcases ha.active with hactive | hrequested | hemail
    · exact h.1 hactive
    · exact h.2.1 hrequested
    · exact h.2.2 hemail
  case isFalse hactive =>
  right
  constructor
  · rw [not_or, not_not, not_not] at hrow hreference
    refine ⟨hrow.1, hrow.2, hreference.1, hreference.2, hdone, hdead, not_lt.mp hdue, ?_⟩
    by_contra hn
    rw [not_or, not_or] at hn
    exact hactive hn
  · unfold verdict
    cases (s.conditions connector row).credentialConnector with
    | error failure => rfl
    | ok locked =>
      dsimp only
      cases (do refresh (s.conditions connector row) locked
                Workers.handle (s.conditions connector row) row) <;> rfl

/-- An attempt spares a connector if it raises nothing permanent and leaves status and
credentials. -/
theorem spares_of (hstatus : (s.first m connector row).2.status = connector.status)
    (hcredentials : (s.first m connector row).2.credentialCiphertext =
      connector.credentialCiphertext)
    (hfailure : ∀ failure, (s.first m connector row).1 = some failure →
      failure.permanent = false) : s.Spares m connector row where
  status := hstatus
  credentials := hcredentials
  recorded failure h l connector' row' := recorded_retry (hfailure failure h) l connector' row'

theorem spares_of_early (h : (attempt (s.conditions connector row) m row).1 = .unknown ∨
    ∃ value, (attempt (s.conditions connector row) m row).1 = .returned value) :
    s.Spares m connector row := by
  rcases h with h | ⟨value, h⟩
  · apply spares_of <;> unfold Scene.first <;> rw [h]
    rintro failure ⟨⟩
    rfl
  · apply spares_of <;> unfold Scene.first <;> rw [h]
    rintro failure ⟨⟩

theorem spares_of_lost (h : s.commits = false) : s.Spares m connector row := by
  have hfirst : (s.first m connector row).2 = connector ∧ ∀ failure,
      (s.first m connector row).1 = some failure → failure.permanent = false := by
    unfold Scene.first
    rw [h]
    split
    · exact ⟨rfl, by rintro failure ⟨⟩; rfl⟩
    · exact ⟨rfl, by rintro failure ⟨⟩⟩
    · exact ⟨rfl, by rintro failure ⟨⟩; rfl⟩
    · exact ⟨rfl, by rintro failure ⟨⟩; rfl⟩
  exact spares_of (by rw [hfirst.1]) (by rw [hfirst.1]) hfirst.2

theorem credentialConnector_cases :
    s.credentialConnector connector row = .error (.other "DoesNotExist") ∨
      (s.locks row = false ∧ s.credentialConnector connector row = .ok none) ∨
      s.locks row = true ∧ connector.status = .active ∧
        s.credentialConnector connector row = .ok (some connector.id) := by
  unfold Scene.credentialConnector
  split
  case isTrue hlocks =>
    split
    case isTrue hactive => exact Or.inr (Or.inr ⟨hlocks, hactive, rfl⟩)
    case isFalse => exact Or.inl rfl
  case isFalse hlocks => exact Or.inr (Or.inl ⟨by simpa using hlocks, rfl⟩)

theorem locks_maintenance (h : s.locks row = true) : row.taskType.maintenance = false := by
  unfold Scene.locks at h
  cases ht : row.taskType <;> simp [ht] at h <;> rfl

theorem forCause_of_work (hcommits : s.commits = true)
    (hverdict : (attempt (s.conditions connector row) m row).1 =
      verdict (s.conditions connector row) row)
    (hkept : s.kept connector row = (worked s.work { data := connector }).conn.data)
    {locked : Option String} (hlocked : s.credentialConnector connector row = .ok locked)
    (hraises : s.raises connector row = s.work.raises)
    (hbody : ∀ failure, (do refresh (s.conditions connector row) locked
                            Workers.handle (s.conditions connector row) row) = .error failure →
      failure.permanent = true → ending (worked s.work { data := connector }) = .error failure) :
    s.ForCause m connector row := by
  have husable : Conn.Usable { data := connector } := ⟨rfl, rfl⟩
  obtain ⟨hstatus, hcredentials⟩ := @worked_data _ s.work husable
  cases hb : (do refresh (s.conditions connector row) locked
                 Workers.handle (s.conditions connector row) row) with
  | ok u =>
    rw [verdict_committed hlocked hb] at hverdict
    refine Or.inr (Or.inr (spares_of ?_ ?_ ?_)) <;> unfold Scene.first <;>
      rw [hverdict] <;> simp only [hcommits, if_true]
    · rw [hkept, hstatus]
    · rw [hkept, hcredentials]
    · rintro failure ⟨⟩
  | error failure =>
    rw [verdict_failed hlocked hb] at hverdict
    cases hp : failure.permanent with
    | true =>
      obtain ⟨code, retryAfter, hwork⟩ := worked_permanent husable (hbody failure hb hp) hp
      refine Or.inl ⟨code, retryAfter, ?_⟩
      rw [hraises, hwork]
    | false =>
      have hs : Workers.suspension failure locked = none := by
        unfold Workers.suspension
        rw [hp]
        rfl
      rw [hs] at hverdict
      refine Or.inr (Or.inr (spares_of ?_ ?_ ?_)) <;> unfold Scene.first <;>
        rw [hverdict] <;> simp only [hcommits, if_true]
      · exact (congrArg _ hkept).trans hstatus
      · exact (congrArg _ hkept).trans hcredentials
      · rintro failure' ⟨⟩
        exact hp

theorem body_locked (hlocks : s.locks row = true) :
    (do refresh (s.conditions connector row) (some connector.id)
        Workers.handle (s.conditions connector row) row) =
      (do ending (refreshed s.circumstances { data := connector })
          ending (worked s.work (refreshed s.circumstances { data := connector }).conn)) := by
  refine savepoints_eq_attempt rfl ?_ (locks_maintenance hlocks)
  change ending (worked s.work (s.opened connector row)) = _
  rw [Scene.opened, if_pos hlocks]

theorem forCause (hcommits : s.commits = true)
    (hverdict : (attempt (s.conditions connector row) m row).1 =
      verdict (s.conditions connector row) row)
    (h : s.locks row = true → connector.status = .active →
      ¬ s.circumstances.Unprovoked connector) : s.ForCause m connector row := by
  rcases @credentialConnector_cases s connector row with hc | ⟨hlocks, hc⟩ | ⟨hlocks, hactive, hc⟩
  · rw [verdict_refused hc] at hverdict
    have hkept : s.kept connector row = connector := by
      rw [Scene.kept, hc]
    refine Or.inr (Or.inr (spares_of ?_ ?_ ?_)) <;> unfold Scene.first <;>
      rw [hverdict] <;> simp only [hcommits, if_true]
    · exact congrArg _ hkept
    · exact congrArg _ hkept
    · rintro failure ⟨⟩
      rfl
  · refine forCause_of_work hcommits hverdict ?_ hc ?_ fun failure hb hp => ?_
    · rw [Scene.kept, hc]
    · rw [Scene.raises, hc]
    · change Workers.handle (s.conditions connector row) row = .error failure at hb
      unfold Workers.handle at hb
      split at hb
      · obtain rfl := Except.error.inj hb
        cases hp
      · change ending (worked s.work (s.opened connector row)) = _ at hb
        rwa [Scene.opened, if_neg (by simp [hlocks])] at hb
  · rcases tried_provoked hactive (h hlocks hactive) with htried | hrequested
    · have husable : Conn.Usable { data := connector } := ⟨rfl, rfl⟩
      have hrefreshed := refreshed_completed husable husable htried
      refine forCause_of_work hcommits hverdict ?_ hc ?_ fun failure hb hp => ?_
      · rw [Scene.kept, hc]
        dsimp only
        rw [hrefreshed]
        rfl
      · rw [Scene.raises, hc, htried]
      · rw [body_locked hlocks, hrefreshed] at hb
        exact hb
    · exact Or.inr (Or.inl ⟨⟨_, hc⟩, hrequested⟩)

theorem not_forCause (h : s.Unprovoked m connector row) : ¬ s.ForCause m connector row := by
  obtain ⟨hattempts, hlocks, hactive, hcommits, hrefresh⟩ := h
  obtain ⟨⟨typeName, hraised⟩, hlog⟩ := tried_unprovoked hactive hrefresh
  have hc : s.credentialConnector connector row = .ok (some connector.id) := by
    rw [Scene.credentialConnector, if_pos hlocks, if_pos hactive]
  rintro (⟨code, retryAfter, hr⟩ | ⟨-, hconfigured, hl⟩ | hspares)
  · rw [Scene.raises, hc, hraised] at hr
    cases hr
  · exact hl (hlog hconfigured)
  · obtain ⟨failure, hp, hrefreshed⟩ := @refreshed_failed s.circumstances { data := connector }
      (.own (.other typeName)) ⟨rfl, rfl⟩ rfl hraised
    have hverdict := (@attempt_verdict s m connector row).resolve_left fun hn => hn.1 hattempts
    have hb := @body_locked s connector row hlocks
    rw [hrefreshed] at hb
    have hv := hverdict.2
    rw [verdict_failed hc hb] at hv
    have hstatus := hspares.status
    unfold Scene.first at hstatus
    rw [hv] at hstatus
    simp only [hcommits, if_true, Workers.suspension, failureOf, hp, Option.map_some,
      Option.elim_some, hactive] at hstatus
    cases hstatus

/-- An attempt destroys no credentials without a cause exactly when its refresh does not fail
before a token is requested. -/
theorem destroyed_for_cause_iff (s : Scene) (m : Message) (connector : StripeInstallation)
    (row : Outbox) : s.ForCause m connector row ↔ ¬ s.Unprovoked m connector row := by
  constructor
  · intro h hn
    exact not_forCause hn h
  · intro h
    cases hcommits : s.commits with
    | false => exact Or.inr (Or.inr (spares_of_lost hcommits))
    | true =>
      rcases @attempt_verdict s m connector row with ⟨-, hearly⟩ | ⟨hattempts, hverdict⟩
      · exact Or.inr (Or.inr (spares_of_early hearly))
      · refine forCause hcommits hverdict fun hlocks hactive hrefresh => ?_
        exact h ⟨hattempts, hlocks, hactive, hcommits, hrefresh⟩

/-- A connector whose access token is good for half an hour. -/
def connected : StripeInstallation where
  id := "connector"
  organizationId := "organization"
  mode := "live"
  accountId := "acct_1"
  credentialCiphertext := .obj [("version", .str "1"), ("provider", .str "kms")]
  tokenExpiresAt := some (minutes 30)

def receiptRow : Outbox where
  id := "work"
  organizationId := "organization"
  taskType := .stripeReceipt
  resourceId := "receipt"
  availableAt := 0

/-- The key service refuses to decrypt. -/
def keyServiceDown : Scene where
  now := 0
  circumstances :=
    { vault := { encryptSecret _ _ _ _ := .error "ClientError"
                 decryptSecret _ _ _ _ := .error "ClientError" }
      now := 0
      answer := .httpError
      savedAt := 0 }
  work := { outcome := .ok (), nextApiAt := none, lastErrorCode := "" }

/-- One failure to decrypt a token that has not expired suspends the connector, erases its
credentials and gives up the work, although Stripe was not reached. -/
theorem key_service_outage_erases :
    keyServiceDown.first (message receiptRow) connected receiptRow =
        (some (.connector "OAUTH_PERSISTENCE_UNCERTAIN" true),
          connected.suspend "OAUTH_PERSISTENCE_UNCERTAIN") ∧
      (∀ l : Lookups, (recorded (.connector "OAUTH_PERSISTENCE_UNCERTAIN" true) l
        (connected.suspend "OAUTH_PERSISTENCE_UNCERTAIN") receiptRow).2.status = .dead) ∧
      ¬ keyServiceDown.ForCause (message receiptRow) connected receiptRow := by
  refine ⟨rfl, fun l => rfl, not_forCause ⟨⟨rfl, rfl, rfl, rfl, ?_, ?_, le_rfl, Or.inl rfl⟩, rfl, rfl,
    rfl, trivial⟩⟩
  · decide
  · decide

end LedgerGuard.Workers.Credentials
