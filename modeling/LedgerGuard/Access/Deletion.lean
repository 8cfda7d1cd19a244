import LedgerGuard.Access.Intake
import LedgerGuard.Lib.Transition

/-! # Deletion stops intake

After the deletion of an organization every request is refused and the queue drops
its work, except the notice of the deletion and its deliveries. Only a failure of
earlier work that is recorded late still touches the tables of intake: it marks
rows, and creates none.
-/

namespace LedgerGuard.Access.Deletion

open Raising Transition LedgerGuard.Workers

/-- The connector of a work that reads Stripe, by its receipt, its scan or itself. -/
def workConnector {ω : Type} (a : Intake ω) (row : Outbox) : Option String :=
  match row.taskType with
  | .stripePoll | .stripeRepair => some row.resourceId
  | .stripeReceipt => (a.receipts.find? (·.id = row.resourceId)).map (·.connectorId)
  | .stripeScanPage => (a.scans.find? (·.id = row.resourceId)).map (·.connectorId)
  | _ => none

section Marks

variable {α ω : Type} {p q : α → Prop} {mark : α → α} {xs ys zs : List α}

def OnlyMarked (p : α → Prop) (mark : α → α) (xs ys : List α) : Prop :=
  List.Forall₂ (fun x y => y = x ∨ (p x ∧ y = mark x)) xs ys

theorem OnlyMarked.refl (p : α → Prop) (mark : α → α) (xs : List α) : OnlyMarked p mark xs xs :=
  List.forall₂_same.mpr fun _ _ => Or.inl rfl

theorem OnlyMarked.mono (hpq : ∀ x, p x → q x) (h : OnlyMarked p mark xs ys) :
    OnlyMarked q mark xs ys :=
  h.imp fun x _ hxy => hxy.imp_right fun hm => ⟨hpq x hm.1, hm.2⟩

theorem OnlyMarked.trans (hmark : ∀ x, mark (mark x) = mark x) (h : OnlyMarked p mark xs ys)
    (h' : OnlyMarked p mark ys zs) : OnlyMarked p mark xs zs := by
  induction h generalizing zs with
  | nil => exact h'
  | cons hxy _ ih =>
    cases h' with
    | cons hyz h' =>
      refine List.Forall₂.cons ?_ (ih h')
      rcases hxy with rfl | ⟨hp, rfl⟩
      · exact hyz
      · rcases hyz with rfl | ⟨-, rfl⟩
        · exact Or.inr ⟨hp, rfl⟩
        · exact Or.inr ⟨hp, hmark _⟩

theorem onlyMarked_markWhere (f : α → Bool) (hf : ∀ x, f x = true → p x) :
    OnlyMarked p mark xs (markWhere f mark xs) := by
  induction xs with
  | nil => exact List.Forall₂.nil
  | cons x xs ih =>
    refine List.Forall₂.cons ?_ ih
    dsimp only
    split
    case isTrue hx => exact Or.inr ⟨hf x hx, rfl⟩
    case isFalse => exact Or.inl rfl

theorem OnlyMarked.find {f : α → Bool} {g : α → String} (h : OnlyMarked p mark xs ys)
    (hf : ∀ x, f (mark x) = f x) (hg : ∀ x, g (mark x) = g x) :
    (ys.find? f).map g = (xs.find? f).map g := by
  induction h with
  | nil => rfl
  | @cons x y xs ys hxy _ ih =>
    have hfy : f y = f x := by
      rcases hxy with rfl | ⟨-, rfl⟩
      · rfl
      · exact hf x
    have hgy : g y = g x := by
      rcases hxy with rfl | ⟨-, rfl⟩
      · rfl
      · exact hg x
    cases hx : f x with
    | true => simp [hfy, hx, hgy]
    | false => simp [hfy, hx, ih]

/-- No row of intake is new or gone. The failures of the works may have failed their receipts,
their pending scans and the pending scans of their connectors, and have made the cursors of their
connectors incomplete. -/
structure Marked (works : List Outbox) (a b : Intake ω) : Prop where
  receipts : OnlyMarked (fun x : IntakeReceipt => ∃ row ∈ works,
      row.taskType = .stripeReceipt ∧ x.id = row.resourceId) IntakeReceipt.failed a.receipts b.receipts
  scans : OnlyMarked (fun x : IntakeScan => x.status = "pending" ∧ ∃ row ∈ works,
      (row.taskType = .stripeScanPage ∧ x.id = row.resourceId) ∨
        workConnector a row = some x.connectorId) IntakeScan.failed a.scans b.scans
  cursors : OnlyMarked (fun x : IntakeCursor => ∃ row ∈ works,
      workConnector a row = some x.connectorId) IntakeCursor.incomplete a.cursors b.cursors
  evidence : b.evidence = a.evidence

theorem Marked.refl (works : List Outbox) (a : Intake ω) : Marked works a a :=
  ⟨OnlyMarked.refl _ _ _, OnlyMarked.refl _ _ _, OnlyMarked.refl _ _ _, rfl⟩

theorem Marked.workConnector {works : List Outbox} {a b : Intake ω} (h : Marked works a b)
    (row : Outbox) : Deletion.workConnector b row = Deletion.workConnector a row := by
  unfold Deletion.workConnector
  cases row.taskType
  case stripeReceipt => exact h.receipts.find (fun _ => rfl) fun _ => rfl
  case stripeScanPage => exact h.scans.find (fun _ => rfl) fun _ => rfl
  all_goals rfl

theorem Marked.mono {works works' : List Outbox} {a b : Intake ω} (h : Marked works a b)
    (hsub : ∀ row ∈ works, row ∈ works') : Marked works' a b where
  receipts := h.receipts.mono fun _ ⟨row, hrow, hx⟩ => ⟨row, hsub row hrow, hx⟩
  scans := h.scans.mono fun _ ⟨hp, row, hrow, hx⟩ => ⟨hp, row, hsub row hrow, hx⟩
  cursors := h.cursors.mono fun _ ⟨row, hrow, hx⟩ => ⟨row, hsub row hrow, hx⟩
  evidence := h.evidence

theorem Marked.trans {works : List Outbox} {a b c : Intake ω} (h : Marked works a b)
    (h' : Marked works b c) : Marked works a c := by
  have hconnector := h.workConnector
  refine ⟨h.receipts.trans (fun _ => rfl) h'.receipts, h.scans.trans (fun _ => rfl) ?_,
    h.cursors.trans (fun _ => rfl) ?_, h'.evidence.trans h.evidence⟩
  · simpa only [hconnector] using h'.scans
  · simpa only [hconnector] using h'.cursors

end Marks

inductive Event
  | request
  | refused
  | dispatched
  | attempted (row : Outbox) (verdict : Verdict)
  | recorded (row : Outbox) (failure : WorkFailure)

/-- The work whose failure is also recorded in the tables of intake. -/
def readsStripe : TaskType → Bool
  | .stripeReceipt | .stripePoll | .stripeRepair | .stripeScanPage => true
  | _ => false

/-- A failure of such work is recorded. -/
def Event.marks : Event → Bool
  | .recorded row _ => readsStripe row.taskType
  | _ => false

/-- The works whose failures are recorded. -/
def recordedWorks (events : List Event) : List Outbox :=
  events.filterMap fun e =>
    match e with
    | .recorded row _ => some row
    | _ => none

/-- Transactions that start one after another; one that raises is rolled back. -/
inductive Step {ω τ : Type} (b : Bodies ω τ) (org : String) : World ω τ → Event → World ω τ → Prop
  | claim {w w'} (r : ClaimRequest) (h : claim b org r w = .ok w') : Step b org w .request w'
  | signed {w w'} (r : SignedRequest) (h : signedPlugin b org r w = .ok w') :
      Step b org w .request w'
  | webhook {w w'} (r : WebhookRequest) (h : stripeWebhook b org r w = .ok w') :
      Step b org w .request w'
  | view {w w' answer} (r : Request) (horg : r.organization w.tables = .ok org)
      (h : scopedView b r w = .ok (answer, w')) : Step b org w .request w'
  | refused {w} : Step b org w .refused w
  | dispatched {w row'} (now : Instant) (row : Outbox) (hrow : row ∈ w.rows.outbox)
      (h : dispatch now row = some row') :
      Step b org w .dispatched (w.withRows (setRow row' w.rows))
  | attempted {w} (o : Turn) (m : Message) (row : Outbox) (hrow : row ∈ w.rows.outbox)
      (hm : row.id = m.messageId) :
      Step b org w (.attempted row (attemptWork b org o m row w).1)
        (attemptWork b org o m row w).2
  /-- The attempt that has failed may have begun before the deletion. -/
  | recorded {w} (newId : String → String) (now : Instant) (jitter : Fin 30)
      (failure : WorkFailure) (row : Outbox) (hrow : row ∈ w.rows.outbox) :
      Step b org w (.recorded row failure)
        (w.withRows (recordWork org newId now jitter failure row w.rows))

variable {ω τ : Type} {b : Bodies ω τ} {org : String} {w w' : World ω τ} {rows rows' : Rows ω τ}
  {row : Outbox} {o : Turn} {c : Connector}

def Connector.Closed (c : Connector) : Prop :=
  c.status ≠ .active ∧ c.credentialCiphertext = .obj [] ∧ c.webhookCiphertext = .obj []

/-- The organization is not active, and neither is any connector. -/
structure Closed (org : String) (w : World ω τ) : Prop where
  inactive : isActive org w.tables = false
  connectors : ∀ c ∈ w.rows.connectors, c.Closed

@[simp] theorem enqueue_intake {id resource : String} {task : TaskType} {now : Instant} :
    (enqueue id org task resource now rows).intake = rows.intake := by
  unfold enqueue
  split <;> rfl

@[simp] theorem enqueue_connectors {id resource : String} {task : TaskType} {now : Instant} :
    (enqueue id org task resource now rows).connectors = rows.connectors := by
  unfold enqueue
  split <;> rfl

theorem closed_of_delete {confirmName : Option String} {auditId : String} {ctx : TenantContext}
    {r : Request} {t : Tables (Rows ω τ)} {answer : JsonResponse} {w₀ : World ω τ}
    (h : organizationDelete confirmName auditId ctx r t = .ok (answer, w₀.tables)) :
    Closed ctx.organizationId w₀ := by
  obtain ⟨_, -, h⟩ := bind_eq_ok.mp h
  obtain ⟨_, -, h⟩ := bind_eq_ok.mp h
  split at h
  · cases h
  have htables := (Prod.mk.inj (Except.ok.inj h)).2
  constructor
  · rw [← htables, isActive, List.any_eq_false]
    intro x hx
    obtain ⟨y, -, rfl⟩ := List.mem_map.mp hx
    by_cases hy : y.id = ctx.organizationId
    · simp [hy]
    · simp [hy]
  · rw [World.rows, ← htables, deleted, enqueue_connectors]
    intro c hc
    obtain ⟨x, -, rfl⟩ := List.mem_map.mp hc
    exact ⟨nofun, rfl, rfl⟩

theorem checkActive_closed (h : Closed org w) :
    checkActive org c w = .error (.refused "CONNECTOR_INACTIVE" 403) := by
  rw [checkActive, if_pos (Or.inr h.inactive)]

theorem signedPlugin_closed (h : Closed org w) (r : SignedRequest) :
    ∃ e, signedPlugin b org r w = .error e := by
  unfold signedPlugin
  split
  · exact ⟨_, rfl⟩
  · rw [checkActive_closed h]
    exact ⟨_, rfl⟩

theorem server_signedPlugin_inactive {sha256 : String → String}
    {verify : ℕ → String → String → Bool}
    {decode : String → Except Connectors.Raised Connectors.PluginEnvelope} {s : Connectors.Server}
    (h : s.organizationActive = false) (r : Connectors.PluginRequest) (now written : Instant) :
    (s.signedPlugin sha256 verify decode r now written).2 = s := by
  have hactive : s.active = .error (.problem "CONNECTOR_INACTIVE" 403) := by
    rw [Connectors.Server.active, if_neg (by simp [h])]
  unfold Connectors.Server.signedPlugin
  split
  · rfl
  case h_2 e key ha =>
    exfalso
    obtain ⟨_, -, ha⟩ := bind_eq_ok.mp ha
    obtain ⟨_, -, ha⟩ := bind_eq_ok.mp ha
    split at ha
    · cases ha
    split at ha
    · cases ha
    obtain ⟨_, hok, -⟩ := bind_eq_ok.mp ha
    rw [hactive] at hok
    cases hok

theorem stripeWebhook_closed (h : Closed org w) (r : WebhookRequest) :
    ∃ e, stripeWebhook b org r w = .error e := by
  unfold stripeWebhook
  split
  · exact ⟨_, rfl⟩
  · rw [checkActive_closed h]
    exact ⟨_, rfl⟩

theorem claimedBefore_closed (h : ∀ c ∈ rows.connectors, c.Closed) (r : ClaimRequest)
    (pairing : IssuedCode) : claimedBefore r pairing rows = false := by
  unfold claimedBefore
  split
  · rfl
  · split
    · rfl
    case h_2 c hc =>
      have hstatus := (h c (List.mem_of_find?_eq_some hc)).1
      simp [hstatus]

theorem claimPairing_closed (h : Closed org w) (r : ClaimRequest) (pairing : IssuedCode) :
    ∃ e, claimPairing b org r pairing w = .error e := by
  unfold claimPairing
  rw [claimedBefore_closed h.connectors, if_pos h.inactive]
  split
  · exact ⟨_, rfl⟩
  · exact ⟨_, rfl⟩

theorem claim_closed (h : Closed org w) (r : ClaimRequest) : ∃ e, claim b org r w = .error e := by
  cases hc : claim b org r w with
  | error e => exact ⟨e, rfl⟩
  | ok w' =>
    exfalso
    unfold claim at hc
    split at hc
    · cases hc
    case h_2 pairing _ =>
      split at hc
      · cases hc
      obtain ⟨other, -, hc⟩ := bind_eq_ok.mp hc
      obtain ⟨_, -, hc⟩ := bind_eq_ok.mp hc
      have hother : Closed org (w.withRows { w.rows with other }) := ⟨h.inactive, h.connectors⟩
      obtain ⟨e, he⟩ := @claimPairing_closed _ _ b org _ hother r pairing
      rw [he] at hc
      cases hc

theorem scopedView_closed (h : Closed org w) {r : Request}
    (horg : r.organization w.tables = .ok org) : ∃ e, scopedView b r w = .error e := by
  cases hv : scopedView b r w with
  | error e => exact ⟨e, rfl⟩
  | ok a =>
    exfalso
    obtain ⟨ctx, hctx, -⟩ := bind_eq_ok.mp hv
    unfold admitRequest at hctx
    obtain ⟨user, -, hctx⟩ := bind_eq_ok.mp hctx
    obtain ⟨org', horg', hctx⟩ := bind_eq_ok.mp hctx
    obtain rfl := Except.ok.inj (horg.symm.trans horg')
    obtain ⟨role, -, hctx⟩ := bind_eq_ok.mp hctx
    have hinactive := h.inactive
    unfold isActive at hinactive
    rw [if_pos (by rw [hinactive]; exact Bool.false_ne_true)] at hctx
    cases hctx

/-- The notice of the deletion, or one of its deliveries. -/
def IsNotice (row : Outbox) (rows : Rows ω τ) : Prop :=
  (row.taskType = .securityNotify ∧ isDeletionNotice row rows = true) ∨
    (row.taskType = .deliverEmail ∧ isDeletionDelivery row rows = true)

def Rows.Same (a b : Rows ω τ) : Prop := b.intake = a.intake ∧ b.connectors = a.connectors

theorem deliverTo_same {event : AuditLog} {route : String} :
    rows.Same (deliverTo org o event rows route) := by
  unfold deliverTo
  split
  · exact ⟨enqueue_intake, enqueue_connectors⟩
  · exact ⟨enqueue_intake, enqueue_connectors⟩

theorem foldl_deliverTo_same {event : AuditLog} {routes : List String} :
    rows.Same (routes.foldl (deliverTo org o event) rows) := by
  induction routes generalizing rows with
  | nil => exact ⟨rfl, rfl⟩
  | cons route routes ih =>
    obtain ⟨hi, hc⟩ := @deliverTo_same _ _ org rows o event route
    obtain ⟨hi', hc'⟩ := @ih (deliverTo org o event rows route)
    exact ⟨hi'.trans hi, hc'.trans hc⟩

theorem security_same (h : security org o row rows = .ok rows') : rows.Same rows' := by
  unfold security at h
  split at h
  · cases h
  · split at h
    · obtain rfl := Except.ok.inj h
      exact ⟨rfl, rfl⟩
    · obtain rfl := Except.ok.inj h
      exact foldl_deliverTo_same

theorem deliver_same (h : deliver o row rows = .ok rows') : rows.Same rows' := by
  unfold deliver at h
  split at h
  · cases h
  · split at h
    · obtain rfl := Except.ok.inj h
      exact ⟨rfl, rfl⟩
    · obtain ⟨status, -, h⟩ := bind_eq_ok.mp h
      obtain rfl := Except.ok.inj h
      exact ⟨rfl, rfl⟩

/-- Only rows for other tables have changed. -/
structure Untouched (w w' : World ω τ) : Prop where
  evidence : w'.evidence = w.evidence
  connectors : w'.rows.connectors = w.rows.connectors
  organizations : w'.tables.organizations = w.tables.organizations

theorem untouched_withRows (h : w.rows.Same rows) : Untouched w (w.withRows rows) :=
  ⟨Prod.ext h.1 rfl, h.2, rfl⟩

theorem handle_notice (hrow : row.taskType = .securityNotify ∨ row.taskType = .deliverEmail)
    (h : handle b org o row w = .ok w') : Untouched w w' := by
  unfold handle at h
  rcases hrow with hrow | hrow
  · simp only [hrow] at h
    obtain ⟨rows, hrows, h⟩ := bind_eq_ok.mp h
    obtain rfl := Except.ok.inj h
    exact untouched_withRows (security_same hrows)
  · simp only [hrow] at h
    obtain ⟨rows, hrows, h⟩ := bind_eq_ok.mp h
    obtain rfl := Except.ok.inj h
    exact untouched_withRows (deliver_same hrows)

theorem credentialConnector_notice
    (hrow : row.taskType = .securityNotify ∨ row.taskType = .deliverEmail) :
    credentialConnector row rows = .ok none := by
  rcases hrow with hrow | hrow <;> simp [credentialConnector, hrow]

theorem refreshed_notice (hrow : row.taskType = .securityNotify ∨ row.taskType = .deliverEmail) :
    refreshed b row w = .ok w := by
  rw [refreshed, credentialConnector_notice hrow]

theorem afterAttempt_committed (hr : refreshed b row w = .ok w) :
    afterAttempt b org o row w .committed = (handle b org o row w).toOption.getD w := by
  simp only [afterAttempt, hr, bind, Except.bind]
  cases handle b org o row w <;> rfl

theorem afterAttempt_failed (hr : refreshed b row w = .ok w) {failure : WorkFailure} :
    afterAttempt b org o row w (.failed failure none) = w := by
  simp only [afterAttempt, hr, Option.elim]

theorem attempt_inactive {d : Conditions} {m : Message} (hd : d.active = false)
    (h : executes (attempt d m row).1 = true) :
    (row.taskType = .securityNotify ∧ d.deletionRequested = true) ∨
      (row.taskType = .deliverEmail ∧ d.deletionEmail = true) := by
  unfold attempt at h
  split at h
  · cases h
  split at h
  · cases h
  split at h
  · cases h
  split at h
  · cases h
  split at h
  · cases h
  split at h
  · cases h
  case isFalse hn =>
    rw [hd] at hn
    by_contra hno
    rw [not_or] at hno
    exact hn ⟨Bool.false_ne_true, hno.1, hno.2⟩

theorem attempt_suspended {d : Conditions} {m : Message} (hd : d.credentialConnector = .ok none)
    {failure : WorkFailure} {suspended : Option (String × String)}
    (h : (attempt d m row).1 = .failed failure suspended) : suspended = none := by
  have hnone : ∀ f : WorkFailure, suspension f none = none := by
    intro f
    unfold suspension
    split <;> rfl
  unfold attempt at h
  split at h
  · cases h
  split at h
  · cases h
  split at h
  · cases h
  split at h
  · cases h
  split at h
  · cases h
  split at h
  · cases h
  rw [hd] at h
  dsimp only at h
  split at h
  · rw [hnone] at h
    exact (Verdict.failed.inj h).2.symm
  · cases h

/-- An attempt after the deletion touches no table of intake, and comes to its work only for a
notice. -/
theorem attemptWork_closed (h : Closed org w) {m : Message} :
    Untouched w (attemptWork b org o m row w).2 ∧
      (executes (attemptWork b org o m row w).1 = true → IsNotice row w.rows) := by
  have hnotice : executes (attempt (conditions b org o row w) m row).1 = true →
      IsNotice row w.rows := attempt_inactive h.inactive
  refine ⟨?_, hnotice⟩
  have hafter : Untouched w
      (afterAttempt b org o row w (attempt (conditions b org o row w) m row).1) := by
    have hsame : Untouched w w := ⟨rfl, rfl, rfl⟩
    cases hv : (attempt (conditions b org o row w) m row).1 with
    | unknown => exact hsame
    | returned value => exact hsame
    | committed =>
      have hrow := (hnotice (by rw [hv]; rfl)).imp And.left And.left
      rw [afterAttempt_committed (refreshed_notice hrow)]
      cases hw : handle b org o row w with
      | ok w' => exact handle_notice hrow hw
      | error e => exact hsame
    | failed failure suspended =>
      have hrow := (hnotice (by rw [hv]; rfl)).imp And.left And.left
      obtain rfl := attempt_suspended (credentialConnector_notice hrow) hv
      rw [afterAttempt_failed (refreshed_notice hrow)]
      exact hsame
  exact ⟨hafter.evidence, hafter.connectors, hafter.organizations⟩

/-- A consequence for the tables of intake is one for the receipt or the scan of the work, or for
its connector. -/
def IsFor (row : Outbox) (connector : Option String) : Consequence → Prop
  | .receiptFailed receipt => row.taskType = .stripeReceipt ∧ receipt = row.resourceId
  | .scanFailed scan => row.taskType = .stripeScanPage ∧ scan = row.resourceId
  | .coverageIncomplete id | .scansFailed id => connector = some id
  | _ => True

theorem consequences_isFor {failure : WorkFailure} {l : Lookups} {x : Consequence}
    (hx : x ∈ consequences failure l row) : IsFor row (failureConnector l row) x := by
  unfold consequences at hx
  rcases List.mem_append.mp hx with hx | hx
  · split at hx
    · split at hx
      · obtain rfl := List.mem_singleton.mp hx
        trivial
      case h_2 htask =>
        obtain rfl := List.mem_singleton.mp hx
        exact ⟨htask, rfl⟩
      case h_3 htask =>
        obtain rfl := List.mem_singleton.mp hx
        exact ⟨htask, rfl⟩
      · cases hx
    · cases hx
  · cases hc : failureConnector l row with
    | none =>
      rw [hc] at hx
      cases hx
    | some connector =>
      rw [hc] at hx
      rcases List.mem_append.mp hx with hx | hx
      · split at hx
        · obtain rfl := List.mem_singleton.mp hx
          rfl
        · cases hx
      · split at hx
        · simp only [List.mem_cons, List.not_mem_nil, or_false] at hx
          rcases hx with rfl | rfl | rfl
          · trivial
          · rfl
          · trivial
        · cases hx

theorem recordFailure_isFor {failure : WorkFailure} {l : Lookups} {x : Consequence}
    (hx : x ∈ (recordFailure failure l row).2) : IsFor row (failureConnector l row) x :=
  @consequences_isFor (recordFailure failure l row).1 failure l x hx

theorem failureConnector_lookups {now : Instant} {jitter : Fin 30} :
    failureConnector (lookups now jitter row rows) row = workConnector rows.intake row := by
  unfold failureConnector workConnector lookups
  cases row.taskType <;> rfl

theorem applyConsequence_marked {newId : String → String} {now : Instant} {x : Consequence}
    (hx : IsFor row (workConnector rows.intake row) x) :
    Marked [row] rows.intake (applyConsequence org newId now rows x).intake := by
  have hrefl := Marked.refl [row] rows.intake
  cases x with
  | reportFailed report => exact hrefl
  | receiptFailed receipt =>
    refine { hrefl with receipts := onlyMarked_markWhere _ fun y hy => ?_ }
    obtain ⟨htask, rfl⟩ := hx
    exact ⟨row, List.mem_singleton_self _, htask, of_decide_eq_true hy⟩
  | scanFailed scan =>
    refine { hrefl with scans := onlyMarked_markWhere _ fun y hy => ?_ }
    obtain ⟨htask, rfl⟩ := hx
    simp only [Bool.and_eq_true, decide_eq_true_eq] at hy
    exact ⟨hy.2, row, List.mem_singleton_self _, Or.inl ⟨htask, hy.1⟩⟩
  | coverageIncomplete connector =>
    refine { hrefl with cursors := onlyMarked_markWhere _ fun y hy => ?_ }
    obtain rfl := of_decide_eq_true hy
    exact ⟨row, List.mem_singleton_self _, hx⟩
  | connectorSuspended connector code => exact hrefl
  | scansFailed connector =>
    refine { hrefl with scans := onlyMarked_markWhere _ fun y hy => ?_ }
    simp only [Bool.and_eq_true, decide_eq_true_eq] at hy
    obtain ⟨rfl, hp⟩ := hy
    exact ⟨hp, row, List.mem_singleton_self _, Or.inr hx⟩
  | suspensionAudited connector code =>
    change Marked _ _ (auditSecurity org _ now rows).intake
    rw [auditSecurity, enqueue_intake]
    exact hrefl

theorem applyConsequence_closed {newId : String → String} {now : Instant} {x : Consequence}
    (h : ∀ c ∈ rows.connectors, c.Closed) :
    ∀ c ∈ (applyConsequence org newId now rows x).connectors, c.Closed := by
  cases x with
  | connectorSuspended connector code =>
    intro c hc
    obtain ⟨y, hy, rfl⟩ := List.mem_map.mp hc
    split
    · exact ⟨nofun, rfl, (h y hy).2.2⟩
    · exact h y hy
  | suspensionAudited connector code =>
    change ∀ c ∈ (auditSecurity org _ now rows).connectors, _
    rw [auditSecurity, enqueue_connectors]
    exact h
  | _ => exact h

theorem foldl_consequences_marked {newId : String → String} {now : Instant}
    {xs : List Consequence} (h : ∀ x ∈ xs, IsFor row (workConnector rows.intake row) x) :
    Marked [row] rows.intake (xs.foldl (applyConsequence org newId now) rows).intake := by
  induction xs generalizing rows with
  | nil => exact Marked.refl _ _
  | cons x xs ih =>
    have hx := @applyConsequence_marked _ _ org rows row newId now x (h x List.mem_cons_self)
    refine hx.trans (ih fun y hy => ?_)
    rw [hx.workConnector]
    exact h y (List.mem_cons_of_mem _ hy)

theorem foldl_consequences_closed {newId : String → String} {now : Instant}
    {xs : List Consequence} (h : ∀ c ∈ rows.connectors, c.Closed) :
    ∀ c ∈ (xs.foldl (applyConsequence org newId now) rows).connectors, c.Closed := by
  induction xs generalizing rows with
  | nil => exact h
  | cons x xs ih => exact ih (applyConsequence_closed h)

theorem recordWork_closed {newId : String → String} {now : Instant} {jitter : Fin 30}
    {failure : WorkFailure} (h : ∀ c ∈ rows.connectors, c.Closed) :
    Marked [row] rows.intake (recordWork org newId now jitter failure row rows).intake ∧
      ∀ c ∈ (recordWork org newId now jitter failure row rows).connectors, c.Closed := by
  refine ⟨?_, foldl_consequences_closed h⟩
  apply @foldl_consequences_marked _ _ org (setRow _ rows) row
  intro x hx
  have hfor := recordFailure_isFor hx
  rwa [failureConnector_lookups] at hfor

theorem consequences_other {failure : WorkFailure} {l : Lookups}
    (h : readsStripe row.taskType = false) {x : Consequence} (hx : x ∈ consequences failure l row) :
    ∃ report, x = .reportFailed report := by
  unfold consequences failureConnector at hx
  cases htask : row.taskType <;> rw [htask] at h hx <;> try cases h
  case report =>
    rw [List.append_nil] at hx
    split at hx
    · exact ⟨_, List.mem_singleton.mp hx⟩
    · cases hx
  all_goals simp at hx

theorem foldl_reportFailed {newId : String → String} {now : Instant} {xs : List Consequence}
    (h : ∀ x ∈ xs, ∃ report, x = .reportFailed report) :
    (xs.foldl (applyConsequence org newId now) rows).intake = rows.intake := by
  induction xs generalizing rows with
  | nil => rfl
  | cons x xs ih =>
    obtain ⟨report, rfl⟩ := h x List.mem_cons_self
    exact ih fun y hy => h y (List.mem_cons_of_mem _ hy)

theorem recordWork_other {newId : String → String} {now : Instant} {jitter : Fin 30}
    {failure : WorkFailure} (h : readsStripe row.taskType = false) :
    (recordWork org newId now jitter failure row rows).intake = rows.intake := by
  unfold recordWork recordFailure
  dsimp only
  rw [foldl_reportFailed fun x hx => consequences_other (by exact h) hx]
  rfl

theorem Untouched.closed (h : Untouched w w') (hw : Closed org w) : Closed org w' := by
  constructor
  · rw [isActive, h.organizations]
    exact hw.inactive
  · rw [h.connectors]
    exact hw.connectors

/-- A transaction that begins after the deletion is refused, is a worker's that touches nothing,
or records a failure. -/
theorem step_closed {event : Event} (hw : Closed org w) (h : Step b org w event w') :
    Closed org w' ∧ Marked (recordedWorks [event]) w.rows.intake w'.rows.intake ∧
      w'.tables.findings = w.tables.findings ∧
      (event.marks = false → w'.evidence = w.evidence) := by
  have hsame : Untouched w w' → Closed org w' ∧
      Marked (recordedWorks [event]) w.rows.intake w'.rows.intake ∧
      w'.tables.findings = w.tables.findings ∧
        (event.marks = false → w'.evidence = w.evidence) := by
    intro hu
    obtain ⟨hi, hf⟩ := Prod.mk.inj hu.evidence
    refine ⟨hu.closed hw, ?_, hf, fun _ => hu.evidence⟩
    rw [hi]
    exact Marked.refl _ _
  cases h with
  | claim r h =>
    obtain ⟨e, he⟩ := @claim_closed _ _ b org w hw r
    rw [he] at h
    cases h
  | signed r h =>
    obtain ⟨e, he⟩ := @signedPlugin_closed _ _ b org w hw r
    rw [he] at h
    cases h
  | webhook r h =>
    obtain ⟨e, he⟩ := @stripeWebhook_closed _ _ b org w hw r
    rw [he] at h
    cases h
  | view r horg h =>
    obtain ⟨e, he⟩ := @scopedView_closed _ _ b org w hw r horg
    rw [he] at h
    cases h
  | refused => exact hsame ⟨rfl, rfl, rfl⟩
  | dispatched now row hrow h => exact hsame ⟨rfl, rfl, rfl⟩
  | attempted o m row hrow hm => exact hsame (attemptWork_closed hw).1
  | recorded newId now jitter failure row hrow =>
    obtain ⟨hm, hc⟩ :=
      @recordWork_closed _ _ org _ row newId now jitter failure hw.connectors
    exact ⟨⟨hw.inactive, hc⟩, hm, rfl, fun h => Prod.ext (recordWork_other h) rfl⟩

theorem run_closed {w₀ w₁ : World ω τ} {events : List Event} (hw : Closed org w₀)
    (h : Run (Step b org) w₀ events w₁) :
    Closed org w₁ ∧ Marked (recordedWorks events) w₀.rows.intake w₁.rows.intake ∧
      w₁.tables.findings = w₀.tables.findings ∧
        ((∀ e ∈ events, e.marks = false) → w₁.evidence = w₀.evidence) := by
  induction h with
  | nil => exact ⟨hw, Marked.refl _ _, rfl, fun _ => rfl⟩
  | @snoc events w event w' _ hs ih =>
    obtain ⟨hclosed, hmarked, hfindings, hsame⟩ := ih
    obtain ⟨hclosed', hmarked', hfindings', hsame'⟩ := step_closed hclosed hs
    have hworks : recordedWorks (events ++ [event]) =
        recordedWorks events ++ recordedWorks [event] := List.filterMap_append
    refine ⟨hclosed', ?_, hfindings'.trans hfindings, fun hall => ?_⟩
    · rw [hworks]
      exact (hmarked.mono fun _ => List.mem_append_left _).trans
        (hmarked'.mono fun _ => List.mem_append_right _)
    · have hlast := hsame' (hall _ List.mem_concat_self)
      exact hlast.trans (hsame fun e he => hall e (List.mem_append_left _ he))

/-- After a deletion no row of intake is created, no credential is stored, and only the notice of
the deletion and its deliveries come to their work. The tables of intake stay as they are unless
a failure of earlier work is recorded, which fails the receipt or pending scans of the work and
makes the cursors of its connector incomplete. -/
theorem deletion_stops_intake {confirmName : Option String} {auditId : String}
    {ctx : TenantContext} {r : Request} {t : Tables (Rows ω τ)} {answer : JsonResponse}
    {w₀ w₁ : World ω τ} {events : List Event}
    (hdelete : organizationDelete confirmName auditId ctx r t = .ok (answer, w₀.tables))
    (hrun : Run (Step b ctx.organizationId) w₀ events w₁) :
    (Marked (recordedWorks events) w₀.rows.intake w₁.rows.intake ∧
      w₁.tables.findings = w₀.tables.findings) ∧
    ((∀ e ∈ events, e.marks = false) → w₁.evidence = w₀.evidence) ∧
    (∀ c ∈ w₁.rows.connectors,
      c.credentialCiphertext = .obj [] ∧ c.webhookCiphertext = .obj []) ∧
    ∀ before v row verdict v', Run (Step b ctx.organizationId) w₀ before v →
      Step b ctx.organizationId v (.attempted row verdict) v' → executes verdict = true →
      IsNotice row v.rows := by
  have hclosed : Closed ctx.organizationId w₀ := closed_of_delete hdelete
  obtain ⟨hw₁, hmarked, hfindings, hsame⟩ := run_closed hclosed hrun
  refine ⟨⟨hmarked, hfindings⟩, hsame, fun c hc => (hw₁.connectors c hc).2, ?_⟩
  intro before v row verdict v' hbefore hstep hexec
  cases hstep with
  | attempted o m row hrow hm => exact (attemptWork_closed (run_closed hclosed hbefore).1).2 hexec

namespace Shop

open LedgerGuard.Access.Fixture (admin)

def organizationId : String := "01890a5d-ac96-774b-bcce-b302099a8057"

def stripe : Connector :=
  { id := "01890a5d-ac96-774b-bcce-b302099a8061", kind := .stripe, destinationId := some "we_1"
    credentialCiphertext := .obj [("ciphertext", .str "c2VhbGVk")] }

/-- The work on a webhook. -/
def webhookWork : Outbox :=
  Workers.enqueue "01890a5d-ac96-774b-bcce-b302099a8062" organizationId .stripeReceipt
    "01890a5d-ac96-774b-bcce-b302099a8063" 0

def received : IntakeReceipt where
  id := "01890a5d-ac96-774b-bcce-b302099a8063"
  connectorId := stripe.id
  externalId := "evt_1"
  kind := "event"
  bodyHash := ""
  status := "pending"

def before : Tables (Rows Unit Unit) where
  memberships := [{ organizationId, userId := 7, role := .owner }]
  supportGrants := []
  organizations := [{ id := organizationId }]
  resourceLocators := []
  findings := []
  rest :=
    { name := "Shop"
      connectors := [stripe]
      publicKeys := []
      pairings := []
      intake :=
        { receipts := [received], scans := [], cursors := [⟨stripe.id, "stripe_payments", true⟩]
          evidence := () }
      outbox := [webhookWork]
      auditLog := []
      deliveries := []
      reports := []
      other := () }

def owner : TenantContext := ⟨organizationId, admin, .member .owner⟩

def confirmation : Request where
  mutation := .organizationDelete
  user := some admin
  organizationId := some organizationId
  path := "/api/v1/organizations/01890a5d-ac96-774b-bcce-b302099a8057/delete"
  body := "\x7b\"confirm_name\":\"Shop\"\x7d"
  clock := 0
  now := 0
  savedAt := 0
  recordId := "01890a5d-ac96-774b-bcce-b302099a8064"

def auditId : String := "01890a5d-ac96-774b-bcce-b302099a8065"

def after : World Unit Unit := ⟨deleted organizationId auditId 0 before, []⟩

/-- No request and no work gets further than its checks here. -/
def bodies : Bodies Unit Unit where
  quota := .ok
  pair _ w := .ok w
  signed _ _ w := .ok w
  webhook _ _ w := .ok w
  view _ _ w := .ok (⟨[], 200⟩, w)
  refresh _ w := .ok w
  work _ w := .ok w

theorem deletion_accepted : organizationDelete (some "Shop") auditId owner confirmation before =
    .ok (⟨[("status", .str "deletion_pending")], 202⟩, after.tables) := by
  have hclock : ¬ minutes 10 < confirmation.clock - confirmation.authenticatedAt := by decide
  rw [organizationDelete, requireRecentAuth, if_neg hclock]
  rfl

def gone : WorkFailure := .connector "STRIPE_UNAUTHORIZED" true

theorem webhookWork_mem : webhookWork ∈ after.rows.outbox := by
  unfold after World.rows deleted auditSecurity enqueue
  dsimp only
  split <;> split <;> simp [before]

/-- The failure of an attempt that began before the deletion is recorded. -/
def failed : World Unit Unit :=
  after.withRows (recordWork organizationId id (minutes 1) (Fin.last 29) gone webhookWork after.rows)

theorem run_failed : Run (Step bodies organizationId) after [.recorded webhookWork gone] failed :=
  Run.nil.snoc (Step.recorded id (minutes 1) (Fin.last 29) gone webhookWork webhookWork_mem)

end Shop

open Shop

/-- The late failure of the work on a webhook fails its receipt and makes the cursor of its
connector incomplete. -/
theorem deletion_stops_intake_webhook :
    Marked [webhookWork] after.rows.intake failed.rows.intake ∧
      failed.rows.intake.receipts = [{ received with status := "failed" }] ∧
      failed.rows.intake.cursors = [⟨stripe.id, "stripe_payments", false⟩] ∧
      failed.tables.findings = after.tables.findings ∧
      ∀ c ∈ failed.rows.connectors, c.credentialCiphertext = .obj [] := by
  obtain ⟨⟨hmarked, hfindings⟩, -, hconnectors, -⟩ :=
    deletion_stops_intake deletion_accepted run_failed
  exact ⟨hmarked, by decide, by decide, hfindings, fun c hc => (hconnectors c hc).1⟩

/-- The failure of an attempt that began before the deletion is recorded after it. -/
theorem recorded_failure_marks_receipt :
    ∃ w₁, organizationDelete (some "Shop") auditId owner confirmation before =
        .ok (⟨[("status", .str "deletion_pending")], 202⟩, after.tables) ∧
      Run (Step bodies organizationId) after [.recorded webhookWork gone] w₁ ∧
      w₁.rows.intake.receipts = [{ received with status := "failed" }] ∧
      w₁.evidence ≠ after.evidence := by
  refine ⟨_, deletion_accepted,
    Run.nil.snoc (Step.recorded id (minutes 1) (Fin.last 29) gone webhookWork webhookWork_mem), ?_, ?_⟩
  · decide
  · intro h
    have hreceipts := congrArg (fun x => x.1.receipts) h
    revert hreceipts
    decide

end LedgerGuard.Access.Deletion
