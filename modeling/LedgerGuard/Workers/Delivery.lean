import LedgerGuard.Workers.Runtime
import LedgerGuard.Lib.Transition

/-! # Deliveries of one work reference

One outbox row under any number of deliveries. A delivery whose attempt failed
waits, with its failure in hand, for its second transaction; transactions of
other deliveries, a dispatch, a replay or a crash can come before that. Work
stays terminal and its effects commit at most once, as long as no delivery
records its failure on work that has ended meanwhile.
-/

namespace LedgerGuard.Workers

open Transition

/-- The row, the failures that deliveries have yet to record, and how often the effects of the
work have committed since the row was created or last replayed. -/
structure Deliveries where
  row : Outbox
  failed : List WorkFailure
  effects : ℕ
  deriving DecidableEq

def created (row : Outbox) : Deliveries := ⟨row, [], 0⟩

inductive Transact
  | dispatch (now : Instant)
  | attempt (w : Conditions) (m : Message)
  | recordFailure (failure : WorkFailure) (l : Lookups)
  | crash (failure : WorkFailure)
  | replay (now : Instant) (reason : String)

def Transact.isReplay : Transact → Bool
  | .replay _ _ => true
  | _ => false

def Transact.apply (s : Deliveries) : Transact → Option Deliveries
  | .dispatch now => (Workers.dispatch now s.row).map fun row => { s with row }
  | .attempt w m =>
    let (verdict, row) := Workers.attempt w m s.row
    match verdict with
    | .committed => some { s with row, effects := s.effects + 1 }
    | .failed failure _ => some { s with row, failed := failure :: s.failed }
    | .unknown | .returned _ => some { s with row }
  | .recordFailure failure l =>
    if failure ∈ s.failed then
      some { s with
        row := (Workers.recordFailure failure l s.row).1
        failed := s.failed.erase failure }
    else none
  | .crash failure =>
    if failure ∈ s.failed then some { s with failed := s.failed.erase failure } else none
  | .replay now reason =>
    (replayWork now reason s.row).map fun row => { s with row, effects := 0 }

def deliveryStep (s : Deliveries) (a : Transact) (s' : Deliveries) : Prop := a.apply s = some s'

instance {s : Deliveries} {a : Transact} {s' : Deliveries} : Decidable (deliveryStep s a s') :=
  inferInstanceAs (Decidable (_ = _))

variable {s s' : Deliveries} {a : Transact} {as bs : List Transact}

/-- A step is one of: no change to the row, work put on the queue, work finished, a failure
recorded, a replay. -/
theorem deliveryStep_cases (h : deliveryStep s a s') :
    (s'.row = s.row ∧ s'.effects = s.effects ∧ ∀ f l, a ≠ .recordFailure f l) ∨
    (s.row.Open ∧ s'.row.status = .queued ∧ s'.effects = s.effects ∧
      ∀ f l, a ≠ .recordFailure f l) ∨
    (s.row.Open ∧ s'.row.status = .done ∧ s'.effects ≤ s.effects + 1 ∧
      ∀ f l, a ≠ .recordFailure f l) ∨
    (∃ f l, a = .recordFailure f l ∧ s'.row = (recordFailure f l s.row).1 ∧
      s'.effects = s.effects) ∨
    (a.isReplay ∧ s.row.status = .dead ∧ s'.row.status = .pending ∧ s'.effects = 0) := by
  cases a with
  | dispatch now =>
    obtain ⟨row, hd, rfl⟩ := Option.map_eq_some_iff.mp h
    obtain ⟨ho, hq⟩ := dispatch_cases hd
    exact Or.inr (Or.inl ⟨ho, hq, rfl, nofun⟩)
  | attempt w m =>
    have hc := @attempt_cases w m s.row
    simp only [deliveryStep, Transact.apply] at h
    generalize attempt w m s.row = r at h hc
    obtain ⟨verdict, row⟩ := r
    rcases hc with ⟨hv, hr⟩ | ⟨ho, hd⟩
    · left
      cases verdict with
      | committed => exact absurd rfl hv
      | failed failure suspended => obtain rfl := Option.some.inj h; exact ⟨hr, rfl, nofun⟩
      | unknown => obtain rfl := Option.some.inj h; exact ⟨hr, rfl, nofun⟩
      | returned value => obtain rfl := Option.some.inj h; exact ⟨hr, rfl, nofun⟩
    · refine Or.inr (Or.inr (Or.inl ⟨ho, ?_⟩))
      cases verdict with
      | committed => obtain rfl := Option.some.inj h; exact ⟨hd, le_rfl, nofun⟩
      | failed failure suspended =>
        obtain rfl := Option.some.inj h
        exact ⟨hd, Nat.le_succ _, nofun⟩
      | unknown => obtain rfl := Option.some.inj h; exact ⟨hd, Nat.le_succ _, nofun⟩
      | returned value => obtain rfl := Option.some.inj h; exact ⟨hd, Nat.le_succ _, nofun⟩
  | recordFailure f l =>
    simp only [deliveryStep, Transact.apply] at h
    split at h
    · obtain rfl := Option.some.inj h
      exact Or.inr (Or.inr (Or.inr (Or.inl ⟨f, l, rfl, rfl, rfl⟩)))
    · cases h
  | crash f =>
    simp only [deliveryStep, Transact.apply] at h
    split at h
    · obtain rfl := Option.some.inj h
      exact Or.inl ⟨rfl, rfl, nofun⟩
    · cases h
  | replay now reason =>
    obtain ⟨row, hr, rfl⟩ := Option.map_eq_some_iff.mp h
    obtain ⟨hd, hp⟩ := replayWork_cases hr
    exact Or.inr (Or.inr (Or.inr (Or.inr ⟨rfl, hd, hp, rfl⟩)))

/-- A failure is recorded on work that has not ended, or only confirms that it is dead. -/
def Recordable (s : Deliveries) : Transact → Prop
  | .recordFailure f _ => s.row.status ≠ .done ∧ (s.row.status = .dead → Exhausting f s.row)
  | _ => True

/-- The transaction keeps done work done, and dead work dead unless it is a replay. -/
def KeepsTerminal (s : Deliveries) (a : Transact) (s' : Deliveries) : Prop :=
  (s.row.status = .done → s'.row.status = .done) ∧
    (s.row.status = .dead → s'.row.status = .dead ∨ a.isReplay)

theorem keepsTerminal_iff (h : deliveryStep s a s') : KeepsTerminal s a s' ↔ Recordable s a := by
  rcases deliveryStep_cases h with ⟨hr, -, hn⟩ | ⟨ho, -, -, hn⟩ | ⟨ho, -, -, hn⟩ |
    ⟨f, l, rfl, hr, -⟩ | ⟨hp, hd, -⟩
  · refine iff_of_true ⟨fun hs => hr ▸ hs, fun hs => Or.inl (hr ▸ hs)⟩ ?_
    cases a <;> first | exact trivial | exact absurd rfl (hn _ _)
  · refine iff_of_true ⟨fun hs => absurd hs ho.1, fun hs => absurd hs ho.2⟩ ?_
    cases a <;> first | exact trivial | exact absurd rfl (hn _ _)
  · refine iff_of_true ⟨fun hs => absurd hs ho.1, fun hs => absurd hs ho.2⟩ ?_
    cases a <;> first | exact trivial | exact absurd rfl (hn _ _)
  · unfold KeepsTerminal Recordable
    rw [hr, recordFailure_status]
    constructor
    · rintro ⟨hdone, hdead⟩
      constructor
      · intro hs
        have hne := hdone hs
        split at hne <;> cases hne
      · intro hs
        by_contra hx
        rw [if_neg hx] at hdead
        rcases hdead hs with hd | hd <;> cases hd
    · rintro ⟨hdone, hdead⟩
      exact ⟨fun hs => absurd hs hdone, fun hs => Or.inl (if_pos (hdead hs))⟩
  · refine iff_of_true ⟨fun hs => ?_, fun _ => Or.inr hp⟩ ?_
    · rw [hd] at hs
      cases hs
    · cases a <;> first | exact trivial | cases hp

/-- Effects have committed at most once, and not at all while the work is not done. -/
def Once (s : Deliveries) : Prop :=
  s.effects ≤ 1 ∧ (s.row.status ≠ .done → s.effects = 0)

theorem once_step (h : Once s) (hg : Recordable s a) (hs : deliveryStep s a s') : Once s' := by
  unfold Once at h ⊢
  rcases deliveryStep_cases hs with ⟨hr, he, -⟩ | ⟨ho, -, he, -⟩ | ⟨ho, hd, he, -⟩ |
    ⟨f, l, rfl, -, he⟩ | ⟨-, -, -, he⟩
  · rw [hr, he]
    exact h
  · rw [he, h.2 ho.1]
    exact ⟨Nat.zero_le 1, fun _ => rfl⟩
  · have h0 := h.2 ho.1
    exact ⟨by omega, fun hn => absurd hd hn⟩
  · rw [he, h.2 hg.1]
    exact ⟨Nat.zero_le 1, fun _ => rfl⟩
  · rw [he]
    exact ⟨Nat.zero_le 1, fun _ => rfl⟩

theorem once_of_run (h : Run (Guarded deliveryStep Recordable) s as s') (h₀ : Once s) : Once s' :=
  h.invariant_state h₀ fun _ _ _ hi hs => once_step hi hs.1 hs.2

theorem done_of_run (h : Run (Guarded deliveryStep Recordable) s as s')
    (h₀ : s.row.status = .done) : s'.row.status = .done :=
  h.invariant_state (I := fun s => s.row.status = .done) h₀ fun _ _ _ hi hs =>
    ((keepsTerminal_iff hs.2).mpr hs.1).1 hi

theorem dead_of_run (h : Run (Guarded deliveryStep Recordable) s as s')
    (h₀ : s.row.status = .dead) (hn : ∀ a ∈ as, ¬ a.isReplay) : s'.row.status = .dead := by
  induction h with
  | nil => exact h₀
  | @snoc as s₁ a s₂ _ hs ih =>
    have hd := ih fun b hb => hn b (List.mem_append_left _ hb)
    rcases ((keepsTerminal_iff hs.2).mpr hs.1).2 hd with h | h
    · exact h
    · exact absurd h (hn a (by simp))

/-- From the creation of the row, while failures are recorded only on work that has not ended:
effects commit at most once, done work stays done, dead work stays dead until it is replayed. A
step that breaks this is the recording of a failure on work that has ended. -/
theorem work_stays_terminal {id org resource : String} {task : TaskType} {t : Instant}
    (h : Run (Guarded deliveryStep Recordable) (created (enqueue id org task resource t)) as s)
    (h' : Run (Guarded deliveryStep Recordable) s bs s') :
    s'.effects ≤ 1 ∧ (s.row.status = .done → s'.row.status = .done) ∧
      (s.row.status = .dead → (∀ b ∈ bs, ¬ b.isReplay) → s'.row.status = .dead) ∧
      ∀ a s'', deliveryStep s' a s'' → (KeepsTerminal s' a s'' ↔ Recordable s' a) :=
  have hc : Once (created (enqueue id org task resource t)) := ⟨Nat.zero_le 1, fun _ => rfl⟩
  ⟨(once_of_run h' (once_of_run h hc)).1, done_of_run h', dead_of_run h', fun _ _ =>
    keepsTerminal_iff⟩

instance : Decidable (Recordable s a) :=
  match a with
  | .recordFailure f _ =>
    inferInstanceAs (Decidable (s.row.status ≠ .done ∧ (s.row.status = .dead → Exhausting f s.row)))
  | .dispatch _ | .attempt _ _ | .crash _ | .replay _ _ => isTrue trivial

/-- One step of a run, refused where a failure is recorded on work that has ended. -/
def Transact.applyRecordable (s : Deliveries) (a : Transact) : Option Deliveries :=
  if Recordable s a then a.apply s else none

theorem guarded_of_applyRecordable (h : a.applyRecordable s = some s') :
    Guarded deliveryStep Recordable s a s' := by
  unfold Transact.applyRecordable at h
  split at h
  · exact ⟨‹_›, h⟩
  · cases h

def reconcileWork : Outbox := enqueue "work" "organization" .reconcileStore "store" 0

def receiptWork : Outbox := enqueue "work" "organization" .stripeReceipt "receipt" 0

def timedOut : WorkFailure := .other "OperationalError"

def unreachable : WorkFailure := .connector "STRIPE_NETWORK_FAILURE"

def revoked : WorkFailure := .connector "STRIPE_AUTHORIZATION_REVOKED" true

/-- An attempt of the store's reconciliation at some second. -/
def reconcileAt (second : ℤ) (task : Except WorkFailure Unit := .ok ()) : Transact :=
  .attempt { now := seconds second, task } (message reconcileWork)

/-- An attempt of the receipt at some second, with the connector's credential. -/
def receiptAt (second : ℤ) (task : Except WorkFailure Unit := .ok ()) : Transact :=
  .attempt { now := seconds second, credentialConnector := .ok (some "connector"), task }
    (message receiptWork)

/-- Recording a failure at some second. -/
def recordAt (second : ℤ) (failure : WorkFailure) : Transact :=
  .recordFailure failure { now := seconds second }

/-- A row after a number of recorded failures, due again at some second. -/
def after (row : Outbox) (status : Status) (attempts : ℕ) (due : ℤ) (code : String) : Outbox :=
  { row with status, attempts, availableAt := seconds due, lastErrorCode := code }

/-- A failed delivery is recorded and retried; the retry commits and is delivered once more. -/
theorem work_stays_terminal_retried : ∃ s s',
    Run (Guarded deliveryStep Recordable) (created reconcileWork)
      [.dispatch 0, reconcileAt 1 (.error timedOut), recordAt 2 timedOut, reconcileAt 30] s ∧
    Run (Guarded deliveryStep Recordable) s [reconcileAt 31] s' ∧
    s.row.status = .done ∧ s'.effects ≤ 1 ∧ s'.row.status = .done :=
  have h : Run (Guarded deliveryStep Recordable) (created reconcileWork)
      [.dispatch 0, reconcileAt 1 (.error timedOut), recordAt 2 timedOut, reconcileAt 30]
      ⟨after reconcileWork .done 1 4 "", [], 1⟩ :=
    Run.of_foldlM (f := Transact.applyRecordable) (fun _ _ _ => guarded_of_applyRecordable)
      (by decide +kernel)
  have h' : Run (Guarded deliveryStep Recordable) ⟨after reconcileWork .done 1 4 "", [], 1⟩
      [reconcileAt 31] ⟨after reconcileWork .done 1 4 "", [], 1⟩ :=
    Run.of_foldlM (f := Transact.applyRecordable) (fun _ _ _ => guarded_of_applyRecordable)
      (by decide +kernel)
  ⟨_, _, h, h', rfl, (work_stays_terminal h h').1, (work_stays_terminal h h').2.1 rfl⟩

/-- One delivery fails while another commits; the failure, recorded last, puts the done work back
and a third delivery commits again. In the same way a second failure revives dead work. -/
theorem race_reopens_work :
    (∃ s s' s'', Run deliveryStep (created reconcileWork)
        [.dispatch 0, reconcileAt 1 (.error timedOut), reconcileAt 1] s ∧ s.row.status = .done ∧
      deliveryStep s (recordAt 2 timedOut) s' ∧ s'.row.status = .pending ∧
      deliveryStep s' (reconcileAt 30) s'' ∧ s''.effects = 2) ∧
    ∃ s s', Run deliveryStep (created receiptWork)
        [.dispatch 0, receiptAt 1 (.error unreachable), receiptAt 1 (.error revoked),
          recordAt 2 revoked] s ∧ s.row.status = .dead ∧
      deliveryStep s (recordAt 2 unreachable) s' ∧ s'.row.status = .pending := by
  refine ⟨⟨⟨after reconcileWork .done 0 0 "", [timedOut], 1⟩,
    ⟨after reconcileWork .pending 1 4 timedOut.code, [], 1⟩,
    ⟨after reconcileWork .done 1 4 "", [], 2⟩,
    Run.of_foldlM (f := Transact.apply) (fun _ _ _ h => h) ?_, rfl, ?_, rfl, ?_, rfl⟩,
    ⟨after receiptWork .dead 1 4 revoked.code, [unreachable], 0⟩,
    ⟨after receiptWork .pending 2 6 unreachable.code, [], 0⟩,
    Run.of_foldlM (f := Transact.apply) (fun _ _ _ h => h) ?_, rfl, ?_, rfl⟩
  all_goals decide +kernel

end LedgerGuard.Workers
