import LedgerGuard.Workers.MailOnce

/-! # Events over the quota

An event over the quota of its rule is left to the digest of the hour. The digest
waits until the hour is over, so no event is left to a digest that has run.
-/

namespace LedgerGuard.Notifications

open Raising Transition Workers

variable {sha256 : String → String} {c : Settings} {w w' : World} {e : Event} {es : List Event}
  {m room : Mailroom} {o : Turn} {row row' : Outbox} {organizationId key : String} {hour : ℤ}
  {t₀ : Instant}

theorem digestKey_injective : Function.Injective (digestKey organizationId) := by
  intro h h' he
  unfold digestKey at he
  have hl := congrArg String.toList he
  simp only [String.toList_append] at hl
  exact canonical_int_inj.mp (String.toList_injective (List.append_cancel_left hl))

theorem key_ne {a b p q : String} (h : p.toList.head? ≠ q.toList.head?) (hp : p ≠ "") (hq : q ≠ "") :
    p ++ a ≠ q ++ b := by
  intro he
  have hl := congrArg (List.head? ∘ String.toList) he
  simp only [Function.comp, String.toList_append] at hl
  rw [List.head?_append_of_ne_nil _ (by simpa using hp),
    List.head?_append_of_ne_nil _ (by simpa using hq)] at hl
  exact h hl

theorem digestKey_eq : digestKey organizationId hour =
    "digest:" ++ (organizationId ++ ":" ++ toString hour) := by
  simp [digestKey, String.append_assoc]

theorem emailKey_ne (id : String) : emailKey id ≠ digestKey organizationId hour := by
  rw [digestKey_eq]
  exact key_ne (by decide) (by decide) (by decide)

theorem notifyKey_ne (id : String) : "notify:" ++ id ≠ digestKey organizationId hour := by
  rw [digestKey_eq]
  exact key_ne (by decide) (by decide) (by decide)

theorem securityKey_ne (id : String) :
    "security-notify:" ++ id ≠ digestKey organizationId hour := by
  rw [digestKey_eq]
  exact key_ne (by decide) (by decide) (by decide)

theorem attempt_spec {x : Conditions} {message : Message} {v : Verdict}
    (h : Workers.attempt x message row = (v, row')) :
    (row' = row ∧ (v = .unknown ∨ ∃ value, v = .returned value)) ∨
    (row.Open ∧ row.availableAt ≤ x.now ∧
      ((v = .returned true ∧ x.active = false ∧ row' = { row with status := .done }) ∨
        (∃ failure s, v = .failed failure s ∧ row' = row) ∨
        (v = .committed ∧ row' =
          { row with status := .done, leaseUntil := none, lastErrorCode := "" }))) := by
  unfold Workers.attempt at h
  split at h
  · obtain ⟨rfl, rfl⟩ := Prod.mk.inj h
    exact Or.inl ⟨rfl, Or.inl rfl⟩
  split at h
  · obtain ⟨rfl, rfl⟩ := Prod.mk.inj h
    exact Or.inl ⟨rfl, Or.inr ⟨_, rfl⟩⟩
  split at h
  · obtain ⟨rfl, rfl⟩ := Prod.mk.inj h
    exact Or.inl ⟨rfl, Or.inr ⟨_, rfl⟩⟩
  rename_i hdone
  split at h
  · obtain ⟨rfl, rfl⟩ := Prod.mk.inj h
    exact Or.inl ⟨rfl, Or.inr ⟨_, rfl⟩⟩
  rename_i hdead
  split at h
  · obtain ⟨rfl, rfl⟩ := Prod.mk.inj h
    exact Or.inl ⟨rfl, Or.inr ⟨_, rfl⟩⟩
  rename_i hdue
  refine Or.inr ⟨⟨hdone, hdead⟩, not_lt.mp hdue, ?_⟩
  split at h
  · rename_i hactive
    obtain ⟨rfl, rfl⟩ := Prod.mk.inj h
    exact Or.inl ⟨rfl, by simpa using hactive.1, rfl⟩
  split at h
  · obtain ⟨rfl, rfl⟩ := Prod.mk.inj h
    exact Or.inr (Or.inl ⟨_, _, rfl, rfl⟩)
  split at h
  · obtain ⟨rfl, rfl⟩ := Prod.mk.inj h
    exact Or.inr (Or.inl ⟨_, _, rfl, rfl⟩)
  · obtain ⟨rfl, rfl⟩ := Prod.mk.inj h
    exact Or.inr (Or.inr ⟨rfl, rfl⟩)

theorem attempt_due {x : Conditions} {message : Message} {v : Verdict}
    (h : Workers.attempt x message row = (v, row')) :
    row' = row ∨ (row.Open ∧ row.availableAt ≤ x.now ∧ row'.id = row.id ∧ row'.status = .done) := by
  rcases attempt_spec h with ⟨he, -⟩ | ⟨hopen, hdue, ⟨-, -, rfl⟩ | ⟨_, _, -, he⟩ | ⟨-, rfl⟩⟩
  · exact Or.inl he
  · exact Or.inr ⟨hopen, hdue, rfl, rfl⟩
  · exact Or.inl he
  · exact Or.inr ⟨hopen, hdue, rfl, rfl⟩

/-- The rows of the outbox after new deliveries got their work. -/
structure Enqueued (m m' : Mailroom) : Prop where
  organizationId : m'.organizationId = m.organizationId
  rows : ∀ row ∈ m.outbox, row ∈ m'.outbox
  fresh : ∀ row ∈ m'.outbox, row ∈ m.outbox ∨ ∃ id now,
    row = Workers.enqueue (emailKey id) m.organizationId .deliverEmail id now

theorem Grown.enqueued {m m' : Mailroom} (h : Grown m m') : Enqueued m m' :=
  ⟨h.organizationId, h.rows, fun row hr => (h.fresh row hr).imp_right fun ⟨d, _, now, he⟩ =>
    ⟨d.id, now, he⟩⟩

theorem handle_cases (h : handle sha256 c o row m = .ok room) :
    (Enqueued m room ∧ ∀ event hour, .postponed event hour ∉ o.notices row m) ∨
    (room = m.postpone o.reads ∧
      o.notices row m = [.postponed row.resourceId (o.reads.hour / hourLength)]) := by
  have hother : row.taskType ≠ .notify →
      ∀ event hour, .postponed event hour ∉ o.notices row m := by
    intro htask event hour hm
    rw [Turn.notices, if_neg htask] at hm
    cases hm
  unfold handle at h
  split at h
  · rename_i htask
    rcases prepare_ok h with ⟨hn, rfl⟩ | ⟨hn, rfl⟩ | ⟨bucket, quotas, hn, -, -, hg⟩
    · refine Or.inl ⟨⟨rfl, fun _ hr => hr, fun _ hr => Or.inl hr⟩, fun event hour hm => ?_⟩
      rw [Turn.notices, if_pos htask, hn] at hm
      cases hm
    · refine Or.inr ⟨rfl, ?_⟩
      rw [Turn.notices, if_pos htask, hn]
    · refine Or.inl ⟨⟨hg.organizationId, hg.rows, hg.enqueued.fresh⟩, fun event hour hm => ?_⟩
      rw [Turn.notices, if_pos htask, hn] at hm
      cases List.mem_singleton.mp hm
  · rename_i htask
    exact Or.inl ⟨(grown_security h).enqueued, hother (by rw [htask]; decide)⟩
  · rename_i htask
    refine Or.inl ⟨?_, hother (by rw [htask]; decide)⟩
    obtain ⟨d, hd, -, ⟨-, rfl⟩ | ⟨d', -, -, -, rfl⟩⟩ := deliver_ok h
    · exact ⟨rfl, fun _ hr => hr, fun _ hr => Or.inl hr⟩
    · exact ⟨rfl, fun _ hr => hr, fun _ hr => Or.inl hr⟩
  · rename_i htask
    exact Or.inl ⟨(grown_digest h).enqueued, hother (by rw [htask]; decide)⟩
  · cases h

def hourEnd (hour : ℤ) : Instant := (hour + 1) * hourLength

/-- A row that waits, if it is the digest of an hour that is not over. -/
def Waits (organizationId : String) (clock : Instant) (row : Outbox) : Prop :=
  ∀ hour, row.id = digestKey organizationId hour → clock < hourEnd hour →
    (row.status = .pending ∨ row.status = .queued) ∧ hourEnd hour ≤ row.availableAt

theorem Waits.later {clock clock' : Instant} (h : Waits organizationId clock row)
    (hle : clock ≤ clock') : Waits organizationId clock' row :=
  fun hour hkey hw => h hour hkey (hle.trans_lt hw)

theorem Waits.due {clock now : Instant} (h : Waits organizationId clock row) (hclock : clock ≤ now)
    (hdue : row.availableAt ≤ now) (hkey : row.id = digestKey organizationId hour) :
    hourEnd hour ≤ now := by
  by_cases hw : clock < hourEnd hour
  · exact (h hour hkey hw).2.trans hdue
  · exact (not_lt.mp hw).trans hclock

/-- The end of a digest does not come before an event left to it. -/
def InTime (organizationId : String) (x y : Entry) : Prop :=
  ∀ key handled event hour, x = .ended key handled → y = .postponed event hour →
    key ≠ digestKey organizationId hour

/-- An event left to the digest of an hour has its work, which ends in the journal. -/
def Left (organizationId : String) (outbox : Table Outbox.id) (journal : List Entry) (hour : ℤ) :
    Prop :=
  ∃ row ∈ outbox, row.id = digestKey organizationId hour ∧
    (row.status = .done → ∃ handled, .ended row.id handled ∈ journal)

/-- Digests wait for their hour to be over, and every event left to one finds it unfinished. -/
structure Digests (w : World) : Prop where
  waiting : ∀ row ∈ w.room.outbox, Waits w.room.organizationId w.clock row
  failedLate : ∀ x ∈ w.failed, ∀ hour, x.1 = digestKey w.room.organizationId hour →
    hourEnd hour ≤ w.clock
  endedLate : ∀ key handled hour, .ended key handled ∈ w.journal →
    key = digestKey w.room.organizationId hour → hourEnd hour ≤ w.clock
  inTime : w.journal.Pairwise (InTime w.room.organizationId)
  left : ∀ event hour, .postponed event hour ∈ w.journal →
    Left w.room.organizationId w.room.outbox w.journal hour

/-- What a step must do to keep this: new rows wait, new failures and ends are of hours that are
over, and new events are left to the present hour. -/
structure DigestsKept (w w' : World) (xs : List Entry) : Prop where
  organizationId : w'.room.organizationId = w.room.organizationId
  clock : w.clock ≤ w'.clock
  journal : w'.journal = w.journal ++ xs
  rows : ∀ row ∈ w'.room.outbox, row ∈ w.room.outbox ∨ Waits w.room.organizationId w'.clock row
  stay : ∀ row ∈ w.room.outbox, ∃ row' ∈ w'.room.outbox, row'.id = row.id ∧
    (row'.status = .done → row.status = .done ∨ ∃ handled, .ended row.id handled ∈ xs)
  failed : ∀ x ∈ w'.failed, x ∈ w.failed ∨ ∀ hour,
    x.1 = digestKey w.room.organizationId hour → hourEnd hour ≤ w'.clock
  ended : ∀ key handled hour, .ended key handled ∈ xs →
    key = digestKey w.room.organizationId hour → hourEnd hour ≤ w'.clock
  inTime : xs.Pairwise (InTime w.room.organizationId)
  postponed : ∀ event hour, .postponed event hour ∈ xs → w.clock < hourEnd hour ∧
    Left w.room.organizationId w'.room.outbox w'.journal hour

theorem Digests.keep {xs : List Entry} (hi : Digests w) (h : DigestsKept w w' xs) : Digests w' where
  waiting row hr := by
    rw [h.organizationId]
    rcases h.rows row hr with hr | hw
    · exact (hi.waiting row hr).later h.clock
    · exact hw
  failedLate x hx hour hkey := by
    rw [h.organizationId] at hkey
    rcases h.failed x hx with hx | hlate
    · exact (hi.failedLate x hx hour hkey).trans h.clock
    · exact hlate hour hkey
  endedLate key handled hour hm hkey := by
    rw [h.organizationId] at hkey
    rw [h.journal] at hm
    rcases List.mem_append.mp hm with hm | hm
    · exact (hi.endedLate key handled hour hm hkey).trans h.clock
    · exact h.ended key handled hour hm hkey
  inTime := by
    rw [h.organizationId, h.journal, List.pairwise_append]
    refine ⟨hi.inTime, h.inTime, ?_⟩
    rintro x hx y hy key handled event hour rfl rfl hkey
    exact absurd (hi.endedLate key handled hour hx hkey) (h.postponed event hour hy).1.not_ge
  left event hour hm := by
    rw [h.organizationId]
    rw [h.journal] at hm
    rcases List.mem_append.mp hm with hm | hm
    · obtain ⟨row, hr, hkey, hdone⟩ := hi.left event hour hm
      obtain ⟨row', hr', hid, hs⟩ := h.stay row hr
      refine ⟨row', hr', hid.trans hkey, fun hd => ?_⟩
      rw [hid, h.journal]
      rcases hs hd with hd | ⟨handled, he⟩
      · obtain ⟨handled, he⟩ := hdone hd
        exact ⟨handled, List.mem_append_left _ he⟩
      · exact ⟨handled, List.mem_append_right _ he⟩
    · exact (h.postponed event hour hm).2

def Entry.Idle (x : Entry) : Prop := x.kind ≠ .ending ∧ x.kind ≠ .postponement

theorem DigestsKept.idle {xs : List Entry} (horg : w'.room.organizationId = w.room.organizationId)
    (hclock : w.clock ≤ w'.clock) (hjournal : w'.journal = w.journal ++ xs)
    (hxs : ∀ x ∈ xs, x.Idle)
    (hrows : ∀ row ∈ w'.room.outbox,
      row ∈ w.room.outbox ∨ Waits w.room.organizationId w'.clock row)
    (hstay : ∀ row ∈ w.room.outbox, ∃ row' ∈ w'.room.outbox, row'.id = row.id ∧
      (row'.status = .done → row.status = .done))
    (hfailed : ∀ x ∈ w'.failed, x ∈ w.failed ∨ ∀ hour,
      x.1 = digestKey w.room.organizationId hour → hourEnd hour ≤ w'.clock) : DigestsKept w w' xs where
  organizationId := horg
  clock := hclock
  journal := hjournal
  rows := hrows
  stay row hr := by
    obtain ⟨row', hr', hid, hs⟩ := hstay row hr
    exact ⟨row', hr', hid, fun hd => Or.inl (hs hd)⟩
  failed := hfailed
  ended _ _ _ hm := absurd rfl (hxs _ hm).1
  inTime := List.pairwise_of_forall_mem_list fun x hx _ _ _ _ _ _ he _ =>
    absurd rfl (hxs _ (he ▸ hx)).1
  postponed _ _ hm := absurd rfl (hxs _ hm).2

theorem Digests.same {xs : List Entry} (hi : Digests w)
    (horg : w'.room.organizationId = w.room.organizationId)
    (hclock : w.clock ≤ w'.clock) (hjournal : w'.journal = w.journal ++ xs)
    (hxs : ∀ x ∈ xs, x.Idle) (houtbox : w'.room.outbox = w.room.outbox)
    (hfailed : ∀ x ∈ w'.failed, x ∈ w.failed ∨ ∀ hour,
      x.1 = digestKey w.room.organizationId hour → hourEnd hour ≤ w'.clock) : Digests w' := by
  refine hi.keep (DigestsKept.idle horg hclock hjournal hxs (fun row hr => ?_) (fun row hr => ?_) hfailed)
  · exact Or.inl (houtbox ▸ hr)
  · exact ⟨row, houtbox ▸ hr, rfl, id⟩

theorem Digests.put (hi : Digests w) (horg : w'.room.organizationId = w.room.organizationId)
    (hclock : w.clock ≤ w'.clock) (hjournal : w'.journal = w.journal)
    (houtbox : w'.room.outbox = w.room.outbox.put row')
    (hwait : Waits w.room.organizationId w'.clock row') (hdone : row'.status ≠ .done)
    (hfailed : ∀ x ∈ w'.failed, x ∈ w.failed) : Digests w' := by
  refine hi.keep (DigestsKept.idle horg hclock (hjournal.trans (List.append_nil _).symm)
    (fun _ hx => absurd hx List.not_mem_nil) (fun row hr => ?_) (fun row hr => ?_)
    fun x hx => Or.inl (hfailed x hx))
  · rw [houtbox] at hr
    rcases Table.mem_put.mp hr with rfl | ⟨hr, -⟩
    · exact Or.inr hwait
    · exact Or.inl hr
  · rw [houtbox]
    by_cases hk : row.id = row'.id
    · exact ⟨row', Table.mem_put.mpr (Or.inl rfl), hk.symm, fun hd => absurd hd hdone⟩
    · exact ⟨row, Table.mem_put.mpr (Or.inr ⟨hr, hk⟩), rfl, id⟩

theorem waits_other {clock : Instant} (h : ∀ hour, row.id ≠ digestKey organizationId hour) :
    Waits organizationId clock row := fun hour hkey => absurd hkey (h hour)

theorem Digests.enqueue {task : TaskType} {resource : String} {now : Instant}
    (hi : Digests w) (horg : w'.room.organizationId = w.room.organizationId)
    (hclock : w.clock ≤ w'.clock) (hjournal : w'.journal = w.journal)
    (houtbox : w'.room.outbox = (m.enqueue task resource key now).outbox)
    (hm : m.outbox = w.room.outbox) (hkey : ∀ hour, key ≠ digestKey w.room.organizationId hour)
    (hfailed : ∀ x ∈ w'.failed, x ∈ w.failed) : Digests w' := by
  refine hi.keep (DigestsKept.idle horg hclock (hjournal.trans (List.append_nil _).symm)
    (fun _ hx => absurd hx List.not_mem_nil) (fun row hr => ?_) (fun row hr => ?_)
    fun x hx => Or.inl (hfailed x hx))
  · rw [houtbox] at hr
    rcases mem_enqueue.mp hr with hr | ⟨-, rfl⟩
    · exact Or.inl (hm ▸ hr)
    · exact Or.inr (waits_other hkey)
  · exact ⟨row, houtbox ▸ mem_enqueue.mpr (Or.inl (hm ▸ hr)), rfl, id⟩

theorem idle_of_kind {x : Entry} (h : x.kind = .mail ∨ x.kind = .route) : x.Idle := by
  rcases h with h | h <;> exact ⟨h ▸ Kind.noConfusion, h ▸ Kind.noConfusion⟩

theorem mails_idle {recorded : Bool} {x : Entry} (hx : x ∈ o.mails c row m recorded) : x.Idle :=
  idle_of_kind (Or.inl (mails_kind hx))

theorem silences_idle {eventType id : String} {x : Entry} (hx : x ∈ silences eventType id m) :
    x.Idle := idle_of_kind (Or.inr (silences_kind hx))

theorem enables_idle {email : String} {active : Bool} {x : Entry}
    (hx : x ∈ enables email active m) : x.Idle := idle_of_kind (Or.inr (enables_kind hx))

theorem Digests.failed_late {x : Conditions} {message : Message} {v : Verdict} {failure : WorkFailure}
    (hi : Digests w) (hclock : w.clock ≤ x.now) (hr : row ∈ w.room.outbox)
    (hv : Workers.attempt x message row = (v, row')) (hne : ∀ value, v ≠ .returned value)
    (hknown : v ≠ .unknown) {now : Instant} (hnow : x.now ≤ now) :
    ∀ y ∈ (row.id, failure) :: w.failed, y ∈ w.failed ∨ ∀ hour,
      y.1 = digestKey w.room.organizationId hour → hourEnd hour ≤ now := by
  intro y hy
  rcases List.mem_cons.mp hy with rfl | hy
  · rcases attempt_spec hv with ⟨-, hv | ⟨value, hv⟩⟩ | ⟨-, hdue, -⟩
    · exact absurd hv hknown
    · exact absurd hv (hne value)
    · exact Or.inr fun hour hkey => ((hi.waiting row hr).due hclock hdue hkey).trans hnow
  · exact Or.inl hy

theorem Reads.Ordered.start_le_last {t : Reads} (h : t.Ordered) : t.start ≤ t.last :=
  h.1.trans (h.2.1.trans h.2.2)

def Turn.front (c : Settings) (o : Turn) (row : Outbox) (m : Mailroom) : List Entry :=
  o.mails c row m true ++ o.notices row m

theorem front_ended {handled : Bool} : Entry.ended key handled ∉ o.front c row m := by
  intro hm
  rcases List.mem_append.mp hm with hm | hm
  · cases mails_kind hm
  · rcases notices_kind hm with hk | hk <;> cases hk

theorem front_inTime {id : String} {handled : Bool} :
    (o.front c row m ++ [Entry.ended id handled]).Pairwise (InTime organizationId) := by
  rw [List.pairwise_append]
  refine ⟨?_, List.pairwise_singleton _ _, ?_⟩
  · apply List.pairwise_of_forall_mem_list
    rintro x hx y - key handled event hour rfl
    exact absurd hx front_ended
  · rintro x - y hy key handled event hour - rfl
    cases List.mem_singleton.mp hy

theorem lt_hourEnd (t : Instant) : t < hourEnd (t / hourLength) :=
  Int.lt_ediv_add_one_mul_self t (by decide)

theorem hourEnd_le {t last : Instant} (h : t ≤ last) : hourEnd (t / hourLength) ≤ last + hourLength := by
  have hstart := Int.ediv_mul_le t (show hourLength ≠ 0 by decide)
  unfold hourEnd
  rw [add_mul, one_mul]
  linarith

theorem Digests.postpone_rows (hi : Digests w) {t : Reads} (hclock : w.clock ≤ t.hour)
    (hlast : t.hour ≤ t.last) (hr : row ∈ (w.room.postpone t).outbox) :
    (row ∈ w.room.outbox ∧ row.id ≠ digestKey w.room.organizationId (t.hour / hourLength)) ∨
      (Waits w.room.organizationId t.last row ∧ row.status ≠ .done) := by
  have hnow := hclock.trans_lt (lt_hourEnd t.hour)
  rcases mem_postpone hr with hr | ⟨old, rfl, hkey, hold⟩
  · exact Or.inl hr
  · have hs : old.status = .pending ∨ old.status = .queued := by
      rcases hold with hold | rfl
      · exact (hi.waiting old hold _ hkey hnow).1
      · exact Or.inl rfl
    refine Or.inr ⟨fun hour hhour _ => ?_, ?_⟩
    · obtain rfl := digestKey_injective (hkey.symm.trans hhour)
      exact ⟨hs, hourEnd_le hlast⟩
    · rcases hs with hs | hs
      · exact hs ▸ Status.noConfusion
      · exact hs ▸ Status.noConfusion

theorem Digests.committed (hi : Digests w) {message : Message} (hclock : w.clock ≤ o.reads.start)
    (hreads : o.reads.Ordered) (hr : row ∈ w.room.outbox)
    (hv : Workers.attempt (conditions sha256 c o row w.room) message row = (.committed, row'))
    (hroom : handle sha256 c o row w.room = .ok room) :
    Digests { w with
      clock := o.reads.last
      room := { room with outbox := room.outbox.put row' }
      journal := w.journal ++ (o.front c row w.room ++ [.ended row.id true]) } := by
  obtain ⟨hdue, hid⟩ : row.availableAt ≤ o.reads.start ∧ row'.id = row.id := by
    rcases attempt_spec hv with ⟨-, hv | ⟨_, hv⟩⟩ | ⟨-, hdue, ⟨hv, -⟩ | ⟨_, _, hv, -⟩ | ⟨-, rfl⟩⟩
    · cases hv
    · cases hv
    · cases hv
    · cases hv
    · exact ⟨hdue, rfl⟩
  have hlast := hreads.start_le_last
  have hlate : ∀ hour, row.id = digestKey w.room.organizationId hour →
      hourEnd hour ≤ o.reads.last := fun hour hkey =>
    ((hi.waiting row hr).due hclock hdue hkey).trans hlast
  have hended : ∀ key handled hour,
      .ended key handled ∈ o.front c row w.room ++ [Entry.ended row.id true] →
      key = digestKey w.room.organizationId hour → hourEnd hour ≤ o.reads.last := by
    intro key handled hour hm hkey
    rcases List.mem_append.mp hm with hm | hm
    · exact absurd hm front_ended
    · obtain ⟨rfl, -⟩ := Entry.ended.inj (List.mem_singleton.mp hm)
      exact hlate hour hkey
  have hrow' : Waits w.room.organizationId o.reads.last row' := fun hour hkey hw =>
    absurd (hlate hour (hid.symm.trans hkey)) hw.not_ge
  have hput : ∀ r ∈ room.outbox, ∃ r' ∈ room.outbox.put row', r'.id = r.id ∧
      (r'.status = .done → r' = r ∨ r.id = row.id) := by
    intro r hm
    by_cases hk : r.id = row'.id
    · exact ⟨row', Table.mem_put.mpr (Or.inl rfl), hk.symm, fun _ => Or.inr (hk.trans hid)⟩
    · exact ⟨r, Table.mem_put.mpr (Or.inr ⟨hm, hk⟩), rfl, fun _ => Or.inl rfl⟩
  have hlast' : .ended row.id true ∈ o.front c row w.room ++ [Entry.ended row.id true] :=
    List.mem_append_right _ (List.mem_singleton.mpr rfl)
  rcases handle_cases hroom with ⟨hq, hnone⟩ | ⟨rfl, hone⟩
  · exact hi.keep {
      organizationId := hq.organizationId
      clock := hclock.trans hlast
      journal := rfl
      rows := fun r hm => by
        rcases Table.mem_put.mp hm with rfl | ⟨hm, -⟩
        · exact Or.inr hrow'
        · rcases hq.fresh r hm with hm | ⟨id, now, rfl⟩
          · exact Or.inl hm
          · exact Or.inr (waits_other fun hour => emailKey_ne id)
      stay := fun r hm => by
        obtain ⟨r', hm', hk, hs⟩ := hput r (hq.rows r hm)
        refine ⟨r', hm', hk, fun hd => ?_⟩
        rcases hs hd with rfl | he
        · exact Or.inl hd
        · exact Or.inr ⟨true, he ▸ hlast'⟩
      failed := fun x hx => Or.inl hx
      ended := hended
      inTime := front_inTime
      postponed := fun event hour hm => by
        rcases List.mem_append.mp hm with hm | hm
        · rcases List.mem_append.mp hm with hm | hm
          · cases mails_kind hm
          · exact absurd hm (hnone event hour)
        · cases List.mem_singleton.mp hm }
  · have hhour : w.clock ≤ o.reads.hour := hclock.trans (hreads.1.trans hreads.2.1)
    exact hi.keep {
      organizationId := postpone_organizationId
      clock := hclock.trans hlast
      journal := rfl
      rows := fun r hm => by
        rcases Table.mem_put.mp hm with rfl | ⟨hm, -⟩
        · exact Or.inr hrow'
        · exact (hi.postpone_rows hhour hreads.2.2 hm).imp And.left And.left
      stay := fun r hm => by
        obtain ⟨due, hm₁⟩ := postpone_row (t := o.reads) hm
        obtain ⟨r', hm', hk, hs⟩ := hput _ hm₁
        refine ⟨r', hm', hk, fun hd => ?_⟩
        rcases hs hd with rfl | he
        · exact Or.inl hd
        · have he : r.id = row.id := he
          exact Or.inr ⟨true, he ▸ hlast'⟩
      failed := fun x hx => Or.inl hx
      ended := hended
      inTime := front_inTime
      postponed := fun event hour hm => by
        have hevent : hour = o.reads.hour / hourLength := by
          rcases List.mem_append.mp hm with hm | hm
          · rcases List.mem_append.mp hm with hm | hm
            · cases mails_kind hm
            · rw [hone] at hm
              exact (Entry.postponed.inj (List.mem_singleton.mp hm)).2
          · cases List.mem_singleton.mp hm
        subst hevent
        refine ⟨hhour.trans_lt (lt_hourEnd _), ?_⟩
        obtain ⟨r, hm, hk⟩ := exists_postpone (m := w.room) (t := o.reads)
        obtain ⟨r', hm', hk', hs⟩ := hput r hm
        refine ⟨r', hm', hk'.trans hk, fun hd => ?_⟩
        rcases hs hd with rfl | he
        · rcases hi.postpone_rows hhour hreads.2.2 hm with ⟨-, hne⟩ | ⟨-, hne⟩
          · exact absurd hk hne
          · exact absurd hd hne
        · rw [hk', he]
          exact ⟨true, List.mem_append_right _ hlast'⟩ }

theorem Digests.returned (hi : Digests w) {message : Message} {value : Bool}
    (hclock : w.clock ≤ o.reads.start) (hreads : o.reads.Ordered) (hr : row ∈ w.room.outbox)
    (hv : Workers.attempt (conditions sha256 c o row w.room) message row = (.returned value, row')) :
    Digests { w with
      clock := o.reads.last
      room.outbox := w.room.outbox.put row'
      journal := w.journal ++ endings row row' } := by
  have hlast := hclock.trans hreads.start_le_last
  by_cases hsame : row' = row
  · subst hsame
    have hput : ∀ r, r ∈ w.room.outbox.put row' ↔ r ∈ w.room.outbox := by
      intro r
      rw [Table.mem_put]
      constructor
      · rintro (rfl | ⟨hm, -⟩)
        · exact hr
        · exact hm
      · intro hm
        by_cases hk : r.id = row'.id
        · exact Or.inl (Table.eq_of_key hm hr hk)
        · exact Or.inr ⟨hm, hk⟩
    refine hi.keep (DigestsKept.idle rfl hlast rfl (fun x hx => ?_) (fun r hm => ?_) (fun r hm => ?_)
      fun x hx => Or.inl hx)
    · rw [endings, if_pos rfl] at hx
      cases hx
    · exact Or.inl ((hput r).mp hm)
    · exact ⟨r, (hput r).mpr hm, rfl, id⟩
  · obtain ⟨hopen, hdue, hid, hdone⟩ := (attempt_due hv).resolve_left hsame
    have hlate : ∀ hour, row.id = digestKey w.room.organizationId hour →
        hourEnd hour ≤ o.reads.last := fun hour hkey =>
      ((hi.waiting row hr).due hclock hdue hkey).trans hreads.start_le_last
    have hends : endings row row' = [.ended row.id false] := if_neg hsame
    exact hi.keep {
      organizationId := rfl
      clock := hlast
      journal := rfl
      rows := fun r hm => by
        rcases Table.mem_put.mp hm with rfl | ⟨hm, -⟩
        · exact Or.inr fun hour hkey hw => absurd (hlate hour (hid.symm.trans hkey)) hw.not_ge
        · exact Or.inl hm
      stay := fun r hm => by
        by_cases hk : r.id = row'.id
        · refine ⟨row', Table.mem_put.mpr (Or.inl rfl), hk.symm, fun _ => Or.inr ⟨false, ?_⟩⟩
          rw [hends, hk, hid]
          exact List.mem_singleton.mpr rfl
        · exact ⟨r, Table.mem_put.mpr (Or.inr ⟨hm, hk⟩), rfl, Or.inl⟩
      failed := fun x hx => Or.inl hx
      ended := fun key handled hour hm hkey => by
        rw [hends] at hm
        obtain ⟨rfl, -⟩ := Entry.ended.inj (List.mem_singleton.mp hm)
        exact hlate hour hkey
      inTime := by
        rw [hends]
        exact List.pairwise_singleton _ _
      postponed := fun event hour hm => by
        rw [hends] at hm
        cases List.mem_singleton.mp hm }

theorem Digests.step (hi : Digests w) (h : Guarded (Step sha256 c) World.InOrder w e w') :
    Digests w' := by
  obtain ⟨hin, h⟩ := h
  cases h with
  | committed hrow hv hroom =>
    obtain ⟨hclock, hreads⟩ := hin
    exact hi.committed hclock hreads (Table.get_eq_some.mp hrow).1 hv hroom
  | rolledBack failure hrow hv =>
    obtain ⟨hclock, hreads⟩ := hin
    exact hi.same rfl (hclock.trans hreads.start_le_last) rfl (fun _ => mails_idle) rfl
      (hi.failed_late hclock (Table.get_eq_some.mp hrow).1 hv nofun nofun hreads.start_le_last)
  | failed hrow hv =>
    obtain ⟨hclock, hreads⟩ := hin
    exact hi.same rfl (hclock.trans hreads.start_le_last) rfl (fun _ => mails_idle) rfl
      (hi.failed_late hclock (Table.get_eq_some.mp hrow).1 hv nofun nofun hreads.start_le_last)
  | returned hrow hv =>
    obtain ⟨hclock, hreads⟩ := hin
    exact hi.returned hclock hreads (Table.get_eq_some.mp hrow).1 hv
  | @record id failure row l hfailed hrow =>
    have hclock : w.clock ≤ l.now := hin
    obtain ⟨hr, rfl⟩ := Table.get_eq_some.mp hrow
    refine hi.put rfl hclock rfl rfl ?_ ?_ fun x hx => List.mem_of_mem_erase hx
    · intro hour hkey hw
      exact absurd (hi.failedLate _ hfailed hour hkey) (hclock.trans_lt hw).not_ge
    · rw [recordFailure_status]
      split <;> exact Status.noConfusion
  | @dispatch id now row row' hrow h =>
    have hclock : w.clock ≤ now := hin
    obtain ⟨hr, rfl⟩ := Table.get_eq_some.mp hrow
    unfold Workers.dispatch at h
    split at h
    · obtain rfl := Option.some.inj h
      refine hi.put rfl hclock rfl rfl ?_ Status.noConfusion fun x hx => hx
      intro hour hkey hw
      exact ⟨Or.inr rfl, (hi.waiting row hr hour hkey (hclock.trans_lt hw)).2⟩
    · cases h
  | @replay id reason now row row' hrow h =>
    have hclock : w.clock ≤ now := hin
    obtain ⟨hr, rfl⟩ := Table.get_eq_some.mp hrow
    unfold replayWork at h
    split at h
    · rename_i hdead
      obtain rfl := Option.some.inj h
      refine hi.put rfl hclock rfl rfl ?_ Status.noConfusion fun x hx => hx
      intro hour hkey hw
      have hs := (hi.waiting row hr hour hkey (hclock.trans_lt hw)).1
      rw [hdead.2.2] at hs
      rcases hs with hs | hs <;> cases hs
    · cases h
  | @feedback eventType deliveryId messageId now room h =>
    have hclock : w.clock ≤ now := hin
    obtain ⟨d, -, -, ⟨rfl, -⟩ | ⟨d', status, -, -, -, rfl⟩⟩ := feedback_ok h
    · exact hi.same rfl hclock rfl (fun _ => silences_idle) rfl fun x hx => Or.inl hx
    · exact hi.same rfl hclock rfl (fun _ => silences_idle) rfl fun x hx => Or.inl hx
  | @setRoute email newId active now room h =>
    have hclock : w.clock ≤ now := hin
    obtain ⟨r, -, -, -, rfl⟩ := setRoute_ok h
    exact hi.same rfl hclock rfl (fun _ => enables_idle) rfl fun x hx => Or.inl hx
  | dropRoute | around =>
    exact hi.same rfl le_rfl (List.append_nil _).symm (fun _ hx => absurd hx List.not_mem_nil) rfl
      fun x hx => Or.inl hx
  | @recordEvent event now =>
    have hclock : w.clock ≤ now := hin
    unfold Mailroom.recordEvent
    dsimp only
    split
    · exact hi.enqueue enqueue_organizationId hclock rfl rfl rfl (fun hour => notifyKey_ne _)
        fun x hx => hx
    · exact hi.same rfl hclock (List.append_nil _).symm (fun _ hx => absurd hx List.not_mem_nil) rfl
        fun x hx => Or.inl hx
  | @audit event now =>
    have hclock : w.clock ≤ now := hin
    unfold Mailroom.audit
    dsimp only
    split
    · exact hi.enqueue enqueue_organizationId hclock rfl rfl rfl (fun hour => securityKey_ne _)
        fun x hx => hx
    · exact hi.same rfl hclock (List.append_nil _).symm (fun _ hx => absurd hx List.not_mem_nil) rfl
        fun x hx => Or.inl hx

namespace Fixture

def alert (i : ℕ) : List Event :=
  [.recordEvent ⟨toString i, "finding", .reopened⟩ (seconds i),
    .attempt (turn i) ⟨"notify:" ++ toString i, .notify, "organization", toString i, 0⟩]

/-- One event more than the quota of an hour, and its digest. -/
def busyHour : List Event :=
  .around scenery :: (List.range 21).flatMap alert ++
    [.attempt (turn 7200) ⟨"digest:organization:0", .notifyDigest, "organization", "organization", 0⟩]

theorem exists_busyHour : ∃ w, Run (Guarded (Step id settings) World.InOrder)
    (opened "organization" 0) busyHour w ∧
    .postponed "20" 0 ∈ w.journal := by
  have hpostponed : (busyHour.foldlM (nextInOrder id settings) (opened "organization" 0)).map
      (fun w => decide (.postponed "20" 0 ∈ w.journal)) = some true := by decide +kernel
  obtain ⟨w, hrun, hj⟩ := Run.exists_of_foldlM (fun _ _ _ => step_of_nextInOrder) hpostponed
  exact ⟨w, hrun, of_decide_eq_true hj⟩

end Fixture

/-- No event over the quota is lost: the digest of its hour has work, and that work ends, if it
does, after the event was left to it. -/
theorem postponed_events_digested
    (h : Run (Guarded (Step sha256 c) World.InOrder) (opened organizationId t₀) es w) :
    ∀ before event hour after, w.journal = before ++ .postponed event hour :: after →
      ∃ row ∈ w.room.outbox, row.id = digestKey w.room.organizationId hour ∧
        (row.status = .done → ∃ handled, .ended row.id handled ∈ after) := by
  have hstart : Digests (opened organizationId t₀) :=
    ⟨fun _ hr => absurd hr Table.not_mem_empty, nofun, nofun, .nil, nofun⟩
  have hi := h.invariant_state hstart fun _ _ _ hi hs => hi.step hs
  intro before event hour after he
  obtain ⟨row, hr, hkey, hdone⟩ := hi.left event hour (he ▸ by simp)
  refine ⟨row, hr, hkey, fun hd => ?_⟩
  obtain ⟨handled, hm⟩ := hdone hd
  have hinTime := hi.inTime
  rw [he] at hm hinTime
  rcases List.mem_append.mp hm with hm | hm
  · exact absurd hkey ((List.pairwise_append.mp hinTime).2.2 _ hm _ List.mem_cons_self _ _ _ _
      rfl rfl)
  · rcases List.mem_cons.mp hm with hm | hm
    · cases hm
    · exact ⟨handled, hm⟩

theorem postponed_events_digested_busyHour : ∃ w : World, .postponed "20" 0 ∈ w.journal ∧
    ∀ before event hour after, w.journal = before ++ .postponed event hour :: after →
      ∃ row ∈ w.room.outbox, row.id = digestKey w.room.organizationId hour ∧
        (row.status = .done → ∃ handled, .ended row.id handled ∈ after) := by
  obtain ⟨w, hrun, hpostponed⟩ := Fixture.exists_busyHour
  exact ⟨w, hpostponed, postponed_events_digested hrun⟩

def Entry.announcedAt (bucket : String) : Entry → Option Instant
  | .announced b now => if b = bucket then some now else none
  | _ => none

def announcedTimes (bucket : String) (journal : List Entry) : List Instant :=
  journal.filterMap (Entry.announcedAt bucket)

theorem rates_notification (rule : RuleCode) :
    Quotas.rates ("notification:" ++ rule.render) = ⟨20, hourLength⟩ := by
  have hstarts : ("notification:" ++ rule.render).startsWith "notification:" = true := by simp
  have hne : "notification:" ++ rule.render ≠ "pairing" := by cases rule <;> decide
  rw [Quotas.rates, if_neg hne, if_pos (Or.inr (Or.inr hstarts))]
  rfl

/-- The counters are those of a history of requests that were committed, each an announcement. -/
def Counted (t₀ : Instant) (w : World) : Prop :=
  ∃ requests clock, Run (Quotas.Step Quotas.rates 0) { clock := t₀ } requests ⟨clock, w.room.quotas⟩ ∧
    clock ≤ w.clock ∧
    ∀ bucket, Quotas.committedTimes bucket requests = announcedTimes bucket w.journal

theorem announcedTimes_append {xs ys : List Entry} (h : ∀ y ∈ ys, y.kind ≠ .announcement)
    (bucket : String) : announcedTimes bucket (xs ++ ys) = announcedTimes bucket xs := by
  have hys : ys.filterMap (Entry.announcedAt bucket) = [] := by
    apply List.filterMap_eq_nil_iff.mpr
    intro y hy
    cases y <;> first | rfl | exact absurd rfl (h _ hy)
  rw [announcedTimes, List.filterMap_append, hys, List.append_nil]
  rfl

theorem Counted.same {xs : List Entry} (hi : Counted t₀ w) (hclock : w.clock ≤ w'.clock)
    (hquotas : w'.room.quotas = w.room.quotas) (hjournal : w'.journal = w.journal ++ xs)
    (hxs : ∀ x ∈ xs, x.kind ≠ .announcement) : Counted t₀ w' := by
  obtain ⟨requests, clock, hrun, hle, htimes⟩ := hi
  refine ⟨requests, clock, hquotas ▸ hrun, hle.trans hclock, fun bucket => ?_⟩
  rw [hjournal, announcedTimes_append hxs, htimes]

theorem handle_quotas (h : handle sha256 c o row m = .ok room) :
    (room.quotas = m.quotas ∧ ∀ x ∈ o.notices row m, x.kind ≠ .announcement) ∨
    ∃ rule : RuleCode, o.notices row m =
        [.announced ("notification:" ++ rule.render) o.reads.quota] ∧
      Quotas.quota ("notification:" ++ rule.render) 20 hourLength o.reads.quota m.quotas =
        .ok room.quotas := by
  have hother : row.taskType ≠ .notify → ∀ x ∈ o.notices row m, x.kind ≠ .announcement := by
    intro htask x hx
    rw [Turn.notices, if_neg htask] at hx
    cases hx
  unfold handle at h
  split at h
  · rename_i htask
    rcases prepare_ok h with ⟨hn, rfl⟩ | ⟨hn, rfl⟩ | ⟨bucket, quotas, hn, ⟨rule, rfl⟩, hq, hg⟩
    · refine Or.inl ⟨rfl, fun x hx => ?_⟩
      rw [Turn.notices, if_pos htask, hn] at hx
      cases hx
    · refine Or.inl ⟨postpone_quotas, fun x hx => ?_⟩
      rw [Turn.notices, if_pos htask, hn] at hx
      obtain rfl := List.mem_singleton.mp hx
      exact Kind.noConfusion
    · refine Or.inr ⟨rule, ?_, hg.quotas ▸ hq⟩
      rw [Turn.notices, if_pos htask, hn]
  · rename_i htask
    exact Or.inl ⟨(grown_security h).quotas, hother (by rw [htask]; decide)⟩
  · rename_i htask
    refine Or.inl ⟨?_, hother (by rw [htask]; decide)⟩
    obtain ⟨d, hd, -, ⟨-, rfl⟩ | ⟨d', -, -, -, rfl⟩⟩ := deliver_ok h <;> rfl
  · rename_i htask
    exact Or.inl ⟨(grown_digest h).quotas, hother (by rw [htask]; decide)⟩
  · cases h

theorem Counted.announce {rule : RuleCode} {now : Instant} (hi : Counted t₀ w)
    (hclock : w.clock ≤ now) (hlater : now ≤ w'.clock)
    (hq : Quotas.quota ("notification:" ++ rule.render) 20 hourLength now w.room.quotas =
      .ok w'.room.quotas)
    {xs ys : List Entry} (hxs : ∀ x ∈ xs, x.kind ≠ .announcement)
    (hys : ∀ y ∈ ys, y.kind ≠ .announcement)
    (hjournal : w'.journal = w.journal ++
      (xs ++ [.announced ("notification:" ++ rule.render) now] ++ ys)) : Counted t₀ w' := by
  obtain ⟨requests, clock, hrun, hle, htimes⟩ := hi
  have hmax : max clock now = now := max_eq_right (hle.trans hclock)
  have hrate := rates_notification rule
  have hnext : Quotas.Step Quotas.rates 0 ⟨clock, w.room.quotas⟩
      (.request ("notification:" ++ rule.render) now .committed)
      ⟨max clock now, w'.room.quotas⟩ := by
    apply Quotas.Step.committed
    · rw [sub_zero]
      exact hle.trans hclock
    · rw [Quotas.World.quota, hrate]
      exact hq
  refine ⟨_, _, hrun.snoc hnext, hmax.trans_le hlater, fun bucket => ?_⟩
  rw [Quotas.committedTimes_snoc, htimes, hjournal, ← List.append_assoc, ← List.append_assoc,
    announcedTimes_append hys]
  unfold announcedTimes
  rw [List.filterMap_append, ← announcedTimes, ← announcedTimes, announcedTimes_append hxs]
  congr 1

theorem Counted.step (hi : Counted t₀ w) (h : Guarded (Step sha256 c) World.InOrder w e w') :
    Counted t₀ w' := by
  obtain ⟨hin, h⟩ := h
  cases h with
  | @committed o m row row' room hrow hv hroom =>
    obtain ⟨hclock, hreads⟩ := hin
    have hend : ∀ x ∈ [Entry.ended row.id true], x.kind ≠ .announcement := by
      intro x hx
      obtain rfl := List.mem_singleton.mp hx
      exact Kind.noConfusion
    have hmails : ∀ x ∈ o.mails c row w.room true, x.kind ≠ .announcement := fun x hx =>
      mails_kind hx ▸ Kind.noConfusion
    rcases handle_quotas hroom with ⟨hq, hnone⟩ | ⟨rule, hone, hq⟩
    · refine hi.same (hclock.trans hreads.start_le_last) hq rfl fun x hx => ?_
      rcases List.mem_append.mp hx with hx | hx
      · rcases List.mem_append.mp hx with hx | hx
        · exact hmails x hx
        · exact hnone x hx
      · exact hend x hx
    · refine hi.announce (hclock.trans hreads.1) (hreads.2.1.trans hreads.2.2) hq
        hmails hend ?_
      rw [← hone]
  | rolledBack failure hrow hv =>
    obtain ⟨hclock, hreads⟩ := hin
    exact hi.same (hclock.trans hreads.start_le_last) rfl rfl fun x hx =>
      mails_kind hx ▸ Kind.noConfusion
  | failed hrow hv =>
    obtain ⟨hclock, hreads⟩ := hin
    exact hi.same (hclock.trans hreads.start_le_last) rfl rfl fun x hx =>
      mails_kind hx ▸ Kind.noConfusion
  | returned hrow hv =>
    obtain ⟨hclock, hreads⟩ := hin
    exact hi.same (hclock.trans hreads.start_le_last) rfl rfl fun x hx =>
      endings_kind hx ▸ Kind.noConfusion
  | @feedback eventType id messageId now room h =>
    have hclock : w.clock ≤ now := hin
    have hxs : ∀ x ∈ silences eventType id w.room, x.kind ≠ .announcement := fun x hx =>
      silences_kind hx ▸ Kind.noConfusion
    obtain ⟨d, -, -, ⟨rfl, -⟩ | ⟨d', status, -, -, -, rfl⟩⟩ := feedback_ok h
    · exact hi.same hclock rfl rfl hxs
    · exact hi.same hclock rfl rfl hxs
  | @setRoute email newId active now room h =>
    have hclock : w.clock ≤ now := hin
    obtain ⟨r, -, -, -, rfl⟩ := setRoute_ok h
    exact hi.same hclock rfl rfl fun x hx =>
      enables_kind hx ▸ Kind.noConfusion
  | record | dispatch | replay =>
    exact hi.same hin rfl (List.append_nil _).symm fun _ hx => absurd hx List.not_mem_nil
  | dropRoute | around =>
    exact hi.same le_rfl rfl (List.append_nil _).symm fun _ hx => absurd hx List.not_mem_nil
  | recordEvent =>
    refine hi.same hin ?_ (List.append_nil _).symm fun _ hx => absurd hx List.not_mem_nil
    unfold Mailroom.recordEvent
    dsimp only
    split <;> simp
  | audit =>
    refine hi.same hin ?_ (List.append_nil _).symm fun _ hx => absurd hx List.not_mem_nil
    unfold Mailroom.audit
    dsimp only
    split <;> simp

end LedgerGuard.Notifications
