import LedgerGuard.Workers.MailDigests

/-! # Every delivery has its work

A delivery is created together with the work that sends it. While it is pending,
that work is not done, unless an attempt found the organization inactive.
-/

namespace LedgerGuard.Notifications

open Raising Transition Workers

variable {sha256 : String → String} {c : Settings} {w w' : World} {e : Event} {es : List Event}
  {m room : Mailroom} {o : Turn} {row row' : Outbox} {d d' : EmailDelivery}
  {organizationId : String} {t₀ : Instant}

theorem emailKey_injective : Function.Injective emailKey := by
  intro a b h
  have hl := congrArg String.toList h
  simp only [emailKey, String.toList_append] at hl
  exact String.toList_injective (List.append_cancel_left hl)

/-- Work is keyed by its delivery if it is to deliver, and no other work has such a key. -/
def Keyed (row : Outbox) : Prop :=
  if row.taskType = .deliverEmail then row.id = emailKey row.resourceId
  else ∀ id, row.id ≠ emailKey id

theorem Keyed.of_same (h : Keyed row) (hid : row'.id = row.id) (htask : row'.taskType = row.taskType)
    (hresource : row'.resourceId = row.resourceId) : Keyed row' := by
  unfold Keyed at *
  rw [hid, htask, hresource]
  exact h

theorem Keyed.deliver (h : Keyed row) (hk : row.id = emailKey d.id) :
    row.taskType = .deliverEmail ∧ row.resourceId = d.id := by
  unfold Keyed at h
  split at h
  · rename_i htask
    exact ⟨htask, emailKey_injective (h.symm.trans hk)⟩
  · exact absurd hk (h d.id)

/-- Every delivery has its work, which is done for a pending one only if an attempt skipped it. -/
structure Served (m : Mailroom) (journal : List Entry) : Prop where
  keyed : ∀ row ∈ m.outbox, Keyed row
  known : ∀ row ∈ m.outbox, row.taskType = .deliverEmail →
    ∃ d ∈ m.deliveries, d.id = row.resourceId
  served : ∀ d ∈ m.deliveries, ∃ row ∈ m.outbox, row.id = emailKey d.id ∧
    (d.status = .pending → row.status = .done → .ended row.id false ∈ journal)

section

variable {m m' : Mailroom} {journal : List Entry}

theorem Served.append (h : Served m journal) (xs : List Entry) : Served m (journal ++ xs) where
  keyed := h.keyed
  known := h.known
  served d hd := by
    obtain ⟨row, hr, hk, hs⟩ := h.served d hd
    exact ⟨row, hr, hk, fun hp hd => List.mem_append_left _ (hs hp hd)⟩

theorem Served.frame (h : Served m journal) (houtbox : m'.outbox = m.outbox)
    (hdeliveries : m'.deliveries = m.deliveries) : Served m' journal where
  keyed := houtbox ▸ h.keyed
  known := by
    rw [houtbox, hdeliveries]
    exact h.known
  served := by
    rw [houtbox, hdeliveries]
    exact h.served

theorem Served.grown (h : Served m journal) (hg : Grown m m') : Served m' journal where
  keyed row hr := by
    rcases hg.fresh row hr with hr | ⟨d, -, now, rfl⟩
    · exact h.keyed row hr
    · exact (if_pos rfl).mpr rfl
  known row hr htask := by
    rcases hg.fresh row hr with hr | ⟨d, hd, now, rfl⟩
    · obtain ⟨d, hd, hid⟩ := h.known row hr htask
      exact ⟨d, hg.kept d hd, hid⟩
    · exact ⟨d, hd, rfl⟩
  served d hd := by
    by_cases hold : d ∈ m.deliveries
    · obtain ⟨row, hr, hk, hs⟩ := h.served d hold
      exact ⟨row, hg.rows row hr, hk, hs⟩
    · obtain ⟨row, hr, hk⟩ := (hg.served d hd).resolve_left hold
      refine ⟨row, hr, hk, fun _ hdone => ?_⟩
      rcases hg.fresh row hr with hr | ⟨d', -, now, rfl⟩
      · -- An old row under the key of a new delivery would be that of an old one.
        obtain ⟨htask, hres⟩ := (h.keyed row hr).deliver hk
        obtain ⟨d₀, hd₀, hid⟩ := h.known row hr htask
        obtain rfl := Table.eq_of_key (hg.kept d₀ hd₀) hd (hid.trans hres)
        exact absurd hd₀ hold
      · cases hdone

theorem Served.enqueue {task : TaskType} {resource key : String} {now : Instant}
    (h : Served m journal) (htask : task ≠ .deliverEmail) (hkey : ∀ id, key ≠ emailKey id) :
    Served (m.enqueue task resource key now) journal where
  keyed row hr := by
    rcases mem_enqueue.mp hr with hr | ⟨-, rfl⟩
    · exact h.keyed row hr
    · unfold Keyed
      rw [if_neg (by exact htask)]
      exact hkey
  known row hr htask' := by
    rw [enqueue_deliveries]
    rcases mem_enqueue.mp hr with hr | ⟨-, rfl⟩
    · exact h.known row hr htask'
    · exact absurd htask' htask
  served d hd := by
    rw [enqueue_deliveries] at hd
    obtain ⟨row, hr, hk, hs⟩ := h.served d hd
    exact ⟨row, mem_enqueue.mpr (Or.inl hr), hk, hs⟩

theorem Served.put (h : Served m journal) (hr : row ∈ m.outbox) (hid : row'.id = row.id)
    (htask : row'.taskType = row.taskType) (hresource : row'.resourceId = row.resourceId)
    (hdone : row'.status = .done → row.status = .done ∨ .ended row.id false ∈ journal ∨
      ∀ d ∈ m.deliveries, row.id = emailKey d.id → d.status ≠ .pending) :
    Served { m with outbox := m.outbox.put row' } journal where
  keyed r hm := by
    rcases Table.mem_put.mp hm with rfl | ⟨hm, -⟩
    · exact (h.keyed row hr).of_same hid htask hresource
    · exact h.keyed r hm
  known r hm ht := by
    rcases Table.mem_put.mp hm with rfl | ⟨hm, -⟩
    · rw [hresource]
      exact h.known row hr (htask.symm.trans ht)
    · exact h.known r hm ht
  served d hd := by
    obtain ⟨r, hm, hk, hs⟩ := h.served d hd
    by_cases he : r.id = row'.id
    · obtain rfl := Table.eq_of_key hm hr (he.trans hid)
      refine ⟨row', Table.mem_put.mpr (Or.inl rfl), hid.trans hk, fun hp hd' => ?_⟩
      rw [hid]
      rcases hdone hd' with hd' | hended | hsettled
      · exact hs hp hd'
      · exact hended
      · exact absurd hp (hsettled d hd hk)
    · exact ⟨r, Table.mem_put.mpr (Or.inr ⟨hm, he⟩), hk, hs⟩

theorem Served.putDelivery (h : Served m journal) (hd : d ∈ m.deliveries) (hid : d'.id = d.id)
    (hs : d'.status = .pending → d.status = .pending) :
    Served { m with deliveries := m.deliveries.put d' } journal where
  keyed := h.keyed
  known row hr htask := by
    obtain ⟨x, hx, hxid⟩ := h.known row hr htask
    by_cases hk : x.id = d'.id
    · exact ⟨d', Table.mem_put.mpr (Or.inl rfl), hk.symm.trans hxid⟩
    · exact ⟨x, Table.mem_put.mpr (Or.inr ⟨hx, hk⟩), hxid⟩
  served x hx := by
    rcases Table.mem_put.mp hx with rfl | ⟨hx, -⟩
    · obtain ⟨row, hr, hk, hdone⟩ := h.served d hd
      exact ⟨row, hr, hk.trans (congrArg emailKey hid.symm), fun hp => hdone (hs hp)⟩
    · exact h.served x hx

theorem Served.postpone {t : Reads} (h : Served m journal) : Served (m.postpone t) journal := by
  have hq : Served (m.enqueue .notifyDigest m.organizationId
      (digestKey m.organizationId (t.hour / hourLength)) t.hour) journal :=
    h.enqueue (by decide) fun id => (emailKey_ne id).symm
  unfold Mailroom.postpone
  dsimp only
  split
  · exact hq
  · rename_i row hrow
    exact hq.put (Table.get_eq_some.mp hrow).1 rfl rfl rfl Or.inl

end

theorem Served.handle {journal : List Entry} (h : Served m journal) (hr : row ∈ m.outbox)
    (hroom : handle sha256 c o row m = .ok room) : Served room journal ∧
      (∃ r ∈ room.outbox, r.id = row.id ∧ r.taskType = row.taskType ∧
        r.resourceId = row.resourceId) ∧
      ∀ d ∈ room.deliveries, row.id = emailKey d.id → d.status ≠ .pending := by
  have hnot : row.taskType ≠ .deliverEmail →
      ∀ d ∈ room.deliveries, row.id = emailKey d.id → d.status ≠ .pending :=
    fun htask d _ hk => absurd ((h.keyed row hr).deliver hk).1 htask
  have hgrown : Grown m room → row.taskType ≠ .deliverEmail → Served room journal ∧
      (∃ r ∈ room.outbox, r.id = row.id ∧ r.taskType = row.taskType ∧
        r.resourceId = row.resourceId) ∧
      ∀ d ∈ room.deliveries, row.id = emailKey d.id → d.status ≠ .pending := fun hg htask =>
    ⟨h.grown hg, ⟨row, hg.rows row hr, rfl, rfl, rfl⟩, hnot htask⟩
  unfold Notifications.handle at hroom
  split at hroom
  · rename_i htask
    have hne : row.taskType ≠ .deliverEmail := by rw [htask]; decide
    rcases prepare_ok hroom with ⟨-, rfl⟩ | ⟨-, rfl⟩ | ⟨bucket, quotas, -, -, -, hg⟩
    · exact ⟨h, ⟨row, hr, rfl, rfl, rfl⟩, hnot hne⟩
    · obtain ⟨due, hdue⟩ := postpone_row (t := o.reads) hr
      exact ⟨h.postpone, ⟨_, hdue, rfl, rfl, rfl⟩, hnot hne⟩
    · have hframe : Served { m with quotas } journal := h.frame rfl rfl
      exact ⟨hframe.grown hg, ⟨row, hg.rows row hr, rfl, rfl, rfl⟩, hnot hne⟩
  · rename_i htask
    exact hgrown (grown_security hroom) (by rw [htask]; decide)
  · rename_i htask
    obtain ⟨d, hd, hid, ⟨hs, rfl⟩ | ⟨d', hid', -, hs, rfl⟩⟩ := deliver_ok hroom
    · refine ⟨h, ⟨row, hr, rfl, rfl, rfl⟩, fun x hx hk => ?_⟩
      have hres := ((h.keyed row hr).deliver hk).2
      obtain rfl := Table.eq_of_key hx hd (hres.symm.trans hid.symm)
      exact hs
    · refine ⟨h.putDelivery hd hid' fun hp => absurd hp hs, ⟨row, hr, rfl, rfl, rfl⟩,
        fun x hx hk => ?_⟩
      have hres := ((h.keyed row hr).deliver hk).2
      rcases Table.mem_put.mp hx with rfl | ⟨-, hne⟩
      · exact hs
      · exact absurd (hres.symm.trans (hid.symm.trans hid'.symm)) hne
  · rename_i htask
    exact hgrown (grown_digest hroom) (by rw [htask]; decide)
  · cases hroom

theorem attempt_row {x : Conditions} {message : Message} {v : Verdict}
    (h : Workers.attempt x message row = (v, row')) : row'.id = row.id ∧
      row'.taskType = row.taskType ∧ row'.resourceId = row.resourceId := by
  rcases attempt_spec h with ⟨rfl, -⟩ | ⟨-, -, ⟨-, -, rfl⟩ | ⟨_, _, -, rfl⟩ | ⟨-, rfl⟩⟩ <;>
    exact ⟨rfl, rfl, rfl⟩

theorem served_step (hi : Served w.room w.journal) (h : Step sha256 c w e w') :
    Served w'.room w'.journal := by
  cases h with
  | @committed o m row row' room hrow hv hroom =>
    obtain ⟨hserved, ⟨r, hr, hid, htask, hres⟩, hsettled⟩ :=
      hi.handle (Table.get_eq_some.mp hrow).1 hroom
    obtain ⟨hid', htask', hres'⟩ := attempt_row hv
    have hput := hserved.put hr (hid'.trans hid.symm) (htask'.trans htask.symm)
      (hres'.trans hres.symm) fun _ => Or.inr (Or.inr fun d hd hk => hsettled d hd (hid ▸ hk))
    exact hput.append _
  | rolledBack failure hrow hv =>
    exact hi.append _
  | failed hrow hv =>
    exact hi.append _
  | @returned o m row row' value hrow hv =>
    obtain ⟨hid, htask, hres⟩ := attempt_row hv
    refine (hi.append (endings row row')).put (Table.get_eq_some.mp hrow).1 hid htask hres fun hd => ?_
    by_cases hsame : row' = row
    · exact Or.inl (hsame ▸ hd)
    · refine Or.inr (Or.inl (List.mem_append_right _ ?_))
      rw [endings, if_neg hsame]
      exact List.mem_singleton.mpr rfl
  | @record id failure row l hfailed hrow =>
    refine hi.put (Table.get_eq_some.mp hrow).1 rfl rfl rfl fun hd => ?_
    rw [recordFailure_status] at hd
    split at hd <;> cases hd
  | @dispatch id now row row' hrow h =>
    unfold Workers.dispatch at h
    split at h
    · obtain rfl := Option.some.inj h
      exact hi.put (Table.get_eq_some.mp hrow).1 rfl rfl rfl fun hd => by cases hd
    · cases h
  | @replay id reason now row row' hrow h =>
    unfold replayWork at h
    split at h
    · obtain rfl := Option.some.inj h
      exact hi.put (Table.get_eq_some.mp hrow).1 rfl rfl rfl fun hd => by cases hd
    · cases h
  | feedback h =>
    obtain ⟨d, hd, -, ⟨rfl, -⟩ | ⟨d', status, hstatus, -, hd', rfl⟩⟩ := feedback_ok h
    · exact hi.append _
    · have hs : d'.status ≠ .pending := by
        rw [hd']
        exact feedbackStatus_ne hstatus
      have hput := hi.putDelivery hd (hd' ▸ rfl : d'.id = d.id) fun hp => absurd hp hs
      exact (hput.append _).frame rfl rfl
  | setRoute h =>
    obtain ⟨r, -, -, -, rfl⟩ := setRoute_ok h
    have hframe : Served { w.room with alertRoutes := w.room.alertRoutes.put r } w.journal :=
      hi.frame rfl rfl
    exact hframe.append _
  | dropRoute | around => exact hi.frame rfl rfl
  | @recordEvent event now =>
    have hframe : Served { w.room with events := w.room.events ++ [event] } w.journal :=
      hi.frame rfl rfl
    unfold Mailroom.recordEvent
    dsimp only
    split
    · refine hframe.enqueue (by decide) fun id => ?_
      exact key_ne (by decide) (by decide) (by decide)
    · exact hframe
  | @audit event now =>
    have hframe : Served { w.room with auditLog := w.room.auditLog ++ [event] } w.journal :=
      hi.frame rfl rfl
    unfold Mailroom.audit
    dsimp only
    split
    · refine hframe.enqueue (by decide) fun id => ?_
      exact key_ne (by decide) (by decide) (by decide)
    · exact hframe

/-- A pending delivery has work that is not done, unless an attempt found the organization
inactive and ended the work without it. -/
theorem pending_delivery_has_work (h : Run (Step sha256 c) (opened organizationId t₀) es w) :
    ∀ d ∈ w.room.deliveries, d.status = .pending → ∃ row ∈ w.room.outbox,
      row.taskType = .deliverEmail ∧ row.resourceId = d.id ∧
        (row.status = .done → .ended row.id false ∈ w.journal) := by
  have hstart : Served (opened organizationId t₀).room (opened organizationId t₀).journal :=
    ⟨fun _ hr => absurd hr Table.not_mem_empty, fun _ hr => absurd hr Table.not_mem_empty,
      fun _ hd => absurd hd Table.not_mem_empty⟩
  have hi := h.invariant_state (I := fun w => Served w.room w.journal) hstart
    fun _ _ _ hi hs => served_step hi hs
  intro d hd hpending
  obtain ⟨row, hr, hk, hdone⟩ := hi.served d hd
  obtain ⟨htask, hres⟩ := (hi.keyed row hr).deliver hk
  exact ⟨row, hr, htask, hres, hdone hpending⟩

namespace Fixture

theorem exists_unsent : ∃ w,
    Run (Step id settings) (opened "organization" 0) (retries.take 6) w ∧
      w.room.deliveries.rows.map (fun d => (d.id, d.status)) =
        [("to-owner", .accepted), ("to-admin", .pending)] := by
  have hstatus : ((retries.take 6).foldlM (next id settings) (opened "organization" 0)).map
      (fun w => w.room.deliveries.rows.map fun d => (d.id, d.status)) =
        some [("to-owner", .accepted), ("to-admin", .pending)] := by decide +kernel
  exact Run.exists_of_foldlM (fun _ _ _ => step_of_next) hstatus

end Fixture

/-- The mail that is still to be sent has its work. -/
theorem pending_delivery_has_work_history : ∃ w : World,
    (∃ d ∈ w.room.deliveries, d.id = "to-admin" ∧ d.status = .pending) ∧
    ∀ d ∈ w.room.deliveries, d.status = .pending → ∃ row ∈ w.room.outbox,
      row.taskType = .deliverEmail ∧ row.resourceId = d.id ∧
        (row.status = .done → .ended row.id false ∈ w.journal) := by
  obtain ⟨w, hrun, hstatus⟩ := Fixture.exists_unsent
  refine ⟨w, ?_, pending_delivery_has_work hrun⟩
  have hmem : ("to-admin", DeliveryStatus.pending) ∈
      w.room.deliveries.rows.map fun d => (d.id, d.status) := by simp [hstatus]
  obtain ⟨d, hd, he⟩ := List.mem_map.mp hmem
  obtain ⟨hid, hs⟩ := Prod.mk.inj he
  exact ⟨d, hd, hid, hs⟩

end LedgerGuard.Notifications
