import LedgerGuard.Workers.Mailroom

/-! # No mail twice, and none to a silenced route

Once the mail of a cause and recipient is recorded, no other of them leaves. After
the provider reported a bounce or a complaint, nothing goes to the route until an
administrator enables it again.
-/

namespace LedgerGuard.Notifications

open Raising Transition Workers

variable {sha256 : String → String} {c : Settings} {w w' : World} {e : Event} {es : List Event}
  {m room : Mailroom} {o : Turn} {row row' : Outbox} {d d' : EmailDelivery}
  {ds ds' : Table EmailDelivery.id}

/-- Deliveries stay, under their slots, and what is settled stays settled. -/
structure Advances (ds ds' : Table EmailDelivery.id) : Prop where
  kept : ∀ d ∈ ds, ∃ d' ∈ ds', d'.id = d.id ∧ d'.slot = d.slot ∧
    (d.status ≠ .pending → d'.status ≠ .pending)
  slotted : Slotted ds → Slotted ds'

theorem Advances.refl (ds : Table EmailDelivery.id) : Advances ds ds :=
  ⟨fun d hd => ⟨d, hd, rfl, rfl, id⟩, id⟩

theorem Grown.advances {m m' : Mailroom} (h : Grown m m') : Advances m.deliveries m'.deliveries :=
  ⟨fun d hd => ⟨d, h.kept d hd, rfl, rfl, id⟩, h.slotted⟩

theorem advances_put (hd : d ∈ ds) (hid : d'.id = d.id) (hslot : d'.slot = d.slot)
    (hs : d.status ≠ .pending → d'.status ≠ .pending) : Advances ds (ds.put d') where
  kept x hx := by
    by_cases hk : x.id = d'.id
    · obtain rfl := Table.eq_of_key hx hd (hk.trans hid)
      exact ⟨d', Table.mem_put.mpr (Or.inl rfl), hid, hslot, hs⟩
    · exact ⟨x, Table.mem_put.mpr (Or.inr ⟨hx, hk⟩), rfl, rfl, id⟩
  slotted h := by
    apply slotted_put h
    intro x hx he
    rw [h x hx d hd (he.trans hslot), hid]

theorem advances_handle (h : handle sha256 c o row m = .ok room) :
    Advances m.deliveries room.deliveries := by
  unfold handle at h
  split at h
  · rcases prepare_ok h with ⟨-, rfl⟩ | ⟨-, rfl⟩ | ⟨bucket, quotas, -, -, -, hg⟩
    · exact .refl _
    · rw [postpone_deliveries]
      exact .refl _
    · exact hg.advances
  · exact (grown_security h).advances
  · obtain ⟨d, hd, -, ⟨-, rfl⟩ | ⟨d', hid, hslot, hs, rfl⟩⟩ := deliver_ok h
    · exact .refl _
    · exact advances_put hd hid hslot fun _ => hs
  · exact (grown_digest h).advances
  · cases h

theorem advances_step (h : Step sha256 c w e w') :
    Advances w.room.deliveries w'.room.deliveries := by
  cases h with
  | committed hrow hv hroom =>
    have hadvances := advances_handle hroom
    exact hadvances
  | feedback h =>
    obtain ⟨d, hd, -, ⟨rfl, -⟩ | ⟨d', status, hstatus, ht, rfl, rfl⟩⟩ := feedback_ok h
    · exact .refl _
    · refine advances_put hd rfl rfl fun _ => ?_
      exact feedbackStatus_ne hstatus
  | setRoute h =>
    obtain ⟨r, -, -, -, rfl⟩ := setRoute_ok h
    exact .refl _
  | recordEvent =>
    unfold Mailroom.recordEvent
    dsimp only
    split
    · rw [enqueue_deliveries]
      exact .refl _
    · exact .refl _
  | audit =>
    unfold Mailroom.audit
    dsimp only
    split
    · rw [enqueue_deliveries]
      exact .refl _
    · exact .refl _
  | rolledBack | failed | returned | record | dispatch | replay | dropRoute | around =>
    exact .refl _

theorem outgoing_some {mail : Mail} (h : outgoing c row m = some mail) :
    row.taskType = .deliverEmail ∧ ∃ d ∈ m.deliveries, d.id = row.resourceId ∧
      m.plan c d = .ok (.send mail) := by
  unfold outgoing at h
  split at h
  · rename_i d htask hd
    obtain ⟨hm, hid⟩ := Table.get_eq_some.mp hd
    refine ⟨htask, d, hm, hid, ?_⟩
    split at h
    · rename_i hplan
      obtain rfl := Option.some.inj h
      exact hplan
    · cases h
  · cases h

/-- What a step adds to the journal: a mail of a pending delivery, if any, and entries of other
kinds. -/
theorem step_journal (h : Step sha256 c w e w') : ∃ mails others,
    w'.journal = w.journal ++ (mails ++ others) ∧ (∀ x ∈ others, x.kind ≠ .mail) ∧
    (mails = [] ∨ ∃ d ∈ w.room.deliveries, ∃ mail recorded, mails = [.mailed mail recorded] ∧
      w.room.plan c d = .ok (.send mail) ∧ (recorded = true →
        ∃ d' ∈ w'.room.deliveries, d'.slot = mail.slot ∧ d'.status ≠ .pending)) := by
  cases h with
  | @committed o m row row' room hrow hv hroom =>
    refine ⟨o.mails c row w.room true, o.notices row w.room ++ [.ended row.id true],
      by rw [List.append_assoc], ?_, ?_⟩
    · intro x hx
      rcases List.mem_append.mp hx with hx | hx
      · rcases notices_kind hx with hk | hk <;> exact hk ▸ Kind.noConfusion
      · obtain rfl := List.mem_singleton.mp hx
        exact Kind.noConfusion
    · rcases mails_cases c o row w.room true with hnone | ⟨mail, hout, hone⟩
      · exact Or.inl hnone
      · obtain ⟨htask, d, hd, hid, hplan⟩ := outgoing_some hout
        refine Or.inr ⟨d, hd, mail, true, hone, hplan, fun _ => ?_⟩
        unfold handle at hroom
        rw [htask] at hroom
        obtain ⟨hpending, hslot, -⟩ := plan_send hplan
        obtain ⟨d₀, hd₀, hid₀, ⟨hs, -⟩ | ⟨d', -, hslot', hs, rfl⟩⟩ := deliver_ok hroom
        · obtain rfl := Table.eq_of_key hd₀ hd (hid₀.trans hid.symm)
          exact absurd hpending hs
        · obtain rfl := Table.eq_of_key hd₀ hd (hid₀.trans hid.symm)
          exact ⟨d', Table.mem_put.mpr (Or.inl rfl), hslot'.trans hslot.symm, hs⟩
  | rolledBack failure hrow hv =>
    refine ⟨_, [], by rw [List.append_nil], nofun, (mails_cases _ _ _ _ false).imp_right ?_⟩
    rintro ⟨mail, hout, hone⟩
    obtain ⟨-, d, hd, -, hplan⟩ := outgoing_some hout
    exact ⟨d, hd, mail, false, hone, hplan, nofun⟩
  | failed hrow hv =>
    refine ⟨_, [], by rw [List.append_nil], nofun, (mails_cases _ _ _ _ false).imp_right ?_⟩
    rintro ⟨mail, hout, hone⟩
    obtain ⟨-, d, hd, -, hplan⟩ := outgoing_some hout
    exact ⟨d, hd, mail, false, hone, hplan, nofun⟩
  | returned hrow hv =>
    exact ⟨[], _, rfl, fun x hx => endings_kind hx ▸ Kind.noConfusion, Or.inl rfl⟩
  | feedback h =>
    exact ⟨[], _, rfl, fun x hx => silences_kind hx ▸ Kind.noConfusion, Or.inl rfl⟩
  | setRoute h =>
    exact ⟨[], _, rfl, fun x hx => enables_kind hx ▸ Kind.noConfusion, Or.inl rfl⟩
  | record | dispatch | replay | dropRoute | around | recordEvent | audit =>
    exact ⟨[], [], (List.append_nil _).symm, nofun, Or.inl rfl⟩

/-- No mail comes after a recorded one of its cause and recipient. -/
def Apart (x y : Entry) : Prop :=
  ∀ mail mail' recorded, x = .mailed mail true → y = .mailed mail' recorded →
    mail'.slot ≠ mail.slot

theorem apart_of_right {x y : Entry} (h : y.kind ≠ .mail) : Apart x y := by
  rintro mail mail' recorded - rfl
  exact absurd rfl h

structure MailOnce (w : World) : Prop where
  slotted : Slotted w.room.deliveries
  once : w.journal.Pairwise Apart
  settled : ∀ mail, .mailed mail true ∈ w.journal →
    ∃ d ∈ w.room.deliveries, d.slot = mail.slot ∧ d.status ≠ .pending

theorem MailOnce.step (hi : MailOnce w) (h : Step sha256 c w e w') : MailOnce w' := by
  have hadvances := advances_step h
  obtain ⟨mails, others, hjournal, hothers, hmails⟩ := step_journal h
  refine ⟨hadvances.slotted hi.slotted, ?_, ?_⟩
  · rw [hjournal, List.pairwise_append, List.pairwise_append]
    refine ⟨hi.once, ⟨?_, ?_, fun x _ y hy => apart_of_right (hothers y hy)⟩, ?_⟩
    · rcases hmails with rfl | ⟨d, -, mail, recorded, rfl, -⟩
      · exact .nil
      · exact List.pairwise_singleton _ _
    · exact List.pairwise_of_forall_mem_list fun x hx y hy => apart_of_right (hothers y hy)
    · intro x hx y hy
      rcases List.mem_append.mp hy with hy | hy
      · rcases hmails with rfl | ⟨d, hd, mail, recorded, rfl, hplan, -⟩
        · cases hy
        · obtain rfl := List.mem_singleton.mp hy
          rintro mail₀ mail' recorded' rfl he heq
          obtain ⟨rfl, -⟩ := Entry.mailed.inj he
          -- The recorded mail's delivery is this one, so it would not be pending.
          obtain ⟨d₀, hd₀, hslot₀, hs₀⟩ := hi.settled mail₀ hx
          obtain ⟨hpending, hslot, -⟩ := plan_send hplan
          have hsame : d₀ = d := hi.slotted d₀ hd₀ d hd (by rw [hslot₀, ← heq, hslot])
          exact hs₀ (hsame ▸ hpending)
      · exact apart_of_right (hothers y hy)
  · intro mail hm
    rw [hjournal] at hm
    rcases List.mem_append.mp hm with hm | hm
    · obtain ⟨d, hd, hslot, hs⟩ := hi.settled mail hm
      obtain ⟨d', hd', -, hslot', hs'⟩ := hadvances.kept d hd
      exact ⟨d', hd', hslot'.trans hslot, hs' hs⟩
    · rcases List.mem_append.mp hm with hm | hm
      · rcases hmails with rfl | ⟨d, hd, mail', recorded, rfl, -, hrecorded⟩
        · cases hm
        · obtain ⟨rfl, rfl⟩ := Entry.mailed.inj (List.mem_singleton.mp hm)
          exact hrecorded rfl
      · exact absurd rfl (hothers _ hm)

namespace Fixture

def team : Surroundings :=
  { scenery with members := scenery.members ++ [{ email := "admin@shop.test", role := .admin }] }

def mailing (s : ℤ) (route : String) (response : Except WorkFailure String) : Event :=
  .attempt { turn s with response, taken := true }
    ⟨"email:to-" ++ route, .deliverEmail, "organization", "to-" ++ route, 0⟩

/-- Two mails of one finding. The first is tried again when it is recorded, and the second after a
call of the provider that took it and failed. -/
def retries : List Event :=
  [.around team, .setRoute "owner@shop.test" "owner" true 0,
    .setRoute "admin@shop.test" "admin" true 0, .recordEvent ⟨"event", "finding", .opened⟩ 0,
    .attempt { turn 1 with newId := ("to-" ++ ·) }
      ⟨"notify:event", .notify, "organization", "event", 0⟩,
    mailing 2 "owner" (.ok "first"), mailing 3 "owner" (.ok "first"),
    mailing 4 "admin" (.error (.other "ReadTimeoutError")),
    .record "email:to-admin" { now := seconds 5, jitter := Fin.last 29 },
    mailing 600 "admin" (.ok "second"), mailing 601 "admin" (.ok "second")]

end Fixture

/-- The last that happened to a route is a bounce or a complaint. -/
def silent (route : String) (journal : List Entry) : Bool :=
  journal.foldl (fun quiet x =>
    match x with
    | .silenced r => quiet || r = route
    | .enabled r => quiet && r ≠ route
    | _ => quiet) false

theorem silent_append {route : String} {xs ys : List Entry} (h : ∀ y ∈ ys, y.kind ≠ .route) :
    silent route (xs ++ ys) = silent route xs := by
  induction ys using List.reverseRecOn with
  | nil => rw [List.append_nil]
  | append_singleton ys y ih =>
    have hy := h y (by simp)
    rw [← List.append_assoc, ← ih fun z hz => h z (List.mem_append_left _ hz)]
    unfold silent
    rw [List.foldl_append]
    cases y <;> first | rfl | exact absurd rfl hy

theorem silent_silenced {route r : String} {xs : List Entry} :
    silent route (xs ++ [.silenced r]) = (silent route xs || decide (r = route)) := by
  unfold silent
  rw [List.foldl_append]
  rfl

theorem silent_enabled {route r : String} {xs : List Entry} :
    silent route (xs ++ [.enabled r]) = (silent route xs && decide (r ≠ route)) := by
  unfold silent
  rw [List.foldl_append]
  rfl

theorem handle_alertRoutes (h : handle sha256 c o row m = .ok room) :
    room.alertRoutes = m.alertRoutes := by
  unfold handle at h
  split at h
  · rcases prepare_ok h with ⟨-, rfl⟩ | ⟨-, rfl⟩ | ⟨bucket, quotas, -, -, -, hg⟩
    · rfl
    · exact postpone_alertRoutes
    · exact hg.alertRoutes
  · exact (grown_security h).alertRoutes
  · obtain ⟨d, hd, -, ⟨-, rfl⟩ | ⟨d', -, -, -, rfl⟩⟩ := deliver_ok h <;> rfl
  · exact (grown_digest h).alertRoutes
  · cases h

def Quiet (w : World) : Prop :=
  ∀ route, silent route w.journal = true →
    ∀ r ∈ w.room.alertRoutes, r.id = route → r.active = false

theorem Quiet.neutral (hi : Quiet w) (hroutes : w'.room.alertRoutes = w.room.alertRoutes)
    {xs : List Entry} (hjournal : w'.journal = w.journal ++ xs)
    (hxs : ∀ x ∈ xs, x.kind ≠ .route) : Quiet w' := by
  intro route hs r hr
  rw [hjournal, silent_append hxs] at hs
  exact hi route hs r (hroutes ▸ hr)

theorem Quiet.same (hi : Quiet w) (hroutes : w'.room.alertRoutes = w.room.alertRoutes)
    (hjournal : w'.journal = w.journal) : Quiet w' := by
  intro route hs r hr
  rw [hjournal] at hs
  exact hi route hs r (hroutes ▸ hr)

theorem AlertRoute.silenced_id {now : Instant} {id : String} (r : AlertRoute) :
    (r.silenced now id).id = r.id := by
  unfold AlertRoute.silenced
  split <;> rfl

theorem AlertRoute.silenced_active {now : Instant} {id : String} {r : AlertRoute}
    (h : r.id = id ∨ r.active = false) : (r.silenced now id).active = false := by
  unfold AlertRoute.silenced
  split
  · rfl
  · rename_i hid
    exact h.resolve_left hid

theorem Quiet.feedback {eventType id messageId : String} {now : Instant} (hi : Quiet w)
    (h : w.room.feedback eventType id messageId now = .ok room) :
    Quiet { w with clock := now, room, journal := w.journal ++ silences eventType id w.room } := by
  obtain ⟨d, hd, hid, ⟨hroom, hnone⟩ | ⟨d', status, hstatus, ht, rfl, rfl⟩⟩ := feedback_ok h
  · have hempty : silences eventType id w.room = [] := by
      unfold silences
      rw [Table.get_eq_some.mpr ⟨hd, hid⟩]
      cases hs : feedbackStatus eventType with
      | none => rfl
      | some status => exact if_neg fun ht => hnone status hs ht.1
    exact hi.same (congrArg Mailroom.alertRoutes hroom)
      ((congrArg (w.journal ++ ·) hempty).trans (List.append_nil _))
  · have hone : silences eventType id w.room =
        if status.silences then [.silenced d.route] else [] := by
      unfold silences
      rw [Table.get_eq_some.mpr ⟨hd, hid⟩, hstatus]
      simp only [ht, true_and]
    by_cases hsil : status.silences
    · intro route hs r hr he
      rw [if_pos hsil] at hone hr
      dsimp only at hs hr
      rw [hone, silent_silenced] at hs
      obtain ⟨r₀, hr₀, rfl⟩ := (Table.mem_map AlertRoute.silenced_email).mp hr
      rw [AlertRoute.silenced_id] at he
      apply AlertRoute.silenced_active
      rcases Bool.or_eq_true_iff.mp hs with hs | hs
      · exact Or.inr (hi route hs r₀ hr₀ he)
      · exact Or.inl (he.trans (of_decide_eq_true hs).symm)
    · rw [if_neg hsil] at hone
      exact hi.same (if_neg hsil) ((congrArg (w.journal ++ ·) hone).trans (List.append_nil _))

theorem Quiet.setRoute {email newId : String} {active : Bool} {now : Instant} (hi : Quiet w)
    (h : w.room.setRoute email newId active now = .ok room) :
    Quiet { w with clock := now, room, journal := w.journal ++ enables email active room } := by
  obtain ⟨r', rfl, rfl, -, rfl⟩ := setRoute_ok h
  have hget : (w.room.alertRoutes.put r').get r'.email = some r' := by
    rw [Table.get_put, if_pos rfl]
  have hone : enables r'.email r'.active { w.room with alertRoutes := w.room.alertRoutes.put r' } =
      if r'.active then [.enabled r'.id] else [] := by
    unfold enables
    rw [hget]
    rfl
  intro route hs r hr he
  dsimp only at hs hr
  rw [hone] at hs
  cases hactive : r'.active with
  | false =>
    rw [hactive, if_neg Bool.false_ne_true, List.append_nil] at hs
    rcases Table.mem_put.mp hr with rfl | ⟨hr, -⟩
    · exact hactive
    · exact hi route hs r hr he
  | true =>
    rw [hactive, if_pos rfl, silent_enabled, Bool.and_eq_true] at hs
    rcases Table.mem_put.mp hr with rfl | ⟨hr, -⟩
    · exact absurd he (of_decide_eq_true hs.2)
    · exact hi route hs.1 r hr he

theorem Quiet.dropRoute {email : String} (hi : Quiet w) :
    Quiet { w with room := w.room.dropRoute email } := by
  intro route hs r hr he
  obtain ⟨r₀, hr₀, rfl⟩ := (Table.mem_map AlertRoute.dropped_email).mp hr
  unfold AlertRoute.dropped at he ⊢
  split
  · rfl
  · rename_i hemail
    rw [if_neg hemail] at he
    exact hi route hs r₀ hr₀ he

theorem Quiet.step (hi : Quiet w) (h : Step sha256 c w e w') : Quiet w' := by
  cases h with
  | committed hrow hv hroom =>
    have hroutes := handle_alertRoutes hroom
    refine hi.neutral hroutes rfl fun x hx => ?_
    rcases List.mem_append.mp hx with hx | hx
    · rcases List.mem_append.mp hx with hx | hx
      · exact mails_kind hx ▸ Kind.noConfusion
      · rcases notices_kind hx with hk | hk <;> exact hk ▸ Kind.noConfusion
    · obtain rfl := List.mem_singleton.mp hx
      exact Kind.noConfusion
  | rolledBack failure hrow hv =>
    exact hi.neutral rfl rfl fun x hx => mails_kind hx ▸ Kind.noConfusion
  | failed hrow hv =>
    exact hi.neutral rfl rfl fun x hx => mails_kind hx ▸ Kind.noConfusion
  | returned hrow hv =>
    exact hi.neutral rfl rfl fun x hx => endings_kind hx ▸ Kind.noConfusion
  | feedback h => exact hi.feedback h
  | setRoute h => exact hi.setRoute h
  | dropRoute => exact hi.dropRoute
  | record | dispatch | replay | around => exact hi
  | recordEvent =>
    refine hi.same ?_ rfl
    unfold Mailroom.recordEvent
    dsimp only
    split <;> simp
  | audit =>
    refine hi.same ?_ rfl
    unfold Mailroom.audit
    dsimp only
    split <;> simp

/-- Every mail of the journal left while its route was not silent. -/
def Heeded (w : World) : Prop :=
  ∀ before mail recorded after, w.journal = before ++ .mailed mail recorded :: after →
    silent mail.route before = false

theorem cut_at {α : Type} {xs ys before after : List α} {a : α}
    (h : xs ++ ys = before ++ a :: after) :
    (∃ zs, xs = before ++ a :: zs) ∨ ∃ zs, before = xs ++ zs ∧ ys = zs ++ a :: after := by
  rcases List.append_eq_append_iff.mp h with ⟨zs, hb, hy⟩ | ⟨zs, hx, hy⟩
  · exact Or.inr ⟨zs, hb, hy⟩
  · cases zs with
    | nil => exact Or.inr ⟨[], by rw [hx, List.append_nil, List.append_nil], hy.symm⟩
    | cons z zs =>
      obtain ⟨rfl, -⟩ := List.cons.inj hy
      exact Or.inl ⟨zs, hx⟩

theorem Heeded.step (hq : Quiet w) (hi : Heeded w) (h : Step sha256 c w e w') : Heeded w' := by
  obtain ⟨mails, others, hjournal, hothers, hmails⟩ := step_journal h
  intro before mail recorded after he
  rw [hjournal] at he
  rcases cut_at he with ⟨xs, hw⟩ | ⟨xs, rfl, hx⟩
  · exact hi before mail recorded xs hw
  · -- The mail is new.
    have hnew : ∀ ys, others = ys ++ .mailed mail recorded :: after → False := fun ys hys =>
      hothers (.mailed mail recorded) (hys ▸ by simp) rfl
    rcases hmails with rfl | ⟨d, -, mail', recorded', rfl, hplan, -⟩
    · exact (hnew xs hx).elim
    · cases xs with
      | nil =>
        obtain ⟨rfl, -⟩ := Entry.mailed.inj (List.cons.inj hx).1
        obtain ⟨-, -, hroute, hr⟩ := plan_send hplan
        rw [List.append_nil]
        obtain ⟨r, hr, hactive, hid⟩ : ∃ r ∈ w.room.alertRoutes, r.active = true ∧
            r.id = d.route := by
          rcases hr with ⟨r, hr, hid⟩ | ⟨r, hr, hid⟩
          · exact ⟨r, (eligible_active hr).1, (eligible_active hr).2.1, hid⟩
          · exact ⟨r, (eligible_active hr).1, (eligible_active hr).2.1, hid⟩
        cases hs : silent mail'.route w.journal with
        | false => rfl
        | true => cases hactive.symm.trans (hq _ hs r hr (hid.trans hroute.symm))
      | cons x xs => exact (hnew xs (List.cons.inj hx).2).elim

end LedgerGuard.Notifications
