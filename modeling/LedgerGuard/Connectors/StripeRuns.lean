import LedgerGuard.Connectors.StripeRows

/-! # Runs over a Stripe account

Receipts, pages of listings and batches of orders are worked off in any order and any
number of times, each in a transaction of its own. Every row that they leave can be
processed by a run, and belongs to a payment that has a row, unless the provider said
that there is no such payment.
-/

namespace LedgerGuard.Connectors.StripeFacts

open Effects Ingestion Raising Scanning Transition

/-- The clock stays two hours away from the end of time. -/
def Timely (o : Provider) : Prop := ∀ n, o.now n + minutes 120 ≤ datetimeMax

/-- A row that a run can process, under an identity of its kind. -/
structure Vouched (connector : Installation) (p : Projection) : Prop where
  valid : p.StripeValid
  mode : p.mode = connector.mode
  object : ∃ kind, p.kind = storedKind kind ∧ objectId p.sourceId = true ∧
    startsWith kind.idPrefix p.sourceId = true ∧ p.status ∈ statuses kind

def AllVouched (connector : Installation) (f : Ingestion.Facts) : Prop :=
  ∀ p ∈ f.projections, Vouched connector p

instance : IsPreorder Ingestion.Facts Ingestion.Facts.KeepsRows where
  refl := .refl
  trans _ _ _ := .trans

def OnFacts (Q : Ingestion.Facts → Ingestion.Facts → Prop) (s s' : Session) : Prop :=
  Q s.facts s'.facts

instance (Q : Ingestion.Facts → Ingestion.Facts → Prop) [IsPreorder Ingestion.Facts Q] :
    IsPreorder Session (OnFacts Q) where
  refl s := Std.Refl.refl s.facts
  trans s t u h h' := by
    have hst : Q s.facts t.facts := h
    have htu : Q t.facts u.facts := h'
    have hsu : Q s.facts u.facts := IsTrans.trans _ _ _ hst htu
    exact hsu

/-- Every row that is no payment belongs to a payment with a row, but for exceptions. -/
def AttachedBut (exception : Projection → Prop) (f : Ingestion.Facts) : Prop :=
  ∀ p ∈ f.projections, p.kind ≠ .payment →
    (f.projections.get (.payment, p.parentId)).isSome = true ∨ exception p

section Rows

variable {sha256 : String → String} {o : Provider} {connector : Installation} {kind : ObjectKind}
  {sourceId : Json} {s s' : Session} {data : SourceData} {f f' : Ingestion.Facts}
  {exception : Projection → Prop} {r : Except StripeFailure (Option Projection)}
  {asked : List Exchange} {id : String}

theorem storedKind_injective : Function.Injective storedKind := by
  intro kind kind' h
  cases kind <;> cases kind' <;> first | rfl | cases h

theorem parse_paymentStatus : ∀ status ∈ statuses .paymentIntent,
    ∃ s, PaymentStatus.parse status = some s := by
  have h : ∀ status ∈ statuses .paymentIntent, (PaymentStatus.parse status).isSome = true := by
    decide
  exact fun status hs => Option.isSome_iff_exists.mp (h status hs)

theorem parse_refundStatus : ∀ status ∈ statuses .refund,
    ∃ s, RefundStatus.parse status = some s ∧ s ≠ .recorded := by
  have h : ∀ status ∈ statuses .refund,
      (RefundStatus.parse status).any (· ≠ .recorded) = true := by decide
  intro status hs
  obtain ⟨s, hp, hne⟩ := Option.any_eq_true _ _ |>.mp (h status hs)
  exact ⟨s, hp, of_decide_eq_true hne⟩

theorem firstSuccess_mem {p : Projection} {revision t : Instant}
    (h : t ∈ p.firstSuccess revision) : t = revision ∨ t ∈ p.succeededAt := by
  unfold Projection.firstSuccess at h
  split at h
  · obtain rfl := Option.some.inj h
    cases p.succeededAt with
    | none => exact Or.inl rfl
    | some u => exact Or.inr rfl
  · exact Or.inr h

theorem upsert_succeededAt {kind : Kind} {id : String} {revision t : Instant} {d : Disposition}
    {p : Projection} (h : upsert sha256 connector kind id revision data f = .ok (f', d))
    (hp : p ∈ f'.projections) (ht : t ∈ p.succeededAt) :
    t = revision ∨ ∃ q ∈ f.projections, t ∈ q.succeededAt := by
  unfold upsert at h
  simp only [observe_projections] at h
  split at h
  · obtain ⟨rfl, -⟩ := Prod.mk.inj (Except.ok.inj h)
    exact Or.inr ⟨p, hp, ht⟩
  split at h
  · obtain ⟨rfl, -⟩ := Prod.mk.inj (Except.ok.inj h)
    rw [observe_projections] at hp
    exact Or.inr ⟨p, hp, ht⟩
  split at h
  · cases h
  split at h
  · cases h
  obtain ⟨rfl, -⟩ := Prod.mk.inj (Except.ok.inj h)
  rcases Table.mem_put.mp hp with rfl | ⟨hp, -⟩
  · cases hg : f.projections.get (kind, id) with
    | none =>
      rw [hg] at ht
      exact (firstSuccess_mem ht).imp_right fun h => by cases h
    | some q =>
      rw [hg] at ht
      exact (firstSuccess_mem ht).imp_right fun hq => ⟨q, (Table.get_eq_some.mp hg).1, hq⟩
  · exact Or.inr ⟨p, hp, ht⟩

theorem Stored.keepsRows (h : Stored sha256 o connector kind sourceId data f f') :
    f.KeepsRows f' := by
  obtain ⟨id, n, d, -, -, -, -, hu⟩ := h
  exact (upsert_keepsRows hu).1

theorem Stored.row {id : String} (h : Stored sha256 o connector kind (.str id) data f f') :
    (f'.projections.get (storedKind kind, id)).isSome = true := by
  obtain ⟨id', n, d, hid, -, -, -, hu⟩ := h
  obtain rfl := resourceId_text hid
  exact (upsert_keepsRows hu).2

theorem Stored.vouched (h : Stored sha256 o connector kind sourceId data f f') (hclock : Timely o)
    (hf : AllVouched connector f) : AllVouched connector f' := by
  obtain ⟨id, n, d, hid, hprefix, hn, -, hu⟩ := h
  have hsucceeded : ∀ p ∈ f'.projections, ∀ t ∈ p.succeededAt, t + minutes 120 ≤ datetimeMax := by
    intro p hp t ht
    rcases upsert_succeededAt hu hp ht with rfl | ⟨q, hq, ht⟩
    · exact hclock n
    · exact (hf q hq).valid.succeededAt t ht
  intro p hp
  have hsuccess := hsucceeded p hp
  rcases upsert_projections hu with he | ⟨q, times, ht, he, hk, hs, hr, -, hm, hc⟩
  · rw [he] at hp
    exact hf p hp
  rw [he] at hp
  rcases Table.mem_put.mp hp with rfl | ⟨hp, -⟩
  case inr => exact hf p hp
  have hcol : ∀ {α : Type} {x : α} (g : Projection → α), g (p.assign data times) = x → g p = x :=
    fun g hx => (congrArg g hc).symm.trans hx
  have hstatus : p.status = data.status := hcol Projection.status rfl
  have hamount : p.amountMinor = data.amountMinor := hcol Projection.amountMinor rfl
  have hcurrency : p.currency = data.currency := hcol Projection.currency rfl
  have hexponent : p.exponent = data.exponent := hcol Projection.exponent rfl
  refine ⟨⟨?_, ?_, ?_, ?_, ?_, hsuccess⟩, hm, kind, hk, ?_, ?_, hstatus ▸ hn.status⟩
  · rw [hk]
    cases kind <;> simp [storedKind]
  · intro hpayment
    obtain rfl : kind = .paymentIntent := storedKind_injective (hk.symm.trans hpayment)
    obtain ⟨m, hreceived, hle⟩ := hn.received rfl
    refine ⟨hs ▸ hprefix, ?_, ?_⟩
    · rw [hstatus]
      exact parse_paymentStatus _ hn.status
    · rw [hcol Projection.receivedMinor (x := m) (by simp [Projection.assign, hreceived])]
      exact hle
  · intro hrefund
    obtain rfl : kind = .refund := storedKind_injective (hk.symm.trans hrefund)
    rw [hstatus]
    exact parse_refundStatus _ hn.status
  · rw [hamount, hcurrency, hexponent]
    exact hn.amount
  · rw [hr]
    exact hclock n
  · rw [hs]
    exact resourceId_required hid
  · rw [hs]
    exact hprefix

theorem Stored.attached (h : Stored sha256 o connector kind sourceId data f f')
    (hid : resourceId false sourceId = .ok id) (hf : AttachedBut exception f) :
    AttachedBut (fun p => exception p ∨
      (p.kind = storedKind kind ∧ p.sourceId = id ∧ data.parentId = some p.parentId)) f' := by
  have hkeeps := h.keepsRows
  obtain ⟨id', n, d, hid', -, hn, -, hu⟩ := h
  obtain rfl := Except.ok.inj (hid.symm.trans hid')
  intro p hp hk
  rcases upsert_projections hu with he | ⟨q, times, -, he, hkq, hsq, -, -, -, hc⟩
  · rw [he] at hp
    exact (hf p hp hk).imp (hkeeps _) Or.inl
  rw [he] at hp
  rcases Table.mem_put.mp hp with rfl | ⟨hp, -⟩
  · right; right
    refine ⟨hkq, hsq, ?_⟩
    cases hparent : data.parentId with
    | none =>
      rw [hn.parent.mp hparent] at hkq
      exact absurd hkq hk
    | some parentId =>
      have hcol : (p.assign data times).parentId = parentId := by
        simp [Projection.assign, hparent]
      rw [hc] at hcol
      rw [hcol]
  · exact (hf p hp hk).imp (hkeeps _) Or.inl

theorem Stored.attached_payment (h : Stored sha256 o connector .paymentIntent sourceId data f f')
    (hf : AttachedBut exception f) : AttachedBut exception f' := by
  obtain ⟨id, n, d, hid, hrest⟩ := id h
  intro p hp hk
  exact (h.attached hid hf p hp hk).imp_right fun he => he.resolve_right fun h => hk h.1

theorem Fetched.keepsRows (h : Fetched sha256 o connector kind sourceId f asked r f') :
    f.KeepsRows f' := by
  cases h with
  | outside => exact .refl _
  | payment hk hstored => exact hstored.keepsRows
  | child hstored hparent hpayment => exact hstored.keepsRows.trans hpayment.keepsRows
  | refused => exact .refl _
  | orphaned hstored hid hparent hmissing => exact hstored.keepsRows

theorem Fetched.vouched (h : Fetched sha256 o connector kind sourceId f asked r f')
    (hclock : Timely o) (hf : AllVouched connector f) : AllVouched connector f' := by
  cases h with
  | outside => exact hf
  | payment hk hstored => exact hstored.vouched hclock hf
  | child hstored hparent hpayment => exact hpayment.vouched hclock (hstored.vouched hclock hf)
  | refused => exact hf
  | orphaned hstored hid hparent hmissing => exact hstored.vouched hclock hf

theorem Fetched.attached {row : Option Projection}
    (h : Fetched sha256 o connector kind sourceId f asked (.ok row) f')
    (hf : AttachedBut exception f) : AttachedBut exception f' := by
  cases h with
  | outside => exact hf
  | payment hk hstored =>
    subst hk
    exact hstored.attached_payment hf
  | child hstored hparent hpayment =>
    obtain ⟨id, n, d, hid, hrest⟩ := id hstored
    intro p hp hk
    rcases hpayment.attached_payment (hstored.attached hid hf) p hp hk with h | h | ⟨-, -, h⟩
    · exact Or.inl h
    · exact Or.inr h
    · left
      rw [hparent] at h
      obtain rfl := Option.some.inj h
      exact hpayment.row

/-- A look-up asked for the object and found its payment unavailable. -/
def Orphan (asked : List Exchange) (p : Projection) : Prop :=
  ∃ kind, p.kind = storedKind kind ∧ LostPayment kind p.sourceId p.parentId asked

theorem Orphan.mono {asked' : List Exchange} {p : Projection} (h : Orphan asked p)
    (hsub : asked <:+: asked') : Orphan asked' p := by
  obtain ⟨kind, hk, hlost⟩ := h
  exact ⟨kind, hk, hlost.mono hsub⟩

theorem Fetched.attached_unavailable {e : StripeFailure}
    (h : Fetched sha256 o connector kind sourceId f asked (.error e) f') (hk : kind ≠ .refund)
    (hu : isUnavailable e = true) (hf : AttachedBut exception f) :
    AttachedBut (fun p => exception p ∨ Orphan asked p) f' := by
  cases h with
  | refused => exact fun p hp hkp => (hf p hp hkp).imp_right Or.inl
  | orphaned hstored hid hparent hlost =>
    intro p hp hkp
    refine (hstored.attached hid hf p hp hkp).imp_right fun h => h.imp_right ?_
    rintro ⟨hkind, rfl, hp⟩
    rw [hparent] at hp
    obtain rfl := Option.some.inj hp
    exact ⟨kind, hkind, hlost hu hk⟩

end Rows

section Callers

variable {sha256 : String → String} {o : Provider} {connector : Installation}
  {s s' : Session} {exception : Projection → Prop}

section Within

variable {R : Session → Session → Prop} [IsPreorder Session R]

theorem fetchListing_within {kind : Option ObjectKind} {rows : List Json}
    (hfetch : ∀ kind id, Within R (fetchResource sha256 o connector kind id)) :
    Within R (fetchListing sha256 o connector kind rows) := by
  apply within_forM
  intro value
  refine within_bind within_lift fun found => ?_
  rcases found with _ | ⟨kind, sourceId⟩
  · exact within_pure
  · exact within_bind (hfetch _ _) fun _ => within_pure

theorem lookUpOrders_within {batch : List Projection}
    (hfetch : ∀ kind id, Within R (fetchResource sha256 o connector kind id)) :
    Within R (lookUpOrders sha256 o connector batch) := by
  apply within_forM
  intro order
  apply within_forM
  intro ref
  refine within_tryCatch (within_bind (hfetch _ _) fun _ => within_pure) fun e => ?_
  split
  · exact within_pure
  · exact within_throw

theorem processReceipt_within {receipt : WebhookReceipt}
    (hfetch : ∀ kind id, Within R (fetchResource sha256 o connector kind id)) :
    Within R (processReceipt sha256 o connector receipt) := by
  unfold processReceipt
  split
  · exact within_pure
  · refine within_bind within_lift fun _ => ?_
    split
    · exact within_throw
    · exact within_bind (hfetch _ _) fun _ => within_pure

end Within

theorem fetchListing_attached {kind : Option ObjectKind} {rows : List Json}
    (h : Ends (fetchListing sha256 o connector kind rows) s (.ok ()) s')
    (hs : AttachedBut exception s.facts) : AttachedBut exception s'.facts := by
  refine forM_ok (I := fun s => AttachedBut exception s.facts) ?_ h hs
  intro value s s' hs h
  rcases ends_lift_bind.mp h with ⟨found, -, h⟩ | ⟨e, -, hr, -⟩
  · rcases found with _ | ⟨kind, sourceId⟩
    · obtain ⟨-, rfl⟩ := ends_pure.mp h
      exact hs
    · rcases ends_bind.mp h with ⟨row, t, hfetch, h⟩ | ⟨e, -, hr⟩
      · obtain ⟨-, rfl⟩ := ends_pure.mp h
        obtain ⟨asked, -, hfetched⟩ := fetchResource_ends hfetch
        exact hfetched.attached hs
      · cases hr
  · cases hr

theorem referenceKind_ne {ref : String} : referenceKind ref ≠ .refund := by
  unfold referenceKind
  split
  · decide
  · split <;> decide

/-- Every row has its payment but for exceptions and the orphans of the transaction. -/
def AttachedSoFar (exception : Projection → Prop) (s : Session) : Prop :=
  AttachedBut (fun p => exception p ∨ Orphan s.asked p) s.facts

theorem AttachedSoFar.widen {asked : List Exchange} (h : AttachedSoFar exception s)
    (hasked : s'.asked = s.asked ++ asked) :
    AttachedBut (fun p => exception p ∨ Orphan s'.asked p) s.facts := by
  intro p hp hk
  refine (h p hp hk).imp_right fun he => he.imp_right fun ho => ho.mono ?_
  rw [hasked]
  exact (List.prefix_append ..).isInfix

theorem lookUp_attached {ref : String} (h : Ends (lookUp sha256 o connector ref) s (.ok ()) s')
    (hs : AttachedSoFar exception s) : AttachedSoFar exception s' := by
  rcases ends_tryCatch.mp h with ⟨u, h, -⟩ | ⟨e, t, hraise, h⟩
  · rcases ends_bind.mp h with ⟨row, t, hfetch, h⟩ | ⟨e, -, hr⟩
    · obtain ⟨-, rfl⟩ := ends_pure.mp h
      obtain ⟨asked, hasked, hfetched⟩ := fetchResource_ends hfetch
      exact hfetched.attached (hs.widen hasked)
    · cases hr
  · rcases ends_bind.mp hraise with ⟨row, u, -, hr⟩ | ⟨e', hfetch, hr⟩
    · cases (ends_pure.mp hr).1
    · obtain rfl := Except.error.inj hr
      split at h
      · rename_i hu
        obtain ⟨-, rfl⟩ := ends_pure.mp h
        obtain ⟨asked, hasked, hfetched⟩ := fetchResource_ends hfetch
        have hattached := hfetched.attached_unavailable referenceKind_ne hu (hs.widen hasked)
        intro p hp hk
        refine (hattached p hp hk).imp_right fun he => he.elim id fun ho => Or.inr (ho.mono ?_)
        rw [hasked]
        exact (List.suffix_append ..).isInfix
      · cases (ends_throw.mp h).1

theorem lookUpOrders_attached {batch : List Projection}
    (h : Ends (lookUpOrders sha256 o connector batch) s (.ok ()) s')
    (hs : AttachedSoFar exception s) : AttachedSoFar exception s' := by
  refine forM_ok (I := AttachedSoFar exception) ?_ h hs
  intro order s s' hs h
  refine forM_ok (I := AttachedSoFar exception) ?_ h hs
  intro ref s s' hs h
  exact lookUp_attached h hs

theorem processReceipt_ends {receipt receipt' : WebhookReceipt}
    (h : Ends (processReceipt sha256 o connector receipt) s (.ok receipt') s') :
    (receipt' = receipt ∧ s' = s ∧ (receipt.status = .normalized ∨ receipt.status = .ignored)) ∨
    ∃ kind row asked, receipt.kind = some kind ∧
      receipt' = { receipt with status := .normalized } ∧ s'.asked = s.asked ++ asked ∧
      Fetched sha256 o connector kind (.str receipt.sourceId) s.facts asked (.ok row) s'.facts := by
  unfold processReceipt at h
  split at h
  case isTrue hdone =>
    obtain ⟨hr, rfl⟩ := ends_pure.mp h
    exact Or.inl ⟨Except.ok.inj hr, rfl, hdone⟩
  case isFalse hopen =>
    rcases ends_lift_bind.mp h with ⟨_, -, h⟩ | ⟨e, -, hr, -⟩
    · split at h
      · cases (ends_throw.mp h).1
      · rename_i kind hkind
        rcases ends_bind.mp h with ⟨row, t, hfetch, h⟩ | ⟨e, -, hr⟩
        · obtain ⟨hr, rfl⟩ := ends_pure.mp h
          obtain ⟨asked, hasked, hfetched⟩ := fetchResource_ends hfetch
          exact Or.inr ⟨kind, row, asked, hkind, Except.ok.inj hr, hasked, hfetched⟩
        · cases hr
    · cases hr

end Callers

/-- An event about an object that is not fetched has no work. -/
def WebhookReceipt.initialStatus (receipt : WebhookReceipt) : WebhookStatus :=
  if receipt.kind.isSome then .pending else .ignored

/-- The facts of an account and the webhook events that were received for it. -/
structure World where
  facts : Ingestion.Facts := {}
  receipts : Table WebhookReceipt.id := .empty

inductive Event
  /-- The webhook of Stripe stores an event. -/
  | received (receipt : WebhookReceipt)
  | processed (receiptId : String) (o : Provider)
  | listed (kind : Option ObjectKind) (rows : List Json) (o : Provider)
  | lookedUp (batch : List Projection) (o : Provider)
  /-- Work that raises takes back what it has stored. -/
  | rolledBack
  | failed (receiptId : String)

def Event.provider : Event → Option Provider
  | .processed _ o | .listed _ _ o | .lookedUp _ o => some o
  | _ => none

section Runs

variable (sha256 : String → String) (connector : Installation)

inductive Step : World → Event → World → Prop

  | received {w receipt} : w.receipts.get receipt.id = none →
      receipt.status = receipt.initialStatus →
      Step w (.received receipt) { w with receipts := w.receipts.put receipt }

  | processed {w id o receipt receipt' s'} : w.receipts.get id = some receipt →
      Ends (processReceipt sha256 o connector receipt) ⟨[], w.facts⟩ (.ok receipt') s' →
      Step w (.processed id o) ⟨s'.facts, w.receipts.put receipt'⟩

  | listed {w kind rows o s'} :
      Ends (fetchListing sha256 o connector kind rows) ⟨[], w.facts⟩ (.ok ()) s' →
      Step w (.listed kind rows o) { w with facts := s'.facts }

  | lookedUp {w batch o s'} :
      Ends (lookUpOrders sha256 o connector batch) ⟨[], w.facts⟩ (.ok ()) s' →
      Step w (.lookedUp batch o) { w with facts := s'.facts }

  | rolledBack {w} : Step w .rolledBack w

  | failed {w id receipt} : w.receipts.get id = some receipt →
      Step w (.failed id) { w with receipts := w.receipts.put { receipt with status := .failed } }

/-- The step as a function; what raises makes none. -/
def next (w : World) : Event → Option World
  | .received receipt =>
    if (w.receipts.get receipt.id).isNone ∧ receipt.status = receipt.initialStatus then
      some { w with receipts := w.receipts.put receipt }
    else none
  | .processed id o => do
    let receipt ← w.receipts.get id
    let x := (processReceipt sha256 o connector receipt).run.run ⟨[], w.facts⟩
    let receipt' ← x.1.toOption
    some ⟨x.2.facts, w.receipts.put receipt'⟩
  | .listed kind rows o => do
    let x := (fetchListing sha256 o connector kind rows).run.run ⟨[], w.facts⟩
    let _ ← x.1.toOption
    some { w with facts := x.2.facts }
  | .lookedUp batch o => do
    let x := (lookUpOrders sha256 o connector batch).run.run ⟨[], w.facts⟩
    let _ ← x.1.toOption
    some { w with facts := x.2.facts }
  | .rolledBack => some w
  | .failed id => do
    let receipt ← w.receipts.get id
    some { w with receipts := w.receipts.put { receipt with status := .failed } }

end Runs

section Histories

variable {sha256 : String → String} {connector : Installation} {w w' : World} {e : Event}
  {events : List Event}

theorem eq_ok_of_toOption {α : Type} {x : Except StripeFailure α} {a : α} (h : x.toOption = some a) :
    x = .ok a := by
  cases x with
  | error e => cases h
  | ok b => rw [Option.some.inj h]

theorem step_of_next (h : next sha256 connector w e = some w') : Step sha256 connector w e w' := by
  cases e with
  | received receipt =>
    simp only [next] at h
    split at h
    · rename_i hc
      obtain rfl := Option.some.inj h
      exact .received (Option.isNone_iff_eq_none.mp hc.1) hc.2
    · cases h
  | processed id o =>
    obtain ⟨receipt, hget, h⟩ := Option.bind_eq_some_iff.mp h
    obtain ⟨receipt', hok, h⟩ := Option.bind_eq_some_iff.mp h
    obtain rfl := Option.some.inj h
    exact .processed hget (Prod.ext (eq_ok_of_toOption hok) rfl)
  | listed kind rows o =>
    obtain ⟨_, hok, h⟩ := Option.bind_eq_some_iff.mp h
    obtain rfl := Option.some.inj h
    exact .listed (Prod.ext (eq_ok_of_toOption hok) rfl)
  | lookedUp batch o =>
    obtain ⟨_, hok, h⟩ := Option.bind_eq_some_iff.mp h
    obtain rfl := Option.some.inj h
    exact .lookedUp (Prod.ext (eq_ok_of_toOption hok) rfl)
  | rolledBack =>
    obtain rfl := Option.some.inj h
    exact .rolledBack
  | failed id =>
    obtain ⟨receipt, hget, h⟩ := Option.bind_eq_some_iff.mp h
    obtain rfl := Option.some.inj h
    exact .failed hget

theorem step_keeps {Q : Ingestion.Facts → Ingestion.Facts → Prop} [IsPreorder Ingestion.Facts Q]
    (hstep : Step sha256 connector w e w') (hfetch : ∀ o ∈ e.provider, ∀ kind id,
      Within (OnFacts Q) (fetchResource sha256 o connector kind id)) : Q w.facts w'.facts := by
  cases hstep with
  | received => exact Std.Refl.refl _
  | processed hget h => exact processReceipt_within (hfetch _ rfl) _ _ _ h
  | listed h => exact fetchListing_within (hfetch _ rfl) _ _ _ h
  | lookedUp h => exact lookUpOrders_within (hfetch _ rfl) _ _ _ h
  | rolledBack => exact Std.Refl.refl _
  | failed => exact Std.Refl.refl _

/-- Whatever the provider answers, every stored row is one that a run can process. -/
theorem stored_rows_vouched (hrun : Run (Step sha256 connector) {} events w)
    (hclock : ∀ e ∈ events, ∀ o ∈ e.provider, Timely o) :
    ∀ p ∈ w.facts.projections, Vouched connector p := by
  induction hrun with
  | nil => exact fun p hp => absurd hp Table.not_mem_empty
  | @snoc events w e w' hrun hstep ih =>
    have hv : AllVouched connector w.facts := ih fun e he => hclock e (List.mem_append_left _ he)
    have hkeep : Keeping (AllVouched connector) w.facts w'.facts := by
      refine step_keeps hstep fun o ho _ _ _ _ _ h => ?_
      obtain ⟨asked, -, hfetched⟩ := fetchResource_ends h
      exact hfetched.vouched (hclock e (by simp) o ho)
    exact hkeep hv

theorem step_keepsRows (hstep : Step sha256 connector w e w') : w.facts.KeepsRows w'.facts := by
  refine step_keeps hstep fun _ _ _ _ _ _ _ h => ?_
  obtain ⟨asked, -, hfetched⟩ := fetchResource_ends h
  exact hfetched.keepsRows

section Asked

variable (sha256 : String → String) (connector : Installation)

def lookUpAsked (o : Provider) (batch : List Projection) (f : Ingestion.Facts) : List Exchange :=
  ((lookUpOrders sha256 o connector batch).run.run ⟨[], f⟩).2.asked

def receiptAsked (o : Provider) (receipt : WebhookReceipt) (f : Ingestion.Facts) : List Exchange :=
  ((processReceipt sha256 o connector receipt).run.run ⟨[], f⟩).2.asked

/-- A look-up of the run has read the object of the row, with this parent, and right after it has
found the parent unavailable. -/
def Excused (events : List Event) (p : Projection) : Prop :=
  ∃ before batch o rest v, events = before ++ .lookedUp batch o :: rest ∧
    Run (Step sha256 connector) {} before v ∧ Orphan (lookUpAsked sha256 connector o batch v.facts) p

/-- The work on the receipt has been told that its object has no payment. -/
def ToldNone (events : List Event) (receiptId : String) (kind : ObjectKind) (sourceId : String) :
    Prop :=
  ∃ before o rest v receipt, events = before ++ .processed receiptId o :: rest ∧
    Run (Step sha256 connector) {} before v ∧ v.receipts.get receiptId = some receipt ∧
    NoPayment kind sourceId (receiptAsked sha256 connector o receipt v.facts)

end Asked

theorem Excused.append {p : Projection} (h : Excused sha256 connector events p) :
    Excused sha256 connector (events ++ [e]) p := by
  obtain ⟨before, batch, o, rest, v, rfl, hv⟩ := h
  exact ⟨before, batch, o, rest ++ [e], v, by simp, hv⟩

theorem ToldNone.append {receiptId sourceId : String} {kind : ObjectKind}
    (h : ToldNone sha256 connector events receiptId kind sourceId) :
    ToldNone sha256 connector (events ++ [e]) receiptId kind sourceId := by
  obtain ⟨before, o, rest, v, receipt, rfl, hv⟩ := h
  exact ⟨before, o, rest ++ [e], v, receipt, by simp, hv⟩

theorem attached_of_run (hrun : Run (Step sha256 connector) {} events w) :
    AttachedBut (Excused sha256 connector events) w.facts := by
  induction hrun with
  | nil => exact fun p hp => absurd hp Table.not_mem_empty
  | @snoc events w e w' hrun hstep ih =>
    have hw : AttachedBut (Excused sha256 connector (events ++ [e])) w.facts :=
      fun p hp hk => (ih p hp hk).imp_right Excused.append
    cases hstep with
    | received => exact hw
    | processed hget h =>
      rcases processReceipt_ends h with ⟨-, rfl, -⟩ | ⟨kind, row, asked, -, -, -, hfetch⟩
      · exact hw
      · exact hfetch.attached hw
    | listed h => exact fetchListing_attached h hw
    | @lookedUp batch o s' h =>
      have hstart : AttachedSoFar (Excused sha256 connector (events ++ [.lookedUp batch o]))
          ⟨[], w.facts⟩ := fun p hp hk => (hw p hp hk).imp_right Or.inl
      have hend := lookUpOrders_attached h hstart
      have hasked : s'.asked = lookUpAsked sha256 connector o batch w.facts := by
        rw [lookUpAsked, h]
      intro p hp hk
      refine (hend p hp hk).imp_right fun he => he.elim id fun ho => ?_
      rw [hasked] at ho
      exact ⟨events, batch, o, [], w, rfl, hrun, ho⟩
    | rolledBack => exact hw
    | failed => exact hw

/-- A charge, session or refund is stored with its payment; only a look-up of orders, which goes
on when the provider has no such payment, leaves a charge or a session without one. -/
theorem stored_rows_have_payments (hrun : Run (Step sha256 connector) {} events w) :
    ∀ p ∈ w.facts.projections, p.kind ≠ .payment →
      (∃ q ∈ w.facts.projections, q.kind = .payment ∧ q.sourceId = p.parentId) ∨
      Excused sha256 connector events p := by
  intro p hp hk
  refine (attached_of_run hrun p hp hk).imp_left fun h => ?_
  obtain ⟨q, hq⟩ := Option.isSome_iff_exists.mp h
  obtain ⟨hq, hkey⟩ := Table.get_eq_some.mp hq
  exact ⟨q, hq, (Prod.mk.inj hkey).1, (Prod.mk.inj hkey).2⟩

/-- What a receipt came to, once it is normalized. -/
def Settled (sha256 : String → String) (connector : Installation) (events : List Event) (w : World)
    (receipt : WebhookReceipt) : Prop :=
  ∃ kind, receipt.kind = some kind ∧
    ((w.facts.projections.get (storedKind kind, receipt.sourceId)).isSome = true ∨
      (kind ≠ .paymentIntent ∧
        ToldNone sha256 connector events receipt.id kind receipt.sourceId))

theorem Settled.step {receipt : WebhookReceipt} (h : Settled sha256 connector events w receipt)
    (hstep : Step sha256 connector w e w') :
    Settled sha256 connector (events ++ [e]) w' receipt := by
  obtain ⟨kind, hk, h⟩ := h
  exact ⟨kind, hk, h.imp (step_keepsRows hstep _) fun ⟨hne, htold⟩ => ⟨hne, htold.append⟩⟩

theorem Fetched.settled {kind : ObjectKind} {o : Provider} {receipt : WebhookReceipt}
    {row : Option Projection} {f' : Ingestion.Facts} {asked : List Exchange}
    (hrun : Run (Step sha256 connector) {} events w)
    (hget : w.receipts.get receipt.id = some receipt) (hk : receipt.kind = some kind)
    (hasked : receiptAsked sha256 connector o receipt w.facts = asked)
    (h : Fetched sha256 o connector kind (.str receipt.sourceId) w.facts asked (.ok row) f') :
    ∃ kind, receipt.kind = some kind ∧
      ((f'.projections.get (storedKind kind, receipt.sourceId)).isSome = true ∨
        (kind ≠ .paymentIntent ∧ ToldNone sha256 connector
          (events ++ [.processed receipt.id o]) receipt.id kind receipt.sourceId)) := by
  refine ⟨kind, hk, ?_⟩
  cases h with
  | outside hne hid hnone =>
    obtain rfl := resourceId_text hid
    subst hasked
    exact Or.inr ⟨hne, events, o, [], w, receipt, rfl, hrun, hget, hnone⟩
  | payment hp hstored => exact Or.inl hstored.row
  | child hstored hparent hpayment => exact Or.inl (hpayment.keepsRows _ hstored.row)

/-- A webhook event that is normalized has left the row of its object, unless the provider was
asked for the object and named no payment for it; an event about a payment always has. -/
theorem normalized_receipts_stored (hrun : Run (Step sha256 connector) {} events w) :
    ∀ receipt ∈ w.receipts, receipt.status = .normalized →
      Settled sha256 connector events w receipt := by
  induction hrun with
  | nil => exact fun receipt hr => absurd hr Table.not_mem_empty
  | @snoc events w e w' hrun hstep ih =>
    intro receipt hr hn
    have hold : receipt ∈ w.receipts → Settled sha256 connector (events ++ [e]) w' receipt :=
      fun hr => (ih receipt hr hn).step hstep
    cases hstep with
    | @received new hfree hstatus =>
      rcases Table.mem_put.mp hr with rfl | ⟨hr, -⟩
      · rw [hn, WebhookReceipt.initialStatus] at hstatus
        split at hstatus <;> cases hstatus
      · exact hold hr
    | @processed id o old receipt' s' hget h =>
      rcases Table.mem_put.mp hr with rfl | ⟨hr, -⟩
      · obtain ⟨hold', rfl⟩ := Table.get_eq_some.mp hget
        rcases processReceipt_ends h with ⟨rfl, -, -⟩ | ⟨kind, row, asked, hk, rfl, hasked, hfetch⟩
        · exact hold hold'
        · have hsame : receiptAsked sha256 connector o old w.facts = asked := by
            rw [receiptAsked, h]
            exact hasked
          have hsettled := Fetched.settled hrun hget hk hsame hfetch
          exact hsettled
      · exact hold hr
    | listed h => exact hold hr
    | lookedUp h => exact hold hr
    | rolledBack => exact hold hr
    | @failed id old hget =>
      rcases Table.mem_put.mp hr with rfl | ⟨hr, -⟩
      · cases hn
      · exact hold hr

end Histories

namespace Fixture

def account : Installation where
  id := "account"
  organizationId := "organization"
  storeId := none
  mode := .test

def payment : Object :=
  [("id", .str "pi_one"), ("object", .str "payment_intent"), ("livemode", .bool false),
    ("amount", .int 1000), ("currency", .str "eur"), ("created", .int 1788609600),
    ("status", .str "succeeded"), ("amount_received", .int 1000), ("amount_capturable", .int 0),
    ("latest_charge", .str "ch_one"), ("payment_method_types", .arr [.str "card"]),
    ("metadata", .obj [("order_id", .str "101")])]

def refund : Object :=
  [("id", .str "re_one"), ("object", .str "refund"), ("livemode", .bool false),
    ("amount", .int 500), ("currency", .str "eur"), ("created", .int 1788609660),
    ("status", .str "succeeded"), ("payment_intent", .str "pi_one")]

/-- A charge whose payment cannot be read any more. -/
def charge : Object :=
  [("id", .str "ch_two"), ("object", .str "charge"), ("livemode", .bool false),
    ("amount", .int 700), ("currency", .str "eur"), ("created", .int 1788609600),
    ("captured", .bool true), ("amount_refunded", .int 0), ("payment_intent", .str "pi_two")]

/-- A session of a subscription. -/
def session : Object :=
  [("id", .str "cs_one"), ("object", .str "checkout.session"), ("livemode", .bool false),
    ("payment_intent", .null)]

def answers : List (String × Object) :=
  [("/v1/payment_intents/pi_one", payment), ("/v1/refunds/re_one", refund),
    ("/v1/charges/ch_two", charge), ("/v1/checkout/sessions/cs_one", session)]

def provider : Provider where
  get _ path :=
    (answers.lookup path).elim (.error (.connector "STRIPE_RESOURCE_UNAVAILABLE" false)) .ok
  now _ := 1788609900000000

def order : Projection where
  kind := .order
  sourceId := "101"
  storeId := some "store"
  mode := .test
  status := "completed"
  amountMinor := 700
  currency := "EUR"
  exponent := 2
  chargeId := "ch_two"
  createdAtSource := 1788609600000000
  revision := 1788609600000000
  observation :=
    ⟨.order, "101", 1788609600000000, "", ⟨"completed", 700, "EUR", 2, "", none, none, none, none,
      none, none, none, none, none, none, none, none, none, none⟩, currencyTableVersion⟩

/-- Webhook events about a refund and a session, and a look-up that finds a charge without its
payment. -/
def history : List Event :=
  [.received ⟨"receipt", some .refund, "re_one", .pending⟩, .processed "receipt" provider,
    .received ⟨"other", some .checkoutSession, "cs_one", .pending⟩, .processed "other" provider,
    .rolledBack, .lookedUp [order] provider]

def rowKeys (w : World) : List (Kind × String × String) :=
  w.facts.projections.rows.map fun p => (p.kind, p.sourceId, p.parentId)

def receiptKeys (w : World) : List (String × Option ObjectKind × String × WebhookStatus) :=
  w.receipts.rows.map fun r => (r.id, r.kind, r.sourceId, r.status)

theorem exists_history : ∃ w, Run (Step id account) {} history w ∧
    rowKeys w = [(.stripeRefund, "re_one", "pi_one"), (.payment, "pi_one", ""),
      (.charge, "ch_two", "pi_two")] ∧
    receiptKeys w = [("receipt", some .refund, "re_one", .normalized),
      ("other", some .checkoutSession, "cs_one", .normalized)] := by
  have hrows : (history.foldlM (next id account) {}).map rowKeys =
      some [(.stripeRefund, "re_one", "pi_one"), (.payment, "pi_one", ""),
        (.charge, "ch_two", "pi_two")] := by decide +kernel
  have hreceipts : (history.foldlM (next id account) {}).map receiptKeys =
      some [("receipt", some .refund, "re_one", .normalized),
        ("other", some .checkoutSession, "cs_one", .normalized)] := by decide +kernel
  obtain ⟨w, hw, hrows⟩ := Option.map_eq_some_iff.mp hrows
  rw [hw] at hreceipts
  exact ⟨w, Run.of_foldlM (fun _ _ _ => step_of_next) hw, hrows, Option.some.inj hreceipts⟩

theorem timely_provider : Timely provider := by
  intro n
  change (1788609900000000 : ℤ) + minutes 120 ≤ datetimeMax
  decide

theorem timely_history : ∀ e ∈ history, ∀ o ∈ e.provider, Timely o := by
  have hall : ∀ e ∈ history, e.provider = none ∨ e.provider = some provider := by
    intro e he
    simp only [history, List.mem_cons, List.not_mem_nil, or_false] at he
    rcases he with rfl | rfl | rfl | rfl | rfl | rfl
    · exact Or.inl rfl
    · exact Or.inr rfl
    · exact Or.inl rfl
    · exact Or.inr rfl
    · exact Or.inl rfl
    · exact Or.inr rfl
  intro e he o ho
  rcases hall e he with h | h
  · rw [h] at ho
    cases ho
  · rw [h] at ho
    obtain rfl := Option.some.inj ho
    exact timely_provider

theorem stored_rows_vouched_history : ∃ w : World,
    w.facts.projections.rows.length = 3 ∧ ∀ p ∈ w.facts.projections, Vouched account p := by
  obtain ⟨w, hw, hrows, -⟩ := exists_history
  have hlength := congrArg List.length hrows
  rw [rowKeys, List.length_map] at hlength
  exact ⟨w, hlength, stored_rows_vouched hw timely_history⟩

/-- The refund has its payment; the look-up has found that of the charge unavailable. -/
theorem stored_rows_have_payments_history : ∃ w : World,
    (∃ p ∈ w.facts.projections, p.kind = .stripeRefund ∧
      ∃ q ∈ w.facts.projections, q.kind = .payment ∧ q.sourceId = p.parentId) ∧
    ∃ p ∈ w.facts.projections, p.kind = .charge ∧ Excused id account history p := by
  obtain ⟨w, hw, hrows, -⟩ := exists_history
  have hpayments := stored_rows_have_payments hw
  have hrow : ∀ x ∈ [(Kind.stripeRefund, "re_one", "pi_one"), (.payment, "pi_one", ""),
      (.charge, "ch_two", "pi_two")], ∃ p ∈ w.facts.projections,
        p.kind = x.1 ∧ p.sourceId = x.2.1 ∧ p.parentId = x.2.2 := by
    intro x hx
    rw [← hrows, rowKeys] at hx
    obtain ⟨p, hp, rfl⟩ := List.mem_map.mp hx
    exact ⟨p, hp, rfl, rfl, rfl⟩
  have hknown : ∀ q ∈ w.facts.projections, q.kind = .payment → q.sourceId = "pi_one" := by
    intro q hq hk
    have hx : (q.kind, q.sourceId, q.parentId) ∈ rowKeys w := List.mem_map_of_mem hq
    rw [hrows, hk] at hx
    simp at hx
    exact hx.1
  refine ⟨w, ?_, ?_⟩
  · obtain ⟨p, hp, hk, -, hparent⟩ := hrow _ List.mem_cons_self
    obtain ⟨q, hq, hqk, hqs, -⟩ := hrow (.payment, "pi_one", "") (by simp)
    exact ⟨p, hp, hk, q, hq, hqk, hqs.trans hparent.symm⟩
  · obtain ⟨p, hp, hk, -, hparent⟩ := hrow (.charge, "ch_two", "pi_two") (by simp)
    refine ⟨p, hp, hk, (hpayments p hp (by simp [hk])).resolve_left ?_⟩
    rintro ⟨q, hq, hqk, hqs⟩
    have hone := hknown q hq hqk
    rw [hqs, hparent] at hone
    revert hone
    decide

/-- The event about the refund has left its row; the session was said to have no payment. -/
theorem normalized_receipts_stored_history : ∃ w : World,
    (∃ receipt ∈ w.receipts, receipt.status = .normalized ∧ receipt.sourceId = "re_one" ∧
      Settled id account history w receipt) ∧
    ToldNone id account history "other" .checkoutSession "cs_one" := by
  obtain ⟨w, hw, hrows, hstatus⟩ := exists_history
  have hsettled := normalized_receipts_stored hw
  have hreceipt : ∀ x ∈ [("receipt", some ObjectKind.refund, "re_one", WebhookStatus.normalized),
      ("other", some .checkoutSession, "cs_one", .normalized)], ∃ r ∈ w.receipts,
        r.id = x.1 ∧ r.kind = x.2.1 ∧ r.sourceId = x.2.2.1 ∧ r.status = x.2.2.2 := by
    intro x hx
    rw [← hstatus, receiptKeys] at hx
    obtain ⟨r, hr, rfl⟩ := List.mem_map.mp hx
    exact ⟨r, hr, rfl, rfl, rfl, rfl⟩
  refine ⟨w, ?_, ?_⟩
  · obtain ⟨r, hr, -, -, hsource, hn⟩ := hreceipt _ List.mem_cons_self
    exact ⟨r, hr, hn, hsource, hsettled r hr hn⟩
  · obtain ⟨r, hr, hid, hkind, hsource, hn⟩ :=
      hreceipt ("other", some .checkoutSession, "cs_one", .normalized) (by simp)
    obtain ⟨kind, hk, h⟩ := hsettled r hr hn
    obtain rfl := Option.some.inj (hkind.symm.trans hk)
    rw [hid, hsource] at h
    refine (h.resolve_left fun hrow => ?_).2
    obtain ⟨p, hp⟩ := Option.isSome_iff_exists.mp hrow
    obtain ⟨hp, hkey⟩ := Table.get_eq_some.mp hp
    have hx : (p.kind, p.sourceId, p.parentId) ∈ rowKeys w := List.mem_map_of_mem hp
    rw [hrows, (Prod.mk.inj hkey).1] at hx
    simp [storedKind] at hx

end Fixture

end LedgerGuard.Connectors.StripeFacts
