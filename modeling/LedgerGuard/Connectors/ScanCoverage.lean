import LedgerGuard.Connectors.ScanPhases
import LedgerGuard.Lib.Paging
import LedgerGuard.Lib.Transition

/-! # Coverage after a whole scan

A scan advances coverage in an attempt that finds no order behind its cursor. By
then every element of the four listings has been given to `fetch_resource`, and
every reference of the orders has been looked up, in attempts that were committed.
-/

namespace LedgerGuard.Connectors.Scanning

open Ingestion Ordered Transition

section Attempt

variable {o : Circumstances} {scan scan' next : Scan} {orders : List Order}
  {kind : Option ObjectKind} {value : Json} {path : String} {rows : List Json} {hasMore : Bool}
  {start till : Instant} {done done' : List Action} {order : Order}

/-- The element has been given to `fetch_resource`, unless its kind is not supported. -/
def Fetched (done : List Action) (kind : Option ObjectKind) (value : Json) : Prop :=
  ∃ t, target kind value = .ok t ∧ ∀ x ∈ t, .fetch x.1 x.2 ∈ done

def Resolved (done : List Action) (order : Order) : Prop :=
  ∀ ref ∈ references order.projection, .resolve order ref ∈ done

theorem Fetched.mono (h : Fetched done kind value) (hsub : ∀ a ∈ done, a ∈ done') :
    Fetched done' kind value := by
  obtain ⟨t, ht, hx⟩ := h
  exact ⟨t, ht, fun x hm => hsub _ (hx x hm)⟩

theorem Resolved.mono (h : Resolved done order) (hsub : ∀ a ∈ done, a ∈ done') :
    Resolved done' order := fun ref href => hsub _ (h ref href)

theorem fetchElement_ok (h : (fetchElement o kind value).outcome = .ok ()) :
    Fetched (fetchElement o kind value).log kind value := by
  obtain ⟨t, ht, -, hlog⟩ := Logged.bind_ok.mp h
  refine ⟨t, ht, ?_⟩
  change (fetchElement o kind value).log = _ at hlog
  rw [hlog]
  rintro ⟨k, sourceId⟩ hx
  obtain rfl := Option.mem_def.mp hx
  exact List.mem_append_right _ (Logged.mem_log_bind.mpr (Or.inl List.mem_cons_self))

theorem listingPhase_ok (h : (listingPhase o path kind scan).outcome = .ok next) :
    ∃ page rows hasMore, o.get ("/v1/" ++ path) scan.listing = .ok page ∧
      page.lookup "data" = some (.arr rows) ∧ page.lookup "has_more" = some (.bool hasMore) ∧
      (∀ value ∈ rows, Fetched (listingPhase o path kind scan).log kind value) ∧
      scan.behind rows hasMore = .ok next := by
  obtain ⟨page, hpage, h, hlog⟩ := Logged.bind_ok.mp h
  change (listingPhase o path kind scan).log = _ at hlog
  split at h
  case h_1 rows hasMore hrows hmore =>
    simp only [hrows, hmore] at hlog
    obtain ⟨_, heach, hnext, hrest⟩ := Logged.bind_ok.mp h
    refine ⟨page, rows, hasMore, hpage, hrows, hmore, fun value hvalue => ?_, hnext⟩
    obtain ⟨ho, hsub⟩ := Logged.each_ok heach value hvalue
    apply (fetchElement_ok ho).mono
    intro a ha
    rw [hlog, hrest]
    exact List.mem_append_right _ (List.mem_append_left _ (hsub a ha))
  case h_2 => cases h

theorem behind_ok (h : scan.behind rows hasMore = .ok next) :
    (hasMore = false ∧ next = { scan with phase := scan.phase + 1, providerCursor := "" }) ∨
    ∃ last cursor, rows.getLast? = some last ∧ cursorText last = .ok cursor ∧
      next = { scan with providerCursor := cursor } := by
  unfold Scan.behind at h
  split at h
  · split at h
    · cases h
    case h_2 last hlast =>
      obtain ⟨cursor, hcursor, h⟩ := Raising.bind_eq_ok.mp h
      split at h
      · cases h
      · exact Or.inr ⟨last, cursor, hlast, hcursor, (Except.ok.inj h).symm⟩
  case isFalse hm => exact Or.inl ⟨by simpa using hm, (Except.ok.inj h).symm⟩

theorem resolveOrder_ok (h : (resolveOrder o order).outcome = .ok ()) :
    Resolved (resolveOrder o order).log order := by
  intro ref href
  obtain ⟨hr, hsub⟩ := Logged.each_ok h ref href
  obtain ⟨_, ht, -, hlog⟩ := Logged.bind_ok.mp hr
  apply hsub
  exact Logged.mem_log_bind.mpr (Or.inr ⟨_, ht, List.mem_cons_self⟩)

theorem ordersPhase_ok (h : (ordersPhase o scan orders).outcome = .ok next) :
    (scan.batch orders = [] ∧ next = { scan with status := .complete }) ∨
    ∃ last, (scan.batch orders).getLast? = some last ∧
      next = { scan with providerCursor := last.id } ∧
      ∀ order ∈ scan.batch orders, Resolved (ordersPhase o scan orders).log order := by
  obtain ⟨_, heach, h, hlog⟩ := Logged.bind_ok.mp h
  change (ordersPhase o scan orders).log = _ at hlog
  split at h
  case h_1 last hlast =>
    refine Or.inr ⟨last, hlast, (Except.ok.inj h).symm, fun order horder => ?_⟩
    obtain ⟨ho, hsub⟩ := Logged.each_ok heach order horder
    apply (resolveOrder_ok ho).mono
    intro a ha
    rw [hlog]
    exact List.mem_append_left _ (hsub a ha)
  case h_2 hnone =>
    obtain ⟨_, -, h, -⟩ := Logged.bind_ok.mp h
    obtain ⟨_, -, h, -⟩ := Logged.bind_ok.mp h
    exact Or.inl ⟨List.getLast?_eq_none_iff.mp hnone, (Except.ok.inj h).symm⟩

theorem scanPage_ok (h : (scanPage o scan orders).outcome = .ok scan') :
    (scan.status ≠ .pending ∧ scan' = scan) ∨
    (scan.status = .pending ∧ ∃ next, (readPage o scan orders).outcome = .ok next ∧
      scan' = { next with pageCount := next.pageCount + 1 } ∧
      ∀ a ∈ (readPage o scan orders).log, a ∈ (scanPage o scan orders).log) := by
  unfold scanPage at h ⊢
  by_cases hs : scan.status ≠ .pending
  · rw [if_pos hs] at h
    exact Or.inl ⟨hs, (Except.ok.inj h).symm⟩
  rw [if_neg hs] at h ⊢
  right
  obtain ⟨_, -, h, hlog⟩ := Logged.bind_ok.mp h
  obtain ⟨next, hnext, h, hlog'⟩ := Logged.bind_ok.mp h
  refine ⟨not_not.mp hs, next, hnext, ?_, fun a ha => ?_⟩
  · unfold finish at h
    split at h
    · cases h
    · obtain ⟨_, -, h, -⟩ := Logged.bind_ok.mp h
      exact (Except.ok.inj h).symm
  · rw [hlog, hlog']
    exact List.mem_append_right _ (List.mem_append_left _ ha)

end Attempt

def cursorKey (cursor : String) : Option String := if cursor = "" then none else some cursor

/-- The provider serves a fixed list for each resource and window, whatever the sizes of its
pages. -/
def Serves (lists : String → ℤ → ℤ → List Json) (get : String → Listing → Except StripeFailure Object) :
    Prop :=
  ∀ path listing page rows hasMore, get ("/v1/" ++ path) listing = .ok page →
    page.lookup "data" = some (.arr rows) → page.lookup "has_more" = some (.bool hasMore) →
      Paging.IsPage (fun value => (cursorText value).toOption)
        (lists path listing.createdFrom listing.createdThrough) (cursorKey listing.startingAfter)
        listing.limit rows hasMore

def Scan.listed (scan : Scan) (lists : String → ℤ → ℤ → List Json) (path : String) : List Json :=
  lists path scan.listing.createdFrom scan.listing.createdThrough

def Scan.unread (scan : Scan) (lists : String → ℤ → ℤ → List Json) (path : String) : List Json :=
  Paging.after (fun value => (cursorText value).toOption) (scan.listed lists path)
    (cursorKey scan.providerCursor)

section Listings

variable {lists : String → ℤ → ℤ → List Json} {o : Circumstances} {scan next : Scan}
  {orders : List Order} {done done' : List Action}

/-- The phases before the present one are read, and the present one up to the cursor. -/
structure Reading (lists : String → ℤ → ℤ → List Json) (done : List Action) (scan : Scan) :
    Prop where
  earlier : ∀ n path kind, n < scan.phase → phases[n]? = some (path, kind) →
    ∀ value ∈ scan.listed lists path, Fetched done kind value
  current : ∀ path kind, phases[scan.phase]? = some (path, kind) →
    ∀ value ∈ scan.listed lists path, Fetched done kind value ∨ value ∈ scan.unread lists path

theorem Reading.mono (h : Reading lists done scan) (hsub : ∀ a ∈ done, a ∈ done') :
    Reading lists done' scan := by
  constructor
  · intro n path kind hn hp value hvalue
    exact (h.earlier n path kind hn hp value hvalue).mono hsub
  · intro path kind hp value hvalue
    exact (h.current path kind hp value hvalue).imp_left fun hf => hf.mono hsub

theorem unread_of_start {path : String} (h : scan.providerCursor = "") :
    scan.unread lists path = scan.listed lists path := by
  rw [Scan.unread, h]
  rfl

theorem Reading.readPage (h : Reading lists done scan) (hserves : Serves lists o.get)
    (hok : (readPage o scan orders).outcome = .ok next)
    (hsub : ∀ a ∈ done, a ∈ done') (hlog : ∀ a ∈ (readPage o scan orders).log, a ∈ done') :
    Reading lists done' next := by
  unfold Scanning.readPage at hok hlog
  have h := h.mono hsub
  split at hok
  case h_1 path kind hphase =>
    rw [hphase] at hlog
    obtain ⟨page, rows, hasMore, hpage, hrows, hmore, hfetched, hbehind⟩ := listingPhase_ok hok
    have hserved := hserves path scan.listing page rows hasMore hpage hrows hmore
    have hrow : ∀ value ∈ rows, Fetched done' kind value :=
      fun value hvalue => (hfetched value hvalue).mono hlog
    rcases behind_ok hbehind with ⟨rfl, rfl⟩ | ⟨last, cursor, hlast, hcursor, rfl⟩
    · constructor
      · intro n path' kind' hn hp value hvalue
        rcases Nat.lt_succ_iff_lt_or_eq.mp hn with hn | rfl
        · exact h.earlier n path' kind' hn hp value hvalue
        · obtain ⟨rfl, rfl⟩ := Prod.mk.inj (Option.some.inj (hphase.symm.trans hp))
          rcases h.current path kind hp value hvalue with hf | hu
          · exact hf
          · exact hrow value (hserved.mem_last hu)
      · intro path' kind' hp value hvalue
        right
        rw [unread_of_start rfl]
        exact hvalue
    · constructor
      · exact h.earlier
      · intro path' kind' hp value hvalue
        obtain ⟨rfl, rfl⟩ := Prod.mk.inj (Option.some.inj (hphase.symm.trans hp))
        rcases h.current path kind hp value hvalue with hf | hu
        · exact Or.inl hf
        by_cases hempty : cursor = ""
        · right
          rw [unread_of_start hempty]
          exact hvalue
        · have hkey : (cursorText last).toOption = some cursor := by
            rw [hcursor]
            rfl
          rcases hserved.mem_after hlast hkey hu with hr | ha
          · exact Or.inl (hrow value hr)
          · right
            rw [Scan.unread, cursorKey, if_neg hempty]
            exact ha
  case h_2 hphase =>
    rcases ordersPhase_ok hok with ⟨-, rfl⟩ | ⟨last, -, rfl, -⟩
    · exact ⟨h.earlier, fun path kind hp => by rw [hphase] at hp; cases hp⟩
    · exact ⟨h.earlier, fun path kind hp => by rw [hphase] at hp; cases hp⟩

end Listings

/-- The row of a scan and the orders of the shops that are linked to its connector. -/
structure World where
  scan : Scan
  orders : List Order
  keys : (orders.map (·.id)).Nodup

inductive Event
  | committed (actions : List Action)
  | failed (actions : List Action)
  /-- The scan is given up. -/
  | abandoned
  | change (orders : List Order)

/-- What committed attempts have done. -/
def Event.done : Event → List Action
  | .committed actions => actions
  | _ => []

def doneIn (events : List Event) : List Action := events.flatMap Event.done

def Event.ordersAfter (orders : List Order) : Event → List Order
  | .change orders' => orders'
  | _ => orders

def ordersAt (orders : List Order) (events : List Event) : List Order :=
  events.foldl Event.ordersAfter orders

/-- Attempts lock the row of the scan one after another. Meanwhile orders arrive and are updated,
and the ones that are there keep their keys. -/
inductive Step (lists : String → ℤ → ℤ → List Json) : World → Event → World → Prop
  | committed {w scan} (o : Circumstances) (hserves : Serves lists o.get)
      (h : (scanPage o w.scan w.orders).outcome = .ok scan) :
      Step lists w (.committed (scanPage o w.scan w.orders).log) { w with scan }
  | failed {w e} (o : Circumstances) (hserves : Serves lists o.get)
      (h : (scanPage o w.scan w.orders).outcome = .error e) :
      Step lists w (.failed (scanPage o w.scan w.orders).log) w
  | abandoned {w} (h : w.scan.status = .pending) :
      Step lists w .abandoned { w with scan.status := .failed }
  | change {w orders} (keys : (orders.map (·.id)).Nodup)
      (h : ∀ a ∈ w.orders, ∃ b ∈ orders, b.id = a.id) :
      Step lists w (.change orders) { w with orders, keys }

section Runs

variable {lists : String → ℤ → ℤ → List Json} {o : Circumstances} {events : List Event}
  {event : Event} {v w w' : World} {start till : Instant} {done done' : List Action}

@[simp] theorem doneIn_append : doneIn (events ++ [event]) = doneIn events ++ event.done := by
  simp [doneIn]

theorem Reading.step (h : Reading lists (doneIn events) w.scan)
    (hstep : Step lists w event w') : Reading lists (doneIn (events ++ [event])) w'.scan := by
  have hsub : ∀ a ∈ doneIn events, a ∈ doneIn (events ++ [event]) := by
    intro a ha
    rw [doneIn_append]
    exact List.mem_append_left _ ha
  cases hstep with
  | committed o hserves hok =>
    rcases scanPage_ok hok with ⟨-, rfl⟩ | ⟨-, next, hnext, rfl, hlog⟩
    · exact h.mono hsub
    · have hr := h.readPage hserves hnext hsub fun a ha => by
        rw [doneIn_append]
        exact List.mem_append_right _ (hlog a ha)
      exact ⟨hr.earlier, hr.current⟩
  | failed o hserves hok => exact h.mono hsub
  | abandoned hs =>
    have hr := h.mono hsub
    exact ⟨hr.earlier, hr.current⟩
  | change keys ho => exact h.mono hsub

theorem ordersAt_step (hstep : Step lists w event w') :
    w'.orders = event.ordersAfter w.orders := by
  cases hstep <;> rfl

@[simp] theorem ordersAt_append {orders : List Order} :
    ordersAt orders (events ++ [event]) = event.ordersAfter (ordersAt orders events) :=
  List.foldl_append ..

/-- A committed attempt has looked up the row of the order as the table had it then. -/
def LookedUp (orders : List Order) (events : List Event) (a : Order) : Prop :=
  ∃ during actions rest, events = during ++ .committed actions :: rest ∧
    ∃ b ∈ ordersAt orders during, b.id = a.id ∧ Resolved actions b

theorem LookedUp.append {orders : List Order} {a : Order} (h : LookedUp orders events a) :
    LookedUp orders (events ++ [event]) a := by
  obtain ⟨during, actions, rest, rfl, hb⟩ := h
  exact ⟨during, actions, rest ++ [event], by simp, hb⟩

/-- Since the order phase began in `v`, its orders are looked up or behind the cursor. -/
structure Looking (v : World) (events : List Event) (w : World) : Prop where
  phase : phases[w.scan.phase]? = none
  orders : w.orders = ordersAt v.orders events
  order : ∀ a ∈ v.orders, LookedUp v.orders events a ∨
    ∃ b ∈ w.orders, b.id = a.id ∧ (w.scan.providerCursor = "" ∨ w.scan.providerCursor < b.id)

theorem mem_batch {scan : Scan} {orders : List Order} {b last : Order} (hb : b ∈ orders)
    (hcursor : scan.providerCursor = "" ∨ scan.providerCursor < b.id)
    (hlast : last ∈ scan.batch orders) : b ∈ scan.batch orders ∨ last.id ≤ b.id := by
  apply mem_take_sortBy _ hlast
  split
  · exact hb
  case isFalse hne =>
    rw [List.mem_filter]
    exact ⟨hb, by simpa using hcursor.resolve_left hne⟩

theorem mem_of_mem_batch {scan : Scan} {orders : List Order} {b : Order}
    (h : b ∈ scan.batch orders) : b ∈ orders := by
  have hb := mem_sortBy.mp (List.mem_of_mem_take h)
  split at hb
  · exact hb
  · exact (List.mem_filter.mp hb).1

theorem Looking.readPage {next : Scan} {actions : List Action} (h : Looking v events w)
    (hok : (readPage o w.scan w.orders).outcome = .ok next)
    (hlog : ∀ a ∈ (readPage o w.scan w.orders).log, a ∈ actions) :
    phases[next.phase]? = none ∧ ∀ a ∈ v.orders,
      LookedUp v.orders (events ++ [.committed actions]) a ∨
      ∃ b ∈ w.orders, b.id = a.id ∧ (next.providerCursor = "" ∨ next.providerCursor < b.id) := by
  have hphase := h.phase
  unfold Scanning.readPage at hok hlog
  simp only [hphase] at hok hlog
  rcases ordersPhase_ok hok with ⟨-, rfl⟩ | ⟨last, hlast, rfl, hresolved⟩
  · exact ⟨hphase, fun a ha => (h.order a ha).imp_left LookedUp.append⟩
  refine ⟨hphase, fun a ha => ?_⟩
  have hlooked : ∀ b ∈ w.scan.batch w.orders, b.id = a.id →
      LookedUp v.orders (events ++ [.committed actions]) a := by
    intro b hb hid
    refine ⟨events, actions, [], rfl, b, ?_, hid, (hresolved b hb).mono hlog⟩
    rw [← h.orders]
    exact mem_of_mem_batch hb
  rcases h.order a ha with hr | ⟨b, hb, hid, hcursor⟩
  · exact Or.inl hr.append
  have hmem := List.mem_of_getLast? hlast
  rcases mem_batch hb hcursor hmem with hbatch | hle
  · exact Or.inl (hlooked b hbatch hid)
  rcases hle.lt_or_eq with hlt | heq
  · exact Or.inr ⟨b, hb, hid, Or.inr hlt⟩
  · exact Or.inl (hlooked last hmem (heq.trans hid))

theorem Looking.step (h : Looking v events w) (hstep : Step lists w event w') :
    Looking v (events ++ [event]) w' := by
  have horders : w'.orders = ordersAt v.orders (events ++ [event]) := by
    rw [ordersAt_step hstep, ordersAt_append, h.orders]
  have hsame : ∀ a ∈ v.orders, LookedUp v.orders (events ++ [event]) a ∨
      ∃ b ∈ w.orders, b.id = a.id ∧
        (w.scan.providerCursor = "" ∨ w.scan.providerCursor < b.id) :=
    fun a ha => (h.order a ha).imp_left LookedUp.append
  cases hstep with
  | committed o hserves hok =>
    rcases scanPage_ok hok with ⟨-, rfl⟩ | ⟨-, next, hnext, rfl, hlog⟩
    · exact ⟨h.phase, horders, hsame⟩
    · obtain ⟨hphase, horder⟩ := h.readPage hnext hlog
      exact ⟨hphase, horders, horder⟩
  | failed o hserves hok => exact ⟨h.phase, horders, hsame⟩
  | abandoned hs => exact ⟨h.phase, horders, hsame⟩
  | @change orders keys ho =>
    refine ⟨h.phase, horders, fun a ha => ?_⟩
    rcases hsame a ha with hr | ⟨b, hb, hid, hcursor⟩
    · exact Or.inl hr
    · obtain ⟨c, hc, hcid⟩ := ho b hb
      exact Or.inr ⟨c, hc, hcid.trans hid, by rwa [hcid]⟩

theorem Looking.resolved (h : Looking v events w) (hbatch : w.scan.batch w.orders = []) {a : Order}
    (ha : a ∈ v.orders) : LookedUp v.orders events a := by
  rcases h.order a ha with hr | ⟨b, hb, -, hcursor⟩
  · exact hr
  exfalso
  rw [Scan.batch, List.take_eq_nil_iff] at hbatch
  have hnil := sortBy_eq_nil.mp (hbatch.resolve_left (by decide))
  split at hnil
  · rw [hnil] at hb
    cases hb
  case isFalse hne =>
    have hmem : b ∈ w.orders.filter fun order => w.scan.providerCursor < order.id := by
      rw [List.mem_filter]
      exact ⟨hb, by simpa using hcursor.resolve_left hne⟩
    rw [hnil] at hmem
    cases hmem

theorem mem_ordersAt {orders : List Order} {a : Order} (ha : a ∈ orders)
    (hkept : ∀ orders', .change orders' ∈ events → a ∈ orders') : a ∈ ordersAt orders events := by
  induction events generalizing orders with
  | nil => exact ha
  | cons event events ih =>
    refine ih ?_ fun orders' h => hkept orders' (List.mem_cons_of_mem _ h)
    cases event with
    | change orders' => exact hkept orders' List.mem_cons_self
    | _ => exact ha

theorem LookedUp.resolved {a : Order} (h : LookedUp v.orders events a)
    (hrun : Run (Step lists) v events w) (ha : a ∈ v.orders)
    (hkept : ∀ orders, .change orders ∈ events → a ∈ orders) : Resolved (doneIn events) a := by
  obtain ⟨during, actions, rest, rfl, b, hb, hid, hr⟩ := h
  obtain ⟨u, u', hduring, -⟩ := hrun.step_at
  have hu : u.orders = ordersAt v.orders during := by
    refine hduring.invariant (I := fun events u => u.orders = ordersAt v.orders events) rfl ?_
    intro events u event u' hu hstep
    rw [ordersAt_step hstep, ordersAt_append, hu]
  have hmem : a ∈ ordersAt v.orders during :=
    mem_ordersAt ha fun orders h => hkept orders (List.mem_append_left _ h)
  rw [← hu] at hb hmem
  obtain rfl := List.inj_on_of_nodup_map u.keys hb hmem hid
  apply hr.mono
  intro action haction
  rw [doneIn, List.flatMap_append, List.flatMap_cons]
  exact List.mem_append_right _ (List.mem_append_left _ haction)

end Runs

namespace Fixture

def payment : Json := .obj [("id", .str "pi_1")]

/-- One payment in every window, and nothing else. -/
def lists (path : String) (_ _ : ℤ) : List Json := if path = "payment_intents" then [payment] else []

def rows (path : String) (listing : Listing) : List Json :=
  Paging.after (fun value => (cursorText value).toOption)
    (if path = "/v1/payment_intents" then [payment] else []) (cursorKey listing.startingAfter)

/-- A provider that finds everything. -/
def provider : Circumstances where
  reader := .ok ()
  get path listing := .ok
    [("data", .arr ((rows path listing).take listing.limit)),
      ("has_more", .bool (decide (listing.limit < (rows path listing).length)))]
  provider _ := .ok ()
  advance := .ok ()
  save := .ok ()

theorem serves : Serves lists provider.get := by
  intro path listing page rs hasMore hpage hrows hmore
  have hpath : ("/v1/" ++ path = "/v1/payment_intents") = (path = "payment_intents") := by
    rw [eq_iff_iff, ← String.toList_inj, ← String.toList_inj, String.toList_append]
    simp
  obtain rfl := Except.ok.inj hpage
  obtain rfl : _ = rs := Json.arr.inj (Option.some.inj hrows)
  obtain rfl : _ = hasMore := Json.bool.inj (Option.some.inj hmore)
  simp only [rows, lists, hpath]
  refine ⟨List.take_prefix _ _, List.length_take_le _ _, ?_⟩
  rw [decide_eq_true_iff, ne_eq, List.take_eq_self_iff, not_le]

def order : Order where
  id := "01890a5d-ac96-774b-bcce-b302099a8058"
  projection :=
    { kind := .order, sourceId := "101", storeId := some "store", mode := .test
      status := "completed", amountMinor := 1000, currency := "USD", exponent := 2
      transactionId := "pi_1", createdAtSource := 0, revision := 0
      observation :=
        { kind := .order, sourceId := "101", revision := 0, contentHash := ""
          data :=
            { status := "completed", amountMinor := 1000, currency := "USD", exponent := 2
              createdAtSource := "" }
          currencyTableVersion } }

/-- The scan after some pages. -/
def scan (phase pageCount : ℕ) (providerCursor : String) : Scan :=
  { windowFrom := 0, windowThrough := seconds 60, phase, pageCount, providerCursor }

def world (phase pageCount : ℕ) (providerCursor : String) : World :=
  ⟨scan phase pageCount providerCursor, [order], List.nodup_singleton _⟩

def page (w : World) : Event := .committed (scanPage provider w.scan w.orders).log

theorem step {w : World} {scan' : Scan}
    (h : (scanPage provider w.scan w.orders).outcome = .ok scan') :
    Step lists w (page w) { w with scan := scan' } := Step.committed provider serves h

/-- The page of the order phase. -/
def lookUp : Event := page (world 4 4 "")

end Fixture

open Scanning.Fixture

end LedgerGuard.Connectors.Scanning
