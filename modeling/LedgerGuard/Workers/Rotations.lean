import LedgerGuard.Lib.Transition
import LedgerGuard.Workers.Credentials

/-! # Rotated credentials are kept

Attempts of any number of workers on one connector, each under the lock of its row,
and the transactions that record their failures. After a commit the connector stores
the pair of the last exchange or nothing, so no refresh token is used twice.
-/

namespace LedgerGuard.Workers.Credentials

open Savepoint Transition

/-- How far the transaction that holds the row has come. -/
inductive Stage
  | locked
  | refreshed
  | failed (failure : WorkFailure)
  | finished

structure Transaction where
  conn : Conn StripeInstallation
  stage : Stage

/-- The row of one connector as it is committed, and the attempt that has locked it. -/
structure World where
  installation : StripeInstallation
  holder : Option Transaction := none

inductive Event
  | lock
  | refresh (calls : List Exchange)
  | work
  | settle
  | commit
  /-- The second transaction of a failed attempt. -/
  | record (failure : WorkFailure)

def Event.calls : Event → List Exchange
  | .refresh calls => calls
  | _ => []

/-- The stage after a savepoint that was to lead to `next`. -/
def stageAfter (r : CredentialResult) (next : Stage) : Stage :=
  match r.outcome with
  | .raised e => .failed (failureOf e)
  | _ => next

/-- The steps of workers whose vaults are among some. -/
inductive Step (vaults : Set Vault) : World → Event → World → Prop
  | lock {w} (h : w.holder = none) (hactive : w.installation.status = .active) :
      Step vaults w .lock { w with holder := some ⟨{ data := w.installation }, .locked⟩ }
  | refresh {w c} (o : Circumstances) (hvault : o.vault ∈ vaults)
      (h : w.holder = some ⟨c, .locked⟩) :
      Step vaults w (.refresh (refreshed o c).log)
        { w with holder := some ⟨(refreshed o c).conn, stageAfter (refreshed o c) .refreshed⟩ }
  | work {w c} (t : Work) (h : w.holder = some ⟨c, .refreshed⟩) :
      Step vaults w .work
        { w with holder := some ⟨(worked t c).conn, stageAfter (worked t c) .finished⟩ }
  /-- An update that fails would roll the whole transaction back. -/
  | settle {w c failure} (h : w.holder = some ⟨c, .failed failure⟩) :
      Step vaults w .settle
        { w with
          holder :=
            if (suspension failure c).outcome.isRaised then none
            else some ⟨(suspension failure c).conn, .finished⟩ }
  | commit {w c} (h : w.holder = some ⟨c, .finished⟩) :
      Step vaults w .commit { installation := c.data }
  | record {w failure} (h : w.holder = none) :
      Step vaults w (.record failure)
        { w with
          installation :=
            if failure.permanent then w.installation.suspend failure.code else w.installation }

/-- Encryption is inverted: whatever the one vault opens of what the other has sealed is the
value. -/
def Inverts (v v' : Vault) : Prop :=
  ∀ value organization record kind ciphertext,
    v.encryptSecret value organization record kind = .ok ciphertext →
      ∀ value', v'.decryptSecret ciphertext organization record kind = .ok value' → value' = value

/-- The connector stores a pair, sealed by one of the vaults. -/
def StripeInstallation.Stores (vaults : Set Vault) (connector : StripeInstallation)
    (tokens : Tokens) : Prop :=
  ∃ v ∈ vaults, v.encryptSecret tokens.object connector.organizationId connector.id "oauth" =
    .ok connector.credentialCiphertext

def StripeInstallation.Emptied (connector : StripeInstallation) : Prop :=
  connector.status = .suspended ∧ connector.credentialCiphertext = .obj []

/-- What the connector has after some exchanges: the pair of the last one, or nothing. -/
def Kept (vaults : Set Vault) (calls : List Exchange) (connector : StripeInstallation) : Prop :=
  connector.Emptied ∨
    ∀ call ∈ calls.getLast?, ∃ tokens, call.returned = some tokens ∧ connector.Stores vaults tokens

variable {vaults : Set Vault} {o : Circumstances} {t : Work} {c : Conn StripeInstallation}
  {connector : StripeInstallation} {calls : List Exchange} {call : Exchange} {tokens : Tokens}
  {w w' : World} {events : List Event} {event : Event} {failure : WorkFailure}

theorem kept_suspend {code : String} : Kept vaults calls (connector.suspend code) :=
  Or.inl ⟨rfl, rfl⟩

theorem kept_rotated {ciphertext : Json} (hvault : o.vault ∈ vaults)
    (hreturned : call.returned = some tokens)
    (hsealed : o.vault.encryptSecret tokens.object connector.organizationId connector.id "oauth" =
      .ok ciphertext) :
    Kept vaults (calls ++ [call]) (connector.rotated ciphertext o.savedAt) := by
  right
  intro call' hcall'
  rw [List.getLast?_concat] at hcall'
  obtain rfl := Option.some.inj hcall'
  exact ⟨tokens, hreturned, o.vault, hvault, hsealed⟩

theorem kept_worked (hc : c.Usable) (h : Kept vaults calls c.data) :
    Kept vaults calls (worked t c).conn.data := by
  rw [worked, atomic_eq_release hc]
  rcases release_data c.data (handle t c) with hr | hr
  · rw [hr]
    exact h
  · rw [hr]
    exact h

def callsOf (events : List Event) : List Exchange := events.flatMap Event.calls

@[simp] theorem callsOf_append : callsOf (events ++ [event]) = callsOf events ++ event.calls := by
  simp [callsOf]

/-- The endpoint returns refresh tokens that have not been exchanged before. -/
def Fresh (calls : List Exchange) : Prop :=
  ∀ before call after, calls = before ++ call :: after → ∀ tokens, call.returned = some tokens →
    .str tokens.refreshToken ∉ (before ++ [call]).map Exchange.refreshToken

theorem Fresh.left {calls' : List Exchange} (h : Fresh (calls ++ calls')) : Fresh calls := by
  rintro before call after rfl tokens hreturned
  exact h before call (after ++ calls') (by simp) tokens hreturned

theorem Fresh.stored (h : Fresh calls) (hcall : calls.getLast? = some call)
    (hreturned : call.returned = some tokens) :
    .str tokens.refreshToken ∉ calls.map Exchange.refreshToken := by
  have hlast := List.dropLast_append_getLast? _ hcall
  have hn := h calls.dropLast call [] hlast.symm tokens hreturned
  rwa [hlast] at hn

theorem given_fresh (hinverts : ∀ v ∈ vaults, ∀ v' ∈ vaults, Inverts v v')
    (hvault : o.vault ∈ vaults) (hfresh : Fresh calls) (hactive : c.data.status = .active)
    (hkept : Kept vaults calls c.data) (hgiven : Given o c call) :
    call.refreshToken ∉ calls.map Exchange.refreshToken := by
  obtain ⟨value, hvalue, htoken⟩ := hgiven
  rcases hkept with ⟨hs, -⟩ | hkept
  · rw [hactive] at hs
    cases hs
  cases hlast : calls.getLast? with
  | none =>
    rw [List.getLast?_eq_none_iff.mp hlast]
    exact List.not_mem_nil
  | some last =>
    obtain ⟨tokens, hreturned, v, hv, hsealed⟩ := hkept last hlast
    obtain rfl := hinverts v hv o.vault hvault _ _ _ _ _ hsealed value hvalue
    rw [← Option.some.inj htoken]
    exact hfresh.stored hlast hreturned

def Transaction.Safe (vaults : Set Vault) (calls : List Exchange) (x : Transaction) : Prop :=
  x.conn.Usable ∧
    match x.stage with
    | .locked => x.conn.data.status = .active ∧ Kept vaults calls x.conn.data
    | .failed failure => failure.permanent = true ∨ Kept vaults calls x.conn.data
    | _ => Kept vaults calls x.conn.data

structure Consistent (vaults : Set Vault) (events : List Event) (w : World) : Prop where
  kept : w.holder = none → Kept vaults (callsOf events) w.installation
  held : ∀ x, w.holder = some x → x.Safe vaults (callsOf events)
  distinct : ((callsOf events).map Exchange.refreshToken).Nodup

theorem Consistent.extend (h : Consistent vaults events w) (hcalls : event.calls = [])
    (hkept : w'.holder = none → Kept vaults (callsOf events) w'.installation)
    (hheld : ∀ x, w'.holder = some x → x.Safe vaults (callsOf events)) :
    Consistent vaults (events ++ [event]) w' := by
  constructor <;> rw [callsOf_append, hcalls, List.append_nil]
  · exact hkept
  · exact hheld
  · exact h.distinct

theorem refreshed_safe (hinverts : ∀ v ∈ vaults, ∀ v' ∈ vaults, Inverts v v')
    (hvault : o.vault ∈ vaults) (hfresh : Fresh calls)
    (hdistinct : (calls.map Exchange.refreshToken).Nodup)
    (h : (⟨c, .locked⟩ : Transaction).Safe vaults calls) :
    (⟨(refreshed o c).conn, stageAfter (refreshed o c) .refreshed⟩ : Transaction).Safe vaults
        (calls ++ (refreshed o c).log) ∧
      ((calls ++ (refreshed o c).log).map Exchange.refreshToken).Nodup := by
  obtain ⟨hc, hactive, hkept⟩ := h
  have hgiven : ∀ call, Given o c call →
      ((calls ++ [call]).map Exchange.refreshToken).Nodup := by
    intro call hg
    rw [List.map_append, List.nodup_append]
    refine ⟨hdistinct, List.nodup_singleton _, ?_⟩
    intro a ha b hb
    obtain rfl := List.mem_singleton.mp hb
    rintro rfl
    exact given_fresh hinverts hvault hfresh hactive hkept hg ha
  have hsaved : Conn.Usable { data := c.data } := ⟨rfl, rfl⟩
  rcases refreshed_cases hc with h | ⟨failure, hp, h⟩ |
    ⟨call, hg, ⟨failure, hp, h⟩ | ⟨tokens, ciphertext, hreturned, hsealed, h⟩⟩
  · rw [h, List.append_nil]
    exact ⟨⟨hc, hkept⟩, hdistinct⟩
  · rw [h, List.append_nil]
    exact ⟨⟨hsaved, Or.inl hp⟩, hdistinct⟩
  · rw [h]
    exact ⟨⟨hsaved, Or.inl hp⟩, hgiven call hg⟩
  · rw [h]
    exact ⟨⟨hc, kept_rotated hvault hreturned hsealed⟩, hgiven call hg⟩

theorem worked_safe (h : (⟨c, .refreshed⟩ : Transaction).Safe vaults calls) :
    (⟨(worked t c).conn, stageAfter (worked t c) .finished⟩ : Transaction).Safe vaults calls := by
  obtain ⟨hc, hkept⟩ := h
  have hafter : Kept vaults calls (worked t c).conn.data := kept_worked hc hkept
  constructor
  · rw [worked, atomic_eq_release hc]
    exact usable_release _ _
  · unfold stageAfter
    cases (worked t c).outcome with
    | raised e => exact Or.inr hafter
    | _ => exact hafter

theorem suspension_safe (h : (⟨c, .failed failure⟩ : Transaction).Safe vaults calls) :
    (suspension failure c).outcome.isRaised = false ∧
      (⟨(suspension failure c).conn, .finished⟩ : Transaction).Safe vaults calls := by
  obtain ⟨hc, hkept⟩ := h
  unfold suspension
  split
  · rw [statement_usable (refusal_eq_none.mpr hc)]
    exact ⟨rfl, hc, kept_suspend⟩
  case isFalse hp => exact ⟨rfl, hc, hkept.resolve_left hp⟩

theorem Consistent.step (hinverts : ∀ v ∈ vaults, ∀ v' ∈ vaults, Inverts v v')
    (hfresh : Fresh (callsOf events)) (h : Consistent vaults events w)
    (hstep : Step vaults w event w') : Consistent vaults (events ++ [event]) w' := by
  cases hstep with
  | lock hnone hactive =>
    refine h.extend rfl (fun hn => by cases hn) fun x hx => ?_
    obtain rfl := Option.some.inj hx
    exact ⟨⟨rfl, rfl⟩, hactive, h.kept hnone⟩
  | @refresh c o hvault hx =>
    obtain ⟨hsafe, hdistinct⟩ := refreshed_safe hinverts hvault hfresh h.distinct (h.held _ hx)
    constructor
    · intro hn
      cases hn
    · intro x hx'
      obtain rfl := Option.some.inj hx'
      rwa [callsOf_append]
    · rwa [callsOf_append]
  | @work c t hx =>
    refine h.extend rfl (fun hn => by cases hn) fun x hx' => ?_
    obtain rfl := Option.some.inj hx'
    exact worked_safe (h.held _ hx)
  | @settle c failure hx =>
    obtain ⟨hr, hsafe⟩ := suspension_safe (h.held _ hx)
    rw [hr]
    refine h.extend rfl (fun hn => by cases hn) fun x hx' => ?_
    obtain rfl := Option.some.inj hx'
    exact hsafe
  | @commit c hx => exact h.extend rfl (fun _ => (h.held _ hx).2) fun x hx' => by cases hx'
  | @record failure hnone =>
    refine h.extend rfl (fun _ => ?_) fun x hx' => absurd hx' (by rw [hnone]; exact nofun)
    dsimp only
    split
    · exact kept_suspend
    · exact h.kept hnone

/-- When no attempt is under way, the connector stores the pair of the last exchange, or it is
suspended and holds nothing; and no refresh token is given to `exchange` twice. -/
theorem rotated_credentials_kept (hinverts : ∀ v ∈ vaults, ∀ v' ∈ vaults, Inverts v v')
    (hrun : Run (Step vaults) { installation := connector } events w)
    (hfresh : Fresh (callsOf events)) :
    (w.holder = none → Kept vaults (callsOf events) w.installation) ∧
      ((callsOf events).map Exchange.refreshToken).Nodup := by
  have hinv : Fresh (callsOf events) → Consistent vaults events w := by
    refine hrun.invariant (I := fun events w => Fresh (callsOf events) → Consistent vaults events w)
      (fun _ => ?_) fun as s a s' ih hstep hf => ?_
    · constructor
      · intro _
        right
        intro call hcall
        cases hcall
      · intro x hx
        cases hx
      · exact List.nodup_nil
    · rw [callsOf_append] at hf
      exact (ih hf.left).step hinverts hf.left hstep
  exact ⟨(hinv hfresh).kept, (hinv hfresh).distinct⟩

namespace Fixture

/-- Secrets sealed by their context. -/
def vault : Vault where
  encryptSecret value org record kind := .ok (.arr [.obj value, .str org, .str record, .str kind])
  decryptSecret sealed org record kind :=
    match sealed with
    | .arr [.obj value, .str org', .str record', .str kind'] =>
      if org = org' ∧ record = record' ∧ kind = kind' then .ok value else .error "Problem"
    | _ => .error "Problem"

theorem vault_inverts : Inverts vault vault := by
  intro value org record kind ciphertext h value' h'
  obtain rfl := Except.ok.inj h
  simpa [vault] using h'.symm

def initial : Tokens := ⟨"access_000001", "refresh_000001", "acct_1"⟩

def next : Tokens := ⟨"access_000002", "refresh_000002", "acct_1"⟩

/-- A connector whose credential has expired, with some tokens. -/
def holding (tokens : Tokens) : StripeInstallation where
  id := "connector"
  organizationId := "organization"
  mode := "live"
  accountId := "acct_1"
  credentialCiphertext :=
    .arr [.obj tokens.object, .str "organization", .str "connector", .str "oauth"]
  tokenExpiresAt := none

def granted : Answer :=
  .response 200 <| some <| .obj
    [("access_token", .str "access_000002"), ("refresh_token", .str "refresh_000002"),
      ("stripe_user_id", .str "acct_1"), ("scope", .str "stripe_apps"),
      ("token_type", .str "bearer"), ("livemode", .bool true)]

def met : Circumstances := { vault, now := 0, answer := granted, savedAt := 0 }

theorem exchange_granted : exchange true "live" granted = .ok next := by
  decide

def rotation : Exchange := ⟨.str "refresh_000001", some next⟩

/-- The connector with the new pair. -/
def rotated : StripeInstallation :=
  (holding initial).rotated (holding next).credentialCiphertext 0

def limited : Work where
  outcome := .error (.own (.connector "STRIPE_RATE_LIMITED" false 5))
  nextApiAt := some (seconds 1)
  lastErrorCode := ""

/-- The exchange is committed, although the work of the attempt has failed. -/
def lateFailure : List Event :=
  [.lock, .refresh [rotation], .work, .settle, .commit,
    .record (.connector "STRIPE_RATE_LIMITED" false 5)]

theorem refreshed_holding : refreshed met { data := holding initial } =
    ⟨.completed, { data := rotated }, [rotation]⟩ := by
  apply refreshed_completed ⟨rfl, rfl⟩ ⟨rfl, rfl⟩
  have hexchange : exchange met.configured (holding initial).mode met.answer = .ok next :=
    exchange_granted
  unfold refreshAccessToken
  dsimp only
  rw [hexchange]
  rfl

theorem run_lateFailure : Run (Step {vault}) { installation := holding initial } lateFailure
    { installation := rotated } := by
  have h₁ : Run (Step {vault}) { installation := holding initial } [.lock]
      { installation := holding initial
        holder := some ⟨{ data := holding initial }, .locked⟩ } := Run.nil.snoc (Step.lock rfl rfl)
  have hrefresh := @Step.refresh {vault}
    { installation := holding initial, holder := some ⟨{ data := holding initial }, .locked⟩ }
    { data := holding initial } met rfl rfl
  rw [refreshed_holding] at hrefresh
  have h₂ := h₁.snoc hrefresh
  have h₃ := h₂.snoc (Step.work limited rfl)
  have h₄ := h₃.snoc (Step.settle rfl)
  have h₅ := h₄.snoc (Step.commit rfl)
  exact h₅.snoc (Step.record rfl)

theorem fresh_lateFailure : Fresh (callsOf lateFailure) := by
  intro before call after h tokens hreturned
  obtain rfl : before = [] := by
    cases before with
    | nil => rfl
    | cons x before =>
      have hlength := congrArg List.length h
      simp [callsOf, lateFailure, Event.calls] at hlength
  obtain rfl : rotation = call := (List.cons.inj h).1
  obtain rfl : next = tokens := Option.some.inj hreturned
  simp [rotation, next]

end Fixture

open Fixture

/-- The pair of an attempt whose work fails late is stored. -/
theorem rotated_credentials_kept_late_failure :
    ((none : Option Transaction) = none → Kept {vault} (callsOf lateFailure) rotated) ∧
      ((callsOf lateFailure).map Exchange.refreshToken).Nodup := by
  apply rotated_credentials_kept _ run_lateFailure fresh_lateFailure
  rintro v rfl v' rfl
  exact vault_inverts

end LedgerGuard.Workers.Credentials
