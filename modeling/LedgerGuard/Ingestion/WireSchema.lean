import LedgerGuard.Ingestion.Batch

/-! # The wire schema of records

The item schema of a Woo page, for records whose members have the right types.
Patterns are searched, and the end of a pattern also matches before a final
newline. Without its optional package the validator does not check the format of
date-times, so only their pattern counts.
-/

namespace LedgerGuard.Ingestion

def searchAnchored (pattern : List Char → Bool) (s : String) : Bool :=
  pattern s.toList || (s.toList.getLast? = some '\n' && pattern s.toList.dropLast)

/-- A string with `maxLength` and `pattern`. -/
def text (maxLength : ℕ) (pattern : List Char → Bool) (s : String) : Bool :=
  s.toList.length ≤ maxLength && searchAnchored pattern s

/-- The pattern `Z$`. -/
def utcPattern (cs : List Char) : Bool := cs.getLast? = some 'Z'

/-- The pattern `^[1-9][0-9]*$`. -/
def numericPattern : List Char → Bool
  | [] => false
  | c :: rest => isDigit c && c ≠ '0' && rest.all isDigit

/-- The pattern `^[A-Z]{3}$`. -/
def currencyPattern (cs : List Char) : Bool :=
  cs.length = 3 && cs.all fun c => 'A' ≤ c && c ≤ 'Z'

def isAlnum (c : Char) : Bool := isDigit c || ('a' ≤ c && c ≤ 'z') || ('A' ≤ c && c ≤ 'Z')

def prefixed (pre : List Char) (p : Char → Bool) (cs : List Char) : Bool :=
  pre.isPrefixOf cs && cs.drop pre.length ≠ [] && (cs.drop pre.length).all p

/-- The pattern `^stripe(?:_[a-z0-9_]+)?$`. -/
def methodPattern (cs : List Char) : Bool :=
  cs = "stripe".toList ||
    prefixed "stripe_".toList (fun c => isDigit c || ('a' ≤ c && c ≤ 'z') || c = '_') cs

/-- The pattern `^(?:(?:pi|ch|cs)_[A-Za-z0-9_]+)?$`. -/
def transactionPattern (cs : List Char) : Bool :=
  cs = [] || ["pi_", "ch_", "cs_"].any fun pre =>
    prefixed pre.toList (fun c => isAlnum c || c = '_') cs

/-- The pattern `^cs_(test_|live_)?[A-Za-z0-9]+$`. -/
def checkoutSessionPattern (cs : List Char) : Bool :=
  ["cs_", "cs_test_", "cs_live_"].any fun pre => prefixed pre.toList isAlnum cs

/-- One or more letters, digits, points, underscores, slashes or hyphens. -/
def orderNumberPattern (cs : List Char) : Bool :=
  cs ≠ [] && cs.all fun c => isAlnum c || c ∈ ['.', '_', '/', '-']

theorem prefixed_iff {pre cs : List Char} {p : Char → Bool} : prefixed pre p cs = true ↔
    ∃ rest, cs = pre ++ rest ∧ rest ≠ [] ∧ ∀ c ∈ rest, p c = true := by
  rw [prefixed, Bool.and_eq_true, Bool.and_eq_true, List.isPrefixOf_iff_prefix, decide_eq_true_eq,
    List.all_eq_true]
  constructor
  · rintro ⟨⟨⟨rest, rfl⟩, hne⟩, hall⟩
    rw [List.drop_left] at hne hall
    exact ⟨rest, rfl, hne, hall⟩
  · rintro ⟨rest, rfl, hne, hall⟩
    rw [List.drop_left]
    exact ⟨⟨List.prefix_append _ _, hne⟩, hall⟩

theorem searchAnchored_iff {pattern : List Char → Bool} {s : String} :
    searchAnchored pattern s = true ↔
      pattern s.toList = true ∨ ∃ cs, s.toList = cs ++ ['\n'] ∧ pattern cs = true := by
  rw [searchAnchored, Bool.or_eq_true, Bool.and_eq_true, decide_eq_true_eq]
  refine or_congr_right ⟨?_, ?_⟩
  · rintro ⟨hl, hp⟩
    exact ⟨_, (List.dropLast_append_getLast? _ hl).symm, hp⟩
  · rintro ⟨cs, hs, hp⟩
    rw [hs]
    exact ⟨List.getLast?_concat, by rwa [List.dropLast_concat]⟩

theorem pattern_of_text {n : ℕ} {pattern : List Char → Bool} {s : String}
    (h : text n pattern s = true) (hs : s.toList.getLast? ≠ some '\n') :
    pattern s.toList = true := by
  rcases searchAnchored_iff.mp (Bool.and_eq_true_iff.mp h).2 with hp | ⟨cs, hcs, -⟩
  · exact hp
  · rw [hcs, List.getLast?_concat] at hs
    exact absurd rfl hs

theorem text_of_pattern {n : ℕ} {pattern : List Char → Bool} {s : String}
    (hn : s.toList.length ≤ n) (hp : pattern s.toList = true) : text n pattern s = true :=
  Bool.and_eq_true_iff.mpr ⟨decide_eq_true hn, searchAnchored_iff.mpr (Or.inl hp)⟩

/-- A `date-time` that ends in the UTC marker. -/
def utcText (s : String) : Bool := searchAnchored utcPattern s

def wooStatuses : List String :=
  ["pending", "processing", "on-hold", "completed", "cancelled", "refunded", "failed",
    "checkout-draft", "trash"]

structure StripeIds.Valid (ids : StripeIds) : Prop where
  paymentIntent : ∀ s ∈ ids.paymentIntent, text 255 (prefixed "pi_".toList isAlnum) s = true
  charge : ∀ s ∈ ids.charge, text 255 (prefixed "ch_".toList isAlnum) s = true
  checkoutSession : ∀ s ∈ ids.checkoutSession, text 255 checkoutSessionPattern s = true

structure OrderRecord.Valid (r : OrderRecord) : Prop where
  sourceId : text 20 numericPattern r.sourceId = true
  revision : utcText r.revision = true
  createdAt : utcText r.createdAt = true
  status : r.status ∈ wooStatuses
  amount : text 24 unsignedDecimal r.amount = true
  totalRefunded : text 24 unsignedDecimal r.totalRefunded = true
  currency : text 3 currencyPattern r.currency = true
  paymentMethod : text 64 methodPattern r.paymentMethod = true
  transactionId : text 255 transactionPattern r.transactionId = true
  stripeIds : r.stripeIds.Valid
  paidAt : ∀ t ∈ r.paidAt, utcText t = true
  completedAt : ∀ t ∈ r.completedAt.join, utcText t = true
  orderNumber : ∀ s ∈ r.orderNumber, text 64 orderNumberPattern s = true
  refundCount : r.refundIds.length ≤ 10000
  refundNodup : r.refundIds.Nodup
  refundIds : ∀ s ∈ r.refundIds, text 20 numericPattern s = true

structure RefundRecord.Valid (r : RefundRecord) : Prop where
  sourceId : text 20 numericPattern r.sourceId = true
  parentId : text 20 numericPattern r.parentId = true
  revision : utcText r.revision = true
  createdAt : utcText r.createdAt = true
  amount : text 24 unsignedDecimal r.amount = true
  currency : text 3 currencyPattern r.currency = true
  status : r.status = "recorded"

/-- The record is an instance of the item schema; its kind decides between the two cases. -/
def WooRecord.Valid : WooRecord → Prop
  | .order r => r.Valid
  | .refund r => r.Valid

instance (ids : StripeIds) : Decidable ids.Valid :=
  decidable_of_iff (_ ∧ _ ∧ _) ⟨fun ⟨a, b, c⟩ => ⟨a, b, c⟩, fun ⟨a, b, c⟩ => ⟨a, b, c⟩⟩

instance (r : OrderRecord) : Decidable r.Valid :=
  decidable_of_iff (_ ∧ _ ∧ _ ∧ _ ∧ _ ∧ _ ∧ _ ∧ _ ∧ _ ∧ _ ∧ _ ∧ _ ∧ _ ∧ _ ∧ _ ∧ _)
    ⟨fun ⟨a, b, c, d, e, f, g, h, i, j, k, l, m, n, o, p⟩ =>
      ⟨a, b, c, d, e, f, g, h, i, j, k, l, m, n, o, p⟩,
    fun ⟨a, b, c, d, e, f, g, h, i, j, k, l, m, n, o, p⟩ =>
      ⟨a, b, c, d, e, f, g, h, i, j, k, l, m, n, o, p⟩⟩

instance (r : RefundRecord) : Decidable r.Valid :=
  decidable_of_iff (_ ∧ _ ∧ _ ∧ _ ∧ _ ∧ _ ∧ _)
    ⟨fun ⟨a, b, c, d, e, f, g⟩ => ⟨a, b, c, d, e, f, g⟩,
    fun ⟨a, b, c, d, e, f, g⟩ => ⟨a, b, c, d, e, f, g⟩⟩

instance : (r : WooRecord) → Decidable r.Valid
  | .order r => inferInstanceAs (Decidable r.Valid)
  | .refund r => inferInstanceAs (Decidable r.Valid)

end LedgerGuard.Ingestion
