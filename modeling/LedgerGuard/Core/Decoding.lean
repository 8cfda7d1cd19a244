import LedgerGuard.Core.Canonical
import LedgerGuard.Lib.SelfDelimiting

/-! # The canonical encoding determines its value

Every canonical text can be read back in one way only: escaped characters by a
decoder, and values because each of them ends where a comma or a bracket can
follow. Two objects with one text agree on the text of every key.
-/

namespace LedgerGuard

open Ordered SelfDelimiting

def hexValue (c : Char) : ℕ :=
  if c.toNat < 58 then c.toNat - 48 else c.toNat - 87

theorem hexValue_hexDigit {n : ℕ} (h : n < 16) : hexValue (hexDigit n) = n := by
  decide +revert

def hexNumber (a b c d : Char) : ℕ :=
  ((hexValue a * 16 + hexValue b) * 16 + hexValue c) * 16 + hexValue d

theorem hexNumber_digits {n : ℕ} (h : n < 65536) :
    hexNumber (hexDigit (n / 4096 % 16)) (hexDigit (n / 256 % 16)) (hexDigit (n / 16 % 16))
      (hexDigit (n % 16)) = n := by
  unfold hexNumber
  rw [hexValue_hexDigit (Nat.mod_lt _ (by decide)), hexValue_hexDigit (Nat.mod_lt _ (by decide)),
    hexValue_hexDigit (Nat.mod_lt _ (by decide)), hexValue_hexDigit (Nat.mod_lt _ (by decide))]
  omega

def unescapeLetter (c : Char) : Char :=
  if c = 'n' then '\n'
  else if c = 'r' then '\r'
  else if c = 't' then '\t'
  else if c = 'f' then Char.ofNat 12
  else if c = 'b' then Char.ofNat 8
  else c

def unescape : List Char → Option (Char × List Char)
  | '\\' :: 'u' :: a :: b :: c :: d :: rest =>
    let high := hexNumber a b c d
    if 55296 ≤ high ∧ high < 56320 then
      match rest with
      | '\\' :: 'u' :: a :: b :: c :: d :: rest =>
        some (Char.ofNat (65536 + (high - 55296) * 1024 + (hexNumber a b c d - 56320)), rest)
      | _ => none
    else some (Char.ofNat high, rest)
  | '\\' :: c :: rest => some (unescapeLetter c, rest)
  | c :: rest => some (c, rest)
  | [] => none

theorem toList_unicodeEscape (n : ℕ) : (unicodeEscape n).toList =
    '\\' :: 'u' :: [hexDigit (n / 4096 % 16), hexDigit (n / 256 % 16), hexDigit (n / 16 % 16),
      hexDigit (n % 16)] := by
  simp [unicodeEscape]

theorem unescape_unicode {n : ℕ} (h : n < 65536) (hs : n < 55296 ∨ 57343 < n)
    (rest : List Char) :
    unescape ((unicodeEscape n).toList ++ rest) = some (Char.ofNat n, rest) := by
  rw [toList_unicodeEscape]
  simp only [List.cons_append, List.nil_append, unescape, hexNumber_digits h]
  exact if_neg (by omega)

theorem unescape_pair {n : ℕ} (hl : 65536 ≤ n) (h : n < 1114112) (rest : List Char) :
    unescape ((unicodeEscape (55296 + (n - 65536) / 1024)).toList ++
      ((unicodeEscape (56320 + (n - 65536) % 1024)).toList ++ rest)) =
      some (Char.ofNat n, rest) := by
  rw [toList_unicodeEscape, toList_unicodeEscape]
  simp only [List.cons_append, List.nil_append, unescape]
  rw [hexNumber_digits (by omega), hexNumber_digits (by omega), if_pos (by omega)]
  have hn : 65536 + (55296 + (n - 65536) / 1024 - 55296) * 1024 +
      (56320 + (n - 65536) % 1024 - 56320) = n := by omega
  rw [hn]

theorem unescape_plain {c : Char} (h : c ≠ '\\') (rest : List Char) :
    unescape (c :: rest) = some (c, rest) := by
  unfold unescape
  split
  · exact absurd (List.cons.inj ‹_›).1 h
  · exact absurd (List.cons.inj ‹_›).1 h
  · obtain ⟨rfl, rfl⟩ := List.cons.inj ‹_›
    rfl
  · rename_i he
    cases he

theorem eq_ofNat {c : Char} {n : ℕ} (h : c.toNat = n) : c = Char.ofNat n := by
  rw [← h, Char.ofNat_toNat]

theorem unescape_escapeChar (c : Char) (rest : List Char) :
    unescape ((escapeChar c).toList ++ rest) = some (c, rest) := by
  have hv : c.toNat < 55296 ∨ 57343 < c.toNat ∧ c.toNat < 1114112 := c.valid
  unfold escapeChar
  split
  · rename_i h
    rw [h]
    rfl
  split
  · rename_i h
    rw [h]
    rfl
  split
  · rename_i h
    rw [h]
    rfl
  split
  · rename_i h
    rw [h]
    rfl
  split
  · rename_i h
    rw [h]
    rfl
  split
  · rename_i h
    rw [eq_ofNat h]
    rfl
  split
  · rename_i h
    rw [eq_ofNat h]
    rfl
  split
  · rw [show c.toString.toList = [c] from String.toList_singleton c]
    exact unescape_plain ‹_› rest
  split
  · rw [unescape_unicode (by omega) (by omega), Char.ofNat_toNat]
  · rw [String.toList_append, List.append_assoc, unescape_pair (by omega) (by omega),
      Char.ofNat_toNat]

theorem head_escapeChar (c : Char) : ∃ d rest, (escapeChar c).toList = d :: rest ∧ d ≠ '"' := by
  have hu := unescape_escapeChar c []
  cases he : (escapeChar c).toList with
  | nil =>
    rw [he] at hu
    cases hu
  | cons d rest =>
    refine ⟨d, rest, rfl, ?_⟩
    rintro rfl
    rw [he, List.cons_append, unescape_plain (by decide)] at hu
    obtain ⟨rfl, -⟩ := Prod.mk.inj (Option.some.inj hu)
    cases he

theorem toList_join (xs : List String) : (String.join xs).toList = xs.flatMap String.toList := by
  simp [String.toList_join, List.flatMap]

def escaped (cs : List Char) : List Char := cs.flatMap fun c => (escapeChar c).toList

theorem toList_quote (s : String) : (quote s).toList = '"' :: (escaped s.toList ++ ['"']) := by
  unfold quote escaped
  rw [String.toList_append, String.toList_append, toList_join, List.flatMap_map]
  rfl

theorem escaped_inj {cs ds r r' : List Char}
    (h : escaped cs ++ '"' :: r = escaped ds ++ '"' :: r') : cs = ds ∧ r = r' := by
  induction cs generalizing ds with
  | nil =>
    cases ds with
    | nil => exact ⟨rfl, (List.cons.inj h).2⟩
    | cons d ds =>
      obtain ⟨x, rest, hx, hq⟩ := head_escapeChar d
      unfold escaped at h
      rw [List.flatMap_cons, hx] at h
      exact absurd (List.cons.inj h).1.symm hq
  | cons c cs ih =>
    unfold escaped at h
    rw [List.flatMap_cons, List.append_assoc] at h
    cases ds with
    | nil =>
      obtain ⟨x, rest, hx, hq⟩ := head_escapeChar c
      rw [hx] at h
      exact absurd (List.cons.inj h).1 hq
    | cons d ds =>
      rw [List.flatMap_cons, List.append_assoc] at h
      have hu := congrArg unescape h
      rw [unescape_escapeChar, unescape_escapeChar] at hu
      obtain ⟨rfl, ht⟩ := Prod.mk.inj (Option.some.inj hu)
      obtain ⟨rfl, hr⟩ := ih ht
      exact ⟨rfl, hr⟩

theorem unambiguous_quote {stop : Char → Prop} (s t : String) :
    Unambiguous stop (quote s).toList (quote t).toList := by
  rintro r r' - - h
  rw [toList_quote, toList_quote, List.cons_append, List.cons_append, List.append_assoc,
    List.append_assoc] at h
  obtain ⟨he, hr⟩ := escaped_inj (List.cons.inj h).2
  rw [String.toList_injective he]
  exact ⟨rfl, hr⟩

theorem quote_injective : Function.Injective quote := by
  intro s t h
  have hl := congrArg String.toList h
  rw [toList_quote, toList_quote] at hl
  exact String.toList_injective (escaped_inj (List.cons.inj hl).2).1

def closes (c : Char) : Prop := c = ',' ∨ c = ']' ∨ c = '\x7d'

theorem closes_comma : closes ',' := Or.inl rfl

theorem closes_bracket : closes ']' := Or.inr (Or.inl rfl)

theorem closes_brace : closes '\x7d' := Or.inr (Or.inr rfl)

theorem toList_joinWith (sep : Char) (xs : List String) :
    (joinWith sep.toString xs).toList = joined sep (xs.map String.toList) := by
  induction xs with
  | nil => rfl
  | cons x xs ih =>
    cases xs with
    | nil => rfl
    | cons y xs =>
      have hs : sep.toString.toList = [sep] := String.toList_singleton sep
      rw [joinWith, String.toList_append, String.toList_append, ih, hs]
      · simp [joined]
      · rintro h
        cases h

/-- Null, booleans and numbers, whose texts have letters, digits and signs only. -/
def Json.scalar : Json → Bool
  | .null | .bool _ | .int _ => true
  | _ => false

theorem plain_repr {n : ℕ} {c : Char} (h : c ∈ (toString n).toList) :
    ¬ closes c ∧ c ∉ ['"', '[', '\x7b'] := by
  have hd : c.isDigit = true := by
    rw [Nat.toString_eq_repr, Nat.toList_repr] at h
    exact Nat.isDigit_of_mem_toDigits (by decide) (by decide) h
  unfold closes
  constructor
  · rintro (rfl | rfl | rfl) <;> cases hd
  · simp only [List.mem_cons, List.not_mem_nil, or_false]
    rintro (rfl | rfl | rfl) <;> cases hd

theorem toList_negSucc (n : ℕ) :
    (toString (Int.negSucc n)).toList = '-' :: (toString (n + 1)).toList := by
  simp [Int.toString_eq_repr, Int.repr]

theorem plain_int {n : ℤ} {c : Char} (h : c ∈ (toString n).toList) :
    ¬ closes c ∧ c ∉ ['"', '[', '\x7b'] := by
  cases n with
  | ofNat n => exact plain_repr h
  | negSucc n =>
    rw [toList_negSucc] at h
    rcases List.mem_cons.mp h with rfl | h
    · unfold closes
      decide
    · exact plain_repr h

theorem plain_word : ∀ c ∈ "nulltruefalse".toList, ¬ closes c ∧ c ∉ ['"', '[', '\x7b'] := by
  unfold closes
  intro c hc
  exact of_decide_eq_true (List.all_eq_true.mp (show "nulltruefalse".toList.all
    (fun c => decide (¬ (c = ',' ∨ c = ']' ∨ c = '}') ∧ c ∉ ['"', '[', '\x7b'])) = true by
      decide) c hc)

theorem canonical_scalar {j : Json} (hj : j.scalar = true) :
    ∀ c ∈ (canonical j).toList, ¬ closes c ∧ c ∉ ['"', '[', '\x7b'] := by
  intro c hc
  cases j with
  | null => exact plain_word c (List.mem_append_left "truefalse".toList hc)
  | bool b =>
    cases b with
    | false => exact plain_word c (List.mem_append_right "nulltrue".toList hc)
    | true =>
      exact plain_word c (List.mem_append_right "null".toList
        (List.mem_append_left "false".toList hc))
  | int n =>
    rw [canonical] at hc
    exact plain_int hc
  | str s => cases hj
  | arr elems => cases hj
  | obj fields => cases hj

/-- The bracket that a text or a container starts with. -/
def Json.opening : Json → Option Char
  | .str _ => some '"'
  | .arr _ => some '['
  | .obj _ => some '\x7b'
  | _ => none

theorem canonicalElems_eq (elems : List Json) : canonicalElems elems = elems.map canonical := by
  induction elems with
  | nil => rfl
  | cons j js ih => rw [canonicalElems, ih, List.map_cons]

theorem canonical_arr (elems : List Json) : (canonical (.arr elems)).toList =
    '[' :: (joined ',' ((elems.map canonical).map String.toList) ++ [']']) := by
  have hj := toList_joinWith ',' (elems.map canonical)
  rw [canonical, canonicalElems_eq, String.toList_append, String.toList_append]
  rw [show ("," : String) = (',' : Char).toString from rfl, hj]
  rfl

def entryText (kv : String × String) : String := quote kv.1 ++ ":" ++ kv.2

/-- The keys of an object with the texts of their values, sorted. -/
def Json.entries (fields : List (String × Json)) : List (String × String) :=
  sortBy Prod.fst (fields.map fun kv => (kv.1, canonical kv.2))

theorem canonical_obj (fields : List (String × Json)) : (canonical (.obj fields)).toList =
    '\x7b' :: (joined ',' (((Json.entries fields).map entryText).map String.toList) ++
      ['\x7d']) := by
  have he : canonicalFields fields = fields.map fun kv => (kv.1, canonical kv.2) := by
    induction fields with
    | nil => rfl
    | cons kv fs ih => rw [canonicalFields, ih, List.map_cons]
  have hj := toList_joinWith ',' ((Json.entries fields).map entryText)
  rw [canonical, he, String.toList_append, String.toList_append]
  rw [show ("," : String) = (',' : Char).toString from rfl]
  unfold Json.entries entryText at hj ⊢
  rw [hj]
  rfl

def opens (c : Char) : Option Char := if c ∈ ['"', '[', '\x7b'] then some c else none

theorem repr_ne_nil (n : ℕ) : (toString n).toList ≠ [] := by
  rw [Nat.toString_eq_repr, Nat.toList_repr]
  exact Nat.toDigits_ne_nil

theorem canonical_scalar_ne_nil {j : Json} (hj : j.scalar = true) :
    (canonical j).toList ≠ [] := by
  cases j with
  | null => decide
  | bool b => cases b <;> decide
  | int n =>
    rw [canonical]
    cases n with
    | ofNat n => exact repr_ne_nil n
    | negSucc n => simp [Int.toString_eq_repr, Int.repr]
  | str s => cases hj
  | arr elems => cases hj
  | obj fields => cases hj

theorem head_canonical (j : Json) : ∃ c rest, (canonical j).toList = c :: rest ∧
    ¬ closes c ∧ j.opening = opens c := by
  by_cases hj : j.scalar = true
  · obtain ⟨c, rest, he⟩ := List.exists_cons_of_ne_nil (canonical_scalar_ne_nil hj)
    obtain ⟨hc, ho⟩ := canonical_scalar hj c (by rw [he]; exact List.mem_cons_self)
    refine ⟨c, rest, he, hc, ?_⟩
    unfold opens
    rw [if_neg ho]
    cases j <;> first | rfl | cases hj
  · cases j with
    | null => exact absurd rfl hj
    | bool b => exact absurd rfl hj
    | int n => exact absurd rfl hj
    | str s =>
      rw [canonical, toList_quote]
      exact ⟨_, _, rfl, by unfold closes; decide, rfl⟩
    | arr elems => exact ⟨_, _, canonical_arr elems, by unfold closes; decide, rfl⟩
    | obj fields => exact ⟨_, _, canonical_obj fields, by unfold closes; decide, rfl⟩

theorem starts_canonical (j : Json) : Starts closes (canonical j).toList := by
  obtain ⟨c, rest, he, hc, -⟩ := head_canonical j
  rw [he]
  exact ⟨c, rfl, hc⟩

theorem unambiguous_opening {a b : Json} (h : a.opening ≠ b.opening) :
    Unambiguous closes (canonical a).toList (canonical b).toList := by
  obtain ⟨c, rest, hc, -, ha⟩ := head_canonical a
  obtain ⟨d, rest', hd, -, hb⟩ := head_canonical b
  rw [hc, hd]
  refine unambiguous_of_head ?_ (List.cons_ne_nil _ _) (List.cons_ne_nil _ _)
  rintro he
  obtain rfl := Option.some.inj he
  exact h (ha.trans hb.symm)

theorem unambiguous_entry {k k' t t' : String}
    (h : Unambiguous closes t.toList t'.toList) :
    Unambiguous closes (entryText (k, t)).toList (entryText (k', t')).toList := by
  rintro r r' hr hr' he
  have ht : ∀ k t : String, (entryText (k, t)).toList = (quote k).toList ++ ':' :: t.toList := by
    intro k t
    unfold entryText
    rw [String.toList_append, String.toList_append, List.append_assoc]
    rfl
  rw [ht, ht, List.append_assoc, List.append_assoc] at he
  have hq : ∀ x : List Char, Stops (fun c => c = ':') (':' :: x) := fun x => stops_cons rfl
  obtain ⟨hk, hv⟩ := unambiguous_quote k k' _ _ (hq _) (hq _) he
  obtain ⟨hv, hr⟩ := h r r' hr hr' (List.cons.inj hv).2
  rw [ht, ht, hk, hv]
  exact ⟨rfl, hr⟩

theorem starts_entry (kv : String × String) : Starts closes (entryText kv).toList := by
  unfold entryText
  rw [String.toList_append, String.toList_append, toList_quote]
  exact ⟨_, rfl, by unfold closes; decide⟩

theorem mem_entries {fields : List (String × Json)} {kt : String × String} :
    kt ∈ Json.entries fields ↔ ∃ kv ∈ fields, (kv.1, canonical kv.2) = kt := by
  unfold Json.entries
  rw [mem_sortBy, List.mem_map]

mutual

theorem unambiguous_canonical (a : Json) : ∀ b : Json,
    Unambiguous closes (canonical a).toList (canonical b).toList := by
  intro b
  by_cases ho : a.opening = b.opening
  · cases a with
    | null | bool | int =>
      have hb : b.scalar = true := by cases b <;> first | rfl | cases ho
      exact unambiguous_of_free (fun c hc => (canonical_scalar rfl c hc).1)
        fun c hc => (canonical_scalar hb c hc).1
    | str s =>
      cases b <;> try cases ho
      simp only [canonical]
      exact unambiguous_quote _ _
    | arr elems =>
      cases b <;> try cases ho
      rename_i elems'
      rw [canonical_arr, canonical_arr]
      refine unambiguous_bracketed closes_comma closes_bracket (by decide) ?_ ?_ ?_
      · simp only [List.mem_map, forall_exists_index, and_imp, forall_apply_eq_imp_iff₂]
        intro x hx y _
        exact unambiguous_elems elems x hx y
      · simp only [List.mem_map, forall_exists_index, and_imp, forall_apply_eq_imp_iff₂]
        exact fun x _ => starts_canonical x
      · simp only [List.mem_map, forall_exists_index, and_imp, forall_apply_eq_imp_iff₂]
        exact fun x _ => starts_canonical x
    | obj fields =>
      cases b <;> try cases ho
      rename_i fields'
      rw [canonical_obj, canonical_obj]
      refine unambiguous_bracketed closes_comma closes_brace (by decide) ?_ ?_ ?_
      · simp only [List.mem_map, mem_entries, forall_exists_index, and_imp,
          forall_apply_eq_imp_iff₂]
        intro x hx y _
        exact unambiguous_entry (unambiguous_fields fields x hx y.2)
      · simp only [List.mem_map, forall_exists_index, and_imp, forall_apply_eq_imp_iff₂]
        exact fun x _ => starts_entry x
      · simp only [List.mem_map, forall_exists_index, and_imp, forall_apply_eq_imp_iff₂]
        exact fun x _ => starts_entry x
  · exact unambiguous_opening ho

theorem unambiguous_elems (as : List Json) : ∀ a ∈ as, ∀ b : Json,
    Unambiguous closes (canonical a).toList (canonical b).toList := by
  cases as with
  | nil =>
    rintro a ha
    cases ha
  | cons j js =>
    rintro a ha b
    rcases List.mem_cons.mp ha with he | ha
    · rw [he]
      exact unambiguous_canonical j b
    · exact unambiguous_elems js a ha b

theorem unambiguous_fields (fs : List (String × Json)) : ∀ kv ∈ fs, ∀ b : Json,
    Unambiguous closes (canonical kv.2).toList (canonical b).toList := by
  cases fs with
  | nil =>
    rintro a ha
    cases ha
  | cons kj js =>
    obtain ⟨k, j⟩ := kj
    rintro a ha b
    rcases List.mem_cons.mp ha with he | ha
    · rw [he]
      exact unambiguous_canonical j b
    · exact unambiguous_fields js a ha b

end

theorem canonical_str_inj {s t : String} : canonical (.str s) = canonical (.str t) ↔ s = t :=
  ⟨fun h => quote_injective (by simpa only [canonical] using h), fun h => by rw [h]⟩

theorem canonical_str_injective : Function.Injective (canonical ∘ Json.str) :=
  fun _ _ h => canonical_str_inj.mp h

theorem canonical_bool_inj {a b : Bool} :
    canonical (.bool a) = canonical (.bool b) ↔ a = b := by
  revert a b
  decide

theorem repr_ne_negative {m : ℕ} {cs : List Char} : (toString m).toList ≠ '-' :: cs := by
  rintro h
  have hd : '-' ∈ (toString m).toList := by rw [h]; exact List.mem_cons_self
  rw [toList_toString] at hd
  cases Nat.isDigit_of_mem_toDigits (by decide) (by decide) hd

theorem canonical_int_inj {m n : ℤ} : canonical (.int m) = canonical (.int n) ↔ m = n := by
  constructor
  · intro h
    simp only [canonical] at h
    have hl := congrArg String.toList h
    cases m with
    | ofNat m =>
      cases n with
      | ofNat n => exact congrArg Int.ofNat (toString_injective (String.toList_injective hl))
      | negSucc n =>
        rw [toList_negSucc] at hl
        exact absurd hl repr_ne_negative
    | negSucc m =>
      rw [toList_negSucc] at hl
      cases n with
      | ofNat n => exact absurd hl.symm repr_ne_negative
      | negSucc n =>
        rw [toList_negSucc] at hl
        have he := toString_injective (String.toList_injective (List.cons.inj hl).2)
        rw [Nat.succ.inj he]
  · rintro rfl
    rfl

theorem canonical_arr_inj {xs ys : List Json} (h : canonical (.arr xs) = canonical (.arr ys)) :
    xs.map canonical = ys.map canonical := by
  have hl := congrArg String.toList h
  rw [canonical_arr, canonical_arr] at hl
  have hw : ∀ zs : List Json, ∀ w ∈ (zs.map canonical).map String.toList, Starts closes w := by
    simp only [List.mem_map, forall_exists_index, and_imp, forall_apply_eq_imp_iff₂]
    exact fun _ x _ => starts_canonical x
  have ht : Function.Injective String.toList := fun _ _ => String.toList_injective
  refine List.map_injective_iff.mpr ht (joined_inj closes_comma closes_bracket (by decide) ?_
    (hw xs) (hw ys) (List.cons.inj hl).2).1
  simp only [List.mem_map, forall_exists_index, and_imp, forall_apply_eq_imp_iff₂]
  exact fun x _ y _ => unambiguous_canonical x y

theorem entryText_injective : Function.Injective entryText := by
  rintro ⟨k, t⟩ ⟨k', t'⟩ h
  unfold entryText at h
  have hl := congrArg String.toList h
  simp only [String.toList_append, List.append_assoc] at hl
  have hq : ∀ x : List Char, Stops (fun c => c = ':') (":".toList ++ x) := fun x => stops_cons rfl
  obtain ⟨hk, ht⟩ := unambiguous_quote k k' _ _ (hq _) (hq _) hl
  rw [quote_injective (String.toList_injective hk),
    String.toList_injective (List.append_cancel_left ht)]

theorem canonical_obj_inj {fs gs : List (String × Json)}
    (h : canonical (.obj fs) = canonical (.obj gs)) : Json.entries fs = Json.entries gs := by
  have hl := congrArg String.toList h
  rw [canonical_obj, canonical_obj] at hl
  have hw : ∀ es : List (String × String), ∀ w ∈ (es.map entryText).map String.toList,
      Starts closes w := by
    simp only [List.mem_map, forall_exists_index, and_imp, forall_apply_eq_imp_iff₂]
    exact fun _ x _ => starts_entry x
  have ht : Function.Injective String.toList := fun _ _ => String.toList_injective
  refine List.map_injective_iff.mpr entryText_injective (List.map_injective_iff.mpr ht
    (joined_inj closes_comma closes_brace (by decide) ?_ (hw _) (hw _) (List.cons.inj hl).2).1)
  simp only [List.mem_map, mem_entries, forall_exists_index, and_imp, forall_apply_eq_imp_iff₂]
  exact fun x _ y _ => unambiguous_entry (unambiguous_canonical x.2 y.2)

theorem canonical_obj_perm {fs gs : List (String × Json)}
    (h : canonical (.obj fs) = canonical (.obj gs)) :
    (fs.map fun kv => (kv.1, canonical kv.2)).Perm (gs.map fun kv => (kv.1, canonical kv.2)) :=
  (sortBy_perm Prod.fst _).symm.trans
    ((List.Perm.of_eq (canonical_obj_inj h)).trans (sortBy_perm Prod.fst _))

theorem lookup_eq_some {fs : List (String × Json)} (hn : (fs.map Prod.fst).Nodup) {k : String}
    {j : Json} : fs.lookup k = some j ↔ (k, j) ∈ fs := by
  induction fs with
  | nil => simp
  | cons kv fs ih =>
    obtain ⟨k', j'⟩ := kv
    obtain ⟨hk, hn⟩ := List.nodup_cons.mp hn
    rw [List.lookup_cons, List.mem_cons, Prod.mk.injEq]
    by_cases hkk : k = k'
    · subst hkk
      have hnot : (k, j) ∉ fs := fun hm => hk (List.mem_map.mpr ⟨_, hm, rfl⟩)
      simp [hnot, eq_comm]
    · rw [beq_eq_false_iff_ne.mpr hkk]
      exact (ih hn).trans ⟨Or.inr, fun h => h.resolve_left fun he => hkk he.1⟩

theorem canonical_obj_lookup {fs gs : List (String × Json)} (hf : (fs.map Prod.fst).Nodup)
    (hg : (gs.map Prod.fst).Nodup) (h : canonical (.obj fs) = canonical (.obj gs)) (k : String) :
    (fs.lookup k).map canonical = (gs.lookup k).map canonical := by
  have hiff : ∀ {as bs : List (String × Json)}, (as.map Prod.fst).Nodup → (bs.map Prod.fst).Nodup →
      (as.map fun kv => (kv.1, canonical kv.2)).Perm (bs.map fun kv => (kv.1, canonical kv.2)) →
      ∀ t, (as.lookup k).map canonical = some t → (bs.lookup k).map canonical = some t := by
    rintro as bs ha hb hp t ht
    obtain ⟨j, hj, rfl⟩ := Option.map_eq_some_iff.mp ht
    have hm := hp.mem_iff.mp (List.mem_map.mpr ⟨_, (lookup_eq_some ha).mp hj, rfl⟩)
    obtain ⟨⟨k', j'⟩, hb', he⟩ := List.mem_map.mp hm
    obtain ⟨rfl, he⟩ := Prod.mk.inj he
    rw [(lookup_eq_some hb).mpr hb']
    exact congrArg some he
  have hp := canonical_obj_perm h
  apply Option.ext
  exact fun t => ⟨hiff hf hg hp t, hiff hg hf hp.symm t⟩

theorem canonical_obj_values {fs gs : List (String × Json)}
    (hk : fs.map Prod.fst = gs.map Prod.fst) (hn : (fs.map Prod.fst).Nodup)
    (h : canonical (.obj fs) = canonical (.obj gs)) :
    fs.map (canonical ∘ Prod.snd) = gs.map (canonical ∘ Prod.snd) := by
  have hlen : fs.length = gs.length := by simpa using congrArg List.length hk
  have hg : (gs.map Prod.fst).Nodup := hk ▸ hn
  refine List.ext_getElem (by simpa using hlen) fun i hi hi' => ?_
  rw [List.length_map] at hi hi'
  have hfst : fs[i].1 = gs[i].1 := by
    have he := congrArg (·[i]?) hk
    simpa [hi, hi'] using he
  have hl := canonical_obj_lookup hn hg h fs[i].1
  have hj : fs.lookup fs[i].1 = some fs[i].2 := (lookup_eq_some hn).mpr (List.getElem_mem hi)
  have hj' : gs.lookup gs[i].1 = some gs[i].2 := (lookup_eq_some hg).mpr (List.getElem_mem hi')
  rw [hj, hfst, hj'] at hl
  simpa using hl

end LedgerGuard
