import Mathlib.Data.List.Basic
import Mathlib.Data.Nat.Notation

/-! # The JSON grammar

Texts are lists of code points. A derivation says which value stands at the front
of a text and what is left of the text behind it. The constants `NaN`, `Infinity`
and `-Infinity` are no JSON; a derivation may use them, and a value that comes of
them says so.
-/

namespace JsonText

inductive Value
  | null
  | bool (b : Bool)
  | constant (name : List ℕ)
  | number (literal : List ℕ)
  | str (s : List ℕ)
  | arr (elements : List Value)
  | obj (members : List (List ℕ × Value))

/-- What can be derived: a value, or what stands between two brackets. -/
inductive Part
  | value (v : Value)
  | elements (vs : List Value)
  | members (ms : List (List ℕ × Value))

mutual

/-- How deep brackets are nested, where the outermost counts as one. -/
def depth : Value → ℕ
  | .arr vs => depthElements vs + 1
  | .obj ms => depthMembers ms + 1
  | _ => 0

def depthElements : List Value → ℕ
  | [] => 0
  | v :: vs => max (depth v) (depthElements vs)

def depthMembers : List (List ℕ × Value) → ℕ
  | [] => 0
  | (_, v) :: ms => max (depth v) (depthMembers ms)

end

def Part.depth : Part → ℕ
  | .value v => JsonText.depth v
  | .elements vs => depthElements vs
  | .members ms => depthMembers ms

mutual

def Every (p : Value → Prop) : Value → Prop
  | .arr vs => p (.arr vs) ∧ EveryElement p vs
  | .obj ms => p (.obj ms) ∧ EveryMember p ms
  | v => p v

def EveryElement (p : Value → Prop) : List Value → Prop
  | [] => True
  | v :: vs => Every p v ∧ EveryElement p vs

def EveryMember (p : Value → Prop) : List (List ℕ × Value) → Prop
  | [] => True
  | (_, v) :: ms => Every p v ∧ EveryMember p ms

end

def Value.isObject : Value → Bool
  | .obj _ => true
  | _ => false

def Value.NamesOnce : Value → Prop
  | .obj ms => (ms.map Prod.fst).Nodup
  | _ => True

def Value.isScalar : Value → Bool
  | .null | .bool _ | .number _ | .str _ => true
  | _ => false

def Value.Finite : Value → Prop
  | .constant _ => False
  | _ => True

theorem every_scalar {p : Value → Prop} {v : Value} (hv : v.isScalar = true) (h : p v) :
    Every p v := by
  cases v with
  | arr | obj | constant => cases hv
  | _ => exact h

section Monotone

variable {p q : Value → Prop} (hpq : ∀ v, p v → q v)

include hpq

mutual

theorem every_mono (v : Value) (h : Every p v) : Every q v := by
  cases v with
  | arr vs => exact ⟨hpq _ h.1, everyElement_mono vs h.2⟩
  | obj ms => exact ⟨hpq _ h.1, everyMember_mono ms h.2⟩
  | _ => exact hpq _ h

theorem everyElement_mono (vs : List Value) (h : EveryElement p vs) : EveryElement q vs := by
  cases vs with
  | nil => trivial
  | cons v vs => exact ⟨every_mono v h.1, everyElement_mono vs h.2⟩

theorem everyMember_mono (ms : List (List ℕ × Value)) (h : EveryMember p ms) :
    EveryMember q ms := by
  cases ms with
  | nil => trivial
  | cons m ms => exact ⟨every_mono m.2 h.1, everyMember_mono ms h.2⟩

end

end Monotone

/-- A piece of a string: a character, or a code unit that is written as `\u`. -/
inductive Piece
  | char (c : ℕ)
  | unit (u : ℕ)
  deriving DecidableEq

def isHigh (u : ℕ) : Bool := 0xD800 ≤ u && u ≤ 0xDBFF

def isLow (u : ℕ) : Bool := 0xDC00 ≤ u && u ≤ 0xDFFF

/-- The characters of a string: two code units that make a surrogate pair are one. -/
def join : List Piece → List ℕ
  | .unit h :: .unit l :: ps =>
    if isHigh h && isLow l then (0x10000 + (h - 0xD800) * 0x400 + (l - 0xDC00)) :: join ps
    else h :: join (.unit l :: ps)
  | .unit u :: ps => u :: join ps
  | .char c :: ps => c :: join ps
  | [] => []

def isDigit (c : ℕ) : Bool := 48 ≤ c && c ≤ 57

def hexDigit (c : ℕ) : Option ℕ :=
  if isDigit c then some (c - 48)
  else if 65 ≤ c ∧ c ≤ 70 then some (c - 55)
  else if 97 ≤ c ∧ c ≤ 102 then some (c - 87)
  else none

def hex4 (a b c d : ℕ) : Option ℕ := do
  let a ← hexDigit a
  let b ← hexDigit b
  let c ← hexDigit c
  let d ← hexDigit d
  return ((a * 16 + b) * 16 + c) * 16 + d

def unescape : ℕ → Option ℕ
  | 34 => some 34
  | 92 => some 92
  | 47 => some 47
  | 98 => some 8
  | 102 => some 12
  | 110 => some 10
  | 114 => some 13
  | 116 => some 9
  | _ => none

/-- The rest of a string behind its opening quote. -/
inductive Quoted : List Piece → List ℕ → List ℕ → Prop
  | close {rest} : Quoted [] (34 :: rest) rest
  | char {c ps s rest} (printable : 32 ≤ c) (quote : c ≠ 34) (backslash : c ≠ 92)
      (h : Quoted ps s rest) : Quoted (.char c :: ps) (c :: s) rest
  | escape {c e ps s rest} (he : unescape c = some e) (h : Quoted ps s rest) :
      Quoted (.char e :: ps) (92 :: c :: s) rest
  | unit {a b c d u ps s rest} (hu : hex4 a b c d = some u) (h : Quoted ps s rest) :
      Quoted (.unit u :: ps) (92 :: 117 :: a :: b :: c :: d :: s) rest

def Digits (t : List ℕ) : Prop := t ≠ [] ∧ ∀ c ∈ t, isDigit c = true

def Whole : List ℕ → Prop
  | [] => False
  | c :: t => c = 48 ∧ t = [] ∨ 49 ≤ c ∧ c ≤ 57 ∧ ∀ d ∈ t, isDigit d = true

def Fraction : List ℕ → Prop
  | [] => True
  | c :: t => c = 46 ∧ Digits t

def Exponent : List ℕ → Prop
  | [] => True
  | c :: t => (c = 101 ∨ c = 69) ∧
      ∃ sign digits, t = sign ++ digits ∧ sign ∈ [[], [43], [45]] ∧ Digits digits

/-- A number: a sign, a whole part without leading zeros, and perhaps a fraction and an exponent. -/
inductive Numeral : List ℕ → Prop
  | mk {sign whole fraction exponent : List ℕ} (hs : sign ∈ [[], [45]]) (hw : Whole whole)
      (hf : Fraction fraction) (he : Exponent exponent) :
      Numeral (sign ++ whole ++ fraction ++ exponent)

def isBlank (c : ℕ) : Bool := c = 32 || c = 9 || c = 10 || c = 13

def Blank (s rest : List ℕ) : Prop := ∃ w, s = w ++ rest ∧ ∀ c ∈ w, isBlank c = true

/-- The names of the values that are written out, `null` to `-Infinity`. -/
def literals : List (List ℕ × Value) :=
  [([110, 117, 108, 108], .null), ([116, 114, 117, 101], .bool true),
    ([102, 97, 108, 115, 101], .bool false), ([78, 97, 78], .constant [78, 97, 78]),
    ([73, 110, 102, 105, 110, 105, 116, 121], .constant [73, 110, 102, 105, 110, 105, 116, 121]),
    ([45, 73, 110, 102, 105, 110, 105, 116, 121],
      .constant [45, 73, 110, 102, 105, 110, 105, 116, 121])]

theorem literal_cases {name : List ℕ} {v : Value} (h : (name, v) ∈ literals) :
    v.isScalar = true ∨ ∃ c, v = .constant c := by
  simp only [literals, List.mem_cons, Prod.mk.injEq, List.not_mem_nil, or_false] at h
  rcases h with ⟨-, rfl⟩ | ⟨-, rfl⟩ | ⟨-, rfl⟩ | ⟨-, rfl⟩ | ⟨-, rfl⟩ | ⟨-, rfl⟩ <;>
    simp [Value.isScalar]

theorem depth_literal {name : List ℕ} {v : Value} (h : (name, v) ∈ literals) : depth v = 0 := by
  rcases literal_cases h with hs | ⟨c, rfl⟩
  · cases v with
    | arr | obj | constant => cases hs
    | _ => simp [depth]
  · simp [depth]

/-- The part at the front of a text, up to its closing bracket if it has one, and the rest. -/
inductive Derives : Part → List ℕ → List ℕ → Prop
  | literal {name v rest} (h : (name, v) ∈ literals) : Derives (.value v) (name ++ rest) rest
  | number {t rest} (h : Numeral t) : Derives (.value (.number t)) (t ++ rest) rest
  | str {ps s rest} (h : Quoted ps s rest) : Derives (.value (.str (join ps))) (34 :: s) rest
  | emptyArr {s rest} (h : Blank s (93 :: rest)) : Derives (.value (.arr [])) (91 :: s) rest
  | arr {vs s rest} (h : Derives (.elements vs) s rest) : Derives (.value (.arr vs)) (91 :: s) rest
  | emptyObj {s rest} (h : Blank s (125 :: rest)) : Derives (.value (.obj [])) (123 :: s) rest
  | obj {ms s rest} (h : Derives (.members ms) s rest) :
      Derives (.value (.obj ms)) (123 :: s) rest
  | lastElement {v s s₁ s₂ rest} (h₁ : Blank s s₁) (hv : Derives (.value v) s₁ s₂)
      (h₂ : Blank s₂ (93 :: rest)) : Derives (.elements [v]) s rest
  | moreElements {v vs s s₁ s₂ s₃ rest} (h₁ : Blank s s₁) (hv : Derives (.value v) s₁ s₂)
      (h₂ : Blank s₂ (44 :: s₃)) (hs : Derives (.elements vs) s₃ rest) :
      Derives (.elements (v :: vs)) s rest
  | lastMember {k v s s₁ s₂ s₃ s₄ s₅ rest} (h₁ : Blank s (34 :: s₁)) (hk : Quoted k s₁ s₂)
      (h₂ : Blank s₂ (58 :: s₃)) (h₃ : Blank s₃ s₄) (hv : Derives (.value v) s₄ s₅)
      (h₄ : Blank s₅ (125 :: rest)) : Derives (.members [(join k, v)]) s rest
  | moreMembers {k v ms s s₁ s₂ s₃ s₄ s₅ s₆ rest} (h₁ : Blank s (34 :: s₁)) (hk : Quoted k s₁ s₂)
      (h₂ : Blank s₂ (58 :: s₃)) (h₃ : Blank s₃ s₄) (hv : Derives (.value v) s₄ s₅)
      (h₄ : Blank s₅ (44 :: s₆)) (hs : Derives (.members ms) s₆ rest) :
      Derives (.members ((join k, v) :: ms)) s rest

/-- A text that holds one value, with whitespace around it. -/
def Document (v : Value) (text : List ℕ) : Prop :=
  ∃ s rest, Blank text s ∧ Derives (.value v) s rest ∧ Blank rest []

def Plain (c : ℕ) : Prop := c ≠ 34 ∧ c ≠ 91 ∧ c ≠ 93 ∧ c ≠ 123 ∧ c ≠ 125

theorem plain_digit {c : ℕ} (h : isDigit c = true) : Plain c := by
  simp only [isDigit, Bool.and_eq_true, decide_eq_true_eq] at h
  unfold Plain
  omega

theorem plain_blank {c : ℕ} (h : isBlank c = true) : Plain c := by
  simp only [isBlank, Bool.or_eq_true, decide_eq_true_eq] at h
  unfold Plain
  omega

theorem plain_literal {name : List ℕ} {v : Value} (h : (name, v) ∈ literals) :
    ∀ c ∈ name, Plain c := by
  have hall : ∀ name ∈ literals.map Prod.fst, ∀ c ∈ name, Plain c := by
    unfold Plain
    decide
  exact hall name (List.mem_map_of_mem h)

theorem plain_whole {t : List ℕ} (h : Whole t) : ∀ c ∈ t, Plain c := by
  intro c hc
  cases t with
  | nil => cases hc
  | cons d t =>
    rcases h with ⟨rfl, rfl⟩ | ⟨h₁, h₂, h₃⟩
    · obtain rfl := List.mem_singleton.mp hc
      unfold Plain
      omega
    · rcases List.mem_cons.mp hc with rfl | hc
      · unfold Plain
        omega
      · exact plain_digit (h₃ c hc)

theorem plain_fraction {t : List ℕ} (h : Fraction t) : ∀ c ∈ t, Plain c := by
  intro c hc
  cases t with
  | nil => cases hc
  | cons d t =>
    obtain ⟨rfl, -, h⟩ := h
    rcases List.mem_cons.mp hc with rfl | hc
    · unfold Plain
      omega
    · exact plain_digit (h c hc)

theorem plain_exponent {t : List ℕ} (h : Exponent t) : ∀ c ∈ t, Plain c := by
  intro c hc
  cases t with
  | nil => cases hc
  | cons d t =>
    obtain ⟨hd, sign, digits, rfl, hsign, -, h⟩ := h
    rcases List.mem_cons.mp hc with rfl | hc
    · unfold Plain
      omega
    · rcases List.mem_append.mp hc with hc | hc
      · simp only [List.mem_cons, List.not_mem_nil, or_false] at hsign
        rcases hsign with rfl | rfl | rfl
        · cases hc
        · obtain rfl := List.mem_singleton.mp hc
          unfold Plain
          omega
        · obtain rfl := List.mem_singleton.mp hc
          unfold Plain
          omega
      · exact plain_digit (h c hc)

theorem plain_numeral {t : List ℕ} (h : Numeral t) : ∀ c ∈ t, Plain c := by
  obtain ⟨hs, hw, hf, he⟩ := h
  intro c hc
  rcases List.mem_append.mp hc with hc | hc
  · rcases List.mem_append.mp hc with hc | hc
    · rcases List.mem_append.mp hc with hc | hc
      · simp only [List.mem_cons, List.not_mem_nil, or_false] at hs
        rcases hs with rfl | rfl
        · cases hc
        · obtain rfl := List.mem_singleton.mp hc
          unfold Plain
          omega
      · exact plain_whole hw c hc
    · exact plain_fraction hf c hc
  · exact plain_exponent he c hc

end JsonText
