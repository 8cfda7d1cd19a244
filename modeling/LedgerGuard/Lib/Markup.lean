import Mathlib.Data.List.Basic

/-! # Tags and escaped text

A document is a list of tags with the text behind each. Text is escaped when it
is written, and a reader that knows nothing of the writer finds the tags that
were written and no others, and the text as it was before escaping.
-/

namespace Markup

/-- Replace the characters that a reader of markup takes for its own. -/
def escapeChar (c : Char) : List Char :=
  if c = '&' then "&amp;".toList
  else if c = '<' then "&lt;".toList
  else if c = '>' then "&gt;".toList
  else if c = '"' then "&quot;".toList
  else if c = '\'' then "&#x27;".toList
  else [c]

def escape (text : List Char) : List Char := text.flatMap escapeChar

/-- A tag without its brackets, and the text up to the next tag. -/
structure Piece where
  tag : List Char
  text : List Char
  deriving DecidableEq

def Piece.render (p : Piece) : List Char := '<' :: p.tag ++ '>' :: escape p.text

def render (ps : List Piece) : List Char := ps.flatMap Piece.render

/-- The character that a reference stands for, and what is behind the reference; an ampersand that
starts none of these is text. -/
def reference : List Char → Char × List Char
  | 'a' :: 'm' :: 'p' :: ';' :: rest => ('&', rest)
  | 'l' :: 't' :: ';' :: rest => ('<', rest)
  | 'g' :: 't' :: ';' :: rest => ('>', rest)
  | 'q' :: 'u' :: 'o' :: 't' :: ';' :: rest => ('"', rest)
  | '#' :: 'x' :: '2' :: '7' :: ';' :: rest => ('\'', rest)
  | rest => ('&', rest)

theorem reference_length (text : List Char) : (reference text).2.length ≤ text.length := by
  unfold reference
  split <;> simp only [List.length_cons] <;> omega

/-- The text before the first tag, and the tags. A tag goes up to the first closing bracket. -/
def scan : List Char → List Char × List Piece
  | [] => ([], [])
  | '<' :: rest =>
    let tag := rest.takeWhile (· ≠ '>')
    let (text, ps) := scan (rest.dropWhile (· ≠ '>')).tail
    ([], ⟨tag, text⟩ :: ps)
  | '&' :: rest =>
    let (text, ps) := scan (reference rest).2
    ((reference rest).1 :: text, ps)
  | c :: rest =>
    let (text, ps) := scan rest
    (c :: text, ps)
termination_by text => text.length
decreasing_by
  · have hle := (List.dropWhile_suffix (· ≠ '>') (l := rest)).length_le
    simp only [List.length_tail, List.length_cons]
    omega
  · have hle := reference_length rest
    simp only [List.length_cons]
    omega
  · simp

variable {text rest tag : List Char} {c : Char} {ps : List Piece}

theorem scan_escapeChar (c : Char) (rest : List Char) :
    scan (escapeChar c ++ rest) = (c :: (scan rest).1, (scan rest).2) := by
  unfold escapeChar
  split
  · rename_i h
    subst h
    change scan ('&' :: 'a' :: 'm' :: 'p' :: ';' :: rest) = _
    rw [scan]
    rfl
  split
  · rename_i h
    subst h
    change scan ('&' :: 'l' :: 't' :: ';' :: rest) = _
    rw [scan]
    rfl
  split
  · rename_i h
    subst h
    change scan ('&' :: 'g' :: 't' :: ';' :: rest) = _
    rw [scan]
    rfl
  split
  · rename_i h
    subst h
    change scan ('&' :: 'q' :: 'u' :: 'o' :: 't' :: ';' :: rest) = _
    rw [scan]
    rfl
  split
  · rename_i h
    subst h
    change scan ('&' :: '#' :: 'x' :: '2' :: '7' :: ';' :: rest) = _
    rw [scan]
    rfl
  · rename_i hamp hlt _ _ _
    rw [List.singleton_append, scan]
    · exact fun h => hlt h
    · exact fun h => hamp h

theorem scan_escape (text rest : List Char) :
    scan (escape text ++ rest) = (text ++ (scan rest).1, (scan rest).2) := by
  induction text with
  | nil => rfl
  | cons c text ih =>
    have hcons : escape (c :: text) ++ rest = escapeChar c ++ (escape text ++ rest) := by
      simp [escape]
    rw [hcons, scan_escapeChar, ih]
    rfl

theorem scan_tag (h : '>' ∉ tag) (rest : List Char) :
    scan ('<' :: tag ++ '>' :: rest) = ([], ⟨tag, (scan rest).1⟩ :: (scan rest).2) := by
  have hall : ∀ c ∈ tag, decide (c ≠ '>') = true := by
    intro c hc
    simp only [decide_eq_true_eq]
    rintro rfl
    exact h hc
  have htake : (tag ++ '>' :: rest).takeWhile (· ≠ '>') = tag := by
    rw [List.takeWhile_append_of_pos hall]
    simp
  have hdrop : (tag ++ '>' :: rest).dropWhile (· ≠ '>') = '>' :: rest := by
    rw [List.dropWhile_append_of_pos hall]
    simp
  rw [List.cons_append, scan, htake, hdrop]
  rfl

theorem scan_render (h : ∀ p ∈ ps, '>' ∉ p.tag) : scan (render ps) = ([], ps) := by
  induction ps with
  | nil => exact scan.eq_1
  | cons p ps ih =>
    have hrest := ih fun q hq => h q (List.mem_cons_of_mem _ hq)
    have hcons : render (p :: ps) = '<' :: p.tag ++ '>' :: (escape p.text ++ render ps) := by
      simp [render, Piece.render]
    rw [hcons, scan_tag (h p List.mem_cons_self), scan_escape, hrest]
    simp

end Markup
