import LedgerGuard.Lib.Raising
import LedgerGuard.Reporting.Exports

/-! # What a reader finds in a document

A reader of the markup finds one section for each finding, with every value as
it was before it was escaped. The tags depend on the number of findings and on
nothing that is in them.
-/

namespace LedgerGuard.Reporting

open Markup

def piece (tag text : String) : Piece := ⟨tag.toList, text.toList⟩

/-- What a document says about one finding. -/
structure Section where
  rule : String
  label : String
  fields : List (String × String)
  step : String
  deriving DecidableEq

section

variable (titled : String → String)

def Section.ofRow (row : Row) : Except Rejection Section := do
  let (rule, label, step) ← rulePlaybook (← row.get "rule")
  .ok ⟨rule, label, ← displayFields titled row, step⟩

end

def fieldPieces (field : String × String) : List Piece :=
  [piece "dt" field.1, piece "/dt" "", piece "dd" field.2, piece "/dd" ""]

def Section.opening (s : Section) : List Piece :=
  [piece "section" "", piece "h2" (s.rule ++ ": " ++ s.label), piece "/h2" "", piece "dl" ""]

def Section.closing (s : Section) : List Piece :=
  [piece "/dl" "", piece "h3" "Diagnostic steps", piece "/h3" "", piece "p" s.step, piece "/p" "",
    piece "/section" ""]

def Section.pieces (s : Section) : List Piece :=
  s.opening ++ s.fields.flatMap fieldPieces ++ s.closing

def documentHead (title : String) : List Piece :=
  [piece "!doctype html" "", piece "html lang=\"en\"" "", piece "meta charset=\"utf-8\"" "",
    piece "meta name=\"viewport\" content=\"width=device-width\"" "",
    piece ("meta http-equiv=\"Content-Security-Policy\" content=\"" ++ csp ++ "\"") "",
    piece "title" title, piece "/title" "", piece "style" style,
    piece "/style" "", piece "body" "", piece "h1" title, piece "/h1" "", piece "p" readOnly,
    piece "/p" ""]

def document (title : String) (sections : List Section) : List Piece :=
  documentHead title ++
    (if sections = [] then [piece "p" noMismatch, piece "/p" ""]
      else sections.flatMap Section.pieces) ++
    [piece "/body" "", piece "/html" ""]

def sectionTags : List String :=
  ["section", "h2", "/h2", "dl"] ++ (List.replicate 9 ["dt", "/dt", "dd", "/dd"]).flatten ++
    ["/dl", "h3", "/h3", "p", "/p", "/section"]

/-- The tags of a document about some number of findings. -/
def documentTags (findings : ℕ) : List String :=
  ["!doctype html", "html lang=\"en\"", "meta charset=\"utf-8\"",
    "meta name=\"viewport\" content=\"width=device-width\"",
    "meta http-equiv=\"Content-Security-Policy\" content=\"" ++ csp ++ "\"", "title", "/title",
    "style", "/style", "body", "h1", "/h1", "p", "/p"] ++
    (if findings = 0 then ["p", "/p"]
      else (List.replicate findings sectionTags).flatten) ++
    ["/body", "/html"]

variable {titled : String → String} {row : Row} {rows : List Row} {title : String}

theorem render_cons (p : Piece) (ps : List Piece) :
    render (p :: ps) = '<' :: p.tag ++ '>' :: (Markup.escape p.text ++ render ps) := by
  simp [render, Piece.render]

theorem render_append (ps qs : List Piece) : render (ps ++ qs) = render ps ++ render qs := by
  simp [render]

theorem escape_append (s t : List Char) :
    Markup.escape (s ++ t) = Markup.escape s ++ Markup.escape t := by
  simp [Markup.escape]

theorem toList_escape (text : String) : (escape text).toList = Markup.escape text.toList := by
  simp [escape]

def fieldText (field : String × String) : String :=
  "<dt>" ++ escape field.1 ++ "</dt><dd>" ++ escape field.2 ++ "</dd>"

/-- The text of a section. -/
def Section.html (s : Section) : String :=
  "<section><h2>" ++ s.rule ++ ": " ++ escape s.label ++ "</h2><dl>" ++
    String.join (s.fields.map fieldText) ++
    "</dl><h3>Diagnostic steps</h3><p>" ++ escape s.step ++ "</p></section>"

theorem htmlSection_eq (row : Row) :
    htmlSection titled row = (Section.ofRow titled row).map Section.html := by
  unfold htmlSection Section.ofRow
  cases row.get "rule" with
  | error e => rfl
  | ok rule =>
    change (rulePlaybook rule).bind _ = ((rulePlaybook rule).bind _).map _
    cases rulePlaybook rule with
    | error e => rfl
    | ok entry =>
      change (displayFields titled row).bind _ = ((displayFields titled row).bind _).map _
      cases displayFields titled row with
      | error e => rfl
      | ok fields => rfl

theorem render_field (field : String × String) :
    render (fieldPieces field) = (fieldText field).toList := by
  simp only [fieldPieces, fieldText, piece, render_cons, String.toList_append, toList_escape]
  simp [render, Markup.escape]

theorem render_fields (fields : List (String × String)) :
    render (fields.flatMap fieldPieces) = (String.join (fields.map fieldText)).toList := by
  induction fields with
  | nil => rfl
  | cons field fields ih =>
    rw [List.flatMap_cons, render_append, render_field, ih, List.map_cons, String.toList_join,
      String.toList_join, List.flatMap_cons]

theorem ofRow_ok {s : Section} (h : Section.ofRow titled row = .ok s) :
    (∃ entry ∈ playbooks, s.rule = entry.1) ∧ s.fields.length = 9 := by
  obtain ⟨rule, -, h⟩ := Raising.bind_eq_ok.mp h
  obtain ⟨entry, hentry, h⟩ := Raising.bind_eq_ok.mp h
  obtain ⟨fields, hfields, h⟩ := Raising.bind_eq_ok.mp h
  obtain rfl := Except.ok.inj h
  constructor
  · unfold rulePlaybook at hentry
    cases hf : playbooks.find? fun entry => rule = .text entry.1 with
    | none =>
      rw [hf] at hentry
      cases hentry
    | some found =>
      rw [hf] at hentry
      obtain rfl := Except.ok.inj hentry
      exact ⟨found, List.mem_of_find?_eq_some hf, rfl⟩
  · obtain ⟨risk, -, hfields⟩ := Raising.bind_eq_ok.mp hfields
    obtain rfl := Except.ok.inj hfields
    rfl

theorem escape_rule {s : Section} (h : Section.ofRow titled row = .ok s) :
    Markup.escape s.rule.toList = s.rule.toList := by
  have hkeys : ∀ key ∈ playbooks.map Prod.fst, Markup.escape key.toList = key.toList := by
    decide +kernel
  obtain ⟨⟨entry, hm, hrule⟩, -⟩ := ofRow_ok h
  rw [hrule]
  exact hkeys _ (List.mem_map_of_mem hm)

theorem Section.render_opening {s : Section} (h : Markup.escape s.rule.toList = s.rule.toList) :
    render s.opening =
      ("<section><h2>" ++ s.rule ++ ": " ++ escape s.label ++ "</h2><dl>").toList := by
  have hcolon : Markup.escape ": ".toList = ": ".toList := by decide +kernel
  simp only [Section.opening, piece, render_cons, String.toList_append, toList_escape,
    escape_append, h, hcolon]
  rfl

theorem Section.render_closing (s : Section) :
    render s.closing =
      ("</dl><h3>Diagnostic steps</h3><p>" ++ escape s.step ++ "</p></section>").toList := by
  have hsteps : Markup.escape "Diagnostic steps".toList = "Diagnostic steps".toList := by
    decide +kernel
  simp only [Section.closing, piece, render_cons, String.toList_append, toList_escape, hsteps]
  rfl

theorem Section.toList_html {s : Section} (h : Markup.escape s.rule.toList = s.rule.toList) :
    s.html.toList = render s.pieces := by
  rw [Section.pieces, render_append, render_append, s.render_opening h, render_fields,
    s.render_closing]
  unfold Section.html
  simp only [String.toList_append, List.append_assoc]

theorem render_flatMap {sections : List Section}
    (h : ∀ s ∈ sections, Markup.escape s.rule.toList = s.rule.toList) :
    render (sections.flatMap Section.pieces) = (String.join (sections.map Section.html)).toList := by
  induction sections with
  | nil => rfl
  | cons s sections ih =>
    have hs := s.toList_html (h s List.mem_cons_self)
    rw [List.flatMap_cons, render_append, ← hs, ih fun t ht => h t (List.mem_cons_of_mem _ ht),
      List.map_cons, String.toList_join, String.toList_join, List.flatMap_cons]

def headText (title : String) : String :=
  "<!doctype html><html lang=\"en\"><meta charset=\"utf-8\">" ++
    "<meta name=\"viewport\" content=\"width=device-width\">" ++
    "<meta http-equiv=\"Content-Security-Policy\" content=\"" ++ csp ++ "\"><title>" ++
    escape title ++ "</title><style>" ++ style ++ "</style><body><h1>" ++ escape title ++
    "</h1><p>" ++ readOnly ++ "</p>"

def documentText (title : String) (sections : List Section) : String :=
  let content := if String.join (sections.map Section.html) = "" then
      "<p>" ++ noMismatch ++ "</p>"
    else String.join (sections.map Section.html)
  headText title ++ content ++ "</body></html>"

theorem htmlReport_eq (rows : List Row) (title : String) :
    htmlReport titled rows title =
      (rows.mapM (Section.ofRow titled)).map (documentText title) := by
  have hsections : rows.mapM (htmlSection titled) =
      (rows.mapM (Section.ofRow titled)).map (List.map Section.html) := by
    rw [← Raising.mapM_map]
    exact congrArg (rows.mapM ·) (funext htmlSection_eq)
  unfold htmlReport
  rw [hsections]
  cases rows.mapM (Section.ofRow titled) with
  | error e => rfl
  | ok sections => rfl

theorem join_html_eq_empty {sections : List Section} :
    String.join (sections.map Section.html) = "" ↔ sections = [] := by
  constructor
  · intro h
    cases sections with
    | nil => rfl
    | cons s sections =>
      have hlist := congrArg String.toList h
      rw [String.toList_join, List.map_cons, List.flatMap_cons] at hlist
      have hhtml := (List.append_eq_nil_iff.mp hlist).1
      unfold Section.html at hhtml
      simp only [String.toList_append, List.append_eq_nil_iff] at hhtml
      exact absurd hhtml.2 (by decide)
  · rintro rfl
    rfl

theorem escape_style : Markup.escape style.toList = style.toList := by
  have hbody : Markup.escape bodyStyle.toList = bodyStyle.toList := by
    simp [bodyStyle, Markup.escape, Markup.escapeChar]
  have hsection : Markup.escape sectionStyle.toList = sectionStyle.toList := by
    simp [sectionStyle, Markup.escape, Markup.escapeChar]
  have htext : Markup.escape textStyle.toList = textStyle.toList := by
    simp [textStyle, Markup.escape, Markup.escapeChar]
  have hprint : Markup.escape printStyle.toList = printStyle.toList := by
    simp [printStyle, Markup.escape, Markup.escapeChar]
  simp only [style, String.toList_append, escape_append, hbody, hsection, htext, hprint]

set_option maxRecDepth 2000 in
theorem render_head (title : String) :
    render (documentHead title) = (headText title).toList := by
  have hread : Markup.escape readOnly.toList = readOnly.toList := by
    simp [readOnly, Markup.escape, Markup.escapeChar]
  unfold documentHead headText
  simp only [piece, render_cons, String.toList_append, toList_escape, escape_style, hread,
    List.append_assoc, List.cons_append]
  -- the texts of the source are constants that would be unfolded for nothing
  generalize csp.toList = policy, style.toList = sheet, readOnly.toList = notice
  rfl

theorem toList_documentText {sections : List Section}
    (h : ∀ s ∈ sections, Markup.escape s.rule.toList = s.rule.toList) (title : String) :
    (documentText title sections).toList = render (document title sections) := by
  have hnone : Markup.escape noMismatch.toList = noMismatch.toList := by
    simp [noMismatch, Markup.escape, Markup.escapeChar]
  have hempty : render [piece "p" noMismatch, piece "/p" ""] =
      ("<p>" ++ noMismatch ++ "</p>").toList := by
    simp only [piece, render_cons, String.toList_append, hnone]
    rfl
  have hend : render [piece "/body" "", piece "/html" ""] = "</body></html>".toList := rfl
  unfold documentText document
  rw [render_append, render_append, render_head, hend]
  by_cases hs : sections = []
  · rw [if_pos hs, if_pos (join_html_eq_empty.mpr hs), hempty]
    simp only [String.toList_append, List.append_assoc]
  · rw [if_neg hs, if_neg fun hj => hs (join_html_eq_empty.mp hj), render_flatMap h]
    simp only [String.toList_append, List.append_assoc]

theorem tag_piece (tag text : String) : String.ofList (piece tag text).tag = tag :=
  String.ofList_toList

theorem Section.tags_pieces {s : Section} (h : s.fields.length = 9) :
    s.pieces.map (String.ofList ·.tag) = sectionTags := by
  have hfields : (s.fields.flatMap fieldPieces).map (String.ofList ·.tag) =
      (List.replicate 9 ["dt", "/dt", "dd", "/dd"]).flatten := by
    rw [List.map_flatMap, List.flatMap_def, ← h]
    refine congrArg List.flatten (List.eq_replicate_iff.mpr ⟨List.length_map _, fun tags ht => ?_⟩)
    obtain ⟨field, -, rfl⟩ := List.mem_map.mp ht
    simp only [fieldPieces, List.map_cons, List.map_nil, tag_piece]
  simp only [Section.pieces, Section.opening, Section.closing, sectionTags, List.map_append, hfields,
    List.map_cons, List.map_nil, tag_piece]

theorem documentTags_eq {sections : List Section} (h : ∀ s ∈ sections, s.fields.length = 9)
    (title : String) :
    (document title sections).map (String.ofList ·.tag) = documentTags sections.length := by
  have hsections : (sections.flatMap Section.pieces).map (String.ofList ·.tag) =
      (List.replicate sections.length sectionTags).flatten := by
    rw [List.map_flatMap, List.flatMap_def]
    refine congrArg List.flatten (List.eq_replicate_iff.mpr ⟨List.length_map _, fun tags ht => ?_⟩)
    obtain ⟨s, hs, rfl⟩ := List.mem_map.mp ht
    exact s.tags_pieces (h s hs)
  unfold document documentTags documentHead
  by_cases hs : sections = []
  · subst hs
    simp only [if_true, List.length_nil, List.map_append, List.map_cons, List.map_nil, tag_piece]
  · rw [if_neg hs, if_neg (by simpa using hs)]
    simp only [List.map_append, hsections, List.map_cons, List.map_nil, tag_piece]

theorem tag_closes (findings : ℕ) : ∀ tag ∈ documentTags findings, '>' ∉ tag.toList := by
  have hsection : ∀ tag ∈ sectionTags, '>' ∉ tag.toList := by decide +kernel
  have hnone : ∀ tag ∈ documentTags 0, '>' ∉ tag.toList := by decide +kernel
  intro tag ht
  by_cases hf : findings = 0
  · subst hf
    exact hnone tag ht
  · unfold documentTags at ht hnone
    rw [if_neg hf] at ht
    rcases List.mem_append.mp ht with ht | ht
    · rcases List.mem_append.mp ht with ht | ht
      · exact hnone tag (List.mem_append_left _ (List.mem_append_left _ ht))
      · obtain ⟨tags, hm, ht⟩ := List.mem_flatten.mp ht
        obtain rfl := (List.mem_replicate.mp hm).2
        exact hsection tag ht
    · exact hnone tag (List.mem_append_right _ ht)

/-- A reader of the document finds a section for each finding with its values as they are, and tags
that depend on the number of findings only. -/
theorem scan_htmlReport {html : String} (h : htmlReport titled rows title = .ok html) :
    ∃ sections, rows.mapM (Section.ofRow titled) = .ok sections ∧
      scan html.toList = ([], document title sections) ∧
        (document title sections).map (String.ofList ·.tag) = documentTags rows.length := by
  rw [htmlReport_eq] at h
  cases hs : rows.mapM (Section.ofRow titled) with
  | error e =>
    rw [hs] at h
    cases h
  | ok sections =>
    rw [hs] at h
    obtain rfl := Except.ok.inj h
    have hof : ∀ s ∈ sections, ∃ row, Section.ofRow titled row = .ok s := by
      intro s hm
      obtain ⟨row, -, hrow⟩ := Raising.exists_of_mem_mapM hs hm
      exact ⟨row, hrow⟩
    have hrules : ∀ s ∈ sections, Markup.escape s.rule.toList = s.rule.toList := by
      intro s hm
      obtain ⟨row, hrow⟩ := hof s hm
      exact escape_rule hrow
    have htags : (document title sections).map (String.ofList ·.tag) = documentTags rows.length := by
      have hlen := (Raising.mapM_ok.mp hs).length_eq
      rw [hlen]
      refine documentTags_eq (fun s hm => ?_) title
      obtain ⟨row, hrow⟩ := hof s hm
      exact (ofRow_ok hrow).2
    refine ⟨sections, rfl, ?_, htags⟩
    rw [toList_documentText hrules]
    refine scan_render fun p hp => ?_
    have hm : String.ofList p.tag ∈ documentTags rows.length := by
      rw [← htags]
      exact List.mem_map_of_mem hp
    have hclose := tag_closes _ _ hm
    rwa [String.toList_ofList] at hclose

theorem scan_htmlReport_hostile : ∃ html,
    htmlReport id [hostileRow] "Payment integrity report" = .ok html ∧
      ∃ sections, [hostileRow].mapM (Section.ofRow id) = .ok sections ∧
        scan html.toList = ([], document "Payment integrity report" sections) ∧
          (document "Payment integrity report" sections).map (String.ofList ·.tag) =
            documentTags 1 := by
  have hok : (htmlReport id [hostileRow] "Payment integrity report").isOk = true := by
    decide +kernel
  obtain ⟨html, h⟩ := Raising.exists_of_isOk hok
  exact ⟨html, h, scan_htmlReport h⟩

end LedgerGuard.Reporting
