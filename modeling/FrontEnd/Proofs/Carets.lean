import FrontEnd.Diagnostic
import FrontEnd.Proofs.Lines

namespace FrontEnd.Diagnostic

variable {d : Diagnostic} {s : Span}

/-- None of the texts that are written has a line feed. -/
structure Flat (d : Diagnostic) : Prop where
  message : '\n' ∉ d.message.toList
  severity : '\n' ∉ d.severity.toList
  phase : '\n' ∉ d.phase.toList
  code : ∀ code ∈ d.code, '\n' ∉ code.toList
  help : ∀ help ∈ d.help, '\n' ∉ help.toList
  suggestions : ∀ suggestion ∈ d.suggestions.getD [], '\n' ∉ suggestion.toList
  filename : '\n' ∉ d.span.filename.toList
  lineContent : '\n' ∉ d.span.lineContent.toList

/-- What a line of the report says, in whatever styles. -/
def lineText (line : List Piece) : List Char :=
  line.flatMap fun p => p.text.toList

theorem toList_renderLine (line : List Piece) :
    (renderLine false line).toList = lineText line ++ ['\n'] := by
  have hplain : ∀ p : Piece, p.render false = p.text := fun _ => rfl
  simp [renderLine, lineText, String.toList_join, List.flatMap_map, hplain]

/-- Without styles the report is its lines, each with a line feed behind it. -/
theorem toList_render (d : Diagnostic) :
    (d.render false).toList = (d.layout.map lineText).flatMap (· ++ ['\n']) := by
  simp only [render, String.toList_join, List.flatMap_map, toList_renderLine]

theorem toList_padding (s : Span) : (padding s).toList =
    (s.lineContent.toList.take s.startColumn).map (fun c => if c = '\t' then '\t' else ' ') ++
      List.replicate (s.startColumn - s.lineContent.toList.length) ' ' := by
  have hfill : s.startColumn - min s.startColumn s.lineContent.toList.length =
      s.startColumn - s.lineContent.toList.length := by omega
  rw [padding, String.toList_ofList, List.length_map, List.length_take, hfill]

theorem mem_padding {c : Char} (h : c ∈ (padding s).toList) : c = '\t' ∨ c = ' ' := by
  rw [toList_padding, List.mem_append, List.mem_map, List.mem_replicate] at h
  obtain ⟨x, _, rfl⟩ | ⟨_, rfl⟩ := h
  · split
    · exact .inl rfl
    · exact .inr rfl
  · exact .inr rfl

theorem length_padding (s : Span) : (padding s).toList.length = s.startColumn := by
  rw [toList_padding, List.length_append, List.length_map, List.length_take, List.length_replicate]
  omega

/-- A column is a tab under a tab, and a blank under anything else and behind the line. -/
theorem getElem?_padding {j : Nat} (h : j < s.startColumn) : (padding s).toList[j]? =
    some (if s.lineContent.toList[j]? = some '\t' then '\t' else ' ') := by
  rw [toList_padding, List.getElem?_append, List.length_map, List.length_take]
  split
  · rename_i hj
    have hin : j < s.lineContent.toList.length := by omega
    rw [List.getElem?_map, List.getElem?_take_of_lt h, List.getElem?_eq_getElem hin]
    simp
  · rename_i hj
    have hout : s.lineContent.toList.length ≤ j := by omega
    rw [List.getElem?_replicate, if_pos (by omega), List.getElem?_eq_none hout]
    rfl

theorem toList_carets (s : Span) : (carets s).toList = List.replicate (max 1 s.width) '^' :=
  String.toList_ofList

/-- What stands before the line at fault. -/
def numbered (d : Diagnostic) : List Char :=
  ' ' :: (toString d.span.line).toList ++ " |    ".toList

/-- What stands before the line of the carets: the same without the number. -/
def unnumbered (d : Diagnostic) : List Char :=
  List.replicate ((toString d.span.line).length + 2) ' ' ++ "|    ".toList

theorem length_unnumbered (d : Diagnostic) : d.unnumbered.length = d.numbered.length := by
  have hnumber : " |    ".toList.length = 6 := rfl
  have hbar : "|    ".toList.length = 5 := rfl
  rw [unnumbered, numbered, List.length_append, List.length_append, List.length_replicate,
    List.length_cons, ← String.length_toList]
  omega

/-- The line below the line at fault, from the gutter on. -/
def marked (d : Diagnostic) : List Char :=
  (padding d.span).toList ++ ((carets d.span).toList ++ ' ' :: d.message.toList)

theorem drop_marked (d : Diagnostic) : d.marked.drop d.span.startColumn =
    List.replicate (max 1 d.span.width) '^' ++ ' ' :: d.message.toList := by
  rw [marked, List.drop_left' (length_padding d.span), toList_carets]

/-- No caret stands before the first column of the span. -/
theorem idxOf_caret (d : Diagnostic) :
    (d.unnumbered ++ d.marked).idxOf '^' = d.numbered.length + d.span.startColumn := by
  have hfront : '^' ∉ d.unnumbered := by simp [unnumbered]
  have hpadding : '^' ∉ (padding d.span).toList := fun h =>
    absurd (mem_padding h) (by simp)
  obtain ⟨n, hn⟩ : ∃ n, max 1 d.span.width = n + 1 := ⟨max 1 d.span.width - 1, by omega⟩
  rw [marked, List.idxOf_append, if_neg hfront, List.idxOf_append, if_neg hpadding, toList_carets,
    hn, List.replicate_succ, List.cons_append, List.idxOf_cons_self, length_unnumbered,
    length_padding, Nat.zero_add, Nat.add_comm]

/-- The lines in the middle of the report, without their styles. -/
theorem excerpt_text (d : Diagnostic) : d.excerpt.map lineText =
    ["---> ".toList ++ d.span.describe.toList,
      List.replicate ((toString d.span.line).length + 2) ' ' ++ "|".toList,
      d.numbered ++ d.span.lineContent.toList, d.unnumbered ++ d.marked,
      List.replicate ((toString d.span.line).length + 2) ' ' ++ "|".toList] := by
  simp [excerpt, lineText, numbered, unnumbered, marked, spaces]

/-- All texts that a report is made of. -/
def texts (d : Diagnostic) : List String :=
  [d.message, d.severity, d.phase, d.span.filename, d.span.lineContent] ++ d.code.toList ++
    d.help.toList ++ d.suggestions.getD []

/-- The characters that a report has besides its texts and its numbers. -/
def marks : List Char :=
  ['-', '>', ' ', ':', '[', ']', '|', '^', '\t', 'h', 'e', 'l', 'p']

section Foreign

variable {c : Char} (hm : c ∉ marks) (h : ∀ text ∈ d.texts, c ∉ text.toList)
include hm h

theorem not_mem_header : ∀ p ∈ d.header, c ∉ p.text.toList := by
  have hmessage := h d.message (by simp [texts])
  have hseverity := h d.severity (by simp [texts])
  have hphase := h d.phase (by simp [texts])
  have hcode : ∀ code ∈ d.code, c ∉ code.toList := fun code hcode =>
    h code (by simp [texts, Option.mem_def.1 hcode])
  simp only [marks, List.mem_cons, List.not_mem_nil, or_false, not_or] at hm
  unfold header
  split
  · simp [label, hm, hmessage, hseverity, hphase]
  · simp [label, hm, hmessage, hseverity, hphase]
  · rename_i code _ hsome
    simp [label, hm, hmessage, hseverity, hphase, hcode code hsome]

theorem not_mem_describe (hd : c.isDigit = false) : c ∉ d.span.describe.toList := by
  have hfilename := h d.span.filename (by simp [texts])
  have hnumber : ∀ n : Nat, c ∉ (toString n).toList := fun n hn => by
    rw [Text.isDigit_of_mem_toString hn] at hd
    cases hd
  have hcolon : c ∉ ":".toList := fun hc => hm (by rw [List.mem_singleton.1 hc]; decide)
  simp only [Span.describe, String.toList_append, List.mem_append, not_or]
  exact ⟨⟨⟨⟨hfilename, hcolon⟩, hnumber _⟩, hcolon⟩, hnumber _⟩

theorem not_mem_excerpt (hd : c.isDigit = false) :
    ∀ line ∈ d.excerpt, ∀ p ∈ line, c ∉ p.text.toList := by
  have hmessage := h d.message (by simp [texts])
  have hline := h d.span.lineContent (by simp [texts])
  have hdescribe := not_mem_describe hm h hd
  have hnumber : c ∉ Nat.toDigits 10 d.span.line := fun hn => by
    rw [Nat.isDigit_of_mem_toDigits (by decide) (by decide) hn] at hd
    cases hd
  have hpadding : c ∉ (padding d.span).toList := fun hc => by
    rcases mem_padding hc with rfl | rfl <;> exact hm (by decide)
  simp only [marks, List.mem_cons, List.not_mem_nil, or_false, not_or] at hm
  simp [excerpt, spaces, toList_carets, hm, hmessage, hline, hnumber, hpadding, hdescribe]

theorem not_mem_advice : ∀ line ∈ d.advice, ∀ p ∈ line, c ∉ p.text.toList := by
  have hhelp : ∀ help ∈ d.help, c ∉ help.toList := fun help hhelp =>
    h help (by simp [texts, Option.mem_def.1 hhelp])
  have hsuggestions : ∀ suggestion ∈ d.suggestions.getD [], c ∉ suggestion.toList :=
    fun suggestion hmem => h suggestion (by simp [texts, hmem])
  simp only [marks, List.mem_cons, List.not_mem_nil, or_false, not_or] at hm
  unfold advice
  split
  · simpa [hm] using hsuggestions
  · simpa [hm] using hsuggestions
  · rename_i help _ hsome
    simpa [hm, hhelp help hsome] using hsuggestions

/-- A character that is in none of the texts is nowhere in the report, unless it is one of the
report's own. -/
theorem not_mem_layout (hd : c.isDigit = false) :
    ∀ line ∈ d.layout, ∀ p ∈ line, c ∉ p.text.toList := by
  rw [layout, List.forall_mem_cons, List.forall_mem_append]
  exact ⟨not_mem_header hm h, not_mem_excerpt hm h hd, not_mem_advice hm h⟩

end Foreign

theorem Flat.texts (h : d.Flat) : ∀ text ∈ d.texts, '\n' ∉ text.toList := by
  intro text ht
  simp only [Diagnostic.texts, List.mem_append, List.mem_cons, List.not_mem_nil, or_false,
    Option.mem_toList, or_assoc] at ht
  rcases ht with rfl | rfl | rfl | rfl | rfl | hc | hp | hs
  · exact h.message
  · exact h.severity
  · exact h.phase
  · exact h.filename
  · exact h.lineContent
  · exact h.code text hc
  · exact h.help text hp
  · exact h.suggestions text hs

theorem newline_not_mem_lineText {line : List Piece} (h : ∀ p ∈ line, '\n' ∉ p.text.toList) :
    '\n' ∉ lineText line := by
  simpa [lineText] using h

theorem Flat.describe (h : d.Flat) : '\n' ∉ d.span.describe.toList :=
  not_mem_describe (by decide) h.texts rfl

theorem Flat.advice (h : d.Flat) : ∀ row ∈ d.advice.map lineText, '\n' ∉ row :=
  List.forall_mem_map.2 fun line hline =>
    newline_not_mem_lineText (not_mem_advice (by decide) h.texts line hline)

theorem Flat.layout (h : d.Flat) : ∀ row ∈ d.layout.map lineText, '\n' ∉ row :=
  List.forall_mem_map.2 fun line hline =>
    newline_not_mem_lineText (not_mem_layout (by decide) h.texts rfl line hline)

theorem Flat.splitLines_render (h : d.Flat) :
    Text.splitLines (d.render false).toList = d.layout.map lineText ++ [[]] := by
  rw [toList_render, Text.splitLines_rows h.layout]

/-- Where the carets are. Told by its lines, the report has the line at fault fourth and the carets
fifth, behind gutters of the same width. The first caret stands as far behind the gutter as the span
begins on the line at fault, and there are as many as the span is wide, but one at least, with a
blank and the message behind them. Between the gutter and the carets a column is a tab where the
line at fault has one, and a blank everywhere else, also behind the end of the line. -/
theorem carets_placed (h : d.Flat) :
    (Text.splitLines (d.render false).toList)[3]? =
      some (d.numbered ++ d.span.lineContent.toList) ∧
    ∃ row, (Text.splitLines (d.render false).toList)[4]? = some row ∧
      row.take d.numbered.length = d.unnumbered ∧ d.unnumbered.length = d.numbered.length ∧
      row.idxOf '^' = d.numbered.length + d.span.startColumn ∧
      row.drop (d.numbered.length + d.span.startColumn) =
        List.replicate (max 1 (d.span.endColumn - d.span.startColumn)) '^' ++
          ' ' :: d.message.toList ∧
      ∀ j < d.span.startColumn, row[d.numbered.length + j]? =
        some (if d.span.lineContent.toList[j]? = some '\t' then '\t' else ' ') := by
  have hlines : Text.splitLines (d.render false).toList =
      lineText d.header :: (d.excerpt.map lineText ++ (d.advice.map lineText ++ [[]])) := by
    rw [h.splitLines_render, layout, List.map_cons, List.map_append, List.cons_append,
      List.append_assoc]
  rw [hlines, excerpt_text]
  refine ⟨rfl, d.unnumbered ++ d.marked, rfl, ?_, length_unnumbered d, idxOf_caret d, ?_, ?_⟩
  · rw [← length_unnumbered, List.take_left]
  · rw [← length_unnumbered, ← List.drop_drop, List.drop_left, drop_marked]
    rfl
  · intro j hj
    have hin : j < (padding d.span).toList.length := by rwa [length_padding]
    rw [← length_unnumbered, List.getElem?_append_right (Nat.le_add_right _ _),
      Nat.add_sub_cancel_left, marked, List.getElem?_append_left hin, getElem?_padding hj]

/-- An empty span behind the end of a line of three characters, the first of them a tab. -/
def behindTheLine : Diagnostic :=
  ⟨"nothing here", ⟨12, 5, 5, "m.fp", "\tab", by decide, by decide⟩, "error", "parser",
    some "P001", none, none⟩

theorem flat_behindTheLine : behindTheLine.Flat := by
  constructor <;> simp [behindTheLine]

/-- The single caret is on column five, under no character, and the tab is still above a tab. -/
theorem carets_placed_behindTheLine :
    ∃ row, (Text.splitLines (behindTheLine.render false).toList)[4]? = some row ∧
      row.take 9 = "    |    ".toList ∧ row.idxOf '^' = 14 ∧
      row.drop 14 = "^ nothing here".toList ∧
      row[9]? = some '\t' ∧ row[10]? = some ' ' ∧ row[13]? = some ' ' := by
  obtain ⟨_, row, hrow, htake, _, hcaret, hdrop, hcolumn⟩ := carets_placed flat_behindTheLine
  exact ⟨row, hrow, htake, hcaret, hdrop, hcolumn 0 (by decide), hcolumn 1 (by decide),
    hcolumn 4 (by decide)⟩

end FrontEnd.Diagnostic
