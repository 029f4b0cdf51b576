import FrontEnd.Proofs.Carets
import FrontEnd.Proofs.Placement

namespace FrontEnd

namespace Text

variable {front before shown after behind : List Char}

/-- What stands in a line above the first row of carets of the line below it. -/
def overCarets (above below : List Char) : List Char :=
  (((above.zip below).dropWhile fun p => p.2 != '^').takeWhile fun p => p.2 == '^').map Prod.fst

theorem overCarets_eq (hlen : front.length = before.length) (hn : '^' ∉ before) (hne : shown ≠ [])
    (hstop : ∀ c ∈ behind.head?, c ≠ '^') :
    overCarets (front ++ (shown ++ after))
      (before ++ (List.replicate shown.length '^' ++ behind)) = shown := by
  have hbefore : ∀ p ∈ front.zip before, (p.2 != '^') = true := by
    intro p hp
    simp only [bne_iff_ne]
    exact fun hc => hn (hc ▸ (List.of_mem_zip hp).2)
  have hcarets : ∀ p ∈ shown.zip (List.replicate shown.length '^'), (p.2 == '^') = true := by
    intro p hp
    simpa using List.eq_of_mem_replicate (List.of_mem_zip hp).2
  have hfirst : ∀ p ∈ (shown.zip (List.replicate shown.length '^') ++ after.zip behind).head?,
      (p.2 != '^') = false := by
    obtain ⟨x, more, rfl⟩ := List.exists_cons_of_ne_nil hne
    simp [List.replicate_succ]
  have hbehind : ∀ p ∈ (after.zip behind).head?, (p.2 == '^') = false := by
    cases after with
    | nil => simp
    | cons y after =>
      cases behind with
      | nil => simp
      | cons c behind => simpa using hstop c (by simp)
  rw [overCarets, List.zip_append hlen, List.zip_append (by simp),
    dropWhile_append_stops hbefore hfirst, takeWhile_append_stops hcarets hbehind,
    List.map_fst_zip (by simp)]

end Text

open Text

namespace Diagnostic

variable {d : Diagnostic} {shown : List Char}

/-- The gutter of a line with nothing on it. -/
def gutter (d : Diagnostic) : List Char :=
  List.replicate ((toString d.span.line).length + 2) ' ' ++ "|".toList

/-- The report has its six lines, and behind them its advice, one line for the help and one for each
suggestion. The first line and the one with the carets end with the message, so they run on if it
does: each of them over `extra` lines more. -/
structure Framed (d : Diagnostic) (extra : Nat) : Prop where
  rows : splitLines (d.render false).toList =
    splitLines (lineText d.header) ++
      ("---> ".toList ++ d.span.describe.toList) :: d.gutter ::
      (d.numbered ++ d.span.lineContent.toList) ::
      (splitLines (d.unnumbered ++ d.marked) ++ d.gutter :: (d.advice.map lineText ++ [[]]))
  header : (splitLines (lineText d.header)).length = 1 + extra
  marked : (splitLines (d.unnumbered ++ d.marked)).length = 1 + extra
  count : (d.render false).toList.count '\n' =
    6 + 2 * extra + (if d.help.getD "" = "" then 0 else 1) + (d.suggestions.getD []).length

/-- The text `shown` stands on the line at fault above the carets of the line below, where the
first line of the report runs over `extra` lines more. -/
def Underlines (d : Diagnostic) (extra : Nat) (shown : List Char) : Prop :=
  ∃ above below, (splitLines (d.render false).toList)[3 + extra]? = some above ∧
    (splitLines (d.render false).toList)[4 + extra]? = some below ∧
    overCarets above below = shown

/-- No text but the message has a line feed. -/
def FlatBesides (d : Diagnostic) : Prop :=
  ({ d with message := "" } : Diagnostic).Flat

theorem newline_not_mem_unnumbered (d : Diagnostic) : '\n' ∉ d.unnumbered := by
  simp [unnumbered]

theorem newline_not_mem_numbered (d : Diagnostic) : '\n' ∉ d.numbered := by
  have hnumber := newline_not_mem_toString d.span.line
  simp only [numbered, List.cons_append, List.mem_cons, List.mem_append, not_or]
  exact ⟨by decide, hnumber, by decide⟩

theorem newline_not_mem_padding (s : Span) : '\n' ∉ (padding s).toList :=
  fun h => absurd (mem_padding h) (by simp)

theorem FlatBesides.count_header (h : d.FlatBesides) :
    (lineText d.header).count '\n' = d.message.toList.count '\n' := by
  have hp : d.phase.toList.count '\n' = 0 := List.count_eq_zero.2 h.phase
  have hs : d.severity.toList.count '\n' = 0 := List.count_eq_zero.2 h.severity
  unfold Diagnostic.header
  split
  · simp [lineText, label, hp, hs]
  · simp [lineText, label, hp, hs]
  · rename_i code _ hcode
    have hc : code.toList.count '\n' = 0 := List.count_eq_zero.2 (h.code code hcode)
    simp [lineText, label, hp, hs, hc]

theorem count_marked (d : Diagnostic) :
    (d.unnumbered ++ d.marked).count '\n' = d.message.toList.count '\n' := by
  have hfront := List.count_eq_zero.2 (newline_not_mem_unnumbered d)
  have hpadding := List.count_eq_zero.2 (newline_not_mem_padding d.span)
  have hcarets : (carets d.span).toList.count '\n' = 0 := by
    rw [toList_carets]
    exact List.count_eq_zero.2 (by simp)
  simp [marked, hfront, hpadding, hcarets]

theorem length_advice (d : Diagnostic) : d.advice.length =
    (if d.help.getD "" = "" then 0 else 1) + (d.suggestions.getD []).length := by
  unfold advice
  split
  · simp_all
  · simp_all
  · simp_all [Nat.add_comm]

theorem FlatBesides.rows (h : d.FlatBesides) : splitLines (d.render false).toList =
    splitLines (lineText d.header) ++
      ("---> ".toList ++ d.span.describe.toList) :: d.gutter ::
      (d.numbered ++ d.span.lineContent.toList) ::
      (splitLines (d.unnumbered ++ d.marked) ++ d.gutter :: (d.advice.map lineText ++ [[]])) := by
  have hgutter : splitLines d.gutter = [d.gutter] := splitLines_of_not_mem (by simp [gutter])
  have hplace : splitLines ("---> ".toList ++ d.span.describe.toList) =
      ["---> ".toList ++ d.span.describe.toList] :=
    splitLines_of_not_mem (by simpa using Flat.describe h)
  have hsource : splitLines (d.numbered ++ d.span.lineContent.toList) =
      [d.numbered ++ d.span.lineContent.toList] :=
    splitLines_of_not_mem (by simpa [newline_not_mem_numbered] using h.lineContent)
  have hadvice : (d.advice.map lineText).flatMap splitLines = d.advice.map lineText :=
    flatMap_splitLines (Flat.advice (d := { d with message := "" }) h)
  have hexcerpt : d.excerpt.map lineText = ["---> ".toList ++ d.span.describe.toList, d.gutter,
      d.numbered ++ d.span.lineContent.toList, d.unnumbered ++ d.marked, d.gutter] :=
    excerpt_text d
  rw [toList_render, splitLines_flatMap, layout, List.map_cons, List.map_append, hexcerpt,
    List.flatMap_cons, List.flatMap_append, hadvice]
  simp only [List.flatMap_cons, List.flatMap_nil, hgutter, hplace, hsource, List.append_assoc,
    List.cons_append, List.nil_append]

theorem FlatBesides.framed (h : d.FlatBesides) : d.Framed (d.message.toList.count '\n') := by
  have hheader : (splitLines (lineText d.header)).length = 1 + d.message.toList.count '\n' := by
    rw [length_splitLines, h.count_header, Nat.add_comm]
  have hmarked : (splitLines (d.unnumbered ++ d.marked)).length =
      1 + d.message.toList.count '\n' := by
    rw [length_splitLines, count_marked, Nat.add_comm]
  refine ⟨h.rows, hheader, hmarked, ?_⟩
  have hlen := congrArg List.length h.rows
  rw [length_splitLines] at hlen
  simp only [List.length_append, List.length_cons, List.length_map, List.length_nil, length_advice,
    hheader, hmarked] at hlen
  omega

theorem Flat.framed (h : d.Flat) : d.Framed 0 := by
  have hbesides : d.FlatBesides := { h with message := by simp }
  have hframed := hbesides.framed
  rwa [List.count_eq_zero.2 h.message] at hframed

/-- The line with the carets, as far as it goes before the message runs on. -/
theorem head?_marked (d : Diagnostic) : (splitLines (d.unnumbered ++ d.marked)).head? =
    some (d.unnumbered ++ (padding d.span).toList ++ (List.replicate (max 1 d.span.width) '^' ++
      ' ' :: d.message.toList.takeWhile (· ≠ '\n'))) := by
  have hfront : ∀ c ∈ d.unnumbered ++ ((padding d.span).toList ++
      (List.replicate (max 1 d.span.width) '^' ++ [' '])), decide (c ≠ '\n') = true := by
    intro c hc
    simp only [decide_eq_true_eq]
    rintro rfl
    simp [newline_not_mem_unnumbered, newline_not_mem_padding] at hc
  have hmarked : d.unnumbered ++ d.marked = (d.unnumbered ++ ((padding d.span).toList ++
      (List.replicate (max 1 d.span.width) '^' ++ [' ']))) ++ d.message.toList := by
    simp [marked, toList_carets]
  rw [head?_splitLines, hmarked, List.takeWhile_append_of_pos hfront]
  simp

/-- The carets stand where the span is, whether or not the message behind them runs on. -/
theorem Framed.underlines {extra : Nat} (h : d.Framed extra)
    (hshown : (d.span.lineContent.toList.take d.span.endColumn).drop d.span.startColumn = shown)
    (hlen : shown.length = d.span.width) (hne : shown ≠ []) : d.Underlines extra shown := by
  have hpos := List.length_pos_iff.2 hne
  have hwithin : d.span.endColumn ≤ d.span.lineContent.toList.length := by
    rw [hlen, Span.width] at hpos
    rw [← hshown, List.length_drop, List.length_take, Span.width] at hlen
    omega
  have hcarets : max 1 d.span.width = shown.length := by omega
  have hline : d.span.lineContent.toList = d.span.lineContent.toList.take d.span.startColumn ++
      (shown ++ d.span.lineContent.toList.drop d.span.endColumn) := by
    rw [← hshown, ← drop_slice d.span.start_le_end hwithin, List.take_append_drop]
  have hbefore : (d.numbered ++ d.span.lineContent.toList.take d.span.startColumn).length =
      (d.unnumbered ++ (padding d.span).toList).length := by
    have := d.span.start_le_end
    rw [List.length_append, List.length_append, length_unnumbered, length_padding,
      List.length_take]
    omega
  have hcaret : '^' ∉ d.unnumbered ++ (padding d.span).toList := by
    intro hc
    rcases List.mem_append.1 hc with hc | hc
    · simp [unnumbered] at hc
    · exact absurd (mem_padding hc) (by simp)
  obtain ⟨more, hmore⟩ := List.head?_eq_some_iff.1 (head?_marked d)
  have hsource : (splitLines (d.render false).toList)[3 + extra]? =
      some (d.numbered ++ d.span.lineContent.toList) := by
    have hindex : 3 + extra - (1 + extra) = 2 := by omega
    rw [h.rows, List.getElem?_append_right (by rw [h.header]; omega), h.header, hindex]
    rfl
  have hbelow : (splitLines (d.render false).toList)[4 + extra]? =
      some (d.unnumbered ++ (padding d.span).toList ++ (List.replicate shown.length '^' ++
        ' ' :: d.message.toList.takeWhile (· ≠ '\n'))) := by
    have hindex : 4 + extra - (1 + extra) = 3 := by omega
    rw [h.rows, List.getElem?_append_right (by rw [h.header]; omega), h.header, hindex, hmore,
      hcarets]
    rfl
  have habove : d.numbered ++ d.span.lineContent.toList =
      d.numbered ++ d.span.lineContent.toList.take d.span.startColumn ++
        (shown ++ d.span.lineContent.toList.drop d.span.endColumn) := by
    rw [List.append_assoc, ← hline]
  refine ⟨_, _, hsource, hbelow, ?_⟩
  rw [habove]
  exact overCarets_eq hbefore hcaret hne (by simp)

end Diagnostic
end FrontEnd
