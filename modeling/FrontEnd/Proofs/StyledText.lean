import Mathlib.Data.List.Basic
import FrontEnd.Proofs.Carets

namespace FrontEnd

namespace Terminal

/-- The characters that are shown, each with the styles that were turned on since they were last
turned off. At the start `on` are. -/
def shown (on : List Style) : List Char → List (Char × List Style)
  | '\x1b' :: '[' :: '0' :: 'm' :: cs => shown [] cs
  | '\x1b' :: '[' :: '1' :: 'm' :: cs => shown (on ++ [.bright]) cs
  | '\x1b' :: '[' :: '2' :: 'm' :: cs => shown (on ++ [.dim]) cs
  | '\x1b' :: '[' :: '3' :: '1' :: 'm' :: cs => shown (on ++ [.red]) cs
  | '\x1b' :: '[' :: '3' :: '4' :: 'm' :: cs => shown (on ++ [.blue]) cs
  | c :: cs => (c, on) :: shown on cs
  | [] => []

/-- A text without its five sequences, wherever they stand. -/
def stripped : List Char → List Char
  | '\x1b' :: '[' :: '0' :: 'm' :: cs => stripped cs
  | '\x1b' :: '[' :: '1' :: 'm' :: cs => stripped cs
  | '\x1b' :: '[' :: '2' :: 'm' :: cs => stripped cs
  | '\x1b' :: '[' :: '3' :: '1' :: 'm' :: cs => stripped cs
  | '\x1b' :: '[' :: '3' :: '4' :: 'm' :: cs => stripped cs
  | c :: cs => c :: stripped cs
  | [] => []

/-- A text in styles, as it is shown. -/
def styled (on : List Style) (text : String) : List (Char × List Style) :=
  text.toList.map (·, on)

variable {on : List Style} {c : Char} {cs rest : List Char} {text : String} {p : Piece}

theorem map_fst_shown (on : List Style) (cs : List Char) :
    (shown on cs).map Prod.fst = stripped cs := by
  fun_induction shown on cs with
  | case1 on cs ih => exact ih
  | case2 on cs ih => exact ih
  | case3 on cs ih => exact ih
  | case4 on cs ih => exact ih
  | case5 on cs ih => exact ih
  | case6 on c cs h0 h1 h2 h3 h4 ih =>
    rw [List.map_cons, ih]
    exact (stripped.eq_6 c cs h0 h1 h2 h3 h4).symm
  | case7 => rfl

theorem map_fst_styled (on : List Style) (text : String) :
    (styled on text).map Prod.fst = text.toList := by
  rw [styled, List.map_map]
  exact List.map_id _

@[simp]
theorem styled_append (on : List Style) (front back : String) :
    styled on (front ++ back) = styled on front ++ styled on back := by
  simp [styled]

theorem shown_cons (h : c ≠ '\x1b') : shown on (c :: cs) = (c, on) :: shown on cs := by
  rw [shown]
  all_goals exact fun _ hc _ => h hc

theorem shown_append (h : '\x1b' ∉ text.toList) :
    shown on (text.toList ++ rest) = styled on text ++ shown on rest := by
  unfold styled
  generalize text.toList = cs at h
  induction cs with
  | nil => rfl
  | cons c cs ih =>
    rw [List.mem_cons, not_or] at h
    rw [List.cons_append, shown_cons (Ne.symm h.1), ih h.2, List.map_cons, List.cons_append]

theorem shown_code (s : Style) : shown on (s.code.toList ++ rest) = shown (on ++ [s]) rest := by
  cases s <;> rfl

theorem shown_codes (styles : List Style) :
    shown on ((styles.map Style.code).flatMap String.toList ++ rest) = shown (on ++ styles) rest := by
  induction styles generalizing on with
  | nil => simp
  | cons s styles ih =>
    rw [List.map_cons, List.flatMap_cons, List.append_assoc, shown_code, ih, List.append_assoc,
      List.singleton_append]

theorem shown_reset : shown on (Style.reset.toList ++ rest) = shown [] rest := rfl

/-- Behind the text nothing is on, whatever stands there. -/
def Closes (text : List Char) (cells : List (Char × List Style)) : Prop :=
  ∀ rest, shown [] (text ++ rest) = cells ++ shown [] rest

theorem Closes.append {front back : List Char} {shownFront shownBack : List (Char × List Style)}
    (hf : Closes front shownFront) (hb : Closes back shownBack) :
    Closes (front ++ back) (shownFront ++ shownBack) := by
  intro rest
  rw [List.append_assoc, hf, hb, List.append_assoc]

theorem Closes.flatMap {α : Type} {f : α → List Char} {g : α → List (Char × List Style)}
    {l : List α} (h : ∀ x ∈ l, Closes (f x) (g x)) : Closes (l.flatMap f) (l.flatMap g) := by
  induction l with
  | nil => exact fun _ => rfl
  | cons x l ih =>
    rw [List.forall_mem_cons] at h
    exact h.1.append (ih h.2)

theorem Closes.plain (h : '\x1b' ∉ text.toList) : Closes text.toList (styled [] text) :=
  fun _ => shown_append h

/-- A piece turns off again what it turns on. -/
theorem Closes.piece (h : '\x1b' ∉ p.text.toList) :
    Closes (p.render true).toList (styled p.styles p.text) := by
  obtain ⟨styles, text⟩ := p
  by_cases hplain : styles = [] ∨ text = ""
  · obtain rfl | rfl := hplain
    · exact .plain h
    · have hempty : Piece.render true ⟨styles, ""⟩ = "" := by simp [Piece.render]
      rw [hempty]
      exact fun _ => rfl
  · rw [not_or] at hplain
    have hpainted : Piece.render true ⟨styles, text⟩ =
        String.join (styles.map Style.code) ++ text ++ Style.reset := by
      simp [Piece.render, hplain]
    intro rest
    rw [hpainted, String.toList_append, String.toList_append, String.toList_join,
      List.append_assoc, List.append_assoc, shown_codes, shown_append h, shown_reset,
      List.nil_append]

end Terminal

open Terminal

namespace Diagnostic

variable {d : Diagnostic}

theorem escape_not_mem_layout (h : ∀ text ∈ d.texts, '\x1b' ∉ text.toList) :
    ∀ line ∈ d.layout, ∀ p ∈ line, '\x1b' ∉ p.text.toList :=
  not_mem_layout (by decide) h rfl

/-- A line of a report as it is shown, each piece in its styles. -/
def shownLine (line : List Piece) : List (Char × List Style) :=
  line.flatMap (fun p => styled p.styles p.text) ++ styled [] "\n"

theorem closes_line {line : List Piece} (h : ∀ p ∈ line, '\x1b' ∉ p.text.toList) :
    Closes (renderLine true line).toList (shownLine line) := by
  have hline : (renderLine true line).toList =
      line.flatMap (fun p => (p.render true).toList) ++ "\n".toList := by
    simp [renderLine, String.toList_join, List.flatMap_map]
  rw [hline]
  exact (Closes.flatMap fun p hp => .piece (h p hp)).append (.plain (by decide))

/-- A terminal shows the layout, each piece in its styles. -/
theorem shown_render (h : ∀ text ∈ d.texts, '\x1b' ∉ text.toList) :
    shown [] (d.render true).toList = d.layout.flatMap shownLine := by
  have hlines := Closes.flatMap fun line hline => closes_line (escape_not_mem_layout h line hline)
  have hshown := hlines []
  rw [List.append_nil] at hshown
  rw [render, String.toList_join, List.flatMap_map, hshown]
  exact List.append_nil _

theorem map_fst_shownLine (line : List Piece) :
    (shownLine line).map Prod.fst = lineText line ++ ['\n'] := by
  simp [shownLine, lineText, List.map_flatMap, map_fst_styled]

theorem stripped_render (h : ∀ text ∈ d.texts, '\x1b' ∉ text.toList) :
    stripped (d.render true).toList = (d.render false).toList := by
  rw [← map_fst_shown [], shown_render h, toList_render, List.map_flatMap, List.flatMap_map]
  simp only [map_fst_shownLine]

/-- The code in brackets behind the message. An empty code is none. -/
def codeMark (d : Diagnostic) : String :=
  match d.code with
  | none | some "" => ""
  | some code => " [" ++ code ++ "]"

/-- How a report is to be seen: the gutters in blue, what is said about the fault in red, its code
dimmed, and the line at fault, the way to the carets and the advice in no style at all. -/
def picture (d : Diagnostic) : List (Char × List Style) :=
  let number := toString d.span.line
  let bar := styled [.bright, .blue] (spaces (number.length + 2) ++ "|")
  styled [.bright, .red] (d.label ++ ": ") ++ styled [.red] d.message ++
    styled [.dim] d.codeMark ++ styled [] "\n" ++
  styled [.bright] ("---> " ++ d.span.describe) ++ styled [] "\n" ++
  bar ++ styled [] "\n" ++
  styled [.bright, .blue] (" " ++ number ++ " |") ++
    styled [] ("    " ++ d.span.lineContent ++ "\n") ++
  bar ++ styled [] ("    " ++ padding d.span) ++
    styled [.bright, .red] (carets d.span ++ " " ++ d.message) ++ styled [] "\n" ++
  bar ++ styled [] "\n" ++
  styled [] (String.join (d.advice.map (renderLine false)))

theorem styles_advice : ∀ line ∈ d.advice, ∀ p ∈ line, p.styles = [] := by
  unfold advice
  split <;> simp

theorem shownLine_plain {line : List Piece} (h : ∀ p ∈ line, p.styles = []) :
    shownLine line = styled [] (renderLine false line) := by
  have hpieces : line.flatMap (fun p => styled p.styles p.text) =
      (lineText line).map (·, []) := by
    rw [lineText, List.map_flatMap]
    refine List.flatMap_congr fun p hp => ?_
    rw [h p hp, styled]
  rw [shownLine, hpieces, styled, styled, toList_renderLine, List.map_append]
  rfl

theorem flatMap_shownLine_advice (d : Diagnostic) : d.advice.flatMap shownLine =
    styled [] (String.join (d.advice.map (renderLine false))) := by
  rw [styled, String.toList_join, List.flatMap_map, List.map_flatMap]
  exact List.flatMap_congr fun line hline => shownLine_plain (styles_advice line hline)

theorem shownLine_header (d : Diagnostic) : shownLine d.header =
    styled [.bright, .red] (d.label ++ ": ") ++ styled [.red] d.message ++
      styled [.dim] d.codeMark ++ styled [] "\n" := by
  unfold header codeMark
  split
  all_goals simp [shownLine, styled, *]

theorem flatMap_shownLine_layout (d : Diagnostic) : d.layout.flatMap shownLine = d.picture := by
  rw [layout, List.flatMap_cons, List.flatMap_append, shownLine_header, flatMap_shownLine_advice]
  simp only [picture, excerpt, shownLine, List.flatMap_cons, List.flatMap_nil, styled_append,
    List.append_assoc, List.append_nil]

/-- Colours change nothing but colours, for texts that give a terminal no orders of their own: the
report without its sequences is the report that is written without colours, no piece leaves a style
on behind it, and so each part of the report is shown in its own styles only. -/
theorem colored_shown (d : Diagnostic) (h : ∀ text ∈ d.texts, '\x1b' ∉ text.toList) :
    stripped (d.render true).toList = (d.render false).toList ∧
    (∀ line ∈ d.layout, ∀ p ∈ line,
      Closes (p.render true).toList (styled p.styles p.text)) ∧
    shown [] (d.render true).toList = d.picture :=
  ⟨stripped_render h, fun line hline p hp => .piece (escape_not_mem_layout h line hline p hp),
    (shown_render h).trans (flatMap_shownLine_layout d)⟩

/-- A report without a message on the second column of a line that begins with a tab. -/
def behindTab : Diagnostic where
  message := ""
  span := ⟨3, 1, 2, "m.fp", "\t@", by decide, by decide⟩
  severity := "error"
  phase := "lexer"
  code := some "L001"
  help := some "look here"
  suggestions := some ["write x", ""]

theorem colored_shown_behindTab : (∀ text ∈ behindTab.texts, '\x1b' ∉ text.toList) ∧
    behindTab.render true ≠ behindTab.render false ∧
    stripped (behindTab.render true).toList = (behindTab.render false).toList ∧
    shown [] (behindTab.render true).toList = behindTab.picture := by
  have htexts : ∀ text ∈ behindTab.texts, '\x1b' ∉ text.toList := by decide
  obtain ⟨hstripped, -, hshown⟩ := colored_shown behindTab htexts
  exact ⟨htexts, by decide +kernel, hstripped, hshown⟩

end Diagnostic
end FrontEnd
