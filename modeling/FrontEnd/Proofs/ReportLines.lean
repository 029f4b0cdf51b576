import FrontEnd.Proofs.EndOfInput
import FrontEnd.Proofs.Frames

namespace FrontEnd

open Text

namespace LexicalError

theorem toUpper_ne_newline (n : Nat) : ∀ c ∈ Nat.toDigits 16 n, c.toUpper ≠ '\n' := by
  have hdigit : ∀ d < 16, (Nat.digitChar d).toUpper ≠ '\n' := by decide
  induction n using Nat.strongRecOn with
  | ind n ih =>
    rcases Nat.lt_or_ge n 16 with hlt | hge
    · rw [Nat.toDigits_of_lt_base hlt]
      simpa using hdigit n hlt
    · rw [Nat.toDigits_of_base_le (by decide) hge, List.forall_mem_append]
      exact ⟨ih (n / 16) (by omega), by simpa using hdigit _ (Nat.mod_lt n (by decide))⟩

theorem newline_not_mem_codePoint (c : Char) : '\n' ∉ (codePoint c).toList := by
  have hdigits : '\n' ∉ (Nat.toDigits 16 c.toNat).map Char.toUpper := by
    intro h
    obtain ⟨d, hd, hup⟩ := List.mem_map.1 h
    exact toUpper_ne_newline _ d hd hup
  simp [codePoint, hdigits]

/-- A character is shown in a report only if it can be printed, and a line feed cannot. -/
theorem ne_newline_of_isPrintable {c : Char} (h : isPrintable c = true) : '\n' ≠ c := by
  rintro rfl
  exact absurd h (by decide)

theorem newline_not_mem_message (e : LexicalError) : '\n' ∉ e.message.toList := by
  cases e with
  | unknownCharacter c span =>
    unfold message
    dsimp only
    split
    · rename_i hc
      simp [ne_newline_of_isPrintable hc]
    · simp
  | unterminatedString span =>
    have hnumber := newline_not_mem_toString span.line
    have htext : '\n' ∉ "Unterminated string literal starting on line ".toList := by simp
    unfold message
    dsimp only
    rw [String.toList_append, List.mem_append, not_or]
    exact ⟨htext, hnumber⟩

theorem newline_not_mem_help (e : LexicalError) : '\n' ∉ e.help.toList := by
  cases e with
  | unknownCharacter c span =>
    unfold help
    dsimp only
    split
    · rename_i hc
      simp [ne_newline_of_isPrintable hc]
    · have hpoint := newline_not_mem_codePoint c
      have hfront : '\n' ∉ "Non-printable character (Unicode: ".toList := by simp
      have hback : '\n' ∉ ") is not allowed.".toList := by simp
      rw [String.toList_append, List.mem_append, not_or, String.toList_append, List.mem_append, not_or]
      exact ⟨⟨hfront, hpoint⟩, hback⟩
  | unterminatedString span =>
    unfold help
    simp

theorem flat (e : LexicalError) (hname : '\n' ∉ e.span.filename.toList)
    (hline : '\n' ∉ e.span.lineContent.toList) : e.diagnostic.Flat where
  message := newline_not_mem_message e
  severity := by simp [diagnostic]
  phase := by simp [diagnostic]
  code := by cases e <;> simp [diagnostic, code]
  help := by simpa [diagnostic] using newline_not_mem_help e
  suggestions := by cases e <;> simp [diagnostic, suggestions]
  filename := hname
  lineContent := hline

end LexicalError

namespace Automaton

variable {g : Grammar} {stop t : Token} {phase : Phase} {ts : List Token} {e : SyntaxError}

/-- The error can be found at the token. -/
inductive Blames (g : Grammar) (t : Token) : SyntaxError → Prop
  | noStart {phase : Phase} (h : next g phase t.kind = .error .noStart) :
      Blames g t (.invalidStart t)
  | noOperator {phase : Phase} (h : next g phase t.kind = .error .noOperator) :
      Blames g t (.invalidOperator t)
  | missing (due : Due) : Blames g t (.unexpected due.kind due.context t)
  | ended (h : t.kind = .endOfInput) : Blames g t (.unexpectedEnd "an expression" t.span)

/-- An error is found at the end, or at a token that it names. -/
theorem run_blames (hstop : stop.kind = .endOfInput) (hk : ∀ t ∈ ts, t.kind ≠ .endOfInput)
    (he : (run g stop phase ts).error = some e) : e.AtEnd stop ∧ Blames g stop e ∨
      ¬ e.AtEnd stop ∧ ∃ t ∈ ts, e.token? = some t ∧ Blames g t e := by
  induction phase, ts using run_induction g stop with
  | ends phase ts hend hrun =>
    obtain rfl := eq_nil_of_atEnd hk hend
    cases phase with
    | start => cases he
    | after => cases he
    | operand =>
      cases he
      exact .inl ⟨.inl rfl, .ended hstop⟩
    | inside due =>
      cases he
      exact .inl ⟨.inr ⟨rfl, rfl⟩, .missing due⟩
  | refuses phase t us refusal ht hn hrun =>
    rw [hrun] at he
    refine .inr ⟨not_atEnd_refusal hstop ht he, t, List.mem_cons_self, ?_⟩
    cases refusal with
    | noStart =>
      cases he
      exact ⟨rfl, .noStart hn⟩
    | noOperator =>
      cases he
      exact ⟨rfl, .noOperator hn⟩
    | missing due =>
      cases he
      exact ⟨rfl, .missing due⟩
  | takes phase phase' t us _ _ hrun ih =>
    rw [hrun] at he
    obtain hend | ⟨hne, u, hu, hblames⟩ := ih (fun u hu => hk u (List.mem_cons_of_mem t hu)) he
    · exact .inl hend
    · exact .inr ⟨hne, u, List.mem_cons_of_mem t hu, hblames⟩
  | completes t us _ hrun ih =>
    rw [hrun] at he
    exact ih hk he

theorem Blames.span (h : Blames g t e) : e.span = t.span := by
  cases h <;> rfl

/-- With all rules in force, a string is never at fault but where another token is due. -/
theorem Blames.code_of_string (h : Blames .standard t e) (hk : t.kind = .string) :
    e.code = "P002" := by
  have hnext : ∀ phase, next .standard phase .string ≠ .error .noStart ∧
      next .standard phase .string ≠ .error .noOperator := by
    intro phase
    cases phase with
    | start => decide
    | operand => decide
    | after => decide
    | inside due => cases due <;> decide
  cases h with
  | noStart h => exact absurd (hk ▸ h) (hnext _).1
  | noOperator h => exact absurd (hk ▸ h) (hnext _).2
  | missing due => rfl
  | ended h => cases hk.symm.trans h

/-- A message has the line feeds of the token that it repeats. -/
theorem Blames.count_message (h : Blames g t e) :
    e.message.toList.count '\n' = t.found.toList.count '\n' := by
  cases h with
  | noStart =>
    have htext : "Invalid token at start of expression: ".toList.count '\n' = 0 := by decide
    unfold SyntaxError.message
    dsimp only
    rw [String.toList_append, List.count_append, htext, Nat.zero_add]
  | noOperator =>
    have htext : "Invalid token in infix position: ".toList.count '\n' = 0 := by decide
    unfold SyntaxError.message
    dsimp only
    rw [String.toList_append, List.count_append, htext, Nat.zero_add]
  | missing due =>
    have htext : ("Expected " ++ due.kind.describe ++ (if due.context = "" then "" else
        " " ++ due.context) ++ ", found ").toList.count '\n' = 0 := by
      cases due <;> decide +kernel
    unfold SyntaxError.message
    dsimp only
    rw [String.toList_append, List.count_append, htext, Nat.zero_add]
  | ended h =>
    unfold SyntaxError.message Token.found
    dsimp only
    rw [if_pos h]
    decide

theorem count_found (h : t.kind ≠ .endOfInput) :
    t.found.toList.count '\n' = t.lexeme.toList.count '\n' := by
  simp [Token.found, h]

theorem Blames.flatBesides (h : Blames g t e) (hname : '\n' ∉ t.span.filename.toList)
    (hline : '\n' ∉ t.span.lineContent.toList) : e.diagnostic.FlatBesides where
  message := by simp
  severity := by simp [SyntaxError.diagnostic]
  phase := by simp [SyntaxError.diagnostic]
  code := by cases h <;> simp [SyntaxError.diagnostic, SyntaxError.code]
  help := by
    cases h <;> simp [SyntaxError.diagnostic, SyntaxError.help]
  suggestions := by
    cases h with
    | missing due =>
      cases due <;> simp [SyntaxError.diagnostic, SyntaxError.suggestions, Due.kind, Kind.hints]
    | noStart | noOperator | ended =>
      simp [SyntaxError.diagnostic, SyntaxError.suggestions]
  filename := by
    rw [← h.span] at hname
    exact hname
  lineContent := by
    rw [← h.span] at hline
    exact hline

end Automaton

/-- The text of a token, up to its first line feed and without carriage returns before that. -/
def Token.firstLine (t : Token) : List Char :=
  trimReturns (t.lexeme.toList.takeWhile (· ≠ '\n'))

namespace Source

variable {s : Source} {i j : Nat} {span : Span} {t : Token} {ts : List Token}

theorem Begins.flat (h : s.Begins i span) (hname : '\n' ∉ s.name.toList) :
    '\n' ∉ span.filename.toList ∧ '\n' ∉ span.lineContent.toList := by
  rw [h.filename, h.lineContent, String.toList_ofList]
  refine ⟨hname, fun hn => ?_⟩
  have hline : '\n' ∈ lineAround s.text i := by
    rw [trimReturns, List.mem_reverse] at hn
    exact List.mem_reverse.1 ((List.dropWhile_sublist _).mem hn)
  simpa using List.all_eq_true.1 List.all_takeWhile _ hline

theorem flat_endToken (hname : '\n' ∉ s.name.toList) (hts : ∀ t ∈ ts, ∃ i j, s.Placed i j t)
    (hk : ∀ t ∈ ts, t.kind ≠ .endOfInput) : '\n' ∉ (endToken ts).span.filename.toList ∧
      '\n' ∉ (endToken ts).span.lineContent.toList := by
  unfold endToken
  split
  · simp [Span.origin]
  · rename_i t ht
    have hmem := List.mem_of_getLast? ht
    obtain ⟨i, j, hp⟩ := hts t hmem
    rw [if_neg (hk t hmem)]
    exact hp.begins.flat hname

theorem Placed.firstLine_ne_nil (h : s.Placed i j t) : t.firstLine ≠ [] := by
  obtain ⟨⟨x, hx, hb⟩, _⟩ := h.solid
  obtain ⟨more, hmore⟩ := List.head?_eq_some_iff.1 hx
  have hn : x ≠ '\n' := ne_of_visible hb rfl
  have htrim : trimReturns ([] ++ x :: more.takeWhile (· ≠ '\n')) = _ :=
    trimReturns_append [] _ (ne_of_visible hb rfl)
  rw [List.nil_append] at htrim
  rw [Token.firstLine, hmore, List.takeWhile_cons_of_pos (by simpa using hn), htrim]
  simp

theorem Placed.firstLine_of_flat (h : s.Placed i j t) (hn : '\n' ∉ t.lexeme.toList) :
    t.firstLine = t.lexeme.toList := by
  obtain ⟨_, y, hy, hb⟩ := h.solid
  have hall : t.lexeme.toList.takeWhile (· ≠ '\n') = t.lexeme.toList := by
    rw [List.takeWhile_eq_self_iff]
    intro c hc
    simp only [decide_eq_true_eq]
    exact fun he => hn (he ▸ hc)
  have htrim : trimReturns (t.lexeme.toList ++ []) = t.lexeme.toList ++ trimReturns [] :=
    trimReturns_append_of_getLast ⟨y, hy, ne_of_visible hb rfl⟩
  rw [List.append_nil] at htrim
  rw [Token.firstLine, hall, htrim]
  simp [trimReturns]

/-- A token is shown where its span is, as far as its first line goes. -/
theorem Placed.firstLine_eq (h : s.Placed i j t) : t.firstLine =
    (t.span.lineContent.toList.take t.span.endColumn).drop t.span.startColumn := by
  rw [h.shown]
  split
  · rfl
  · rename_i hn
    exact h.firstLine_of_flat hn

theorem Placed.length_firstLine (h : s.Placed i j t) : t.firstLine.length = t.span.width := by
  have hend := h.endColumn
  rw [Span.width]
  by_cases hn : '\n' ∈ t.lexeme.toList
  · rw [if_pos hn, ← String.length_toList] at hend
    rw [h.firstLine_eq, List.length_drop, List.length_take, hend, Nat.min_self]
  · rw [if_neg hn, ← String.length_toList] at hend
    rw [h.firstLine_of_flat hn]
    omega

end Source

section Reports

variable {s : Source}

/-- Of a character that is refused, that character is underlined. -/
theorem unknownCharacter_framed {c : Char} {span : Span} (hname : '\n' ∉ s.name.toList)
    (h : s.tokens = .error (.lexical (.unknownCharacter c span))) :
    (LexicalError.unknownCharacter c span).diagnostic.Framed 0 ∧
      ∃ k, s.text[k]? = some c ∧ s.Begins k span ∧
        (LexicalError.unknownCharacter c span).diagnostic.Underlines 0 [c] := by
  have hfinds : s.Finds 0 s.text s.lexing.fault := Source.tokensFrom_finds (Cursor.on_start s.text)
  rw [Source.tokens_eq_error.1 h] at hfinds
  cases hfinds with
  | @stray front rest x span hcs hf hx hb he hshown =>
    rw [Nat.zero_add] at hb
    obtain ⟨hfile, hline⟩ := hb.flat hname
    have hframed := (LexicalError.flat (.unknownCharacter c span) hfile hline).framed
    refine ⟨hframed, front.length, by simp [hcs], hb, hframed.underlines ?_ ?_ (by simp)⟩
    · change (span.lineContent.toList.take span.endColumn).drop span.startColumn = [c]
      obtain ⟨hlt, hget⟩ := List.getElem?_eq_some_iff.1 hshown
      rw [he, List.drop_take, List.drop_eq_getElem_cons hlt, hget]
      simp
    · change 1 = span.endColumn - span.startColumn
      omega

/-- Of a string that is never closed, all that is on its first line is underlined. -/
theorem unterminatedString_framed {span : Span} (hname : '\n' ∉ s.name.toList)
    (h : s.tokens = .error (.lexical (.unterminatedString span))) :
    (LexicalError.unterminatedString span).diagnostic.Framed 0 ∧
      ∃ k, s.text[k]? = some '"' ∧ '"' ∉ s.text.drop (k + 1) ∧ s.Begins k span ∧
        (LexicalError.unterminatedString span).diagnostic.Underlines 0
          (trimReturns ((s.text.drop k).takeWhile (· ≠ '\n'))) := by
  have hfinds : s.Finds 0 s.text s.lexing.fault := Source.tokensFrom_finds (Cursor.on_start s.text)
  rw [Source.tokens_eq_error.1 h] at hfinds
  cases hfinds with
  | @unclosed front rest span hcs hf hq hb he =>
    rw [Nat.zero_add] at hb
    obtain ⟨hfile, hline⟩ := hb.flat hname
    have hframed := (LexicalError.flat (.unterminatedString span) hfile hline).framed
    have hdrop : s.text.drop front.length = '"' :: rest := by rw [hcs, List.drop_left]
    have hafter : s.text.drop (front.length + 1) = rest := by rw [← List.tail_drop, hdrop]; rfl
    have hle : front.length ≤ s.text.length := by simp [hcs]
    have hcontent : span.lineContent.toList =
        lead s.text front.length ++ '"' :: trimReturns (rest.takeWhile (· ≠ '\n')) := by
      rw [hb.lineContent, String.toList_ofList, trimReturns_lineAround hdrop rfl]
    have hshown : trimReturns ((s.text.drop front.length).takeWhile (· ≠ '\n')) =
        '"' :: trimReturns (rest.takeWhile (· ≠ '\n')) := by
      rw [hdrop, List.takeWhile_cons_of_pos (by decide)]
      exact trimReturns_append [] _ (by decide)
    have hlead : span.startColumn = (lead s.text front.length).length := by
      rw [hb.startColumn, length_lead hle]
    refine ⟨hframed, front.length, by simp [hcs], hafter ▸ hq, hb, ?_⟩
    rw [hshown]
    refine hframed.underlines ?_ ?_ (by simp)
    · change (span.lineContent.toList.take span.endColumn).drop span.startColumn = _
      rw [he, ← String.length_toList, List.take_length, hcontent, hlead, List.drop_left]
    · change _ = span.endColumn - span.startColumn
      rw [he, ← String.length_toList, hcontent, hlead, List.length_append, Nat.add_sub_cancel_left]

variable {p : ParseSession} {e : SyntaxError} {t : Token}

/-- An error at the end of the tokens is framed. -/
theorem Automaton.Blames.framed_end (h : Blames p.grammar p.stop e) (hname : '\n' ∉ s.name.toList)
    (hp : ∀ t ∈ p.tokens, ∃ i j, s.Placed i j t) (hk : ∀ t ∈ p.tokens, t.kind ≠ .endOfInput) :
    e.diagnostic.Framed 0 := by
  obtain ⟨hfile, hline⟩ := Source.flat_endToken hname hp hk
  have hcount : e.diagnostic.message.toList.count '\n' = 0 := by
    have hstop : p.stop.kind = .endOfInput := endToken_kind p.tokens
    have hfound : p.stop.found = "end of input" := by rw [Token.found, if_pos hstop]
    refine h.count_message.trans ?_
    rw [hfound]
    decide
  exact hcount ▸ (h.flatBesides hfile hline).framed

/-- An error at a token is framed but for the line feeds of the token, which is underlined. -/
theorem Automaton.Blames.framed {i j : Nat} (h : Blames p.grammar t e)
    (hname : '\n' ∉ s.name.toList) (hk : t.kind ≠ .endOfInput) (hp : s.Placed i j t) :
    e.diagnostic.Framed (t.lexeme.toList.count '\n') ∧
      e.diagnostic.Underlines (t.lexeme.toList.count '\n') t.firstLine := by
  obtain ⟨hfile, hline⟩ := hp.begins.flat hname
  have hcount : e.diagnostic.message.toList.count '\n' = t.lexeme.toList.count '\n' :=
    h.count_message.trans (count_found hk)
  have hframed := hcount ▸ (h.flatBesides hfile hline).framed
  have hspan : e.diagnostic.span = t.span := h.span
  refine ⟨hframed, hframed.underlines ?_ ?_ hp.firstLine_ne_nil⟩
  · rw [hspan, hp.firstLine_eq]
  · rw [hspan, hp.length_firstLine]

end Reports

/-- What a report on a source looks like, unless a word is declared to be a number or the end. A
character that is refused and a string that is never closed are reported in six lines with the
advice below them, and above the carets stands the character, or what the first line shows of the
string from its quote on. An error at the end of the tokens is reported so too. Any other error,
unless it is one of nesting, names a token, and above the carets stands the first line of that
token; but its report repeats the whole token twice, so it has two lines more for each line feed in
it. Such a token is a string over several lines, and with all rules in force something else was due
there. -/
theorem reports_framed (s : Source) (p : ParseSession) (hname : '\n' ∉ s.name.toList)
    (hnumber : ∀ word, s.keywords.kindOf word ≠ .number)
    (hend : ∀ word, s.keywords.kindOf word ≠ .endOfInput) :
    (∀ c span, s.tokens = .error (.lexical (.unknownCharacter c span)) →
      (LexicalError.unknownCharacter c span).diagnostic.Framed 0 ∧
      ∃ k, s.text[k]? = some c ∧ s.Begins k span ∧
        (LexicalError.unknownCharacter c span).diagnostic.Underlines 0 [c]) ∧
    (∀ span, s.tokens = .error (.lexical (.unterminatedString span)) →
      (LexicalError.unterminatedString span).diagnostic.Framed 0 ∧
      ∃ k, s.text[k]? = some '"' ∧ '"' ∉ s.text.drop (k + 1) ∧ s.Begins k span ∧
        (LexicalError.unterminatedString span).diagnostic.Underlines 0
          (trimReturns ((s.text.drop k).takeWhile (· ≠ '\n')))) ∧
    (s.tokens = .ok p.tokens → ∀ e ∈ p.parse.2.errors, e.code ≠ "P005" →
      (e.AtEnd p.stop → e.diagnostic.Framed 0) ∧
      (¬ e.AtEnd p.stop → ∃ t ∈ p.tokens, e.token? = some t ∧
        e.diagnostic.Framed (t.lexeme.toList.count '\n') ∧
        e.diagnostic.Underlines (t.lexeme.toList.count '\n') t.firstLine ∧
        ('\n' ∈ t.lexeme.toList →
          t.kind = .string ∧ (p.grammar = .standard → e.code = "P002")))) := by
  refine ⟨fun c span => unknownCharacter_framed hname, fun span => unterminatedString_framed hname,
    ?_⟩
  intro hts e he hc
  have hk := Source.kind_ne_endOfInput hend hts
  have hp : ∀ t ∈ p.tokens, ∃ i j, s.Placed i j t := by
    obtain ⟨hf, hlexing⟩ := Source.tokens_eq_ok.1 hts
    obtain ⟨bounds, htiled⟩ := Source.tokensFrom_tiled (Cursor.on_start s.text) hf
    intro t ht
    obtain ⟨i, j, _, hp⟩ := htiled.placed t (hlexing ▸ ht)
    exact ⟨i, j, hp⟩
  have hverdict := ParseSession.verdict_error (s.tokens_readable hnumber hts) he hc
  obtain ⟨hat, hblames⟩ | ⟨hat, t, ht, htoken, hblames⟩ :=
    Automaton.run_blames (endToken_kind p.tokens) hk hverdict
  · exact ⟨fun _ => hblames.framed_end hname hp hk, fun h => absurd hat h⟩
  · obtain ⟨i, j, hplaced⟩ := hp t ht
    obtain ⟨hframed, hunderlines⟩ := hblames.framed hname (hk t ht) hplaced
    refine ⟨fun h => absurd h hat, fun _ => ⟨t, ht, htoken, hframed, hunderlines, fun hn => ?_⟩⟩
    have hstring : t.kind = .string :=
      Classical.byContradiction fun h => Source.newline_not_mem_lexeme hts ht h hn
    exact ⟨hstring, fun hg => (hg ▸ hblames : Automaton.Blames .standard t e).code_of_string hstring⟩

/-- A string over two lines where the name of a variable is due. -/
def nameOverLines : Source :=
  .ofText "new \"a\nb\"" "m.fp" .standard

/-- The error on `nameOverLines`. -/
def nameOverLinesError : SyntaxError :=
  .unexpected .identifier "for variable name" ⟨.string, "\"a\nb\"", .text "a\nb",
    { Span.origin with
      startColumn := 4, endColumn := 6, filename := "m.fp", lineContent := "new \"a"
      start_le_end := by decide }⟩

theorem errors_nameOverLines : nameOverLines.tokens = .ok nameOverLines.lexing.tokens ∧
    (ParseSession.start nameOverLines.lexing.tokens).parse.2.errors = [nameOverLinesError] := by
  have hf : nameOverLines.lexing.fault = none := by decide +kernel
  exact ⟨Source.tokens_eq_ok.2 ⟨hf, rfl⟩, by decide +kernel⟩

/-- Its report has two lines too many, and the carets are on the sixth. -/
theorem reports_framed_nameOverLines : '\n' ∉ nameOverLines.name.toList ∧
    (∀ word, nameOverLines.keywords.kindOf word ≠ .number) ∧
    (∀ word, nameOverLines.keywords.kindOf word ≠ .endOfInput) ∧
    ∃ ts, nameOverLines.tokens = .ok ts ∧
      (ParseSession.start ts).parse.2.errors = [nameOverLinesError] ∧
      ¬ nameOverLinesError.AtEnd (ParseSession.start ts).stop ∧
      nameOverLinesError.diagnostic.Framed 1 ∧
      nameOverLinesError.diagnostic.Underlines 1 ['"', 'a'] := by
  have hname : '\n' ∉ nameOverLines.name.toList := by decide
  have hnumber : ∀ word, Keywords.standard.kindOf word ≠ .number :=
    Keywords.kindOf_ne_number (by decide)
  have hend : ∀ word, Keywords.standard.kindOf word ≠ .endOfInput :=
    Keywords.kindOf_ne (by decide) (by decide)
  obtain ⟨hts, he⟩ := errors_nameOverLines
  have hat : ¬ nameOverLinesError.AtEnd (endToken nameOverLines.lexing.tokens) := by
    rintro (hcode | ⟨_, htoken⟩)
    · exact absurd hcode (by decide)
    · have hkind := endToken_kind nameOverLines.lexing.tokens
      rw [← Option.some.inj htoken] at hkind
      cases hkind
  obtain ⟨-, -, hreports⟩ :=
    reports_framed nameOverLines (.start nameOverLines.lexing.tokens) hname hnumber hend
  obtain ⟨t, -, ht, hframed, hunderlines, -⟩ :=
    (hreports hts nameOverLinesError (he ▸ List.mem_singleton_self _) (by decide)).2 hat
  cases ht
  exact ⟨hname, hnumber, hend, _, hts, he, hat, hframed, hunderlines⟩

/-- The report of that error is not in its frame: for six lines and one of advice it has nine. -/
theorem report_not_framed : ∃ ts e, nameOverLines.tokens = .ok ts ∧
    (ParseSession.start ts).parse.2.errors = [e] ∧ e.code = "P002" ∧
    '\n' ∉ nameOverLines.name.toList ∧ e.diagnostic.help = none ∧
    (e.diagnostic.suggestions.getD []).length = 1 ∧
    (e.diagnostic.render false).toList.count '\n' = 9 ∧ ¬ e.diagnostic.Framed 0 := by
  have hblames : Automaton.Blames .standard _ nameOverLinesError := .missing .name
  have hflat : nameOverLinesError.diagnostic.FlatBesides :=
    hblames.flatBesides (by decide) (by decide)
  have hmessage : nameOverLinesError.diagnostic.message.toList.count '\n' = 1 := by decide +kernel
  have hcount : (nameOverLinesError.diagnostic.render false).toList.count '\n' = 9 := by
    rw [hflat.framed.count, hmessage]
    decide
  obtain ⟨hts, he⟩ := errors_nameOverLines
  refine ⟨_, _, hts, he, rfl, by decide, rfl, rfl, hcount, fun h => ?_⟩
  have hseven := h.count
  rw [hcount] at hseven
  revert hseven
  decide

end FrontEnd
