import FrontEnd.Proofs.Blocks

namespace FrontEnd

open Text

/-- Tokens have run out: an expression was due, or a token, and `stop` was found there. -/
def SyntaxError.AtEnd (stop : Token) (e : SyntaxError) : Prop :=
  e.code = "P004" ∨ e.code = "P002" ∧ e.token? = some stop

namespace Automaton

variable {g : Grammar} {stop t : Token} {phase phase' : Phase} {ts rest : List Token}
  {e : SyntaxError} {refusal : Refusal}

/-- Behind a string an operand is complete. -/
theorem next_string (h : next g phase .string = .ok phase') : phase' = .after := by
  have hopening : opening g .string = .ok phase' → phase' = .after := by
    intro ho
    unfold opening at ho
    split at ho
    · cases ho
    · cases ho
      rfl
  cases phase with
  | start => exact hopening h
  | operand => exact hopening h
  | after => exact hopening h
  | inside due => cases due <;> cases h

/-- What is refused at a token is no error at the end. -/
theorem not_atEnd_refusal (hstop : stop.kind = .endOfInput) (ht : t.kind ≠ .endOfInput)
    (he : (refusal.verdict t rest).error = some e) : ¬ e.AtEnd stop := by
  intro h
  cases refusal with
  | noStart =>
    cases he
    simp [SyntaxError.AtEnd, SyntaxError.code] at h
  | noOperator =>
    cases he
    simp [SyntaxError.AtEnd, SyntaxError.code] at h
  | missing due =>
    cases he
    rcases h with h | ⟨_, h⟩
    · simp [SyntaxError.code] at h
    · cases h
      exact ht hstop

/-- Without a token that marks it, the end is where no token is left. -/
theorem eq_nil_of_atEnd (hk : ∀ t ∈ ts, t.kind ≠ .endOfInput) (hend : Grammar.atEnd ts = true) :
    ts = [] := by
  cases ts with
  | nil => rfl
  | cons t us => exact absurd (by simpa [Grammar.atEnd] using hend) (hk t List.mem_cons_self)

/-- An error at the end is shown at the end token. It comes only where something is due, so the last
token that was taken is no string. -/
theorem run_atEnd (hstop : stop.kind = .endOfInput) (hk : ∀ t ∈ ts, t.kind ≠ .endOfInput)
    (he : (run g stop phase ts).error = some e) (h : e.AtEnd stop) : e.span = stop.span ∧
      (ts = [] ∧ phase ≠ .start ∧ phase ≠ .after ∨
        ∃ t, ts.getLast? = some t ∧ t.kind ≠ .string) := by
  induction phase, ts using run_induction g stop with
  | ends phase ts hend hrun =>
    obtain rfl := eq_nil_of_atEnd hk hend
    cases phase with
    | start => cases he
    | after => cases he
    | operand =>
      cases he
      exact ⟨rfl, .inl ⟨rfl, by simp, by simp⟩⟩
    | inside due =>
      cases he
      exact ⟨rfl, .inl ⟨rfl, by simp, by simp⟩⟩
  | refuses phase t us refusal ht _ hrun =>
    rw [hrun] at he
    exact absurd h (not_atEnd_refusal hstop ht he)
  | takes phase phase' t us ht hn hrun ih =>
    rw [hrun] at he
    obtain ⟨hspan, ⟨rfl, _, hafter⟩ | ⟨u, hu, hstring⟩⟩ := ih (fun u hu => hk u (by simp [hu])) he
    · refine ⟨hspan, .inr ⟨t, rfl, ?_⟩⟩
      intro hstring
      rw [hstring] at hn
      exact hafter (next_string hn)
    · exact ⟨hspan, .inr ⟨u, by rw [List.getLast?_cons, hu]; rfl, hstring⟩⟩
  | completes t us _ hrun ih =>
    rw [hrun] at he
    obtain ⟨hspan, ⟨hnil, _⟩ | hlast⟩ := ih hk he
    · cases hnil
    · exact ⟨hspan, .inr hlast⟩

end Automaton

theorem endToken_kind (ts : List Token) : (endToken ts).kind = .endOfInput := by
  unfold endToken
  split
  · rfl
  · split
    · assumption
    · rfl

/-- An error of a whole reading is the one that the machine finds, unless too many expressions were
open. -/
theorem ParseSession.verdict_error {s : ParseSession} {e : SyntaxError}
    (hr : Automaton.Readable s.tokens) (he : e ∈ s.parse.2.errors) (hc : e.code ≠ "P005") :
    s.verdict.error = some e := by
  have hagrees : Automaton.Agrees s.limit s.tokens.length s.verdict
      (s.grammar.program s.limit s.tokens) := Automaton.sequence_agrees hr
  generalize s.verdict = v at hagrees ⊢
  generalize hp : s.grammar.program s.limit s.tokens = p at hagrees
  cases hagrees with
  | same =>
    rw [parse_eq hp] at he
    exact Option.mem_toList.1 he
  | @tooDeep nodes rest t =>
    have hdeep : s.grammar.program s.limit s.tokens =
        ⟨nodes, rest, (some (SyntaxError.tooDeep t)).map .rejected⟩ := hp
    rw [parse_eq hdeep] at he
    cases List.mem_singleton.1 he
    exact absurd rfl hc

namespace Source

variable {s : Source} {t : Token} {ts : List Token} {bounds : List (Nat × Nat)} {i j : Nat}

/-- The end of a token that stays on its line. -/
theorem Placed.begins_atEnd (h : s.Placed i j t) (hn : '\n' ∉ t.lexeme.toList) :
    s.Begins j t.span.atEnd := by
  have hlen := h.length
  have hfeeds := feeds_add h.drop
  have hstart := lineStart_add h.drop hn
  have hlow := lineStart_le s.text i
  rw [hlen] at hfeeds hstart
  rw [List.count_eq_zero.2 hn] at hfeeds
  constructor
  · exact h.filename
  · rw [hfeeds]
    exact h.line
  · have hend := h.endColumn
    rw [if_neg hn, h.startColumn, ← String.length_toList] at hend
    refine hend.trans ?_
    rw [hstart]
    omega
  · rw [lineAround, hstart]
    exact h.lineContent

/-- Behind the last token there is only white space. -/
theorem Tiled.last (h : s.Tiled i bounds ts) (hl : ts.getLast? = some t) :
    ∃ first last, s.Placed first last t ∧ ∀ x ∈ s.text.drop last, isBlank x = true := by
  induction h with
  | done hb => cases hl
  | @token i first last u bounds ts hi hb hp hm ih =>
    cases hm with
    | done hblank =>
      cases hl
      exact ⟨first, last, hp, hblank⟩
    | token =>
      rw [List.getLast?_cons_cons] at hl
      exact ih hl

/-- No token is an end, unless a word is declared to be one. -/
theorem kind_ne_endOfInput (hend : ∀ word, s.keywords.kindOf word ≠ .endOfInput)
    (h : s.tokens = .ok ts) : ∀ t ∈ ts, t.kind ≠ .endOfInput := by
  obtain ⟨_, rfl⟩ := tokens_eq_ok.1 h
  intro t ht
  obtain ⟨_, _, l, _, hreads⟩ := exists_reads (Cursor.on_start s.text) t ht
  rw [hreads.denotes.kind]
  cases l with
  | word first more _ _ => exact hend _
  | number => simp [Lexeme.kind]
  | quoted => simp [Lexeme.kind]
  | operator symbol kind listed =>
    have hall : (Kind.operators.all fun e => e.2 != .endOfInput) = true := by decide
    simpa [Lexeme.kind] using List.all_eq_true.1 hall _ (mem_of_lookup listed)

theorem newline_not_mem_lexeme (h : s.tokens = .ok ts) (ht : t ∈ ts) (hk : t.kind ≠ .string) :
    '\n' ∉ t.lexeme.toList := by
  obtain ⟨_, rfl⟩ := tokens_eq_ok.1 h
  obtain ⟨_, _, l, _, hreads⟩ := exists_reads (Cursor.on_start s.text) t ht
  have hkind := hreads.denotes.kind
  rw [hreads.denotes.lexeme, String.toList_ofList]
  apply Lexeme.newline_not_mem
  intro hshape
  cases l <;> cases hshape
  exact hk hkind

end Source

/-- Unless a word is declared to be a number or the end, an error at the end of the tokens of a
source, under whatever rules and limit, points at the end of the program: the last token is no
string, only white space comes behind it, and the span of the error is empty and begins right behind
its last character. -/
theorem end_errors_placed (s : Source) (p : ParseSession)
    (hnumber : ∀ word, s.keywords.kindOf word ≠ .number)
    (hend : ∀ word, s.keywords.kindOf word ≠ .endOfInput) (hts : s.tokens = .ok p.tokens)
    (e : SyntaxError) (he : e ∈ p.parse.2.errors) (h : e.AtEnd p.stop) :
    ∃ t first last, p.tokens.getLast? = some t ∧ t.kind ≠ .string ∧ s.Placed first last t ∧
      (∀ x ∈ s.text.drop last, isBlank x = true) ∧ s.Begins last e.span ∧
      e.span.endColumn = e.span.startColumn := by
  have hkinds := Source.kind_ne_endOfInput hend hts
  have hcode : e.code ≠ "P005" := by
    intro hc
    simp [SyntaxError.AtEnd, hc] at h
  have hverdict := ParseSession.verdict_error (s.tokens_readable hnumber hts) he hcode
  obtain ⟨hspan, ⟨_, hstart, _⟩ | ⟨t, ht, hk⟩⟩ :=
    Automaton.run_atEnd (endToken_kind p.tokens) hkinds hverdict h
  · exact absurd rfl hstart
  · have hmem := List.mem_of_getLast? ht
    have hat : (endToken p.tokens).span = t.span.atEnd := by simp [endToken, ht, hkinds t hmem]
    obtain ⟨hf, hlexing⟩ := Source.tokens_eq_ok.1 hts
    obtain ⟨bounds, htiled⟩ := Source.tokensFrom_tiled (Cursor.on_start s.text) hf
    obtain ⟨first, last, hp, hblank⟩ := htiled.last (hlexing ▸ ht)
    rw [hspan, hat]
    exact ⟨t, first, last, ht, hk, hp, hblank,
      hp.begins_atEnd (Source.newline_not_mem_lexeme hts hmem hk), rfl⟩

/-- Behind the plus sign of `twoLines` an operand is due, and there is none. The string before it
runs over two lines, and yet the place is right. -/
theorem end_errors_placed_twoLines :
    (∀ word, twoLines.keywords.kindOf word ≠ .number) ∧
    (∀ word, twoLines.keywords.kindOf word ≠ .endOfInput) ∧
    ∃ ts e, twoLines.tokens = .ok ts ∧ (ParseSession.start ts).parse.2.errors = [e] ∧
      e.code = "P004" ∧ (e.span.line, e.span.startColumn, e.span.lineContent) = (2, 4, "y\" +") ∧
      ∃ t first last, ts.getLast? = some t ∧ t.kind ≠ .string ∧
        twoLines.Placed first last t ∧ twoLines.Begins last e.span ∧
        e.span.endColumn = e.span.startColumn := by
  have hnumber : ∀ word, Keywords.standard.kindOf word ≠ .number :=
    Keywords.kindOf_ne_number (by decide)
  have hend : ∀ word, Keywords.standard.kindOf word ≠ .endOfInput :=
    Keywords.kindOf_ne (by decide) (by decide)
  have hf : twoLines.lexing.fault = none := by decide +kernel
  have hts := Source.tokens_eq_ok.2 ⟨hf, rfl⟩
  let e : SyntaxError := .unexpectedEnd "an expression"
    ⟨2, 4, 4, "lines", "y\" +", by decide, by decide⟩
  have he : (ParseSession.start twoLines.lexing.tokens).parse.2.errors = [e] := by decide +kernel
  obtain ⟨t, first, last, ht, hk, hp, _, hb, hwidth⟩ := end_errors_placed twoLines
    (.start twoLines.lexing.tokens) hnumber hend hts e (by rw [he]; exact List.mem_singleton_self e)
    (.inl rfl)
  exact ⟨hnumber, hend, _, e, hts, he, rfl, rfl, t, first, last, ht, hk, hp, hb, hwidth⟩

end FrontEnd
