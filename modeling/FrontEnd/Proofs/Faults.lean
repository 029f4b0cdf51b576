import FrontEnd.Proofs.Automaton
import FrontEnd.Proofs.Layout
import FrontEnd.Proofs.Refusals
import FrontEnd.Proofs.Soundness

namespace FrontEnd

/-- What holds of a name and of every entry of a table holds of every word. -/
theorem Keywords.kindOf_of_all {table : Keywords} {p : Kind → Bool} (hname : p .identifier = true)
    (h : (table.all fun e => p e.2) = true) (word : String) : p (table.kindOf word) = true := by
  unfold kindOf
  cases hk : table.lookup word with
  | none => exact hname
  | some kind => exact List.all_eq_true.1 h _ (Source.mem_of_lookup hk)

/-- A word is of no kind that is not in the table, but for that of names. -/
theorem Keywords.kindOf_ne {table : Keywords} {kind : Kind} (hname : .identifier ≠ kind)
    (h : (table.all fun e => e.2 != kind) = true) (word : String) : table.kindOf word ≠ kind := by
  have hne := @kindOf_of_all table (fun other => other != kind) (bne_iff_ne.2 hname) h word
  simpa using hne

/-- A table with no number in it makes no word a number. -/
theorem Keywords.kindOf_ne_number {table : Keywords}
    (h : (table.all fun e => e.2 != .number) = true) (word : String) :
    table.kindOf word ≠ .number :=
  kindOf_ne (by decide) h word

namespace Source

variable {s : Source} {fault : ScanFault} {ts : List Token}

/-- No span, no index and no numeral goes wrong. -/
theorem tokens_error (h : s.tokens = .error fault) : ∃ e, fault = .lexical e := by
  have hfinds := tokensFrom_finds (Cursor.on_start s.text)
  have hfault : (s.tokensFrom (Cursor.ofText s.text)).fault = some fault := tokens_eq_error.1 h
  rw [hfault] at hfinds
  cases hfinds with
  | stray => exact ⟨_, rfl⟩
  | unclosed => exact ⟨_, rfl⟩

/-- Only runs of digits are numbers, unless a word is declared to be one. -/
theorem tokens_readable (hk : ∀ word, s.keywords.kindOf word ≠ .number) (h : s.tokens = .ok ts) :
    Automaton.Readable ts := by
  obtain ⟨_, rfl⟩ := tokens_eq_ok.1 h
  intro t ht hnumber
  obtain ⟨_, _, l, _, hreads⟩ := exists_reads (Cursor.on_start s.text) t ht
  have hkind := hreads.denotes.kind
  rw [hnumber] at hkind
  rw [hreads.denotes.lexeme]
  cases l with
  | word first more _ _ => exact absurd hkind.symm (hk _)
  | number first more starts goesOn =>
    rw [Lexeme.chars, Numeral.real?_digits (by simp) (isDigit_of_mem_number starts goesOn)]
    rfl
  | quoted => cases hkind
  | operator symbol kind listed =>
    have hall : (Kind.operators.all fun e => e.2 != .number) = true := by decide
    have hne := List.all_eq_true.1 hall _ (mem_of_lookup listed)
    rw [← show Kind.number = kind from hkind] at hne
    cases hne

end Source

namespace Automaton

variable {g : Grammar} {stop t : Token} {phase : Phase} {ts us : List Token} {v : Verdict}

/-- Of the tokens `ts` an end is left, and either no token is left to read, or there was an error
with one of three codes. -/
structure Verdict.Settles (v : Verdict) (ts : List Token) : Prop where
  suffix : v.rest <:+ ts
  outcome : v.error = none ∧ Grammar.atEnd v.rest = true ∨
    ∃ e, v.error = some e ∧ e.code ∈ ["P001", "P002", "P004"]

theorem Verdict.Settles.oneMore (h : v.Settles ts) : v.oneMore.Settles ts :=
  ⟨h.suffix, h.outcome⟩

theorem Verdict.Settles.trans (h : v.Settles us) (hs : us <:+ ts) : v.Settles ts :=
  ⟨h.suffix.trans hs, h.outcome⟩

theorem settles_end (found : Token) (hend : Grammar.atEnd ts = true) :
    (phase.verdict found ts).Settles ts := by
  cases phase with
  | start => exact ⟨List.suffix_refl ts, .inl ⟨rfl, hend⟩⟩
  | after => exact ⟨List.suffix_refl ts, .inl ⟨rfl, hend⟩⟩
  | operand => exact ⟨List.suffix_refl ts, .inr ⟨_, rfl, by simp [SyntaxError.code]⟩⟩
  | inside due => exact ⟨List.suffix_refl ts, .inr ⟨_, rfl, by simp [SyntaxError.code]⟩⟩

/-- Behind an operand every operator has its rule. -/
theorem next_ne_noOperator (hg : ∀ kind : Kind, kind.precedence ≠ 0 → kind ∈ g.operators)
    (kind : Kind) : next g phase kind ≠ .error .noOperator := by
  have hopening : opening g kind ≠ .error .noOperator := by
    unfold opening
    split
    · simp
    · split <;> simp
  cases phase with
  | start => exact hopening
  | operand => exact hopening
  | after =>
    by_cases hp : kind.precedence = 0
    · simpa [next, hp] using hopening
    · simp [next, hp, hg kind hp]
  | inside due =>
    simp only [next]
    split
    · simp
    · split <;> simp

theorem settles_refusal {refusal : Refusal} (h : refusal ≠ .noOperator) :
    (refusal.verdict t ts).Settles (t :: ts) := by
  cases refusal with
  | noStart => exact ⟨List.suffix_cons t ts, .inr ⟨_, rfl, by simp [SyntaxError.code]⟩⟩
  | noOperator => contradiction
  | missing due => exact ⟨List.suffix_refl _, .inr ⟨_, rfl, by simp [SyntaxError.code]⟩⟩

theorem run_settles (hg : ∀ kind : Kind, kind.precedence ≠ 0 → kind ∈ g.operators) :
    (run g stop phase ts).Settles ts := by
  induction phase, ts using run_induction g stop with
  | ends phase ts hend hrun =>
    rw [hrun]
    exact settles_end _ hend
  | refuses phase t us refusal _ hn hrun =>
    have hne : next g phase t.kind ≠ .error .noOperator := next_ne_noOperator hg t.kind
    rw [hrun]
    exact settles_refusal fun hr => hne (hr ▸ hn)
  | takes phase phase' t us _ _ hrun ih =>
    rw [hrun]
    exact ih.trans (List.suffix_cons t us)
  | completes t us _ hrun ih =>
    rw [hrun]
    exact ih.oneMore

end Automaton

namespace ParseSession

variable {s : ParseSession}

/-- With all its rules, a session reads its tokens to the end or records one error. -/
theorem parse_outcome (hg : s.grammar = .standard) (hr : Automaton.Readable s.tokens) :
    ∃ nodes, s.parse.1 = .ok nodes ∧
      (s.parse.2.errors = [] ∧ s.parse.2.atEnd = true ∨
        ∃ e, s.parse.2.errors = [e] ∧ (e.code ∈ ["P001", "P002", "P004"] ∨
          e.code = "P005" ∧ s.limit ≤ s.tokens.length)) := by
  have hrules : ∀ kind : Kind, kind.precedence ≠ 0 → kind ∈ s.grammar.operators := by
    intro kind hk
    rw [hg]
    exact Grammar.mem_operators ((Kind.precedence_pos_iff kind).1 (Nat.pos_of_ne_zero hk))
  have hsettles : (Automaton.run s.grammar s.stop .start s.tokens).Settles s.tokens :=
    Automaton.run_settles hrules
  have hagrees : Automaton.Agrees s.limit s.tokens.length
      (Automaton.run s.grammar s.stop .start s.tokens) (s.grammar.program s.limit s.tokens) :=
    Automaton.sequence_agrees hr
  generalize Automaton.run s.grammar s.stop .start s.tokens = v at hsettles hagrees
  generalize hp : s.grammar.program s.limit s.tokens = p at hagrees
  cases hagrees with
  | @same nodes hlen =>
    rw [parse_eq hp]
    rcases hsettles.outcome with ⟨hnone, hend⟩ | ⟨e, he, hcode⟩
    · have hdrop := List.suffix_iff_eq_drop.1 hsettles.suffix
      rw [hnone]
      refine ⟨nodes, rfl, .inl ⟨rfl, ?_⟩⟩
      change Grammar.atEnd (s.tokens.drop (s.tokens.length - v.rest.length)) = true
      rw [← hdrop]
      exact hend
    · rw [he]
      exact ⟨nodes, rfl, .inr ⟨e, rfl, .inl hcode⟩⟩
  | @tooDeep nodes rest t hlen hlimit =>
    have hdeep : s.grammar.program s.limit s.tokens =
        ⟨nodes, rest, (some (SyntaxError.tooDeep t)).map .rejected⟩ := hp
    rw [parse_eq hdeep]
    exact ⟨nodes, rfl, .inr ⟨_, rfl, .inr ⟨rfl, hlimit⟩⟩⟩

end ParseSession

/-- The empty span behind the last token can be made. -/
theorem make_endToken {ts : List Token} {t : Token} (ht : ts.getLast? = some t)
    (hk : t.kind ≠ .endOfInput) : Span.make t.span.line t.span.endColumn t.span.endColumn
      t.span.filename t.span.lineContent = .ok (endToken ts).span := by
  have hline : (1 : Int) ≤ t.span.line := by
    have := t.span.line_pos
    omega
  have hcolumns : (0 : Int) ≤ t.span.endColumn ∧ (t.span.endColumn : Int) ≤ t.span.endColumn := by
    omega
  simp only [endToken, ht, if_neg hk]
  rw [Span.make, dif_pos hline, dif_pos hcolumns]
  rfl

/-- Whatever the source, unless a word is declared to be a number, its characters are refused with
a lexical error or its tokens are all read. They have an end token, and reading them gives
statements: up to the end, or up to the one error that is recorded, which is of three kinds, or of a
fourth only if there are as many tokens as expressions may be open. -/
theorem front_end_faults (s : Source) (limit : Nat)
    (hk : ∀ word, s.keywords.kindOf word ≠ .number) :
    (∃ e, s.tokens = .error (.lexical e)) ∨ ∃ ts, s.tokens = .ok ts ∧
      (∀ t ∈ ts.getLast?, t.kind ≠ .endOfInput → Span.make t.span.line t.span.endColumn
        t.span.endColumn t.span.filename t.span.lineContent = .ok (endToken ts).span) ∧
      ∃ nodes session, ({ ParseSession.start ts with limit := limit }).parse = (.ok nodes, session) ∧
        (session.errors = [] ∧ session.atEnd = true ∨
          ∃ e, session.errors = [e] ∧ (e.code ∈ ["P001", "P002", "P004"] ∨
            e.code = "P005" ∧ limit ≤ ts.length)) := by
  cases ht : s.tokens with
  | error fault =>
    obtain ⟨e, rfl⟩ := Source.tokens_error ht
    exact .inl ⟨e, rfl⟩
  | ok ts =>
    obtain ⟨nodes, hn, hout⟩ := ParseSession.parse_outcome
      (s := { ParseSession.start ts with limit := limit }) rfl (Source.tokens_readable hk ht)
    exact .inr ⟨ts, rfl, fun t hlast hend => make_endToken hlast hend, nodes, _, Prod.ext hn rfl,
      hout⟩

/-- A declaration whose value stops short. -/
def shortValue : Source :=
  .ofText "new n : int = 2 +\n" "short" .standard

/-- Its seven tokens are fewer than the expressions that may be open. -/
theorem front_end_faults_shortValue : (∀ word, shortValue.keywords.kindOf word ≠ .number) ∧
    ∃ ts, shortValue.tokens = .ok ts ∧
      ∃ nodes session, (ParseSession.start ts).parse = (.ok nodes, session) ∧
        (session.errors = [] ∧ session.atEnd = true ∨
          ∃ e, session.errors = [e] ∧ e.code ∈ ["P001", "P002", "P004"]) := by
  have hk := Keywords.kindOf_ne_number (show (Keywords.standard.all fun e => e.2 != .number) = true by decide)
  have hlen : shortValue.tokens.toOption.map List.length = some 7 := by decide +kernel
  refine ⟨hk, ?_⟩
  obtain ⟨e, he⟩ | ⟨ts, hts, _, nodes, session, hp, hout⟩ :=
    front_end_faults shortValue nestingLimit hk
  · simp [he, Except.toOption] at hlen
  · have hseven : ts.length = 7 := by simpa [hts, Except.toOption] using hlen
    refine ⟨ts, hts, nodes, session, hp, hout.imp id fun h => ?_⟩
    obtain ⟨e, he, hcode | ⟨_, hdeep⟩⟩ := h
    · exact ⟨e, he, hcode⟩
    · have hlimit : nestingLimit = 497 := rfl
      omega

end FrontEnd
