import FrontEnd.Proofs.Blocks

namespace FrontEnd

open Text

/-- Letters, digits and underscores, with no digit first: what a table is asked for. -/
def isWord (text : String) : Bool :=
  match text.toList with
  | [] => false
  | first :: more => isWordStart first && more.all isWordPart

/-- The token `u` is the token `t` read with another table: only the kind of a word can differ, and
the value that goes with it. -/
structure Token.Relabeled (before after : Keywords) (t u : Token) : Prop where
  lexeme : u.lexeme = t.lexeme
  span : u.span = t.span
  word : isWord t.lexeme = true →
    t.kind = before.kindOf t.lexeme ∧ u.kind = after.kindOf t.lexeme
  same : (isWord t.lexeme = true → before.kindOf t.lexeme = after.kindOf t.lexeme) → u = t

namespace Keywords

variable {table before after : Keywords}

/-- Only the entries that are words are found for a word. -/
theorem kindOf_filter (table : Keywords) {text : String} (h : isWord text = true) :
    Keywords.kindOf (table.filter fun e => isWord e.1) text = table.kindOf text := by
  unfold kindOf
  congr 1
  induction table with
  | nil => rfl
  | cons e table ih =>
    obtain ⟨key, kind⟩ := e
    rw [List.filter_cons]
    by_cases hkey : text = key
    · rw [← hkey, if_pos h, List.lookup_cons_self, List.lookup_cons_self]
    · have hne : (text == key) = false := beq_eq_false_iff_ne.2 hkey
      split
      · rw [List.lookup_cons, List.lookup_cons, hne, ih]
      · rw [List.lookup_cons, hne, ih]

end Keywords

namespace Lexeme

variable {before after : Keywords} {l : Lexeme} {t u : Token}

theorem isWord_chars (l : Lexeme) : isWord (String.ofList l.chars) = (l.shape == .word) := by
  unfold isWord
  rw [String.toList_ofList]
  cases l with
  | word first more starts goesOn => simp [chars, shape, starts, goesOn]
  | number first more starts goesOn =>
    have hfirst : isWordStart first = false := by
      cases h : isWordStart first with
      | false => rfl
      | true => rw [isDigit_of_isWordStart h] at starts; cases starts
    simp [chars, shape, hfirst]
  | quoted inner closes => rfl
  | operator symbol kind listed =>
    obtain ⟨x, rest, hx⟩ := (operator symbol kind listed).exists_cons
    have hfirst : isWordStart x = false := by
      cases h : isWordStart x with
      | false => rfl
      | true =>
        have hpart := isWordPart_of_ofOperator? listed x (mem_of_head hx)
        rw [Source.isWordPart_of_isWordStart h] at hpart
        cases hpart
    simp [hx, shape, hfirst]

/-- The table says what kind a word is. -/
theorem kind_of_isWord (keywords : Keywords) (h : isWord (String.ofList l.chars) = true) :
    l.kind keywords = keywords.kindOf (String.ofList l.chars) := by
  rw [isWord_chars] at h
  cases l with
  | word => rfl
  | number | quoted | operator => cases h

theorem kind_congr (h : isWord (String.ofList l.chars) = true →
    before.kindOf (String.ofList l.chars) = after.kindOf (String.ofList l.chars)) :
    l.kind before = l.kind after ∧ l.value before = l.value after := by
  rw [isWord_chars] at h
  cases l with
  | word first more starts goesOn =>
    have heq : before.kindOf (String.ofList (first :: more)) =
        after.kindOf (String.ofList (first :: more)) := h rfl
    simp only [kind, value, heq, and_self]
  | number | quoted | operator => exact ⟨rfl, rfl⟩

/-- What a lexeme stands for depends on the table only if it is a word. -/
theorem Denotes.relabeled (h : l.Denotes before t) (h' : l.Denotes after u)
    (hspan : u.span = t.span) : t.Relabeled before after u where
  lexeme := h'.lexeme.trans h.lexeme.symm
  span := hspan
  word hw := by
    rw [h.lexeme] at hw ⊢
    rw [h.kind, h'.kind, kind_of_isWord before hw, kind_of_isWord after hw]
    exact ⟨rfl, rfl⟩
  same hw := by
    rw [h.lexeme] at hw
    obtain ⟨hkind, hvalue⟩ := kind_congr hw
    have hu := h.eq_withSpan ⟨h'.kind.trans hkind.symm, h'.lexeme, h'.value.trans hvalue.symm⟩
    rw [hu, hspan]

end Lexeme

/-- The offset alone says where a cursor stands. -/
theorem Cursor.On.unique {text : List Char} {c d : Cursor} (hc : c.On text) (hd : d.On text)
    (ho : c.position.offset = d.position.offset) : c = d := by
  have hrest := hc.rest
  have hline := hc.line
  have hcolumn := hc.column
  rw [ho, hd.rest] at hrest
  rw [ho, ← hd.line] at hline
  rw [ho, ← hd.column] at hcolumn
  obtain ⟨⟨_, _, _⟩, _⟩ := c
  obtain ⟨⟨_, _, _⟩, _⟩ := d
  simp_all

namespace Source

variable {s : Source} {i j j' : Nat} {a b : Span} {t u : Token} {l : Lexeme} {c d next : Cursor}
  {gap : List Char} {keywords : Keywords}

/-- The same text under the same name, with other keywords. -/
def withKeywords (s : Source) (keywords : Keywords) : Source :=
  { s with keywords := keywords }

/-- Spans that begin at the same character and end alike are the same. -/
theorem Begins.span_eq (h : s.Begins i a) (h' : (s.withKeywords keywords).Begins i b)
    (he : b.startColumn = a.startColumn → b.lineContent = a.lineContent →
      b.endColumn = a.endColumn) : b = a := by
  have hname : b.filename = a.filename := h'.filename.trans h.filename.symm
  have hline : b.line = a.line := h'.line.trans h.line.symm
  have hstart : b.startColumn = a.startColumn := h'.startColumn.trans h.startColumn.symm
  have hcontent : b.lineContent = a.lineContent := h'.lineContent.trans h.lineContent.symm
  rw [Span.eq_showing hname hline hstart (he hstart hcontent), hcontent]

/-- A lexeme is read with any table, and what follows it is the same. -/
theorem Reads.withKeywords (keywords : Keywords) (hc : c.On s.text) (h : s.Reads c gap l t next) :
    ∃ u, (s.withKeywords keywords).Reads c gap l u next ∧ t.Relabeled s.keywords keywords u := by
  obtain ⟨u, next', hreads, hrest⟩ :=
    tokensFrom_of_lexeme (s := s.withKeywords keywords) hc h.rest h.blank h.stops
  have hnext : next' = next := hreads.on.unique h.on (hreads.offset.trans h.offset.symm)
  subst hnext
  have hlexeme : u.lexeme = t.lexeme := hreads.denotes.lexeme.trans h.denotes.lexeme.symm
  have hspan : u.span = t.span := by
    refine h.placed.begins.span_eq hreads.placed.begins fun hstart hcontent => ?_
    rw [hreads.placed.endColumn, h.placed.endColumn, hlexeme, hstart, hcontent]
  exact ⟨u, hreads, h.denotes.relabeled hreads.denotes hspan⟩

/-- Reading goes the same way with any table. -/
theorem tokensFrom_withKeywords (keywords : Keywords) (hc : c.On s.text) :
    ((s.withKeywords keywords).tokensFrom c).fault = (s.tokensFrom c).fault ∧
      List.Forall₂ (Token.Relabeled s.keywords keywords) (s.tokensFrom c).tokens
        ((s.withKeywords keywords).tokensFrom c).tokens := by
  induction c, hc using tokensFrom_induction with
  | blank c hc hb =>
    rw [tokensFrom_of_blank hb, tokensFrom_of_blank hb]
    exact ⟨rfl, .nil⟩
  | stray c hc gap x rest hr hg hx =>
    obtain ⟨a, hnone, hfault, hbegins, hend, _⟩ := tokensFrom_of_stray hc hr hg hx
    obtain ⟨b, hnone', hfault', hbegins', hend', _⟩ :=
      tokensFrom_of_stray (s := s.withKeywords keywords) hc hr hg hx
    have hspan : b = a := hbegins.span_eq hbegins' fun hstart _ => by rw [hend', hend, hstart]
    rw [hfault, hfault', hspan, hnone, hnone']
    exact ⟨rfl, .nil⟩
  | unclosed c hc gap rest hr hg hq =>
    obtain ⟨a, hnone, hfault, hbegins, hend⟩ := tokensFrom_of_unclosed hc hr hg hq
    obtain ⟨b, hnone', hfault', hbegins', hend'⟩ :=
      tokensFrom_of_unclosed (s := s.withKeywords keywords) hc hr hg hq
    have hspan : b = a :=
      hbegins.span_eq hbegins' fun _ hcontent => by rw [hend', hend, hcontent]
    rw [hfault, hfault', hspan, hnone, hnone']
    exact ⟨rfl, .nil⟩
  | lexeme c hc gap l t next h ih =>
    obtain ⟨u, hreads, hu⟩ := h.withKeywords keywords hc
    rw [h.tokensFrom_eq, hreads.tokensFrom_eq]
    exact ⟨ih.1, .cons hu ih.2⟩

theorem tokens_withKeywords_error {fault : ScanFault} :
    (s.withKeywords keywords).tokens = .error fault ↔ s.tokens = .error fault := by
  have hfault := (tokensFrom_withKeywords keywords (Cursor.on_start s.text)).1
  rw [tokens_eq_error, tokens_eq_error]
  exact Eq.congr_left hfault

theorem tokens_withKeywords_ok (keywords : Keywords) {ts : List Token} (h : s.tokens = .ok ts) :
    ∃ us, (s.withKeywords keywords).tokens = .ok us ∧
      List.Forall₂ (Token.Relabeled s.keywords keywords) ts us := by
  obtain ⟨hnone, rfl⟩ := tokens_eq_ok.1 h
  obtain ⟨hfault, htokens⟩ :=
    tokensFrom_withKeywords keywords (Cursor.on_start s.text)
  exact ⟨_, tokens_eq_ok.2 ⟨hfault.trans hnone, rfl⟩, htokens⟩

/-- Only what a table says of words counts. -/
theorem tokens_withKeywords_congr
    (h : ∀ word, isWord word = true → s.keywords.kindOf word = keywords.kindOf word) :
    (s.withKeywords keywords).tokens = s.tokens := by
  cases hs : s.tokens with
  | error fault => exact tokens_withKeywords_error.2 hs
  | ok ts =>
    obtain ⟨us, hus, hlabels⟩ := tokens_withKeywords_ok keywords hs
    have hsame : List.Forall₂ (fun t u => t = u) ts us :=
      hlabels.imp fun t u hu => (hu.same (h t.lexeme)).symm
    rw [List.forall₂_eq_eq_eq] at hsame
    rw [hus, hsame]

end Source

/-- Two tables of keywords for the same text. Both read it, or both refuse it with the same error.
If they read it, they give tokens with the same texts and spans, one for one; of a word each gives
the kind that the table says, and only where the tables say different kinds of a word can two tokens
differ, in that kind and the value that goes with it. And an entry that is no word counts for
nothing: tables with the same entries for words, in the same order, are alike. -/
theorem keywords_relabel (s : Source) (keywords : Keywords) :
    (∀ fault, (s.withKeywords keywords).tokens = .error fault ↔ s.tokens = .error fault) ∧
    (∀ ts, s.tokens = .ok ts → ∃ us, (s.withKeywords keywords).tokens = .ok us ∧
      List.Forall₂ (Token.Relabeled s.keywords keywords) ts us) ∧
    (s.keywords.filter (fun e => isWord e.1) = keywords.filter (fun e => isWord e.1) →
      (s.withKeywords keywords).tokens = s.tokens) := by
  refine ⟨fun _ => Source.tokens_withKeywords_error,
    fun _ h => Source.tokens_withKeywords_ok keywords h, fun hfilter => ?_⟩
  apply Source.tokens_withKeywords_congr
  intro word hword
  rw [← Keywords.kindOf_filter s.keywords hword, hfilter, Keywords.kindOf_filter keywords hword]

/-- A keyword, a name, and a name that begins like a keyword. -/
def threeWords : Source :=
  .ofText "if x if_1" "words" .standard

/-- The first word is a name and the second a truth value. -/
def ownWords : Keywords :=
  [("x", .trueWord), ("1", .plus), ("if ", .minus)]

/-- The standard keywords behind two entries that are no words. -/
def paddedWords : Keywords :=
  ("+", .minus) :: ("", .number) :: Keywords.standard

/-- The kinds and values of two words change, the third word and the error at a stray character do
not, and entries such as `+` change nothing. -/
theorem keywords_relabel_ownWords :
    (∃ ts us, threeWords.tokens = .ok ts ∧ (threeWords.withKeywords ownWords).tokens = .ok us ∧
      ts.map (fun t => (t.kind, t.value)) =
        [(.ifWord, .null), (.identifier, .text "x"), (.identifier, .text "if_1")] ∧
      us.map (fun t => (t.kind, t.value)) =
        [(.identifier, .text "if"), (.trueWord, .bool true), (.identifier, .text "if_1")] ∧
      List.Forall₂ (Token.Relabeled .standard ownWords) ts us) ∧
    (∃ fault, (threeWords.given "if @".toList).tokens = .error fault ∧
      ((threeWords.given "if @".toList).withKeywords ownWords).tokens = .error fault) ∧
    (threeWords.withKeywords paddedWords).tokens =
      threeWords.tokens := by
  have hf : threeWords.lexing.fault = none := by decide +kernel
  have hstray : (threeWords.given "if @".toList).lexing.fault = some (.lexical
      (.unknownCharacter '@' ⟨1, 3, 4, "words", "if @", by decide, by decide⟩)) := by
    decide +kernel
  have hts := Source.tokens_eq_ok.2 ⟨hf, rfl⟩
  have herror := Source.tokens_eq_error.2 hstray
  obtain ⟨_, hok, _⟩ := keywords_relabel threeWords ownWords
  obtain ⟨us, hus, hlabels⟩ := hok _ hts
  obtain ⟨_, rfl⟩ := Source.tokens_eq_ok.1 hus
  obtain ⟨hfault, _, _⟩ := keywords_relabel (threeWords.given "if @".toList) ownWords
  obtain ⟨_, _, halike⟩ := keywords_relabel threeWords paddedWords
  exact ⟨⟨_, _, hts, hus, by decide +kernel, by decide +kernel, hlabels⟩,
    ⟨_, herror, (hfault _).2 herror⟩, halike rfl⟩

end FrontEnd
