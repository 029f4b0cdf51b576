import FrontEnd.Proofs.Faults

namespace FrontEnd

namespace Text

variable {before cs after : List Char} {i : Nat}

theorem feeds_block (h : i ≤ cs.length) :
    feeds (before ++ (cs ++ after)) (before.length + i) = before.count '\n' + feeds cs i := by
  simp only [feeds, List.take_length_add_append, List.take_append_of_le_length h,
    List.count_append]

theorem lineStart_block (hb : ∀ c ∈ before.getLast?, c = '\n') (h : i ≤ cs.length) :
    lineStart (before ++ (cs ++ after)) (before.length + i) = before.length + lineStart cs i := by
  induction i with
  | zero =>
    rcases List.eq_nil_or_concat before with rfl | ⟨front, c, rfl⟩
    · rfl
    · have hc : c = '\n' := hb c (by simp)
      simp [lineStart, hc]
  | succ i ih =>
    have hget : (before ++ (cs ++ after))[before.length + i]? = cs[i]? := by
      rw [List.getElem?_append_right (Nat.le_add_right _ _), Nat.add_sub_cancel_left,
        List.getElem?_append_left h]
    rw [← Nat.add_assoc, lineStart, lineStart, hget]
    split
    · rfl
    · exact ih (by omega)

theorem takeWhile_block (ha : ∀ c ∈ after.head?, c = '\n') (cs : List Char) :
    (cs ++ after).takeWhile (· ≠ '\n') = cs.takeWhile (· ≠ '\n') := by
  have hnone : after.takeWhile (· ≠ '\n') = [] := by
    cases after with
    | nil => rfl
    | cons c rest => simp [ha c rfl]
  rw [List.takeWhile_append, hnone, List.append_nil]
  split
  · rename_i hlen
    exact ((List.takeWhile_prefix _).eq_of_length hlen).symm
  · rfl

/-- A line of the block is a line of the whole text. -/
theorem lineAround_block (hb : ∀ c ∈ before.getLast?, c = '\n')
    (ha : ∀ c ∈ after.head?, c = '\n') (h : i ≤ cs.length) :
    lineAround (before ++ (cs ++ after)) (before.length + i) = lineAround cs i := by
  have hle := lineStart_le cs i
  rw [lineAround, lineStart_block hb h, List.drop_length_add_append,
    List.drop_append_of_le_length (by omega), takeWhile_block ha]
  rfl

end Text

open Text

/-- The same columns so many lines further down. -/
def Span.below (k : Nat) (s : Span) : Span :=
  { s with line := s.line + k, line_pos := Nat.le_add_right_of_le s.line_pos }

def Token.below (k : Nat) (t : Token) : Token :=
  { t with span := t.span.below k }

def LexicalError.below (k : Nat) : LexicalError → LexicalError
  | unknownCharacter c span => unknownCharacter c (span.below k)
  | unterminatedString span => unterminatedString (span.below k)

theorem LexicalError.below_zero (e : LexicalError) : e.below 0 = e := by
  cases e <;> rfl

/-- What comes behind a lexeme matters by its first character only. -/
theorem Lexeme.stops_congr (l : Lexeme) {after after' : List Char}
    (h : after.head? = after'.head?) : l.Stops after ↔ l.Stops after' := by
  cases l <;> simp [Stops, h]

namespace Source

/-- The same name and the same keywords for another text. -/
def given (s : Source) (text : List Char) : Source where
  name := s.name
  text := text
  keywords := s.keywords

/-- In the text of `whole` the text of `s` is a block of whole lines. -/
structure Block (whole s : Source) (before after : List Char) : Prop where
  name : whole.name = s.name
  keywords : whole.keywords = s.keywords
  text : whole.text = before ++ (s.text ++ after)
  opens : ∀ c ∈ before.getLast?, c = '\n'
  closes : ∀ c ∈ after.head?, c = '\n'

variable {whole s : Source} {before after gap rest : List Char} {i j j' : Nat} {a b : Span}
  {t u : Token} {l : Lexeme} {c c' next : Cursor} {e : LexicalError}

/-- Spans that begin at the same character, and end alike, differ by the lines before the block. -/
theorem Block.span_eq (hb : whole.Block s before after) (h : s.Begins i a)
    (h' : whole.Begins (before.length + i) b) (hi : i ≤ s.text.length)
    (he : b.startColumn = a.startColumn → b.lineContent = a.lineContent →
      b.endColumn = a.endColumn) : b = a.below (before.count '\n') := by
  have hname : b.filename = a.filename := by rw [h'.filename, h.filename, hb.name]
  have hline : b.line = a.line + before.count '\n' := by
    rw [h'.line, h.line, hb.text, feeds_block hi]
    omega
  have hstart : b.startColumn = a.startColumn := by
    rw [h'.startColumn, h.startColumn, hb.text, lineStart_block hb.opens hi, Nat.add_sub_add_left]
  have hcontent : b.lineContent = a.lineContent := by
    rw [h'.lineContent, h.lineContent, hb.text, lineAround_block hb.opens hb.closes hi]
  have hplace : b = { a.below (before.count '\n') with lineContent := b.lineContent } :=
    Span.eq_showing hname hline hstart (he hstart hcontent)
  rw [hplace, hcontent]
  rfl

theorem Placed.begins (h : s.Placed i j t) : s.Begins i t.span :=
  ⟨h.filename, h.line, h.startColumn, h.lineContent⟩

/-- The token of a lexeme that stands in a block. -/
theorem Block.token_eq (hb : whole.Block s before after) (h : s.Placed i j t)
    (h' : whole.Placed (before.length + i) j' u) (hd : l.Denotes s.keywords t)
    (hd' : l.Denotes whole.keywords u) : u = t.below (before.count '\n') := by
  have hpos := h.nonempty
  have hle := h.within
  have hu := hd.eq_withSpan ⟨hd'.kind.trans (by rw [hb.keywords]), hd'.lexeme,
    hd'.value.trans (by rw [hb.keywords])⟩
  have hspan : u.span = t.span.below (before.count '\n') := by
    refine hb.span_eq h.begins h'.begins (by omega) fun hstart hcontent => ?_
    rw [h'.endColumn, h.endColumn, hd'.lexeme, hd.lexeme, hstart, hcontent]
  rw [hu, hspan]
  rfl

/-- At the same character, the rest of the block is followed by what is behind it. -/
theorem Block.rest_eq (hb : whole.Block s before after) (hc : c.On s.text)
    (hc' : c'.On whole.text) (ho : c'.position.offset = before.length + c.position.offset) :
    c'.rest = c.rest ++ after := by
  rw [← hc'.rest, hb.text, ho, List.drop_length_add_append,
    List.drop_append_of_le_length hc.le_length, hc.rest]

/-- A lexeme of the block is read in the whole text. -/
theorem Reads.block (hb : whole.Block s before after) (hc : c.On s.text) (hc' : c'.On whole.text)
    (ho : c'.position.offset = before.length + c.position.offset)
    (h : s.Reads c gap l t next) :
    ∃ next', whole.Reads c' gap l (t.below (before.count '\n')) next' ∧
      next'.position.offset = before.length + next.position.offset := by
  have hrest : c'.rest = gap ++ (l.chars ++ (next.rest ++ after)) := by
    rw [hb.rest_eq hc hc' ho, h.rest]
    simp
  have hstops : l.Stops (next.rest ++ after) := by
    cases hn : next.rest with
    | nil =>
      apply l.stops_of_blank
      intro x hx
      rw [hb.closes x hx]
      rfl
    | cons x more =>
      have hhead : (x :: more ++ after).head? = next.rest.head? := by rw [hn]; rfl
      exact (l.stops_congr hhead).2 h.stops
  obtain ⟨u, next', hreads, _⟩ := tokensFrom_of_lexeme hc' hrest h.blank hstops
  have hplaced := hreads.placed
  rw [ho, Nat.add_assoc] at hplaced
  have hu := hb.token_eq h.placed hplaced h.denotes hreads.denotes
  refine ⟨next', hu ▸ hreads, ?_⟩
  rw [hreads.offset, h.offset, ho]
  omega

/-- White space may be passed before reading. -/
theorem tokensFrom_gap (hr : c.rest = gap ++ rest) (hg : ∀ x ∈ gap, isBlank x = true) :
    s.tokensFrom c = s.tokensFrom ⟨c.position.afterAll gap, rest⟩ := by
  have hskip : c.skipWhile isBlank =
      Cursor.skipWhile ⟨c.position.afterAll gap, rest⟩ isBlank := by
    simp only [Cursor.skipWhile, hr, List.takeWhile_append_of_pos hg,
      List.dropWhile_append_of_pos hg, Position.afterAll, List.foldl_append]
  rw [tokensFrom.eq_1 s c, tokensFrom.eq_1 s ⟨_, rest⟩, hskip]

/-- A block that can be read alone is read in the whole text, and reading goes on behind it. -/
theorem tokensFrom_block (hb : whole.Block s before after) (hc : c.On s.text)
    (hc' : c'.On whole.text) (ho : c'.position.offset = before.length + c.position.offset)
    (hf : (s.tokensFrom c).fault = none) :
    ∃ d : Cursor, d.On whole.text ∧ d.position.offset = before.length + s.text.length ∧
      whole.tokensFrom c' = { whole.tokensFrom d with
        tokens := (s.tokensFrom c).tokens.map (Token.below (before.count '\n')) ++
          (whole.tokensFrom d).tokens } := by
  induction c, hc using tokensFrom_induction generalizing c' with
  | blank c hc hblank =>
    have hrest := hb.rest_eq hc hc' ho
    have hlen := congrArg List.length hc.rest
    have hle := hc.le_length
    refine ⟨⟨c'.position.afterAll c.rest, after⟩, hc'.afterAll hrest, ?_, ?_⟩
    · simp only [List.length_drop] at hlen
      rw [Position.afterAll_offset]
      omega
    · rw [tokensFrom_of_blank hblank, tokensFrom_gap hrest hblank]
      rfl
  | stray c hc gap x rest hr hg hx =>
    obtain ⟨_, _, hfault, _⟩ := tokensFrom_of_stray hc hr hg hx
    rw [hfault] at hf
    cases hf
  | unclosed c hc gap rest hr hg hq =>
    obtain ⟨_, _, hfault, _⟩ := tokensFrom_of_unclosed hc hr hg hq
    rw [hfault] at hf
    cases hf
  | lexeme c hc gap l t next h ih =>
    obtain ⟨next', hreads, hoff⟩ := h.block hb hc hc' ho
    rw [h.tokensFrom_eq] at hf ⊢
    obtain ⟨d, hd, hdo, hmore⟩ := ih hreads.on hoff hf
    refine ⟨d, hd, hdo, ?_⟩
    rw [hreads.tokensFrom_eq, hmore]
    rfl

/-- What is refused in a block is refused in the whole text, unless it is a string that is closed
behind the block. -/
theorem tokensFrom_block_error (hb : whole.Block s before after) (hc : c.On s.text)
    (hc' : c'.On whole.text) (ho : c'.position.offset = before.length + c.position.offset)
    (hf : (s.tokensFrom c).fault = some (.lexical e)) (he : e.code = "L001" ∨ after = []) :
    (whole.tokensFrom c').fault = some (.lexical (e.below (before.count '\n'))) := by
  induction c, hc using tokensFrom_induction generalizing c' with
  | blank c hc hblank =>
    rw [tokensFrom_of_blank hblank] at hf
    cases hf
  | stray c hc gap x rest hr hg hx =>
    have hrest : c'.rest = gap ++ x :: (rest ++ after) := by
      rw [hb.rest_eq hc hc' ho, hr]
      simp
    have hle := congrArg List.length (hc.rest.trans hr)
    simp only [List.length_drop, List.length_append] at hle
    obtain ⟨span, _, hfault, hbegins, hend, _⟩ := tokensFrom_of_stray hc hr hg hx
    obtain ⟨span', _, hfault', hbegins', hend', _⟩ := tokensFrom_of_stray hc' hrest hg hx
    rw [ho, Nat.add_assoc] at hbegins'
    have hspan : span' = span.below (before.count '\n') := by
      refine hb.span_eq hbegins hbegins' ?_ fun hstart _ => by rw [hend', hend, hstart]
      have := hc.le_length
      omega
    rw [hfault] at hf
    cases hf
    rw [hfault', hspan]
    rfl
  | unclosed c hc gap rest hr hg hq =>
    obtain ⟨span, _, hfault, hbegins, hend⟩ := tokensFrom_of_unclosed hc hr hg hq
    rw [hfault] at hf
    cases hf
    have hafter : after = [] := he.resolve_left (by simp [LexicalError.code])
    have hrest : c'.rest = gap ++ '"' :: rest := by
      rw [hb.rest_eq hc hc' ho, hr, hafter, List.append_nil]
    have hle := congrArg List.length (hc.rest.trans hr)
    simp only [List.length_drop, List.length_append] at hle
    obtain ⟨span', _, hfault', hbegins', hend'⟩ := tokensFrom_of_unclosed hc' hrest hg hq
    rw [ho, Nat.add_assoc] at hbegins'
    have hspan : span' = span.below (before.count '\n') := by
      refine hb.span_eq hbegins hbegins' ?_ fun _ hcontent => by rw [hend', hend, hcontent]
      have := hc.le_length
      omega
    rw [hfault', hspan]
    rfl
  | lexeme c hc gap l t next h ih =>
    obtain ⟨next', hreads, hoff⟩ := h.block hb hc hc' ho
    rw [h.tokensFrom_eq] at hf
    rw [hreads.tokensFrom_eq]
    exact ih hreads.on hoff hf

/-- The text in front of a line feed. -/
theorem block_front (s : Source) (xs ys : List Char) :
    (s.given (xs ++ '\n' :: ys)).Block (s.given xs) [] ('\n' :: ys) where
  name := rfl
  keywords := rfl
  text := rfl
  opens := by simp
  closes := by simp

/-- The text behind a line feed. -/
theorem block_back (s : Source) (xs ys : List Char) :
    (s.given (xs ++ '\n' :: ys)).Block (s.given ys) (xs ++ ['\n']) [] where
  name := rfl
  keywords := rfl
  text := by simp [given]
  opens := by simp
  closes := by simp

variable {xs ys : List Char} {ts us : List Token}

/-- What is read in front of a line feed stays, and behind it reading goes on. -/
theorem lexing_front (ys : List Char) (hf : (s.given xs).lexing.fault = none) :
    ∃ d : Cursor, d.On (xs ++ '\n' :: ys) ∧ d.position.offset = (xs ++ ['\n']).length ∧
      (s.given (xs ++ '\n' :: ys)).lexing =
        { (s.given (xs ++ '\n' :: ys)).tokensFrom d with
          tokens := (s.given xs).lexing.tokens ++
            ((s.given (xs ++ '\n' :: ys)).tokensFrom d).tokens } := by
  have hc : (s.given xs).start.On xs := Cursor.on_start xs
  have hc' : (s.given (xs ++ '\n' :: ys)).start.On (xs ++ '\n' :: ys) := Cursor.on_start _
  obtain ⟨d, hd, ho, hlexing⟩ := tokensFrom_block (s.block_front xs ys) hc hc' rfl hf
  have hoff : d.position.offset = xs.length := by
    rw [ho]
    exact Nat.zero_add _
  have hrest : d.rest = '\n' :: ys := by
    rw [← hd.rest, hoff]
    exact List.drop_left
  have hblank : ∀ x ∈ ['\n'], isBlank x = true := by
    intro x hx
    rw [List.mem_singleton.1 hx]
    rfl
  refine ⟨_, hd.after hrest, ?_, ?_⟩
  · simp [Position.after_offset, hoff]
  · have hmap : (s.given xs).lexing.tokens.map (Token.below (List.count '\n' [])) =
        (s.given xs).lexing.tokens := List.map_id _
    have hgap : (s.given (xs ++ '\n' :: ys)).tokensFrom d =
        (s.given (xs ++ '\n' :: ys)).tokensFrom ⟨d.position.after '\n', ys⟩ :=
      tokensFrom_gap hrest hblank
    rw [hgap] at hlexing
    rw [← hmap]
    exact hlexing

/-- Line feeds up to and with the one at which the texts are put together. -/
theorem count_front (xs : List Char) : (xs ++ ['\n']).count '\n' = 1 + xs.count '\n' := by
  rw [List.count_append, Nat.add_comm]
  rfl

theorem tokens_append_ok (hx : (s.given xs).tokens = .ok ts) (hy : (s.given ys).tokens = .ok us) :
    (s.given (xs ++ '\n' :: ys)).tokens =
      .ok (ts ++ us.map (Token.below (1 + xs.count '\n'))) := by
  obtain ⟨hfx, rfl⟩ := tokens_eq_ok.1 hx
  obtain ⟨hfy, rfl⟩ := tokens_eq_ok.1 hy
  obtain ⟨d, hd, ho, hlexing⟩ := lexing_front ys hfx
  have hc : (s.given ys).start.On ys := Cursor.on_start ys
  obtain ⟨stop, hstop, hso, hmore⟩ := tokensFrom_block (s.block_back xs ys) hc hd ho hfy
  have hrest : stop.rest = [] := by
    rw [← hstop.rest, hso]
    apply List.drop_of_length_le
    simp [given]
    omega
  have hend : (s.given (xs ++ '\n' :: ys)).tokensFrom stop =
      ⟨[], ⟨stop.position.afterAll stop.rest, []⟩, none⟩ := tokensFrom_of_blank (by simp [hrest])
  rw [hend, count_front] at hmore
  apply tokens_eq_ok.2
  rw [hlexing, hmore]
  exact ⟨rfl, by simp [lexing]⟩

theorem tokens_append_error (hx : (s.given xs).tokens = .ok ts)
    (hy : (s.given ys).tokens = .error (.lexical e)) :
    (s.given (xs ++ '\n' :: ys)).tokens =
      .error (.lexical (e.below (1 + xs.count '\n'))) := by
  obtain ⟨hfx, rfl⟩ := tokens_eq_ok.1 hx
  obtain ⟨d, hd, ho, hlexing⟩ := lexing_front ys hfx
  have hc : (s.given ys).start.On ys := Cursor.on_start ys
  have hfault := tokensFrom_block_error (s.block_back xs ys) hc hd ho (tokens_eq_error.1 hy)
    (.inr rfl)
  apply tokens_eq_error.2
  rw [hlexing, ← count_front]
  exact hfault

theorem tokens_append_stray (hx : (s.given xs).tokens = .error (.lexical e))
    (he : e.code = "L001") : (s.given (xs ++ '\n' :: ys)).tokens = .error (.lexical e) := by
  have hc : (s.given xs).start.On xs := Cursor.on_start xs
  have hc' : (s.given (xs ++ '\n' :: ys)).start.On (xs ++ '\n' :: ys) := Cursor.on_start _
  have hfault := tokensFrom_block_error (s.block_front xs ys) hc hc' rfl (tokens_eq_error.1 hx)
    (.inl he)
  apply tokens_eq_error.2
  rw [← e.below_zero]
  exact hfault

end Source

theorem LexicalError.message_below {e : LexicalError} (k : Nat) (he : e.code = "L002") :
    (e.below k).message =
      "Unterminated string literal starting on line " ++ toString (e.span.line + k) := by
  cases e with
  | unknownCharacter c span => simp [LexicalError.code] at he
  | unterminatedString span => rfl

/-- Two texts put together at a line feed. If the first can be read, its tokens stay as they are;
behind them come those of the second text, or its error, on later lines by as many as the first text
and the line feed make. If the first text is refused for a character, so is the whole, with the same
error. -/
theorem tokens_joined (s : Source) (xs ys : List Char) :
    (∀ ts, (s.given xs).tokens = .ok ts →
      ((∃ vs, (s.given (xs ++ '\n' :: ys)).tokens = .ok vs) ↔
        ∃ us, (s.given ys).tokens = .ok us) ∧
      (∀ us, (s.given ys).tokens = .ok us → (s.given (xs ++ '\n' :: ys)).tokens =
        .ok (ts ++ us.map (Token.below (1 + xs.count '\n')))) ∧
      ∀ fault, (s.given ys).tokens = .error fault → ∃ e, fault = .lexical e ∧
        (s.given (xs ++ '\n' :: ys)).tokens =
          .error (.lexical (e.below (1 + xs.count '\n'))) ∧
        (e.code = "L002" → (e.below (1 + xs.count '\n')).message =
          "Unterminated string literal starting on line " ++
            toString (e.span.line + (1 + xs.count '\n')))) ∧
    ∀ e, (s.given xs).tokens = .error (.lexical e) → e.code = "L001" →
      (s.given (xs ++ '\n' :: ys)).tokens = .error (.lexical e) := by
  refine ⟨fun ts hx => ⟨?_, fun us hy => Source.tokens_append_ok hx hy, fun fault hy => ?_⟩,
    fun e hx he => Source.tokens_append_stray hx he⟩
  · constructor
    · intro h
      obtain ⟨vs, hv⟩ := h
      cases hy : (s.given ys).tokens with
      | ok us => exact ⟨us, rfl⟩
      | error fault =>
        obtain ⟨e, rfl⟩ := Source.tokens_error hy
        rw [Source.tokens_append_error hx hy] at hv
        cases hv
    · intro h
      obtain ⟨us, hy⟩ := h
      exact ⟨_, Source.tokens_append_ok hx hy⟩
  · obtain ⟨e, rfl⟩ := Source.tokens_error hy
    exact ⟨e, rfl, Source.tokens_append_error hx hy, LexicalError.message_below _⟩

/-- The string of the first text runs over its two lines. -/
def splitString : List Char :=
  "x = \"p\r\nq\"".toList

/-- Behind two lines the third is read as it is alone, and its string that is not closed is found
there. -/
theorem tokens_joined_splitString :
    (∃ ts us, (twoLines.given splitString).tokens = .ok ts ∧
      (twoLines.given "y".toList).tokens = .ok us ∧
      (twoLines.given (splitString ++ '\n' :: "y".toList)).tokens =
        .ok (ts ++ us.map (Token.below 2))) ∧
    (∃ e, (twoLines.given " \"r".toList).tokens = .error (.lexical e) ∧ e.span.line = 1 ∧
      (twoLines.given (splitString ++ '\n' :: " \"r".toList)).tokens =
        .error (.lexical (e.below 2)) ∧
      (e.below 2).message = "Unterminated string literal starting on line 3") ∧
    ∃ e, (twoLines.given "x @".toList).tokens = .error (.lexical e) ∧
      (twoLines.given ("x @".toList ++ '\n' :: "y".toList)).tokens = .error (.lexical e) := by
  have hfront : (twoLines.given splitString).lexing.fault = none := by decide +kernel
  have hback : (twoLines.given "y".toList).lexing.fault = none := by decide +kernel
  have hopen : (twoLines.given " \"r".toList).lexing.fault = some (.lexical (.unterminatedString
      ⟨1, 1, 3, "lines", " \"r", by decide, by decide⟩)) := by decide +kernel
  have hstray : (twoLines.given "x @".toList).lexing.fault = some (.lexical (.unknownCharacter '@'
      ⟨1, 2, 3, "lines", "x @", by decide, by decide⟩)) := by decide +kernel
  have hx := Source.tokens_eq_ok.2 ⟨hfront, rfl⟩
  have hy := Source.tokens_eq_ok.2 ⟨hback, rfl⟩
  have ho := Source.tokens_eq_error.2 hopen
  have hs := Source.tokens_eq_error.2 hstray
  obtain ⟨_, hok, _⟩ := (tokens_joined twoLines splitString "y".toList).1 _ hx
  obtain ⟨_, _, herror⟩ := (tokens_joined twoLines splitString " \"r".toList).1 _ hx
  obtain ⟨e, he, hjoined, hmessage⟩ := herror _ ho
  cases he
  exact ⟨⟨_, _, hx, hy, hok _ hy⟩, ⟨_, ho, rfl, hjoined, hmessage rfl⟩, _, hs,
    (tokens_joined twoLines "x @".toList "y".toList).2 _ hs rfl⟩

end FrontEnd
