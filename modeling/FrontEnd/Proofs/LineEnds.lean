import FrontEnd.Proofs.Blocks

namespace FrontEnd

namespace Text

/-- The same lines with a carriage return before every line feed, whether or not there was one. -/
def withReturns (cs : List Char) : List Char :=
  cs.flatMap fun c => if c = '\n' then ['\r', '\n'] else [c]

variable {text cs rest line : List Char} {c : Char} {i : Nat}

theorem withReturns_append (xs ys : List Char) :
    withReturns (xs ++ ys) = withReturns xs ++ withReturns ys :=
  List.flatMap_append

theorem withReturns_feed (cs : List Char) :
    withReturns ('\n' :: cs) = '\r' :: '\n' :: withReturns cs := by
  simp [withReturns]

theorem withReturns_cons (hc : c ≠ '\n') (cs : List Char) :
    withReturns (c :: cs) = c :: withReturns cs := by
  simp [withReturns, hc]

theorem mem_withReturns (hc : c ≠ '\r') : c ∈ withReturns cs ↔ c ∈ cs := by
  induction cs with
  | nil => rfl
  | cons x cs ih =>
    by_cases hx : x = '\n'
    · subst hx
      simp [withReturns_feed, hc, ih]
    · simp [withReturns_cons hx, ih]

theorem newline_mem_withReturns : '\n' ∈ withReturns cs ↔ '\n' ∈ cs :=
  mem_withReturns (by decide)

theorem quote_mem_withReturns : '"' ∈ withReturns cs ↔ '"' ∈ cs :=
  mem_withReturns (by decide)

theorem withReturns_quote (cs : List Char) : withReturns ('"' :: cs) = '"' :: withReturns cs :=
  withReturns_cons (by decide) cs

theorem withReturns_eq_self (h : '\n' ∉ cs) : withReturns cs = cs := by
  induction cs with
  | nil => rfl
  | cons x cs ih =>
    simp only [List.mem_cons, not_or] at h
    rw [withReturns_cons (Ne.symm h.1), ih h.2]

theorem count_withReturns (cs : List Char) : (withReturns cs).count '\n' = cs.count '\n' := by
  induction cs with
  | nil => rfl
  | cons x cs ih =>
    by_cases hx : x = '\n'
    · subst hx
      simp [withReturns_feed, ih]
    · simp [withReturns_cons hx, List.count_cons, ih]

theorem isBlank_withReturns (h : ∀ x ∈ cs, isBlank x = true) :
    ∀ x ∈ withReturns cs, isBlank x = true := by
  intro x hx
  by_cases hr : x = '\r'
  · exact hr ▸ rfl
  · exact h x ((mem_withReturns hr).1 hx)

/-- What stands before a place on its line is the same. -/
theorem takeWhile_reverse_withReturns (cs : List Char) :
    (withReturns cs).reverse.takeWhile (· ≠ '\n') = cs.reverse.takeWhile (· ≠ '\n') := by
  induction cs using List.reverseRecOn with
  | nil => rfl
  | append_singleton cs c ih =>
    rw [withReturns_append]
    by_cases hc : c = '\n'
    · subst hc
      simp [withReturns]
    · have hone : withReturns [c] = [c] := withReturns_cons hc []
      simp only [hone, List.reverse_append, List.reverse_singleton, List.singleton_append]
      rw [List.takeWhile_cons, List.takeWhile_cons, ih]

/-- A carriage return stays only before a character that does. -/
theorem trimReturns_cons (c : Char) (line : List Char) :
    trimReturns (c :: line) =
      if trimReturns line = [] ∧ c = '\r' then [] else c :: trimReturns line := by
  by_cases hline : trimReturns line = []
  · have hall : line.reverse.dropWhile (· = '\r') = [] := List.reverse_eq_nil_iff.1 hline
    by_cases hc : c = '\r'
    · simp [trimReturns, List.dropWhile_append, hall, hc]
    · simp [trimReturns, List.dropWhile_append, hall, hc]
  · have hsome : line.reverse.dropWhile (· = '\r') ≠ [] := fun h => hline (by simp [trimReturns, h])
    rw [if_neg fun h => hline h.1]
    simp only [trimReturns, List.reverse_cons, List.dropWhile_append]
    rw [if_neg (by simpa using hsome)]
    simp

/-- No line is shown any differently. -/
theorem lines_withReturns (cs : List Char) : lines (withReturns cs) = lines cs := by
  have hshown :
      (splitLines (withReturns cs)).map trimReturns = (splitLines cs).map trimReturns := by
    induction cs with
    | nil => rfl
    | cons c cs ih =>
      by_cases hc : c = '\n'
      · subst hc
        simpa [withReturns_feed, splitLines, trimReturns] using ih
      · rw [withReturns_cons hc]
        cases h : splitLines cs with
        | nil => exact absurd h (splitLines_ne_nil cs)
        | cons line more =>
          cases h' : splitLines (withReturns cs) with
          | nil => exact absurd h' (splitLines_ne_nil _)
          | cons line' more' =>
            rw [h, h', List.map_cons, List.map_cons, List.cons.injEq] at ih
            simp only [splitLines, if_neg hc, h, h', List.map_cons, trimReturns_cons, ih]
  have hlines := congrArg (List.map String.ofList) hshown
  simp only [List.map_map] at hlines
  exact congrArg List.toArray hlines

/-- Where the character at offset `i` is once the carriage returns are put in. -/
def shifted (text : List Char) (i : Nat) : Nat :=
  (withReturns (text.take i)).length

theorem withReturns_split (text : List Char) (i : Nat) :
    withReturns text = withReturns (text.take i) ++ withReturns (text.drop i) := by
  rw [← withReturns_append, List.take_append_drop]

theorem take_shifted (text : List Char) (i : Nat) :
    (withReturns text).take (shifted text i) = withReturns (text.take i) := by
  rw [withReturns_split text i]
  exact List.take_left

theorem drop_shifted (text : List Char) (i : Nat) :
    (withReturns text).drop (shifted text i) = withReturns (text.drop i) := by
  rw [withReturns_split text i]
  exact List.drop_left

theorem shifted_le (text : List Char) (i : Nat) : shifted text i ≤ (withReturns text).length := by
  rw [withReturns_split text i, List.length_append]
  exact Nat.le_add_right _ _

theorem shifted_add (h : text.drop i = cs ++ rest) :
    shifted text (i + cs.length) = shifted text i + (withReturns cs).length := by
  rw [shifted, List.take_add, h, List.take_left, withReturns_append, List.length_append]
  rfl

theorem feeds_shifted (text : List Char) (i : Nat) :
    feeds (withReturns text) (shifted text i) = feeds text i := by
  rw [feeds, take_shifted, count_withReturns]
  rfl

/-- A carriage return that is put in stands behind everything on its line. -/
theorem column_shifted (h : i ≤ text.length) :
    shifted text i - lineStart (withReturns text) (shifted text i) = i - lineStart text i := by
  rw [sub_lineStart (shifted_le text i), take_shifted, takeWhile_reverse_withReturns,
    ← sub_lineStart h]

end Text

open Text

/-- Only a text can hold line feeds. -/
def Scalar.withReturns : Scalar → Scalar
  | text value => text (String.ofList (Text.withReturns value.toList))
  | value => value

def Token.withReturns (t : Token) : Token :=
  { t with
    lexeme := String.ofList (Text.withReturns t.lexeme.toList)
    value := t.value.withReturns }

namespace Lexeme

variable {l : Lexeme} {keywords : Keywords} {t u : Token} {after : List Char}

/-- Only a string can run over a line end. -/
def withReturns : Lexeme → Lexeme
  | quoted inner closes =>
    quoted (Text.withReturns inner) fun h => closes (quote_mem_withReturns.1 h)
  | l => l

theorem chars_withReturns (l : Lexeme) : l.withReturns.chars = Text.withReturns l.chars := by
  by_cases h : l.shape = .quoted
  · cases l <;> cases h
    simp only [withReturns, chars]
    rw [withReturns_quote, withReturns_append]
    rfl
  · rw [withReturns_eq_self (newline_not_mem h)]
    cases l <;> first | rfl | exact absurd rfl h

theorem kind_withReturns (l : Lexeme) : l.withReturns.kind keywords = l.kind keywords := by
  cases l <;> rfl

theorem value_withReturns (l : Lexeme) :
    l.withReturns.value keywords = (l.value keywords).withReturns := by
  cases l with
  | word first more starts goesOn =>
    have hflat : '\n' ∉ first :: more :=
      newline_not_mem (l := .word first more starts goesOn) (by simp [shape])
    simp only [withReturns, value]
    split
    · simp [Scalar.withReturns, withReturns_eq_self hflat]
    · split
      · rfl
      · split <;> rfl
  | number =>
    simp only [withReturns, value]
    split <;> rfl
  | quoted => simp [withReturns, value, Scalar.withReturns]
  | operator => rfl

theorem Denotes.withReturns_iff (h : l.Denotes keywords t) : l.withReturns.Denotes keywords u ↔
    u.kind = t.kind ∧ u.lexeme = t.withReturns.lexeme ∧ u.value = t.withReturns.value := by
  have hlexeme : t.withReturns.lexeme = String.ofList l.withReturns.chars := by
    rw [chars_withReturns, Token.withReturns, h.lexeme, String.toList_ofList]
  have hvalue : t.withReturns.value = l.withReturns.value keywords := by
    rw [value_withReturns, Token.withReturns, h.value]
  rw [h.kind, ← kind_withReturns, hlexeme, hvalue]
  constructor
  · intro hu
    exact ⟨hu.kind, hu.lexeme, hu.value⟩
  · intro hu
    exact ⟨hu.1, hu.2.1, hu.2.2⟩

/-- A line feed and a carriage return stop the same lexemes. -/
theorem Stops.withReturns (h : l.Stops after) : l.withReturns.Stops (Text.withReturns after) := by
  have hsame : l.Stops (Text.withReturns after) := by
    cases after with
    | nil => exact h
    | cons c more =>
      by_cases hc : c = '\n'
      · subst hc
        apply l.stops_of_blank
        intro x hx
        cases hx
        rfl
      · have hhead : (c :: Text.withReturns more).head? = (c :: more).head? := rfl
        rw [withReturns_cons hc]
        exact (l.stops_congr hhead).2 h
  cases l with
  | quoted => trivial
  | word => exact hsame
  | number => exact hsame
  | operator => exact hsame

end Lexeme

namespace Source

def withReturns (s : Source) : Source :=
  s.given (Text.withReturns s.text)

variable {s : Source} {c c' next : Cursor} {a b : Span} {t u : Token} {l : Lexeme} {i j j' : Nat}
  {gap rest : List Char}

/-- Spans that begin at the same character, and end alike, are the same. -/
theorem Begins.withReturns (h : s.Begins i a) (h' : s.withReturns.Begins (shifted s.text i) b)
    (hi : i ≤ s.text.length)
    (he : b.startColumn = a.startColumn → b.lineContent = a.lineContent →
      b.endColumn = a.endColumn) : b = a := by
  have hname : b.filename = a.filename := h'.filename.trans h.filename.symm
  have hline : b.line = a.line := by
    rw [h'.line, h.line]
    exact congrArg (1 + ·) (feeds_shifted s.text i)
  have hstart : b.startColumn = a.startColumn := by
    rw [h'.startColumn, h.startColumn]
    exact column_shifted hi
  have hcontent : b.lineContent = a.lineContent := by
    have hfeeds : feeds s.withReturns.text (shifted s.text i) = feeds s.text i :=
      feeds_shifted s.text i
    have hlines : s.withReturns.lines = s.lines := by
      rw [s.withReturns.lines_eq, s.lines_eq]
      exact lines_withReturns s.text
    have hshown := line_feeds (s := s.withReturns) (shifted_le s.text i)
    rw [h'.lineContent, h.lineContent, ← line_feeds hi, ← hshown, hfeeds, Source.line,
      Source.line, hlines]
  rw [Span.eq_showing hname hline hstart (he hstart hcontent), hcontent]

/-- The tokens of one lexeme in the two texts. -/
theorem Placed.withReturns (h : s.Placed i j t)
    (h' : s.withReturns.Placed (shifted s.text i) j' u) (hd : l.Denotes s.keywords t)
    (hd' : l.withReturns.Denotes s.keywords u) : u = t.withReturns := by
  obtain ⟨hkind, hlexeme, hvalue⟩ := hd.withReturns_iff.1 hd'
  have hchars : u.lexeme.toList = Text.withReturns t.lexeme.toList := by
    rw [hlexeme, Token.withReturns, String.toList_ofList]
  have hpos := h.nonempty
  have hle := h.within
  have hspan : u.span = t.span := by
    refine h.begins.withReturns h'.begins (by omega) fun hstart hcontent => ?_
    rw [h'.endColumn, h.endColumn, hstart, hcontent, hchars]
    by_cases hn : '\n' ∈ t.lexeme.toList
    · rw [if_pos hn, if_pos (newline_mem_withReturns.2 hn)]
    · rw [← String.length_toList (s := u.lexeme), hchars, withReturns_eq_self hn,
        String.length_toList]
  cases t
  cases u
  simp_all [Token.withReturns]

/-- At the same character the same is left, but for carriage returns. -/
theorem rest_withReturns (hc : c.On s.text) (hc' : c'.On s.withReturns.text)
    (ho : c'.position.offset = shifted s.text c.position.offset) :
    c'.rest = Text.withReturns c.rest := by
  rw [← hc'.rest, ho, ← hc.rest]
  exact drop_shifted s.text _

theorem Reads.withReturns (hc : c.On s.text) (hc' : c'.On s.withReturns.text)
    (ho : c'.position.offset = shifted s.text c.position.offset) (h : s.Reads c gap l t next) :
    ∃ next', s.withReturns.Reads c' (Text.withReturns gap) l.withReturns t.withReturns next' ∧
      next'.position.offset = shifted s.text next.position.offset := by
  have hrest : c'.rest = Text.withReturns gap ++
      (l.withReturns.chars ++ Text.withReturns next.rest) := by
    rw [rest_withReturns hc hc' ho, h.rest, withReturns_append, withReturns_append,
      Lexeme.chars_withReturns]
  have hbefore : s.text.drop c.position.offset = gap ++ (l.chars ++ next.rest) :=
    hc.rest.trans h.rest
  have hbehind : s.text.drop (c.position.offset + gap.length) = l.chars ++ next.rest := by
    rw [← List.drop_drop, hbefore, List.drop_left]
  have hgap := shifted_add hbefore
  have hnext := shifted_add hbehind
  obtain ⟨u, next', hreads, _⟩ :=
    tokensFrom_of_lexeme hc' hrest (isBlank_withReturns h.blank) h.stops.withReturns
  have hplaced := hreads.placed
  rw [ho, ← hgap] at hplaced
  have hu := h.placed.withReturns hplaced h.denotes hreads.denotes
  refine ⟨next', hu ▸ hreads, ?_⟩
  rw [hreads.offset, h.offset, ho, hnext, hgap, Lexeme.chars_withReturns]

/-- From the same character on, the same is read and the same is refused. -/
theorem tokensFrom_withReturns (hc : c.On s.text) (hc' : c'.On s.withReturns.text)
    (ho : c'.position.offset = shifted s.text c.position.offset) :
    (s.withReturns.tokensFrom c').fault = (s.tokensFrom c).fault ∧
      (s.withReturns.tokensFrom c').tokens =
        (s.tokensFrom c).tokens.map Token.withReturns := by
  induction c, hc using tokensFrom_induction generalizing c' with
  | blank c hc hblank =>
    have hblank' := isBlank_withReturns hblank
    rw [← rest_withReturns hc hc' ho] at hblank'
    rw [tokensFrom_of_blank hblank, tokensFrom_of_blank hblank']
    exact ⟨rfl, rfl⟩
  | stray c hc gap x rest hr hg hx =>
    have hn : x ≠ '\n' := ne_of_visible (isBlank_of_not_isLegal hx) rfl
    have hrest : c'.rest = Text.withReturns gap ++ x :: Text.withReturns rest := by
      rw [rest_withReturns hc hc' ho, hr, withReturns_append, withReturns_cons hn]
    have hbefore := hc.rest.trans hr
    have hle := congrArg List.length hbefore
    simp only [List.length_drop, List.length_append, List.length_cons] at hle
    obtain ⟨span, hnone, hfault, hbegins, hend, _⟩ := tokensFrom_of_stray hc hr hg hx
    obtain ⟨span', hnone', hfault', hbegins', hend', _⟩ :=
      tokensFrom_of_stray hc' hrest (isBlank_withReturns hg) hx
    rw [ho, ← shifted_add hbefore] at hbegins'
    have hspan : span' = span :=
      hbegins.withReturns hbegins' (by omega) fun hstart _ => by rw [hend', hend, hstart]
    rw [hfault, hfault', hnone, hnone', hspan]
    exact ⟨rfl, rfl⟩
  | unclosed c hc gap rest hr hg hq =>
    have hrest : c'.rest = Text.withReturns gap ++ '"' :: Text.withReturns rest := by
      rw [rest_withReturns hc hc' ho, hr, withReturns_append, withReturns_quote]
    have hbefore := hc.rest.trans hr
    have hle := congrArg List.length hbefore
    have hq' : '"' ∉ Text.withReturns rest := fun h => hq (quote_mem_withReturns.1 h)
    simp only [List.length_drop, List.length_append, List.length_cons] at hle
    obtain ⟨span, hnone, hfault, hbegins, hend⟩ := tokensFrom_of_unclosed hc hr hg hq
    obtain ⟨span', hnone', hfault', hbegins', hend'⟩ :=
      tokensFrom_of_unclosed hc' hrest (isBlank_withReturns hg) hq'
    rw [ho, ← shifted_add hbefore] at hbegins'
    have hspan : span' = span :=
      hbegins.withReturns hbegins' (by omega) fun _ hcontent => by rw [hend', hend, hcontent]
    rw [hfault, hfault', hnone, hnone', hspan]
    exact ⟨rfl, rfl⟩
  | lexeme c hc gap l t next h ih =>
    obtain ⟨next', hreads, hoff⟩ := h.withReturns hc hc' ho
    obtain ⟨hfault, htokens⟩ := ih hreads.on hoff
    rw [h.tokensFrom_eq, hreads.tokensFrom_eq]
    exact ⟨hfault, congrArg (t.withReturns :: ·) htokens⟩

/-- A token on one line has no place for carriage returns. -/
theorem withReturns_of_mem {ts : List Token} (hts : s.tokens = .ok ts) (ht : t ∈ ts)
    (hn : '\n' ∉ t.lexeme.toList) : t.withReturns = t := by
  obtain ⟨_, rfl⟩ := tokens_eq_ok.1 hts
  obtain ⟨_, _, l, _, hreads⟩ := exists_reads (Cursor.on_start s.text) t ht
  have hdenotes := hreads.denotes
  have hflat : '\n' ∉ l.chars := by rwa [hdenotes.lexeme, String.toList_ofList] at hn
  have hsame : l.withReturns = l := by
    apply Lexeme.chars_injective
    rw [Lexeme.chars_withReturns, withReturns_eq_self hflat]
  have hvalue : t.value = t.value.withReturns :=
    (hdenotes.withReturns_iff.1 (hsame.symm ▸ hdenotes)).2.2
  rw [Token.withReturns, ← hvalue, withReturns_eq_self hn, String.ofList_toList]

end Source

/-- With a carriage return put before every line feed, a source is refused just if it was, with the
same error shown at the same place. Where it is read, its tokens have the same kinds and the same
places as before, and carriage returns before the line feeds in their texts; so every token that
does not run over a line end stays as it was. -/
theorem tokens_withReturns (s : Source) :
    s.withReturns.tokens = s.tokens.map (List.map Token.withReturns) ∧
      ∀ ts, s.tokens = .ok ts → ∀ t ∈ ts, '\n' ∉ t.lexeme.toList → t.withReturns = t := by
  obtain ⟨hfault, htokens⟩ := Source.tokensFrom_withReturns (Cursor.on_start s.text)
    (Cursor.on_start s.withReturns.text) rfl
  refine ⟨?_, fun ts hts t ht hn => Source.withReturns_of_mem hts ht hn⟩
  cases hs : s.tokens with
  | error fault => exact Source.tokens_eq_error.2 (hfault.trans (Source.tokens_eq_error.1 hs))
  | ok ts =>
    obtain ⟨hnone, rfl⟩ := Source.tokens_eq_ok.1 hs
    exact Source.tokens_eq_ok.2 ⟨hfault.trans hnone, htokens⟩

/-- The string over two lines gets a second carriage return, and nothing else changes. -/
theorem tokens_withReturns_twoLines : twoLines.tokens = .ok twoLines.lexing.tokens ∧
    twoLines.withReturns.tokens = .ok (twoLines.lexing.tokens.map Token.withReturns) ∧
    (twoLines.lexing.tokens.map fun t => t.withReturns.lexeme) =
      ["a", "=", "\"x\r\r\ny\"", "+"] ∧
    ∀ t ∈ twoLines.lexing.tokens, t.kind ≠ .string → t.withReturns = t := by
  have hf : twoLines.lexing.fault = none := by decide +kernel
  have hts := Source.tokens_eq_ok.2 ⟨hf, rfl⟩
  obtain ⟨hread, hflat⟩ := tokens_withReturns twoLines
  refine ⟨hts, by rw [hread, hts]; rfl, by decide +kernel, ?_⟩
  intro t ht hk
  have hlines : ∀ t ∈ twoLines.lexing.tokens, t.kind ≠ .string → '\n' ∉ t.lexeme.toList := by
    decide +kernel
  exact hflat _ hts t ht (hlines t ht hk)

end FrontEnd
