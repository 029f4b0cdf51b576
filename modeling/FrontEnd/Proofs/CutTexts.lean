import FrontEnd.Proofs.Blocks
import FrontEnd.Token.Session

namespace FrontEnd

namespace Text

variable {text : List Char} {i j : Nat}

theorem feeds_take (h : i ≤ j) : feeds (text.take j) i = feeds text i := by
  rw [feeds, List.take_take, Nat.min_eq_left h]
  rfl

theorem feeds_mono (h : i ≤ j) : feeds text i ≤ feeds text j := by
  rw [← feeds_take h]
  exact (List.take_sublist i (text.take j)).count_le '\n'

theorem lineStart_take (h : i ≤ j) : lineStart (text.take j) i = lineStart text i := by
  induction i with
  | zero => rfl
  | succ i ih => rw [lineStart, lineStart, List.getElem?_take_of_lt h, ih (by omega)]

/-- A line that ends before the cut is whole. -/
theorem lineAround_take (h : i ≤ j) (hn : feeds text i ≠ feeds text j) :
    lineAround (text.take j) i = lineAround text i := by
  have hlow := lineStart_le text i
  have hmem : '\n' ∈ (text.take j).drop i := by
    have hcount : (text.take j).count '\n' =
        ((text.take j).take i).count '\n' + ((text.take j).drop i).count '\n' := by
      rw [← List.count_append, List.take_append_drop]
    rw [← feeds_take h] at hn
    apply List.count_pos_iff.1
    unfold feeds at hn
    omega
  have hline : '\n' ∈ (text.take j).drop (lineStart text i) :=
    (List.drop_suffix_drop_left _ hlow).mem hmem
  have hsplit : text.drop (lineStart text i) = (text.take j).drop (lineStart text i) ++
      (text.drop j).drop (lineStart text i - (text.take j).length) := by
    rw [← List.drop_append, List.take_append_drop]
  rw [lineAround, lineAround, lineStart_take h, hsplit, takeWhile_append_of_mem hline]

end Text

open Text

/-- A lexeme stops where it did if what comes behind it is cut off. -/
theorem Lexeme.Stops.take {l : Lexeme} {after : List Char} (h : l.Stops after) (n : Nat) :
    l.Stops (after.take n) := by
  cases n with
  | zero => exact l.stops_of_blank (by simp)
  | succ n =>
    have hhead : (after.take (n + 1)).head? = after.head? := by cases after <;> rfl
    exact (l.stops_congr hhead).2 h

/-- The token with another line to show. -/
def Token.showing (t : Token) (line : String) : Token :=
  { t with span := { t.span with lineContent := line } }

/-- The token `u` is the token `t` of a text that is cut off on the line `line`. -/
structure Token.CutOn (line : Nat) (t u : Token) : Prop where
  alike : ∃ shown, u = t.showing shown
  elsewhere : t.span.line ≠ line → u = t

/-- The character that is refused. -/
def LexicalError.culprit : LexicalError → Char
  | unknownCharacter c _ => c
  | unterminatedString _ => '"'

namespace Source

variable {s : Source} {gap rest after : List Char} {c c' d next : Cursor} {l : Lexeme} {t u : Token}
  {ts us : List Token} {i j k : Nat} {x : Char} {a b : Span}

/-- The source up to offset `j`. -/
def upTo (s : Source) (j : Nat) : Source :=
  s.given (s.text.take j)

/-- From one cursor to another the tokens `ts` are read. -/
inductive Run (s : Source) : Cursor → List Token → Cursor → Prop
  | refl (c : Cursor) : Run s c [] c
  | step {c next d : Cursor} {gap : List Char} {l : Lexeme} {t : Token} {ts : List Token}
      (h : s.Reads c gap l t next) (hm : Run s next ts d) : Run s c (t :: ts) d

theorem Run.tokensFrom_eq (h : s.Run c ts d) : s.tokensFrom c =
    { s.tokensFrom d with tokens := ts ++ (s.tokensFrom d).tokens } := by
  induction h with
  | refl c => rfl
  | step h _ ih =>
    rw [h.tokensFrom_eq, ih]
    rfl

theorem Run.on (hc : c.On s.text) (h : s.Run c ts d) : d.On s.text := by
  induction h with
  | refl c => exact hc
  | step h _ ih => exact ih h.on

theorem Run.offset_le (h : s.Run c ts d) : c.position.offset ≤ d.position.offset := by
  induction h with
  | refl c => exact Nat.le_refl _
  | step h _ ih =>
    have hoff := h.offset
    omega

/-- A span that begins before the cut has the same place, and shows the same line if that line ends
before the cut. -/
theorem Begins.upTo (h : s.Begins i a) (h' : (s.upTo j).Begins i b) (hi : i ≤ j) :
    b.line = a.line ∧ b.startColumn = a.startColumn ∧
      (feeds s.text i ≠ feeds s.text j → b.lineContent = a.lineContent) := by
  refine ⟨?_, ?_, fun hn => ?_⟩
  · rw [h.line, ← feeds_take hi]
    exact h'.line
  · rw [h.startColumn, ← lineStart_take hi]
    exact h'.startColumn
  · rw [h.lineContent, ← lineAround_take hi hn]
    exact h'.lineContent

/-- Before the cut a lexeme has the same token, but for the line it shows. -/
theorem Placed.cutOn (h : s.Placed i k t) (h' : (s.upTo j).Placed i k u) (hk : k ≤ j)
    (hd : l.Denotes s.keywords t) (hd' : l.Denotes s.keywords u) :
    t.CutOn (1 + feeds s.text j) u := by
  have hpos := h.nonempty
  obtain ⟨hline, hstart, hcontent⟩ := h.begins.upTo h'.begins (by omega : i ≤ j)
  have hname : u.span.filename = t.span.filename := h'.filename.trans h.filename.symm
  have hend : u.span.endColumn = t.span.endColumn := by
    rw [h'.endColumn, h.endColumn, hd'.lexeme, ← hd.lexeme, hstart]
    split
    · rename_i hn
      -- a string over several lines ends before the cut, so the first of them is whole
      have hcount := List.count_pos_iff.2 hn
      have hadd := feeds_add h.drop
      have hmono : feeds s.text k ≤ feeds s.text j := feeds_mono hk
      rw [h.length] at hadd
      rw [hcontent (by omega)]
    · rfl
  have hspan := Span.eq_showing hname hline hstart hend
  constructor
  · refine ⟨u.span.lineContent, ?_⟩
    rw [Token.showing, ← hspan]
    exact hd.eq_withSpan hd'
  · intro hne
    have hshown : u.span.lineContent = t.span.lineContent := by
      apply hcontent
      intro hn
      exact hne (h.line.trans (congrArg (1 + ·) hn))
    rw [hd.eq_withSpan hd', hspan, hshown]

/-- At the same place the text that is cut off has less left. -/
theorem rest_upTo (hc : c.On s.text) (hc' : c'.On (s.upTo j).text)
    (ho : c'.position.offset = c.position.offset) :
    c'.rest = c.rest.take (j - c.position.offset) := by
  rw [← hc'.rest, ← hc.rest, ho, upTo, given, List.drop_take]

/-- A lexeme before the cut is read up to the cut. -/
theorem Reads.upTo (hc : c.On s.text) (hc' : c'.On (s.upTo j).text)
    (ho : c'.position.offset = c.position.offset) (h : s.Reads c gap l t next)
    (hj : next.position.offset ≤ j) :
    ∃ u next', (s.upTo j).Reads c' gap l u next' ∧
      next'.position.offset = next.position.offset ∧ t.CutOn (1 + feeds s.text j) u := by
  have hoff := h.offset
  have hrest : c'.rest = gap ++ (l.chars ++ next.rest.take (j - next.position.offset)) := by
    have hlen : j - c.position.offset =
        (gap ++ l.chars).length + (j - next.position.offset) := by
      rw [List.length_append]
      omega
    rw [rest_upTo hc hc' ho, h.rest, ← List.append_assoc, hlen, List.take_length_add_append,
      List.append_assoc]
  obtain ⟨u, next', hreads, _⟩ := tokensFrom_of_lexeme hc' hrest h.blank (h.stops.take _)
  have hoff' : next'.position.offset = next.position.offset := by
    rw [hreads.offset, hoff, ho]
  have hplaced := hreads.placed
  rw [ho, hoff'] at hplaced
  exact ⟨u, next', hreads, hoff', h.placed.cutOn hplaced hj h.denotes hreads.denotes⟩

/-- What is read before the cut is read up to the cut. -/
theorem Run.upTo (hc : c.On s.text) (hc' : c'.On (s.upTo j).text)
    (ho : c'.position.offset = c.position.offset) (h : s.Run c ts d)
    (hj : d.position.offset ≤ j) :
    ∃ us d', (s.upTo j).Run c' us d' ∧ d'.position.offset = d.position.offset ∧
      List.Forall₂ (Token.CutOn (1 + feeds s.text j)) ts us := by
  induction h generalizing c' with
  | refl c => exact ⟨[], c', .refl c', ho, .nil⟩
  | step h hm ih =>
    have hle := hm.offset_le
    obtain ⟨u, next', hreads, hoff, hu⟩ := h.upTo hc hc' ho (by omega)
    obtain ⟨us, d', hrun, hend, hus⟩ := ih h.on hreads.on hoff hj
    exact ⟨u :: us, d', .step hreads hrun, hend, .cons hu hus⟩

/-- Nothing can be read from the character `x` on: it begins no lexeme, or it is a quote that is
never closed. -/
def Stuck (x : Char) (rest : List Char) : Prop :=
  isLegal x = false ∨ x = '"' ∧ '"' ∉ rest

theorem Stuck.take (h : Stuck x rest) (n : Nat) : Stuck x (rest.take n) :=
  h.imp id fun h => ⟨h.1, fun hm => h.2 (List.mem_of_mem_take hm)⟩

/-- At offset `k` the character `x` is refused with the error `e`, and reading ends at `d`: there if
the character is no part of a lexeme, at the end of the text if it opens a string. -/
structure Refuses (s : Source) (k : Nat) (x : Char) (e : LexicalError) (d : Cursor) : Prop where
  begins : s.Begins k e.span
  at_fault : s.text[k]? = some x
  culprit : e.culprit = x
  code : e.code = if x = '"' then "L002" else "L001"
  stays : e.code = "L001" → d.position = ⟨k, e.span.line, e.span.startColumn⟩
  passes : e.code = "L002" → d.position.offset = s.text.length

theorem Begins.position_eq {span : Span} (h : s.Begins c.position.offset span)
    (hc : c.On s.text) : c.position = ⟨c.position.offset, span.line, span.startColumn⟩ := by
  rw [h.line, h.startColumn, ← hc.line, ← hc.column]

theorem tokensFrom_of_stuck (hc : c.On s.text) (hr : c.rest = gap ++ x :: rest)
    (hg : ∀ y ∈ gap, isBlank y = true) (hx : Stuck x rest) :
    ∃ e d, s.tokensFrom c = ⟨[], d, some (.lexical e)⟩ ∧
      s.Refuses (c.position.offset + gap.length) x e d := by
  have hmid : Cursor.On s.text ⟨c.position.afterAll gap, x :: rest⟩ := hc.afterAll hr
  have hoff := Position.afterAll_offset c.position gap
  have hget : s.text[c.position.offset + gap.length]? = some x :=
    hoff ▸ getElem?_of_drop hmid.rest
  rcases hx with hx | ⟨rfl, hq⟩
  · obtain ⟨span, ht, hbegins, _⟩ := token_stray (s := s) hmid rfl hx
    have hne : x ≠ '"' := by
      rintro rfl
      cases hx
    have hfrom := tokensFrom_of_visible hr hg (isBlank_of_not_isLegal hx) (s := s)
    rw [ht] at hfrom
    refine ⟨_, _, hfrom, hoff ▸ hbegins, hget, rfl, ?_, ?_, ?_⟩
    · rw [if_neg hne]
      rfl
    · intro _
      rw [← hoff]
      exact hbegins.position_eq hmid
    · intro hcode
      simp [LexicalError.code] at hcode
  · obtain ⟨span, ht, hbegins, _⟩ := token_unclosed (s := s) hmid rfl hq
    have hfrom := tokensFrom_of_visible hr hg rfl (s := s)
    rw [ht] at hfrom
    refine ⟨_, _, hfrom, hoff ▸ hbegins, hget, rfl, rfl, ?_, ?_⟩
    · intro hcode
      simp [LexicalError.code] at hcode
    · intro _
      have hlen := congrArg List.length hmid.rest
      have hle := hmid.le_length
      simp only [List.length_drop] at hlen
      dsimp only at hlen hle ⊢
      rw [Position.afterAll_offset]
      omega

/-- Reading goes on to a fault: the tokens `ts`, white space, and a character at which it is
stuck. -/
structure Fails (s : Source) (c : Cursor) (ts : List Token) (d : Cursor) (gap : List Char)
    (x : Char) (rest : List Char) : Prop where
  run : s.Run c ts d
  on : d.On s.text
  rest_eq : d.rest = gap ++ x :: rest
  blank : ∀ y ∈ gap, isBlank y = true
  stuck : Stuck x rest

theorem exists_fails {fault : ScanFault} (hc : c.On s.text)
    (hf : (s.tokensFrom c).fault = some fault) : ∃ ts d gap x rest, s.Fails c ts d gap x rest := by
  induction c, hc using tokensFrom_induction with
  | blank c hc hb =>
    rw [tokensFrom_of_blank hb] at hf
    cases hf
  | stray c hc gap x rest hr hg hx =>
    exact ⟨[], c, gap, x, rest, .refl c, hc, hr, hg, .inl hx⟩
  | unclosed c hc gap rest hr hg hq =>
    exact ⟨[], c, gap, '"', rest, .refl c, hc, hr, hg, .inr ⟨rfl, hq⟩⟩
  | lexeme c hc gap l t next h ih =>
    rw [h.tokensFrom_eq] at hf
    obtain ⟨ts, d, gap', x, rest, hfails⟩ := ih hf
    exact ⟨t :: ts, d, gap', x, rest, .step h hfails.run, hfails.on, hfails.rest_eq, hfails.blank,
      hfails.stuck⟩

theorem Fails.tokensFrom_eq (h : s.Fails c ts d gap x rest) :
    ∃ e stop, s.tokensFrom c = ⟨ts, stop, some (.lexical e)⟩ ∧
      s.Refuses (d.position.offset + gap.length) x e stop := by
  obtain ⟨e, stop, hstuck, hrefuses⟩ := tokensFrom_of_stuck h.on h.rest_eq h.blank h.stuck
  refine ⟨e, stop, ?_, hrefuses⟩
  rw [h.run.tokensFrom_eq, hstuck, List.append_nil]

/-- Cut off at the fault, the text can be read. -/
theorem Fails.upTo_eq (h : s.Fails s.start ts d gap x rest)
    (hk : k = d.position.offset + gap.length) : ∃ us, (s.upTo k).tokens = .ok us ∧
      List.Forall₂ (Token.CutOn (1 + feeds s.text k)) ts us := by
  have hc' : (s.upTo k).start.On (s.upTo k).text := Cursor.on_start _
  obtain ⟨us, d', hrun, hoff, hus⟩ := h.run.upTo (Cursor.on_start s.text) hc' rfl (by omega)
  have hrest : d'.rest = gap := by
    rw [rest_upTo h.on (hrun.on hc') hoff, h.rest_eq, hk, Nat.add_sub_cancel_left, List.take_left]
  have hend := tokensFrom_of_blank (s := s.upTo k) (hrest ▸ h.blank : ∀ y ∈ d'.rest, _)
  have hlexing : (s.upTo k).lexing = ⟨us, ⟨d'.position.afterAll d'.rest, []⟩, none⟩ := by
    rw [lexing, hrun.tokensFrom_eq, hend, List.append_nil]
  exact ⟨us, by rw [tokens, hlexing], hus⟩

/-- Cut off behind the fault, the text fails there as well. -/
theorem Fails.upTo_gt (h : s.Fails s.start ts d gap x rest)
    (hj : d.position.offset + gap.length < j) : ∃ e stop,
      (s.upTo j).tokens = .error (.lexical e) ∧
      (s.upTo j).Refuses (d.position.offset + gap.length) x e stop := by
  have hc' : (s.upTo j).start.On (s.upTo j).text := Cursor.on_start _
  obtain ⟨us, d', hrun, hoff, _⟩ := h.run.upTo (Cursor.on_start s.text) hc' rfl (by omega)
  have hon := hrun.on hc'
  obtain ⟨n, hn⟩ : ∃ n, j - d.position.offset = gap.length + (n + 1) :=
    ⟨j - d.position.offset - gap.length - 1, by omega⟩
  have hrest : d'.rest = gap ++ x :: rest.take n := by
    rw [rest_upTo h.on hon hoff, h.rest_eq, hn, List.take_length_add_append, List.take_succ_cons]
  have hfails : (s.upTo j).Fails (s.upTo j).start us d' gap x (rest.take n) :=
    ⟨hrun, hon, hrest, h.blank, h.stuck.take n⟩
  obtain ⟨e, stop, hlexing, hrefuses⟩ := hfails.tokensFrom_eq
  rw [hoff] at hrefuses
  exact ⟨e, stop, by rw [tokens, lexing, hlexing], hrefuses⟩

end Source

namespace ScanSession

variable {p : ScanSession} {fault : ScanFault} {ts : List Token} {stop : Cursor}

theorem lexing_of_tokenize (h : p.tokenize.1 = .error fault) :
    p.source.lexing.fault = some fault := by
  unfold tokenize at h
  dsimp only at h
  split at h
  · rename_i hf
    cases h
    exact hf
  · cases h

theorem tokenize_of_lexing (h : p.source.lexing = ⟨ts, stop, some fault⟩) :
    p.tokenize = (.error fault, { p with cursor := stop, tokens := ts }) := by
  unfold tokenize
  rw [h]

end ScanSession

/-- What is left behind when a source is refused. Let `k` be the offset of the character that is
refused, or of the quote that opens a string without an end. The tokens left behind are those of the
text up to `k`, which can be read, but that tokens on the line of the cut show less of it. A stray
character is where the session stops, and a string is passed to the end of the text. And wherever
the text is cut off behind `k`, it is refused at the same place for the same reason. -/
theorem tokenize_cut (p : ScanSession) {fault : ScanFault} (h : p.tokenize.1 = .error fault) :
    ∃ e k, fault = .lexical e ∧ p.source.Begins k e.span ∧ p.source.text[k]? = some e.culprit ∧
      (∃ us, (p.source.upTo k).tokens = .ok us ∧
        List.Forall₂ (Token.CutOn e.span.line) p.tokenize.2.tokens us) ∧
      (e.code = "L001" →
        p.tokenize.2.cursor.position = ⟨k, e.span.line, e.span.startColumn⟩) ∧
      (e.code = "L002" → p.tokenize.2.cursor.position.offset = p.source.text.length) ∧
      ∀ j > k, ∃ e', (p.source.upTo j).tokens = .error (.lexical e') ∧
        e'.code = e.code ∧ e'.span.line = e.span.line ∧
        e'.span.startColumn = e.span.startColumn := by
  obtain ⟨ts, d, gap, x, rest, hfails⟩ :=
    Source.exists_fails (Cursor.on_start p.source.text) (ScanSession.lexing_of_tokenize h)
  obtain ⟨e, stop, hlexing, hrefuses⟩ := hfails.tokensFrom_eq
  have htokenize := ScanSession.tokenize_of_lexing hlexing
  obtain ⟨us, hread, hus⟩ := hfails.upTo_eq rfl
  rw [htokenize] at h ⊢
  refine ⟨e, _, (Except.error.inj h).symm, hrefuses.begins, ?_, ⟨us, hread, ?_⟩, hrefuses.stays,
    hrefuses.passes, fun j hj => ?_⟩
  · rw [hrefuses.culprit, hrefuses.at_fault]
  · rw [hrefuses.begins.line]
    exact hus
  · obtain ⟨e', stop', herror, hcut⟩ := hfails.upTo_gt hj
    obtain ⟨hline, hstart, _⟩ := hrefuses.begins.upTo hcut.begins (Nat.le_of_lt hj)
    exact ⟨e', herror, hcut.code.trans hrefuses.code.symm, hline, hstart⟩

/-- A string over two lines, and an operator right before a stray character. -/
def cutMark : Source :=
  .ofText "\"a\nb\" =@ c" "cut" .standard

/-- A name, and a string that is never closed. -/
def cutString : Source :=
  .ofText "a \"b\n@" "cut" .standard

/-- Without the stray character the equals sign is read alone, and without the quote the name. -/
theorem tokenize_cut_cutMark :
    (∃ e k, (ScanSession.start cutMark).tokenize.1 = .error (.lexical e) ∧
      (e.code, e.span.line, e.span.startColumn) = ("L001", 2, 4) ∧
      cutMark.text[k]? = some '@' ∧
      (∃ us, (cutMark.upTo k).tokens = .ok us ∧ us.length = 2 ∧
        List.Forall₂ (Token.CutOn 2) (ScanSession.start cutMark).tokenize.2.tokens us) ∧
      (ScanSession.start cutMark).tokenize.2.cursor.position = ⟨k, 2, 4⟩ ∧
      ∀ j > k, ∃ e', (cutMark.upTo j).tokens = .error (.lexical e') ∧ e'.code = "L001") ∧
    ∃ e k, (ScanSession.start cutString).tokenize.1 = .error (.lexical e) ∧
      e.code = "L002" ∧ (∃ us, (cutString.upTo k).tokens = .ok us ∧ us.length = 1) ∧
      (ScanSession.start cutString).tokenize.2.cursor.position.offset = 6 := by
  have hmark : (ScanSession.start cutMark).tokenize.1 = .error (.lexical (.unknownCharacter '@'
      ⟨2, 4, 5, "cut", "b\" =@ c", by decide, by decide⟩)) := by decide +kernel
  have hstring : (ScanSession.start cutString).tokenize.1 = .error (.lexical (.unterminatedString
      ⟨1, 2, 4, "cut", "a \"b", by decide, by decide⟩)) := by decide +kernel
  constructor
  · obtain ⟨e, k, he, _, hget, ⟨us, hread, hus⟩, hstays, _, hcut⟩ := tokenize_cut _ hmark
    cases he
    refine ⟨_, k, hmark, rfl, hget, ⟨us, hread, ?_, hus⟩, hstays rfl, fun j hj => ?_⟩
    · rw [← hus.length_eq]
      decide +kernel
    · obtain ⟨e', herror, hcode, _⟩ := hcut j hj
      exact ⟨e', herror, hcode⟩
  · obtain ⟨e, k, he, _, _, ⟨us, hread, hus⟩, _, hpasses, _⟩ := tokenize_cut _ hstring
    cases he
    refine ⟨_, k, hstring, rfl, ⟨us, hread, ?_⟩, hpasses rfl⟩
    rw [← hus.length_eq]
    decide +kernel

end FrontEnd
