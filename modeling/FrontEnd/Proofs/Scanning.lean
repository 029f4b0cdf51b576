import FrontEnd.Proofs.Lexeme

namespace FrontEnd

open Text

variable {s : Source} {c stop : Cursor} {l : Lexeme} {kind : Kind} {value : Scalar} {x : Char}
  {xs gap lexeme after rest : List Char} {t : Token}

theorem Cursor.skip_eq (hr : c.rest = xs ++ after) :
    c.skip xs.length = ⟨c.position.afterAll xs, after⟩ := by
  rw [skip, hr, List.take_left, List.drop_left]

theorem Cursor.On.line_pos {text : List Char} (hc : c.On text) : 1 ≤ c.position.line := by
  rw [hc.line]
  omega

/-- Spans of the same place differ in the line they show. -/
theorem Span.eq_showing {a b : Span} (hname : b.filename = a.filename) (hline : b.line = a.line)
    (hstart : b.startColumn = a.startColumn) (hend : b.endColumn = a.endColumn) :
    b = { a with lineContent := b.lineContent } := by
  cases a
  cases b
  simp_all

namespace Source

/-- The span begins at an offset: it has the line and the column of that offset, and shows the line
without carriage returns at the end. -/
structure Begins (s : Source) (i : Nat) (span : Span) : Prop where
  filename : span.filename = s.name
  line : span.line = 1 + feeds s.text i
  startColumn : span.startColumn = i - lineStart s.text i
  lineContent : span.lineContent = String.ofList (trimReturns (lineAround s.text i))

theorem span_ok {line first last : Nat} (hl : 1 ≤ line) (hle : first ≤ last) :
    s.span line first last = .ok ⟨line, first, last, s.name, s.line line, hl, hle⟩ := by
  have hline : (1 : Int) ≤ line := by omega
  have hcolumns : (0 : Int) ≤ first ∧ (first : Int) ≤ last := by omega
  rw [span, Span.make, dif_pos hline, dif_pos hcolumns]
  rfl

/-- The line of the cursor from its start: first what is behind the cursor, then what is at it. -/
theorem line_on (hc : c.On s.text) (hr : c.rest = x :: rest) (hx : isBlank x = false) :
    (s.line c.position.line).toList =
      lead s.text c.position.offset ++ x :: trimReturns (rest.takeWhile (· ≠ '\n')) := by
  rw [hc.line, line_feeds hc.le_length, String.toList_ofList,
    trimReturns_lineAround (hc.rest.trans hr) hx]

theorem length_lead_on (hc : c.On s.text) :
    (lead s.text c.position.offset).length = c.position.column := by
  rw [length_lead hc.le_length, hc.column]

theorem column_lt (hc : c.On s.text) (hr : c.rest = x :: rest) (hx : isBlank x = false) :
    c.position.column < (s.line c.position.line).length := by
  have hlen := congrArg List.length (line_on hc hr hx)
  rw [List.length_append, length_lead_on hc, List.length_cons, String.length_toList] at hlen
  omega

theorem emit_ok {line first last : Nat} (hl : 1 ≤ line) (hle : first ≤ last) :
    s.emit kind lexeme value line first last stop = ⟨.ok ⟨kind, String.ofList lexeme, value,
      ⟨line, first, last, s.name, s.line line, hl, hle⟩⟩, stop⟩ := by
  rw [emit, span_ok hl hle]

/-- The token of a lexeme that stays on its line, put behind the lexeme. -/
def emitFlat (s : Source) (c stop : Cursor) (l : Lexeme) : Scan :=
  s.emit (l.kind s.keywords) l.chars (l.value s.keywords) stop.position.line c.position.column
    stop.position.column stop

/-- What can be seen is shown on its line. -/
theorem emit_flat (hc : c.On s.text) (hv : ∀ y ∈ lexeme, isBlank y = false)
    (hstop : stop.position = c.position.afterAll lexeme) :
    ∃ hl hle, s.emit kind lexeme value stop.position.line c.position.column stop.position.column
      stop = ⟨.ok ⟨kind, String.ofList lexeme, value, ⟨stop.position.line, c.position.column,
        stop.position.column, s.name, s.line stop.position.line, hl, hle⟩⟩, stop⟩ := by
  have hline : 1 ≤ stop.position.line := by
    rw [hstop, Position.afterAll_line]
    exact Nat.le_add_right_of_le hc.line_pos
  have hcolumn : c.position.column ≤ stop.position.column := by
    rw [hstop, Position.afterAll_column (newline_not_mem_of_visible hv)]
    exact Nat.le_add_right _ _
  exact ⟨hline, hcolumn, emit_ok hline hcolumn⟩

theorem emitFlat_denotes (hc : c.On s.text) (hv : ∀ y ∈ l.chars, isBlank y = false)
    (hstop : stop = ⟨c.position.afterAll l.chars, after⟩) :
    ∃ t, s.emitFlat c stop l = ⟨.ok t, stop⟩ ∧ l.Denotes s.keywords t := by
  obtain ⟨_, _, h⟩ := emit_flat hc hv (congrArg Cursor.position hstop)
  exact ⟨_, h, rfl, rfl, rfl⟩

theorem token_of_shape (hr : c.rest = x :: rest) : s.token c =
    match Lexeme.Shape.ofHead x with
    | .number => s.number c
    | .quoted => s.string c
    | .word => s.word c
    | .operator => s.operator c := by
  simp only [token, hr, Lexeme.Shape.ofHead]
  split
  · rfl
  · split
    · rfl
    · split <;> rfl

theorem operatorAt?_append (hk : Kind.ofOperator? (String.ofList xs) = some kind)
    (hs : (Lexeme.operator xs kind hk).Stops after) :
    operatorAt? (xs ++ after) = some (xs, kind) := by
  rcases length_of_ofOperator? hk with ⟨x, rfl⟩ | ⟨x, y, rfl⟩
  · cases after with
    | nil => simp only [List.append_nil, operatorAt?, hk, Option.map_some]
    | cons y after =>
      have hpair : Kind.ofOperator? (String.ofList [x, y]) = none := hs x rfl y rfl
      simp only [List.singleton_append, operatorAt?, hpair, hk, Option.map_some]
  · simp only [List.cons_append, List.nil_append, operatorAt?, hk]

variable {first : Char} {more inner symbol : List Char}

theorem number_lexeme {hf : first.isDigit = true} {hm : more.all Char.isDigit = true}
    (hr : c.rest = first :: more ++ after) (hs : (Lexeme.number first more hf hm).Stops after) :
    s.number c =
      s.emitFlat c ⟨c.position.afterAll (first :: more), after⟩ (.number first more hf hm) := by
  have hd := isDigit_of_mem_number hf hm
  have htake : c.rest.takeWhile Char.isDigit = first :: more := by
    rw [hr, takeWhile_append_stops hd hs]
  have hvalue : numberValue? (first :: more) =
      some ((Lexeme.number first more hf hm).value s.keywords) := by
    have hi := Numeral.integer?_digits (by simp) hd
    have hx := Numeral.real?_digits (by simp) hd
    simp only [Lexeme.value, hi, hx, numberValue?, List.isEmpty_cons]
    by_cases hlen : (first :: more).length ≤ Numeral.maxDigits <;> simp only [hlen] <;> rfl
  simp only [number, htake, hvalue, Cursor.skipWhile_eq hr hd hs]
  rfl

theorem word_lexeme {hf : isWordStart first = true} {hm : more.all isWordPart = true}
    (hr : c.rest = first :: more ++ after) (hs : (Lexeme.word first more hf hm).Stops after) :
    s.word c =
      s.emitFlat c ⟨c.position.afterAll (first :: more), after⟩ (.word first more hf hm) := by
  have hp := isWordPart_of_mem_word hf hm
  have htake : c.rest.takeWhile isWordPart = first :: more := by
    rw [hr, takeWhile_append_stops hp hs]
  have hvalue : wordValue (s.keywords.kindOf (String.ofList (first :: more)))
      (String.ofList (first :: more)) = (Lexeme.word first more hf hm).value s.keywords := by
    simp only [Lexeme.value, wordValue]
    split <;> simp_all
  simp only [word, htake, hvalue, Cursor.skipWhile_eq hr hp hs]
  rfl

theorem operator_lexeme {hk : Kind.ofOperator? (String.ofList symbol) = some kind}
    (hr : c.rest = symbol ++ after) (hs : (Lexeme.operator symbol kind hk).Stops after) :
    s.operator c =
      s.emitFlat c ⟨c.position.afterAll symbol, after⟩ (.operator symbol kind hk) := by
  simp only [operator, hr, operatorAt?_append hk hs, Cursor.skip_eq hr]
  rfl

theorem string_lexeme {hq : '"' ∉ inner} (hc : c.On s.text)
    (hr : c.rest = (Lexeme.quoted inner hq).chars ++ after) :
    ∃ t, s.string c = ⟨.ok t, ⟨c.position.afterAll (Lexeme.quoted inner hq).chars, after⟩⟩ ∧
      (Lexeme.quoted inner hq).Denotes s.keywords t := by
  have hcons : c.rest = '"' :: (inner ++ '"' :: after) := by simp [hr, Lexeme.chars]
  have hcolumn : c.position.column ≤
      if (c.position.afterAll (Lexeme.quoted inner hq).chars).line = c.position.line
      then (c.position.afterAll (Lexeme.quoted inner hq).chars).column
      else (s.line c.position.line).length := by
    split
    · rename_i hline
      rw [Position.afterAll_line] at hline
      have hn := List.count_eq_zero.1 (Nat.add_eq_left.1 hline)
      rw [Position.afterAll_column hn]
      exact Nat.le_add_right _ _
    · exact Nat.le_of_lt (column_lt hc hcons rfl)
  rw [string_closed s hcons hq rfl]
  exact ⟨_, emit_ok hc.line_pos hcolumn, rfl, rfl, rfl⟩

/-- In front of a lexeme that stops there, its token is read. -/
theorem token_lexeme (hc : c.On s.text) (hr : c.rest = l.chars ++ after) (hs : l.Stops after) :
    ∃ t, s.token c = ⟨.ok t, ⟨c.position.afterAll l.chars, after⟩⟩ ∧ l.Denotes s.keywords t := by
  obtain ⟨x, rest, hl⟩ := l.exists_cons
  have hcons : c.rest = x :: (rest ++ after) := by rw [hr, hl]; rfl
  rw [token_of_shape hcons, Lexeme.ofHead_eq_shape hl]
  clear hcons hl
  cases l with
  | word first more hf hm =>
    have hp := isWordPart_of_mem_word hf hm
    simp only [Lexeme.shape, word_lexeme hr hs]
    exact emitFlat_denotes hc (fun y hy => isBlank_of_isWordPart (hp y hy)) rfl
  | number first more hf hm =>
    have hd := isDigit_of_mem_number hf hm
    simp only [Lexeme.shape, number_lexeme hr hs]
    exact emitFlat_denotes hc (fun y hy => isBlank_of_isDigit (hd y hy)) rfl
  | quoted inner hq => exact string_lexeme hc hr
  | operator symbol kind hk =>
    simp only [Lexeme.shape, operator_lexeme hr hs]
    exact emitFlat_denotes hc (isBlank_of_ofOperator? hk) rfl

theorem refuse_on (fault : Span → LexicalError) (stop : Cursor) {last : Nat} (hc : c.On s.text)
    (hle : c.position.column ≤ last) :
    ∃ span, s.refuse fault c.position.line c.position.column last stop =
        ⟨.error (.lexical (fault span)), stop⟩ ∧
      s.Begins c.position.offset span ∧ span.endColumn = last := by
  refine ⟨_, by rw [refuse, span_ok hc.line_pos hle], ⟨rfl, hc.line, hc.column, ?_⟩, rfl⟩
  dsimp only
  rw [hc.line, line_feeds hc.le_length]

theorem operatorAt?_eq_none (hx : isLegal x = false) : operatorAt? (x :: rest) = none := by
  have hone : Kind.ofOperator? (String.ofList [x]) = none := by
    cases hk : Kind.ofOperator? (String.ofList [x]) with
    | none => rfl
    | some kind => simp [isLegal_of_ofOperator? hk x (by simp)] at hx
  cases rest with
  | nil => simp only [operatorAt?, hone, Option.map_none]
  | cons y rest =>
    cases hk : Kind.ofOperator? (String.ofList [x, y]) with
    | none => simp only [operatorAt?, hk, hone, Option.map_none]
    | some kind => simp [isLegal_of_ofOperator? hk x (by simp)] at hx

/-- At a character of no lexeme, that character is refused. -/
theorem token_stray (hc : c.On s.text) (hr : c.rest = x :: rest) (hx : isLegal x = false) :
    ∃ span, s.token c = ⟨.error (.lexical (.unknownCharacter x span)), c⟩ ∧
      s.Begins c.position.offset span ∧ span.endColumn = span.startColumn + 1 ∧
      span.lineContent.toList[span.startColumn]? = some x := by
  have hshape : Lexeme.Shape.ofHead x = .operator := by
    simp only [isLegal, Bool.or_eq_false_iff, beq_eq_false_iff_ne] at hx
    simp [Lexeme.Shape.ofHead, isWordStart, hx]
  obtain ⟨span, hspan, hbegins, hend⟩ :=
    refuse_on (.unknownCharacter x) c hc (Nat.le_add_right c.position.column 1)
  refine ⟨span, ?_, hbegins, ?_, ?_⟩
  · simp only [token_of_shape hr, hshape, operator, hr, operatorAt?_eq_none hx]
    exact hspan
  · rw [hend, hbegins.startColumn, hc.column]
  · rw [hbegins.lineContent, hbegins.startColumn, ← hc.column, String.toList_ofList,
      trimReturns_lineAround (hc.rest.trans hr) (isBlank_of_not_isLegal hx), ← length_lead_on hc]
    simp

/-- At a quote that is never closed, the rest of its line is refused, and all of the text is
passed. -/
theorem token_unclosed (hc : c.On s.text) (hr : c.rest = '"' :: rest) (hq : '"' ∉ rest) :
    ∃ span, s.token c = ⟨.error (.lexical (.unterminatedString span)),
        ⟨c.position.afterAll ('"' :: rest), []⟩⟩ ∧
      s.Begins c.position.offset span ∧ span.endColumn = span.lineContent.length := by
  have hshape : Lexeme.Shape.ofHead '"' = .quoted := rfl
  have hlt := column_lt hc hr rfl
  obtain ⟨span, hspan, hbegins, hend⟩ := refuse_on .unterminatedString
    ⟨c.position.afterAll ('"' :: rest), []⟩ hc (Nat.le_of_lt hlt)
  refine ⟨span, ?_, hbegins, ?_⟩
  · simp only [token_of_shape hr, hshape, string_open s hr hq, Nat.max_eq_right hlt]
    exact hspan
  · rw [hend, hbegins.lineContent, ← line_feeds hc.le_length, hc.line]

theorem skip_gap (hr : c.rest = gap ++ x :: rest) (hg : ∀ y ∈ gap, isBlank y = true)
    (hx : isBlank x = false) : c.skipWhile isBlank = ⟨c.position.afterAll gap, x :: rest⟩ :=
  Cursor.skipWhile_eq hr hg (by simpa using hx)

theorem tokensFrom_of_blank (hb : ∀ y ∈ c.rest, isBlank y = true) :
    s.tokensFrom c = ⟨[], ⟨c.position.afterAll c.rest, []⟩, none⟩ := by
  have hskip : c.skipWhile isBlank = ⟨c.position.afterAll c.rest, []⟩ :=
    Cursor.skipWhile_eq (by simp) hb (by simp)
  rw [tokensFrom]
  simp [hskip, Cursor.atEnd]

/-- Behind white space the next step decides. -/
theorem tokensFrom_of_visible (hr : c.rest = gap ++ x :: rest) (hg : ∀ y ∈ gap, isBlank y = true)
    (hx : isBlank x = false) : s.tokensFrom c =
      match s.token ⟨c.position.afterAll gap, x :: rest⟩ with
      | ⟨.error fault, next⟩ => ⟨[], next, some fault⟩
      | ⟨.ok t, next⟩ =>
        { s.tokensFrom next with tokens := t :: (s.tokensFrom next).tokens } := by
  have hskip := skip_gap hr hg hx
  have hend : (c.skipWhile isBlank).atEnd = false := by rw [hskip]; rfl
  rw [← hskip, tokensFrom]
  simp only [hend, Bool.false_eq_true, if_false]
  obtain ⟨outcome, next, hscan⟩ : ∃ outcome next, s.token (c.skipWhile isBlank) = ⟨outcome, next⟩ :=
    ⟨_, _, rfl⟩
  split
  · rename_i hf
    rw [hscan] at hf ⊢
    cases hf
    rfl
  · rename_i hf
    rw [hscan] at hf ⊢
    cases hf
    rfl

/-- From one cursor to the next, white space and a lexeme are passed, and a token is gained. -/
structure Reads (s : Source) (c : Cursor) (gap : List Char) (l : Lexeme) (t : Token)
    (next : Cursor) : Prop where
  rest : c.rest = gap ++ (l.chars ++ next.rest)
  blank : ∀ y ∈ gap, isBlank y = true
  stops : l.Stops next.rest
  offset : next.position.offset = c.position.offset + gap.length + l.chars.length
  on : next.On s.text
  denotes : l.Denotes s.keywords t
  placed : s.Placed (c.position.offset + gap.length) next.position.offset t
  tokensFrom_eq : s.tokensFrom c =
    { s.tokensFrom next with tokens := t :: (s.tokensFrom next).tokens }

theorem tokensFrom_of_lexeme (hc : c.On s.text) (hr : c.rest = gap ++ (l.chars ++ after))
    (hg : ∀ y ∈ gap, isBlank y = true) (hs : l.Stops after) :
    ∃ t next, s.Reads c gap l t next ∧ next.rest = after := by
  obtain ⟨x, rest, hl⟩ := l.exists_cons
  have hx := Lexeme.isBlank_head hl
  have hcons : c.rest = gap ++ x :: (rest ++ after) := by rw [hr, hl]; rfl
  have hmid : Cursor.On s.text ⟨c.position.afterAll gap, x :: (rest ++ after)⟩ :=
    hc.afterAll hcons
  obtain ⟨t, ht, hd⟩ := token_lexeme (l := l) hmid (by rw [hl]; rfl) hs
  have hstep := token_steps (t := t) hmid (by simpa using hx) (by rw [ht])
  have hgap := Position.afterAll_offset c.position gap
  have hnext := Position.afterAll_offset (c.position.afterAll gap) l.chars
  rw [ht] at hstep
  refine ⟨t, _, ⟨hr, hg, hs, ?_, hstep.on, hd, ?_, ?_⟩, rfl⟩
  · rw [hnext, hgap]
  · rw [← hgap]
    exact hstep.placed
  · rw [tokensFrom_of_visible hcons hg hx, ht]

theorem tokensFrom_of_stray (hc : c.On s.text) (hr : c.rest = gap ++ x :: rest)
    (hg : ∀ y ∈ gap, isBlank y = true) (hx : isLegal x = false) :
    ∃ span, (s.tokensFrom c).tokens = [] ∧
      (s.tokensFrom c).fault = some (.lexical (.unknownCharacter x span)) ∧
      s.Begins (c.position.offset + gap.length) span ∧ span.endColumn = span.startColumn + 1 ∧
      span.lineContent.toList[span.startColumn]? = some x := by
  obtain ⟨span, ht, hspan⟩ := token_stray (s := s) (hc.afterAll hr) rfl hx
  rw [Position.afterAll_offset] at hspan
  rw [tokensFrom_of_visible hr hg (isBlank_of_not_isLegal hx), ht]
  exact ⟨span, rfl, rfl, hspan⟩

theorem tokensFrom_of_unclosed (hc : c.On s.text) (hr : c.rest = gap ++ '"' :: rest)
    (hg : ∀ y ∈ gap, isBlank y = true) (hq : '"' ∉ rest) :
    ∃ span, (s.tokensFrom c).tokens = [] ∧
      (s.tokensFrom c).fault = some (.lexical (.unterminatedString span)) ∧
      s.Begins (c.position.offset + gap.length) span ∧
      span.endColumn = span.lineContent.length := by
  obtain ⟨span, ht, hspan⟩ := token_unclosed (s := s) (hc.afterAll hr) rfl hq
  rw [Position.afterAll_offset] at hspan
  rw [tokensFrom_of_visible hr hg rfl, ht]
  exact ⟨span, rfl, rfl, hspan⟩

/-- Reading passes lexemes until only white space is left or it fails, in one of two ways. -/
theorem tokensFrom_induction {motive : (c : Cursor) → c.On s.text → Prop}
    (blank : ∀ c hc, (∀ y ∈ c.rest, isBlank y = true) → motive c hc)
    (stray : ∀ c hc gap x rest, c.rest = gap ++ x :: rest → (∀ y ∈ gap, isBlank y = true) →
      isLegal x = false → motive c hc)
    (unclosed : ∀ c hc gap rest, c.rest = gap ++ '"' :: rest → (∀ y ∈ gap, isBlank y = true) →
      '"' ∉ rest → motive c hc)
    (lexeme : ∀ c hc gap l t next, (h : s.Reads c gap l t next) → motive next h.on → motive c hc)
    (c : Cursor) (hc : c.On s.text) : motive c hc := by
  generalize hlen : c.rest.length = len
  induction len using Nat.strongRecOn generalizing c with
  | ind len ih =>
    have hg : ∀ y ∈ c.rest.takeWhile isBlank, isBlank y = true :=
      List.all_eq_true.1 List.all_takeWhile
    have hhead := List.head?_dropWhile_not isBlank c.rest
    have hsplit : c.rest = c.rest.takeWhile isBlank ++ c.rest.dropWhile isBlank :=
      List.takeWhile_append_dropWhile.symm
    cases hd : c.rest.dropWhile isBlank with
    | nil =>
      rw [hd, List.append_nil] at hsplit
      exact blank c hc (hsplit ▸ hg)
    | cons x rest =>
      have hx : isBlank x = false := by simpa [hd] using hhead
      rw [hd] at hsplit
      rcases Lexeme.cases_head x rest hx with ⟨l, after, hl, hs⟩ | hx | ⟨rfl, hq⟩
      · obtain ⟨t, next, hreads, hrest⟩ := tokensFrom_of_lexeme hc (hl ▸ hsplit) hg hs
        have hlt := congrArg List.length hreads.rest
        have hpos := hreads.placed.nonempty
        have hoff := hreads.offset
        simp only [List.length_append] at hlt
        exact lexeme c hc _ l t next hreads (ih next.rest.length (by omega) next hreads.on rfl)
      · exact stray c hc _ x rest hsplit hg hx
      · exact unclosed c hc _ rest hsplit hg hq

end Source
end FrontEnd
