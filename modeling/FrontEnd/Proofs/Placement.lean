import FrontEnd.Proofs.Lines
import FrontEnd.Token.Scan

namespace FrontEnd

open Text

namespace Position

variable {p : Position} {cs : List Char}

theorem after_offset (p : Position) (x : Char) : (p.after x).offset = p.offset + 1 := by
  unfold after
  split <;> rfl

theorem afterAll_offset (p : Position) (cs : List Char) :
    (p.afterAll cs).offset = p.offset + cs.length := by
  induction cs generalizing p with
  | nil => rfl
  | cons x cs ih =>
    have hx := ih (p.after x)
    rw [after_offset] at hx
    simp only [afterAll, List.foldl_cons, List.length_cons] at hx ⊢
    omega

theorem afterAll_line (p : Position) (cs : List Char) :
    (p.afterAll cs).line = p.line + cs.count '\n' := by
  induction cs generalizing p with
  | nil => rfl
  | cons x cs ih =>
    refine (ih (p.after x)).trans ?_
    by_cases hx : x = '\n'
    · simp [after, hx]
      omega
    · simp [after, hx]

theorem afterAll_column (h : '\n' ∉ cs) : (p.afterAll cs).column = p.column + cs.length := by
  induction cs generalizing p with
  | nil => rfl
  | cons x cs ih =>
    simp only [List.mem_cons, not_or] at h
    refine (ih h.2).trans ?_
    simp [after, Ne.symm h.1]
    omega

end Position

namespace Cursor

variable {text cs rest : List Char} {c : Cursor}

/-- The cursor stands in the text, and its numbers are those of its offset. -/
structure On (text : List Char) (c : Cursor) : Prop where
  le_length : c.position.offset ≤ text.length
  rest : text.drop c.position.offset = c.rest
  line : c.position.line = 1 + feeds text c.position.offset
  column : c.position.column = c.position.offset - lineStart text c.position.offset

theorem on_start (text : List Char) : On text (ofText text) where
  le_length := Nat.zero_le _
  rest := rfl
  line := by simp [ofText, Position.start, feeds]
  column := by simp [ofText, Position.start]

theorem On.after {x : Char} (h : On text c) (hr : c.rest = x :: rest) :
    On text ⟨c.position.after x, rest⟩ := by
  have hdrop : text.drop c.position.offset = x :: rest := h.rest.trans hr
  have hget := getElem?_of_drop hdrop
  have hle := lineStart_le text c.position.offset
  have hoff := Position.after_offset c.position x
  constructor
  · have hlen := (List.getElem?_eq_some_iff.1 hget).1
    dsimp only
    omega
  · dsimp only
    rw [hoff, ← List.tail_drop, hdrop]
    rfl
  · dsimp only
    rw [hoff, feeds_succ hget]
    unfold Position.after
    split
    · simp only [h.line]
      omega
    · exact h.line
  · dsimp only
    rw [hoff]
    unfold Position.after
    split
    · rename_i hx
      simp [lineStart, hget, hx]
    · rename_i hx
      simp only [lineStart, hget, Option.some.injEq, if_neg hx, h.column]
      omega

/-- Moving over a stretch of text keeps the cursor's numbers right. -/
theorem On.afterAll (h : On text c) (hr : c.rest = cs ++ rest) :
    On text ⟨c.position.afterAll cs, rest⟩ := by
  induction cs generalizing c with
  | nil =>
    have hc : (⟨c.position.afterAll [], rest⟩ : Cursor) = c := by
      rw [← List.nil_append rest, ← hr]
      rfl
    exact hc ▸ h
  | cons x cs ih => exact @ih ⟨c.position.after x, cs ++ rest⟩ (h.after hr) rfl

theorem On.skipWhile (h : On text c) (p : Char → Bool) : On text (c.skipWhile p) :=
  h.afterAll List.takeWhile_append_dropWhile.symm

end Cursor

section Runs

variable {α : Type} {p : α → Bool} {xs after : List α}

theorem takeWhile_append_stops (hin : ∀ y ∈ xs, p y = true)
    (hout : ∀ y ∈ after.head?, p y = false) : (xs ++ after).takeWhile p = xs := by
  rw [List.takeWhile_append_of_pos hin]
  cases after with
  | nil => simp
  | cons y after => simp [hout y (by simp)]

theorem dropWhile_append_stops (hin : ∀ y ∈ xs, p y = true)
    (hout : ∀ y ∈ after.head?, p y = false) : (xs ++ after).dropWhile p = after := by
  rw [List.dropWhile_append_of_pos hin]
  cases after with
  | nil => simp
  | cons y after => simp [hout y (by simp)]

theorem Cursor.skipWhile_eq {p : Char → Bool} {xs after : List Char} {c : Cursor}
    (hr : c.rest = xs ++ after)
    (hin : ∀ y ∈ xs, p y = true) (hout : ∀ y ∈ after.head?, p y = false) :
    c.skipWhile p = ⟨c.position.afterAll xs, after⟩ := by
  rw [skipWhile, hr, takeWhile_append_stops hin hout, dropWhile_append_stops hin hout]

end Runs

namespace Source

variable {s : Source} {c stop : Cursor} {kind : Kind} {lexeme rest : List Char} {value : Scalar}
  {line first last : Nat} {t : Token} {x : Char}

theorem line_feeds {i : Nat} (h : i ≤ s.text.length) :
    s.line (1 + feeds s.text i : Nat) = String.ofList (trimReturns (lineAround s.text i)) := by
  have hget := splitLines_feeds h
  have hpos : (1 : Int) ≤ (1 + feeds s.text i : Nat) := by omega
  have hidx : ((1 + feeds s.text i : Nat) - 1 : Int).toNat = feeds s.text i := by omega
  rw [Source.line, lineAt, if_pos hpos, hidx, s.lines_eq, Text.lines]
  simp only [List.getElem?_toArray, List.getElem?_map, hget]
  rfl

/-- The token `t` is the stretch of the source between two offsets, and its span shows it where it
is: on its line, which is shown whole but for carriage returns at the end, up to where the stretch
ends or, if it runs on, up to the end of the line. -/
structure Placed (s : Source) (first last : Nat) (t : Token) : Prop where
  nonempty : first < last
  within : last ≤ s.text.length
  lexeme : t.lexeme.toList = (s.text.take last).drop first
  solid : Solid t.lexeme.toList
  filename : t.span.filename = s.name
  line : t.span.line = 1 + feeds s.text first
  startColumn : t.span.startColumn = first - lineStart s.text first
  lineContent : t.span.lineContent = String.ofList (trimReturns (lineAround s.text first))
  endColumn : t.span.endColumn =
    if '\n' ∈ t.lexeme.toList then t.span.lineContent.length
    else t.span.startColumn + t.lexeme.length

theorem emit_eq_ok (h : (s.emit kind lexeme value line first last stop).outcome = .ok t) :
    t.lexeme = String.ofList lexeme ∧ t.span.line = line ∧ t.span.startColumn = first ∧
      t.span.endColumn = last ∧ t.span.filename = s.name ∧ t.span.lineContent = s.line line := by
  unfold emit Source.span Span.make at h
  split at h
  · rename_i span hspan
    cases h
    split at hspan
    · split at hspan
      · cases hspan
        simp
      · cases hspan
    · cases hspan
  · cases h

/-- A step that gives a token leaves it in its place, from the cursor before to the one behind. -/
structure Steps (s : Source) (c : Cursor) (scan : Scan) (t : Token) : Prop where
  on : scan.cursor.On s.text
  placed : s.Placed c.position.offset scan.cursor.position.offset t

/-- So does every step that moves over the lexeme and then shows it. -/
theorem emit_steps (hc : c.On s.text) (hr : c.rest = lexeme ++ rest) (hs : Solid lexeme)
    (hstop : stop = ⟨c.position.afterAll lexeme, rest⟩)
    (hlast : last = if '\n' ∈ lexeme then (s.line c.position.line).length
      else c.position.column + lexeme.length)
    (h : (s.emit kind lexeme value c.position.line c.position.column last stop).outcome = .ok t) :
    s.Steps c (s.emit kind lexeme value c.position.line c.position.column last stop) t := by
  obtain ⟨hlex, hline, hstart, hend, hname, hcontent⟩ := emit_eq_ok h
  have htext : s.text.drop c.position.offset = lexeme ++ rest := hc.rest.trans hr
  have hchars : t.lexeme.toList = lexeme := by rw [hlex, String.toList_ofList]
  have hlen := congrArg List.length htext
  have hle := hc.le_length
  have hpos := hs.length_pos
  simp only [List.length_drop, List.length_append] at hlen
  constructor
  · rw [emit_cursor, hstop]
    exact hc.afterAll hr
  · rw [emit_cursor, hstop, Position.afterAll_offset]
    constructor
    · omega
    · omega
    · rw [hchars, slice_eq htext]
    · exact hchars ▸ hs
    · exact hname
    · rw [hline, hc.line]
    · rw [hstart, hc.column]
    · rw [hcontent, hc.line, line_feeds hle]
    · rw [hend, hlast, hchars, hcontent, hstart, hlex, String.length_ofList]

/-- Visible characters stay on their line, so it does not matter where the line is asked for. -/
theorem emit_steps_flat (hc : c.On s.text) (hr : c.rest = lexeme ++ rest) (hne : lexeme ≠ [])
    (hv : ∀ x ∈ lexeme, isBlank x = false) (hstop : stop = ⟨c.position.afterAll lexeme, rest⟩)
    (h : (s.emit kind lexeme value stop.position.line c.position.column stop.position.column
      stop).outcome = .ok t) :
    s.Steps c (s.emit kind lexeme value stop.position.line c.position.column stop.position.column
      stop) t := by
  have hn := newline_not_mem_of_visible hv
  have hline : stop.position.line = c.position.line := by
    rw [hstop, Position.afterAll_line, List.count_eq_zero.2 hn]
    rfl
  have hcolumn : stop.position.column = c.position.column + lexeme.length := by
    rw [hstop, Position.afterAll_column hn]
  rw [hline] at h ⊢
  exact emit_steps hc hr (solid_of_visible hne hv) hstop (by rw [if_neg hn, hcolumn]) h

theorem number_steps (hc : c.On s.text) (hr : c.rest = x :: rest) (hx : x.isDigit = true)
    (h : (s.number c).outcome = .ok t) : s.Steps c (s.number c) t := by
  have hne : c.rest.takeWhile Char.isDigit ≠ [] := by simp [hr, hx]
  have hv : ∀ y ∈ c.rest.takeWhile Char.isDigit, isBlank y = false := by
    intro y hy
    exact isBlank_of_isDigit (List.all_eq_true.1 List.all_takeWhile y hy)
  unfold number at h ⊢
  dsimp only at h ⊢
  split at h
  · exact emit_steps_flat hc List.takeWhile_append_dropWhile.symm hne hv rfl h
  · cases h

theorem isBlank_of_isWordPart (h : isWordPart x = true) : isBlank x = false := by
  simp only [isWordPart, Char.isAlphanum, Bool.or_eq_true, beq_iff_eq] at h
  rcases h with (h | h) | h
  · exact isBlank_of_isAlpha h
  · exact isBlank_of_isDigit h
  · exact h ▸ rfl

theorem word_steps (hc : c.On s.text) (hr : c.rest = x :: rest) (hx : isWordPart x = true)
    (h : (s.word c).outcome = .ok t) : s.Steps c (s.word c) t := by
  have hne : c.rest.takeWhile isWordPart ≠ [] := by simp [hr, hx]
  have hv : ∀ y ∈ c.rest.takeWhile isWordPart, isBlank y = false := by
    intro y hy
    exact isBlank_of_isWordPart (List.all_eq_true.1 List.all_takeWhile y hy)
  exact emit_steps_flat hc List.takeWhile_append_dropWhile.symm hne hv rfl h

/-- What is found in a table of spellings is one of its entries. -/
theorem mem_of_lookup {table : List (String × Kind)} {text : String}
    (h : table.lookup text = some kind) : (text, kind) ∈ table := by
  obtain ⟨before, after, hsplit, _⟩ := List.lookup_eq_some_iff.1 h
  simp [hsplit]

/-- What holds of every character in the table holds of the operators found in it. -/
theorem all_of_ofOperator? {p : Char → Bool} {cs : List Char}
    (hall : (Kind.operators.all fun e => e.1.toList.all p) = true)
    (h : Kind.ofOperator? (String.ofList cs) = some kind) : ∀ y ∈ cs, p y = true := by
  have hword := List.all_eq_true.1 hall _ (mem_of_lookup h)
  rw [String.toList_ofList] at hword
  exact List.all_eq_true.1 hword

theorem isBlank_of_ofOperator? {cs : List Char}
    (h : Kind.ofOperator? (String.ofList cs) = some kind) : ∀ y ∈ cs, isBlank y = false := by
  have hall : (Kind.operators.all fun e => e.1.toList.all fun y => !isBlank y) = true := by decide
  simpa using all_of_ofOperator? hall h

/-- An operator is at the head of the text, and all of it can be seen. -/
theorem operatorAt?_visible {cs : List Char} (h : operatorAt? cs = some (lexeme, kind)) :
    lexeme <+: cs ∧ ∀ y ∈ lexeme, isBlank y = false := by
  unfold operatorAt? at h
  split at h
  · cases h
  · rename_i a
    simp only [Option.map_eq_some_iff, Prod.mk.injEq] at h
    obtain ⟨kind', hk, rfl, rfl⟩ := h
    exact ⟨List.prefix_refl _, isBlank_of_ofOperator? hk⟩
  · rename_i a b more
    split at h
    · rename_i hk
      cases h
      exact ⟨⟨more, rfl⟩, isBlank_of_ofOperator? hk⟩
    · simp only [Option.map_eq_some_iff, Prod.mk.injEq] at h
      obtain ⟨kind', hk, rfl, rfl⟩ := h
      exact ⟨⟨b :: more, rfl⟩, isBlank_of_ofOperator? hk⟩

theorem operator_steps (hc : c.On s.text) (h : (s.operator c).outcome = .ok t) :
    s.Steps c (s.operator c) t := by
  unfold operator at h ⊢
  split at h
  · rename_i lexeme kind hop
    obtain ⟨⟨rest, hr⟩, hv⟩ := operatorAt?_visible hop
    have hstop : c.skip lexeme.length = ⟨c.position.afterAll lexeme, rest⟩ := by
      rw [Cursor.skip, ← hr, List.take_left, List.drop_left]
    exact emit_steps_flat hc hr.symm (operatorAt?_ne_nil hop).2 hv hstop h
  · exact absurd h (refuse_outcome_ne_ok s _ _ _ _ _ t)

section Strings

variable {inner after : List Char}

theorem ne_quote (hq : '"' ∉ inner) : ∀ y ∈ inner, (y != '"') = true := by
  intro y hy
  simp only [bne_iff_ne]
  intro he
  exact hq (he ▸ hy)

/-- Inside a string the cursor goes on to the next quote. -/
theorem skip_inner (hr : c.rest = x :: (inner ++ after)) (hq : '"' ∉ inner)
    (ha : ∀ y ∈ after.head?, (y != '"') = false) :
    (c.skip 1).skipWhile (· != '"') = ⟨c.position.afterAll (x :: inner), after⟩ := by
  have hskip : c.skip 1 = ⟨c.position.after x, inner ++ after⟩ := by
    simp [Cursor.skip, hr, Position.afterAll]
  rw [hskip]
  exact Cursor.skipWhile_eq rfl (ne_quote hq) ha

/-- A string is closed by the next quote behind its first character. -/
theorem string_closed (s : Source) (hr : c.rest = x :: (inner ++ '"' :: after)) (hq : '"' ∉ inner)
    (hstop : stop = ⟨c.position.afterAll (x :: inner ++ ['"']), after⟩) :
    s.string c = s.emit .string (x :: inner ++ ['"']) (.text (String.ofList inner)) c.position.line
      c.position.column (if stop.position.line = c.position.line then stop.position.column
        else (s.line c.position.line).length) stop := by
  have hout : ∀ y ∈ ('"' :: after).head?, (y != '"') = false := by simp
  have hskip : Cursor.skip ⟨c.position.afterAll (x :: inner), '"' :: after⟩ 1 = stop := by
    simp [Cursor.skip, Position.afterAll, hstop]
  simp only [string, hr, takeWhile_append_stops (ne_quote hq) hout, skip_inner hr hq hout, hskip,
    Cursor.atEnd, List.isEmpty_cons, Bool.false_eq_true, if_false]

theorem string_open (s : Source) (hr : c.rest = x :: rest) (hq : '"' ∉ rest) :
    s.string c = s.refuse .unterminatedString c.position.line c.position.column
      (max (c.position.column + 1) (s.line c.position.line).length)
      ⟨c.position.afterAll (x :: rest), []⟩ := by
  have hbody : (c.skip 1).skipWhile (· != '"') = ⟨c.position.afterAll (x :: rest), []⟩ :=
    skip_inner (by rw [hr, List.append_nil]) hq (by simp)
  simp only [string, hr, hbody, Cursor.atEnd, List.isEmpty_nil, if_true]

theorem string_steps (hc : c.On s.text) (hr : c.rest = x :: rest) (hx : isBlank x = false)
    (h : (s.string c).outcome = .ok t) : s.Steps c (s.string c) t := by
  by_cases hq : '"' ∈ rest
  · obtain ⟨inner, after, rfl, hinner⟩ := List.eq_append_cons_of_mem hq
    have hrest : c.rest = (x :: inner ++ ['"']) ++ after := by simp [hr]
    have hsolid : Solid (x :: inner ++ ['"']) :=
      ⟨⟨x, rfl, hx⟩, '"', List.getLast?_concat, rfl⟩
    rw [string_closed s hr hinner rfl] at h ⊢
    refine emit_steps hc hrest hsolid rfl ?_ h
    rw [Position.afterAll_line]
    by_cases hn : '\n' ∈ x :: inner ++ ['"']
    · have hcount := List.count_pos_iff.2 hn
      rw [if_pos hn, if_neg (by omega)]
    · rw [if_neg hn, List.count_eq_zero.2 hn, Nat.add_zero, if_pos rfl,
        Position.afterAll_column hn]
  · rw [string_open s hr hq] at h
    exact absurd h (refuse_outcome_ne_ok s _ _ _ _ _ t)

end Strings

theorem token_steps (hc : c.On s.text) (hx : ∀ x ∈ c.rest.head?, isBlank x = false)
    (h : (s.token c).outcome = .ok t) : s.Steps c (s.token c) t := by
  unfold token at h ⊢
  split at h
  · exact operator_steps hc h
  · rename_i x rest hr
    have hb : isBlank x = false := hx x (by simp [hr])
    split at h
    · rename_i hd
      rw [if_pos hd]
      exact number_steps hc hr hd h
    · rename_i hd
      rw [if_neg hd]
      split at h
      · rename_i hq
        rw [if_pos hq]
        exact string_steps hc hr hb h
      · rename_i hq
        rw [if_neg hq]
        split at h
        · rename_i hw
          rw [if_pos hw]
          exact word_steps hc hr (isWordPart_of_isWordStart hw) h
        · rename_i hw
          rw [if_neg hw]
          exact operator_steps hc h

end Source
end FrontEnd
