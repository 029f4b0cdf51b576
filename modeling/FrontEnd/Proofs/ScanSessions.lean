import FrontEnd.Proofs.Scanning
import FrontEnd.Token.Session

namespace FrontEnd

open Text

namespace Cursor

variable {text taken more : List Char} {c next last : Cursor}

/-- From one cursor to the next the characters `taken` are passed. -/
structure Passes (c : Cursor) (taken : List Char) (next : Cursor) : Prop where
  rest : c.rest = taken ++ next.rest
  position : next.position = c.position.afterAll taken

theorem Passes.refl (c : Cursor) : c.Passes [] c := ⟨rfl, rfl⟩

theorem Passes.eq (h : c.Passes [] next) : next = c := by
  obtain ⟨position, rest⟩ := next
  obtain ⟨hrest, rfl⟩ := h
  obtain rfl : c.rest = rest := hrest
  rfl

theorem Passes.trans (h : c.Passes taken next) (h' : next.Passes more last) :
    c.Passes (taken ++ more) last where
  rest := by rw [h.rest, h'.rest, List.append_assoc]
  position := by
    rw [h'.position, h.position]
    exact List.foldl_append.symm

theorem passes_skip (c : Cursor) (n : Nat) : c.Passes (c.rest.take n) (c.skip n) :=
  ⟨(List.take_append_drop n c.rest).symm, rfl⟩

theorem passes_skipWhile (c : Cursor) (p : Char → Bool) :
    c.Passes (c.rest.takeWhile p) (c.skipWhile p) :=
  ⟨List.takeWhile_append_dropWhile.symm, rfl⟩

theorem On.passes (h : On text c) (hp : c.Passes taken next) : On text next := by
  obtain ⟨position, rest⟩ := next
  obtain ⟨hrest, rfl⟩ := hp
  exact h.afterAll hrest

/-- What is passed comes behind what was passed before. -/
theorem Passes.take (hp : c.Passes taken next) (h : On text c) :
    text.take next.position.offset = text.take c.position.offset ++ taken := by
  rw [hp.position, Position.afterAll_offset, List.take_add, h.rest, hp.rest, List.take_left]

end Cursor

/-- A step passes a stretch of the text, and a token it gives is that stretch. -/
structure Scan.Takes (scan : Scan) (c : Cursor) (taken : List Char) : Prop where
  passes : c.Passes taken scan.cursor
  lexeme : ∀ t, scan.outcome = .ok t → t.lexeme.toList = taken

namespace Source

variable {s : Source} {c stop : Cursor} {kind : Kind} {lexeme taken : List Char} {value : Scalar}
  {line first last : Nat} {fault : ScanFault}

theorem emit_takes (h : c.Passes lexeme stop) :
    (s.emit kind lexeme value line first last stop).Takes c lexeme where
  passes := by rwa [emit_cursor]
  lexeme t ht := by rw [(emit_eq_ok ht).1, String.toList_ofList]

theorem refuse_takes {error : Span → LexicalError} (h : c.Passes taken stop) :
    (s.refuse error line first last stop).Takes c taken where
  passes := by
    unfold refuse
    split <;> exact h
  lexeme t ht := absurd ht (refuse_outcome_ne_ok s _ _ _ _ _ t)

theorem number_takes (s : Source) (c : Cursor) : ∃ taken, (s.number c).Takes c taken := by
  have hp := c.passes_skipWhile Char.isDigit
  unfold number
  dsimp only
  split
  · exact ⟨_, emit_takes hp⟩
  · exact ⟨_, hp, by simp⟩

theorem word_takes (s : Source) (c : Cursor) : ∃ taken, (s.word c).Takes c taken :=
  ⟨_, emit_takes (c.passes_skipWhile isWordPart)⟩

theorem passes_operator (h : operatorAt? c.rest = some (lexeme, kind)) :
    c.Passes lexeme (c.skip lexeme.length) := by
  have hp := c.passes_skip lexeme.length
  rwa [← List.prefix_iff_eq_take.1 (operatorAt?_visible h).1] at hp

theorem operator_takes (s : Source) (c : Cursor) : ∃ taken, (s.operator c).Takes c taken := by
  unfold operator
  split
  · rename_i lexeme kind hop
    exact ⟨lexeme, emit_takes (passes_operator hop)⟩
  · exact ⟨[], refuse_takes (.refl c)⟩

theorem string_takes (s : Source) (c : Cursor) : ∃ taken, (s.string c).Takes c taken := by
  cases hr : c.rest with
  | nil =>
    have hend : s.string c = ⟨.error .endOfText, c⟩ := by simp [string, hr]
    rw [hend]
    exact ⟨[], .refl c, by simp⟩
  | cons x rest =>
    by_cases hq : '"' ∈ rest
    · obtain ⟨inner, after, rfl, hinner⟩ := List.eq_append_cons_of_mem hq
      rw [string_closed s hr hinner rfl]
      exact ⟨_, emit_takes ⟨by simp [hr], rfl⟩⟩
    · rw [string_open s hr hq]
      exact ⟨x :: rest, refuse_takes ⟨by simp [hr], rfl⟩⟩

theorem token_takes (s : Source) (c : Cursor) : ∃ taken, (s.token c).Takes c taken := by
  unfold token
  split
  · exact s.operator_takes c
  · split
    · exact s.number_takes c
    · split
      · exact s.string_takes c
      · split
        · exact s.word_takes c
        · exact s.operator_takes c

/-- Reading a whole source passes a stretch of it that all its tokens lie in. -/
theorem tokensFrom_passes (s : Source) (c : Cursor) :
    ∃ taken, c.Passes taken (s.tokensFrom c).cursor ∧
      ∀ t ∈ (s.tokensFrom c).tokens, t.lexeme.toList <:+: taken := by
  generalize hlen : c.rest.length = len
  induction len using Nat.strongRecOn generalizing c with
  | ind len ih =>
    have hgap := c.passes_skipWhile isBlank
    obtain ⟨taken, htakes⟩ := s.token_takes (c.skipWhile isBlank)
    rw [tokensFrom]
    dsimp only
    split
    · exact ⟨_, hgap, by simp⟩
    · split
      · exact ⟨_, hgap.trans htakes.passes, by simp⟩
      · rename_i t ht
        have hlt := length_rest_token_lt ht
        have hle := Cursor.length_rest_skipWhile_le c isBlank
        obtain ⟨more, hmore, htokens⟩ := ih _ (by omega) (s.token (c.skipWhile isBlank)).cursor rfl
        refine ⟨_, (hgap.trans htakes.passes).trans hmore, ?_⟩
        intro u hu
        rcases List.mem_cons.1 hu with rfl | hu
        · rw [htakes.lexeme u ht]
          exact ⟨c.rest.takeWhile isBlank, more, rfl⟩
        · exact (htokens u hu).trans (List.suffix_append _ more).isInfix

theorem digits_empty {digits : List Char} (h : numberValue? digits = none) : digits = [] := by
  unfold numberValue? at h
  split at h
  · rename_i hempty
    exact List.isEmpty_iff.1 hempty
  · split at h <;> cases h

/-- Where no number can be read there is no digit, so nothing was passed. -/
theorem number_error (hc : c.On s.text) (h : (s.number c).outcome = .error fault) :
    (s.number c).cursor = c := by
  have hp := c.passes_skipWhile Char.isDigit
  rw [number_cursor]
  unfold number at h
  dsimp only at h
  split at h
  · have hv : ∀ y ∈ c.rest.takeWhile Char.isDigit, isBlank y = false := by
      intro y hy
      exact isBlank_of_isDigit (List.all_eq_true.1 List.all_takeWhile y hy)
    obtain ⟨_, _, hok⟩ := emit_flat hc hv hp.position
    rw [hok] at h
    cases h
  · rename_i hnone
    rw [digits_empty hnone] at hp
    exact hp.eq

theorem operator_error (hc : c.On s.text) (h : (s.operator c).outcome = .error fault) :
    (s.operator c).cursor = c := by
  unfold operator at h ⊢
  split at h
  · rename_i lexeme kind hop
    obtain ⟨_, hv⟩ := operatorAt?_visible hop
    obtain ⟨_, _, hok⟩ := emit_flat hc hv (passes_operator hop).position
    rw [hok] at h
    cases h
  · unfold refuse
    split <;> rfl

end Source

namespace ScanSession

/-- What a session can be asked for. -/
inductive Action where
  | tokenize | peek | peekNext | advance | atEnd | number | string | word | operator
  | rename (name : String)
  | setKeywords (keywords : Keywords)

/-- The fault of what failed. -/
def fault? {α : Type} : Except ScanFault α → Option ScanFault
  | .ok _ => none
  | .error fault => some fault

/-- The fault of an action if it fails, and the session after it. -/
def perform (s : ScanSession) : Action → Option ScanFault × ScanSession
  | .tokenize => s.tokenize.map fault? id
  | .peek | .peekNext | .atEnd => (none, s)
  | .advance => s.advance.map fault? id
  | .number => (s.step Source.number).map fault? id
  | .string => (s.step Source.string).map fault? id
  | .word => (s.step Source.word).map fault? id
  | .operator => (s.step Source.operator).map fault? id
  | .rename name => (none, s.rename name)
  | .setKeywords keywords => (none, s.setKeywords keywords)

def run (s : ScanSession) (actions : List Action) : ScanSession :=
  actions.foldl (fun s action => (s.perform action).2) s

/-- The cursor stands in the text, and the tokens are stretches of the text before it. -/
structure Sound (s : ScanSession) (text : List Char) : Prop where
  source : s.source.text = text
  on : s.cursor.On text
  tokens : ∀ t ∈ s.tokens, t.lexeme.toList <:+: text.take s.cursor.position.offset

variable {s : ScanSession} {text : List Char} {read : Source → Cursor → Scan} {action : Action}
  {fault : ScanFault}

theorem start_sound (source : Source) : (start source).Sound source.text where
  source := rfl
  on := Cursor.on_start source.text
  tokens := by simp [start]

/-- What was passed may have no token, but it leaves the tokens there are in the text before. -/
theorem Sound.passes {next : Cursor} {taken : List Char} (h : s.Sound text)
    (hp : s.cursor.Passes taken next) :
    ∀ t ∈ s.tokens, t.lexeme.toList <:+: text.take next.position.offset := by
  intro t ht
  rw [hp.take h.on]
  exact (h.tokens t ht).trans (List.prefix_append _ taken).isInfix

theorem Sound.step (h : s.Sound text)
    (hr : ∃ taken, (read s.source s.cursor).Takes s.cursor taken) :
    (s.step read).2.Sound text := by
  obtain ⟨taken, hpasses, hlexeme⟩ := hr
  have hbefore := h.passes hpasses
  have hon := h.on.passes hpasses
  unfold ScanSession.step
  dsimp only
  split
  · exact ⟨h.source, hon, hbefore⟩
  · rename_i t ht
    refine ⟨h.source, hon, fun u hu => ?_⟩
    rcases List.mem_append.1 hu with hu | hu
    · exact hbefore u hu
    · rw [List.mem_singleton.1 hu, hlexeme t ht, hpasses.take h.on]
      exact (List.suffix_append _ taken).isInfix

theorem Sound.advance (h : s.Sound text) : s.advance.2.Sound text := by
  have hp := s.cursor.passes_skip 1
  unfold ScanSession.advance
  split
  · exact h
  · exact ⟨h.source, h.on.passes hp, h.passes hp⟩

theorem Sound.tokenize (h : s.Sound text) : s.tokenize.2.Sound text := by
  obtain ⟨taken, hp, htokens⟩ := s.source.tokensFrom_passes s.source.start
  have hstart : s.source.start.On text := h.source ▸ Cursor.on_start s.source.text
  have htake := hp.take hstart
  have hsound :
      ScanSession.Sound ⟨s.source, s.source.lexing.cursor, s.source.lexing.tokens⟩ text := by
    refine ⟨h.source, hstart.passes hp, fun t ht => ?_⟩
    dsimp only [Source.lexing] at ht ⊢
    rw [htake]
    exact (htokens t ht).trans (List.suffix_append _ taken).isInfix
  unfold ScanSession.tokenize
  dsimp only
  split <;> exact hsound

theorem Sound.perform (h : s.Sound text) (action : Action) : (s.perform action).2.Sound text := by
  cases action with
  | tokenize => exact h.tokenize
  | peek | peekNext | atEnd => exact h
  | advance => exact h.advance
  | number => exact h.step (Source.number_takes _ _)
  | string => exact h.step (Source.string_takes _ _)
  | word => exact h.step (Source.word_takes _ _)
  | operator => exact h.step (Source.operator_takes _ _)
  | rename name | setKeywords keywords => exact ⟨h.source, h.on, h.tokens⟩

theorem Sound.run (h : s.Sound text) (actions : List Action) : (s.run actions).Sound text := by
  induction actions generalizing s with
  | nil => exact h
  | cons action actions ih => exact ih (h.perform action)

/-- A step that fails only moves the cursor. -/
theorem step_error (h : (s.step read).1 = .error fault) :
    (read s.source s.cursor).outcome = .error fault ∧
      (s.step read).2 = { s with cursor := (read s.source s.cursor).cursor } := by
  unfold ScanSession.step at h ⊢
  dsimp only at h ⊢
  split at h
  · rename_i hf
    cases h
    exact ⟨hf, rfl⟩
  · cases h

theorem advance_error (h : s.advance.1 = .error fault) : s.advance.2 = s := by
  unfold ScanSession.advance at h ⊢
  split at h
  · rfl
  · cases h

theorem fault?_eq_some {α : Type} {r : Except ScanFault α} :
    fault? r = some fault ↔ r = .error fault := by
  cases r <;> simp [fault?]

/-- No action but a whole reading both fails and changes the tokens. -/
theorem tokens_perform (h : (s.perform action).1 = some fault) (ha : action ≠ .tokenize) :
    (s.perform action).2.tokens = s.tokens := by
  cases action with
  | tokenize => contradiction
  | peek | peekNext | atEnd | rename | setKeywords => cases h
  | advance => exact congrArg tokens (advance_error (fault?_eq_some.1 h))
  | number | string | word | operator =>
    exact (congrArg tokens (step_error (fault?_eq_some.1 h)).2 :)

theorem cursor_perform (hs : s.Sound text) (h : (s.perform action).1 = some fault)
    (ha : action ∈ [.advance, .number, .operator]) : (s.perform action).2.cursor = s.cursor := by
  have hc : s.cursor.On s.source.text := hs.source ▸ hs.on
  simp only [List.mem_cons, List.not_mem_nil, or_false] at ha
  rcases ha with rfl | rfl | rfl
  · exact congrArg cursor (advance_error (fault?_eq_some.1 h))
  · obtain ⟨hf, he⟩ := step_error (fault?_eq_some.1 h)
    exact (congrArg cursor he).trans (Source.number_error hc hf)
  · obtain ⟨hf, he⟩ := step_error (fault?_eq_some.1 h)
    exact (congrArg cursor he).trans (Source.operator_error hc hf)

end ScanSession

/-- A source is known by its name, its text and its keywords. -/
theorem Source.eq_of_text {s : Source} {text : List Char} (h : s.text = text) :
    s = { name := s.name, text := text, keywords := s.keywords } := by
  obtain ⟨name, text, keywords, lines, hlines⟩ := s
  cases h
  cases hlines
  rfl

/-- Whatever was done in a session, and whatever of it failed: the cursor stands in the text, at the
line and the column that the characters before it make; every token is a stretch of those
characters; what fails, but for a whole reading, leaves the tokens as they are, and where it read
one character, a number or an operator, it leaves the cursor too; and a whole reading is that of a
new session of the same text, under the name and with the keywords there are now. -/
theorem scan_session (source : Source) (actions : List ScanSession.Action) (s : ScanSession)
    (h : (ScanSession.start source).run actions = s) :
    s.source.text = source.text ∧
      s.cursor.position.offset ≤ source.text.length ∧
      s.cursor.rest = source.text.drop s.cursor.position.offset ∧
      s.cursor.position.line =
        1 + (source.text.take s.cursor.position.offset).count '\n' ∧
      s.cursor.position.column =
        ((source.text.take s.cursor.position.offset).reverse.takeWhile (· ≠ '\n')).length ∧
      (∀ t ∈ s.tokens, t.lexeme.toList <:+: source.text.take s.cursor.position.offset) ∧
      (∀ action fault, (s.perform action).1 = some fault →
        (action ≠ .tokenize → (s.perform action).2.tokens = s.tokens) ∧
        (action ∈ [.advance, .number, .operator] →
          (s.perform action).2.cursor = s.cursor)) ∧
      s.tokenize = (ScanSession.start {
        name := s.source.name
        text := source.text
        keywords := s.source.keywords }).tokenize := by
  have hs : s.Sound source.text := h ▸ (ScanSession.start_sound source).run actions
  refine ⟨hs.source, hs.on.le_length, hs.on.rest.symm, hs.on.line, ?_, hs.tokens, ?_, ?_⟩
  · rw [hs.on.column, Text.sub_lineStart hs.on.le_length]
  · intro action fault hf
    exact ⟨ScanSession.tokens_perform hf, ScanSession.cursor_perform hs hf⟩
  · rw [← Source.eq_of_text hs.source]
    rfl

/-- A string that begins at a line feed behind a carriage return ends before its own start on the
line that is shown. -/
def returned : Source :=
  .ofText "a\r\n+\" x" "returned" .standard

/-- The string fails behind its closing quote, and the name read before stays the only token. Then
no operator is found, and the cursor stays. -/
theorem scan_session_returned :
    (((ScanSession.start returned).run [.word, .advance]).perform .string).1 =
      some (.badSpan (.columns 2 1)) ∧
    ∃ s, (ScanSession.start returned).run [.word, .advance, .string, .rename "later"] = s ∧
      s.cursor.position = ⟨5, 2, 2⟩ ∧ s.tokens.map Token.lexeme = ["a"] ∧
      (s.perform .operator).1 = some (.lexical (.unknownCharacter ' '
        ⟨2, 2, 3, "later", "+\" x", by decide, by decide⟩)) ∧
      (s.perform .operator).2.tokens = s.tokens ∧ (s.perform .operator).2.cursor = s.cursor ∧
      s.tokenize = (ScanSession.start (.ofText "a\r\n+\" x" "later" .standard)).tokenize := by
  have hstring : (((ScanSession.start returned).run [.word, .advance]).perform .string).1 =
      some (.badSpan (.columns 2 1)) := by decide +kernel
  generalize hs : (ScanSession.start returned).run [.word, .advance, .string, .rename "later"] = s
  have hposition : s.cursor.position = ⟨5, 2, 2⟩ := by
    subst hs
    decide +kernel
  have htokens : s.tokens.map Token.lexeme = ["a"] := by
    subst hs
    decide +kernel
  have hstray : (s.perform .operator).1 = some (.lexical (.unknownCharacter ' '
      ⟨2, 2, 3, "later", "+\" x", by decide, by decide⟩)) := by
    subst hs
    decide +kernel
  obtain ⟨_, _, _, _, _, _, hfails, hfresh⟩ := scan_session returned _ s hs
  obtain ⟨hkeeps, hstays⟩ := hfails .operator _ hstray
  refine ⟨hstring, s, rfl, hposition, htokens, hstray, hkeeps (by simp), hstays (by simp), ?_⟩
  rw [hfresh]
  subst hs
  rfl

end FrontEnd
