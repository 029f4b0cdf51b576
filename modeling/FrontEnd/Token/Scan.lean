import FrontEnd.Numeral
import FrontEnd.Source.Basic
import FrontEnd.Token.Basic
import FrontEnd.Token.LexicalError

namespace FrontEnd

/-- Why a step gives no token. Only the first happens when the steps fit the characters. -/
inductive ScanFault where
  | lexical (e : LexicalError)
  | badSpan (e : Span.Invalid)
  | endOfText
  | notANumber (text : String)
  deriving DecidableEq, Repr

structure Scan where
  outcome : Except ScanFault Token
  cursor : Cursor

def isWordStart (c : Char) : Bool :=
  c.isAlpha || c == '_'

def isWordPart (c : Char) : Bool :=
  c.isAlphanum || c == '_'

/-- Runs too long for an integer are read as floating-point numbers. -/
def numberValue? (digits : List Char) : Option Scalar :=
  if digits.isEmpty then none
  else if digits.length ≤ Numeral.maxDigits then some (.int (Numeral.ofDigits digits))
  else some (.float (Binary64.ofDecimal false (Numeral.ofDigits digits) 0))

/-- A name stands for itself and the truth words for truth values; other words stand for nothing. -/
def wordValue (kind : Kind) (word : String) : Scalar :=
  match kind with
  | .identifier => .text word
  | .trueWord => .bool true
  | .falseWord => .bool false
  | _ => .null

def ScanFault.message : ScanFault → String
  | .lexical e => e.message
  | .badSpan e => e.message
  | .endOfText => "string index out of range"
  | .notANumber text => Numeral.refusal text

namespace Source

def emit (s : Source) (kind : Kind) (lexeme : List Char) (value : Scalar) (line first last : Nat)
    (c : Cursor) : Scan :=
  match s.span line first last with
  | .ok span => ⟨.ok ⟨kind, String.ofList lexeme, value, span⟩, c⟩
  | .error e => ⟨.error (.badSpan e), c⟩

@[simp] theorem emit_cursor (s : Source) (kind : Kind) (lexeme : List Char) (value : Scalar)
    (line first last : Nat) (c : Cursor) :
    (s.emit kind lexeme value line first last c).cursor = c := by
  unfold emit
  split <;> rfl

def refuse (s : Source) (fault : Span → LexicalError) (line first last : Nat) (c : Cursor) :
    Scan :=
  match s.span line first last with
  | .ok span => ⟨.error (.lexical (fault span)), c⟩
  | .error e => ⟨.error (.badSpan e), c⟩

theorem refuse_outcome_ne_ok (s : Source) (fault : Span → LexicalError) (line first last : Nat)
    (c : Cursor) (t : Token) : (s.refuse fault line first last c).outcome ≠ .ok t := by
  unfold refuse
  split <;> simp

def number (s : Source) (c : Cursor) : Scan :=
  let digits := c.rest.takeWhile Char.isDigit
  let stop := c.skipWhile Char.isDigit
  match numberValue? digits with
  | some value =>
    s.emit .number digits value stop.position.line c.position.column stop.position.column stop
  | none => ⟨.error (.notANumber (String.ofList digits)), stop⟩

/-- From an opening mark, which may be any character, to the next quote. A span stays on one line,
so that of a string over several lines ends with the first. -/
def string (s : Source) (c : Cursor) : Scan :=
  match c.rest with
  | [] => ⟨.error .endOfText, c⟩
  | mark :: rest =>
    let inner := rest.takeWhile (· != '"')
    let body := (c.skip 1).skipWhile (· != '"')
    let line := c.position.line
    let column := c.position.column
    let lineEnd := (s.line line).length
    if body.atEnd then s.refuse .unterminatedString line column (max (column + 1) lineEnd) body
    else
      let stop := body.skip 1
      let last := if stop.position.line = line then stop.position.column else lineEnd
      s.emit .string (mark :: inner ++ ['"']) (.text (String.ofList inner)) line column last stop

def word (s : Source) (c : Cursor) : Scan :=
  let letters := c.rest.takeWhile isWordPart
  let stop := c.skipWhile isWordPart
  let kind := s.keywords.kindOf (String.ofList letters)
  s.emit kind letters (wordValue kind (String.ofList letters)) stop.position.line
    c.position.column stop.position.column stop

def operatorAt? : List Char → Option (List Char × Kind)
  | [] => none
  | [a] => (Kind.ofOperator? (String.ofList [a])).map ([a], ·)
  | a :: b :: _ =>
    match Kind.ofOperator? (String.ofList [a, b]) with
    | some kind => some ([a, b], kind)
    | none => (Kind.ofOperator? (String.ofList [a])).map ([a], ·)

/-- At the end of the text the character at fault is NUL. -/
def operator (s : Source) (c : Cursor) : Scan :=
  match operatorAt? c.rest with
  | some (lexeme, kind) =>
    let stop := c.skip lexeme.length
    s.emit kind lexeme .null stop.position.line c.position.column stop.position.column stop
  | none =>
    s.refuse (.unknownCharacter (c.rest.head?.getD '\x00')) c.position.line c.position.column
      (c.position.column + 1) c

def token (s : Source) (c : Cursor) : Scan :=
  match c.rest with
  | [] => s.operator c
  | x :: _ =>
    if x.isDigit then s.number c
    else if x = '"' then s.string c
    else if isWordStart x then s.word c
    else s.operator c

theorem isWordPart_of_isWordStart {c : Char} (h : isWordStart c = true) :
    isWordPart c = true := by
  simp only [isWordStart, isWordPart, Char.isAlphanum, Bool.or_eq_true] at h ⊢
  rcases h with h | h <;> simp [h]

theorem operatorAt?_ne_nil {cs lexeme : List Char} {kind : Kind}
    (h : operatorAt? cs = some (lexeme, kind)) : cs ≠ [] ∧ lexeme ≠ [] := by
  unfold operatorAt? at h
  split at h
  · simp at h
  · simp only [Option.map_eq_some_iff, Prod.mk.injEq] at h
    obtain ⟨_, _, rfl, _⟩ := h
    simp
  · split at h
    · simp only [Option.some.injEq, Prod.mk.injEq] at h
      simp [← h.1]
    · simp only [Option.map_eq_some_iff, Prod.mk.injEq] at h
      obtain ⟨_, _, rfl, _⟩ := h
      simp

@[simp] theorem number_cursor (s : Source) (c : Cursor) :
    (s.number c).cursor = c.skipWhile Char.isDigit := by
  unfold number
  dsimp only
  split <;> simp

@[simp] theorem word_cursor (s : Source) (c : Cursor) :
    (s.word c).cursor = c.skipWhile isWordPart := by
  simp [word]

theorem length_rest_string_lt {s : Source} {c : Cursor} (h : c.rest ≠ []) :
    (s.string c).cursor.rest.length < c.rest.length := by
  unfold string
  have hpos := List.length_pos_iff.2 h
  have hbody := Cursor.length_rest_skipWhile_le (c.skip 1) (· != '"')
  have hskip := Cursor.length_rest_skip c 1
  split
  · contradiction
  · dsimp only
    split
    · unfold refuse
      split <;> dsimp only <;> omega
    · rw [emit_cursor, Cursor.length_rest_skip]
      omega

theorem length_rest_operator_lt {s : Source} {c : Cursor} {t : Token}
    (h : (s.operator c).outcome = .ok t) :
    (s.operator c).cursor.rest.length < c.rest.length := by
  unfold operator at h ⊢
  split at h
  · next lexeme kind hl =>
    obtain ⟨hc, hne⟩ := operatorAt?_ne_nil hl
    have := List.length_pos_iff.2 hc
    have := List.length_pos_iff.2 hne
    simp only [emit_cursor, Cursor.length_rest_skip]
    omega
  · exact absurd h (refuse_outcome_ne_ok s _ _ _ _ _ t)

theorem length_rest_token_lt {s : Source} {c : Cursor} {t : Token}
    (h : (s.token c).outcome = .ok t) : (s.token c).cursor.rest.length < c.rest.length := by
  unfold token at h ⊢
  split at h
  · exact length_rest_operator_lt h
  · next x r hr =>
    split at h
    · next hd => simpa [hd] using Cursor.length_rest_skipWhile_lt hr hd
    · next hd =>
      rw [if_neg hd]
      split at h
      · next hq => rw [if_pos hq]; exact length_rest_string_lt (by simp [hr])
      · next hq =>
        rw [if_neg hq]
        split at h
        · next hw =>
          simpa [hw] using Cursor.length_rest_skipWhile_lt hr (isWordPart_of_isWordStart hw)
        · next hw => rw [if_neg hw]; exact length_rest_operator_lt h

end Source

structure Lexing where
  tokens : List Token
  cursor : Cursor
  fault : Option ScanFault

namespace Source

def tokensFrom (s : Source) (c : Cursor) : Lexing :=
  let next := c.skipWhile Text.isBlank
  if next.atEnd then ⟨[], next, none⟩
  else
    let scan := s.token next
    match _h : scan.outcome with
    | .error fault => ⟨[], scan.cursor, some fault⟩
    | .ok t =>
      let more := s.tokensFrom scan.cursor
      { more with tokens := t :: more.tokens }
termination_by c.rest.length
decreasing_by
  exact Nat.lt_of_lt_of_le (length_rest_token_lt _h) (Cursor.length_rest_skipWhile_le c _)

def lexing (s : Source) : Lexing :=
  s.tokensFrom s.start

def tokens (s : Source) : Except ScanFault (List Token) :=
  match s.lexing with
  | ⟨_, _, some fault⟩ => .error fault
  | ⟨tokens, _, none⟩ => .ok tokens

end Source
end FrontEnd
