import FrontEnd.Proofs.Numerals
import FrontEnd.Proofs.Placement
import Mathlib.Data.List.Basic

namespace FrontEnd

open Text

inductive Lexeme where
  | word (first : Char) (more : List Char) (starts : isWordStart first = true)
      (goesOn : more.all isWordPart = true)
  | number (first : Char) (more : List Char) (starts : first.isDigit = true)
      (goesOn : more.all Char.isDigit = true)
  | quoted (inner : List Char) (closes : '"' ∉ inner)
  | operator (symbol : List Char) (kind : Kind)
      (listed : Kind.ofOperator? (String.ofList symbol) = some kind)

/-- A character that may stand outside strings. -/
def isLegal (c : Char) : Bool :=
  isBlank c || c.isDigit || c.isAlpha || c == '_' || c == '"' ||
    (Kind.ofOperator? (String.ofList [c])).isSome

namespace Lexeme

def chars : Lexeme → List Char
  | word first more _ _ => first :: more
  | number first more _ _ => first :: more
  | quoted inner _ => '"' :: (inner ++ ['"'])
  | operator symbol _ _ => symbol

def kind (keywords : Keywords) : Lexeme → Kind
  | word first more _ _ => keywords.kindOf (String.ofList (first :: more))
  | number .. => .number
  | quoted .. => .string
  | operator _ kind _ => kind

/-- A number is an integer if it can be read as one. -/
def value (keywords : Keywords) : Lexeme → Scalar
  | word first more _ _ =>
    let text := String.ofList (first :: more)
    if keywords.kindOf text = .identifier then .text text
    else if keywords.kindOf text = .trueWord then .bool true
    else if keywords.kindOf text = .falseWord then .bool false
    else .null
  | number first more _ _ =>
    let text := String.ofList (first :: more)
    match Numeral.integer? text, Numeral.real? text with
    | some n, _ => .int n
    | none, some x => .float x
    | none, none => .null
  | quoted inner _ => .text (String.ofList inner)
  | operator .. => .null

/-- The token that a lexeme stands for, wherever it stands. -/
structure Denotes (l : Lexeme) (keywords : Keywords) (t : Token) : Prop where
  kind : t.kind = l.kind keywords
  lexeme : t.lexeme = String.ofList l.chars
  value : t.value = l.value keywords

/-- The second lexeme cannot stand right behind the first: the end of the first would be lost. -/
def merges : Lexeme → Lexeme → Bool
  | word .., word .. => true
  | word .., number .. => true
  | number .., number .. => true
  | operator [x] _ _, m =>
    m.chars.head?.any fun c => (Kind.ofOperator? (String.ofList [x, c])).isSome
  | _, _ => false

/-- What comes behind does not go on with the lexeme. -/
def Stops : Lexeme → List Char → Prop
  | word .., after => ∀ c ∈ after.head?, isWordPart c = false
  | number .., after => ∀ c ∈ after.head?, c.isDigit = false
  | quoted .., _ => True
  | operator symbol _ _, after => ∀ x, symbol = [x] →
      ∀ c ∈ after.head?, Kind.ofOperator? (String.ofList [x, c]) = none

end Lexeme

section Characters

variable {c x first : Char} {more symbol after : List Char} {kind : Kind}

theorem isWordPart_of_mem_word (starts : isWordStart first = true)
    (goesOn : more.all isWordPart = true) : ∀ c ∈ first :: more, isWordPart c = true := by
  simpa [Source.isWordPart_of_isWordStart starts] using goesOn

theorem isDigit_of_mem_number (starts : first.isDigit = true)
    (goesOn : more.all Char.isDigit = true) : ∀ c ∈ first :: more, c.isDigit = true := by
  simpa [starts] using goesOn

theorem isBlank_of_not_isLegal (h : isLegal c = false) : isBlank c = false := by
  simp only [isLegal, Bool.or_eq_false_iff] at h
  simp [h]

theorem isDigit_of_isWordStart (h : isWordStart c = true) : c.isDigit = false := by
  cases hd : c.isDigit with
  | false => rfl
  | true =>
    obtain ⟨hlow, hhigh⟩ := Char.isDigit_iff_toNat.1 hd
    have hl : '0'.toNat = 48 := rfl
    have hh : '9'.toNat = 57 := rfl
    simp only [isWordStart, Bool.or_eq_true, beq_iff_eq] at h
    rcases h with h | rfl
    · have := toNat_of_isAlpha h
      omega
    · cases hd

theorem isWordPart_of_isDigit (h : c.isDigit = true) : isWordPart c = true := by
  simp [isWordPart, Char.isAlphanum, h]

theorem isWordPart_of_ofOperator? (h : Kind.ofOperator? (String.ofList symbol) = some kind) :
    ∀ c ∈ symbol, isWordPart c = false := by
  have hall : (Kind.operators.all fun e => e.1.toList.all fun c => !isWordPart c) = true := by
    decide
  simpa using Source.all_of_ofOperator? hall h

theorem ne_quote_of_ofOperator? (h : Kind.ofOperator? (String.ofList symbol) = some kind) :
    ∀ c ∈ symbol, c ≠ '"' := by
  have hall : (Kind.operators.all fun e => e.1.toList.all fun c => c != '"') = true := by decide
  simpa using Source.all_of_ofOperator? hall h

theorem isLegal_of_ofOperator? (h : Kind.ofOperator? (String.ofList symbol) = some kind) :
    ∀ c ∈ symbol, isLegal c = true := by
  have hall : (Kind.operators.all fun e => e.1.toList.all isLegal) = true := by decide +kernel
  exact Source.all_of_ofOperator? hall h

/-- Operators have one character or two. -/
theorem length_of_ofOperator? (h : Kind.ofOperator? (String.ofList symbol) = some kind) :
    (∃ x, symbol = [x]) ∨ ∃ x y, symbol = [x, y] := by
  have hall : (Kind.operators.all fun e =>
      e.1.toList.length == 1 || e.1.toList.length == 2) = true := by decide
  have hlen := List.all_eq_true.1 hall _ (Source.mem_of_lookup h)
  simp only [String.toList_ofList, Bool.or_eq_true, beq_iff_eq] at hlen
  rcases hlen with hlen | hlen
  · exact .inl (List.length_eq_one_iff.1 hlen)
  · exact .inr (List.length_eq_two.1 hlen)

end Characters

namespace Lexeme

variable {l m : Lexeme} {c x : Char} {rest after : List Char}

theorem exists_cons (l : Lexeme) : ∃ x rest, l.chars = x :: rest := by
  cases l with
  | word first more _ _ => exact ⟨first, more, rfl⟩
  | number first more _ _ => exact ⟨first, more, rfl⟩
  | quoted inner _ => exact ⟨'"', _, rfl⟩
  | operator symbol kind listed =>
    rcases length_of_ofOperator? listed with ⟨x, rfl⟩ | ⟨x, y, rfl⟩
    · exact ⟨x, [], rfl⟩
    · exact ⟨x, [y], rfl⟩

/-- Tokens of the same lexeme differ only in their places. -/
theorem Denotes.eq_withSpan {keywords : Keywords} {t u : Token} (h : l.Denotes keywords t)
    (h' : l.Denotes keywords u) : u = { t with span := u.span } := by
  obtain ⟨hkind, hlexeme, hvalue⟩ := h
  obtain ⟨hkind', hlexeme', hvalue'⟩ := h'
  cases t
  cases u
  simp_all

theorem mem_of_head (h : l.chars = x :: rest) : x ∈ l.chars := by
  simp [h]

/-- The first character tells what kind of lexeme it is. -/
inductive Shape where
  | word | number | quoted | operator
  deriving DecidableEq

def shape : Lexeme → Shape
  | word .. => .word
  | number .. => .number
  | quoted .. => .quoted
  | operator .. => .operator

def Shape.ofHead (x : Char) : Shape :=
  if x.isDigit then .number
  else if x = '"' then .quoted
  else if isWordStart x then .word
  else .operator

theorem ofHead_eq_shape (h : l.chars = x :: rest) : Shape.ofHead x = l.shape := by
  have hmem := mem_of_head h
  cases l with
  | word first more starts _ =>
    cases h
    have hq : x ≠ '"' := by
      intro he
      rw [he] at starts
      cases starts
    simp [Shape.ofHead, isDigit_of_isWordStart starts, hq, starts, shape]
  | number first more starts _ =>
    cases h
    simp [Shape.ofHead, starts, shape]
  | quoted inner _ =>
    cases h
    rfl
  | operator symbol kind listed =>
    have hpart := isWordPart_of_ofOperator? listed x hmem
    have hq := ne_quote_of_ofOperator? listed x hmem
    have hd : x.isDigit = false := by
      cases hd : x.isDigit with
      | false => rfl
      | true => rw [isWordPart_of_isDigit hd] at hpart; cases hpart
    have hw : isWordStart x = false := by
      cases hw : isWordStart x with
      | false => rfl
      | true => rw [Source.isWordPart_of_isWordStart hw] at hpart; cases hpart
    simp [Shape.ofHead, hd, hq, hw, shape]

/-- A lexeme is known by its characters. -/
theorem chars_injective (h : l.chars = m.chars) : l = m := by
  obtain ⟨x, rest, hl⟩ := l.exists_cons
  have hs : l.shape = m.shape := (ofHead_eq_shape hl).symm.trans (ofHead_eq_shape (h ▸ hl))
  clear hl
  cases l <;> cases m <;> cases hs <;> simp only [chars] at h
  · cases h
    rfl
  · cases h
    rfl
  · simp_all
  · rename_i symbol kind listed symbol' kind' listed'
    subst h
    cases Option.some.inj (listed.symm.trans listed')
    rfl

theorem isWordPart_head (h : l.chars = x :: rest) :
    isWordPart x = (l.shape == .word || l.shape == .number) := by
  have hmem := mem_of_head h
  cases l with
  | word first more starts _ =>
    cases h
    exact Source.isWordPart_of_isWordStart starts
  | number first more starts _ =>
    cases h
    exact isWordPart_of_isDigit starts
  | quoted inner _ =>
    cases h
    rfl
  | operator symbol kind listed => exact isWordPart_of_ofOperator? listed x hmem

theorem isDigit_head (h : l.chars = x :: rest) : x.isDigit = (l.shape == .number) := by
  have hs := ofHead_eq_shape h
  unfold Shape.ofHead at hs
  split at hs
  · simp_all
  · rename_i hd
    rw [← hs, Bool.eq_false_iff.2 hd]
    split <;> (try split) <;> rfl

theorem isBlank_head (h : l.chars = x :: rest) : isBlank x = false := by
  cases l with
  | word first more starts _ =>
    cases h
    exact Source.isBlank_of_isWordPart (Source.isWordPart_of_isWordStart starts)
  | number first more starts _ =>
    cases h
    exact isBlank_of_isDigit starts
  | quoted inner _ =>
    cases h
    rfl
  | operator symbol kind listed => exact Source.isBlank_of_ofOperator? listed x (mem_of_head h)

/-- Only a string can run over a line end. -/
theorem newline_not_mem (h : l.shape ≠ .quoted) : '\n' ∉ l.chars := by
  cases l with
  | word first more starts goesOn =>
    have hp := isWordPart_of_mem_word starts goesOn
    exact newline_not_mem_of_visible fun y hy => Source.isBlank_of_isWordPart (hp y hy)
  | number first more starts goesOn =>
    have hd := isDigit_of_mem_number starts goesOn
    exact newline_not_mem_of_visible fun y hy => isBlank_of_isDigit (hd y hy)
  | quoted => exact absurd rfl h
  | operator symbol kind listed =>
    exact newline_not_mem_of_visible (Source.isBlank_of_ofOperator? listed)

/-- Right in front of another lexeme, a lexeme stops just if the two do not merge. -/
theorem stops_iff (l m : Lexeme) (after : List Char) :
    l.Stops (m.chars ++ after) ↔ l.merges m = false := by
  obtain ⟨c, more, hm⟩ := m.exists_cons
  have hhead : (m.chars ++ after).head? = some c := by simp [hm]
  cases l with
  | word =>
    have hpart := isWordPart_head hm
    simp only [Stops, hhead, Option.mem_def, Option.some.injEq, forall_eq', hpart]
    cases m <;> simp [merges, shape]
  | number =>
    have hdigit := isDigit_head hm
    simp only [Stops, hhead, Option.mem_def, Option.some.injEq, forall_eq', hdigit]
    cases m <;> simp [merges, shape]
  | quoted => simp [Stops, merges]
  | operator symbol kind listed =>
    rcases length_of_ofOperator? listed with ⟨x, rfl⟩ | ⟨x, y, rfl⟩
    · simp [Stops, merges, hm]
    · simp [Stops, merges]

/-- Behind white space nothing goes on. -/
theorem stops_of_blank (l : Lexeme) (h : ∀ c ∈ after.head?, isBlank c = true) : l.Stops after := by
  cases l with
  | word =>
    intro c hc
    cases hp : isWordPart c with
    | false => rfl
    | true => rw [← h c hc, Source.isBlank_of_isWordPart hp]
  | number =>
    intro c hc
    cases hp : c.isDigit with
    | false => rfl
    | true => rw [← h c hc, isBlank_of_isDigit hp]
  | quoted => trivial
  | operator =>
    intro x _ c hc
    cases hk : Kind.ofOperator? (String.ofList [x, c]) with
    | none => rfl
    | some kind =>
      have hb := Source.isBlank_of_ofOperator? hk c (by simp)
      rw [h c hc] at hb
      cases hb

/-- The longest operator at the head of a text. -/
theorem exists_operator {kind : Kind} (hk : Kind.ofOperator? (String.ofList [x]) = some kind)
    (rest : List Char) : ∃ (l : Lexeme) (after : List Char),
      x :: rest = l.chars ++ after ∧ l.Stops after := by
  cases rest with
  | nil => exact ⟨.operator [x] kind hk, [], rfl, by simp [Stops]⟩
  | cons c after =>
    cases hp : Kind.ofOperator? (String.ofList [x, c]) with
    | none => exact ⟨.operator [x] kind hk, c :: after, rfl, by simpa [Stops] using hp⟩
    | some pair => exact ⟨.operator [x, c] pair hp, after, rfl, by simp [Stops]⟩

/-- Either a lexeme can be taken from a text, or the text begins with a character of no lexeme, or
it begins with a string that is never closed. -/
theorem cases_head (x : Char) (rest : List Char) (hx : isBlank x = false) :
    (∃ (l : Lexeme) (after : List Char), x :: rest = l.chars ++ after ∧ l.Stops after) ∨
      isLegal x = false ∨ x = '"' ∧ '"' ∉ rest := by
  have hdrop : ∀ p : Char → Bool, ∀ c ∈ (rest.dropWhile p).head?, p c = false := by
    intro p c hc
    have hhead := List.head?_dropWhile_not p rest
    rw [Option.mem_def.1 hc] at hhead
    simpa using hhead
  by_cases hd : x.isDigit = true
  · exact .inl ⟨.number x (rest.takeWhile Char.isDigit) hd List.all_takeWhile,
      rest.dropWhile Char.isDigit, by simp [chars], hdrop _⟩
  by_cases hq : x = '"'
  · subst hq
    by_cases hmem : '"' ∈ rest
    · obtain ⟨inner, after, rfl, hn⟩ := List.eq_append_cons_of_mem hmem
      exact .inl ⟨.quoted inner hn, after, by simp [chars], trivial⟩
    · exact .inr (.inr ⟨rfl, hmem⟩)
  by_cases hw : isWordStart x = true
  · exact .inl ⟨.word x (rest.takeWhile isWordPart) hw List.all_takeWhile,
      rest.dropWhile isWordPart, by simp [chars], hdrop _⟩
  cases hk : Kind.ofOperator? (String.ofList [x]) with
  | some kind => exact .inl (exists_operator hk rest)
  | none =>
    simp only [isWordStart, Bool.or_eq_true, not_or, Bool.not_eq_true] at hw
    have hlegal : isLegal x = false := by
      rw [isLegal, hx, Bool.eq_false_iff.2 hd, hw.1, hw.2, hk]
      simp [hq]
    exact .inr (.inl hlegal)

end Lexeme
end FrontEnd
