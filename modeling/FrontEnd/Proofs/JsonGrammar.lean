import FrontEnd.Json.Writer
import Mathlib.Tactic.Common

namespace FrontEnd.Json

/-- What a text says: numbers by their text, strings by their code points. -/
inductive Document where
  | null
  | bool (value : Bool)
  | number (text : List Char)
  | string (points : List Nat)
  | array (items : List Document)
  | object (fields : List (List Nat × Document))

inductive Dialect where
  | standard
  | extended
  deriving DecidableEq, Repr

def isGap (c : Char) : Bool :=
  c == ' ' || c == '\t' || c == '\n' || c == '\r'

/-- No digits but a zero begin with a zero. -/
def isWhole : List Char → Bool
  | [] => false
  | '0' :: digits => digits.isEmpty
  | digits => digits.all Char.isDigit

def isDigits (digits : List Char) : Bool :=
  !digits.isEmpty && digits.all Char.isDigit

/-- An exponent, or nothing. -/
def isPower : List Char → Bool
  | [] => true
  | mark :: '+' :: digits => (mark == 'e' || mark == 'E') && isDigits digits
  | mark :: '-' :: digits => (mark == 'e' || mark == 'E') && isDigits digits
  | mark :: digits => (mark == 'e' || mark == 'E') && isDigits digits

/-- A point with digits behind it, or nothing, and then an exponent. -/
def isFraction : List Char → Bool
  | '.' :: rest => isDigits (rest.takeWhile Char.isDigit) && isPower (rest.dropWhile Char.isDigit)
  | rest => isPower rest

def isMagnitude (text : List Char) : Bool :=
  isWhole (text.takeWhile Char.isDigit) && isFraction (text.dropWhile Char.isDigit)

def isNumber : List Char → Bool
  | '-' :: magnitude => isMagnitude magnitude
  | magnitude => isMagnitude magnitude

/-- The words of the extended dialect. -/
def oddNumbers : List (List Char) :=
  ["NaN".toList, "Infinity".toList, "-Infinity".toList]

/-- What a text without marks says. -/
def word? (dialect : Dialect) (text : List Char) : Option Document :=
  if isNumber text then some (.number text)
  else if text = "null".toList then some .null
  else if text = "true".toList then some (.bool true)
  else if text = "false".toList then some (.bool false)
  else if dialect = .extended ∧ text ∈ oddNumbers then some (.number text)
  else none

def isWordChar (c : Char) : Bool :=
  c.isAlphanum || c == '+' || c == '-' || c == '.'

def hexValue? (c : Char) : Option Nat :=
  if c.isDigit then some (c.toNat - 0x30)
  else if 'a' ≤ c ∧ c ≤ 'f' then some (c.toNat - 0x57)
  else if 'A' ≤ c ∧ c ≤ 'F' then some (c.toNat - 0x37)
  else none

/-- The number of four hexadecimal digits. -/
def hexUnit? (a b c d : Char) : Option Nat := do
  let a ← hexValue? a
  let b ← hexValue? b
  let c ← hexValue? c
  let d ← hexValue? d
  return ((a * 16 + b) * 16 + c) * 16 + d

/-- The code point that a letter behind a backslash stands for. -/
def shortEscape? : Char → Option Nat
  | '"' => some 0x22
  | '\\' => some 0x5C
  | '/' => some 0x2F
  | 'b' => some 0x08
  | 'f' => some 0x0C
  | 'n' => some 0x0A
  | 'r' => some 0x0D
  | 't' => some 0x09
  | _ => none

/-- What stands between the quotes of a string, and its units. -/
inductive Body : List Nat → List Char → Prop where
  | nil : Body [] []
  | plain {c : Char} {units : List Nat} {cs : List Char} : 0x20 ≤ c.toNat → c ≠ '"' → c ≠ '\\' →
    Body units cs → Body (c.toNat :: units) (c :: cs)
  | short {c : Char} {n : Nat} {units : List Nat} {cs : List Char} : shortEscape? c = some n →
    Body units cs → Body (n :: units) ('\\' :: c :: cs)
  | unit {a b c d : Char} {n : Nat} {units : List Nat} {cs : List Char} :
    hexUnit? a b c d = some n → Body units cs →
    Body (n :: units) ('\\' :: 'u' :: a :: b :: c :: d :: cs)

/-- Two units that are surrogates of each other are one code point. -/
def join : List Nat → List Nat
  | high :: low :: units =>
    if 0xD800 ≤ high ∧ high < 0xDC00 ∧ 0xDC00 ≤ low ∧ low < 0xE000 then
      (0x10000 + (high - 0xD800) * 0x400 + (low - 0xDC00)) :: join units
    else high :: join (low :: units)
  | units => units

/-- What a stretch of a text is: a value alone or with gaps around it, one field, or what stands
behind an opening bracket up to the closing one. -/
inductive Part where
  | value (d : Document)
  | item (d : Document)
  | items (ds : List Document)
  | field (points : List Nat) (d : Document)
  | fields (ds : List (List Nat × Document))

/-- The grammar. -/
inductive Spells (dialect : Dialect) : Part → List Char → Prop where
  | word {d : Document} {cs : List Char} : word? dialect cs = some d → Spells dialect (.value d) cs
  | string {units : List Nat} {cs : List Char} : Body units cs →
    Spells dialect (.value (.string (join units))) ('"' :: (cs ++ ['"']))
  | emptyArray {gap : List Char} : gap.all isGap = true →
    Spells dialect (.value (.array [])) ('[' :: (gap ++ [']']))
  | array {ds : List Document} {cs : List Char} : Spells dialect (.items ds) cs →
    Spells dialect (.value (.array ds)) ('[' :: cs)
  | emptyObject {gap : List Char} : gap.all isGap = true →
    Spells dialect (.value (.object [])) ('\x7b' :: (gap ++ ['\x7d']))
  | object {ds : List (List Nat × Document)} {cs : List Char} : Spells dialect (.fields ds) cs →
    Spells dialect (.value (.object ds)) ('\x7b' :: cs)
  | item {d : Document} {before cs after : List Char} : before.all isGap = true →
    Spells dialect (.value d) cs → after.all isGap = true →
    Spells dialect (.item d) (before ++ (cs ++ after))
  | lastItem {d : Document} {cs : List Char} : Spells dialect (.item d) cs →
    Spells dialect (.items [d]) (cs ++ [']'])
  | nextItem {d : Document} {ds : List Document} {cs more : List Char} :
    Spells dialect (.item d) cs → Spells dialect (.items ds) more →
    Spells dialect (.items (d :: ds)) (cs ++ ',' :: more)
  | field {units : List Nat} {d : Document} {before key after cs : List Char} :
    before.all isGap = true → Body units key → after.all isGap = true →
    Spells dialect (.item d) cs →
    Spells dialect (.field (join units) d) (before ++ '"' :: (key ++ '"' :: (after ++ ':' :: cs)))
  | lastField {points : List Nat} {d : Document} {cs : List Char} :
    Spells dialect (.field points d) cs → Spells dialect (.fields [(points, d)]) (cs ++ ['\x7d'])
  | nextField {points : List Nat} {d : Document} {ds : List (List Nat × Document)}
    {cs more : List Char} : Spells dialect (.field points d) cs → Spells dialect (.fields ds) more →
    Spells dialect (.fields ((points, d) :: ds)) (cs ++ ',' :: more)

variable {dialect : Dialect} {part : Part} {d : Document} {c : Char} {cs : List Char}

theorem isWordChar_of_isDigit (h : c.isDigit = true) : isWordChar c = true := by
  simp [isWordChar, Char.isAlphanum, h]

theorem all_of_isDigits (h : isDigits cs = true) : cs.all isWordChar = true := by
  simp only [isDigits, Bool.and_eq_true, List.all_eq_true] at h ⊢
  exact fun x hx => isWordChar_of_isDigit (h.2 x hx)

theorem all_of_isPower (h : isPower cs = true) : cs.all isWordChar = true := by
  have hmark : ∀ mark : Char, (mark == 'e' || mark == 'E') = true → isWordChar mark = true := by
    intro mark hm
    simp only [Bool.or_eq_true, beq_iff_eq] at hm
    rcases hm with rfl | rfl <;> decide
  unfold isPower at h
  split at h
  · rfl
  all_goals
    obtain ⟨hm, hd⟩ := Bool.and_eq_true_iff.1 h
    simp only [List.all_cons, hmark _ hm, all_of_isDigits hd, Bool.true_and]
  · decide
  · decide

theorem all_takeWhile (cs : List Char) : (cs.takeWhile Char.isDigit).all isWordChar = true :=
  List.all_eq_true.2 fun _ hx => isWordChar_of_isDigit (List.all_eq_true.1 List.all_takeWhile _ hx)

theorem all_of_isFraction (h : isFraction cs = true) : cs.all isWordChar = true := by
  unfold isFraction at h
  split at h
  · next rest =>
    obtain ⟨-, hp⟩ := Bool.and_eq_true_iff.1 h
    rw [List.all_cons, ← List.takeWhile_append_dropWhile (p := Char.isDigit) (l := rest),
      List.all_append, all_takeWhile, all_of_isPower hp]
    decide
  · exact all_of_isPower h

theorem all_of_isMagnitude (h : isMagnitude cs = true) : cs.all isWordChar = true := by
  obtain ⟨-, hf⟩ := Bool.and_eq_true_iff.1 h
  rw [← List.takeWhile_append_dropWhile (p := Char.isDigit) (l := cs), List.all_append,
    all_takeWhile, all_of_isFraction hf]
  rfl

theorem all_of_isNumber (h : isNumber cs = true) : cs.all isWordChar = true := by
  unfold isNumber at h
  split at h
  · rw [List.all_cons, all_of_isMagnitude h]
    decide
  · exact all_of_isMagnitude h

/-- A word is not empty and has no marks in it. -/
theorem all_of_word (h : word? dialect cs = some d) : cs ≠ [] ∧ cs.all isWordChar = true := by
  unfold word? at h
  split_ifs at h with hn ht hf hu ho
  · refine ⟨?_, all_of_isNumber hn⟩
    rintro rfl
    cases hn
  · subst ht
    decide
  · subst hf
    decide
  · subst hu
    decide
  · obtain ⟨-, ho⟩ := ho
    simp only [oddNumbers, List.mem_cons, List.not_mem_nil, or_false] at ho
    rcases ho with rfl | rfl | rfl <;> decide

mutual

/-- The texts of the numbers in a document. -/
def Document.numbers : Document → List (List Char)
  | .number text => [text]
  | .array ds => numbersIn ds
  | .object fields => numbersUnder fields
  | _ => []

def Document.numbersIn : List Document → List (List Char)
  | [] => []
  | d :: ds => d.numbers ++ numbersIn ds

def Document.numbersUnder : List (List Nat × Document) → List (List Char)
  | [] => []
  | (_, d) :: fields => d.numbers ++ numbersUnder fields

end

def Part.numbers : Part → List (List Char)
  | value d => d.numbers
  | item d => d.numbers
  | items ds => Document.numbersIn ds
  | field _ d => d.numbers
  | fields ds => Document.numbersUnder ds

theorem word_extended (h : word? dialect cs = some d) : word? .extended cs = some d := by
  unfold word? at h ⊢
  split_ifs at h with h1 h2 h3 h4 h5
  · rwa [if_pos h1]
  · rwa [if_neg h1, if_pos h2]
  · rwa [if_neg h1, if_neg h2, if_pos h3]
  · rwa [if_neg h1, if_neg h2, if_neg h3, if_pos h4]
  · rwa [if_neg h1, if_neg h2, if_neg h3, if_neg h4, if_pos ⟨rfl, h5.2⟩]

theorem word_standard (h : word? dialect cs = some d) (hn : ∀ t ∈ d.numbers, isNumber t = true) :
    word? .standard cs = some d := by
  unfold word? at h ⊢
  split_ifs at h with h1 h2 h3 h4 h5
  · rwa [if_pos h1]
  · rwa [if_neg h1, if_pos h2]
  · rwa [if_neg h1, if_neg h2, if_pos h3]
  · rwa [if_neg h1, if_neg h2, if_neg h3, if_pos h4]
  · cases h
    exact absurd (hn cs List.mem_cons_self) h1

theorem word_numbers (h : word? .standard cs = some d) : ∀ t ∈ d.numbers, isNumber t = true := by
  unfold word? at h
  split_ifs at h with h1 h2 h3 h4 h5
  all_goals
    cases h
    simp [Document.numbers]
  · exact h1
  · cases h5.1

theorem Spells.extended (h : Spells dialect part cs) : Spells .extended part cs := by
  induction h with
  | word hw => exact .word (word_extended hw)
  | string hb => exact .string hb
  | emptyArray hg => exact .emptyArray hg
  | array _ ih => exact .array ih
  | emptyObject hg => exact .emptyObject hg
  | object _ ih => exact .object ih
  | item hb _ ha ih => exact .item hb ih ha
  | lastItem _ ih => exact .lastItem ih
  | nextItem _ _ ih ihmore => exact .nextItem ih ihmore
  | field hb hk ha _ ih => exact .field hb hk ha ih
  | lastField _ ih => exact .lastField ih
  | nextField _ _ ih ihmore => exact .nextField ih ihmore

theorem Spells.standard (h : Spells dialect part cs)
    (hn : ∀ t ∈ part.numbers, isNumber t = true) : Spells .standard part cs := by
  induction h with
  | word hw => exact .word (word_standard hw hn)
  | string hb => exact .string hb
  | emptyArray hg => exact .emptyArray hg
  | array _ ih => exact .array (ih hn)
  | emptyObject hg => exact .emptyObject hg
  | object _ ih => exact .object (ih hn)
  | item hb _ ha ih => exact .item hb (ih hn) ha
  | lastItem _ ih => exact .lastItem (ih fun t ht => hn t (List.mem_append_left _ ht))
  | nextItem _ _ ih ihmore =>
    exact .nextItem (ih fun t ht => hn t (List.mem_append_left _ ht))
      (ihmore fun t ht => hn t (List.mem_append_right _ ht))
  | field hb hk ha _ ih => exact .field hb hk ha (ih hn)
  | lastField _ ih => exact .lastField (ih fun t ht => hn t (List.mem_append_left _ ht))
  | nextField _ _ ih ihmore =>
    exact .nextField (ih fun t ht => hn t (List.mem_append_left _ ht))
      (ihmore fun t ht => hn t (List.mem_append_right _ ht))

theorem Spells.numbers (h : Spells .standard part cs) : ∀ t ∈ part.numbers, isNumber t = true := by
  induction h with
  | word hw => exact word_numbers hw
  | string => exact fun t ht => absurd ht List.not_mem_nil
  | emptyArray => exact fun t ht => absurd ht List.not_mem_nil
  | array _ ih => exact ih
  | emptyObject => exact fun t ht => absurd ht List.not_mem_nil
  | object _ ih => exact ih
  | item _ _ _ ih => exact ih
  | field _ _ _ _ ih => exact ih
  | lastItem _ ih | lastField _ ih =>
    intro t ht
    rcases List.mem_append.1 ht with ht | ht
    · exact ih t ht
    · exact absurd ht List.not_mem_nil
  | nextItem _ _ ih ihmore | nextField _ _ ih ihmore =>
    intro t ht
    rcases List.mem_append.1 ht with ht | ht
    · exact ih t ht
    · exact ihmore t ht

/-- The standard texts are those of the extended dialect whose numbers are all ordinary. -/
theorem spells_standard_iff :
    Spells .standard part cs ↔ Spells .extended part cs ∧ ∀ t ∈ part.numbers, isNumber t = true :=
  ⟨fun h => ⟨h.extended, h.numbers⟩, fun h => h.1.standard h.2⟩

end FrontEnd.Json
