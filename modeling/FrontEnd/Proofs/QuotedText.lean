import Mathlib.Algebra.Group.Nat.Even
import FrontEnd.Text.Quoted

namespace FrontEnd.Text

variable {mark c : Char} {cs rest text : List Char}

theorem newline_not_mem_hexDigits (width n : Nat) : '\n' ∉ hexDigits width n := by
  induction width generalizing n with
  | zero => exact List.not_mem_nil
  | succ width ih =>
    have hdigit : ∀ d < 16, '\n' ≠ Nat.digitChar d := by decide
    rw [hexDigits, List.mem_append, not_or, List.mem_singleton]
    exact ⟨ih (n / 16), hdigit _ (Nat.mod_lt n (by decide))⟩

theorem newline_not_mem_escapeNumber (n : Nat) : '\n' ∉ escapeNumber n := by
  have hdigits := newline_not_mem_hexDigits
  unfold escapeNumber
  split
  · simp [hdigits]
  · split <;> simp [hdigits]

/-- A line feed is always written by its letter. -/
theorem newline_not_mem_quoteChar (hm : mark ≠ '\n') : '\n' ∉ quoteChar mark c := by
  unfold quoteChar
  split
  · rename_i hc
    simp only [Bool.or_eq_true, decide_eq_true_eq] at hc
    rcases hc with rfl | rfl
    · simpa using Ne.symm hm
    · decide
  · split
    · decide
    · split
      · decide
      · rename_i hc
        split
        · decide
        · split
          · simpa using Ne.symm hc
          · exact newline_not_mem_escapeNumber c.toNat

theorem newline_not_mem_quoted (text : String) : '\n' ∉ (quoted text).toList := by
  have hmark : quoteMark text.toList ≠ '\n' := by
    unfold quoteMark
    split <;> decide
  have hinner : '\n' ∉ text.toList.flatMap (quoteChar (quoteMark text.toList)) := by
    intro h
    obtain ⟨c, _, hc⟩ := List.mem_flatMap.1 h
    exact newline_not_mem_quoteChar hmark hc
  simp [quoted, hinner, Ne.symm hmark]

theorem quoteMark_cases (text : List Char) : quoteMark text = '"' ∨ quoteMark text = '\'' := by
  unfold quoteMark
  split
  · exact .inl rfl
  · exact .inr rfl

/-- Where a reader is inside of quotes. -/
inductive QuoteMode where
  | plain
  /-- Behind a backslash. -/
  | escaped
  /-- In a number of which `value` is read, with `more` digits behind the next one. -/
  | digits (more value : Nat)

def digitValue (c : Char) : Nat :=
  if c.isDigit then c.toNat - '0'.toNat else c.toNat - 'a'.toNat + 10

/-- The character that is meant by this one behind a backslash. -/
def unescaped (c : Char) : Char :=
  if c = 't' then '\t' else if c = 'n' then '\n' else if c = 'r' then '\r' else c

def push (c : Char) (p : List Char × List Char) : List Char × List Char :=
  (c :: p.1, p.2)

/-- The text up to the closing mark, and what stands behind that. -/
def readQuote (mark : Char) : QuoteMode → List Char → Option (List Char × List Char)
  | _, [] => none
  | .plain, c :: cs =>
    if c = mark then some ([], cs)
    else if c = '\\' then readQuote mark .escaped cs
    else (readQuote mark .plain cs).map (push c)
  | .escaped, c :: cs =>
    if c = 'x' then readQuote mark (.digits 1 0) cs
    else if c = 'u' then readQuote mark (.digits 3 0) cs
    else if c = 'U' then readQuote mark (.digits 7 0) cs
    else (readQuote mark .plain cs).map (push (unescaped c))
  | .digits 0 value, c :: cs =>
    (readQuote mark .plain cs).map (push (Char.ofNat (16 * value + digitValue c)))
  | .digits (more + 1) value, c :: cs =>
    readQuote mark (.digits more (16 * value + digitValue c)) cs

def readQuoted : List Char → Option (List Char × List Char)
  | [] => none
  | mark :: cs => if mark = '"' ∨ mark = '\'' then readQuote mark .plain cs else none

theorem digitValue_digitChar (n : Nat) : digitValue (Nat.digitChar (n % 16)) = n % 16 := by
  have hall : ∀ d < 16, digitValue (Nat.digitChar d) = d := by decide
  exact hall _ (Nat.mod_lt n (by decide))

theorem mul_pow_add_mod (width value n : Nat) :
    16 * (16 ^ width * value + n / 16 % 16 ^ width) + n % 16 =
      16 ^ (width + 1) * value + n % 16 ^ (width + 1) := by
  rw [Nat.pow_succ', Nat.mod_mul, Nat.mul_add, Nat.mul_assoc]
  omega

/-- Digits are added to the value, each of them one place behind the last. -/
theorem readQuote_hexDigits (width more value n : Nat) :
    readQuote mark (.digits (width + more) value) (hexDigits width n ++ cs) =
      readQuote mark (.digits more (16 ^ width * value + n % 16 ^ width)) cs := by
  induction width generalizing more n cs with
  | zero => simp [hexDigits, Nat.mod_one]
  | succ width ih =>
    have hmore : width + 1 + more = width + (more + 1) := by omega
    rw [hexDigits, List.append_assoc, hmore, ih, List.singleton_append, readQuote,
      digitValue_digitChar, mul_pow_add_mod]

theorem readQuote_number (width n : Nat) (hn : n < 16 ^ (width + 1)) :
    readQuote mark (.digits width 0) (hexDigits (width + 1) n ++ cs) =
      (readQuote mark .plain cs).map (push (Char.ofNat n)) := by
  have hvalue := mul_pow_add_mod width 0 n
  rw [Nat.mul_zero, Nat.mul_zero, Nat.zero_add, Nat.zero_add, Nat.mod_eq_of_lt hn] at hvalue
  have hdigits := @readQuote_hexDigits mark (Nat.digitChar (n % 16) :: cs) width 0 0 (n / 16)
  rw [Nat.add_zero, Nat.mul_zero, Nat.zero_add] at hdigits
  rw [hexDigits, List.append_assoc, List.singleton_append, hdigits, readQuote,
    digitValue_digitChar, hvalue]

section Marks

variable (hm : mark = '"' ∨ mark = '\'')
include hm

theorem readQuote_backslash :
    readQuote mark .plain ('\\' :: cs) = readQuote mark .escaped cs := by
  have hmark : '\\' ≠ mark := by rcases hm with rfl | rfl <;> decide
  rw [readQuote, if_neg hmark, if_pos rfl]

theorem readQuote_escapeNumber (c : Char) :
    readQuote mark .plain (escapeNumber c.toNat ++ cs) =
      (readQuote mark .plain cs).map (push c) := by
  have hbound : c.toNat < 16 ^ 8 := c.val.toNat_lt
  unfold escapeNumber
  split
  · rename_i h
    rw [List.cons_append, List.cons_append, readQuote_backslash hm, readQuote, if_pos rfl,
      readQuote_number 1 _ h, Char.ofNat_toNat]
  · split
    · rename_i h
      rw [List.cons_append, List.cons_append, readQuote_backslash hm, readQuote,
        if_neg (by decide), if_pos rfl, readQuote_number 3 _ h, Char.ofNat_toNat]
    · rw [List.cons_append, List.cons_append, readQuote_backslash hm, readQuote,
        if_neg (by decide), if_neg (by decide), if_pos rfl, readQuote_number 7 _ hbound,
        Char.ofNat_toNat]

/-- A character is read as what was written. -/
theorem readQuote_quoteChar (c : Char) :
    readQuote mark .plain (quoteChar mark c ++ cs) = (readQuote mark .plain cs).map (push c) := by
  have hletter : ∀ c : Char, c ≠ 'x' → c ≠ 'u' → c ≠ 'U' →
      readQuote mark .plain ('\\' :: c :: cs) =
        (readQuote mark .plain cs).map (push (unescaped c)) := by
    intro c hx hu hU
    rw [readQuote_backslash hm, readQuote, if_neg hx, if_neg hu, if_neg hU]
  unfold quoteChar
  split
  · rename_i h
    simp only [Bool.or_eq_true, decide_eq_true_eq] at h
    have hc : c = '"' ∨ c = '\'' ∨ c = '\\' := by
      rcases h with rfl | rfl
      · exact hm.imp_right .inl
      · exact .inr (.inr rfl)
    rcases hc with rfl | rfl | rfl
    · exact hletter '"' (by decide) (by decide) (by decide)
    · exact hletter '\'' (by decide) (by decide) (by decide)
    · exact hletter '\\' (by decide) (by decide) (by decide)
  · rename_i h
    simp only [Bool.or_eq_true, decide_eq_true_eq, not_or] at h
    split
    · rename_i hc
      exact hc ▸ hletter 't' (by decide) (by decide) (by decide)
    · split
      · rename_i hc
        exact hc ▸ hletter 'n' (by decide) (by decide) (by decide)
      · split
        · rename_i hc
          exact hc ▸ hletter 'r' (by decide) (by decide) (by decide)
        · split
          · rw [List.singleton_append, readQuote, if_neg h.1, if_neg h.2]
          · exact readQuote_escapeNumber hm c

theorem readQuote_inner : readQuote mark .plain (text.flatMap (quoteChar mark) ++ mark :: rest) =
    some (text, rest) := by
  induction text with
  | nil => rw [List.flatMap_nil, List.nil_append, readQuote, if_pos rfl]
  | cons c text ih =>
    rw [List.flatMap_cons, List.append_assoc, readQuote_quoteChar hm, ih]
    rfl

end Marks

/-- A quoted text is read as the text, in front of anything. -/
theorem readQuoted_quoted (text : String) :
    readQuoted ((quoted text).toList ++ rest) = some (text.toList, rest) := by
  have hm := quoteMark_cases text.toList
  rw [quoted, String.toList_ofList, List.cons_append, List.append_assoc, List.singleton_append,
    readQuoted, if_pos hm, readQuote_inner hm]

end FrontEnd.Text
