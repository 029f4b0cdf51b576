import FrontEnd.Source.Basic
import FrontEnd.Text.Blank

namespace FrontEnd.Text

/-- The offset behind the last line feed before offset `i`; zero if there is none. -/
def lineStart (text : List Char) : Nat → Nat
  | 0 => 0
  | i + 1 => if text[i]? = some '\n' then i + 1 else lineStart text i

/-- The whole line that offset `i` is on, with its carriage returns and without its line feed. -/
def lineAround (text : List Char) (i : Nat) : List Char :=
  (text.drop (lineStart text i)).takeWhile (· ≠ '\n')

/-- How many line feeds there are before offset `i`. -/
def feeds (text : List Char) (i : Nat) : Nat :=
  (text.take i).count '\n'

variable {text cs rest : List Char} {c : Char} {i : Nat}

theorem lineStart_le (text : List Char) (i : Nat) : lineStart text i ≤ i := by
  induction i with
  | zero => exact Nat.le_refl 0
  | succ i ih =>
    unfold lineStart
    split <;> omega

/-- How far a place is from the start of its line, told by the characters before it. -/
theorem sub_lineStart (h : i ≤ text.length) :
    i - lineStart text i = ((text.take i).reverse.takeWhile (· ≠ '\n')).length := by
  induction i with
  | zero => rfl
  | succ i ih =>
    have hget : text[i]? = some text[i] := List.getElem?_eq_getElem h
    have htake : text.take (i + 1) = text.take i ++ [text[i]] := by
      rw [List.take_add_one, hget]
      rfl
    have hle := lineStart_le text i
    have hprev := ih (by omega)
    rw [htake, List.reverse_append, lineStart, hget]
    by_cases hc : text[i] = '\n'
    · simp [hc]
    · rw [if_neg (by simpa using hc), List.reverse_singleton, List.singleton_append,
        List.takeWhile_cons_of_pos (by simpa using hc), List.length_cons]
      omega

theorem feeds_succ (h : text[i]? = some c) :
    feeds text (i + 1) = feeds text i + if c = '\n' then 1 else 0 := by
  simp [feeds, List.take_add_one, h, List.count_append, List.count_singleton]

theorem slice_eq (h : text.drop i = cs ++ rest) : (text.take (i + cs.length)).drop i = cs := by
  rw [← List.take_drop, h, List.take_left]

theorem drop_slice {j : Nat} (h : i ≤ j) (hj : j ≤ text.length) :
    text.drop i = (text.take j).drop i ++ text.drop j := by
  rw [← List.drop_append_of_le_length, List.take_append_drop]
  rwa [List.length_take, Nat.min_eq_left hj]

/-- Over a stretch of text the line feeds add up. -/
theorem feeds_add (h : text.drop i = cs ++ rest) :
    feeds text (i + cs.length) = feeds text i + cs.count '\n' := by
  rw [feeds, List.take_add, h, List.take_left, List.count_append]
  rfl

theorem getElem?_of_drop (h : text.drop i = c :: rest) : text[i]? = some c := by
  rw [← List.head?_drop, h]
  rfl

/-- A line begins at the same place until it is ended. -/
theorem lineStart_add (h : text.drop i = cs ++ rest) (hn : '\n' ∉ cs) :
    lineStart text (i + cs.length) = lineStart text i := by
  induction cs generalizing i with
  | nil => rfl
  | cons c cs ih =>
    have hget := getElem?_of_drop h
    have hdrop : text.drop (i + 1) = cs ++ rest := by rw [← List.tail_drop, h]; rfl
    have hc : c ≠ '\n' := fun hc => hn (by simp [hc])
    have hnext : lineStart text (i + 1) = lineStart text i := by simp [lineStart, hget, hc]
    rw [← hnext, ← ih hdrop (fun hm => hn (by simp [hm])), List.length_cons]
    congr 1
    omega

theorem head?_splitLines (cs : List Char) :
    (splitLines cs).head? = some (cs.takeWhile (· ≠ '\n')) := by
  cases cs with
  | nil => rfl
  | cons c rest =>
    have ih := head?_splitLines rest
    by_cases hc : c = '\n'
    · simp [splitLines, hc]
    · simp only [splitLines, if_neg hc]
      cases hs : splitLines rest with
      | nil => exact absurd hs (splitLines_ne_nil rest)
      | cons line more =>
        rw [hs] at ih
        simp_all

theorem splitLines_append (xs ys : List Char) :
    splitLines (xs ++ '\n' :: ys) = splitLines xs ++ splitLines ys := by
  induction xs with
  | nil => simp [splitLines]
  | cons x xs ih =>
    by_cases hx : x = '\n'
    · simp [splitLines, hx, ih]
    · simp only [List.cons_append, splitLines, if_neg hx, ih]
      cases hs : splitLines xs with
      | nil => exact absurd hs (splitLines_ne_nil xs)
      | cons line more => rfl

theorem length_splitLines (cs : List Char) : (splitLines cs).length = cs.count '\n' + 1 := by
  induction cs with
  | nil => rfl
  | cons c cs ih =>
    by_cases hc : c = '\n'
    · simp [splitLines, hc, ih]
    · simp only [splitLines, if_neg hc]
      cases hs : splitLines cs with
      | nil => exact absurd hs (splitLines_ne_nil cs)
      | cons line more =>
        rw [hs] at ih
        simp_all

theorem splitLines_of_not_mem (h : '\n' ∉ cs) : splitLines cs = [cs] := by
  induction cs with
  | nil => rfl
  | cons c cs ih =>
    simp only [List.mem_cons, not_or] at h
    rw [splitLines, if_neg (Ne.symm h.1), ih h.2]

/-- Texts with a line feed behind each are split one by one, and nothing comes behind the last. -/
theorem splitLines_flatMap (rows : List (List Char)) :
    splitLines (rows.flatMap (· ++ ['\n'])) = rows.flatMap splitLines ++ [[]] := by
  induction rows with
  | nil => rfl
  | cons row rows ih =>
    rw [List.flatMap_cons, List.append_assoc, List.singleton_append, splitLines_append, ih,
      List.flatMap_cons, List.append_assoc]

theorem flatMap_splitLines {rows : List (List Char)} (h : ∀ row ∈ rows, '\n' ∉ row) :
    rows.flatMap splitLines = rows := by
  induction rows with
  | nil => rfl
  | cons row rows ih =>
    rw [List.forall_mem_cons] at h
    rw [List.flatMap_cons, splitLines_of_not_mem h.1, ih h.2, List.singleton_append]

/-- Lines with a line feed behind each are found again, with nothing behind the last. -/
theorem splitLines_rows {rows : List (List Char)} (h : ∀ row ∈ rows, '\n' ∉ row) :
    splitLines (rows.flatMap (· ++ ['\n'])) = rows ++ [[]] := by
  rw [splitLines_flatMap, flatMap_splitLines h]

/-- Counting line feeds finds the line. -/
theorem splitLines_feeds (h : i ≤ text.length) :
    (splitLines text)[feeds text i]? = some (lineAround text i) := by
  induction i with
  | zero =>
    have hzero : feeds text 0 = 0 := by simp [feeds]
    rw [hzero, ← List.head?_eq_getElem?]
    exact head?_splitLines text
  | succ i ih =>
    have hget : text[i]? = some text[i] := List.getElem?_eq_getElem h
    by_cases hc : text[i] = '\n'
    · have hsplit : text = text.take i ++ '\n' :: text.drop (i + 1) := by
        rw [← hc, List.getElem_cons_drop, List.take_append_drop]
      have hlen : feeds text (i + 1) = (splitLines (text.take i)).length := by
        rw [feeds_succ hget, if_pos hc, length_splitLines]
        rfl
      have hsplits : splitLines text =
          splitLines (text.take i) ++ splitLines (text.drop (i + 1)) := by
        rw [← splitLines_append, ← hsplit]
      rw [hsplits, hlen, List.getElem?_append_right (Nat.le_refl _), Nat.sub_self,
        ← List.head?_eq_getElem?, head?_splitLines]
      simp [lineAround, lineStart, hget, hc]
    · simp only [feeds_succ hget, if_neg hc, lineAround, lineStart, hget, Option.some.injEq]
      exact ih (by omega)

/-- What stands before offset `i` on its line. -/
def lead (text : List Char) (i : Nat) : List Char :=
  (text.take i).drop (lineStart text i)

theorem length_lead (h : i ≤ text.length) : (lead text i).length = i - lineStart text i := by
  simp [lead, Nat.min_eq_left h]

theorem newline_not_mem_lead (text : List Char) (i : Nat) : '\n' ∉ lead text i := by
  induction i with
  | zero => simp [lead]
  | succ i ih =>
    cases hget : text[i]? with
    | none =>
      have hlen := List.getElem?_eq_none_iff.1 hget
      have hls : lineStart text (i + 1) = lineStart text i := by simp [lineStart, hget]
      rw [lead, hls, List.take_of_length_le (by omega)]
      rwa [lead, List.take_of_length_le hlen] at ih
    | some c =>
      by_cases hc : c = '\n'
      · have hls : lineStart text (i + 1) = i + 1 := by simp [lineStart, hget, hc]
        rw [lead, hls, List.drop_take_self]
        simp
      · have hlen := (List.getElem?_eq_some_iff.1 hget).1
        have hls : lineStart text (i + 1) = lineStart text i := by simp [lineStart, hget, hc]
        have hle := lineStart_le text i
        rw [lead, hls, List.take_add_one, hget, List.drop_append_of_le_length (by simp; omega)]
        rw [lead] at ih
        simp [ih, Ne.symm hc]

theorem eq_of_feeds_of_column_of_le {j : Nat} (hle : i ≤ j) (hj : j ≤ text.length)
    (hf : feeds text i = feeds text j) (hc : i - lineStart text i = j - lineStart text j) :
    i = j := by
  have hgap := drop_slice hle hj
  have hlen : i + ((text.take j).drop i).length = j := by
    simp
    omega
  have hadd := feeds_add hgap
  rw [hlen] at hadd
  have hn : '\n' ∉ (text.take j).drop i := List.count_eq_zero.1 (by omega)
  have hstart := lineStart_add hgap hn
  have hlow := lineStart_le text i
  rw [hlen] at hstart
  omega

/-- Line and column tell the offset. -/
theorem eq_of_feeds_of_column {j : Nat} (hi : i ≤ text.length) (hj : j ≤ text.length)
    (hf : feeds text i = feeds text j) (hc : i - lineStart text i = j - lineStart text j) :
    i = j := by
  rcases Nat.le_total i j with hle | hle
  · exact eq_of_feeds_of_column_of_le hle hj hf hc
  · exact (eq_of_feeds_of_column_of_le hle hi hf.symm hc.symm).symm

theorem lineAround_eq (h : i ≤ text.length) :
    lineAround text i = lead text i ++ (text.drop i).takeWhile (· ≠ '\n') := by
  have hsplit : text.drop (lineStart text i) = lead text i ++ text.drop i :=
    drop_slice (lineStart_le text i) h
  rw [lineAround, hsplit, List.takeWhile_append_of_pos]
  intro c hc
  have hn := newline_not_mem_lead text i
  simp only [ne_eq, decide_eq_true_eq]
  intro he
  exact hn (he ▸ hc)

/-- What comes behind the first line feed does not matter. -/
theorem takeWhile_append_of_mem {xs ys : List Char} (h : '\n' ∈ xs) :
    (xs ++ ys).takeWhile (· ≠ '\n') = xs.takeWhile (· ≠ '\n') := by
  induction xs with
  | nil => cases h
  | cons x xs ih =>
    by_cases hx : x = '\n'
    · simp [hx]
    · have hm : '\n' ∈ xs := (List.mem_cons.1 h).resolve_left (Ne.symm hx)
      have hrest := ih hm
      simp_all

/-- Nothing is trimmed before a character that stays. -/
theorem trimReturns_append (xs ys : List Char) (h : c ≠ '\r') :
    trimReturns (xs ++ c :: ys) = xs ++ c :: trimReturns ys := by
  simp only [trimReturns, List.reverse_append, List.reverse_cons, List.append_assoc,
    List.dropWhile_append]
  split
  · rename_i hy
    simp [h, List.isEmpty_iff.1 hy]
  · simp

theorem trimReturns_append_of_head {xs ys : List Char} (h : ∃ c ∈ ys.head?, c ≠ '\r') :
    trimReturns (xs ++ ys) = xs ++ trimReturns ys := by
  obtain ⟨c, hc, hr⟩ := h
  obtain ⟨more, rfl⟩ := List.head?_eq_some_iff.1 hc
  rw [trimReturns_append xs more hr]
  exact congrArg (xs ++ ·) (trimReturns_append [] more hr).symm

theorem trimReturns_append_of_getLast {xs ys : List Char} (h : ∃ c ∈ xs.getLast?, c ≠ '\r') :
    trimReturns (xs ++ ys) = xs ++ trimReturns ys := by
  obtain ⟨c, hc, hr⟩ := h
  obtain ⟨front, rfl⟩ := List.getLast?_eq_some_iff.1 hc
  rw [List.append_assoc, List.singleton_append, trimReturns_append front ys hr]
  simp

/-- Neither end is white space. -/
def Solid (cs : List Char) : Prop :=
  (∃ c ∈ cs.head?, isBlank c = false) ∧ ∃ c ∈ cs.getLast?, isBlank c = false

/-- The visible characters of ASCII are no white space. -/
theorem isBlank_of_visible (h : 0x21 ≤ c.toNat) (h' : c.toNat ≤ 0x7E) : isBlank c = false := by
  simp only [isBlank, Bool.or_eq_false_iff, Bool.and_eq_false_iff, beq_eq_false_iff_ne,
    decide_eq_false_iff_not]
  omega

theorem ne_of_visible {x : Char} (hc : isBlank c = false) (hx : isBlank x = true) : c ≠ x := by
  intro he
  rw [he, hx] at hc
  cases hc

theorem newline_not_mem_of_visible {cs : List Char} (h : ∀ c ∈ cs, isBlank c = false) :
    '\n' ∉ cs :=
  fun hm => ne_of_visible (h _ hm) rfl rfl

/-- From something visible on, a line loses only what comes behind it. -/
theorem trimReturns_lineAround (h : text.drop i = c :: rest) (hc : isBlank c = false) :
    trimReturns (lineAround text i) =
      lead text i ++ c :: trimReturns (rest.takeWhile (· ≠ '\n')) := by
  have hle : i < text.length := (List.getElem?_eq_some_iff.1 (getElem?_of_drop h)).1
  have hn : c ≠ '\n' := ne_of_visible hc rfl
  have hline : lineAround text i = lead text i ++ c :: rest.takeWhile (· ≠ '\n') := by
    rw [lineAround_eq (by omega), h, List.takeWhile_cons, if_pos (by simpa using hn)]
  rw [hline, trimReturns_append _ _ (ne_of_visible hc rfl)]

theorem isBlank_of_isDigit (h : c.isDigit = true) : isBlank c = false := by
  have hrange : '0'.toNat ≤ c.toNat ∧ c.toNat ≤ '9'.toNat := Char.isDigit_iff_toNat.1 h
  have hlow : '0'.toNat = 48 := rfl
  have hhigh : '9'.toNat = 57 := rfl
  exact isBlank_of_visible (by omega) (by omega)

theorem toNat_of_isAlpha (h : c.isAlpha = true) :
    65 ≤ c.toNat ∧ c.toNat ≤ 90 ∨ 97 ≤ c.toNat ∧ c.toNat ≤ 122 := by
  have hcases : (decide (c.val ≥ 'A'.val ∧ c.val ≤ 'Z'.val) ||
      c.val ≥ 'a'.val && c.val ≤ 'z'.val) = true := h
  simp only [Bool.or_eq_true, Bool.and_eq_true, decide_eq_true_eq, ge_iff_le,
    UInt32.le_iff_toNat_le, Char.toNat_val] at hcases
  have hA : 'A'.toNat = 65 := rfl
  have hZ : 'Z'.toNat = 90 := rfl
  have ha : 'a'.toNat = 97 := rfl
  have hz : 'z'.toNat = 122 := rfl
  omega

theorem isBlank_of_isAlpha (h : c.isAlpha = true) : isBlank c = false := by
  have hrange := toNat_of_isAlpha h
  exact isBlank_of_visible (by omega) (by omega)

theorem solid_of_visible (hne : cs ≠ []) (h : ∀ c ∈ cs, isBlank c = false) : Solid cs := by
  constructor
  · exact ⟨cs.head hne, List.head?_eq_some_head hne, h _ (List.head_mem hne)⟩
  · exact ⟨cs.getLast hne, List.getLast?_eq_some_getLast hne, h _ (List.getLast_mem hne)⟩

theorem Solid.length_pos (h : Solid cs) : 0 < cs.length := by
  obtain ⟨⟨c, hc, _⟩, _⟩ := h
  cases cs with
  | nil => cases hc
  | cons => simp

theorem isDigit_of_mem_toString {c : Char} {n : Nat} (h : c ∈ (toString n).toList) :
    c.isDigit = true := by
  rw [Nat.toString_eq_repr, Nat.toList_repr] at h
  exact Nat.isDigit_of_mem_toDigits (by decide) (by decide) h

theorem newline_not_mem_toString (n : Nat) : '\n' ∉ (toString n).toList := fun h =>
  absurd (isDigit_of_mem_toString h) (by decide)

end FrontEnd.Text
