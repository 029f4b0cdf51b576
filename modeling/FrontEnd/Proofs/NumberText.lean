import FrontEnd.Json.Writer
import FrontEnd.Proofs.DecimalText

namespace FrontEnd.Json

variable {text magnitude : List Char} {negative : Bool}

/-- A magnitude has no sign before it. -/
theorem head_magnitude (h : isMagnitude magnitude = true) :
    ∀ c ∈ magnitude.head?, c.isDigit = true := by
  intro c hc
  cases magnitude with
  | nil => cases hc
  | cons x rest =>
    obtain rfl : x = c := by simpa using hc
    by_contra hx
    rw [isMagnitude, List.takeWhile_cons_of_neg hx] at h
    cases h

/-- A magnitude with the sign that it may have. -/
def signed (negative : Bool) (magnitude : List Char) : List Char :=
  if negative then '-' :: magnitude else magnitude

theorem splitSign_signed (h : isMagnitude magnitude = true) :
    Numeral.splitSign (signed negative magnitude) = (negative, magnitude) := by
  have hhead := head_magnitude h
  unfold signed
  split_ifs with hneg
  · rw [hneg]
    rfl
  · rw [Bool.not_eq_true] at hneg
    rw [hneg, Numeral.splitSign]
    · rintro rest rfl
      exact absurd (hhead '-' rfl) (by decide)
    · rintro rest rfl
      exact absurd (hhead '+' rfl) (by decide)

theorem isNumber_signed (h : isMagnitude magnitude = true) :
    isNumber (signed negative magnitude) = true := by
  have hhead := head_magnitude h
  unfold signed
  split_ifs with hneg
  · exact h
  · rw [isNumber]
    · exact h
    · rintro rest rfl
      exact absurd (hhead '-' rfl) (by decide)

theorem isMagnitude_toDigits (n : Nat) : isMagnitude (Nat.toDigits 10 n) = true := by
  have hd := Numeral.isDigit_toDigits n
  rw [isMagnitude, List.takeWhile_eq_self_iff.2 hd, List.dropWhile_eq_nil_iff.2 hd,
    isWhole_toDigits]
  rfl

theorem toList_int (i : Int) :
    (toString i).toList = signed (decide (i < 0)) (Nat.toDigits 10 i.natAbs) := by
  rw [Int.toString_eq_repr, Int.repr_eq_if, signed]
  rcases Int.lt_or_le i 0 with hneg | hpos
  · rw [if_neg (by omega), decide_eq_true hneg, String.toList_append, Nat.toList_repr,
      show (-i).toNat = i.natAbs by omega]
    rfl
  · rw [if_pos hpos, decide_eq_false (by omega), Nat.toList_repr,
      show i.toNat = i.natAbs by omega]
    rfl

theorem toList_finite {rank : Nat} (h : rank < Binary64.rankLimit) :
    (floatText (.finite negative rank h)).toList =
      signed negative (Binary64.magnitudeText rank).toList := by
  change ((if negative then "-" else "") ++ Binary64.magnitudeText rank).toList = _
  rw [String.toList_append, signed]
  split_ifs <;> rfl

/-- The number that a text stands for, if it is one that the writer writes. -/
def scalarOf? (text : List Char) : Option Scalar :=
  if text = "NaN".toList then some (.float .nan)
  else if text = "Infinity".toList then some (.float (.infinite false))
  else if text = "-Infinity".toList then some (.float (.infinite true))
  else
    let (negative, magnitude) := Numeral.splitSign text
    if magnitude.all Char.isDigit then
      let size : Int := Numeral.ofDigits magnitude
      some (.int (if negative then -size else size))
    else (Numeral.decimal? negative magnitude).map .float

/-- No number in the grammar is a word. -/
theorem scalarOf?_signed (h : isMagnitude magnitude = true) :
    scalarOf? (signed negative magnitude) = if magnitude.all Char.isDigit then
      some (.int (if negative then -(Numeral.ofDigits magnitude : Int)
        else Numeral.ofDigits magnitude))
    else (Numeral.decimal? negative magnitude).map .float := by
  have hnumber : isNumber (signed negative magnitude) = true := isNumber_signed h
  have hword : ∀ word, isNumber word = false → signed negative magnitude ≠ word := by
    rintro word hw rfl
    rw [hnumber] at hw
    cases hw
  rw [scalarOf?, if_neg (hword _ (by decide)), if_neg (hword _ (by decide)),
    if_neg (hword _ (by decide)), splitSign_signed h]

theorem isNumber_int (i : Int) : isNumber (toString i).toList = true := by
  rw [toList_int]
  exact isNumber_signed (isMagnitude_toDigits _)

theorem scalarOf?_int (i : Int) : scalarOf? (toString i).toList = some (.int i) := by
  have hd := List.all_eq_true.2 (Numeral.isDigit_toDigits i.natAbs)
  rw [toList_int, scalarOf?_signed (isMagnitude_toDigits _), hd, if_pos rfl,
    Numeral.ofDigits_toDigits]
  congr 2
  rcases Int.lt_or_le i 0 with hneg | hpos
  · rw [decide_eq_true hneg, if_pos rfl]
    omega
  · rw [decide_eq_false (by omega), if_neg (by decide)]
    omega

theorem isNumber_finite {rank : Nat} (h : rank < Binary64.rankLimit) :
    isNumber (floatText (.finite negative rank h)).toList = true := by
  obtain ⟨d, hd, -⟩ := Binary64.magnitudeText_decimal h
  rw [toList_finite, hd]
  exact isNumber_signed d.isMagnitude_text

/-- The text of a floating-point number is read back as it, whatever it is. -/
theorem scalarOf?_float (x : Binary64) : scalarOf? (floatText x).toList = some (.float x) := by
  cases x with
  | nan => rfl
  | infinite negative =>
    cases negative with
    | true => rfl
    | false => rfl
  | finite negative rank h =>
    obtain ⟨d, hd, hread⟩ := Binary64.magnitudeText_decimal h
    rw [toList_finite, hd, scalarOf?_signed d.isMagnitude_text, d.not_all_isDigit,
      if_neg (by decide), d.decimal?_text, hread negative]
    rfl

/-- A floating-point number has a text in the number grammar exactly if it is finite. -/
theorem isNumber_float_iff (x : Binary64) :
    isNumber (floatText x).toList = true ↔ ∃ negative rank h, x = .finite negative rank h := by
  cases x with
  | nan => exact ⟨fun h => absurd h (by decide), fun ⟨_, _, _, h⟩ => nomatch h⟩
  | infinite negative =>
    refine ⟨fun h => ?_, fun ⟨_, _, _, h⟩ => nomatch h⟩
    cases negative with
    | true => exact absurd h (by decide)
    | false => exact absurd h (by decide)
  | finite negative rank h => exact ⟨fun _ => ⟨_, _, _, rfl⟩, fun _ => isNumber_finite h⟩

end FrontEnd.Json
