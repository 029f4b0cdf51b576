import FrontEnd.Numeral
import FrontEnd.Proofs.Lines
import Mathlib.Data.List.TakeWhile

namespace FrontEnd.Numeral

open Text

variable {c x : Char} {digits : List Char} {afterDigit : Bool}

theorem ne_of_isDigit (h : c.isDigit = true) (hx : x.isDigit = false) : c ≠ x := by
  intro he
  rw [he, hx] at h
  cases h

theorem digitChar_of_isDigit (h : c.isDigit = true) : Nat.digitChar (c.toNat - 0x30) = c := by
  obtain ⟨hlow, hhigh⟩ := Char.isDigit_iff_toNat.1 h
  have hl : '0'.toNat = 48 := rfl
  have hh : '9'.toNat = 57 := rfl
  have hchars : ∀ d < 10, Nat.digitChar d = Char.ofNat (48 + d) := by decide
  rw [hchars _ (by omega), show 48 + (c.toNat - 0x30) = c.toNat by omega, Char.ofNat_toNat]

theorem toLower_of_isDigit (h : c.isDigit = true) : c.toLower = c := by
  obtain ⟨hlow, hhigh⟩ := Char.isDigit_iff_toNat.1 h
  have hh : '9'.toNat = 57 := rfl
  have hchars : ∀ n < 58, (Char.ofNat n).toLower = Char.ofNat n := by decide
  rw [← Char.ofNat_toNat c]
  exact hchars _ (by omega)

theorem normalize_digits (hd : ∀ c ∈ digits, c.isDigit = true) : normalize digits = digits := by
  have hstays : ∀ cs : List Char, (∀ c ∈ cs, c.isDigit = true) → cs.dropWhile isMargin = cs := by
    intro cs hcs
    cases cs with
    | nil => rfl
    | cons c rest =>
      have hm : isMargin c = false := by rw [isMargin, isBlank_of_isDigit (hcs c (by simp))]; rfl
      rw [List.dropWhile_cons, hm]
      rfl
  rw [normalize, hstays digits hd, hstays digits.reverse (by simpa using hd), List.reverse_reverse]
  refine (List.map_congr_left ?_).trans (List.map_id digits)
  intro c hc
  rw [decimalDigit?, if_pos (hd c hc), Option.map_some, digitChar_of_isDigit (hd c hc)]
  rfl

theorem dropUnderscores_digits (hd : ∀ c ∈ digits, c.isDigit = true) :
    dropUnderscores afterDigit digits = some digits := by
  induction digits generalizing afterDigit with
  | nil => rfl
  | cons c rest ih =>
    have hc : c ≠ '_' := ne_of_isDigit (hd c (by simp)) rfl
    have hr := @ih c.isDigit fun c hr => hd c (by simp [hr])
    rw [dropUnderscores.eq_3 _ _ _ fun _ _ he _ => hc he, if_neg hc, hr]
    rfl

theorem splitSign_digits (hd : ∀ c ∈ digits, c.isDigit = true) :
    splitSign digits = (false, digits) := by
  unfold splitSign
  split
  · exact absurd (hd '-' (by simp)) (by decide)
  · exact absurd (hd '+' (by simp)) (by decide)
  · rfl

theorem integer?_digits (hne : digits ≠ []) (hd : ∀ c ∈ digits, c.isDigit = true) :
    integer? (String.ofList digits) =
      if digits.length ≤ maxDigits then some (ofDigits digits : Int) else none := by
  have hall : digits.all Char.isDigit = true := List.all_eq_true.2 hd
  have hempty : digits.isEmpty = false := by simpa using hne
  simp only [integer?, String.toList_ofList, normalize_digits hd, dropUnderscores_digits hd,
    Option.bind_eq_bind, Option.bind_some, splitSign_digits hd, hall, hempty]
  by_cases hlen : digits.length ≤ maxDigits
  · simp [hlen]
  · simp [hlen]

/-- Digits are no word for infinity or for no number, and nothing stands behind them. -/
theorem real?_digits (hne : digits ≠ []) (hd : ∀ c ∈ digits, c.isDigit = true) :
    real? (String.ofList digits) = some (Binary64.ofDecimal false (ofDigits digits) 0) := by
  have hlower : digits.map Char.toLower = digits :=
    (List.map_congr_left fun c hc => toLower_of_isDigit (hd c hc)).trans (List.map_id digits)
  have hword : ∀ word, (∃ c ∈ word.toList, c.isDigit = false) → String.ofList digits ≠ word := by
    intro word hw he
    obtain ⟨c, hc, hn⟩ := hw
    rw [← he, String.toList_ofList] at hc
    rw [hd c hc] at hn
    cases hn
  have htake : digits.takeWhile Char.isDigit = digits := List.takeWhile_eq_self_iff.2 hd
  have hdrop : digits.dropWhile Char.isDigit = [] := List.dropWhile_eq_nil_iff.2 hd
  have hempty : digits.isEmpty = false := by simpa using hne
  simp only [real?, String.toList_ofList, normalize_digits hd, dropUnderscores_digits hd,
    Option.bind_eq_bind, Option.bind_some, splitSign_digits hd, hlower,
    hword "inf" ⟨'i', by decide, rfl⟩, hword "infinity" ⟨'i', by decide, rfl⟩,
    hword "nan" ⟨'n', by decide, rfl⟩, decimal?, htake, hdrop]
  simp [splitFraction, exponent?, hempty]

end FrontEnd.Numeral
