import FrontEnd.Scalar
import FrontEnd.Proofs.ShortestDigits

namespace FrontEnd

/-- What a scalar stands for; for a number that is not infinite, its exact value. -/
inductive Worth where
  | null
  | text (value : String)
  | number (value : ℚ)
  | infinite (negative : Bool)

namespace Scalar

variable {v w : Scalar}

/-- What is not a number stands for nothing. -/
def worth? : Scalar → Option Worth
  | null => some .null
  | bool value => some (.number (if value then 1 else 0))
  | int value => some (.number value)
  | float .nan => none
  | float (.infinite negative) => some (.infinite negative)
  | float (.finite negative rank _) => some (.number ((if negative then -1 else 1) *
      Binary64.significand rank * 2 ^ ((Binary64.exponent rank : Int) - Binary64.unitPlaces)))
  | text value => some (.text value)

theorem worth?_eq_none : v.worth? = none ↔ v = float .nan := by
  cases v with
  | null | bool | int | text => simp [worth?]
  | float x =>
    cases x with
    | nan | infinite | finite => simp [worth?]

theorem units_ratio (negative : Bool) (rank : Nat) :
    ((if negative then -(Binary64.units rank : Int) else Binary64.units rank : Int) : ℚ) /
      Binary64.one = (if negative then -1 else 1) * Binary64.significand rank *
        2 ^ ((Binary64.exponent rank : Int) - Binary64.unitPlaces) := by
  have hunits : (Binary64.units rank : ℚ) =
      Binary64.significand rank * 2 ^ (Binary64.exponent rank : Int) := by
    rw [Binary64.units, Nat.pow_eq]
    push_cast
    rw [zpow_natCast]
  have hone : (Binary64.one : ℚ) = 2 ^ (Binary64.unitPlaces : Int) := by
    rw [Binary64.one_eq]
    push_cast
    rw [zpow_natCast]
  rw [zpow_sub₀ (by norm_num), ← hone]
  cases negative with
  | false =>
    simp only [Bool.false_eq_true, if_false, Int.cast_natCast, hunits, one_mul, mul_div_assoc]
  | true =>
    simp only [if_true, Int.cast_neg, Int.cast_natCast, hunits, neg_mul, one_mul, mul_div_assoc,
      neg_div]

end Scalar

namespace Quantity

variable {p q : Quantity}

/-- What a point of the number line stands for. -/
def worth : Quantity → Worth
  | finite units => .number (units / Binary64.one)
  | infinite negative => .infinite negative

theorem worth_inj (h : p.worth = q.worth) : p = q := by
  have hone : (Binary64.one : ℚ) ≠ 0 := Nat.cast_ne_zero.2 Binary64.one_pos.ne'
  cases p with
  | infinite negative =>
    cases q with
    | finite => cases h
    | infinite => rw [Worth.infinite.inj h]
  | finite units =>
    cases q with
    | infinite => cases h
    | finite others =>
      have hratio : (units : ℚ) / Binary64.one = others / Binary64.one := Worth.number.inj h
      have hunits : (units : ℚ) = others := (div_left_inj' hone).1 hratio
      rw [Int.cast_injective hunits]

end Quantity

namespace Scalar

variable {v w : Scalar} {p q : Quantity} {x : Worth}

theorem worth?_of_quantity (h : v.quantity? = some q) : v.worth? = some q.worth := by
  have hone : (Binary64.one : ℚ) ≠ 0 := Nat.cast_ne_zero.2 Binary64.one_pos.ne'
  cases v with
  | null | text => cases h
  | bool value =>
    cases h
    have hcast : ((if value then 1 else 0 : Int) : ℚ) = if value then 1 else 0 := by
      cases value with
      | false => exact Int.cast_zero
      | true => exact Int.cast_one
    rw [worth?, Quantity.worth, Int.cast_mul, Int.cast_natCast, mul_div_cancel_right₀ _ hone, hcast]
  | int value =>
    cases h
    rw [worth?, Quantity.worth, Int.cast_mul, Int.cast_natCast, mul_div_cancel_right₀ _ hone]
  | float y =>
    cases y with
    | nan => cases h
    | infinite negative =>
      cases h
      rfl
    | finite negative rank hlt =>
      cases h
      rw [worth?, Quantity.worth, units_ratio]

/-- What stands for something is nothing itself, a text, or on the number line. -/
theorem worth?_cases (h : v.worth? = some x) : (v = null ∧ x = .null) ∨
    (∃ s, v = text s ∧ x = .text s) ∨ ∃ q, v.quantity? = some q ∧ x = q.worth := by
  cases hq : v.quantity? with
  | some q =>
    rw [worth?_of_quantity hq] at h
    exact .inr (.inr ⟨q, rfl, (Option.some.inj h).symm⟩)
  | none =>
    cases v with
    | null =>
      cases h
      exact .inl ⟨rfl, rfl⟩
    | text s =>
      cases h
      exact .inr (.inl ⟨s, rfl, rfl⟩)
    | bool | int => cases hq
    | float y =>
      cases y with
      | nan => cases h
      | infinite | finite => cases hq

theorem same_of_quantity (hv : v.quantity? = some p) (hw : w.quantity? = some q) :
    v.same w = true ↔ p = q := by
  unfold same
  split
  · cases hv
  · cases hv
  · rw [hv, hw]
    exact beq_iff_eq

theorem same_cases (h : v.same w = true) : (v = null ∧ w = null) ∨
    (∃ s, v = text s ∧ w = text s) ∨ ∃ q, v.quantity? = some q ∧ w.quantity? = some q := by
  unfold same at h
  split at h
  · exact .inl ⟨rfl, rfl⟩
  · exact .inr (.inl ⟨_, rfl, by rw [eq_of_beq h]⟩)
  · split at h
    · rename_i p q hv hw
      exact .inr (.inr ⟨p, hv, (eq_of_beq h) ▸ hw⟩)
    · cases h

/-- Scalars are equal if they stand for the same, numbers of whatever kind for the same number. -/
theorem same_iff_worth : v.same w = true ↔ ∃ x, v.worth? = some x ∧ w.worth? = some x := by
  constructor
  · intro h
    obtain ⟨rfl, rfl⟩ | ⟨s, rfl, rfl⟩ | ⟨q, hv, hw⟩ := same_cases h
    · exact ⟨.null, rfl, rfl⟩
    · exact ⟨.text s, rfl, rfl⟩
    · exact ⟨q.worth, worth?_of_quantity hv, worth?_of_quantity hw⟩
  · rintro ⟨x, hv, hw⟩
    have hnumber : ∀ q : Quantity, q.worth ≠ .null ∧ ∀ s, q.worth ≠ .text s := by
      intro q
      cases q with
      | finite | infinite => exact ⟨nofun, fun _ => nofun⟩
    obtain ⟨rfl, rfl⟩ | ⟨s, rfl, rfl⟩ | ⟨p, hp, rfl⟩ := worth?_cases hv
    · obtain ⟨rfl, -⟩ | ⟨s, -, hx⟩ | ⟨q, -, hx⟩ := worth?_cases hw
      · rfl
      · cases hx
      · exact absurd hx.symm (hnumber q).1
    · obtain ⟨-, hx⟩ | ⟨s, rfl, hx⟩ | ⟨q, -, hx⟩ := worth?_cases hw
      · cases hx
      · cases hx
        exact beq_self_eq_true _
      · exact absurd hx.symm ((hnumber q).2 _)
    · obtain ⟨-, hx⟩ | ⟨s, -, hx⟩ | ⟨q, hq, hx⟩ := worth?_cases hw
      · exact absurd hx (hnumber p).1
      · exact absurd hx ((hnumber p).2 s)
      · exact (same_of_quantity hp hq).2 (Quantity.worth_inj hx)

/-- A scalar that stands for something is equal to those that stand for the same. -/
theorem same_iff_worth_eq (hv : v ≠ float .nan) : v.same w = true ↔ v.worth? = w.worth? := by
  rw [same_iff_worth]
  constructor
  · rintro ⟨x, hx, hy⟩
    rw [hx, hy]
  · intro h
    obtain ⟨x, hx⟩ := Option.ne_none_iff_exists'.1 (mt worth?_eq_none.1 hv)
    exact ⟨x, hx, h ▸ hx⟩

end Scalar
end FrontEnd
