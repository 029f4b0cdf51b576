import FrontEnd.Proofs.ShortestDigits

namespace FrontEnd.Binary64

variable {n k d half : Nat}

/-- The greatest magnitude is 2^1024 - 2^971, and the middle goes to its even neighbour. -/
def overflow : Nat :=
  2 ^ 1024 - 2 ^ 970

/-- Half a step between the greatest magnitudes, in binary places. -/
def halfPlaces : Nat := 970

theorem overflow_eq : overflow = (2 ^ 54 - 1) * 2 ^ halfPlaces := by
  decide +kernel

/-- An odd number is passed at the middle behind it. -/
theorem divNearest_le_iff (hh : 0 < half) (hk : k % 2 = 1) :
    divNearest n (2 * half) ≤ k ↔ n < k * (2 * half) + half := by
  have hsplit := Nat.div_add_mod n (2 * half)
  have hmod := Nat.mod_lt n (show 0 < 2 * half by omega)
  rw [Nat.mul_comm] at hsplit
  unfold divNearest
  dsimp only
  generalize n / (2 * half) = q at *
  generalize n % (2 * half) = r at *
  rcases Nat.lt_trichotomy q k with hlt | rfl | hgt
  · have hle : (q + 1) * (2 * half) ≤ k * (2 * half) := Nat.mul_le_mul_right _ hlt
    rw [Nat.succ_mul] at hle
    have hcases : n < k * (2 * half) + half := by omega
    split_ifs <;> omega
  · split_ifs <;> omega
  · have hle : (k + 1) * (2 * half) ≤ q * (2 * half) := Nat.mul_le_mul_right _ hgt
    rw [Nat.succ_mul] at hle
    split_ifs <;> omega

theorem log2_bounds (hn : 0 < n) : 2 ^ n.log2 ≤ n ∧ n < 2 ^ (n.log2 + 1) :=
  (Nat.log2_eq_iff (by omega)).1 rfl

/-- The rank of a whole number: its leading place and, on the scale of that place, 53 digits. -/
theorem nearestRank_whole (hn : 0 < n) : nearestRank (n * one) 1 =
    (n.log2 + unitPlaces - 52) * 2 ^ 52 + divNearest (n * 2 ^ 52) (2 ^ n.log2) := by
  have hp : 52 ≤ unitPlaces := by decide
  obtain ⟨hl, hh⟩ := log2_bounds hn
  have hlog : (n * one).log2 = n.log2 + unitPlaces := by
    rw [one_eq]
    refine log2_eq ?_ ?_
    · rw [Nat.pow_add]
      exact Nat.mul_le_mul_right _ hl
    · rw [Nat.add_right_comm, Nat.pow_add]
      exact Nat.mul_lt_mul_of_pos_right hh (Nat.two_pow_pos _)
  refine nearestRank_eq ?_ ?_
  · rw [Nat.div_one, hlog]
    omega
  · have hnum : n * one = n * 2 ^ 52 * 2 ^ (unitPlaces - 52) := by
      rw [one_eq, Nat.mul_assoc, ← Nat.pow_add, Nat.add_sub_cancel' hp]
    have hden : 1 * 2 ^ (n.log2 + unitPlaces - 52) = 2 ^ n.log2 * 2 ^ (unitPlaces - 52) := by
      rw [Nat.one_mul, ← Nat.pow_add, Nat.add_sub_assoc hp]
    rw [hnum, hden, divNearest_mul (Nat.two_pow_pos _)]

theorem digits_whole (hl : 2 ^ k ≤ n) (hh : n < 2 ^ (k + 1)) :
    2 ^ 52 ≤ divNearest (n * 2 ^ 52) (2 ^ k) ∧ divNearest (n * 2 ^ 52) (2 ^ k) ≤ 2 ^ 53 := by
  have hpos := Nat.two_pow_pos k
  have hlow : 2 ^ 52 ≤ n * 2 ^ 52 / 2 ^ k := by
    rw [Nat.le_div_iff_mul_le hpos, Nat.mul_comm]
    exact Nat.mul_le_mul_right _ hl
  have hhigh : n * 2 ^ 52 / 2 ^ k < 2 ^ 53 := by
    rw [Nat.div_lt_iff_lt_mul hpos]
    rw [Nat.pow_succ] at hh
    omega
  rcases divNearest_cases (n * 2 ^ 52) (2 ^ k) with h | h
  · omega
  · omega

/-- In the last binade the digits stay below the next power of two exactly below the overflow. -/
theorem digits_lt_iff :
    divNearest (n * 2 ^ 52) (2 ^ (53 + halfPlaces)) < 2 ^ 53 ↔ n < overflow := by
  have hhalf := Nat.two_pow_pos halfPlaces
  rw [Nat.pow_add, overflow_eq]
  generalize 2 ^ halfPlaces = half at *
  have hodd := @divNearest_le_iff (n * 2 ^ 52) (2 ^ 53 - 1) (2 ^ 52 * half)
    (Nat.mul_pos (Nat.two_pow_pos 52) hhalf) (by decide)
  rw [show 2 * (2 ^ 52 * half) = 2 ^ 53 * half by omega] at hodd
  omega

/-- A whole number is rounded to a finite magnitude exactly below the overflow. -/
theorem nearestRank_lt_iff (n : Nat) : nearestRank (n * one) 1 < rankLimit ↔ n < overflow := by
  rcases Nat.eq_zero_or_pos n with rfl | hn
  · rw [Nat.zero_mul]
    exact ⟨fun _ => by decide +kernel, fun _ => by decide⟩
  · obtain ⟨hl, hh⟩ := log2_bounds hn
    obtain ⟨hlow, hhigh⟩ := digits_whole hl hh
    have hlimit : rankLimit = 2047 * 2 ^ 52 := by decide
    have hplaces : unitPlaces = halfPlaces + 104 := rfl
    have hhalf := Nat.two_pow_pos halfPlaces
    have hrange : halfPlaces = 970 := rfl
    rw [nearestRank_whole hn, hlimit, hplaces]
    rcases Nat.lt_trichotomy n.log2 (53 + halfPlaces) with hlt | heq | hgt
    · have hpow : 2 ^ (n.log2 + 1) ≤ 2 ^ (53 + halfPlaces) :=
        Nat.pow_le_pow_right (by decide) hlt
      rw [Nat.pow_add 2 53] at hpow
      rw [overflow_eq]
      omega
    · rw [heq] at hlow hhigh ⊢
      rw [← digits_lt_iff]
      omega
    · have hpow : 2 ^ (54 + halfPlaces) ≤ 2 ^ n.log2 :=
        Nat.pow_le_pow_right (by decide) (by omega)
      rw [Nat.pow_add 2 54] at hpow
      rw [overflow_eq]
      omega

end FrontEnd.Binary64
