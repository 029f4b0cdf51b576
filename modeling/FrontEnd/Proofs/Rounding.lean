import FrontEnd.Binary64.Shortest
import Mathlib.Tactic.Ring
import Mathlib.Tactic.Linarith

namespace FrontEnd.Binary64

variable {n d k num den rank : Nat}

theorem divNearest_mul {c : Nat} (hc : 0 < c) (n d : Nat) :
    divNearest (n * c) (d * c) = divNearest n d := by
  have hrest : 2 * (n * c % (d * c)) = 2 * (n % d) * c := by
    rw [Nat.mul_mod_mul_right, Nat.mul_assoc]
  unfold divNearest
  dsimp only
  rw [Nat.mul_div_mul_right n d hc, hrest]
  simp only [Nat.mul_lt_mul_right hc]

/-- The rank depends on the quotient alone. -/
theorem nearestRank_mul {c : Nat} (hc : 0 < c) (num den : Nat) :
    nearestRank (num * c) (den * c) = nearestRank num den := by
  unfold nearestRank
  dsimp only
  rw [Nat.mul_div_mul_right num den hc, Nat.mul_right_comm den c, divNearest_mul hc]

/-- What is less than a half below `k` is rounded to it. -/
theorem divNearest_eq (hl : 2 * k * d < 2 * n + d) (hh : n ≤ k * d) : divNearest n d = k := by
  have hsplit := Nat.div_add_mod n d
  have hd : 0 < d := by
    rcases Nat.eq_zero_or_pos d with rfl | hd
    · simp at hl hh
      omega
    · exact hd
  have hmod := Nat.mod_lt n hd
  unfold divNearest
  dsimp only
  rcases Nat.eq_or_lt_of_le hh with rfl | hlt
  · rw [Nat.mul_div_cancel k hd, Nat.mul_mod_left, if_pos (by omega)]
  · -- the quotient is one below `k`, and more than a half is left
    obtain ⟨j, rfl⟩ : ∃ j, k = j + 1 := ⟨k - 1, by rcases k with _ | k <;> simp_all⟩
    have hj : (j + 1) * d = j * d + d := Nat.succ_mul j d
    have hl : 2 * ((j + 1) * d) < 2 * n + d := by rwa [← Nat.mul_assoc]
    have hq : n / d = j := Nat.div_eq_of_lt_le (by omega) hlt
    have hr : n % d = n - j * d := by rw [Nat.mod_eq_sub_mul_div, hq, Nat.mul_comm]
    rw [hq, hr, if_neg (by omega), if_pos (by omega)]

theorem pow_two_52 : Nat.pow 2 52 = 4503599627370496 := by decide

/-- A magnitude as a whole number of units below 2^53 or with a leading one and an exponent. -/
theorem rank_cases (rank : Nat) : rank < 2 ^ 53 ∧ units rank = rank ∧ exponent rank = 0 ∨
    ∃ m e, 2 ^ 52 ≤ m ∧ m < 2 ^ 53 ∧ rank = (e + 1) * 2 ^ 52 + m ∧
      units rank = m * 2 ^ (e + 1) ∧ exponent rank = e + 1 := by
  have hp : (2 : Nat) ^ 52 = 4503599627370496 := by norm_num
  have hq : (2 : Nat) ^ 53 = 9007199254740992 := by norm_num
  unfold units significand exponent
  rw [pow_two_52, hp, hq]
  rcases Nat.lt_or_ge rank 9007199254740992 with h | h
  · refine .inl ⟨h, ?_, by omega⟩
    have he : rank / 4503599627370496 - 1 = 0 := by omega
    rw [he]
    change _ * 2 ^ 0 = rank
    split_ifs <;> omega
  · refine .inr ⟨4503599627370496 + rank % 4503599627370496, rank / 4503599627370496 - 2, by omega,
      by omega, by omega, ?_, by omega⟩
    have he : rank / 4503599627370496 - 1 = rank / 4503599627370496 - 2 + 1 := by omega
    rw [if_neg (by omega), he]
    rfl

theorem nearestRank_eq {shift : Nat} (hs : (num / den).log2 + 1 - 53 = shift)
    (hd : divNearest num (den * 2 ^ shift) = k) : nearestRank num den = shift * 2 ^ 52 + k := by
  unfold nearestRank
  dsimp only
  rw [hs]
  exact congrArg (shift * 2 ^ 52 + ·) hd

theorem log2_eq (hl : 2 ^ k ≤ n) (hh : n < 2 ^ (k + 1)) : n.log2 = k :=
  (Nat.log2_eq_iff (by have := Nat.two_pow_pos k; omega)).2 ⟨hl, hh⟩

theorem nearestRank_small (hlt : rank < 2 ^ 53) (hh : num ≤ rank * den)
    (hl : 4 * (rank * den) < 4 * num + den) : nearestRank num den = rank := by
  have hq : num / den ≤ rank := Nat.div_le_of_le_mul (by rwa [Nat.mul_comm])
  have hs : (num / den).log2 + 1 - 53 = 0 := by
    rcases Nat.eq_zero_or_pos (num / den) with h0 | h0
    · rw [h0]
      rfl
    · have := (Nat.log2_lt (by omega)).2 (show num / den < 2 ^ 53 by omega)
      omega
  have hk : divNearest num (den * 2 ^ 0) = rank := by
    rw [pow_zero, Nat.mul_one]
    refine divNearest_eq ?_ hh
    rw [Nat.mul_assoc]
    omega
  simpa using nearestRank_eq hs hk

section Leading

variable {m e : Nat}

/-- The quotient has its leading place where the magnitude has it. -/
theorem nearestRank_same (hd : 0 < den) (hm : m < 2 ^ 53) (hq : 2 ^ (53 + e) ≤ num / den)
    (hh : num ≤ 2 * (m * (den * 2 ^ e)))
    (hl : 4 * (2 * (m * (den * 2 ^ e))) < 4 * num + 2 * (den * 2 ^ e)) :
    nearestRank num den = (e + 1) * 2 ^ 52 + m := by
  have hlt : num / den < 2 ^ (53 + e + 1) := by
    rw [Nat.div_lt_iff_lt_mul hd]
    have hpos : 0 < den * 2 ^ e := by positivity
    calc num ≤ 2 * (m * (den * 2 ^ e)) := hh
      _ < 2 * (2 ^ 53 * (den * 2 ^ e)) :=
        Nat.mul_lt_mul_of_pos_left ((Nat.mul_lt_mul_right hpos).2 hm) (by omega)
      _ = 2 ^ (53 + e + 1) * den := by ring
  have hlog := log2_eq hq hlt
  have hden : m * (den * 2 ^ (e + 1)) = 2 * (m * (den * 2 ^ e)) := by ring
  have hk : divNearest num (den * 2 ^ (e + 1)) = m := by
    refine divNearest_eq ?_ (by rwa [hden])
    rw [Nat.mul_assoc, hden, pow_succ, ← Nat.mul_assoc den]
    omega
  exact nearestRank_eq (by omega) hk

/-- The quotient has one place less, and then the magnitude is a power of two. -/
theorem nearestRank_less (hd : 0 < den) (hm : 2 ^ 52 ≤ m) (hq : num / den < 2 ^ (53 + e))
    (hl : 4 * (2 * (m * (den * 2 ^ e))) < 4 * num + 2 * (den * 2 ^ e)) :
    nearestRank num den = (e + 1) * 2 ^ 52 + m := by
  have hpos : 0 < den * 2 ^ e := by positivity
  have hnum : num < 2 ^ 52 * (2 * (den * 2 ^ e)) := by
    calc num < 2 ^ (53 + e) * den := (Nat.div_lt_iff_lt_mul hd).1 hq
      _ = 2 ^ 52 * (2 * (den * 2 ^ e)) := by ring
  have hmul : m * (den * 2 ^ e) < (2 ^ 52 + 1) * (den * 2 ^ e) := by
    rw [Nat.add_mul]
    omega
  have hm52 : m = 2 ^ 52 := by
    have := Nat.lt_of_mul_lt_mul_right hmul
    omega
  rw [hm52] at hl
  have hlow : 2 ^ (52 + e) ≤ num / den := by
    rw [Nat.le_div_iff_mul_le hd]
    calc 2 ^ (52 + e) * den = 2 ^ 52 * (den * 2 ^ e) := by ring
      _ ≤ num := by omega
  have hlog : (num / den).log2 = 52 + e := by
    apply log2_eq hlow
    rwa [show 52 + e + 1 = 53 + e by omega]
  have hk : divNearest num (den * 2 ^ e) = 2 ^ 53 := divNearest_eq (by omega) (by omega)
  rw [nearestRank_eq (by omega) hk, hm52]
  omega

end Leading

/-- Less than a quarter of its last place below a magnitude, nothing else is nearer. -/
theorem nearestRank_below (hh : num ≤ units rank * den)
    (hl : 4 * (units rank * den) < 4 * num + 2 ^ exponent rank * den) :
    nearestRank num den = rank := by
  have hd : 0 < den := by
    rcases Nat.eq_zero_or_pos den with rfl | hd
    · omega
    · exact hd
  rcases rank_cases rank with ⟨hlt, hu, he⟩ | ⟨m, e, hm, hm', hrank, hu, he⟩
  · rw [hu] at hh hl
    rw [he, pow_zero, Nat.one_mul] at hl
    exact nearestRank_small hlt hh hl
  · have hpow : 2 ^ (e + 1) * den = 2 * (den * 2 ^ e) := by ring
    have hunits : m * 2 ^ (e + 1) * den = 2 * (m * (den * 2 ^ e)) := by ring
    rw [hu, hunits] at hh hl
    rw [he, hpow] at hl
    rw [hrank]
    rcases Nat.lt_or_ge (num / den) (2 ^ (53 + e)) with hq | hq
    · exact nearestRank_less hd hm hq hl
    · exact nearestRank_same hd hm' hq hh hl

end FrontEnd.Binary64
