import FrontEnd.Proofs.Rounding
import Mathlib.Tactic.Positivity
import Mathlib.Tactic.NormNum
import Mathlib.Tactic.FieldSimp
import Mathlib.Algebra.Order.Field.Power

namespace FrontEnd.Binary64

theorem ten_pow_le {t k : Nat} (h : 100000 * t ≤ 30103 * k) (hk : k ≤ 2000) :
    10 ^ t ≤ 2 ^ (k + 1) := by
  have hten : 10 ^ 59 ≤ 2 ^ 196 := by norm_num
  refine (Nat.pow_le_pow_iff_left (show 59 ≠ 0 by decide)).1 ?_
  calc (10 ^ t) ^ 59 = (10 ^ 59) ^ t := by rw [← Nat.pow_mul, ← Nat.pow_mul, Nat.mul_comm]
    _ ≤ (2 ^ 196) ^ t := Nat.pow_le_pow_left hten t
    _ = 2 ^ (196 * t) := by rw [← Nat.pow_mul]
    _ ≤ 2 ^ ((k + 1) * 59) := Nat.pow_le_pow_right (by decide) (by omega)
    _ = (2 ^ (k + 1)) ^ 59 := by rw [← Nat.pow_mul]

theorem two_pow_le {t k : Nat} (h : 30103 * k ≤ 100000 * t) (hk : k ≤ 2000) :
    2 ^ (k - 1) ≤ 10 ^ t := by
  have hten : 2 ^ 93 ≤ 10 ^ 28 := by norm_num
  refine (Nat.pow_le_pow_iff_left (show 28 ≠ 0 by decide)).1 ?_
  calc (2 ^ (k - 1)) ^ 28 = 2 ^ ((k - 1) * 28) := by rw [← Nat.pow_mul]
    _ ≤ 2 ^ (93 * t) := Nat.pow_le_pow_right (by decide) (by omega)
    _ = (2 ^ 93) ^ t := by rw [← Nat.pow_mul]
    _ ≤ (10 ^ 28) ^ t := Nat.pow_le_pow_left hten t
    _ = (10 ^ t) ^ 28 := by rw [← Nat.pow_mul, ← Nat.pow_mul, Nat.mul_comm]

/-- Log10 2 is so close to 0.30103 that the product is exact to less than one binary place. -/
theorem ten_zpow_le {k : Int} (hl : -2000 ≤ k) (hh : k ≤ 2000) :
    (10 : ℚ) ^ (k * 30103 / 100000) ≤ 2 ^ (k + 1) := by
  rcases Int.le_total 0 k with hk | hk
  · obtain ⟨n, rfl⟩ := Int.eq_ofNat_of_zero_le hk
    obtain ⟨t, ht⟩ := Int.eq_ofNat_of_zero_le (show 0 ≤ (n : Int) * 30103 / 100000 by omega)
    rw [ht]
    have := ten_pow_le (t := t) (k := n) (by omega) (by omega)
    exact_mod_cast this
  · obtain ⟨n, rfl⟩ := Int.exists_eq_neg_ofNat hk
    obtain ⟨t, ht⟩ := Int.exists_eq_neg_ofNat (show -(n : Int) * 30103 / 100000 ≤ 0 by omega)
    rcases n with _ | n
    · have h0 : t = 0 := by omega
      rw [ht, h0]
      norm_num
    · have hle : (2 : ℚ) ^ n ≤ 10 ^ t := by
        have := two_pow_le (t := t) (k := n + 1) (by omega) (by omega)
        exact_mod_cast this
      rw [ht, zpow_neg, zpow_natCast, show -((n + 1 : Nat) : Int) + 1 = -(n : Int) by omega, zpow_neg,
        zpow_natCast]
      exact inv_anti₀ (by positivity) hle

/-- How many units a step of the grid of multiples of `10 ^ scale` is long, as a fraction. -/
def gridStep (scale : Int) : Nat × Nat :=
  (one * 10 ^ scale.toNat, 10 ^ (-scale).toNat)

theorem onGrid_eq (rank : Nat) (scale : Int) :
    onGrid rank scale = (units rank * (gridStep scale).2, (gridStep scale).1) := by
  unfold onGrid gridStep
  split_ifs with h
  · rw [show (-scale).toNat = 0 by omega]
    simp
  · rw [show scale.toNat = 0 by omega]
    simp

theorem decimalUnits_eq (digits : Nat) (scale : Int) :
    decimalUnits digits scale = (digits * (gridStep scale).1, (gridStep scale).2) := by
  unfold decimalUnits gridStep
  split_ifs with h
  · rw [show (-scale).toNat = 0 by omega]
    simp [Nat.mul_assoc, Nat.mul_comm one]
  · rw [show scale.toNat = 0 by omega]
    simp

/-- How many binary places a unit stands behind the point. -/
def unitPlaces : Nat := 1074

theorem one_eq : one = 2 ^ unitPlaces := by
  decide +kernel

theorem one_pos : 0 < one := by
  rw [one_eq]
  exact Nat.two_pow_pos unitPlaces

theorem gridStep_pos (scale : Int) : 0 < (gridStep scale).1 ∧ 0 < (gridStep scale).2 :=
  ⟨Nat.mul_pos one_pos (Nat.pow_pos (by decide)), Nat.pow_pos (by decide)⟩

theorem gridStep_cast (scale : Int) :
    ((gridStep scale).1 : ℚ) = 2 ^ (unitPlaces : Int) * 10 ^ scale * (gridStep scale).2 := by
  have hscale : (10 : ℚ) ^ scale.toNat = 10 ^ scale * 10 ^ (-scale).toNat := by
    rw [← zpow_natCast, ← zpow_natCast, ← zpow_add₀ (by norm_num)]
    congr 1
    omega
  unfold gridStep
  rw [one_eq]
  push_cast
  rw [hscale, mul_assoc, zpow_natCast]

/-- A grid is fine for a magnitude if its step is at most a quarter of the last place. -/
def Fine (rank : Nat) (scale : Int) : Prop :=
  4 * (gridStep scale).1 ≤ 2 ^ exponent rank * (gridStep scale).2

/-- In terms of powers alone: `k` places behind the point make a unit. -/
theorem four_mul_le {k e scale : Int} (h : (10 : ℚ) ^ scale ≤ 2 ^ (e - 2 - k)) :
    4 * ((2 : ℚ) ^ k * 10 ^ scale) ≤ 2 ^ e := by
  have hsplit : (2 : ℚ) ^ e = 2 ^ (2 : Int) * 2 ^ k * 2 ^ (e - 2 - k) := by
    rw [← zpow_add₀ (by norm_num), ← zpow_add₀ (by norm_num)]
    congr 1
    omega
  have hfour : (2 : ℚ) ^ (2 : Int) = 4 := by norm_num
  rw [hsplit, hfour, ← mul_assoc]
  exact mul_le_mul_of_nonneg_left h (by positivity)

theorem fine_of_le {rank : Nat} {scale : Int}
    (h : (10 : ℚ) ^ scale ≤ 2 ^ ((exponent rank : Int) - 2 - unitPlaces)) : Fine rank scale := by
  have hq : (4 * (gridStep scale).1 : ℚ) ≤ 2 ^ exponent rank * (gridStep scale).2 := by
    rw [gridStep_cast, ← mul_assoc, ← zpow_natCast]
    exact mul_le_mul_of_nonneg_right (four_mul_le h) (by positivity)
  exact_mod_cast hq

variable {rank : Nat} {scale : Int}

/-- The leading place of a magnitude is at most 52 above its last one, and in range. -/
theorem log2_units (hr : rank < rankLimit) :
    (units rank).log2 ≤ exponent rank + 52 ∧ (units rank).log2 ≤ 2097 := by
  have hlimit : rankLimit = 2047 * 2 ^ 52 := by decide
  rcases rank_cases rank with ⟨hlt, hu, he⟩ | ⟨m, e, hm, hm', hrank, hu, he⟩
  · have hlog : rank.log2 < 53 := by
      rcases Nat.eq_zero_or_pos rank with rfl | hpos
      · decide
      · exact (Nat.log2_lt (by omega)).2 hlt
    rw [hu, he]
    omega
  · have hlog : (m * 2 ^ (e + 1)).log2 = e + 53 := by
      refine log2_eq ?_ ?_
      · calc 2 ^ (e + 53) = 2 ^ 52 * 2 ^ (e + 1) := by ring
          _ ≤ m * 2 ^ (e + 1) := Nat.mul_le_mul_right _ hm
      · calc m * 2 ^ (e + 1) < 2 ^ 53 * 2 ^ (e + 1) :=
            Nat.mul_lt_mul_of_pos_right hm' (Nat.two_pow_pos _)
          _ = 2 ^ (e + 53 + 1) := by ring
    rw [hu, he, hlog]
    omega

/-- The last grid that is searched, by the leading place of the magnitude. -/
def lastScale (rank : Nat) : Int :=
  ((units rank).log2 - 1074 : Int) * 30103 / 100000 - 17

theorem fine_lastScale (hr : rank < rankLimit) : Fine rank (lastScale rank) := by
  obtain ⟨hexp, hlog⟩ := log2_units hr
  apply fine_of_le
  generalize hk : ((units rank).log2 - 1074 : Int) = k
  have hten : (10 : ℚ) ^ (17 : Int) ≥ 2 ^ (56 : Int) := by norm_num
  have hle : (10 : ℚ) ^ (k * 30103 / 100000) ≤ 2 ^ (k + 1) := ten_zpow_le (by omega) (by omega)
  have hsplit : (10 : ℚ) ^ (k * 30103 / 100000 - 17) =
      10 ^ (k * 30103 / 100000) / 10 ^ (17 : Int) := zpow_sub₀ (by norm_num) _ _
  calc (10 : ℚ) ^ lastScale rank
      = 10 ^ (k * 30103 / 100000) / 10 ^ (17 : Int) := by rw [lastScale, hk, hsplit]
    _ ≤ 2 ^ (k + 1) / 2 ^ (56 : Int) := by gcongr
    _ = 2 ^ (k + 1 - 56) := (zpow_sub₀ (by norm_num) _ _).symm
    _ ≤ 2 ^ ((exponent rank : Int) - 2 - unitPlaces) :=
        zpow_le_zpow_right₀ (by norm_num) (by unfold unitPlaces; omega)

theorem readsBack_iff {digits : Nat} : readsBack rank digits scale = true ↔
    nearestRank (digits * (gridStep scale).1) (gridStep scale).2 = rank := by
  simp only [readsBack, decimalUnits_eq, beq_iff_eq]

/-- On a fine grid the neighbour below a magnitude reads back. -/
theorem readsBack_low (hf : Fine rank scale) :
    readsBack rank (units rank * (gridStep scale).2 / (gridStep scale).1) scale = true := by
  obtain ⟨hstep, -⟩ := gridStep_pos scale
  rw [readsBack_iff]
  unfold Fine at hf
  generalize (gridStep scale).1 = step at *
  generalize (gridStep scale).2 = den at *
  have hsplit := Nat.div_add_mod (units rank * den) step
  have hmod := Nat.mod_lt (units rank * den) hstep
  rw [Nat.mul_comm] at hsplit
  exact nearestRank_below (by omega) (by omega)

theorem divNearest_cases (num den : Nat) :
    divNearest num den = num / den ∨ divNearest num den = num / den + 1 := by
  unfold divNearest
  dsimp only
  split_ifs
  · exact .inl rfl
  · exact .inr rfl
  · rcases Nat.mod_two_eq_zero_or_one (num / den) with h | h
    · exact .inl (by rw [h, Nat.add_zero])
    · exact .inr (by rw [h])

theorem gridPoint?_readsBack {digits : Nat} (h : gridPoint? rank scale = some digits) :
    readsBack rank digits scale = true := by
  unfold gridPoint? at h
  dsimp only at h
  split_ifs at h with hlow hhigh hhigh
  · obtain rfl := Option.some.inj h
    rcases divNearest_cases (onGrid rank scale).1 (onGrid rank scale).2 with hd | hd
    · rw [hd]
      exact hlow
    · rw [hd]
      exact hhigh
  · obtain rfl := Option.some.inj h
    exact hlow
  · obtain rfl := Option.some.inj h
    exact hhigh

theorem gridPoint?_isSome (hf : Fine rank scale) :
    (gridPoint? rank scale).isSome = true := by
  have hlow := readsBack_low hf
  unfold gridPoint?
  rw [onGrid_eq]
  dsimp only
  rw [if_pos hlow]
  split_ifs
  · rfl
  · rfl

/-- The search ends on a grid with a point if any that is searched has one. -/
theorem searchGrids_spec {tries step : Nat} (hlt : step < tries)
    (h : (gridPoint? rank (scale - step)).isSome = true) :
    ∃ digits last, searchGrids rank tries scale = (digits, last) ∧
      gridPoint? rank last = some digits ∧ scale - tries ≤ last ∧ last ≤ scale := by
  have hfound : ((List.range tries).findSome? fun (step : Nat) =>
      (gridPoint? rank (scale - step)).map (·, scale - step)).isSome = true := by
    rw [List.findSome?_isSome_iff]
    exact ⟨step, List.mem_range.2 hlt, by rw [Option.isSome_map, h]⟩
  obtain ⟨⟨digits, last⟩, hd⟩ := Option.isSome_iff_exists.1 hfound
  obtain ⟨found, hmem, hpoint⟩ := List.exists_of_findSome?_eq_some hd
  obtain ⟨digits', hg, he⟩ := Option.map_eq_some_iff.1 hpoint
  obtain ⟨rfl, rfl⟩ := Prod.mk.inj he
  have hrange := List.mem_range.1 hmem
  refine ⟨digits', scale - found, ?_, hg, by omega, by omega⟩
  rw [searchGrids, hd]
  rfl

/-- The shortest digits of a magnitude read back as it. -/
theorem shortest_spec (hlimit : rank < rankLimit) :
    ∃ digits scale, shortest rank = (digits, scale) ∧ readsBack rank digits scale = true ∧
      -360 ≤ scale ∧ scale ≤ 400 := by
  have hsome := gridPoint?_isSome (fine_lastScale hlimit)
  have hlast : lastScale rank =
      ((units rank).log2 - 1074 : Int) * 30103 / 100000 + 2 - (19 : Nat) := by
    unfold lastScale
    omega
  rw [hlast] at hsome
  obtain ⟨digits, scale, hs, hd, hl, hh⟩ := searchGrids_spec (show 19 < 20 by decide) hsome
  have hlog := (log2_units hlimit).2
  exact ⟨digits, scale, hs, gridPoint?_readsBack hd, by omega, by omega⟩

end FrontEnd.Binary64
