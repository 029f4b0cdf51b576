import FrontEnd.Proofs.JsonGrammar
import FrontEnd.Proofs.Numerals
import FrontEnd.Proofs.Placement
import FrontEnd.Proofs.ShortestDigits

namespace FrontEnd

namespace Numeral

variable {fraction power : List Char} {negative : Bool}

theorem ofDigits_append (cs ds : List Char) :
    ofDigits (cs ++ ds) = ofDigits cs * 10 ^ ds.length + ofDigits ds := by
  change Nat.ofDigitChars 10 (cs ++ ds) 0 = _
  rw [Nat.ofDigitChars_append, Nat.ofDigitChars_eq_ofDigitChars_zero, Nat.mul_comm]
  rfl

theorem ofDigits_zeros (n : Nat) : ofDigits (List.replicate n '0') = 0 :=
  Nat.ofDigitChars_replicate_zero

theorem ofDigits_toDigits (n : Nat) : ofDigits (Nat.toDigits 10 n) = n :=
  Nat.ofDigitChars_ten_toDigits

theorem isDigit_toDigits (n : Nat) : ∀ c ∈ Nat.toDigits 10 n, c.isDigit = true :=
  fun _ hc => Nat.isDigit_of_mem_toDigits (by decide) (by decide) hc

theorem isDigit_zeros (n : Nat) : ∀ c ∈ List.replicate n '0', c.isDigit = true := by
  intro c hc
  rw [List.eq_of_mem_replicate hc]
  rfl

/-- Only zero begins with a zero. -/
theorem head_toDigits {n : Nat} (hn : 0 < n) : ∃ c rest, Nat.toDigits 10 n = c :: rest ∧ c ≠ '0' := by
  induction n using Nat.strongRecOn with
  | ind n ih =>
    rcases Nat.lt_or_ge n 10 with hlt | hge
    · have hdigit : ∀ d < 10, 0 < d → Nat.digitChar d ≠ '0' := by decide
      exact ⟨n.digitChar, [], Nat.toDigits_of_lt_base hlt, hdigit n hlt hn⟩
    · obtain ⟨c, rest, he, hc⟩ := ih (n / 10) (by omega) (by omega)
      refine ⟨c, rest ++ [(n % 10).digitChar], ?_, hc⟩
      rw [Nat.toDigits_of_base_le (by decide) hge, he, List.cons_append]

/-- The digits behind a point, with the point if there are any. -/
def point (fraction : List Char) : List Char :=
  if fraction = [] then [] else '.' :: fraction

/-- A real number as it is written: digits, with a point or an exponent or both behind them. -/
structure Decimal where
  whole : List Char
  fraction : List Char
  power : List Char
  exponent : Int
  isWhole : Json.isWhole whole = true
  isDigit : ∀ c ∈ whole ++ fraction, c.isDigit = true
  isPower : Json.isPower power = true
  exponent_eq : exponent? power = some exponent
  power_head : ∀ c ∈ power.head?, c.isDigit = false ∧ c ≠ '.'
  more : fraction ≠ [] ∨ power ≠ []

theorem isDigit_head_point (hp : ∀ c ∈ power.head?, c.isDigit = false ∧ c ≠ '.') :
    ∀ c ∈ (point fraction ++ power).head?, c.isDigit = false := by
  intro c hc
  unfold point at hc
  split_ifs at hc with hf
  · exact (hp c hc).1
  · obtain rfl : '.' = c := by simpa using hc
    rfl

theorem splitFraction_point (hd : ∀ c ∈ fraction, c.isDigit = true)
    (hp : ∀ c ∈ power.head?, c.isDigit = false ∧ c ≠ '.') :
    splitFraction (point fraction ++ power) = (fraction, power) := by
  have hstop : ∀ c ∈ power.head?, c.isDigit = false := fun c hc => (hp c hc).1
  unfold point
  split_ifs with hf
  · subst hf
    cases power with
    | nil => rfl
    | cons c power =>
      have hc : c ≠ '.' := (hp c (by simp)).2
      rw [List.nil_append, splitFraction]
      rintro rest ⟨⟩
      exact absurd rfl hc
  · rw [List.cons_append, splitFraction, takeWhile_append_stops hd hstop,
      dropWhile_append_stops hd hstop]

namespace Decimal

variable (d : Decimal)

def text : List Char :=
  d.whole ++ (point d.fraction ++ d.power)

def digits : Nat :=
  ofDigits (d.whole ++ d.fraction)

def scale : Int :=
  d.exponent - d.fraction.length

theorem isDigit_whole : ∀ c ∈ d.whole, c.isDigit = true :=
  fun c hc => d.isDigit c (List.mem_append_left _ hc)

theorem isDigit_fraction : ∀ c ∈ d.fraction, c.isDigit = true :=
  fun c hc => d.isDigit c (List.mem_append_right _ hc)

theorem whole_ne_nil : d.whole ≠ [] := by
  intro hw
  have h := d.isWhole
  rw [hw] at h
  cases h

theorem takeWhile_text : d.text.takeWhile Char.isDigit = d.whole :=
  takeWhile_append_stops d.isDigit_whole (isDigit_head_point d.power_head)

theorem dropWhile_text : d.text.dropWhile Char.isDigit = point d.fraction ++ d.power :=
  dropWhile_append_stops d.isDigit_whole (isDigit_head_point d.power_head)

theorem decimal?_text :
    decimal? negative d.text = some (.ofDecimal negative d.digits d.scale) := by
  have hempty : d.whole.isEmpty = false := by simpa using d.whole_ne_nil
  simp only [decimal?, d.takeWhile_text, d.dropWhile_text,
    splitFraction_point d.isDigit_fraction d.power_head, hempty, Bool.false_and,
    Bool.false_eq_true, if_false, d.exponent_eq, Option.map_some]
  rfl

/-- More than digits is in the text. -/
theorem not_all_isDigit : d.text.all Char.isDigit = false := by
  by_contra hall
  rw [Bool.not_eq_false, List.all_eq_true] at hall
  have hdrop := d.dropWhile_text
  rw [List.dropWhile_eq_nil_iff.2 hall] at hdrop
  obtain ⟨hpoint, hpower⟩ := List.append_eq_nil_iff.1 hdrop.symm
  unfold point at hpoint
  rcases d.more with hf | hp
  · rw [if_neg hf] at hpoint
    cases hpoint
  · exact hp hpower

theorem isMagnitude_text : Json.isMagnitude d.text = true := by
  have hpower : Json.isFraction d.power = true := by
    have hp := d.isPower
    have hhead := d.power_head
    generalize d.power = power at *
    cases power with
    | nil => rfl
    | cons c power =>
      have hc : c ≠ '.' := (hhead c (by simp)).2
      rw [Json.isFraction]
      · exact hp
      · rintro rest ⟨⟩
        contradiction
  rw [Json.isMagnitude, d.takeWhile_text, d.dropWhile_text, d.isWhole, Bool.true_and, point]
  split_ifs with hf
  · exact hpower
  · have hstop : ∀ c ∈ d.power.head?, c.isDigit = false := fun c hc => (d.power_head c hc).1
    have hdigits : Json.isDigits d.fraction = true := by
      simp only [Json.isDigits, Bool.and_eq_true, Bool.not_eq_true', List.isEmpty_eq_false_iff,
        List.all_eq_true]
      exact ⟨hf, d.isDigit_fraction⟩
    rw [List.cons_append, Json.isFraction, takeWhile_append_stops d.isDigit_fraction hstop,
      dropWhile_append_stops d.isDigit_fraction hstop, hdigits, d.isPower]
    rfl

/-- Written down, a decimal of the value of `number * 10 ^ scale`. -/
def Denotes (number : Nat) (scale : Int) : Prop :=
  ∃ places : Nat, d.digits = number * 10 ^ places ∧ d.scale = scale - places

end Decimal

end Numeral

namespace Json

variable {c : Char} {cs : List Char}

theorem isWhole_cons (hc : c ≠ '0') (hd : ∀ x ∈ c :: cs, x.isDigit = true) :
    isWhole (c :: cs) = true := by
  rw [isWhole]
  · exact List.all_eq_true.2 hd
  · exact List.cons_ne_nil _ _
  · rintro rest ⟨⟩
    contradiction

theorem isWhole_toDigits (n : Nat) : isWhole (Nat.toDigits 10 n) = true := by
  rcases Nat.eq_zero_or_pos n with rfl | hn
  · decide
  · have hd := Numeral.isDigit_toDigits n
    obtain ⟨c, rest, he, hc⟩ := Numeral.head_toDigits hn
    rw [he] at hd ⊢
    exact isWhole_cons hc hd

/-- A text of digits is a number if its whole part is, however many of them that takes. -/
theorem isWhole_take {n k : Nat} (hn : 0 < n) (hk : 0 < k) (more : List Char)
    (hm : ∀ x ∈ more, x.isDigit = true) :
    isWhole ((Nat.toDigits 10 n).take k ++ more) = true := by
  have hd := Numeral.isDigit_toDigits n
  obtain ⟨c, rest, he, hc⟩ := Numeral.head_toDigits hn
  obtain ⟨k, rfl⟩ : ∃ j, k = j + 1 := ⟨k - 1, by omega⟩
  rw [he] at hd ⊢
  refine isWhole_cons hc ?_
  intro x hx
  rcases List.mem_cons.1 hx with rfl | hx
  · exact hd _ List.mem_cons_self
  · rcases List.mem_append.1 hx with hx | hx
    · exact hd x (List.mem_cons_of_mem _ (List.mem_of_mem_take hx))
    · exact hm x hx

end Json

namespace Binary64

open Numeral

variable {number : Nat} {leading : Int}

theorem toList_zeros (n : Nat) : (zeros n).toList = List.replicate n '0' :=
  String.toList_ofList

theorem toList_toString (n : Nat) : (toString n).toList = Nat.toDigits 10 n := by
  rw [Nat.toString_eq_repr, Nat.toList_repr]

theorem length_toString (n : Nat) : (toString n).length = (Nat.toDigits 10 n).length := by
  rw [← String.length_toList, toList_toString]

/-- Below one: zeros stand behind the point before the digits. -/
theorem positional_below (hneg : leading < 0) : ∃ d : Decimal,
    (positional (toString number) leading).toList = d.text ∧
      d.Denotes number (leading + 1 - (toString number).length) := by
  obtain ⟨gap, hgap⟩ : ∃ gap : Nat, (-leading - 1).toNat = gap := ⟨_, rfl⟩
  have hd : ∀ c ∈ ['0'] ++ (List.replicate gap '0' ++ Nat.toDigits 10 number),
      c.isDigit = true := by
    intro c hc
    rcases List.mem_append.1 hc with hc | hc
    · obtain rfl := List.mem_singleton.1 hc
      rfl
    · rcases List.mem_append.1 hc with hc | hc
      · exact isDigit_zeros gap c hc
      · exact isDigit_toDigits number c hc
  have hne : List.replicate gap '0' ++ Nat.toDigits 10 number ≠ [] := by
    simp [Nat.toDigits_ne_nil]
  refine ⟨⟨['0'], _, [], 0, rfl, hd, rfl, rfl, by simp, .inl hne⟩, ?_, 0, ?_, ?_⟩
  · rw [positional, if_pos hneg, hgap]
    simp only [String.toList_append, toList_zeros, toList_toString, Decimal.text, point, if_neg hne]
    simp
  · have hzero : ofDigits ['0'] = 0 := rfl
    simp only [Decimal.digits, ofDigits_append, ofDigits_zeros, ofDigits_toDigits, hzero]
    omega
  · simp only [Decimal.scale, List.length_append, List.length_replicate, length_toString]
    omega

/-- A whole number: zeros take the places between the digits and the point, and one stands behind. -/
theorem positional_whole (hn : 0 < number) (hpos : 0 ≤ leading)
    (hlen : (toString number).length ≤ leading.toNat + 1) : ∃ d : Decimal,
    (positional (toString number) leading).toList = d.text ∧
      d.Denotes number (leading + 1 - (toString number).length) := by
  obtain ⟨gap, hgap⟩ : ∃ gap, leading.toNat + 1 - (toString number).length = gap := ⟨_, rfl⟩
  have hw : Json.isWhole (Nat.toDigits 10 number ++ List.replicate gap '0') = true := by
    have hlength : 0 < (Nat.toDigits 10 number).length := Nat.length_toDigits_pos
    have h := Json.isWhole_take hn hlength _ (isDigit_zeros gap)
    rwa [List.take_length] at h
  have hd : ∀ c ∈ Nat.toDigits 10 number ++ List.replicate gap '0' ++ ['0'],
      c.isDigit = true := by
    intro c hc
    rcases List.mem_append.1 hc with hc | hc
    · rcases List.mem_append.1 hc with hc | hc
      · exact isDigit_toDigits number c hc
      · exact isDigit_zeros gap c hc
    · obtain rfl := List.mem_singleton.1 hc
      rfl
  refine ⟨⟨_, ['0'], [], 0, hw, hd, rfl, rfl, by simp, .inl (by simp)⟩, ?_, gap + 1, ?_, ?_⟩
  · rw [positional, if_neg (by omega)]
    dsimp only
    rw [if_pos hlen, hgap]
    simp only [String.toList_append, toList_zeros, toList_toString, Decimal.text, point]
    simp
  · have hzero : ofDigits ['0'] = 0 := rfl
    simp only [Decimal.digits, ofDigits_append, ofDigits_zeros, ofDigits_toDigits, hzero,
      List.length_replicate, List.length_singleton, Nat.add_zero, Nat.pow_succ, Nat.pow_zero,
      Nat.one_mul, Nat.mul_assoc]
  · simp only [Decimal.scale, List.length_singleton]
    omega

/-- The point stands among the digits. -/
theorem positional_split (hn : 0 < number) (hpos : 0 ≤ leading)
    (hlen : ¬ (toString number).length ≤ leading.toNat + 1) : ∃ d : Decimal,
    (positional (toString number) leading).toList = d.text ∧
      d.Denotes number (leading + 1 - (toString number).length) := by
  obtain ⟨whole, hwhole⟩ : ∃ whole, leading.toNat + 1 = whole := ⟨_, rfl⟩
  rw [hwhole, length_toString] at hlen
  have hw : Json.isWhole ((Nat.toDigits 10 number).take whole) = true := by
    have h := Json.isWhole_take hn (show 0 < whole by omega) [] (by simp)
    rwa [List.append_nil] at h
  have hd : ∀ c ∈ (Nat.toDigits 10 number).take whole ++ (Nat.toDigits 10 number).drop whole,
      c.isDigit = true := by
    rw [List.take_append_drop]
    exact isDigit_toDigits number
  have hne : (Nat.toDigits 10 number).drop whole ≠ [] := by
    rw [Ne, List.drop_eq_nil_iff]
    exact hlen
  refine ⟨⟨_, _, [], 0, hw, hd, rfl, rfl, by simp, .inl hne⟩, ?_, 0, ?_, ?_⟩
  · rw [positional, if_neg (by omega)]
    dsimp only
    rw [hwhole, length_toString, if_neg hlen]
    simp only [String.toList_append, String.toList_ofList, toList_toString, Decimal.text, point,
      if_neg hne]
    simp
  · simp only [Decimal.digits, List.take_append_drop, ofDigits_toDigits]
    omega
  · simp only [Decimal.scale, List.length_drop, length_toString]
    omega

/-- An exponent with its mark, its sign, and zeros before its digits. -/
def powerText (leading : Int) (gap : Nat) : List Char :=
  'e' :: (if leading < 0 then '-' else '+') ::
    (List.replicate gap '0' ++ Nat.toDigits 10 leading.natAbs)

theorem isDigits_power (n gap : Nat) :
    Json.isDigits (List.replicate gap '0' ++ Nat.toDigits 10 n) = true := by
  have hd : ∀ c ∈ List.replicate gap '0' ++ Nat.toDigits 10 n, c.isDigit = true := by
    intro c hc
    rcases List.mem_append.1 hc with hc | hc
    · exact isDigit_zeros gap c hc
    · exact isDigit_toDigits n c hc
  rw [Json.isDigits, List.all_eq_true.2 hd]
  simp [Nat.toDigits_ne_nil]

theorem isPower_powerText (leading : Int) (gap : Nat) :
    Json.isPower (powerText leading gap) = true := by
  have hd := isDigits_power leading.natAbs gap
  unfold powerText
  split_ifs
  · rw [Json.isPower, hd]
    rfl
  · rw [Json.isPower, hd]
    rfl

theorem exponent?_powerText (leading : Int) (gap : Nat) :
    exponent? (powerText leading gap) = some leading := by
  have hd := isDigits_power leading.natAbs gap
  have hvalue : ofDigits (List.replicate gap '0' ++ Nat.toDigits 10 leading.natAbs) =
      leading.natAbs := by
    rw [ofDigits_append, ofDigits_zeros, ofDigits_toDigits, Nat.zero_mul, Nat.zero_add]
  unfold powerText
  generalize List.replicate gap '0' ++ Nat.toDigits 10 leading.natAbs = ds at *
  obtain ⟨hne, hall⟩ := Bool.and_eq_true_iff.1 hd
  split_ifs with hneg
  · simp only [exponent?, splitSign, hne, hall, hvalue]
    exact congrArg some (show -(leading.natAbs : Int) = leading by omega)
  · simp only [exponent?, splitSign, hne, hall, hvalue]
    exact congrArg some (show (leading.natAbs : Int) = leading by omega)

theorem head_powerText (leading : Int) (gap : Nat) :
    ∀ c ∈ (powerText leading gap).head?, c.isDigit = false ∧ c ≠ '.' := by
  intro c hc
  obtain rfl : 'e' = c := Option.some.inj hc
  exact ⟨rfl, by decide⟩

theorem scientific_text (hn : 0 < number) : ∃ d : Decimal,
    (scientific (toString number) leading).toList = d.text ∧
      d.Denotes number (leading + 1 - (toString number).length) := by
  obtain ⟨gap, hgap⟩ : ∃ gap, 2 - (toString leading.natAbs).length = gap := ⟨_, rfl⟩
  have hw : Json.isWhole ((Nat.toDigits 10 number).take 1) = true := by
    have h := Json.isWhole_take hn Nat.one_pos [] (by simp)
    rwa [List.append_nil] at h
  have hd : ∀ c ∈ (Nat.toDigits 10 number).take 1 ++ (Nat.toDigits 10 number).drop 1,
      c.isDigit = true := by
    rw [List.take_append_drop]
    exact isDigit_toDigits number
  have hpower : powerText leading gap ≠ [] := by
    rw [powerText]
    exact List.cons_ne_nil _ _
  have hsign : (if leading < 0 then "-" else "+").toList = [if leading < 0 then '-' else '+'] := by
    split_ifs <;> rfl
  have hpoint : (if ((Nat.toDigits 10 number).drop 1).isEmpty then "" else
      "." ++ String.ofList ((Nat.toDigits 10 number).drop 1)).toList =
        point ((Nat.toDigits 10 number).drop 1) := by
    rw [point]
    split_ifs <;> simp_all
  refine ⟨⟨_, _, _, leading, hw, hd, isPower_powerText leading gap, exponent?_powerText leading gap,
    head_powerText leading gap, .inr hpower⟩, ?_, 0, ?_, ?_⟩
  · simp only [scientific, hgap, String.toList_append, toList_zeros, toList_toString,
      String.toList_ofList, hsign, hpoint, Decimal.text, powerText]
    simp
  · simp only [Decimal.digits, List.take_append_drop, ofDigits_toDigits]
    omega
  · have hlength : 0 < (Nat.toDigits 10 number).length := Nat.length_toDigits_pos
    simp only [Decimal.scale, List.length_drop, length_toString]
    omega

variable {rank digits num den num' den' : Nat} {scale : Int} {negative : Bool}

/-- Equal quotients have one rank. -/
theorem nearestRank_congr (hd : 0 < den) (hd' : 0 < den') (h : num * den' = num' * den) :
    nearestRank num den = nearestRank num' den' := by
  rw [← nearestRank_mul hd' num den, h, ← nearestRank_mul hd num' den', Nat.mul_comm den den']

/-- Powers of ten may pass from the scale to the digits. -/
theorem readsBack_shift (places : Nat) (h : readsBack rank digits scale = true) :
    readsBack rank (digits * 10 ^ places) (scale - places) = true := by
  rw [readsBack_iff] at h ⊢
  rw [← h]
  refine nearestRank_congr (gridStep_pos _).2 (gridStep_pos _).2 ?_
  have hten : 10 ^ places * 10 ^ (scale - places).toNat * 10 ^ (-scale).toNat =
      10 ^ scale.toNat * 10 ^ (-(scale - places)).toNat := by
    rw [← Nat.pow_add, ← Nat.pow_add, ← Nat.pow_add]
    congr 1
    omega
  calc digits * 10 ^ places * (gridStep (scale - places)).1 * (gridStep scale).2
      = digits * one * (10 ^ places * 10 ^ (scale - places).toNat * 10 ^ (-scale).toNat) := by
        unfold gridStep
        ring
    _ = digits * (gridStep scale).1 * (gridStep (scale - places)).2 := by
        rw [hten]
        unfold gridStep
        ring

theorem ofRank_eq (h : rank < rankLimit) : ofRank negative rank = finite negative rank h :=
  dif_pos h

/-- Where neither early answer is given, the number is the one that its digits read back as. -/
theorem ofDecimal_eq (hpos : 0 < digits) (hhigh : scale ≤ 400)
    (hlow : 3 * (-scale).toNat ≤ digits.log2 + 1100) (h : readsBack rank digits scale = true) :
    ofDecimal negative digits scale = ofRank negative rank := by
  have hrank : nearestRank (decimalUnits digits scale).1 (decimalUnits digits scale).2 = rank := by
    rw [decimalUnits_eq]
    exact readsBack_iff.1 h
  unfold ofDecimal
  rw [if_neg (by omega)]
  unfold decimalUnits at hrank
  split_ifs at hrank ⊢ with hs hbig
  · omega
  · rw [ofRatio, hrank]
  · dsimp only
    rw [if_neg (by omega), ofRatio, hrank]

theorem log2_mul_ten_pow (hpos : 0 < digits) (places : Nat) :
    3 * places ≤ (digits * 10 ^ places).log2 := by
  have hne : digits * 10 ^ places ≠ 0 := by positivity
  rw [Nat.le_log2 hne]
  calc 2 ^ (3 * places) = 8 ^ places := by rw [Nat.pow_mul]
    _ ≤ 10 ^ places := Nat.pow_le_pow_left (by decide) places
    _ ≤ digits * 10 ^ places := Nat.le_mul_of_pos_left _ hpos

/-- A decimal of the value of digits that read back is read as their magnitude. -/
theorem ofDecimal_denotes {d : Decimal} (hlimit : rank < rankLimit) (hpos : 0 < number)
    (hlow : -360 ≤ scale) (hhigh : scale ≤ 400) (h : readsBack rank number scale = true)
    (hd : d.Denotes number scale) :
    ofDecimal negative d.digits d.scale = finite negative rank hlimit := by
  obtain ⟨places, hdigits, hscale⟩ := hd
  have hlog := log2_mul_ten_pow hpos places
  rw [hdigits, hscale, ← ofRank_eq hlimit]
  exact ofDecimal_eq (by positivity) (by omega) (by omega) (readsBack_shift places h)

theorem pos_of_readsBack (hr : 0 < rank) (h : readsBack rank digits scale = true) : 0 < digits := by
  rcases Nat.eq_zero_or_pos digits with rfl | hpos
  · rw [readsBack_iff, Nat.zero_mul] at h
    have hzero : nearestRank 0 (gridStep scale).2 = 0 := by
      simp [nearestRank, divNearest, (gridStep_pos scale).2]
    omega
  · exact hpos

/-- The text of a magnitude is a decimal that is read as it. -/
theorem magnitudeText_decimal (hlimit : rank < rankLimit) : ∃ d : Decimal,
    (magnitudeText rank).toList = d.text ∧
      ∀ negative, ofDecimal negative d.digits d.scale = finite negative rank hlimit := by
  rcases Nat.eq_zero_or_pos rank with rfl | hr
  · exact ⟨⟨['0'], ['0'], [], 0, rfl, List.all_eq_true.1 rfl, rfl, rfl, by simp, .inl (by simp)⟩, rfl,
      fun negative => rfl⟩
  · obtain ⟨number, scale, hs, hback, hlow, hhigh⟩ := shortest_spec hlimit
    have hpos := pos_of_readsBack hr hback
    obtain ⟨leading, hleading⟩ : ∃ leading, scale + (toString number).length - 1 = leading :=
      ⟨_, rfl⟩
    have hscale : leading + 1 - (toString number).length = scale := by omega
    have htext : magnitudeText rank = if -4 ≤ leading ∧ leading < 16 then
        positional (toString number) leading else scientific (toString number) leading := by
      rw [magnitudeText, if_neg (by omega), hs]
      dsimp only
      rw [hleading]
    have hdecimal : ∃ d : Decimal, (magnitudeText rank).toList = d.text ∧
        d.Denotes number scale := by
      rw [htext, ← hscale]
      split_ifs with hrange
      · rcases Int.lt_or_le leading 0 with hneg | hnonneg
        · exact positional_below hneg
        · by_cases hlen : (toString number).length ≤ leading.toNat + 1
          · exact positional_whole hpos hnonneg hlen
          · exact positional_split hpos hnonneg hlen
      · exact scientific_text hpos
    obtain ⟨d, hd, hdenotes⟩ := hdecimal
    exact ⟨d, hd, fun negative => ofDecimal_denotes hlimit hpos hlow hhigh hback hdenotes⟩

end Binary64

end FrontEnd
