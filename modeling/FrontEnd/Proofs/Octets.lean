import FrontEnd.File.Utf8
import Mathlib.Tactic.Common

namespace FrontEnd.Utf8

/-- The octets of a text, one character after the other. -/
def encode (text : List Char) : List UInt8 :=
  text.flatMap String.utf8EncodeChar

/-- The least octet that may follow a first octet. -/
def lowAfter (first : Nat) : Nat :=
  if first = 0xE0 then 0xA0 else if first = 0xF0 then 0x90 else 0x80

/-- The greatest octet that may follow a first octet. -/
def highAfter (first : Nat) : Nat :=
  if first = 0xED then 0x9F else if first = 0xF4 then 0x8F else 0xBF

def Second (first second : UInt8) : Prop :=
  lowAfter first.toNat ≤ second.toNat ∧ second.toNat ≤ highAfter first.toNat

def Tail (octet : UInt8) : Prop :=
  0x80 ≤ octet.toNat ∧ octet.toNat ≤ 0xBF

/-- The octets of one character, and its number. -/
inductive Codes : List UInt8 → Nat → Prop where
  | one {a : UInt8} : a.toNat < 0x80 → Codes [a] a.toNat
  | two {a b : UInt8} : 0xC2 ≤ a.toNat → a.toNat < 0xE0 → Second a b →
    Codes [a, b] (a.toNat % 0x20 * 0x40 + b.toNat % 0x40)
  | three {a b c : UInt8} : 0xE0 ≤ a.toNat → a.toNat < 0xF0 → Second a b → Tail c →
    Codes [a, b, c] ((a.toNat % 0x10 * 0x40 + b.toNat % 0x40) * 0x40 + c.toNat % 0x40)
  | four {a b c d : UInt8} : 0xF0 ≤ a.toNat → a.toNat ≤ 0xF4 → Second a b → Tail c → Tail d →
    Codes [a, b, c, d]
      (((a.toNat % 0x08 * 0x40 + b.toNat % 0x40) * 0x40 + c.toNat % 0x40) * 0x40 + d.toNat % 0x40)

variable {offset number : Nat} {octet : UInt8} {p : Pending} {octets rest : List UInt8}
  {c : Char} {cs : List Char}

/-- After four first octets the range of the second is cut at one of its ends. -/
theorem second_iff {a b : UInt8} : Second a b ↔ 0x80 ≤ b.toNat ∧ b.toNat ≤ 0xBF ∧
    (a.toNat = 0xE0 → 0xA0 ≤ b.toNat) ∧ (a.toNat = 0xF0 → 0x90 ≤ b.toNat) ∧
    (a.toNat = 0xED → b.toNat ≤ 0x9F) ∧ (a.toNat = 0xF4 → b.toNat ≤ 0x8F) := by
  unfold Second lowAfter highAfter
  generalize a.toNat = m
  generalize b.toNat = n
  split_ifs <;> omega

theorem lowAfter_eq {n : Nat} (h : n ≠ 0xE0) (h' : n ≠ 0xF0) : lowAfter n = 0x80 := by
  rw [lowAfter, if_neg h, if_neg h']

theorem highAfter_eq {n : Nat} (h : n ≠ 0xED) (h' : n ≠ 0xF4) : highAfter n = 0xBF := by
  rw [highAfter, if_neg h, if_neg h']

/-- What a first octet promises, in one line for each number of octets behind it. -/
theorem lead?_eq (offset : Nat) (octet : UInt8) : lead? offset octet =
    if octet.toNat < 0xC2 then none
    else if octet.toNat < 0xE0 then
      some ⟨offset, octet, 1, lowAfter octet.toNat, highAfter octet.toNat, octet.toNat % 0x20⟩
    else if octet.toNat < 0xF0 then
      some ⟨offset, octet, 2, lowAfter octet.toNat, highAfter octet.toNat, octet.toNat % 0x10⟩
    else if octet.toNat ≤ 0xF4 then
      some ⟨offset, octet, 3, lowAfter octet.toNat, highAfter octet.toNat, octet.toNat % 0x08⟩
    else none := by
  unfold lead?
  dsimp only
  simp only [Bool.and_eq_true, decide_eq_true_eq]
  generalize octet.toNat = n
  -- the cases are those of the table, where four octets stand alone
  by_cases htwo : 0xC2 ≤ n ∧ n ≤ 0xDF
  · rw [if_pos htwo, if_neg (by omega), if_pos (by omega), lowAfter_eq (by omega) (by omega),
      highAfter_eq (by omega) (by omega)]
  rw [if_neg htwo]
  by_cases hlow : n = 0xE0
  · subst hlow
    rfl
  rw [if_neg hlow]
  by_cases hhigh : n = 0xED
  · subst hhigh
    rfl
  rw [if_neg hhigh]
  by_cases hthree : 0xE1 ≤ n ∧ n ≤ 0xEF
  · rw [if_pos hthree, if_neg (by omega), if_neg (by omega), if_pos (by omega),
      lowAfter_eq hlow (by omega), highAfter_eq hhigh (by omega)]
  rw [if_neg hthree]
  by_cases hlow' : n = 0xF0
  · subst hlow'
    rfl
  rw [if_neg hlow']
  by_cases hfour : 0xF1 ≤ n ∧ n ≤ 0xF3
  · rw [if_pos hfour, if_neg (by omega), if_neg (by omega), if_neg (by omega), if_pos (by omega),
      lowAfter_eq hlow hlow', highAfter_eq hhigh (by omega)]
  rw [if_neg hfour]
  by_cases hhigh' : n = 0xF4
  · subst hhigh'
    rfl
  rw [if_neg hhigh']
  by_cases hless : n < 0xC2
  · rw [if_pos hless]
  · rw [if_neg hless, if_neg (by omega), if_neg (by omega), if_neg (by omega)]

/-- A short octet is a character. -/
theorem decodeFrom_short (h : octet.toNat < 0x80) : decodeFrom offset none (octet :: rest) =
    (decodeFrom (offset + 1) none rest).map (Char.ofNat octet.toNat :: ·) := by
  rw [decodeFrom]
  exact if_pos h

theorem decodeFrom_lead (h : 0x80 ≤ octet.toNat) (hl : lead? offset octet = some p) :
    decodeFrom offset none (octet :: rest) = decodeFrom (offset + 1) (some p) rest := by
  rw [decodeFrom]
  simp only [if_neg (Nat.not_lt.2 h), hl]

/-- The last octet that is owed ends the character. -/
theorem decodeFrom_last (ho : p.owed = 1) (hb : p.low ≤ octet.toNat ∧ octet.toNat ≤ p.high) :
    decodeFrom offset (some p) (octet :: rest) = (decodeFrom (offset + 1) none rest).map
      (Char.ofNat (p.value * 0x40 + octet.toNat % 0x40) :: ·) := by
  rw [decodeFrom]
  simp [ho, hb]

theorem decodeFrom_more (ho : 1 < p.owed) (hb : p.low ≤ octet.toNat ∧ octet.toNat ≤ p.high) :
    decodeFrom offset (some p) (octet :: rest) = decodeFrom (offset + 1) (some
      { p with owed := p.owed - 1, low := 0x80, high := 0xBF,
               value := p.value * 0x40 + octet.toNat % 0x40 }) rest := by
  rw [decodeFrom]
  simp [hb, Nat.not_le.2 ho]

theorem decodeFrom_codes (h : Codes octets number) : decodeFrom offset none (octets ++ rest) =
    (decodeFrom (offset + octets.length) none rest).map (Char.ofNat number :: ·) := by
  cases h with
  | one ha => exact decodeFrom_short ha
  | @two a b hl hh hb =>
    have hlead := lead?_eq offset a
    rw [if_neg (by omega), if_pos hh] at hlead
    rw [List.cons_append, decodeFrom_lead (by omega) hlead]
    exact decodeFrom_last rfl hb
  | @three a b c hl hh hb hc =>
    have hlead := lead?_eq offset a
    rw [if_neg (by omega), if_neg (by omega), if_pos hh] at hlead
    rw [List.cons_append, decodeFrom_lead (by omega) hlead, List.cons_append,
      decodeFrom_more (Nat.lt_succ_self 1) (by exact hb)]
    exact decodeFrom_last rfl hc
  | @four a b c d hl hh hb hc hd =>
    have hlead := lead?_eq offset a
    rw [if_neg (by omega), if_neg (by omega), if_neg (by omega), if_pos hh] at hlead
    rw [List.cons_append, decodeFrom_lead (by omega) hlead, List.cons_append,
      decodeFrom_more (by simp) (by exact hb), List.cons_append,
      decodeFrom_more (Nat.lt_succ_self 1) (by exact hc)]
    exact decodeFrom_last rfl hd

/-- What is not refused behind a first octet goes on with an octet in its range. -/
theorem decodeFrom_pending (h : decodeFrom offset (some p) octets = .ok cs) :
    ∃ octet rest, octets = octet :: rest ∧ p.low ≤ octet.toNat ∧ octet.toNat ≤ p.high := by
  cases octets with
  | nil => cases h
  | cons octet rest =>
    rw [decodeFrom] at h
    by_cases hb : p.low ≤ octet.toNat ∧ octet.toNat ≤ p.high
    · exact ⟨octet, rest, rfl, hb⟩
    · simp [hb] at h

theorem map_eq_ok {α β ε : Type} {f : α → β} {r : Except ε α} {b : β} (h : r.map f = .ok b) :
    ∃ a, r = .ok a ∧ f a = b := by
  cases r with
  | error e => cases h
  | ok a => exact ⟨a, rfl, Except.ok.inj h⟩

/-- What is not refused is empty or begins with the octets of a character. -/
theorem decodeFrom_cons (h : decodeFrom offset none (octet :: rest) = .ok cs) :
    ∃ char number more, octet :: rest = char ++ more ∧ Codes char number := by
  by_cases hs : octet.toNat < 0x80
  · exact ⟨[octet], _, rest, rfl, .one hs⟩
  · have hlead := lead?_eq offset octet
    split_ifs at hlead with h2 h3 h4 h5
    · rw [decodeFrom] at h
      simp [hs, hlead] at h
    · rw [decodeFrom_lead (by omega) hlead] at h
      obtain ⟨b, more, rfl, hb⟩ := decodeFrom_pending h
      exact ⟨[octet, b], _, more, rfl, .two (by omega) h3 hb⟩
    · rw [decodeFrom_lead (by omega) hlead] at h
      obtain ⟨b, more, rfl, hb⟩ := decodeFrom_pending h
      rw [decodeFrom_more (Nat.lt_succ_self 1) hb] at h
      obtain ⟨c, more, rfl, hc⟩ := decodeFrom_pending h
      exact ⟨[octet, b, c], _, more, rfl, .three (by omega) h4 hb hc⟩
    · rw [decodeFrom_lead (by omega) hlead] at h
      obtain ⟨b, more, rfl, hb⟩ := decodeFrom_pending h
      rw [decodeFrom_more (by simp) hb] at h
      obtain ⟨c, more, rfl, hc⟩ := decodeFrom_pending h
      rw [decodeFrom_more (Nat.lt_succ_self 1) hc] at h
      obtain ⟨d, more, rfl, hd⟩ := decodeFrom_pending h
      exact ⟨[octet, b, c, d], _, more, rfl, .four (by omega) h5 hb hc hd⟩
    · rw [decodeFrom] at h
      simp [hs, hlead] at h

/-- The number of a character is no surrogate and none beyond the last. -/
theorem Codes.valid (h : Codes octets number) : number.isValidChar := by
  unfold Nat.isValidChar
  cases h with
  | one ha => omega
  | two hl hh hb => omega
  | @three a b c hl hh hb hc =>
    rw [second_iff] at hb
    omega
  | @four a b c d hl hh hb hc hd =>
    rw [second_iff] at hb
    unfold Tail at hc hd
    omega

theorem octet_eq (octet : UInt8) {n : Nat} (h : n = octet.toNat) : UInt8.ofNat n = octet := by
  rw [h, UInt8.ofNat_toNat]

theorem Codes.encode_eq (h : Codes octets number) :
    String.utf8EncodeChar (Char.ofNat number) = octets := by
  have hn : (Char.ofNat number).val.toNat = number := by
    rw [Char.ofNat, dif_pos h.valid]
    rfl
  simp only [String.utf8EncodeChar, hn]
  cases h with
  | @one a ha => rw [if_pos (by omega), octet_eq a rfl]
  | @two a b hl hh hb =>
    rw [second_iff] at hb
    rw [if_neg (by omega), if_pos (by omega), octet_eq a (by omega), octet_eq b (by omega)]
  | @three a b c hl hh hb hc =>
    rw [second_iff] at hb
    unfold Tail at hc
    rw [if_neg (by omega), if_neg (by omega), if_pos (by omega), octet_eq a (by omega),
      octet_eq b (by omega), octet_eq c (by omega)]
  | @four a b c d hl hh hb hc hd =>
    rw [second_iff] at hb
    unfold Tail at hc hd
    rw [if_neg (by omega), if_neg (by omega), if_neg (by omega), octet_eq a (by omega),
      octet_eq b (by omega), octet_eq c (by omega), octet_eq d (by omega)]

theorem toNat_octet {n : Nat} (h : n < 0x100) : (UInt8.ofNat n).toNat = n :=
  UInt8.toNat_ofNat_of_lt h

/-- The last six places of a number stand in an octet of its own. -/
theorem tail_octet (n : Nat) : Tail (UInt8.ofNat (n % 0x40 + 0x80)) := by
  rw [Tail, toNat_octet (by omega)]
  omega

theorem codes_two (hl : 0x80 ≤ number) (hh : number < 0x800) :
    Codes [UInt8.ofNat (number / 64 % 0x20 + 0xC0), UInt8.ofNat (number % 0x40 + 0x80)] number := by
  have ha := toNat_octet (show number / 64 % 0x20 + 0xC0 < 0x100 by omega)
  have hb := toNat_octet (show number % 0x40 + 0x80 < 0x100 by omega)
  have hsecond : Second (UInt8.ofNat (number / 64 % 0x20 + 0xC0))
      (UInt8.ofNat (number % 0x40 + 0x80)) := by
    rw [second_iff, ha, hb]
    omega
  have hc := Codes.two (by omega) (by omega) hsecond
  rw [ha, hb] at hc
  convert hc using 1
  omega

theorem codes_three (hl : 0x800 ≤ number) (hh : number < 0x10000) (hv : number.isValidChar) :
    Codes [UInt8.ofNat (number / 4096 % 0x10 + 0xE0), UInt8.ofNat (number / 64 % 0x40 + 0x80),
      UInt8.ofNat (number % 0x40 + 0x80)] number := by
  unfold Nat.isValidChar at hv
  have ha := toNat_octet (show number / 4096 % 0x10 + 0xE0 < 0x100 by omega)
  have hb := toNat_octet (show number / 64 % 0x40 + 0x80 < 0x100 by omega)
  have hc := toNat_octet (show number % 0x40 + 0x80 < 0x100 by omega)
  have hsecond : Second (UInt8.ofNat (number / 4096 % 0x10 + 0xE0))
      (UInt8.ofNat (number / 64 % 0x40 + 0x80)) := by
    rw [second_iff, ha, hb]
    omega
  have h := Codes.three (by omega) (by omega) hsecond (tail_octet number)
  rw [ha, hb, hc] at h
  convert h using 1
  omega

theorem codes_four (hl : 0x10000 ≤ number) (hv : number.isValidChar) :
    Codes [UInt8.ofNat (number / 262144 % 0x08 + 0xF0), UInt8.ofNat (number / 4096 % 0x40 + 0x80),
      UInt8.ofNat (number / 64 % 0x40 + 0x80), UInt8.ofNat (number % 0x40 + 0x80)] number := by
  unfold Nat.isValidChar at hv
  have ha := toNat_octet (show number / 262144 % 0x08 + 0xF0 < 0x100 by omega)
  have hb := toNat_octet (show number / 4096 % 0x40 + 0x80 < 0x100 by omega)
  have hc := toNat_octet (show number / 64 % 0x40 + 0x80 < 0x100 by omega)
  have hd := toNat_octet (show number % 0x40 + 0x80 < 0x100 by omega)
  have hsecond : Second (UInt8.ofNat (number / 262144 % 0x08 + 0xF0))
      (UInt8.ofNat (number / 4096 % 0x40 + 0x80)) := by
    rw [second_iff, ha, hb]
    omega
  have h := Codes.four (by omega) (by omega) hsecond (tail_octet (number / 64))
    (tail_octet number)
  rw [ha, hb, hc, hd] at h
  convert h using 1
  omega

theorem codes_encode (c : Char) : Codes (String.utf8EncodeChar c) c.toNat := by
  have hvalid : c.val.toNat.isValidChar := c.valid
  change Codes _ c.val.toNat
  unfold String.utf8EncodeChar
  generalize c.val.toNat = n at *
  dsimp only
  split_ifs with h1 h2 h3
  · have hn := toNat_octet (show n < 0x100 by omega)
    have hc := Codes.one (show (UInt8.ofNat n).toNat < 0x80 by omega)
    rwa [hn] at hc
  · exact codes_two (by omega) (by omega)
  · exact codes_three (by omega) (by omega) hvalid
  · exact codes_four (by omega) hvalid

theorem decodeFrom_encode (text : List Char) : decodeFrom offset none (encode text) = .ok text := by
  induction text generalizing offset with
  | nil => rfl
  | cons c text ih =>
    rw [encode, List.flatMap_cons, decodeFrom_codes (codes_encode c)]
    change (decodeFrom _ none (encode text)).map _ = _
    rw [ih, Char.ofNat_toNat]
    rfl

theorem eq_encode (h : decodeFrom offset none octets = .ok cs) : octets = encode cs := by
  generalize hn : octets.length = n
  induction n using Nat.strongRecOn generalizing offset octets cs with
  | ind n ih =>
    cases octets with
    | nil =>
      cases h
      rfl
    | cons octet rest =>
      obtain ⟨char, number, more, he, hc⟩ := decodeFrom_cons h
      rw [he, decodeFrom_codes hc] at h
      obtain ⟨cs, hr, rfl⟩ := map_eq_ok h
      have hlen : more.length < n := by
        have hpos : 0 < char.length := by cases hc <;> simp
        rw [← hn, he, List.length_append]
        omega
      rw [he, ih _ hlen hr rfl, encode, encode, List.flatMap_cons, hc.encode_eq]

/-- A file is read as a text exactly if its octets are those of the text. -/
theorem decode_eq_ok_iff {text : List Char} : decode octets = .ok text ↔ octets = encode text := by
  constructor
  · intro h
    exact eq_encode h
  · rintro rfl
    exact decodeFrom_encode text

end FrontEnd.Utf8
