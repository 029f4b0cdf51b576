namespace FrontEnd

/-- The rank that infinity would have. -/
def Binary64.rankLimit : Nat := 0x7FF * Nat.pow 2 52

/-- A finite magnitude is kept by its rank, its place among all magnitudes in rising order. -/
inductive Binary64 where
  | nan
  | infinite (negative : Bool)
  | finite (negative : Bool) (rank : Nat) (rank_lt : rank < Binary64.rankLimit)
  deriving DecidableEq, Repr

namespace Binary64

def zero (negative : Bool) : Binary64 :=
  finite negative 0 (by decide)

def significand (rank : Nat) : Nat :=
  if rank < Nat.pow 2 52 then rank else Nat.pow 2 52 + rank % Nat.pow 2 52

def exponent (rank : Nat) : Nat :=
  rank / Nat.pow 2 52 - 1

/-- The magnitude as a multiple of the least one, 2^-1074. -/
def units (rank : Nat) : Nat :=
  significand rank * Nat.pow 2 (exponent rank)

def one : Nat := Nat.pow 2 1074

/-- The nearest integer to `num / den`; a half goes to the even neighbour. -/
def divNearest (num den : Nat) : Nat :=
  let low := num / den
  let rest := 2 * (num % den)
  if rest < den then low
  else if den < rest then low + 1
  else low + low % 2

/-- The rank nearest to `num / den` units; ranks from `rankLimit` on are out of range. -/
def nearestRank (num den : Nat) : Nat :=
  let shift := (num / den).log2 + 1 - 53
  shift * Nat.pow 2 52 + divNearest num (den * Nat.pow 2 shift)

def ofRank (negative : Bool) (rank : Nat) : Binary64 :=
  if h : rank < rankLimit then finite negative rank h else infinite negative

def ofRatio (negative : Bool) (num den : Nat) : Binary64 :=
  ofRank negative (nearestRank (num * one) den)

/-- The number nearest to `digits * 10 ^ scale`. The two early answers keep the powers of ten in
proportion to the digits; they are exact because 10^401 is out of range and 8^k is below 10^k. -/
def ofDecimal (negative : Bool) (digits : Nat) (scale : Int) : Binary64 :=
  if digits = 0 then zero negative
  else if 0 ≤ scale then
    if 400 < scale then infinite negative
    else ofRatio negative (digits * Nat.pow 10 scale.toNat) 1
  else
    let places := (-scale).toNat
    if digits.log2 + 1100 < 3 * places then zero negative
    else ofRatio negative digits (Nat.pow 10 places)

def signedUnits? : Binary64 → Option Int
  | finite negative rank _ => some (if negative then -(units rank : Int) else units rank)
  | _ => none

end Binary64
end FrontEnd
