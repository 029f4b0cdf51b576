import FrontEnd.Binary64.Basic

namespace FrontEnd.Binary64

def decimalUnits (digits : Nat) (scale : Int) : Nat × Nat :=
  if 0 ≤ scale then (digits * Nat.pow 10 scale.toNat * one, 1)
  else (digits * one, Nat.pow 10 (-scale).toNat)

def readsBack (rank digits : Nat) (scale : Int) : Bool :=
  let (num, den) := decimalUnits digits scale
  nearestRank num den == rank

def onGrid (rank : Nat) (scale : Int) : Nat × Nat :=
  if 0 ≤ scale then (units rank, one * Nat.pow 10 scale.toNat)
  else (units rank * Nat.pow 10 (-scale).toNat, one)

/-- The point of the grid of multiples of `10 ^ scale` that reads back as this rank: of two the
nearer, and of two equally near the even one. Only the two neighbours of the magnitude can. -/
def gridPoint? (rank : Nat) (scale : Int) : Option Nat :=
  let (num, den) := onGrid rank scale
  let low := num / den
  if readsBack rank low scale then
    if readsBack rank (low + 1) scale then some (divNearest num den) else some low
  else if readsBack rank (low + 1) scale then some (low + 1)
  else none

/-- The first of `tries` grids with such a point, each ten times finer than the one before. Without
one the magnitude is rounded to the next grid. -/
def searchGrids (rank tries : Nat) (scale : Int) : Nat × Int :=
  let (num, den) := onGrid rank (scale - tries)
  let found := (List.range tries).findSome? fun (step : Nat) =>
    (gridPoint? rank (scale - step)).map (·, scale - step)
  found.getD (divNearest num den, scale - tries)

/-- Digits and scale of a positive magnitude. The first grid is coarser than the magnitude, since
log10 2 < 0.30103, and the last one finer than its seventeenth digit. -/
def shortest (rank : Nat) : Nat × Int :=
  searchGrids rank 20 (((units rank).log2 - 1074 : Int) * 30103 / 100000 + 2)

end FrontEnd.Binary64
