import FrontEnd.Binary64.Shortest

namespace FrontEnd.Binary64

def zeros (n : Nat) : String :=
  String.ofList (List.replicate n '0')

/-- Written with a point; `leading` is the exponent of the first digit. -/
def positional (digits : String) (leading : Int) : String :=
  if leading < 0 then
    "0." ++ zeros (-leading - 1).toNat ++ digits
  else
    let whole := leading.toNat + 1
    if digits.length ≤ whole then digits ++ zeros (whole - digits.length) ++ ".0"
    else
      String.ofList (digits.toList.take whole) ++ "." ++ String.ofList (digits.toList.drop whole)

def scientific (digits : String) (leading : Int) : String :=
  let fraction := digits.toList.drop 1
  let mantissa := String.ofList (digits.toList.take 1) ++
    (if fraction.isEmpty then "" else "." ++ String.ofList fraction)
  let size := toString leading.natAbs
  mantissa ++ "e" ++ (if leading < 0 then "-" else "+") ++ zeros (2 - size.length) ++ size

def magnitudeText (rank : Nat) : String :=
  if rank = 0 then "0.0"
  else
    let (number, scale) := shortest rank
    let digits := toString number
    let leading := scale + digits.length - 1
    if -4 ≤ leading ∧ leading < 16 then positional digits leading else scientific digits leading

def text : Binary64 → String
  | nan => "nan"
  | infinite negative => if negative then "-inf" else "inf"
  | finite negative rank _ => (if negative then "-" else "") ++ magnitudeText rank

end FrontEnd.Binary64
