import FrontEnd.Binary64.Basic
import FrontEnd.Text.Blank
import FrontEnd.Text.DecimalDigit
import FrontEnd.Text.Quoted

namespace FrontEnd.Numeral

def maxDigits : Nat := 4300

/-- Without blanks around, and with digits of other scripts in ASCII. -/
def normalize (text : List Char) : List Char :=
  let inner := (text.dropWhile Text.isMargin).reverse.dropWhile Text.isMargin
  inner.reverse.map fun c => ((Text.decimalDigit? c).map Nat.digitChar).getD c

/-- Without underscores, or nothing if one does not stand between two digits. `afterDigit` tells
about the character before. -/
def dropUnderscores (afterDigit : Bool) : List Char → Option (List Char)
  | [] => some []
  | '_' :: c :: rest =>
    if afterDigit && c.isDigit then (dropUnderscores true rest).map (c :: ·) else none
  | c :: rest => if c = '_' then none else (dropUnderscores c.isDigit rest).map (c :: ·)

def splitSign : List Char → Bool × List Char
  | '-' :: rest => (true, rest)
  | '+' :: rest => (false, rest)
  | rest => (false, rest)

def ofDigits (digits : List Char) : Nat :=
  digits.foldl (fun n c => 10 * n + (c.toNat - 0x30)) 0

def integer? (text : String) : Option Int := do
  let plain ← dropUnderscores false (normalize text.toList)
  let (negative, digits) := splitSign plain
  if digits.isEmpty || !digits.all Char.isDigit || maxDigits < digits.length then none
  else some (if negative then -(ofDigits digits : Int) else ofDigits digits)

def exponent? : List Char → Option Int
  | [] => some 0
  | mark :: rest =>
    let (negative, digits) := splitSign rest
    if (mark = 'e' || mark = 'E') && !digits.isEmpty && digits.all Char.isDigit then
      some (if negative then -(ofDigits digits : Int) else ofDigits digits)
    else none

def splitFraction : List Char → List Char × List Char
  | '.' :: rest => (rest.takeWhile Char.isDigit, rest.dropWhile Char.isDigit)
  | rest => ([], rest)

/-- Digits with a point and an exponent, each of which may be missing. -/
def decimal? (negative : Bool) (text : List Char) : Option Binary64 :=
  let whole := text.takeWhile Char.isDigit
  let (fraction, rest) := splitFraction (text.dropWhile Char.isDigit)
  if whole.isEmpty && fraction.isEmpty then none
  else
    (exponent? rest).map fun power =>
      Binary64.ofDecimal negative (ofDigits (whole ++ fraction)) (power - fraction.length)

def real? (text : String) : Option Binary64 := do
  let plain ← dropUnderscores false (normalize text.toList)
  let (negative, magnitude) := splitSign plain
  let word := String.ofList (magnitude.map Char.toLower)
  if word = "inf" ∨ word = "infinity" then some (.infinite negative)
  else if word = "nan" then some .nan
  else decimal? negative magnitude

def refusal (text : String) : String :=
  "could not convert string to float: " ++ Text.quoted text

end FrontEnd.Numeral
