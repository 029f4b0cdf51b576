import FrontEnd.Binary64.Text
import FrontEnd.Text.Quoted

namespace FrontEnd

inductive Scalar where
  | null
  | bool (value : Bool)
  | int (value : Int)
  | float (value : Binary64)
  | text (value : String)
  deriving DecidableEq, Repr

/-- A point of the extended number line; a finite one in units of 2^-1074. -/
inductive Quantity where
  | finite (units : Int)
  | infinite (negative : Bool)
  deriving DecidableEq, Repr

namespace Scalar

def quantity? : Scalar → Option Quantity
  | bool value => some (.finite ((if value then 1 else 0) * Binary64.one))
  | int value => some (.finite (value * Binary64.one))
  | float (.infinite negative) => some (.infinite negative)
  | float value => value.signedUnits?.map .finite
  | _ => none

/-- Equality as the language sees it: by place on the number line, and never for what is not a
number. -/
def same : Scalar → Scalar → Bool
  | null, null => true
  | text a, text b => a == b
  | a, b =>
    match a.quantity?, b.quantity? with
    | some p, some q => p == q
    | _, _ => false

def describe : Scalar → String
  | null => "None"
  | bool value => if value then "True" else "False"
  | int value => toString value
  | float value => value.text
  | text value => Text.quoted value

end Scalar
end FrontEnd
