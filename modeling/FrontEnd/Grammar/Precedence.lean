import FrontEnd.Token.Kind

namespace FrontEnd

inductive Level where
  | assignment | or | and | equality | comparison | bitwise | term | factor | power
  deriving DecidableEq, Repr

namespace Level

def name : Level → String
  | assignment => "ASSIGNMENT"
  | or => "OR"
  | and => "AND"
  | equality => "EQUALITY"
  | comparison => "COMPARISON"
  | bitwise => "BITWISE"
  | term => "TERM"
  | factor => "FACTOR"
  | power => "POWER"

/-- Higher binds tighter. -/
def strength : Level → Nat
  | assignment => 1
  | or => 2
  | and => 3
  | equality => 7
  | comparison => 8
  | bitwise => 9
  | term => 10
  | factor => 20
  | power => 30

end Level

namespace Kind

def level? : Kind → Option Level
  | .assign | .plusAssign | .minusAssign | .starAssign | .slashAssign | .percentAssign =>
    some .assignment
  | .orOr => some .or
  | .andAnd => some .and
  | .equalEqual | .bangEqual => some .equality
  | .less | .lessEqual | .greater | .greaterEqual => some .comparison
  | .ampersand | .pipe | .caret => some .bitwise
  | .plus | .minus => some .term
  | .star | .slash | .percent => some .factor
  | .power => some .power
  | _ => none

/-- Zero for a kind that is no operator. -/
def precedence (kind : Kind) : Nat :=
  (kind.level?.map Level.strength).getD 0

def isRightAssociative (kind : Kind) : Bool :=
  kind.level? == some .assignment || kind.level? == some .power

/-- What the operators of a right operand must exceed. Lower by one, it lets the operand take in
operators of the same level. -/
def rightPower (kind : Kind) : Int :=
  if kind.isRightAssociative then kind.precedence - 1 else kind.precedence

theorem precedence_pos_iff (kind : Kind) : 0 < kind.precedence ↔ kind.level?.isSome := by
  cases kind <;> decide

theorem rightPower_nonneg (kind : Kind) : 0 ≤ kind.rightPower := by
  cases kind <;> decide

end Kind
end FrontEnd
