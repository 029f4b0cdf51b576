import FrontEnd.Grammar.Precedence
import FrontEnd.Grammar.SyntaxError
import FrontEnd.Node.Basic
import FrontEnd.Numeral

namespace FrontEnd

structure Grammar where
  starters : List Kind
  operators : List Kind

namespace Grammar

def standard : Grammar where
  starters := [.number, .string, .identifier, .newWord]
  operators := Kind.all.filter fun kind => kind.level?.isSome

def eraseStarter (g : Grammar) (kind : Kind) : Grammar :=
  { g with starters := g.starters.filter (· != kind) }

def eraseOperator (g : Grammar) (kind : Kind) : Grammar :=
  { g with operators := g.operators.filter (· != kind) }

end Grammar

inductive ParseFault where
  | rejected (e : SyntaxError)
  | notANumber (text : String)
  deriving DecidableEq, Repr

def ParseFault.message : ParseFault → String
  | .rejected e => e.message
  | .notANumber text => Numeral.refusal text

inductive Reading (α : Type) where
  | done (value : α) (rest : List Token)
  | failed (fault : ParseFault) (rest : List Token)

namespace Reading

@[inline]
def bind {α β : Type} (r : Reading α) (next : α → List Token → Reading β) : Reading β :=
  match r with
  | done value rest => next value rest
  | failed fault rest => failed fault rest

def rest {α : Type} : Reading α → List Token
  | done _ rest => rest
  | failed _ rest => rest

end Reading

namespace Grammar

def atEnd : List Token → Bool
  | [] => true
  | t :: _ => t.kind == .endOfInput

def peek (stop : Token) : List Token → Token
  | [] => stop
  | t :: _ => t

/-- The next token if it is of this kind; at the end no kind is there. -/
def accept? (kind : Kind) : List Token → Option (Token × List Token)
  | [] => none
  | t :: rest => if t.kind = kind ∧ t.kind ≠ .endOfInput then some (t, rest) else none

def expect (stop : Token) (kind : Kind) (context : String) (ts : List Token) : Reading Token :=
  match accept? kind ts with
  | some (t, rest) => .done t rest
  | none => .failed (.rejected (.unexpected kind context (peek stop ts))) ts

structure Head where
  isMutable : Bool
  name : String
  typeName : String

def head (stop : Token) (isMutable : Bool) (ts : List Token) : Reading Head :=
  (expect stop .identifier "for variable name" ts).bind fun name ts =>
  (expect stop .colon "after variable name" ts).bind fun _ ts =>
  (expect stop .identifier "for type after ':'" ts).bind fun type ts =>
  (expect stop .assign "after type" ts).bind fun _ ts =>
  .done ⟨isMutable, name.lexeme, type.lexeme⟩ ts

/-- The rest of a declaration whose first word is taken; `inner` reads expressions inside it. -/
def declaration (stop : Token) (inner : Int → List Token → Reading Node) (opening : Token)
    (ts : List Token) : Reading Node :=
  let reading := match accept? .mutWord ts with
    | some (_, rest) => head stop true rest
    | none => head stop false ts
  reading.bind fun head ts =>
  (inner 0 ts).bind fun value ts =>
  .done (.declaration opening.span head.name head.isMutable (some value) (some head.typeName)) ts

def operand (g : Grammar) (stop : Token) (inner : Int → List Token → Reading Node) (t : Token)
    (ts : List Token) : Reading Node :=
  if t.kind ∉ g.starters then .failed (.rejected (.invalidStart t)) ts
  else
    match t.kind with
    | .number =>
      match Numeral.real? t.lexeme with
      | some value => .done (.number t.span (.float value)) ts
      | none => .failed (.notANumber t.lexeme) ts
    | .string => .done (.string t.span t.value) ts
    | .identifier => .done (.identifier t.span t.lexeme) ts
    | .newWord => declaration stop inner t ts
    | _ => .failed (.rejected (.invalidStart t)) ts

/-- Operators stronger than `min` with their right operands, behind the tree `left`. Each takes a
token, so the number of tokens bounds the rounds. -/
def climb (g : Grammar) (inner : Int → List Token → Reading Node) (min : Int) :
    Nat → Node → List Token → Reading Node
  | _, left, [] => .done left []
  | 0, left, ts => .done left ts
  | rounds + 1, left, t :: rest =>
    if t.kind = .endOfInput ∨ (t.kind.precedence : Int) ≤ min then .done left (t :: rest)
    else if t.kind ∉ g.operators then .failed (.rejected (.invalidOperator t)) rest
    else
      (inner t.kind.rightPower rest).bind fun right rest =>
      climb g inner min rounds (.binary t.span t.lexeme (some left) (some right)) rest

/-- An expression of operators stronger than `min`, with at most `depth` expressions open at once
inside and including it. -/
def expression (g : Grammar) (stop : Token) : Nat → Int → List Token → Reading Node
  | 0, _, ts => .failed (.rejected (.tooDeep (peek stop ts))) ts
  | depth + 1, min, ts =>
    match ts with
    | [] => .failed (.rejected (.unexpectedEnd "an expression" stop.span)) []
    | t :: rest =>
      if t.kind = .endOfInput then
        .failed (.rejected (.unexpectedEnd "an expression" t.span)) ts
      else
        (operand g stop (expression g stop depth) t rest).bind fun left rest =>
        climb g (expression g stop depth) min rest.length left rest

end Grammar
end FrontEnd
