import FrontEnd.Grammar.Expression
import FrontEnd.Token.Scan

namespace FrontEnd

/-- How many expressions may be open at once. -/
def nestingLimit : Nat := 497

/-- The token behind the last one: the last one itself if it marks the end, otherwise one without
text where the last one stops. -/
def endToken (ts : List Token) : Token :=
  match ts.getLast? with
  | none => ⟨.endOfInput, "", .null, .origin⟩
  | some t => if t.kind = .endOfInput then t else ⟨.endOfInput, "", .null, t.span.atEnd⟩

structure Parsing where
  statements : List Node
  rest : List Token
  fault : Option ParseFault

namespace Grammar

/-- Each statement takes a token, so the number of tokens bounds the rounds. -/
def statements (g : Grammar) (stop : Token) (limit : Nat) : Nat → List Token → Parsing
  | 0, ts => ⟨[], ts, none⟩
  | rounds + 1, ts =>
    if atEnd ts then ⟨[], ts, none⟩
    else
      match g.expression stop limit 0 ts with
      | .failed fault rest => ⟨[], rest, some fault⟩
      | .done statement rest =>
        let more := g.statements stop limit rounds rest
        { more with statements := statement :: more.statements }

def program (g : Grammar) (limit : Nat) (ts : List Token) : Parsing :=
  g.statements (endToken ts) limit ts.length ts

end Grammar

inductive Fault where
  | scan (fault : ScanFault)
  | parse (fault : ParseFault)
  deriving DecidableEq, Repr

def Fault.message : Fault → String
  | .scan fault => fault.message
  | .parse fault => fault.message

def Source.program (s : Source) : Except Fault (List Node) :=
  match s.tokens with
  | .error fault => .error (.scan fault)
  | .ok ts =>
    match Grammar.standard.program nestingLimit ts with
    | ⟨_, _, some fault⟩ => .error (.parse fault)
    | ⟨statements, _, none⟩ => .ok statements

end FrontEnd
