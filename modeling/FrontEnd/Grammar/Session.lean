import FrontEnd.Grammar.Program

namespace FrontEnd

/-- `current` counts the tokens taken; it may lie beyond the last one. -/
structure ParseSession where
  tokens : List Token
  current : Nat
  errors : List SyntaxError
  grammar : Grammar
  limit : Nat

namespace ParseSession

def start (tokens : List Token) : ParseSession :=
  ⟨tokens, 0, [], .standard, nestingLimit⟩

def stop (s : ParseSession) : Token :=
  endToken s.tokens

def rest (s : ParseSession) : List Token :=
  s.tokens.drop s.current

def moveTo (s : ParseSession) (rest : List Token) : ParseSession :=
  { s with current := s.current + (s.rest.length - rest.length) }

/-- From the first token. A rejected program keeps the statements before the error, which is
recorded; a number that cannot be read leaves nothing. -/
def parse (s : ParseSession) : Except ParseFault (List Node) × ParseSession :=
  let fresh := { s with current := 0, errors := [] }
  let parsing := s.grammar.program s.limit s.tokens
  let after := fresh.moveTo parsing.rest
  match parsing.fault with
  | none => (.ok parsing.statements, after)
  | some (.rejected e) => (.ok parsing.statements, { after with errors := [e] })
  | some fault => (.error fault, after)

def expression (s : ParseSession) (min : Int) : Except ParseFault Node × ParseSession :=
  match s.grammar.expression s.stop s.limit min s.rest with
  | .done node rest => (.ok node, s.moveTo rest)
  | .failed fault rest => (.error fault, s.moveTo rest)

def atEnd (s : ParseSession) : Bool :=
  Grammar.atEnd s.rest

def peek (s : ParseSession) : Token :=
  Grammar.peek s.stop s.rest

/-- At the end the session stays where it is. -/
def advance (s : ParseSession) : Token × ParseSession :=
  (s.peek, if s.atEnd then s else { s with current := s.current + 1 })

def check (s : ParseSession) (kind : Kind) : Bool :=
  (Grammar.accept? kind s.rest).isSome

def accept (s : ParseSession) (kind : Kind) : Bool × ParseSession :=
  match Grammar.accept? kind s.rest with
  | some (_, rest) => (true, s.moveTo rest)
  | none => (false, s)

def expect (s : ParseSession) (kind : Kind) (context : String) :
    Except ParseFault Token × ParseSession :=
  match Grammar.expect s.stop kind context s.rest with
  | .done t rest => (.ok t, s.moveTo rest)
  | .failed fault rest => (.error fault, s.moveTo rest)

def seek (s : ParseSession) (current : Nat) : ParseSession :=
  { s with current := current }

def eraseStarter (s : ParseSession) (kind : Kind) : Bool × ParseSession :=
  (s.grammar.starters.contains kind, { s with grammar := s.grammar.eraseStarter kind })

def eraseOperator (s : ParseSession) (kind : Kind) : Bool × ParseSession :=
  (s.grammar.operators.contains kind, { s with grammar := s.grammar.eraseOperator kind })

end ParseSession
end FrontEnd
