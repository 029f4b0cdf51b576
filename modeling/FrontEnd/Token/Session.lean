import FrontEnd.Token.Scan

namespace FrontEnd

structure ScanSession where
  source : Source
  cursor : Cursor
  tokens : List Token

namespace ScanSession

def start (source : Source) : ScanSession :=
  ⟨source, source.start, []⟩

def tokenize (s : ScanSession) : Except ScanFault (List Token) × ScanSession :=
  let lexing := s.source.lexing
  let after := { s with cursor := lexing.cursor, tokens := lexing.tokens }
  match lexing.fault with
  | some fault => (.error fault, after)
  | none => (.ok lexing.tokens, after)

def peek (s : ScanSession) : Char :=
  s.cursor.rest.head?.getD '\x00'

def peekNext (s : ScanSession) : Option Char :=
  s.cursor.rest[1]?

def atEnd (s : ScanSession) : Bool :=
  s.cursor.atEnd

def advance (s : ScanSession) : Except ScanFault Char × ScanSession :=
  match s.cursor.rest with
  | [] => (.error .endOfText, s)
  | c :: _ => (.ok c, { s with cursor := s.cursor.skip 1 })

/-- One scanning step, whether or not it fits the next character. -/
def step (read : Source → Cursor → Scan) (s : ScanSession) :
    Except ScanFault Unit × ScanSession :=
  let scan := read s.source s.cursor
  match scan.outcome with
  | .error fault => (.error fault, { s with cursor := scan.cursor })
  | .ok t => (.ok (), { s with cursor := scan.cursor, tokens := s.tokens ++ [t] })

def rename (s : ScanSession) (name : String) : ScanSession :=
  { s with source := { s.source with name := name } }

def setKeywords (s : ScanSession) (keywords : Keywords) : ScanSession :=
  { s with source := { s.source with keywords := keywords } }

end ScanSession
end FrontEnd
