import FrontEnd.CommandLine.Invocation
import FrontEnd.File.Reading
import FrontEnd.Grammar.Session
import FrontEnd.Node.View

namespace FrontEnd.CommandLine

inductive DumpFault where
  /-- More nodes under one another than can be open at once. -/
  | tooDeep
  | noIndentation
  /-- An indentation that is no integer of the machine. -/
  | outOfRange
  | noMemory
  deriving DecidableEq, Repr

def DumpFault.message : DumpFault → String
  | tooDeep => "maximum recursion depth exceeded"
  | noIndentation => "can't multiply sequence by non-int of type 'list'"
  | outOfRange => "cannot fit 'int' into an index-sized integer"
  | noMemory => ""

/-- A fault that the program does not report itself. -/
inductive Escape where
  | file (path : String) (fault : FileFault)
  | source (fault : Fault)
  | dump (fault : DumpFault)
  deriving DecidableEq, Repr

def Escape.message : Escape → String
  | .file path fault => fault.message path
  | .source fault => fault.message
  | .dump fault => fault.message

inductive Ending where
  | status (number : Nat)
  /-- There was nothing to carry out. -/
  | exit (number : Nat)
  | escaped (e : Escape)
  deriving DecidableEq, Repr

structure Outcome where
  ending : Ending
  output : String
  errors : String
  deriving DecidableEq, Repr

def Stop.outcome : Stop → Outcome
  | .help page => ⟨.exit 0, page.help, ""⟩
  | .version => ⟨.exit 0, versionText, ""⟩
  | .misuse page e =>
    ⟨.exit 2, "", page.usage ++ page.title ++ ": error: " ++ e.message ++ "\n"⟩

def padRight (width : Nat) (text : String) : String :=
  text ++ String.ofList (List.replicate (width - text.length) ' ')

def listingLine (t : Token) : String :=
  padRight 16 t.kind.name ++ " " ++ padRight 20 (Text.quoted t.lexeme) ++
    s!" line {t.span.line}, columns {t.span.startColumn}-{t.span.endColumn}\n"

def listing (ts : List Token) : String :=
  String.join (ts.map listingLine)

/-- How many nodes of a tree may be open at once when it is written. -/
def viewLimit : Nat := 497

def isIndex (width : Int) : Bool :=
  -0x8000000000000000 ≤ width && width < 0x8000000000000000

/-- The text of trees, if there is memory for so many characters. All trees are walked before the
indentation matters. -/
def dump (room : Nat) (indent : Option Int) (nodes : List Node) : Except DumpFault String :=
  if !nodes.all (Node.opensWithin viewLimit) then .error .tooDeep
  else
    match indent with
    | none => .error .noIndentation
    | some width =>
      if !isIndex width then .error .outOfRange
      else if room < width.toNat then .error .noMemory
      else
        let text := (Node.dump? (.blanks width) nodes).getD ""
        if room < text.length then .error .noMemory else .ok text

namespace Invocation

def log (inv : Invocation) (source text : String) : String :=
  if inv.verbose then "DEBUG " ++ source ++ ": " ++ text ++ "\n" else ""

def scanLog (inv : Invocation) (source : Source) (ts : List Token) : String :=
  inv.log "farpy.lexer.lexer" s!"{source.name}: produced {ts.length} tokens"

def parseLog (inv : Invocation) (statements : List Node) (e : Option SyntaxError) : String :=
  (match e with
    | none => ""
    | some e =>
      inv.log "farpy.parser.parser"
        s!"parse stopped after {statements.length} statement(s): {e.message}") ++
  inv.log "farpy.parser.parser" s!"parsed {statements.length} top-level statement(s)"

/-- The statements before the first error, and the error behind the log. Where they cannot be
written the reading is logged and nothing is reported. -/
def runAst (inv : Invocation) (room : Nat) (indent : Option Int) (ts : List Token)
    (log : String) : Outcome :=
  let parsing := Grammar.standard.program nestingLimit ts
  let report (e : Option SyntaxError) : Outcome :=
    let log := log ++ inv.parseLog parsing.statements e
    match dump room indent parsing.statements, e with
    | .error fault, _ => ⟨.escaped (.dump fault), "", log⟩
    | .ok text, none => ⟨.status 0, text ++ "\n", log⟩
    | .ok text, some e => ⟨.status 1, text ++ "\n", log ++ e.diagnostic.render inv.colored⟩
  match parsing.fault with
  | none => report none
  | some (.rejected e) => report (some e)
  | some fault => ⟨.escaped (.source (.parse fault)), "", log⟩

def runSource (inv : Invocation) (room : Nat) (source : Source) : Outcome :=
  match source.tokens with
  | .error (.lexical e) => ⟨.status 1, "", e.diagnostic.render inv.colored⟩
  | .error fault => ⟨.escaped (.source (.scan fault)), "", ""⟩
  | .ok ts =>
    let log := inv.scanLog source ts
    match inv.command with
    | .tokens => ⟨.status 0, listing ts, log⟩
    | .ast indent => inv.runAst room indent ts log

def run (inv : Invocation) (room : Nat) (content : Except FileFault Octets) : Outcome :=
  match content.bind (Source.ofFile inv.path) with
  | .ok source => inv.runSource room source
  | .error (.system e) =>
    let text := (FileFault.system e).message inv.path
    ⟨.status 2, "", s!"ERROR farpy.cli: could not read {inv.path}: {text}\n"⟩
  | .error fault => ⟨.escaped (.file inv.path fault), "", ""⟩

end Invocation

/-- The whole program, given something that opens files and the length of a dump that there is
memory for. Only the indentation asks for more than what was read. -/
def outcome (words : List String) (opener : String → Except SystemError Octets) (room : Nat) :
    Outcome :=
  match read words with
  | .error stop => stop.outcome
  | .ok inv => inv.run room (File.content opener inv.path)

end FrontEnd.CommandLine
