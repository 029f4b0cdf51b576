import FrontEnd.CommandLine.Words
import FrontEnd.Numeral

namespace FrontEnd.CommandLine

inductive Command where
  | tokens
  /-- The indentation is missing if its option was given without a value. -/
  | ast (indent : Option Int)
  deriving DecidableEq, Repr

structure Invocation where
  colored : Bool
  verbose : Bool
  command : Command
  path : String
  deriving DecidableEq, Repr

structure Request where
  indent : Option Int
  path : Option String
  extras : List String

/-- The operand at the head of the words with the dividers around it, and the words behind. -/
def takeOperand : List (Word × String) → Option (String × List (Word × String))
  | (.divider, _) :: (.operand text, _) :: rest => some (text, rest)
  | (.operand text, _) :: (.divider, _) :: rest => some (text, rest)
  | (.operand text, _) :: rest => some (text, rest)
  | _ => none

def Request.apply (page : Page) (r : Request) :
    List (Flag × Option String) → Except Stop Request
  | [] => .ok r
  | (.indent, none) :: rest => Request.apply page { r with indent := none } rest
  | (.indent, some value) :: rest =>
    match Numeral.integer? value with
    | some indent => Request.apply page { r with indent := some indent } rest
    | none => .error (.misuse page (.badInteger .indent value))
  | (.help, _) :: _ => .error (.help page)
  | _ :: rest => Request.apply page r rest

def Request.heed (page : Page) (r : Request)
    (asked : Except Misuse (List (Flag × Option String))) : Except Stop Request :=
  match asked with
  | .error e => .error (.misuse page e)
  | .ok flags => r.apply page flags

/-- The words behind a command. Each round takes a word at least, so their number bounds the
rounds. -/
def request (page : Page) : Nat → Request → List (Word × String) → Except Stop Request
  | _, r, [] => .ok r
  | 0, r, _ => .ok r
  | rounds + 1, r, (word, text) :: rest =>
    match word with
    | .unknown _ => request page rounds { r with extras := r.extras ++ [text] } rest
    | .letters flag tail => do request page rounds (← r.heed page (askLetters page flag tail)) rest
    | .option flag value =>
      match flag.takesValue, value, rest with
      | true, none, (.operand value, _) :: rest => do
        request page rounds (← r.heed page (askOption flag (some value))) rest
      | _, _, _ => do request page rounds (← r.heed page (askOption flag value)) rest
    | _ =>
      match r.path, takeOperand ((word, text) :: rest) with
      | none, some (path, rest) => request page rounds { r with path := some path } rest
      | _, _ => request page rounds { r with extras := r.extras ++ [text] } rest

def readCommand (page : Page) (words : List String) :
    Except Stop (Option Int × String × List String) := do
  let words ← (classifyAll page words).mapError (.misuse page)
  let r ← request page words.length ⟨some 2, none, []⟩ words
  match r.path with
  | none => .error (.misuse page (.missing "file"))
  | some path => .ok (r.indent, path, r.extras)

structure General where
  colored : Bool
  verbose : Bool
  extras : List String

def General.apply (g : General) : List (Flag × Option String) → Except Stop General
  | [] => .ok g
  | (.help, _) :: _ => .error (.help .program)
  | (.version, _) :: _ => .error .version
  | (.noColor, _) :: rest => General.apply { g with colored := false } rest
  | (.verbose, _) :: rest => General.apply { g with verbose := true } rest
  | (.indent, _) :: rest => General.apply g rest

def General.heed (g : General) (asked : Except Misuse (List (Flag × Option String))) :
    Except Stop General :=
  match asked with
  | .error e => .error (.misuse .program e)
  | .ok flags => g.apply flags

def General.run (g : General) (words : List String) : Except Stop Invocation := do
  match words with
  | "tokens" :: rest =>
    let (_, path, extras) ← readCommand .tokens rest
    finish .tokens path extras
  | "ast" :: rest =>
    let (indent, path, extras) ← readCommand .ast rest
    finish (.ast indent) path extras
  | word :: _ => .error (.misuse .program (.badCommand word))
  | [] => .error (.misuse .program (.missing "command"))
where
  finish (command : Command) (path : String) (extras : List String) : Except Stop Invocation :=
    match g.extras ++ extras with
    | [] => .ok ⟨g.colored, g.verbose, command, path⟩
    | words => .error (.misuse .program (.unrecognized words))

def readGeneral (g : General) : List (Word × String) → Except Stop Invocation
  | [] => .error (.misuse .program (.missing "command"))
  | (.unknown text, _) :: rest => readGeneral { g with extras := g.extras ++ [text] } rest
  | (.option flag value, _) :: rest => do readGeneral (← g.heed (askOption flag value)) rest
  | (.letters flag tail, _) :: rest => do readGeneral (← g.heed (askLetters .program flag tail)) rest
  | [(.divider, _)] => .error (.misuse .program (.missing "command"))
  | words => g.run (words.map Prod.snd)

def read (words : List String) : Except Stop Invocation := do
  let words ← (classifyAll .program words).mapError (.misuse .program)
  readGeneral ⟨true, false, []⟩ words

end FrontEnd.CommandLine
