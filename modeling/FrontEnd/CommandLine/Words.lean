import FrontEnd.CommandLine.Page
import FrontEnd.Text.DecimalDigit
import FrontEnd.Text.Quoted

namespace FrontEnd.CommandLine

inductive Flag where
  | help | version | noColor | verbose | indent
  deriving DecidableEq, Repr

namespace Flag

def takesValue (flag : Flag) : Bool :=
  flag == .indent

def title : Flag → String
  | help => "-h/--help"
  | version => "--version"
  | noColor => "--no-color"
  | verbose => "-v/--verbose"
  | indent => "--indent"

end Flag

def Page.spellings : Page → List (String × Flag)
  | program =>
    [("-h", .help), ("--help", .help), ("--version", .version), ("--no-color", .noColor),
      ("-v", .verbose), ("--verbose", .verbose)]
  | tokens => [("-h", .help), ("--help", .help)]
  | ast => [("-h", .help), ("--help", .help), ("--indent", .indent)]

inductive Misuse where
  | ambiguous (word : String) (matching : List String)
  | ignoredValue (flag : Flag) (value : String)
  | missingValue (flag : Flag)
  | badInteger (flag : Flag) (value : String)
  | badCommand (word : String)
  | missing (what : String)
  | unrecognized (words : List String)
  deriving DecidableEq, Repr

def Misuse.message : Misuse → String
  | ambiguous word matching =>
    "ambiguous option: " ++ word ++ " could match " ++ ", ".intercalate matching
  | ignoredValue flag value =>
    "argument " ++ flag.title ++ ": ignored explicit argument " ++ Text.quoted value
  | missingValue flag => "argument " ++ flag.title ++ ": expected one argument"
  | badInteger flag value =>
    "argument " ++ flag.title ++ ": invalid int value: " ++ Text.quoted value
  | badCommand word =>
    "argument command: invalid choice: " ++ Text.quoted word ++
      " (choose from 'tokens', 'ast')"
  | missing what => "the following arguments are required: " ++ what
  | unrecognized words => "unrecognized arguments: " ++ " ".intercalate words

inductive Stop where
  | help (page : Page)
  | version
  | misuse (page : Page) (e : Misuse)
  deriving DecidableEq, Repr

inductive Word where
  | operand (text : String)
  | divider
  | option (flag : Flag) (value : Option String)
  /-- A flag of one letter, with at least one more letter in the same word. -/
  | letters (flag : Flag) (tail : List Char)
  | unknown (text : String)
  deriving DecidableEq, Repr

def splitValue (text : String) : String × Option String :=
  let key := text.toList.takeWhile (· != '=')
  match text.toList.dropWhile (· != '=') with
  | [] => (text, none)
  | _ :: value => (String.ofList key, some (String.ofList value))

def isDecimal (digits : List Char) : Bool :=
  digits.all fun c => (Text.decimalDigit? c).isSome

/-- A minus sign before digits with at most one point, which needs a digit behind it. A line feed
may end the word. -/
def isNegativeNumber (text : String) : Bool :=
  match text.toList with
  | '-' :: rest =>
    let body := if rest.getLast? = some '\n' then rest.dropLast else rest
    match body.dropWhile (· != '.') with
    | [] => !body.isEmpty && isDecimal body
    | _ :: fraction =>
      isDecimal (body.takeWhile (· != '.')) && !fraction.isEmpty && isDecimal fraction
  | _ => false

/-- A word with a dash that is no spelling of a flag. Negative numbers and words with a blank are
operands. -/
def classifyStrange (text : String) : Word :=
  if isNegativeNumber text || text.toList.contains ' ' then .operand text else .unknown text

def classifyShortened (page : Page) (text : String) : Except Misuse Word :=
  match text.toList with
  | '-' :: '-' :: _ =>
    let (key, value) := splitValue text
    match page.spellings.filter fun entry => entry.1.startsWith key with
    | [] => .ok (classifyStrange text)
    | [(_, flag)] => .ok (.option flag value)
    | several => .error (.ambiguous text (several.map Prod.fst))
  | '-' :: letter :: tail =>
    match page.spellings.lookup (String.ofList ['-', letter]) with
    | some flag => .ok (.letters flag tail)
    | none => .ok (classifyStrange text)
  | _ => .ok (.operand text)

def classify (page : Page) (text : String) : Except Misuse Word :=
  if !text.startsWith "-" then .ok (.operand text)
  else
    match page.spellings.lookup text with
    | some flag => .ok (.option flag none)
    | none =>
      let (key, value) := splitValue text
      match value, page.spellings.lookup key with
      | some value, some flag =>
        if key.startsWith "--" || value == "" then .ok (.option flag (some value))
        else .ok (.letters flag value.toList)
      | _, _ => classifyShortened page text

def classifyAll (page : Page) : List String → Except Misuse (List (Word × String))
  | [] => .ok []
  | text :: rest =>
    if text = "--" then .ok ((.divider, text) :: rest.map fun text => (.operand text, text))
    else do
      let word ← classify page text
      let more ← classifyAll page rest
      return (word, text) :: more

/-- A flag and the letters behind it, each of which must be a flag. Flags of one letter take no
value, so what follows the last flag is the value that it ignores. -/
def askLetters (page : Page) (flag : Flag) :
    List Char → Except Misuse (List (Flag × Option String))
  | [] => .ok [(flag, none)]
  | letter :: tail =>
    match page.spellings.lookup (String.ofList ['-', letter]) with
    | some next => (askLetters page next tail).map ((flag, none) :: ·)
    | none => .error (.ignoredValue flag (String.ofList (letter :: tail)))

/-- What an option asks for by itself. Two dashes are never a value: behind an equals sign they
leave the option without one. -/
def askOption (flag : Flag) (value : Option String) :
    Except Misuse (List (Flag × Option String)) :=
  match value with
  | some value =>
    if !flag.takesValue then .error (.ignoredValue flag value)
    else .ok [(flag, if value = "--" then none else some value)]
  | none => if flag.takesValue then .error (.missingValue flag) else .ok [(flag, none)]

end FrontEnd.CommandLine
