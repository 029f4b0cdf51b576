import FrontEnd.Token.Kind

namespace FrontEnd

/-- Which words are keywords. The first entry of a word counts. -/
abbrev Keywords := List (String × Kind)

namespace Keywords

def core : Keywords :=
  [("if", .ifWord), ("else", .elseWord), ("while", .whileWord), ("for", .forWord),
    ("foreach", .foreachWord), ("do", .doWord), ("break", .breakWord),
    ("continue", .continueWord), ("return", .returnWord), ("true", .trueWord),
    ("false", .falseWord)]

def declaration : Keywords :=
  [("new", .newWord), ("mut", .mutWord)]

def standard : Keywords :=
  core ++ declaration

/-- A word outside the table is a name. -/
def kindOf (table : Keywords) (word : String) : Kind :=
  (table.lookup word).getD .identifier

end Keywords

namespace Kind

def operators : List (String × Kind) :=
  [("+", .plus), ("-", .minus), ("*", .star), ("/", .slash), ("%", .percent), ("**", .power),
    ("=", .assign), ("+=", .plusAssign), ("-=", .minusAssign), ("*=", .starAssign),
    ("/=", .slashAssign), ("%=", .percentAssign), ("==", .equalEqual), ("!=", .bangEqual),
    ("<", .less), ("<=", .lessEqual), (">", .greater), (">=", .greaterEqual), ("&&", .andAnd),
    ("||", .orOr), ("!", .bang), ("&", .ampersand), ("|", .pipe), ("^", .caret), ("~", .tilde),
    ("(", .leftParen), (")", .rightParen), ("\x7b", .leftBrace), ("\x7d", .rightBrace),
    ("[", .leftBracket), ("]", .rightBracket), (",", .comma), (";", .semicolon), (":", .colon),
    (".", .dot), ("?", .question)]

def ofOperator? (text : String) : Option Kind :=
  operators.lookup text

def symbol? (kind : Kind) : Option String :=
  ((Keywords.standard ++ operators).find? fun entry => entry.2 == kind).map Prod.fst

def isLiteral (kind : Kind) : Bool :=
  kind == .number || kind == .string || kind == .trueWord || kind == .falseWord

def isKeyword (kind : Kind) : Bool :=
  Keywords.standard.any fun entry => entry.2 == kind

def isOperator (kind : Kind) : Bool :=
  operators.any fun entry => entry.2 == kind

def describe (kind : Kind) : String :=
  match kind.symbol? with
  | some symbol => "'" ++ symbol ++ "'"
  | none => if kind == .endOfInput then "end of input" else kind.name.toLower

end Kind
end FrontEnd
