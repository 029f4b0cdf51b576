namespace FrontEnd

inductive Kind where
  | identifier | number | string
  | plus | minus | star | slash | percent | power
  | assign | plusAssign | minusAssign | starAssign | slashAssign | percentAssign
  | equalEqual | bangEqual | less | lessEqual | greater | greaterEqual
  | andAnd | orOr | bang
  | ampersand | pipe | caret | tilde
  | leftParen | rightParen | leftBrace | rightBrace | leftBracket | rightBracket | comma
  | semicolon | colon | dot | question
  | ifWord | elseWord | whileWord | forWord | foreachWord | doWord | breakWord | continueWord
  | returnWord | trueWord | falseWord
  | newWord | mutWord
  | endOfInput
  deriving DecidableEq, Repr

namespace Kind

/-- Every kind, in the order in which kinds are numbered. -/
def all : List Kind :=
  [.identifier, .number, .string, .plus, .minus, .star, .slash, .percent, .power, .assign,
    .plusAssign, .minusAssign, .starAssign, .slashAssign, .percentAssign, .equalEqual,
    .bangEqual, .less, .lessEqual, .greater, .greaterEqual, .andAnd, .orOr, .bang, .ampersand,
    .pipe, .caret, .tilde, .leftParen, .rightParen, .leftBrace, .rightBrace, .leftBracket,
    .rightBracket, .comma, .semicolon, .colon, .dot, .question, .ifWord, .elseWord, .whileWord,
    .forWord, .foreachWord, .doWord, .breakWord, .continueWord, .returnWord, .trueWord,
    .falseWord, .newWord, .mutWord, .endOfInput]

def name : Kind → String
  | .identifier => "IDENTIFIER"
  | .number => "NUMBER"
  | .string => "STRING"
  | .plus => "PLUS"
  | .minus => "MINUS"
  | .star => "STAR"
  | .slash => "SLASH"
  | .percent => "PERCENT"
  | .power => "POWER"
  | .assign => "ASSIGN"
  | .plusAssign => "PLUS_ASSIGN"
  | .minusAssign => "MINUS_ASSIGN"
  | .starAssign => "STAR_ASSIGN"
  | .slashAssign => "SLASH_ASSIGN"
  | .percentAssign => "PERCENT_ASSIGN"
  | .equalEqual => "EQUAL_EQUAL"
  | .bangEqual => "BANG_EQUAL"
  | .less => "LESS"
  | .lessEqual => "LESS_EQUAL"
  | .greater => "GREATER"
  | .greaterEqual => "GREATER_EQUAL"
  | .andAnd => "AND"
  | .orOr => "OR"
  | .bang => "BANG"
  | .ampersand => "AMPERSAND"
  | .pipe => "PIPE"
  | .caret => "CARET"
  | .tilde => "TILDE"
  | .leftParen => "LEFT_PAREN"
  | .rightParen => "RIGHT_PAREN"
  | .leftBrace => "LEFT_BRACE"
  | .rightBrace => "RIGHT_BRACE"
  | .leftBracket => "LEFT_BRACKET"
  | .rightBracket => "RIGHT_BRACKET"
  | .comma => "COMMA"
  | .semicolon => "SEMICOLON"
  | .colon => "COLON"
  | .dot => "DOT"
  | .question => "QUESTION"
  | .ifWord => "IF"
  | .elseWord => "ELSE"
  | .whileWord => "WHILE"
  | .forWord => "FOR"
  | .foreachWord => "FOREACH"
  | .doWord => "DO"
  | .breakWord => "BREAK"
  | .continueWord => "CONTINUE"
  | .returnWord => "RETURN"
  | .trueWord => "TRUE"
  | .falseWord => "FALSE"
  | .newWord => "NEW"
  | .mutWord => "MUT"
  | .endOfInput => "EOF"

def ofName? (text : String) : Option Kind :=
  all.find? fun kind => kind.name == text

/-- Kinds are numbered from one. -/
def ordinal (kind : Kind) : Nat :=
  all.idxOf kind + 1

theorem mem_all (kind : Kind) : kind ∈ all := by
  cases kind <;> decide

end Kind
end FrontEnd
