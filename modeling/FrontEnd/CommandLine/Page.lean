namespace FrontEnd.CommandLine

inductive Page where
  | program | tokens | ast
  deriving DecidableEq, Repr

namespace Page

def title : Page → String
  | program => "farpy"
  | tokens => "farpy tokens"
  | ast => "farpy ast"

def usage : Page → String
  | program => "usage: farpy [-h] [--version] [--no-color] [-v] \x7btokens,ast\x7d ...\n"
  | tokens => "usage: farpy tokens [-h] file\n"
  | ast => "usage: farpy ast [-h] [--indent INDENT] file\n"

def details : Page → List String
  | program =>
    ["Farpy front end: dump tokens or the AST of a source file",
      "",
      "positional arguments:",
      "  \x7btokens,ast\x7d",
      "    tokens       Print the token stream",
      "    ast          Print the AST as JSON",
      "",
      "options:",
      "  -h, --help     show this help message and exit",
      "  --version      show program's version number and exit",
      "  --no-color     Disable coloured diagnostics",
      "  -v, --verbose  Enable debug logging",
      "",
      "Examples:",
      "    farpy tokens main.fp               # List tokens with their spans",
      "    farpy ast main.fp --indent 4       # Print the AST as JSON",
      "        "]
  | tokens =>
    ["positional arguments:",
      "  file        Source file",
      "",
      "options:",
      "  -h, --help  show this help message and exit"]
  | ast =>
    ["positional arguments:",
      "  file             Source file",
      "",
      "options:",
      "  -h, --help       show this help message and exit",
      "  --indent INDENT  JSON indentation (default: 2)"]

def help (page : Page) : String :=
  page.usage ++ "\n" ++ String.join (page.details.map (· ++ "\n"))

end Page

def versionText : String := "farpy 0.1.0\n"

end FrontEnd.CommandLine
