import FrontEnd.File.Tree
import FrontEnd.File.Utf8
import FrontEnd.Source.Basic
import FrontEnd.Text.Quoted

namespace FrontEnd

inductive FileFault where
  | system (e : SystemError)
  | nullInPath
  | malformed (e : Utf8.Malformed)
  deriving DecidableEq, Repr

def FileFault.message (path : String) : FileFault → String
  | system e => s!"[Errno {e.number}] {e.text}: " ++ Text.quoted path
  | nullInPath => "embedded null byte"
  | malformed e => e.message

namespace File

def unifyNewlines : List Char → List Char
  | [] => []
  | '\r' :: '\n' :: rest => '\n' :: unifyNewlines rest
  | '\r' :: rest => '\n' :: unifyNewlines rest
  | c :: rest => c :: unifyNewlines rest

def baseName (path : String) : String :=
  String.ofList ((path.toList.reverse.takeWhile (· != '/')).reverse)

/-- The content of the file at a path, from something that opens paths without a NUL. -/
def content (read : String → Except SystemError Octets) (path : String) :
    Except FileFault Octets :=
  if path.toList.contains '\x00' then .error .nullInPath else (read path).mapError .system

def text (octets : Octets) : Except FileFault String :=
  match Utf8.decode octets with
  | .ok cs => .ok (String.ofList (unifyNewlines cs))
  | .error e => .error (.malformed e)

end File

def Source.ofFile (path : String) (octets : Octets) : Except FileFault Source :=
  (File.text octets).map fun text => .ofText text (File.baseName path) .standard

end FrontEnd
