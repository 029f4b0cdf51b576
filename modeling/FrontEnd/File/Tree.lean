namespace FrontEnd

structure SystemError where
  number : Nat
  text : String
  deriving DecidableEq, Repr

namespace SystemError

def notFound : SystemError := ⟨2, "No such file or directory"⟩

def notDirectory : SystemError := ⟨20, "Not a directory"⟩

def isDirectory : SystemError := ⟨21, "Is a directory"⟩

def nameTooLong : SystemError := ⟨36, "File name too long"⟩

def permissionDenied : SystemError := ⟨13, "Permission denied"⟩

def ofNumber (number : Nat) (text : String) : SystemError :=
  let known := [notFound, permissionDenied, notDirectory, isDirectory, nameTooLong]
  (known.find? fun e => e.number == number).getD ⟨number, text⟩

end SystemError

abbrev Octets := List UInt8

structure FileTree where
  files : List (List String × Octets)
  directories : List (List String)

namespace FileTree

/-- Where part of a path leads. Nothing is known outside the working directory. -/
inductive Place where
  | directory (names : List String)
  | file (content : Octets)
  | outside

def names (path : String) : List String :=
  let parts := path.splitOn "/"
  parts.filter (· != "") ++ (if parts.getLast? = some "" then ["."] else [])

def empty : FileTree := ⟨[], []⟩

def addDirectory (t : FileTree) (names : List String) : FileTree :=
  let names := names.filter (· != ".")
  { t with directories := (List.range (names.length + 1)).map names.take ++ t.directories }

def addFile (t : FileTree) (names : List String) (content : Octets) : FileTree :=
  let names := names.filter (· != ".")
  let t := t.addDirectory names.dropLast
  { t with files := (names, content) :: t.files }

/-- The longest name that a directory can hold, in octets. -/
def maxName : Nat := 255

/-- Paths of this length, in octets, are refused. -/
def maxPath : Nat := 4096

def enter (t : FileTree) (place : Place) (name : String) : Except SystemError Place :=
  match place with
  | .file _ => .error .notDirectory
  | .outside => if name = "." ∨ name = ".." then .ok .outside else .error .notFound
  | .directory here =>
    if name = "." then .ok place
    else if name = ".." then .ok (if here = [] then .outside else .directory here.dropLast)
    else if maxName < name.utf8ByteSize then .error .nameTooLong
    else
      match t.files.lookup (here ++ [name]) with
      | some content => .ok (.file content)
      | none =>
        if here ++ [name] ∈ t.directories then .ok (.directory (here ++ [name]))
        else .error .notFound

def read (t : FileTree) (path : String) : Except SystemError Octets :=
  if path = "" then .error .notFound
  else if maxPath ≤ path.utf8ByteSize then .error .nameTooLong
  else
    let start := if path.startsWith "/" then .outside else .directory []
    match (names path).foldlM t.enter start with
    | .error e => .error e
    | .ok (.file content) => .ok content
    | .ok _ => .error .isDirectory

end FileTree
end FrontEnd
