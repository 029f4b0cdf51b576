import FrontEnd.Json.Basic

namespace FrontEnd.Json

def hex4 (n : Nat) : List Char :=
  ([4096, 256, 16, 1].map fun place => Nat.digitChar (n / place % 16))

def escapeUnit (n : Nat) : List Char :=
  '\\' :: 'u' :: hex4 n

/-- Characters beyond sixteen bits are two units. -/
def escapeChar (c : Char) : List Char :=
  match c with
  | '"' => ['\\', '"']
  | '\\' => ['\\', '\\']
  | '\n' => ['\\', 'n']
  | '\r' => ['\\', 'r']
  | '\t' => ['\\', 't']
  | '\x08' => ['\\', 'b']
  | '\x0c' => ['\\', 'f']
  | c =>
    if 0x20 ≤ c.toNat && c.toNat < 0x7F then [c]
    else if c.toNat < 0x10000 then escapeUnit c.toNat
    else
      let above := c.toNat - 0x10000
      escapeUnit (0xD800 + above / 0x400) ++ escapeUnit (0xDC00 + above % 0x400)

def stringText (s : String) : List Char :=
  '"' :: (s.toList.flatMap escapeChar ++ ['"'])

def floatText : Binary64 → String
  | .nan => "NaN"
  | .infinite negative => if negative then "-Infinity" else "Infinity"
  | x => x.text

def scalarText : Scalar → List Char
  | .null => "null".toList
  | .bool value => (if value then "true" else "false").toList
  | .int value => (toString value).toList
  | .float value => (floatText value).toList
  | .text value => stringText value

abbrev Layout := Option (List Char)

namespace Layout

def compact : Layout := none

def text (unit : String) : Layout := some unit.toList

/-- Every level is moved right by so many blanks; none for a negative number. -/
def blanks (width : Int) : Layout := some (List.replicate width.toNat ' ')

def newline (layout : Layout) (depth : Nat) : List Char :=
  match layout with
  | none => []
  | some unit => '\n' :: (List.replicate depth unit).flatten

def separator (layout : Layout) (depth : Nat) : List Char :=
  match layout with
  | none => [',', ' ']
  | some _ => ',' :: layout.newline depth

end Layout

mutual

/-- The text of a value with `rest` behind it. -/
def write (layout : Layout) (depth : Nat) : Json → List Char → List Char
  | scalar value, rest => scalarText value ++ rest
  | array [], rest => '[' :: ']' :: rest
  | array (item :: items), rest =>
    '[' :: (layout.newline (depth + 1) ++
      write layout (depth + 1) item
        (writeItems layout (depth + 1) items (layout.newline depth ++ ']' :: rest)))
  | object [], rest => '\x7b' :: '\x7d' :: rest
  | object (field :: fields), rest =>
    '\x7b' :: (layout.newline (depth + 1) ++
      writeField layout (depth + 1) field
        (writeFields layout (depth + 1) fields (layout.newline depth ++ '\x7d' :: rest)))

def writeItems (layout : Layout) (depth : Nat) : List Json → List Char → List Char
  | [], rest => rest
  | item :: items, rest =>
    layout.separator depth ++ write layout depth item (writeItems layout depth items rest)

def writeField (layout : Layout) (depth : Nat) : String × Json → List Char → List Char
  | (key, value), rest => stringText key ++ ':' :: ' ' :: write layout depth value rest

def writeFields (layout : Layout) (depth : Nat) : List (String × Json) → List Char → List Char
  | [], rest => rest
  | field :: fields, rest =>
    layout.separator depth ++
      writeField layout depth field (writeFields layout depth fields rest)

end

def text (layout : Layout) (value : Json) : String :=
  String.ofList (write layout 0 value [])

end FrontEnd.Json
