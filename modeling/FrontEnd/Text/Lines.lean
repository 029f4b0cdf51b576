namespace FrontEnd.Text

/-- The stretches between line feeds; there is always at least one. -/
def splitLines : List Char → List (List Char)
  | [] => [[]]
  | c :: rest =>
    if c = '\n' then [] :: splitLines rest
    else
      match splitLines rest with
      | [] => [[c]]
      | line :: more => (c :: line) :: more

theorem splitLines_ne_nil (cs : List Char) : splitLines cs ≠ [] := by
  cases cs with
  | nil => simp [splitLines]
  | cons c rest =>
    simp only [splitLines]
    split
    · simp
    · split <;> simp

def trimReturns (line : List Char) : List Char :=
  (line.reverse.dropWhile (· = '\r')).reverse

def lines (text : List Char) : Array String :=
  ((splitLines text).map fun line => String.ofList (trimReturns line)).toArray

/-- Lines count from one; a number outside the text names an empty line. -/
def lineAt (lines : Array String) (number : Int) : String :=
  if 1 ≤ number then (lines[(number - 1).toNat]?).getD "" else ""

end FrontEnd.Text
