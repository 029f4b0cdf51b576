import FrontEnd.CommandLine.Outcome

namespace FrontEnd

/-- Some system calls report the number of an error below zero. -/
def errorNumber (number : UInt32) : Nat :=
  if number < 0x80000000 then number.toNat else (0 - number).toNat

def systemError : IO.Error → SystemError
  | .noFileOrDirectory _ number text => .ofNumber (errorNumber number) text
  | .inappropriateType _ number text => .ofNumber (errorNumber number) text
  | .invalidArgument _ number text => .ofNumber (errorNumber number) text
  | .permissionDenied _ number text => .ofNumber (errorNumber number) text
  | e => ⟨5, toString e⟩

def openFile (path : String) : IO (Except SystemError Octets) := do
  try
    return .ok (← IO.FS.readBinFile path).toList
  catch e =>
    return .error (systemError e)

/-- As many characters as one can hope to hold. -/
def longestDump : Nat := 0x40000000

end FrontEnd

open FrontEnd CommandLine in
def main (words : List String) : IO UInt32 := do
  let outcome ← match CommandLine.read words with
    | .error stop => pure stop.outcome
    | .ok inv =>
      let content ← openFile inv.path
      pure (inv.run longestDump (File.content (fun _ => content) inv.path))
  IO.print outcome.output
  IO.eprint outcome.errors
  match outcome.ending with
  | .status number => return number.toUInt32
  | .exit number => return number.toUInt32
  | .escaped e =>
    IO.eprintln e.message
    return 1
