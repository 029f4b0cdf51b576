namespace FrontEnd.Utf8

inductive Reason where
  | start
  | continuation
  | ending
  deriving DecidableEq, Repr

def Reason.message : Reason → String
  | start => "invalid start byte"
  | continuation => "invalid continuation byte"
  | ending => "unexpected end of data"

/-- The offsets of the first and last octet of a broken character, and its first octet. -/
structure Malformed where
  first : Nat
  last : Nat
  octet : UInt8
  reason : Reason
  deriving DecidableEq, Repr

def Malformed.message (e : Malformed) : String :=
  if e.first = e.last then
    let hex := [Nat.digitChar (e.octet.toNat / 16), Nat.digitChar (e.octet.toNat % 16)]
    s!"'utf-8' codec can't decode byte 0x{String.ofList hex} in position {e.first}: " ++
      e.reason.message
  else
    s!"'utf-8' codec can't decode bytes in position {e.first}-{e.last}: " ++ e.reason.message

/-- A character of which octets are still owed; the next one lies between `low` and `high`. -/
structure Pending where
  first : Nat
  octet : UInt8
  owed : Nat
  low : Nat
  high : Nat
  value : Nat

/-- What the first octet of a longer character promises. The range of the second octet leaves out
forms that are too long, surrogates, and numbers beyond the last code point. -/
def lead? (offset : Nat) (octet : UInt8) : Option Pending :=
  let n := octet.toNat
  if 0xC2 ≤ n && n ≤ 0xDF then some ⟨offset, octet, 1, 0x80, 0xBF, n % 0x20⟩
  else if n = 0xE0 then some ⟨offset, octet, 2, 0xA0, 0xBF, 0⟩
  else if n = 0xED then some ⟨offset, octet, 2, 0x80, 0x9F, 0xD⟩
  else if 0xE1 ≤ n && n ≤ 0xEF then some ⟨offset, octet, 2, 0x80, 0xBF, n % 0x10⟩
  else if n = 0xF0 then some ⟨offset, octet, 3, 0x90, 0xBF, 0⟩
  else if 0xF1 ≤ n && n ≤ 0xF3 then some ⟨offset, octet, 3, 0x80, 0xBF, n % 0x08⟩
  else if n = 0xF4 then some ⟨offset, octet, 3, 0x80, 0x8F, 4⟩
  else none

/-- A text is refused at the first octet that no character can hold there. -/
def decodeFrom (offset : Nat) (pending : Option Pending) :
    List UInt8 → Except Malformed (List Char)
  | [] =>
    match pending with
    | none => .ok []
    | some p => .error ⟨p.first, offset - 1, p.octet, .ending⟩
  | octet :: rest =>
    match pending with
    | none =>
      if octet.toNat < 0x80 then
        (decodeFrom (offset + 1) none rest).map (Char.ofNat octet.toNat :: ·)
      else
        match lead? offset octet with
        | none => .error ⟨offset, offset, octet, .start⟩
        | some p => decodeFrom (offset + 1) (some p) rest
    | some p =>
      if p.low ≤ octet.toNat && octet.toNat ≤ p.high then
        let value := p.value * 0x40 + octet.toNat % 0x40
        if p.owed ≤ 1 then (decodeFrom (offset + 1) none rest).map (Char.ofNat value :: ·)
        else
          decodeFrom (offset + 1)
            (some { p with owed := p.owed - 1, low := 0x80, high := 0xBF, value := value }) rest
      else .error ⟨p.first, offset - 1, p.octet, .continuation⟩

def decode (octets : List UInt8) : Except Malformed (List Char) :=
  decodeFrom 0 none octets

end FrontEnd.Utf8
