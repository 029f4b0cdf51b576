namespace FrontEnd

structure Position where
  offset : Nat
  line : Nat
  column : Nat
  deriving DecidableEq, Repr

namespace Position

def start : Position := ⟨0, 1, 0⟩

def after (p : Position) (c : Char) : Position :=
  if c = '\n' then ⟨p.offset + 1, p.line + 1, 0⟩ else ⟨p.offset + 1, p.line, p.column + 1⟩

def afterAll (p : Position) (cs : List Char) : Position :=
  cs.foldl after p

end Position

structure Cursor where
  position : Position
  rest : List Char
  deriving DecidableEq, Repr

namespace Cursor

def ofText (text : List Char) : Cursor :=
  ⟨.start, text⟩

def atEnd (c : Cursor) : Bool :=
  c.rest.isEmpty

/-- Over the next `n` characters, or over all that are left. -/
def skip (c : Cursor) (n : Nat) : Cursor :=
  ⟨c.position.afterAll (c.rest.take n), c.rest.drop n⟩

def skipWhile (c : Cursor) (p : Char → Bool) : Cursor :=
  ⟨c.position.afterAll (c.rest.takeWhile p), c.rest.dropWhile p⟩

theorem length_rest_skip (c : Cursor) (n : Nat) : (c.skip n).rest.length = c.rest.length - n := by
  simp [skip]

theorem length_rest_skipWhile_le (c : Cursor) (p : Char → Bool) :
    (c.skipWhile p).rest.length ≤ c.rest.length :=
  (List.dropWhile_sublist p).length_le

theorem length_rest_skipWhile_lt {c : Cursor} {p : Char → Bool} {x : Char} {r : List Char}
    (h : c.rest = x :: r) (hx : p x = true) : (c.skipWhile p).rest.length < c.rest.length := by
  have := (List.dropWhile_sublist (l := r) p).length_le
  simp only [skipWhile, h, List.dropWhile_cons, hx, ↓reduceIte, List.length_cons]
  omega

end Cursor
end FrontEnd
