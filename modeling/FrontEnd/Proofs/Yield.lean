import FrontEnd.Proofs.Grouping
import FrontEnd.Proofs.Reading

namespace FrontEnd.Node

inductive Yields : Node → List Token → Prop
  | number {t : Token} {value : Binary64} (hk : t.kind = .number)
      (hv : Numeral.real? t.lexeme = some value) : Yields (number t.span (.float value)) [t]
  | string {t : Token} (hk : t.kind = .string) : Yields (string t.span t.value) [t]
  | identifier {t : Token} (hk : t.kind = .identifier) : Yields (identifier t.span t.lexeme) [t]
  | binary {t : Token} {left right : Node} {before after : List Token}
      (hl : Yields left before) (ho : t.kind.Spells t.lexeme) (hr : Yields right after) :
      Yields (binary t.span t.lexeme (some left) (some right)) (before ++ t :: after)
  | declaration {opening name colon type equals : Token} {isMutable : Bool} {value : Node}
      {marks body : List Token} (hopen : opening.kind = .newWord)
      (hmarks : Grammar.Marks isMutable marks) (hname : name.kind = .identifier)
      (hcolon : colon.kind = .colon) (htype : type.kind = .identifier)
      (hequals : equals.kind = .assign) (hv : Yields value body) :
      Yields (declaration opening.span name.lexeme isMutable (some value) (some type.lexeme))
        (opening :: (marks ++ name :: colon :: type :: equals :: body))

variable {n : Node} {ts : List Token}

/-- A tree begins with a token that is no operator, so it parts itself from the tree before it. -/
theorem Yields.head (h : n.Yields ts) :
    ∃ t us, ts = t :: us ∧ t.kind.precedence = 0 ∧ t.kind ≠ .endOfInput := by
  induction h with
  | number hk | string hk | identifier hk => exact ⟨_, _, rfl, by rw [hk]; decide, by simp [hk]⟩
  | binary hl ho hr ihl ihr =>
    obtain ⟨t, us, rfl, h⟩ := ihl
    exact ⟨t, _, rfl, h⟩
  | declaration hopen => exact ⟨_, _, rfl, by rw [hopen]; decide, by simp [hopen]⟩

end FrontEnd.Node

namespace FrontEnd

/-- A token on the first line of a source without a name. -/
def Token.onFirstLine (kind : Kind) (lexeme : String) (column : Nat) : Token :=
  ⟨kind, lexeme, .null,
    { Span.origin with
      startColumn := column
      endColumn := column + lexeme.length
      start_le_end := Nat.le_add_right _ _ }⟩

/-- The tokens of `a = new mut b : T = c - d ** e f`, put together as its two trees are. -/
def nested : List (List Token) :=
  [[.onFirstLine .identifier "a" 0] ++ .onFirstLine .assign "=" 2 ::
      .onFirstLine .newWord "new" 4 :: ([.onFirstLine .mutWord "mut" 8] ++
        .onFirstLine .identifier "b" 12 :: .onFirstLine .colon ":" 14 ::
        .onFirstLine .identifier "T" 16 :: .onFirstLine .assign "=" 18 ::
        ([.onFirstLine .identifier "c" 20] ++ .onFirstLine .minus "-" 22 ::
          ([.onFirstLine .identifier "d" 24] ++ .onFirstLine .power "**" 26 ::
            [.onFirstLine .identifier "e" 29]))),
    [.onFirstLine .identifier "f" 31]]

end FrontEnd
