import FrontEnd.Grammar.Precedence
import FrontEnd.Node.Basic
import FrontEnd.Token.Spelling

namespace FrontEnd

namespace Kind

/-- The kind `o` is an operator and `text` its spelling. -/
def Spells (o : Kind) (text : String) : Prop :=
  o.level?.isSome ∧ ofOperator? text = some o

theorem Spells.pos {o : Kind} (h : Spells o text) : 0 < o.precedence :=
  (precedence_pos_iff o).2 h.1

theorem le_rightPower (o : Kind) : (o.precedence : Int) - 1 ≤ o.rightPower := by
  unfold rightPower
  split <;> omega

end Kind

namespace Node

/-- The operator at the root of a tree. -/
def operator? : Node → Option Kind
  | binary _ operator _ _ => Kind.ofOperator? operator
  | _ => none

/-- Whether following right children ends in a declaration. -/
def endsInDeclaration : Node → Bool
  | declaration .. => true
  | binary _ _ _ (some right) => right.endsInDeclaration
  | _ => false

/-- What stands to the left of the operator `o` holds stronger, or as strong if it groups to the
left; and it has no declaration at its end, which would have taken `o` for its initial value. -/
def FitsLeft (o : Kind) (left : Node) : Prop :=
  (∀ q, left.operator? = some q → o.precedence < q.precedence ∨
    q.precedence = o.precedence ∧ q.isRightAssociative = false) ∧
  left.endsInDeclaration = false

/-- What stands to the right of `o` holds stronger, or as strong if `o` groups to the right. -/
def FitsRight (o : Kind) (right : Node) : Prop :=
  ∀ q, right.operator? = some q → o.precedence < q.precedence ∨
    q.precedence = o.precedence ∧ o.isRightAssociative = true

instance (o : Kind) (left : Node) : Decidable (FitsLeft o left) :=
  inferInstanceAs (Decidable ((∀ q ∈ left.operator?, o.precedence < q.precedence ∨
    q.precedence = o.precedence ∧ q.isRightAssociative = false) ∧ left.endsInDeclaration = false))

instance (o : Kind) (right : Node) : Decidable (FitsRight o right) :=
  inferInstanceAs (Decidable (∀ q ∈ right.operator?, o.precedence < q.precedence ∨
    q.precedence = o.precedence ∧ o.isRightAssociative = true))

/-- Complete trees in which every operator fits its operands. -/
inductive Grouped : Node → Prop
  | number (s : Span) (value : Scalar) : Grouped (number s value)
  | string (s : Span) (value : Scalar) : Grouped (string s value)
  | identifier (s : Span) (name : String) : Grouped (identifier s name)
  | binary {o : Kind} (s : Span) (ho : o.Spells operator) (hl : Grouped left) (hr : Grouped right)
      (fl : FitsLeft o left) (fr : FitsRight o right) :
      Grouped (binary s operator (some left) (some right))
  | declaration (s : Span) (name typeName : String) (isMutable : Bool) (hv : Grouped value) :
      Grouped (declaration s name isMutable (some value) (some typeName))

/-- The operator at the root, if there is one, is stronger than `min`. -/
def Above (min : Int) (n : Node) : Prop :=
  ∀ q, n.operator? = some q → min < q.precedence

/-- No operator at the right edge would take in an operator of precedence `p` behind the tree. -/
def ClosedTo (p : Nat) : Node → Prop
  | binary _ operator _ (some right) =>
    (∀ o, Kind.ofOperator? operator = some o → p ≤ o.rightPower) ∧ right.ClosedTo p
  | declaration .. => p = 0
  | _ => True

variable {o : Kind} {p : Nat} {n left right : Node}

theorem above_of_none {min : Int} (h : n.operator? = none) : n.Above min := by
  intro q hq
  rw [h] at hq
  cases hq

theorem fitsRight_iff : FitsRight o right ↔ right.Above o.rightPower := by
  refine forall_congr' fun q => imp_congr_right fun _ => ?_
  cases h : o.isRightAssociative with
  | false => simp [Kind.rightPower, h]
  | true =>
    simp only [Kind.rightPower, h, if_true, and_true]
    omega

theorem FitsLeft.above {min : Int} (h : FitsLeft o left) (ho : min < o.precedence) :
    left.Above min := by
  intro q hq
  rcases h.1 q hq with hlt | ⟨he, _⟩ <;> omega

/-- The spelling of an operator determines it. -/
theorem Grouped.operands {span : Span} {operator : String}
    (hg : (Node.binary span operator (some left) (some right)).Grouped)
    (ho : o.Spells operator) :
    left.Grouped ∧ right.Grouped ∧ FitsLeft o left ∧ FitsRight o right := by
  cases hg with
  | binary s hs hl hr fl fr =>
    cases Option.some.inj (hs.2.symm.trans ho.2)
    exact ⟨hl, hr, fl, fr⟩

theorem ClosedTo.eq_zero {n : Node} (hc : n.ClosedTo p) (h : n.endsInDeclaration = true) :
    p = 0 := by
  match n with
  | .declaration .. => exact hc
  | .binary _ _ _ (some right) => exact ClosedTo.eq_zero hc.2 h
  | .binary _ _ _ none | .number .. | .string .. | .identifier .. | .bare .. =>
    simp [endsInDeclaration] at h

/-- Only the root and the end of the chain have to be looked at: along the right edge of a grouped
tree the powers rise. -/
theorem Grouped.closedTo (hg : n.Grouped)
    (ho : ∀ q : Kind, n.operator? = some q → p ≤ q.rightPower)
    (hd : n.endsInDeclaration = true → p = 0) : n.ClosedTo p := by
  induction hg with
  | number | string | identifier => trivial
  | declaration => exact hd rfl
  | binary s hs hl hr fl fr ihl ihr =>
    refine ⟨ho, ihr ?_ hd⟩
    intro q hq
    have h1 := ho _ hs.2
    have h2 := fitsRight_iff.1 fr q hq
    have h3 := Kind.le_rightPower q
    omega

theorem Grouped.closedTo_zero (hg : n.Grouped) : n.ClosedTo 0 :=
  hg.closedTo (fun q _ => Kind.rightPower_nonneg q) (fun _ => rfl)

theorem Grouped.above_zero (hg : n.Grouped) : n.Above 0 := by
  intro q hq
  cases hg with
  | number | string | identifier | declaration => simp [operator?] at hq
  | binary s ho =>
    have he := Option.some.inj (ho.2.symm.trans hq)
    have hpos := ho.pos
    subst he
    omega

theorem fitsLeft_iff (hg : left.Grouped) (ho : 0 < o.precedence) :
    FitsLeft o left ↔ left.ClosedTo o.precedence := by
  constructor
  · intro h
    obtain ⟨hq, hd⟩ := h
    refine hg.closedTo ?_ (by simp [hd])
    intro q h
    have hle := Kind.le_rightPower q
    rcases hq q h with hlt | ⟨he, ha⟩
    · omega
    · simp [Kind.rightPower, ha, he]
  · intro hc
    refine ⟨?_, ?_⟩
    · intro q h
      cases hg with
      | number | string | identifier | declaration => simp [operator?] at h
      | binary s hs hl hr fl fr =>
        have hle := hc.1 q h
        cases ha : q.isRightAssociative <;> simp [Kind.rightPower, ha] at hle ⊢ <;> omega
    · cases hd : left.endsInDeclaration with
      | false => rfl
      | true =>
        have := hc.eq_zero hd
        omega

end Node
end FrontEnd
