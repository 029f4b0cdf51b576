import FrontEnd.CommandLine.Outcome

namespace FrontEnd

namespace Node

mutual

/-- How many nodes stand under one another where a tree is deepest. -/
def levels : Node → Nat
  | binary _ _ left right => max (childLevels left) (childLevels right) + 1
  | declaration _ _ _ initializer _ => childLevels initializer + 1
  | _ => 1

def childLevels : Option Node → Nat
  | none => 0
  | some node => levels node

end

theorem levels_pos (n : Node) : 0 < n.levels := by
  cases n with
  | binary | declaration => exact Nat.succ_pos _
  | number | string | identifier | bare => exact Nat.one_pos

mutual

theorem opensWithin_iff (limit : Nat) (n : Node) :
    n.opensWithin limit = true ↔ n.levels ≤ limit := by
  cases limit with
  | zero =>
    have hpos := n.levels_pos
    rw [opensWithin]
    simp only [Bool.false_eq_true, false_iff]
    omega
  | succ limit =>
    cases n with
    | binary span operator left right =>
      rw [opensWithin, levels, Bool.and_eq_true, childOpensWithin_iff, childOpensWithin_iff,
        Nat.add_le_add_iff_right, Nat.max_le]
    | declaration span name isMutable initializer typeName =>
      rw [opensWithin, levels, childOpensWithin_iff, Nat.add_le_add_iff_right]
    | number | string | identifier | bare => simp [opensWithin, levels]

theorem childOpensWithin_iff (limit : Nat) (child : Option Node) :
    childOpensWithin limit child = true ↔ childLevels child ≤ limit := by
  cases child with
  | none => simp [childOpensWithin, childLevels]
  | some n => exact opensWithin_iff limit n

end

end Node

namespace CommandLine

variable {room : Nat} {indent : Option Int} {width : Int} {nodes : List Node} {fault : DumpFault}

end CommandLine
end FrontEnd
