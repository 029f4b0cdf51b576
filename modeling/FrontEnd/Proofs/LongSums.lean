import FrontEnd.Proofs.DumpLimits
import FrontEnd.Proofs.FileSources
import FrontEnd.Proofs.Layout
import FrontEnd.Proofs.Numerals
import FrontEnd.Proofs.ReadBack

namespace FrontEnd

namespace Node

variable {n : Node} {op t : Token} {ts : List Token} {terms : Nat} {value : Binary64}

/-- The tree of a sum. Every term is read with one expression open around it, however many there
are, and yet every term adds a level. -/
structure IsSum (n : Node) (ts : List Token) (terms : Nat) : Prop where
  yields : n.Yields ts
  grouped : n.Grouped
  fits : FitsLeft .plus n
  nesting : n.nesting ≤ 2
  levels : n.levels = terms

theorem IsSum.number (hk : t.kind = .number) (hv : Numeral.real? t.lexeme = some value) :
    IsSum (number t.span (.float value)) [t] 1 where
  yields := .number hk hv
  grouped := .number _ _
  fits := by
    refine ⟨fun q hq => ?_, rfl⟩
    cases hq
  nesting := Nat.le_succ 1
  levels := rfl

theorem spells_plus (hk : op.kind = .plus) (hl : op.lexeme = "+") :
    op.kind.Spells op.lexeme := by
  rw [hk, hl]
  exact ⟨rfl, by decide⟩

theorem IsSum.plus (h : IsSum n ts terms) (ho : op.kind = .plus) (hl : op.lexeme = "+")
    (hk : t.kind = .number) (hv : Numeral.real? t.lexeme = some value) :
    IsSum (binary op.span op.lexeme (some n) (some (.number t.span (.float value))))
      (ts ++ [op, t]) (terms + 1) where
  yields := .binary h.yields (spells_plus ho hl) (.number hk hv)
  grouped := by
    refine .binary _ (ho ▸ spells_plus ho hl) h.grouped (.number _ _) h.fits fun q hq => ?_
    cases hq
  fits := by
    refine ⟨fun q hq => ?_, rfl⟩
    obtain rfl : q = .plus := Option.some.inj (hq.symm.trans (ho ▸ (spells_plus ho hl).2))
    exact .inr ⟨rfl, rfl⟩
  nesting := Nat.max_le.2 ⟨h.nesting, Nat.le_refl 2⟩
  levels := by
    have hpos := n.levels_pos
    have hlevels := h.levels
    simp only [Node.levels, childLevels]
    omega

end Node

namespace Spaced

def one : Spaced :=
  ⟨[], .number '1' [] (.refl true) List.all_nil, List.all_nil⟩

def plusSign : Spaced :=
  ⟨[], .operator ['+'] .plus rfl, List.all_nil⟩

/-- So many times a plus sign and one. -/
def moreOnes (n : Nat) : List Spaced :=
  (List.replicate n [plusSign, one]).flatten

theorem moreOnes_succ (n : Nat) : moreOnes (n + 1) = plusSign :: one :: moreOnes n := rfl

end Spaced

variable {keywords : Keywords} {t : Token} {ts : List Token}

theorem real?_of_denotes_one (h : Spaced.one.lexeme.Denotes keywords t) :
    ∃ value, Numeral.real? t.lexeme = some value := by
  rw [h.lexeme]
  exact ⟨_, Numeral.real?_digits (List.cons_ne_nil '1' []) (isDigit_of_mem_number rfl rfl)⟩

/-- However long a sum is already, its tokens and more of the same are those of a longer one. -/
theorem Node.IsSum.more {node : Node} {before : List Token} {terms : Nat}
    (hs : node.IsSum before terms) (n : Nat)
    (h : List.Forall₂ (fun x t => x.lexeme.Denotes keywords t) (Spaced.moreOnes n) ts) :
    ∃ sum, Node.IsSum sum (before ++ ts) (terms + n) := by
  induction n generalizing node before ts terms with
  | zero =>
    cases h
    exact ⟨node, by rwa [List.append_nil]⟩
  | succ n ih =>
    rw [Spaced.moreOnes_succ] at h
    obtain _ | ⟨hp, _ | ⟨ht, hrest⟩⟩ := h
    obtain ⟨value, hv⟩ := real?_of_denotes_one ht
    obtain ⟨sum, hsum⟩ := ih (hs.plus hp.kind hp.lexeme ht.kind hv) hrest
    refine ⟨sum, ?_⟩
    rw [List.append_assoc] at hsum
    rw [Nat.add_comm n, ← Nat.add_assoc]
    exact hsum

theorem Node.IsSum.program {sum : Node} {terms : Nat} (h : sum.IsSum ts terms) :
    Grammar.standard.program nestingLimit ts = ⟨[sum], [], none⟩ := by
  have hlimit : ∀ n ∈ [sum], n.nesting ≤ nestingLimit := by
    intro n hn
    rw [List.mem_singleton.1 hn]
    exact Nat.le_trans h.nesting (by decide)
  have hread := Grammar.sequence_flatten (endToken ts) (.cons h.yields .nil)
    (List.forall_mem_singleton.2 h.grouped) hlimit
  rw [List.flatten_cons, List.flatten_nil, List.append_nil] at hread
  exact hread

end FrontEnd
