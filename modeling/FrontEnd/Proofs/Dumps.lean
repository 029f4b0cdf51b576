import FrontEnd.Node.View
import FrontEnd.Proofs.JsonText

namespace FrontEnd

/-- The layouts that are asked for by a number of blanks or by none. -/
def Json.Layout.ofIndent : Option Int → Json.Layout
  | none => .compact
  | some width => .blanks width

theorem Json.Layout.blank_ofIndent (indent : Option Int) :
    (Json.Layout.ofIndent indent).Blank := by
  intro depth
  cases indent with
  | none => rfl
  | some width =>
    have hunit : ∀ c ∈ List.replicate width.toNat ' ', Json.isGap c = true := by
      intro c hc
      rw [List.eq_of_mem_replicate hc]
      rfl
    have hline : ∀ c ∈ (List.replicate depth (List.replicate width.toNat ' ')).flatten,
        Json.isGap c = true := by
      intro c hc
      obtain ⟨unit, hmem, hc⟩ := List.mem_flatten.1 hc
      rw [List.eq_of_mem_replicate hmem] at hc
      exact hunit c hc
    exact List.all_eq_true.2 (List.forall_mem_cons.2 ⟨rfl, hline⟩)

namespace Node

variable {n m : Node} {nodes : List Node} {indent : Option Int}

/-- A node stands in a tree, at its root or further down. -/
inductive Within (m : Node) : Node → Prop where
  | root : Within m m
  | inside {n child : Node} : child ∈ n.children → Within m child → Within m n

theorem sizeOf_child_lt {child : Node} (h : child ∈ n.children) : sizeOf child < sizeOf n := by
  have hchild : ∀ {o : Option Node}, child ∈ o.toList → sizeOf child < sizeOf o := by
    intro o ho
    obtain rfl := Option.mem_toList.1 ho
    simp
  cases n with
  | binary span operator left right =>
    rcases List.mem_append.1 h with hl | hr
    · have hlt := hchild hl
      simp only [binary.sizeOf_spec]
      omega
    · have hlt := hchild hr
      simp only [binary.sizeOf_spec]
      omega
  | declaration span name isMutable initializer typeName =>
    have hlt := hchild h
    simp only [declaration.sizeOf_spec]
    omega
  | number | string | identifier | bare => exact absurd h List.not_mem_nil

theorem childView?_eq_none {child : Option Node} :
    childView? child = none ↔ ∃ c ∈ child.toList, c.view? = none := by
  cases child with
  | none => simp [childView?]
  | some c => simp [childView?]

/-- A node is without a view if it is bare or a child of it is without one. -/
theorem view?_eq_none_iff : n.view? = none ↔
    (∃ place, n = bare place) ∨ ∃ child ∈ n.children, child.view? = none := by
  cases n with
  | number | string | identifier => simp [view?, children]
  | bare place => simp [view?]
  | binary span operator left right =>
    have hsplit : (binary span operator left right).view? = none ↔
        childView? left = none ∨ childView? right = none := by
      rw [view?]
      cases childView? left with
      | none => simp
      | some l =>
        cases childView? right with
        | none => simp
        | some r => simp
    rw [hsplit, childView?_eq_none, childView?_eq_none]
    simp [children, or_and_right, exists_or]
  | declaration span name isMutable initializer typeName =>
    have hone : (declaration span name isMutable initializer typeName).view? = none ↔
        childView? initializer = none := by
      rw [view?]
      cases childView? initializer with
      | none => simp
      | some v => simp
    rw [hone, childView?_eq_none]
    simp [children]

theorem bare_within_of_view? (n : Node) (h : n.view? = none) : ∃ place, (bare place).Within n := by
  obtain ⟨place, rfl⟩ | ⟨child, hc, hv⟩ := view?_eq_none_iff.1 h
  · exact ⟨place, .root⟩
  · obtain ⟨place, hp⟩ := bare_within_of_view? child hv
    exact ⟨place, .inside hc hp⟩
termination_by n
decreasing_by exact sizeOf_child_lt hc

theorem view?_of_within {place : Span} (h : (bare place).Within n) : n.view? = none := by
  induction h with
  | root => rfl
  | inside hc _ ih => exact view?_eq_none_iff.2 (.inr ⟨_, hc, ih⟩)

theorem mapM_view?_eq_none : nodes.mapM view? = none ↔ ∃ n ∈ nodes, n.view? = none := by
  induction nodes with
  | nil => simp
  | cons n nodes ih =>
    rw [List.mapM_cons]
    cases hn : n.view? with
    | none => simp [hn]
    | some v =>
      cases hm : nodes.mapM view? with
      | none => simpa [hn, hm] using ih.1 hm
      | some vs =>
        have hno : ¬ ∃ n ∈ nodes, n.view? = none := fun h => by
          rw [ih.2 h] at hm
          cases hm
        simpa [hn, hm] using hno

theorem dump?_eq_none {layout : Json.Layout} :
    dump? layout nodes = none ↔ ∃ n ∈ nodes, ∃ place, (bare place).Within n := by
  rw [dump?, Option.map_eq_none_iff, mapM_view?_eq_none]
  constructor
  · rintro ⟨n, hn, hv⟩
    exact ⟨n, hn, bare_within_of_view? n hv⟩
  · rintro ⟨n, hn, place, hp⟩
    exact ⟨n, hn, view?_of_within hp⟩

/-- The views of a dumped program are what its dump says. -/
theorem dump?_eq_some {layout : Json.Layout} {text : String} (hl : layout.Blank)
    (h : dump? layout nodes = some text) : ∃ views, nodes.mapM view? = some views ∧
      Json.Puts (.item (Json.document (.array views))) text.toList := by
  obtain ⟨views, hv, rfl⟩ := Option.map_eq_some_iff.1 h
  exact ⟨views, hv, Json.text_spells hl _⟩

end Node

open Json in
/-- There is a dump unless a bare node is in a tree. It is in ASCII, and what is read in it, and all
that it says, is the list of the views. So every indentation gives a dump that says the same, and no
program with other views has the same dump. -/
theorem dump_reads (nodes : List Node) (indent : Option Int) :
    (Node.dump? (.ofIndent indent) nodes = none ↔
      ∃ n ∈ nodes, ∃ place, (Node.bare place).Within n) ∧
    ∀ text, Node.dump? (.ofIndent indent) nodes = some text →
      Ascii text.toList ∧
      (∃ views, nodes.mapM Node.view? = some views ∧
        read? .extended text.toList = some (document (.array views)) ∧
        ∀ d, Spells .extended (.item d) text.toList ↔ d = document (.array views)) ∧
      (∀ indent', ∃ text', Node.dump? (.ofIndent indent') nodes = some text' ∧
        read? .extended text'.toList = read? .extended text.toList) ∧
      ∀ nodes' indent', Node.dump? (.ofIndent indent') nodes' = some text →
        nodes'.mapM Node.view? = nodes.mapM Node.view? := by
  refine ⟨Node.dump?_eq_none, ?_⟩
  intro text h
  obtain ⟨views, hv, hspells, hascii⟩ := Node.dump?_eq_some (Layout.blank_ofIndent indent) h
  refine ⟨hascii, ⟨views, hv, hspells.read, ?_⟩, ?_, ?_⟩
  · intro d
    constructor
    · intro hd
      exact hd.unique hspells
    · rintro rfl
      exact hspells
  · intro indent'
    have hother : Node.dump? (.ofIndent indent') nodes =
        some (Json.text (.ofIndent indent') (.array views)) := by
      rw [Node.dump?, hv]
      rfl
    exact ⟨_, hother, (text_spells (Layout.blank_ofIndent indent') _).1.read.trans
      hspells.read.symm⟩
  · intro nodes' indent' h'
    obtain ⟨views', hv', hspells', -⟩ := Node.dump?_eq_some (Layout.blank_ofIndent indent') h'
    have hviews := Json.array.inj (document_inj _ _ (hspells'.unique hspells))
    rw [hv, hv', hviews]

/-- An assignment to a text, of which the value is missing, and a number that is none. -/
def halfAssigned : List Node :=
  [.binary .origin "=" (some (.string .origin (.text "\t𝄞"))) none, .number .origin (.float .nan)]

open Json in
theorem dump_reads_halfAssigned : ∃ text text',
    Node.dump? (.ofIndent (some 2)) halfAssigned = some text ∧ Ascii text.toList ∧
      Node.dump? (.ofIndent none) halfAssigned = some text' ∧ text' ≠ text ∧
      read? .extended text'.toList = read? .extended text.toList := by
  have hsome : ∀ indent, ∃ text, Node.dump? (.ofIndent indent) halfAssigned = some text :=
    fun _ => ⟨_, rfl⟩
  obtain ⟨text, h⟩ := hsome (some 2)
  obtain ⟨hascii, -, hsame, -⟩ := (dump_reads halfAssigned (some 2)).2 text h
  obtain ⟨text', h', hread⟩ := hsame none
  have hdiffer : Node.dump? (.ofIndent none) halfAssigned ≠
      Node.dump? (.ofIndent (some 2)) halfAssigned := by
    decide +kernel
  refine ⟨text, text', h, hascii, h', ?_, hread⟩
  rintro rfl
  exact hdiffer (h'.trans h.symm)

end FrontEnd
