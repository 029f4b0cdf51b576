import FrontEnd.Proofs.Dumps
import FrontEnd.Proofs.Worth

namespace FrontEnd

namespace Node

/-- Where a child hangs. -/
inductive Slot where
  | left | right | initializer
  deriving DecidableEq, Repr

def child? : Node → Slot → Option Node
  | binary _ _ left _, .left => left
  | binary _ _ _ right, .right => right
  | declaration _ _ _ initializer _, .initializer => initializer
  | _, _ => none

/-- The node at the end of a path from the root. -/
def at? : Node → List Slot → Option Node
  | n, [] => some n
  | n, slot :: path => (n.child? slot).bind fun child => child.at? path

/-- What a node says, children and place apart. -/
inductive Content where
  | number (worth : Option Worth)
  | string (worth : Option Worth)
  | identifier (name : String)
  | binary (operator : String)
  | declaration (name : String) (isMutable : Bool) (typeName : Option String)
  | bare

def content : Node → Content
  | number _ value => .number value.worth?
  | string _ value => .string value.worth?
  | identifier _ name => .identifier name
  | binary _ operator _ _ => .binary operator
  | declaration _ name isMutable _ typeName => .declaration name isMutable typeName
  | bare _ => .bare

/-- No node of the tree is bare, and the value of none is not a number. -/
def Proper (n : Node) : Prop :=
  ∀ m, m.Within n → ∀ s, m ≠ bare s ∧ m ≠ number s (.float .nan) ∧ m ≠ string s (.float .nan)

variable {α β : Type} {f : Node → α} {g : Node → β} {a b c n : Node} {slot : Slot}

theorem mem_children (h : n.child? slot = some c) : c ∈ n.children := by
  cases n with
  | binary => cases slot <;> simp_all [child?, children]
  | declaration => cases slot <;> simp_all [child?, children]
  | number | string | identifier | bare => cases slot <;> cases h

theorem Proper.child (hn : n.Proper) (h : n.child? slot = some c) : c.Proper :=
  fun m hm => hn m (.inside (mem_children h) hm)

/-- The trees have the same shape, and `f` is the same for the nodes at each path. -/
def Alike (f : Node → α) (a b : Node) : Prop :=
  ∀ path, (a.at? path).map f = (b.at? path).map f

/-- Both children are missing, or both are there and alike. -/
def AlikeChild (f : Node → α) : Option Node → Option Node → Prop
  | none, none => True
  | some a, some b => Alike f a b
  | _, _ => False

theorem alike_iff : Alike f a b ↔
    f a = f b ∧ ∀ slot, AlikeChild f (a.child? slot) (b.child? slot) := by
  constructor
  · intro h
    refine ⟨Option.some.inj (h []), fun slot => ?_⟩
    have hpath := fun path => h (slot :: path)
    simp only [at?] at hpath
    cases ha : a.child? slot with
    | none =>
      cases hb : b.child? slot with
      | none => trivial
      | some d => simpa [ha, hb, at?] using hpath []
    | some c =>
      cases hb : b.child? slot with
      | none => simpa [ha, hb, at?] using hpath []
      | some d =>
        intro path
        simpa [ha, hb] using hpath path
  · rintro ⟨hroot, hslots⟩ path
    cases path with
    | nil => exact congrArg some hroot
    | cons slot path =>
      have hslot := hslots slot
      rw [at?, at?]
      cases ha : a.child? slot with
      | none =>
        cases hb : b.child? slot with
        | none => rfl
        | some d => simp [ha, hb, AlikeChild] at hslot
      | some c =>
        cases hb : b.child? slot with
        | none => simp [ha, hb, AlikeChild] at hslot
        | some d =>
          rw [ha, hb] at hslot
          exact hslot path

/-- Trees are alike in two respects if they are alike in one and agree in the other. -/
theorem alike_pair : Alike (fun n => (f n, g n)) a b ↔ Alike f a b ∧
    ∀ path m m', a.at? path = some m → b.at? path = some m' → g m = g m' := by
  have hpath : ∀ o o' : Option Node, o.map (fun n => (f n, g n)) = o'.map (fun n => (f n, g n)) ↔
      o.map f = o'.map f ∧ ∀ m m', o = some m → o' = some m' → g m = g m' := by
    intro o o'
    cases o <;> cases o' <;> simp
  simp only [Alike, hpath, forall_and]

theorem forall_slot {p : Slot → Prop} :
    (∀ slot, p slot) ↔ p .left ∧ p .right ∧ p .initializer := by
  constructor
  · intro h
    exact ⟨h .left, h .right, h .initializer⟩
  · rintro ⟨hl, hr, hi⟩ slot
    cases slot
    · exact hl
    · exact hr
    · exact hi

theorem Proper.number {s : Span} {v : Scalar} (h : (number s v).Proper) : v ≠ .float .nan := by
  rintro rfl
  exact (h _ .root s).2.1 rfl

theorem Proper.string {s : Span} {v : Scalar} (h : (string s v).Proper) : v ≠ .float .nan := by
  rintro rfl
  exact (h _ .root s).2.2 rfl

/-- Nodes are equal if they are in themselves and their children are. -/
theorem same_iff_step (ha : a.Proper) : a.same b = true ↔ (a.content, a.span) = (b.content, b.span) ∧
    ∀ slot, sameChild (a.child? slot) (b.child? slot) = true := by
  rw [forall_slot, Prod.mk.injEq]
  cases a with
  | number s v =>
    cases b with
    | number t w =>
      simp [same, content, span, child?, sameChild, Scalar.same_iff_worth_eq ha.number, and_comm]
    | _ => simp [same, content]
  | string s v =>
    cases b with
    | string t w =>
      simp [same, content, span, child?, sameChild, Scalar.same_iff_worth_eq ha.string, and_comm]
    | _ => simp [same, content]
  | identifier =>
    cases b with
    | identifier => simp [same, content, span, child?, sameChild, and_comm]
    | _ => simp [same, content]
  | binary =>
    cases b with
    | binary => simp [same, content, span, child?, sameChild, and_assoc, and_left_comm]
    | _ => simp [same, content]
  | declaration =>
    cases b with
    | declaration =>
      simp [same, content, span, child?, sameChild, and_assoc, and_comm, and_left_comm]
    | _ => simp [same, content]
  | bare =>
    cases b with
    | bare => simp [same, content, span, child?, sameChild]
    | _ => simp [same, content]

/-- Trees are equal if at each path they have the same content at the same place of a file. -/
theorem same_iff_alike (a b : Node) (ha : a.Proper) :
    a.same b = true ↔ Alike (fun n => (n.content, n.span)) a b := by
  rw [same_iff_step ha, alike_iff]
  refine and_congr_right fun _ => forall_congr' fun slot => ?_
  cases hc : a.child? slot with
  | none => cases b.child? slot <;> simp [sameChild, AlikeChild]
  | some c =>
    cases b.child? slot with
    | none => simp [sameChild, AlikeChild]
    | some d => exact same_iff_alike c d (ha.child hc)
termination_by a
decreasing_by exact sizeOf_child_lt (mem_children hc)

/-- What stands at each path of a tree. -/
def labels (n : Node) (path : List Slot) : Option (Content × Span) :=
  (n.at? path).map fun m => (m.content, m.span)

theorem Proper.same_iff_labels (ha : a.Proper) : a.same b = true ↔ a.labels = b.labels := by
  rw [same_iff_alike a b ha, Alike, funext_iff]
  rfl

theorem same_equivalence :
    Equivalence fun a b : {n : Node // n.Proper} => a.1.same b.1 = true := by
  have hlabels : ∀ a b : {n : Node // n.Proper},
      a.1.same b.1 = true ↔ a.1.labels = b.1.labels := fun a b => a.2.same_iff_labels
  simp only [hlabels]
  exact ⟨fun _ => rfl, Eq.symm, Eq.trans⟩

section Lists

variable {as bs : List Node}

theorem sameAll_iff_labels (has : ∀ a ∈ as, a.Proper) :
    sameAll as bs = true ↔ as.map labels = bs.map labels := by
  induction as generalizing bs with
  | nil => cases bs <;> simp [sameAll]
  | cons a as ih =>
    rw [List.forall_mem_cons] at has
    cases bs with
    | nil => simp [sameAll]
    | cons b bs =>
      rw [sameAll, Bool.and_eq_true, has.1.same_iff_labels, ih has.2, List.map_cons,
        List.map_cons, List.cons.injEq]

theorem sameAll_equivalence :
    Equivalence fun as bs : {ns : List Node // ∀ n ∈ ns, n.Proper} =>
      sameAll as.1 bs.1 = true := by
  have hlabels : ∀ as bs : {ns : List Node // ∀ n ∈ ns, n.Proper},
      sameAll as.1 bs.1 = true ↔ as.1.map labels = bs.1.map labels :=
    fun as bs => sameAll_iff_labels as.2
  simp only [hlabels]
  exact ⟨fun _ => rfl, Eq.symm, Eq.trans⟩

end Lists

end Node
end FrontEnd
