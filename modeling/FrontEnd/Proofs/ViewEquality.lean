import Mathlib.Data.List.Forall2
import FrontEnd.Proofs.TreeEquality

namespace FrontEnd

namespace Json

mutual

/-- Equality of data as the language sees it: fields in any order, scalars by what they stand for. -/
def same : Json → Json → Bool
  | .scalar v, .scalar w => v.same w
  | .array items, .array others => sameItems items others
  | .object fields, .object others => fields.length == others.length && sameFields fields others
  | _, _ => false

def sameItems : List Json → List Json → Bool
  | [], [] => true
  | item :: items, other :: others => same item other && sameItems items others
  | _, _ => false

/-- Each field is among the others, with the same value. -/
def sameFields : List (String × Json) → List (String × Json) → Bool
  | [], _ => true
  | (key, value) :: fields, others =>
    (others.lookup key).any (same value) && sameFields fields others

end

variable {fields others table : List (String × Json)}

theorem lookup_of_nodup (hn : (table.map Prod.fst).Nodup) :
    ∀ field ∈ table, table.lookup field.1 = some field.2 := by
  induction table with
  | nil => simp
  | cons head table ih =>
    obtain ⟨hhead, htable⟩ := List.nodup_cons.1 hn
    intro field hfield
    rcases List.mem_cons.1 hfield with rfl | hmem
    · exact List.lookup_cons_self
    · have hne : field.1 ≠ head.1 := fun he => hhead (he ▸ List.mem_map_of_mem hmem)
      rw [List.lookup_cons, beq_eq_false_iff_ne.2 hne]
      exact ih htable field hmem

theorem sameFields_iff (hkeys : fields.map Prod.fst = others.map Prod.fst)
    (hfound : ∀ field ∈ others, table.lookup field.1 = some field.2) :
    sameFields fields table = true ↔ List.Forall₂ (fun f g => f.2.same g.2 = true) fields others := by
  induction fields generalizing others with
  | nil =>
    obtain rfl := List.map_eq_nil_iff.1 hkeys.symm
    simp [sameFields]
  | cons field fields ih =>
    obtain ⟨other, others, rfl⟩ : ∃ other rest, others = other :: rest := by
      cases others with
      | nil => cases hkeys
      | cons other rest => exact ⟨other, rest, rfl⟩
    obtain ⟨hkey, hkeys⟩ := List.cons.inj hkeys
    rw [List.forall_mem_cons] at hfound
    rw [sameFields, hkey, hfound.1, Bool.and_eq_true, ih hkeys hfound.2, List.forall₂_cons]
    rfl

/-- Under the same keys, each at most once, the values have to be equal one by one. -/
theorem same_object (hkeys : fields.map Prod.fst = others.map Prod.fst)
    (hn : (others.map Prod.fst).Nodup) : (object fields).same (object others) = true ↔
      List.Forall₂ (fun f g => f.2.same g.2 = true) fields others := by
  have hlen : (fields.length == others.length) = true := by
    simpa using congrArg List.length hkeys
  rw [same, hlen, Bool.true_and, sameFields_iff hkeys (lookup_of_nodup hn)]

@[simp]
theorem same_null_iff {w : Scalar} : (scalar .null).same (scalar w) = true ↔ w = .null := by
  have hv : Scalar.null ≠ .float .nan := Scalar.noConfusion
  rw [same, Scalar.same_iff_worth_eq hv]
  cases w with
  | null | bool | int | text => simp [Scalar.worth?]
  | float x =>
    cases x with
    | nan | infinite | finite => simp [Scalar.worth?]

@[simp]
theorem same_int {x y : Int} : (scalar (.int x)).same (scalar (.int y)) = true ↔ x = y := by
  rw [same, Scalar.same_iff_worth]
  simp [Scalar.worth?, eq_comm]

@[simp]
theorem same_bool {x y : Bool} : (scalar (.bool x)).same (scalar (.bool y)) = true ↔ x = y := by
  rw [same, Scalar.same_iff_worth]
  cases x <;> cases y <;> simp [Scalar.worth?]

theorem same_value {v w : Scalar} (hv : v ≠ .float .nan) :
    (scalar v).same (scalar w) = true ↔ v.worth? = w.worth? :=
  Scalar.same_iff_worth_eq hv

end Json

namespace Node

variable {a b n : Node}

/-- The part of a span that is shown in a view. -/
def site (s : Span) : Nat × Nat × Nat :=
  (s.line, s.startColumn, s.endColumn)

theorem span_eq_iff {s t : Span} : s = t ↔
    site s = site t ∧ s.filename = t.filename ∧ s.lineContent = t.lineContent := by
  cases s
  cases t
  simp only [site, Span.mk.injEq, Prod.mk.injEq, and_assoc]

@[simp]
theorem same_textField {x y : String} : (textField x).same (textField y) = true ↔ x = y :=
  beq_iff_eq

@[simp]
theorem same_optionalText {x y : Option String} :
    ((x.map textField).getD (.scalar .null)).same ((y.map textField).getD (.scalar .null)) = true ↔
      x = y := by
  cases x with
  | none => cases y <;> simp [Json.same, Scalar.same, textField, Scalar.quantity?]
  | some x =>
    cases y with
    | none => simp [Json.same, Scalar.same, textField, Scalar.quantity?]
    | some y => simp

theorem same_place {s t : Span} : (place s).same (place t) = true ↔ site s = site t := by
  refine (Json.same_object (by rfl) (by simp)).trans ?_
  simp [site]

variable {v w x y : Json}

theorem view?_eq_viewOf (hv : n.view? = some v) :
    ∃ kind fields, n.kind? = some kind ∧ v = viewOf kind fields n.span := by
  cases n with
  | number | string | identifier =>
    cases hv
    exact ⟨_, _, rfl, rfl⟩
  | binary =>
    simp only [view?, Option.bind_eq_bind, Option.bind_eq_some_iff] at hv
    obtain ⟨l, -, r, -, hv⟩ := hv
    cases hv
    exact ⟨_, _, rfl, rfl⟩
  | declaration =>
    simp only [view?, Option.bind_eq_bind, Option.bind_eq_some_iff] at hv
    obtain ⟨i, -, hv⟩ := hv
    cases hv
    exact ⟨_, _, rfl, rfl⟩
  | bare => cases hv

/-- A view is not that of a missing child. -/
theorem same_null_eq_false (hv : n.view? = some v) :
    v.same (.scalar .null) = false ∧ (Json.scalar .null).same v = false := by
  obtain ⟨kind, fields, -, rfl⟩ := view?_eq_viewOf hv
  simp [viewOf, Json.same]

/-- Equal views name the same kind. -/
theorem kind_eq_of_same (hv : a.view? = some v) (hw : b.view? = some w) (h : v.same w = true) :
    a.kind? = b.kind? := by
  obtain ⟨kind, fields, hk, rfl⟩ := view?_eq_viewOf hv
  obtain ⟨kind', others, hk', rfl⟩ := view?_eq_viewOf hw
  simp only [viewOf, Json.same, Json.sameFields, Bool.and_eq_true] at h
  obtain ⟨-, hkind, -⟩ := h
  rw [List.lookup_cons_self] at hkind
  rw [hk, hk', same_textField.1 hkind]

theorem exists_childView (hv : n.view? = some v) (slot : Slot) :
    ∃ x, childView? (n.child? slot) = some x := by
  cases hc : n.child? slot with
  | none => exact ⟨_, rfl⟩
  | some c =>
    refine Option.ne_none_iff_exists'.1 fun hnone => ?_
    rw [view?_eq_none_iff.2 (.inr ⟨c, mem_children hc, hnone⟩)] at hv
    cases hv

/-- Views are equal if they show the same content at the same place, and so do those of the
children. -/
theorem view_same_step (ha : a.Proper) (hv : a.view? = some v) (hw : b.view? = some w) :
    v.same w = true ↔ (a.content, site a.span) = (b.content, site b.span) ∧
      ∀ slot x y, childView? (a.child? slot) = some x → childView? (b.child? slot) = some y →
        x.same y = true := by
  have hkind := kind_eq_of_same hv hw
  rw [forall_slot, Prod.mk.injEq]
  cases a with
  | number s value =>
    cases b with
    | number t other =>
      cases hv
      cases hw
      refine (Json.same_object (by rfl) (by simp)).trans ?_
      simp [same_place, childView?, child?, content, span, Json.same_value ha.number]
    | _ => exact iff_of_false (mt hkind (by simp [kind?])) (by simp [content])
  | string s value =>
    cases b with
    | string t other =>
      cases hv
      cases hw
      refine (Json.same_object (by rfl) (by simp)).trans ?_
      simp [same_place, childView?, child?, content, span, Json.same_value ha.string]
    | _ => exact iff_of_false (mt hkind (by simp [kind?])) (by simp [content])
  | identifier s name =>
    cases b with
    | identifier =>
      cases hv
      cases hw
      refine (Json.same_object (by rfl) (by simp)).trans ?_
      simp [same_place, childView?, child?, content, span]
    | _ => exact iff_of_false (mt hkind (by simp [kind?])) (by simp [content])
  | binary s o l r =>
    cases b with
    | binary t o' l' r' =>
      simp only [view?, Option.bind_eq_bind, Option.bind_eq_some_iff] at hv hw
      obtain ⟨x, hx, y, hy, hv⟩ := hv
      obtain ⟨x', hx', y', hy', hw⟩ := hw
      cases hv
      cases hw
      refine (Json.same_object (by rfl) (by simp)).trans ?_
      simp [same_place, childView?, child?, content, span, hx, hx', hy, hy', and_assoc,
        and_left_comm, and_comm]
    | _ => exact iff_of_false (mt hkind (by simp [kind?])) (by simp [content])
  | declaration s name m i t =>
    cases b with
    | declaration s' name' m' i' t' =>
      simp only [view?, Option.bind_eq_bind, Option.bind_eq_some_iff] at hv hw
      obtain ⟨x, hx, hv⟩ := hv
      obtain ⟨x', hx', hw⟩ := hw
      cases hv
      cases hw
      refine (Json.same_object (by rfl) (by simp)).trans ?_
      simp [same_place, childView?, child?, content, span, hx, hx', and_assoc, and_left_comm,
        and_comm]
    | _ => exact iff_of_false (mt hkind (by simp [kind?])) (by simp [content])
  | bare => cases hv

/-- Views are equal if at each path the trees have the same content at the same place. -/
theorem view_same_iff_alike (a b : Node) (ha : a.Proper) {v w : Json} (hv : a.view? = some v)
    (hw : b.view? = some w) :
    v.same w = true ↔ Alike (fun n => (n.content, site n.span)) a b := by
  rw [view_same_step ha hv hw, alike_iff]
  refine and_congr_right fun _ => forall_congr' fun slot => ?_
  obtain ⟨x, hx⟩ := exists_childView hv slot
  obtain ⟨y, hy⟩ := exists_childView hw slot
  have hviews : (∀ x y, childView? (a.child? slot) = some x →
      childView? (b.child? slot) = some y → x.same y = true) ↔ x.same y = true := by
    refine ⟨fun h => h x y hx hy, fun h x' y' hx' hy' => ?_⟩
    rwa [← Option.some.inj (hx.symm.trans hx'), ← Option.some.inj (hy.symm.trans hy')]
  rw [hviews]
  cases hc : a.child? slot with
  | none =>
    rw [hc] at hx
    cases hx
    cases hd : b.child? slot with
    | none =>
      rw [hd] at hy
      cases hy
      simp [AlikeChild]
    | some d =>
      rw [hd] at hy
      simp [AlikeChild, same_null_eq_false hy]
  | some c =>
    rw [hc] at hx
    cases hd : b.child? slot with
    | none =>
      rw [hd] at hy
      cases hy
      simp [AlikeChild, same_null_eq_false hx]
    | some d =>
      rw [hd] at hy
      exact view_same_iff_alike c d (ha.child hc) hx hy
termination_by a
decreasing_by exact sizeOf_child_lt (mem_children hc)

theorem Proper.exists_view (ha : a.Proper) : ∃ v, a.view? = some v := by
  refine Option.ne_none_iff_exists'.1 fun hnone => ?_
  obtain ⟨s, hs⟩ := bare_within_of_view? a hnone
  exact (ha _ hs s).1 rfl

/-- Where both trees have a node, both nodes name the same file and repeat the same line. -/
def SameFiles (a b : Node) : Prop :=
  ∀ path m m', a.at? path = some m → b.at? path = some m' →
    m.span.filename = m'.span.filename ∧ m.span.lineContent = m'.span.lineContent

/-- Trees are equal if their views are and they speak of the same files. -/
theorem same_iff_view (ha : a.Proper) (hv : a.view? = some v) (hw : b.view? = some w) :
    a.same b = true ↔ v.same w = true ∧ SameFiles a b := by
  have hparts : Alike (fun n => (n.content, n.span)) a b ↔ Alike (fun n =>
      ((n.content, site n.span), (n.span.filename, n.span.lineContent))) a b := by
    refine forall_congr' fun path => ?_
    cases a.at? path <;> cases b.at? path <;>
      simp [span_eq_iff, and_assoc]
  rw [same_iff_alike a b ha, hparts, alike_pair, view_same_iff_alike a b ha hv hw]
  simp only [SameFiles, Prod.mk.injEq]

section Lists

variable {as bs : List Node} {vs ws : List Json}

theorem exists_views (has : ∀ a ∈ as, a.Proper) : ∃ vs, as.mapM view? = some vs := by
  refine Option.ne_none_iff_exists'.1 fun hnone => ?_
  obtain ⟨a, ha, hview⟩ := mapM_view?_eq_none.1 hnone
  obtain ⟨v, hv⟩ := (has a ha).exists_view
  rw [hv] at hview
  cases hview

/-- Lists are equal if the lists of their views are and each two trees speak of the same files. -/
theorem sameAll_iff_views (has : ∀ a ∈ as, a.Proper) (hvs : as.mapM view? = some vs)
    (hws : bs.mapM view? = some ws) : sameAll as bs = true ↔
      (Json.array vs).same (.array ws) = true ∧
        ∀ (i : Nat) (a b : Node), as[i]? = some a → bs[i]? = some b → SameFiles a b := by
  rw [Json.same]
  induction as generalizing bs vs ws with
  | nil =>
    cases hvs
    cases bs with
    | nil =>
      cases hws
      simp [sameAll, Json.sameItems]
    | cons b bs =>
      simp only [List.mapM_cons, Option.bind_eq_bind, Option.bind_eq_some_iff] at hws
      obtain ⟨w, -, ws, -, hws⟩ := hws
      cases hws
      simp [sameAll, Json.sameItems]
  | cons a as ih =>
    rw [List.forall_mem_cons] at has
    simp only [List.mapM_cons, Option.bind_eq_bind, Option.bind_eq_some_iff] at hvs
    obtain ⟨v, hv, vs, hvs, hcons⟩ := hvs
    cases hcons
    cases bs with
    | nil =>
      cases hws
      simp [sameAll, Json.sameItems]
    | cons b bs =>
      simp only [List.mapM_cons, Option.bind_eq_bind, Option.bind_eq_some_iff] at hws
      obtain ⟨w, hw, ws, hws, hcons⟩ := hws
      cases hcons
      have hpairs : (∀ (i : Nat) (c d : Node), (a :: as)[i]? = some c → (b :: bs)[i]? = some d →
          SameFiles c d) ↔ SameFiles a b ∧
            ∀ (i : Nat) (c d : Node), as[i]? = some c → bs[i]? = some d → SameFiles c d := by
        rw [← Nat.and_forall_add_one]
        simp
      rw [sameAll, Json.sameItems, Bool.and_eq_true, Bool.and_eq_true, same_iff_view has.1 hv hw,
        ih has.2 hvs hws, hpairs]
      exact and_and_and_comm

end Lists

mutual

/-- The same tree elsewhere. -/
def relocate (f : Span → Span) : Node → Node
  | number s value => number (f s) value
  | string s value => string (f s) value
  | identifier s name => identifier (f s) name
  | binary s operator left right =>
    binary (f s) operator (relocateChild f left) (relocateChild f right)
  | declaration s name isMutable initializer typeName =>
    declaration (f s) name isMutable (relocateChild f initializer) typeName
  | bare s => bare (f s)

def relocateChild (f : Span → Span) : Option Node → Option Node
  | none => none
  | some n => some (relocate f n)

end

theorem viewOf_site {f : Span → Span} (hf : ∀ s, site (f s) = site s) (kind : String)
    (fields : List (String × Json)) (s : Span) : viewOf kind fields (f s) = viewOf kind fields s := by
  have hplace := hf s
  simp only [site, Prod.mk.injEq] at hplace
  rw [viewOf, viewOf, place, place, hplace.1, hplace.2.1, hplace.2.2]

mutual

/-- A view shows nothing of the file and nothing of the line. -/
theorem view?_relocate {f : Span → Span} (hf : ∀ s, site (f s) = site s) :
    ∀ n : Node, (n.relocate f).view? = n.view?
  | number s value => by simp [relocate, view?, viewOf_site hf]
  | string s value => by simp [relocate, view?, viewOf_site hf]
  | identifier s name => by simp [relocate, view?, viewOf_site hf]
  | binary s operator left right => by
    simp [relocate, view?, viewOf_site hf, childView?_relocate hf left,
      childView?_relocate hf right]
  | declaration s name isMutable initializer typeName => by
    simp [relocate, view?, viewOf_site hf, childView?_relocate hf initializer]
  | bare s => rfl

theorem childView?_relocate {f : Span → Span} (hf : ∀ s, site (f s) = site s) :
    ∀ child : Option Node, childView? (relocateChild f child) = childView? child
  | none => rfl
  | some n => view?_relocate hf n

end

end Node

open Node in
/-- Views are faithful to equality. Trees without bare nodes and without values that are not a
number have views, and are equal if their views are and each two nodes at the same path speak of the
same file and line; so are lists of them. On these trees and lists equality is an equivalence, since
scalars are compared by what they stand for, numbers exactly. And of a place a view shows nothing but
its numbers. -/
theorem equality_viewed :
    (∀ a b : Node, a.Proper → b.Proper → ∃ v w, a.view? = some v ∧ b.view? = some w ∧
      (a.same b = true ↔ v.same w = true ∧ SameFiles a b)) ∧
    (∀ as bs : List Node, (∀ a ∈ as, a.Proper) → (∀ b ∈ bs, b.Proper) →
      ∃ vs ws, as.mapM view? = some vs ∧ bs.mapM view? = some ws ∧
        (sameAll as bs = true ↔ (Json.array vs).same (.array ws) = true ∧
          ∀ (i : Nat) (a b : Node), as[i]? = some a → bs[i]? = some b → SameFiles a b)) ∧
    (Equivalence fun a b : {n : Node // n.Proper} => a.1.same b.1 = true) ∧
    (Equivalence fun as bs : {ns : List Node // ∀ n ∈ ns, n.Proper} =>
      sameAll as.1 bs.1 = true) ∧
    (∀ v w : Scalar, v.same w = true ↔ ∃ x, v.worth? = some x ∧ w.worth? = some x) ∧
    ∀ (f : Span → Span) (n : Node), (∀ s, site (f s) = site s) →
      (n.relocate f).view? = n.view? := by
  refine ⟨?_, ?_, same_equivalence, sameAll_equivalence, fun v w => Scalar.same_iff_worth,
    fun f n hf => view?_relocate hf n⟩
  · intro a b ha hb
    obtain ⟨v, hv⟩ := ha.exists_view
    obtain ⟨w, hw⟩ := hb.exists_view
    exact ⟨v, w, hv, hw, same_iff_view ha hv hw⟩
  · intro as bs has hbs
    obtain ⟨vs, hvs⟩ := exists_views has
    obtain ⟨ws, hws⟩ := exists_views hbs
    exact ⟨vs, ws, hvs, hws, sameAll_iff_views has hvs hws⟩

/-- A sum of which the second operand is missing. -/
def halfSum (value : Scalar) (filename : String) : Node :=
  .binary .origin "+" (some (.number { Span.origin with filename := filename } value)) none

theorem proper_halfSum {value : Scalar} {filename : String} (h : value ≠ .float .nan) :
    (halfSum value filename).Proper := by
  intro m hm s
  cases hm with
  | root => simp [halfSum]
  | inside hc hm =>
    obtain rfl := List.mem_singleton.1 hc
    cases hm with
    | root => simp [h]
    | inside hc hm => cases hc

/-- The same tree in another file. -/
def halfSumElsewhere (value : Scalar) : Node :=
  (halfSum value "m.fp").relocate fun s => { s with filename := "n.fp" }

/-- The integer one and the number 1.0 make equal sums; elsewhere the sum is another one with the
same view. -/
theorem equality_viewed_halfSum :
    let decimal : Scalar := .float (.finite false 0x3FF0000000000000 (by decide))
    let a := halfSum (.int 1) "m.fp"
    let b := halfSum decimal "m.fp"
    a.Proper ∧ b.Proper ∧
      (∃ v w, a.view? = some v ∧ b.view? = some w ∧ v.same w = true ∧ Node.SameFiles a b) ∧
      (∃ vs ws, [a, b].mapM Node.view? = some vs ∧ [b, a].mapM Node.view? = some ws ∧
        (Json.array vs).same (.array ws) = true) ∧
      a.same (halfSumElsewhere (.int 1)) = false ∧
      (halfSumElsewhere (.int 1)).view? = a.view? := by
  intro decimal a b
  have ha : a.Proper := proper_halfSum (by simp)
  have hb : b.Proper := proper_halfSum (by simp [decimal])
  obtain ⟨hnodes, hlists, -, -, -, hdropped⟩ := equality_viewed
  obtain ⟨v, w, hv, hw, hsame⟩ := hnodes a b ha hb
  obtain ⟨vs, ws, hvs, hws, hsameAll⟩ :=
    hlists [a, b] [b, a] (by simp [ha, hb]) (by simp [ha, hb])
  have hlocal : v.same w = true ∧ Node.SameFiles a b := hsame.1 (by decide +kernel)
  exact ⟨ha, hb, ⟨v, w, hv, hw, hlocal⟩, ⟨vs, ws, hvs, hws, (hsameAll.1 (by decide +kernel)).1⟩,
    by decide +kernel, hdropped _ _ fun _ => rfl⟩

end FrontEnd
