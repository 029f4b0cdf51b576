import FrontEnd.Proofs.Automaton
import FrontEnd.Proofs.ReadBack

namespace FrontEnd

namespace Grammar

variable {g : Grammar} {t : Token} {depth limit : Nat} {min : Int} {left : Node}
  {ts us vs xs ys : List Token} {α β : Type}

theorem lead_append_le (ts : List Token) (h : lead us ≤ lead vs) :
    lead (ts ++ us) ≤ lead (ts ++ vs) := by
  cases ts with
  | nil => exact h
  | cons t rest => exact Nat.le_refl _

theorem lead_append_of_lead (ts : List Token) (h : lead us = 0) : lead (ts ++ us) ≤ lead ts := by
  have hle : lead us ≤ lead [] := Nat.le_of_eq h
  simpa using lead_append_le ts hle

theorem lead_le_lead_append (ts us : List Token) : lead ts ≤ lead (ts ++ us) := by
  have hle : lead [] ≤ lead us := Nat.zero_le _
  simpa using lead_append_le ts hle

/-- What is read is read from the tokens taken alone: in front of any others that are no stronger as
operators than those behind them, and whatever token stands for the end. -/
def Local (read : Token → List Token → Reading α) : Prop :=
  ∀ stop ts a rest, read stop ts = .done a rest → ∃ taken, ts = taken ++ rest ∧
    ∀ stop us, lead us ≤ lead rest → read stop (taken ++ us) = .done a us

theorem Local.bind {read : Token → List Token → Reading α}
    {next : Token → α → List Token → Reading β} (hr : Local read)
    (hn : ∀ a, Local fun stop => next stop a) :
    Local fun stop ts => (read stop ts).bind (next stop) := by
  intro stop ts b rest h
  obtain ⟨a, mid, ha, hb⟩ := Reading.bind_eq_done.1 h
  obtain ⟨first, rfl, hfirst⟩ := hr stop ts a mid ha
  obtain ⟨more, rfl, hmore⟩ := hn a stop mid b rest hb
  refine ⟨first ++ more, by simp, fun stop us hus => ?_⟩
  dsimp only
  rw [List.append_assoc, hfirst stop _ (lead_append_le more hus), Reading.bind_done]
  exact hmore stop us hus

theorem operand_local {inner : Token → Int → List Token → Reading Node}
    (hi : Local fun stop => inner stop 0) : Local fun stop => operand g stop (inner stop) t := by
  intro stop ts n rest h
  dsimp only at h ⊢
  unfold operand at h ⊢
  split at h
  · cases h
  · rename_i hg
    simp only [if_neg hg]
    split at h
    · split at h
      · cases h
        exact ⟨[], rfl, fun _ _ _ => rfl⟩
      · cases h
    · cases h
      exact ⟨[], rfl, fun _ _ _ => rfl⟩
    · cases h
      exact ⟨[], rfl, fun _ _ _ => rfl⟩
    · obtain ⟨isMutable, marks, name, colon, type, equals, us, value, hm, rfl, hn, hc, hy, he, hv,
        rfl⟩ := declaration_eq_done h
      obtain ⟨taken, rfl, htaken⟩ := hi stop us value rest hv
      refine ⟨marks ++ name :: colon :: type :: equals :: taken, by simp, fun stop vs hvs => ?_⟩
      have hvalue : inner stop 0 (taken ++ vs) = .done value vs := htaken stop vs hvs
      simp only [List.append_assoc, List.cons_append]
      rw [declaration_of_head hm hn hc hy he, hvalue, Reading.bind_done]
    · cases h

theorem resume_local (hmin : 0 ≤ min)
    (hi : ∀ min, 0 ≤ min → Local fun stop => expression g stop depth min) :
    Local fun stop => resume g stop depth min left := by
  intro stop ts n rest h
  dsimp only at h ⊢
  induction left, ts using resume_induction g stop depth min with
  | stops left ts _ he =>
    have hlead := lead_le_of_resume hmin he
    rw [he] at h
    cases h
    refine ⟨[], rfl, fun stop us hus => resume_of_lead_le ?_⟩
    rw [List.nil_append]
    omega
  | refuses left t us _ _ _ he | breaks left t us _ _ _ _ he =>
    rw [he] at h
    cases h
  | grows left t us right mid ht hr he ih =>
    rw [he] at h
    obtain ⟨more, rfl, hmore⟩ := ih h
    obtain ⟨taken, rfl, htaken⟩ := hi _ (Kind.rightPower_nonneg t.kind) stop us right _ hr
    refine ⟨t :: (taken ++ more), by simp, fun stop vs hvs => ?_⟩
    -- the right operand stops where it did: before the operators behind it, or else before what
    -- is put there
    have hright : expression g stop depth t.kind.rightPower (taken ++ (more ++ vs)) =
        .done right (more ++ vs) := htaken stop _ (lead_append_le more hvs)
    rw [List.cons_append, List.append_assoc, resume_takes ht, hright, Reading.bind_done]
    exact hmore stop vs hvs

theorem expression_local (hmin : 0 ≤ min) : Local fun stop => expression g stop depth min := by
  induction depth generalizing min with
  | zero =>
    intro stop ts n rest h
    simp [expression] at h
  | succ depth ih =>
    intro stop ts n rest h
    have hend := atEnd_of_expression h
    obtain ⟨d, t, us, left, mid, hd, rfl, ho, hr⟩ := expression_eq_done h
    cases hd
    have ht : t.kind ≠ .endOfInput := by simpa [atEnd] using hend
    have hboth : Local fun stop us => (operand g stop (expression g stop depth) t us).bind
        (resume g stop depth min) :=
      (operand_local (ih (by simp))).bind fun left => resume_local hmin fun min hmin => ih hmin
    obtain ⟨taken, rfl, htaken⟩ :=
      hboth stop us n rest (Reading.bind_eq_done.2 ⟨left, mid, ho, hr⟩)
    refine ⟨t :: taken, rfl, fun stop vs hvs => ?_⟩
    dsimp only
    rw [List.cons_append, expression_cons ht]
    exact htaken stop vs hvs

/-- Behind whole statements reading begins anew. -/
theorem sequence_append {stop : Token} (stop' : Token)
    (hrest : (sequence g stop limit xs).rest = [])
    (hfault : (sequence g stop limit xs).fault = none) (hy : lead ys = 0) : sequence g stop' limit (xs ++ ys) =
      { sequence g stop' limit ys with statements :=
        (sequence g stop limit xs).statements ++ (sequence g stop' limit ys).statements } := by
  induction xs using sequence_induction g stop limit with
  | ends ts _ he =>
    rw [he] at hrest ⊢
    cases hrest
    rfl
  | breaks ts fault rest _ _ he =>
    rw [he] at hfault
    cases hfault
  | goesOn ts n rest _ hx he ih =>
    rw [he] at hrest hfault ⊢
    obtain ⟨taken, rfl, htaken⟩ := expression_local (by simp) stop ts n rest hx
    have hx' := htaken stop' (rest ++ ys) (lead_append_of_lead rest hy)
    rw [List.append_assoc, sequence_of_done (atEnd_of_expression hx') hx', ih hrest hfault]
    rfl

/-- The tokens of the statements that were read are read as these statements, up to their end. -/
theorem sequence_front (g : Grammar) (stop : Token) (limit : Nat) (ts : List Token) :
    ∃ front, front <+: ts ∧ ∀ stop', sequence g stop' limit front =
      ⟨(sequence g stop limit ts).statements, [], none⟩ := by
  induction ts using sequence_induction g stop limit with
  | ends ts _ he | breaks ts _ _ _ _ he =>
    rw [he]
    exact ⟨[], List.nil_prefix, fun _ => sequence_of_atEnd rfl⟩
  | goesOn ts n rest _ hx he ih =>
    obtain ⟨taken, rfl, htaken⟩ := expression_local (by simp) stop ts n rest hx
    obtain ⟨front, hfront, hseq⟩ := ih
    obtain ⟨back, rfl⟩ := hfront
    refine ⟨taken ++ front, ⟨back, by simp⟩, fun stop' => ?_⟩
    have hx' := htaken stop' front (lead_le_lead_append front back)
    rw [he, sequence_of_done (atEnd_of_expression hx') hx', hseq]

/-- Without a fault, and without a mark of the end among the tokens, all of them are taken. -/
theorem sequence_rest_eq_nil {stop : Token} (hfault : (sequence g stop limit xs).fault = none)
    (hx : ∀ t ∈ xs, t.kind ≠ .endOfInput) : (sequence g stop limit xs).rest = [] := by
  have hsuffix : (sequence g stop limit xs).rest <:+ xs := sequence_leaves.suffix
  have hend := atEnd_sequence hfault
  cases hrest : (sequence g stop limit xs).rest with
  | nil => rfl
  | cons t us =>
    rw [hrest] at hsuffix hend
    have ht : t.kind = .endOfInput := by simpa [atEnd] using hend
    exact absurd ht (hx t (hsuffix.mem (by simp)))

end Grammar

theorem endToken_append {xs ys : List Token} (h : ys ≠ []) :
    endToken (xs ++ ys) = endToken ys := by
  unfold endToken
  rw [List.getLast?_append_of_ne_nil xs h]

namespace ParseSession

open Automaton

variable {s : ParseSession} {xs ys ts : List Token}

/-- The same rules and the same limit for other tokens. -/
def given (s : ParseSession) (ts : List Token) : ParseSession :=
  { s with tokens := ts }

theorem parse_given {nodes : List Node} {rest : List Token} {fault : Option SyntaxError}
    (h : Grammar.sequence s.grammar (endToken ts) s.limit ts = ⟨nodes, rest, fault.map .rejected⟩) :
    (s.given ts).parse = (.ok nodes, { s with
      tokens := ts, current := ts.length - rest.length, errors := fault.toList }) :=
  parse_eq (s := s.given ts) h

/-- The end of the whole is the end of its last part; where that is empty nothing is read. -/
theorem sequence_endToken (g : Grammar) (limit : Nat) (xs ys : List Token) :
    Grammar.sequence g (endToken (xs ++ ys)) limit ys =
      Grammar.sequence g (endToken ys) limit ys := by
  cases ys with
  | nil => rfl
  | cons t us => rw [endToken_append (List.cons_ne_nil t us)]

theorem parse_append (hr : Readable (xs ++ ys)) (hx : ∀ t ∈ xs, t.kind ≠ .endOfInput)
    (he : (s.given xs).parse.2.errors = []) (hy : ∀ t ∈ ys.head?, t.kind.precedence = 0) :
    ∃ first second, (s.given xs).parse.1 = .ok first ∧ (s.given ys).parse.1 = .ok second ∧
      (s.given (xs ++ ys)).parse.1 = .ok (first ++ second) ∧
      (s.given (xs ++ ys)).parse.2.errors = (s.given ys).parse.2.errors ∧
      (s.given (xs ++ ys)).parse.2.current = xs.length + (s.given ys).parse.2.current := by
  have hrx : Readable xs := fun t ht => hr t (List.mem_append_left ys ht)
  have hlead : Grammar.lead ys = 0 := by
    cases ys with
    | nil => rfl
    | cons t us => exact hy t rfl
  obtain ⟨first, rest, fault, hfirst⟩ := sequence_readable s.grammar (endToken xs) s.limit hrx
  obtain ⟨second, rest', fault', hsecond⟩ :=
    sequence_readable s.grammar (endToken ys) s.limit (hr.suffix (List.suffix_append xs ys))
  have hfault : (Grammar.sequence s.grammar (endToken xs) s.limit xs).fault = none := by
    have hnone : fault = none := by simpa [parse_given hfirst] using he
    rw [hfirst, hnone]
    rfl
  have hboth := Grammar.sequence_append (endToken (xs ++ ys))
    (Grammar.sequence_rest_eq_nil hfault hx) hfault hlead
  rw [sequence_endToken, hfirst, hsecond] at hboth
  have hle : rest'.length ≤ ys.length := by
    have hsuffix : (Grammar.sequence s.grammar (endToken ys) s.limit ys).rest <:+ ys :=
      Grammar.sequence_leaves.suffix
    rw [hsecond] at hsuffix
    exact hsuffix.length_le
  rw [parse_given hfirst, parse_given hsecond, parse_given hboth]
  refine ⟨first, second, rfl, rfl, rfl, rfl, ?_⟩
  simp only [List.length_append]
  omega

theorem parse_front (s : ParseSession) (hr : Readable ts) : ∃ front nodes, front <+: ts ∧
    (s.given ts).parse.1 = .ok nodes ∧ (s.given front).parse.1 = .ok nodes ∧
    (s.given front).parse.2.errors = [] := by
  obtain ⟨nodes, rest, fault, h⟩ := sequence_readable s.grammar (endToken ts) s.limit hr
  obtain ⟨front, hfront, hseq⟩ := Grammar.sequence_front s.grammar (endToken ts) s.limit ts
  have hdone : Grammar.sequence s.grammar (endToken front) s.limit front =
      ⟨nodes, [], Option.map ParseFault.rejected none⟩ := by
    rw [hseq, h]
    rfl
  refine ⟨front, nodes, hfront, ?_⟩
  rw [parse_given h, parse_given hdone]
  exact ⟨rfl, rfl, rfl⟩

end ParseSession

open Automaton in
/-- Tokens that are read without an error, with none among them that marks the end, may be put in
front of any others that do not begin with an operator: the statements are those of both parts, and
the error and the place are those of the second part. And the statements before an error are all
that is read of some front of the tokens, without an error. -/
theorem parse_boundary (s : ParseSession) :
    (∀ xs ys, Readable (xs ++ ys) → (∀ t ∈ xs, t.kind ≠ .endOfInput) →
      (s.given xs).parse.2.errors = [] → (∀ t ∈ ys.head?, t.kind.precedence = 0) →
      ∃ first second, (s.given xs).parse.1 = .ok first ∧ (s.given ys).parse.1 = .ok second ∧
        (s.given (xs ++ ys)).parse.1 = .ok (first ++ second) ∧
        (s.given (xs ++ ys)).parse.2.errors = (s.given ys).parse.2.errors ∧
        (s.given (xs ++ ys)).parse.2.current = xs.length + (s.given ys).parse.2.current) ∧
    ∀ ts, Readable ts → ∃ front nodes, front <+: ts ∧ (s.given ts).parse.1 = .ok nodes ∧
      (s.given front).parse.1 = .ok nodes ∧ (s.given front).parse.2.errors = [] :=
  ⟨fun _ _ hr hx he hy => ParseSession.parse_append hr hx he hy, fun _ hr => s.parse_front hr⟩

/-- The tokens of `a + b`. -/
def wholeSum : List Token :=
  [⟨.identifier, "a", .null, .origin⟩, ⟨.plus, "+", .null, .origin⟩,
    ⟨.identifier, "b", .null, .origin⟩]

/-- The tokens of `c d *`, where an operand is missing. -/
def cutProduct : List Token :=
  [⟨.identifier, "c", .null, .origin⟩, ⟨.identifier, "d", .null, .origin⟩,
    ⟨.star, "*", .null, .origin⟩]

theorem parse_boundary_cutProduct :
    Automaton.Readable (wholeSum ++ cutProduct) ∧ (∀ t ∈ wholeSum, t.kind ≠ .endOfInput) ∧
    ((ParseSession.start []).given wholeSum).parse.2.errors = [] ∧
    (∀ t ∈ cutProduct.head?, t.kind.precedence = 0) ∧
    (∃ nodes, ((ParseSession.start []).given (wholeSum ++ cutProduct)).parse.1 = .ok nodes ∧
      ((ParseSession.start []).given (wholeSum ++ cutProduct)).parse.2.errors =
        [.unexpectedEnd "an expression" .origin] ∧
      ((ParseSession.start []).given (wholeSum ++ cutProduct)).parse.2.current = 6) ∧
    ∃ front nodes, front <+: wholeSum ++ cutProduct ∧
      ((ParseSession.start []).given (wholeSum ++ cutProduct)).parse.1 = .ok nodes ∧
      ((ParseSession.start []).given front).parse.1 = .ok nodes ∧
      ((ParseSession.start []).given front).parse.2.errors = [] := by
  have hr : Automaton.Readable (wholeSum ++ cutProduct) := by
    unfold Automaton.Readable
    decide +kernel
  have hx : ∀ t ∈ wholeSum, t.kind ≠ .endOfInput := by decide
  have he : ((ParseSession.start []).given wholeSum).parse.2.errors = [] := by decide +kernel
  have hy : ∀ t ∈ cutProduct.head?, t.kind.precedence = 0 := by decide
  obtain ⟨first, second, _, _, hall, herrors, hcurrent⟩ :=
    (parse_boundary (.start [])).1 wholeSum cutProduct hr hx he hy
  have hcut : ((ParseSession.start []).given cutProduct).parse.2.errors =
      [.unexpectedEnd "an expression" .origin] := by decide +kernel
  have hplace : ((ParseSession.start []).given cutProduct).parse.2.current = 3 := by decide +kernel
  rw [hcut] at herrors
  rw [hplace] at hcurrent
  exact ⟨hr, hx, he, hy, ⟨_, hall, herrors, hcurrent⟩, (parse_boundary (.start [])).2 _ hr⟩

end FrontEnd
