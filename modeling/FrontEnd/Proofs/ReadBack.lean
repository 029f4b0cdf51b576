import FrontEnd.Grammar.Session
import FrontEnd.Proofs.Yield
import Mathlib.Data.List.Forall2

namespace FrontEnd

namespace Node

/-- How many expressions are open at once when a tree is read. Left operands are read before the
operator is met, so they open none. -/
def nesting : Node → Nat
  | binary _ _ (some left) (some right) => max left.nesting (right.nesting + 1)
  | declaration _ _ _ (some value) _ => value.nesting + 1
  | _ => 1

theorem nesting_pos (n : Node) : 0 < n.nesting := by
  unfold nesting
  split <;> omega

end Node

namespace Grammar

variable {stop t : Token} {depth : Nat} {min : Int} {n : Node} {ts rest : List Token}
  {inner : Int → List Token → Reading Node}

theorem resume_of_lead_le {g : Grammar} (h : lead rest ≤ min) :
    resume g stop depth min n rest = .done n rest := by
  cases rest with
  | nil => exact resume_nil
  | cons t us =>
    rw [resume_cons, if_pos (.inr h)]

theorem resume_operator (ht : min < t.kind.precedence) (hlevel : t.kind.level?.isSome) :
    resume standard stop depth min n (t :: rest) =
      (expression standard stop depth t.kind.rightPower rest).bind fun right rest =>
        resume standard stop depth min (.binary t.span t.lexeme (some n) (some right)) rest := by
  have he : t.kind ≠ .endOfInput := by
    intro he
    simp [he, Kind.level?] at hlevel
  exact resume_takes ⟨he, ht, mem_operators hlevel⟩

/-- A tree is read up to its last token, and reading goes on behind it as behind any left operand:
no operand inside it can take in what follows. -/
theorem expression_yields (hy : n.Yields ts) (hg : n.Grouped) (ha : n.Above min)
    (hc : n.ClosedTo (lead rest)) (hd : n.nesting ≤ depth + 1) :
    expression standard stop (depth + 1) min (ts ++ rest) =
      resume standard stop depth min n rest := by
  induction hy generalizing min depth rest with
  | number hk hv =>
    rw [List.singleton_append, expression_cons (by simp [hk])]
    simp [operand, hk, hv, standard]
  | string hk | identifier hk =>
    rw [List.singleton_append, expression_cons (by simp [hk])]
    simp [operand, hk, standard]
  | @binary t left right before after hl ho hr ihl ihr =>
    obtain ⟨hgl, hgr, fl, fr⟩ := hg.operands ho
    have ht : min < t.kind.precedence := ha t.kind ho.2
    have hlead : (lead rest : Int) ≤ t.kind.rightPower := hc.1 t.kind ho.2
    have hleft : left.ClosedTo (lead (t :: (after ++ rest))) := (Node.fitsLeft_iff hgl ho.pos).1 fl
    have hpos := right.nesting_pos
    simp only [Node.nesting] at hd
    obtain ⟨d, rfl⟩ := Nat.exists_eq_add_one_of_ne_zero (n := depth) (by omega)
    -- the operator is all that the left operand sees of what follows it
    rw [List.append_assoc, List.cons_append, ihl hgl (fl.above ht) hleft (by omega),
      resume_operator ht ho.1, ihr hgr (Node.fitsRight_iff.1 fr) hc.2 (by omega),
      resume_of_lead_le hlead, Reading.bind_done]
  | @declaration opening name colon type equals isMutable value marks body hopen hm hname hcolon
      htype hequals hv ih =>
    have hgv : value.Grouped := by cases hg; assumption
    have hlead : lead rest = 0 := hc
    have hpos := value.nesting_pos
    simp only [Node.nesting] at hd
    obtain ⟨d, rfl⟩ := Nat.exists_eq_add_one_of_ne_zero (n := depth) (by omega)
    rw [List.cons_append, expression_cons (by simp [hopen]), List.append_assoc]
    simp only [List.cons_append]
    rw [operand_of_head hopen (by simp [hopen, standard]) hm hname hcolon htype hequals,
      ih hgv hgv.above_zero (hlead ▸ hgv.closedTo_zero) (by omega),
      resume_of_lead_le (by omega), Reading.bind_done, Reading.bind_done]

/-- A tree of more nested expressions than may be open is refused. -/
theorem expression_tooDeep (stop : Token) (hy : n.Yields ts) (hg : n.Grouped) (ha : n.Above min)
    (hc : n.ClosedTo (lead rest)) (hd : depth < n.nesting) :
    ∃ t us, expression standard stop depth min (ts ++ rest) =
      .failed (.rejected (.tooDeep t)) us := by
  induction hy generalizing min depth rest with
  | number hk | string hk | identifier hk =>
    simp only [Node.nesting, Nat.lt_one_iff] at hd
    subst hd
    exact ⟨_, _, rfl⟩
  | @binary t left right before after hl ho hr ihl ihr =>
    obtain ⟨hgl, hgr, fl, fr⟩ := hg.operands ho
    have ht : min < t.kind.precedence := ha t.kind ho.2
    have hleft : left.ClosedTo (lead (t :: (after ++ rest))) := (Node.fitsLeft_iff hgl ho.pos).1 fl
    rw [List.append_assoc, List.cons_append]
    by_cases hdl : depth < left.nesting
    · exact ihl hgl (fl.above ht) hleft hdl
    · have hpos := left.nesting_pos
      simp only [Node.nesting] at hd
      obtain ⟨d, rfl⟩ := Nat.exists_eq_add_one_of_ne_zero (n := depth) (by omega)
      obtain ⟨u, us, he⟩ := @ihr d _ rest hgr (Node.fitsRight_iff.1 fr) hc.2 (by omega)
      rw [expression_yields hl hgl (fl.above ht) hleft (by omega), resume_operator ht ho.1, he]
      exact ⟨u, us, rfl⟩
  | @declaration opening name colon type equals isMutable value marks body hopen hm hname hcolon
      htype hequals hv ih =>
    cases depth with
    | zero => exact ⟨_, _, rfl⟩
    | succ d =>
      have hgv : value.Grouped := by cases hg; assumption
      have hlead : lead rest = 0 := hc
      simp only [Node.nesting] at hd
      obtain ⟨u, us, he⟩ := @ih d 0 rest hgv hgv.above_zero (hlead ▸ hgv.closedTo_zero)
        (by omega)
      rw [List.cons_append, expression_cons (by simp [hopen]), List.append_assoc]
      simp only [List.cons_append]
      rw [operand_of_head hopen (by simp [hopen, standard]) hm hname hcolon htype hequals, he]
      exact ⟨u, us, rfl⟩

variable {nodes : List Node} {layouts : List (List Token)} {limit : Nat}

theorem lead_flatten (hy : List.Forall₂ Node.Yields nodes layouts) : lead layouts.flatten = 0 := by
  cases hy with
  | nil => rfl
  | cons h hs =>
    obtain ⟨t, us, rfl, ht, _⟩ := h.head
    exact ht

theorem atEnd_append (h : n.Yields ts) : atEnd (ts ++ rest) = false := by
  obtain ⟨t, us, rfl, _, ht⟩ := h.head
  simp [atEnd, ht]

theorem sequence_flatten (stop : Token) (hy : List.Forall₂ Node.Yields nodes layouts)
    (hg : ∀ n ∈ nodes, n.Grouped) (hd : ∀ n ∈ nodes, n.nesting ≤ limit) :
    sequence standard stop limit layouts.flatten = ⟨nodes, [], none⟩ := by
  induction hy with
  | nil => exact sequence_of_atEnd rfl
  | @cons n ts nodes layouts h hs ih =>
    have hgn := hg n (by simp)
    have hlead := lead_flatten hs
    have hdn := hd n (by simp)
    have hpos := n.nesting_pos
    obtain ⟨d, rfl⟩ := Nat.exists_eq_add_one_of_ne_zero (n := limit) (by omega)
    have he : expression standard stop (d + 1) 0 (ts ++ layouts.flatten) =
        .done n layouts.flatten := by
      rw [expression_yields h hgn hgn.above_zero (hlead ▸ hgn.closedTo_zero) hdn,
        resume_of_lead_le (by omega)]
    rw [List.flatten_cons, sequence_of_done (atEnd_append h) he,
      ih (fun n hn => hg n (by simp [hn])) (fun n hn => hd n (by simp [hn]))]

theorem sequence_tooDeep (stop : Token) (hy : List.Forall₂ Node.Yields nodes layouts)
    (hg : ∀ n ∈ nodes, n.Grouped) (hd : ∃ n ∈ nodes, limit < n.nesting) :
    ∃ t, (sequence standard stop limit layouts.flatten).fault = some (.rejected (.tooDeep t)) := by
  induction hy with
  | nil => simp at hd
  | @cons n ts nodes layouts h hs ih =>
    have hgn := hg n (by simp)
    have hlead := lead_flatten hs
    have hc : n.ClosedTo (lead layouts.flatten) := hlead ▸ hgn.closedTo_zero
    rw [List.flatten_cons]
    by_cases hdn : limit < n.nesting
    · obtain ⟨t, us, he⟩ := expression_tooDeep stop h hgn hgn.above_zero hc hdn
      rw [sequence_of_failed (atEnd_append h) he]
      exact ⟨t, rfl⟩
    · have hpos := n.nesting_pos
      obtain ⟨d, rfl⟩ := Nat.exists_eq_add_one_of_ne_zero (n := limit) (by omega)
      have he : expression standard stop (d + 1) 0 (ts ++ layouts.flatten) =
          .done n layouts.flatten := by
        rw [expression_yields h hgn hgn.above_zero hc (by omega), resume_of_lead_le (by omega)]
      rw [sequence_of_done (atEnd_append h) he]
      apply ih (fun n hn => hg n (by simp [hn]))
      obtain ⟨m, hm, hlt⟩ := hd
      rcases List.mem_cons.mp hm with rfl | hm
      · contradiction
      · exact ⟨m, hm, hlt⟩

end Grammar

/-- Any grouped trees, their tokens put one behind the other, are read back as they were, unless one
of them is nested deeper than the limit; and then that is what is reported. -/
theorem parse_flatten (s : ParseSession) (nodes : List Node) (layouts : List (List Token))
    (hgram : s.grammar = .standard) (ht : s.tokens = layouts.flatten)
    (hy : List.Forall₂ Node.Yields nodes layouts) (hg : ∀ n ∈ nodes, n.Grouped) :
    ((∃ e ∈ s.parse.2.errors, e.code = "P005") ↔ ∃ n ∈ nodes, s.limit < n.nesting) ∧
      ((∀ e ∈ s.parse.2.errors, e.code ≠ "P005") →
        s.parse.1 = .ok nodes ∧ s.parse.2.errors = [] ∧ s.parse.2.current = s.tokens.length) := by
  have hprog : s.grammar.program s.limit s.tokens =
      Grammar.sequence .standard (endToken s.tokens) s.limit layouts.flatten := by
    rw [hgram, ht]
    rfl
  by_cases hd : ∃ n ∈ nodes, s.limit < n.nesting
  · obtain ⟨t, hf⟩ := Grammar.sequence_tooDeep (endToken s.tokens) hy hg hd
    have herr : s.parse.2.errors = [.tooDeep t] := by
      simp [ParseSession.parse, hprog, hf]
    simp [herr, hd, SyntaxError.code]
  · have hle : ∀ n ∈ nodes, n.nesting ≤ s.limit := by
      intro n hn
      exact Nat.le_of_not_lt fun h => hd ⟨n, hn, h⟩
    have hseq := Grammar.sequence_flatten (endToken s.tokens) hy hg hle
    have hparse : s.parse = (.ok nodes, { s with current := s.tokens.length, errors := [] }) := by
      simp [ParseSession.parse, hprog, hseq, ParseSession.moveTo, ParseSession.rest]
    simp only [hparse]
    simp [hd]

/-- Trees of these tokens are there, so they are what is read. -/
theorem parse_flatten_nested : ∃ nodes, List.Forall₂ Node.Yields nodes nested ∧
    (∀ n ∈ nodes, n.Grouped) ∧ (ParseSession.start nested.flatten).parse.1 = .ok nodes ∧
    (ParseSession.start nested.flatten).parse.2.errors = [] := by
  have hex : ∃ nodes, List.Forall₂ Node.Yields nodes nested ∧ (∀ n ∈ nodes, n.Grouped) ∧
      ∀ n ∈ nodes, n.nesting ≤ nestingLimit := by
    constructor
    refine ⟨.cons (.binary (.identifier rfl) ⟨rfl, rfl⟩ (.declaration rfl
      (show Grammar.Marks true [_] from rfl) rfl rfl rfl rfl
      (.binary (.identifier rfl) ⟨rfl, rfl⟩
        (.binary (.identifier rfl) ⟨rfl, rfl⟩ (.identifier rfl)))))
      (.cons (.identifier rfl) .nil), ?_, ?_⟩
    · intro n hn
      rcases List.mem_cons.mp hn with rfl | hn
      · refine .binary _ ⟨rfl, rfl⟩ (.identifier _ _) (.declaration _ _ _ _ (.binary _ ⟨rfl, rfl⟩
          (.identifier _ _) (.binary _ ⟨rfl, rfl⟩ (.identifier _ _) (.identifier _ _) ?_ ?_) ?_ ?_))
          ?_ ?_
        all_goals clear hn; decide +kernel
      · cases List.mem_singleton.mp hn
        exact .identifier _ _
    · decide +kernel
  obtain ⟨nodes, hy, hg, hd⟩ := hex
  have h := parse_flatten (.start nested.flatten) nodes nested rfl rfl hy hg
  have hp : ¬ ∃ e ∈ (ParseSession.start nested.flatten).parse.2.errors, e.code = "P005" := by
    rw [h.1]
    intro hn
    obtain ⟨n, hn, hlt⟩ := hn
    exact absurd (hd n hn) (Nat.not_le_of_lt hlt)
  have hr := h.2 (fun e he hc => hp ⟨e, he, hc⟩)
  exact ⟨nodes, hy, hg, hr.1, hr.2.1⟩

end FrontEnd
