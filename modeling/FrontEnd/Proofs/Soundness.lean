import FrontEnd.Grammar.Session
import FrontEnd.Proofs.Yield

namespace FrontEnd

/-- Operators in the text are written as their kind is. -/
def Spelled (ts : List Token) : Prop :=
  ∀ t ∈ ts, t.kind.level?.isSome → Kind.ofOperator? t.lexeme = some t.kind

theorem Spelled.suffix (h : Spelled ts) (hu : us <:+ ts) : Spelled us :=
  fun t ht => h t (hu.mem ht)

namespace Grammar

/-- The tree `n` of the tokens `taken`, as it stands before `rest` for a reader of operators
stronger than `min`. -/
structure Settled (min : Int) (n : Node) (taken rest : List Token) : Prop where
  yields : n.Yields taken
  grouped : n.Grouped
  above : n.Above min
  closed : n.ClosedTo (lead rest)

variable {g : Grammar} {stop t : Token} {depth : Nat} {min : Int} {n left right : Node}
  {ts us rest taken : List Token}

/-- What was read from `ts` up to `rest`. -/
def Sound (min : Int) (n : Node) (ts rest : List Token) : Prop :=
  ∃ taken, ts = taken ++ rest ∧ Settled min n taken rest

/-- Around an operator that both sides were read for, the tree is grouped again. -/
theorem Settled.binary (hl : Settled min left taken (t :: rest)) (ht : min < t.kind.precedence)
    (hpos : 0 < t.kind.precedence) (hs : t.kind.Spells t.lexeme)
    (hr : Settled t.kind.rightPower right more us) (hlead : lead us ≤ t.kind.rightPower) :
    Settled min (.binary t.span t.lexeme (some left) (some right)) (taken ++ t :: more) us where
  yields := .binary hl.yields hs hr.yields
  grouped := .binary t.span hs hl.grouped hr.grouped
    ((Node.fitsLeft_iff hl.grouped hpos).2 hl.closed) (Node.fitsRight_iff.2 hr.above)
  above := by
    intro q hq
    have : t.kind = q := Option.some.inj (hs.2.symm.trans hq)
    exact this ▸ ht
  closed := by
    refine ⟨?_, hr.closed⟩
    intro q hq
    have : t.kind = q := Option.some.inj (hs.2.symm.trans hq)
    exact this ▸ hlead

theorem operand_sound (hi : ∀ n us rest, Spelled us →
      expression g stop depth 0 us = .done n rest → Sound 0 n us rest)
    (hs : Spelled ts) (h : operand g stop (expression g stop depth) t ts = .done n rest) :
    ∃ taken, t :: ts = taken ++ rest ∧ Settled min n taken rest := by
  unfold operand at h
  split at h
  · simp at h
  · split at h
    · rename_i hk
      split at h
      · rename_i v hv
        cases h
        exact ⟨[t], rfl, .number hk hv, .number _ _, Node.above_of_none rfl, trivial⟩
      · simp at h
    · rename_i hk
      cases h
      exact ⟨[t], rfl, .string hk, .string _ _, Node.above_of_none rfl, trivial⟩
    · rename_i hk
      cases h
      exact ⟨[t], rfl, .identifier hk, .identifier _ _, Node.above_of_none rfl, trivial⟩
    · rename_i hk
      obtain ⟨isMutable, marks, name, colon, type, equals, body, value, hm, rfl, hn, hc, hy, he, hv,
        rfl⟩ := declaration_eq_done h
      have hsuffix : body <:+ marks ++ name :: colon :: type :: equals :: body :=
        ⟨marks ++ [name, colon, type, equals], by simp⟩
      have hlead := lead_le_of_expression (by decide) hv
      obtain ⟨more, rfl, hset⟩ := hi value body rest (hs.suffix hsuffix) hv
      refine ⟨t :: (marks ++ name :: colon :: type :: equals :: more), by simp, ?_, ?_, ?_, ?_⟩
      · exact .declaration hk hm hn hc hy he hset.yields
      · exact .declaration _ _ _ _ hset.grouped
      · exact Node.above_of_none rfl
      · show lead rest = 0
        omega
    · simp at h

theorem resume_sound (hmin : 0 ≤ min)
    (hi : ∀ min n us rest, 0 ≤ min → Spelled us → expression g stop depth min us = .done n rest →
      Sound min n us rest)
    (hs : Spelled ts) (hl : Settled min left taken ts)
    (h : resume g stop depth min left ts = .done n rest) :
    ∃ more, ts = more ++ rest ∧ Settled min n (taken ++ more) rest := by
  induction left, ts using resume_induction g stop depth min generalizing taken with
  | stops left ts hend he =>
    rw [he] at h
    cases h
    exact ⟨[], rfl, by simpa using hl⟩
  | refuses left t us _ _ _ he | breaks left t us _ _ _ _ he =>
    rw [he] at h
    cases h
  | grows left t us right mid ht hr he ih =>
    rw [he] at h
    have hpos : 0 < t.kind.precedence := by have := ht.stronger; omega
    have hlevel := (Kind.precedence_pos_iff t.kind).1 hpos
    -- what stopped the right operand does not exceed the power it was read at, so the new tree is
    -- closed to it too
    have hright := Kind.rightPower_nonneg t.kind
    have hlead := lead_le_of_expression hright hr
    have hus := hs.suffix (List.suffix_cons t us)
    obtain ⟨more, rfl, hset⟩ := hi _ right us mid hright hus hr
    have hbin := hl.binary ht.stronger hpos ⟨hlevel, hs t (by simp) hlevel⟩ hset hlead
    obtain ⟨last, rfl, hn⟩ := ih (hus.suffix (List.suffix_append more mid)) hbin h
    exact ⟨t :: more ++ last, by simp, by simpa using hn⟩

theorem expression_settled (hmin : 0 ≤ min) (hs : Spelled ts)
    (h : expression g stop depth min ts = .done n rest) : Sound min n ts rest := by
  induction depth generalizing min n ts rest with
  | zero => simp [expression] at h
  | succ depth ih =>
    obtain ⟨d, t, us, left, mid, hd, rfl, ho, hr⟩ := expression_eq_done h
    cases hd
    have hus := hs.suffix (List.suffix_cons t us)
    have hmid := ((operand_within fun _ _ => expression_within).of_done ho).suffix
    obtain ⟨taken, ht, hl⟩ := operand_sound (fun _ _ _ hs h => ih (by simp) hs h) hus ho
    obtain ⟨more, rfl, hn⟩ :=
      resume_sound hmin (fun _ _ _ _ hm hs h => ih hm hs h) (hus.suffix hmid) hl hr
    exact ⟨taken ++ more, by simpa using ht, hn⟩

end Grammar

namespace ParseSession

variable {s : ParseSession} {rest taken : List Token}

theorem rest_moveTo (h : s.rest = taken ++ rest) : (s.moveTo rest).rest = rest := by
  have hlen : s.rest.length - rest.length = taken.length := by simp [h]
  change s.tokens.drop (s.current + (s.rest.length - rest.length)) = rest
  rw [hlen, ← List.drop_drop]
  change s.rest.drop taken.length = rest
  rw [h, List.drop_left]

theorem taken_moveTo (h : s.rest = taken ++ rest) :
    (s.tokens.take (s.moveTo rest).current).drop s.current = taken := by
  have hlen : s.rest.length - rest.length = taken.length := by simp [h]
  simp only [moveTo, hlen]
  rw [List.drop_take, Nat.add_sub_cancel_left]
  change s.rest.take taken.length = taken
  rw [h, List.take_left]

end ParseSession

/-- An expression read from anywhere in a row of tokens is the tree of the tokens taken. Its
operators are grouped by their precedence, the one at the root is stronger than the power it was
read at, and neither the whole tree nor an operand at its right edge could have taken more. -/
theorem expression_sound (s s' : ParseSession) (min : Int) (n : Node) (hmin : 0 ≤ min)
    (hs : Spelled s.tokens) (h : s.expression min = (.ok n, s')) :
    s.current < s'.current ∧ s'.current ≤ s.tokens.length ∧
      n.Yields ((s.tokens.take s'.current).drop s.current) ∧ n.Grouped ∧ n.Above min ∧
      Grammar.lead s'.rest ≤ min ∧ n.ClosedTo (Grammar.lead s'.rest) := by
  unfold ParseSession.expression at h
  cases hr : s.grammar.expression s.stop s.limit min s.rest with
  | failed fault rest => simp [hr] at h
  | done node rest =>
    simp only [hr, Prod.mk.injEq, Except.ok.injEq] at h
    obtain ⟨rfl, rfl⟩ := h
    have hlead := Grammar.lead_le_of_expression hmin hr
    obtain ⟨taken, ht, hn⟩ :=
      Grammar.expression_settled hmin (hs.suffix (List.drop_suffix _ _)) hr
    rw [ParseSession.taken_moveTo ht, ParseSession.rest_moveTo ht]
    obtain ⟨t, us, rfl, _⟩ := hn.yields.head
    have hlen := congrArg List.length ht
    simp only [List.length_drop, List.length_append, List.length_cons] at hlen
    refine ⟨?_, ?_, hn.yields, hn.grouped, hn.above, hlead, hn.closed⟩
    · simp only [ParseSession.moveTo, ParseSession.rest, List.length_drop]
      omega
    · simp only [ParseSession.moveTo, ParseSession.rest, List.length_drop]
      omega

/-- The first statement is read from its first token up to the name behind it. -/
theorem expression_sound_nested : (0 : Int) ≤ 0 ∧ Spelled nested.flatten ∧ ∃ n s',
    (ParseSession.start nested.flatten).expression 0 = (.ok n, s') ∧ s'.current = 13 ∧
      n.Yields ((nested.flatten.take 13).drop 0) ∧ n.Grouped := by
  have hs : Spelled nested.flatten := by
    unfold Spelled
    decide +kernel
  have hn : ∃ n, (ParseSession.start nested.flatten).expression 0 =
      (.ok n, { ParseSession.start nested.flatten with current := 13 }) := ⟨_, rfl⟩
  obtain ⟨n, hn⟩ := hn
  have h := expression_sound _ _ 0 n (by decide) hs hn
  exact ⟨by decide, hs, n, _, hn, rfl, h.2.2.1, h.2.2.2.1⟩

end FrontEnd
