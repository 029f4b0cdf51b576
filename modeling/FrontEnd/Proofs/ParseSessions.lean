import FrontEnd.Proofs.Nesting
import FrontEnd.Proofs.Soundness

namespace FrontEnd

namespace Grammar

variable {ts us : List Token}

/-- Where the first token stands that marks the end; behind the last token if there is none. -/
def endIndex (ts : List Token) : Nat :=
  ts.findIdx (·.kind == .endOfInput)

theorem endIndex_eq_zero : endIndex ts = 0 ↔ atEnd ts = true := by
  cases ts with
  | nil => simp [endIndex, atEnd]
  | cons t rest => simp [endIndex, atEnd, List.findIdx_cons, cond_eq_ite]

/-- The end is as far away as before, less what was taken. -/
theorem Leaves.endIndex_eq (h : Leaves ts us) :
    endIndex ts = ts.length - us.length + endIndex us := by
  obtain ⟨taken, rfl, ht⟩ := h
  have hnone : taken.findIdx (·.kind == .endOfInput) = taken.length := by
    rw [List.findIdx_eq_length]
    simpa using ht
  rw [endIndex, List.findIdx_append, hnone, if_neg (Nat.lt_irrefl _), List.length_append,
    Nat.add_sub_cancel, Nat.add_comm]
  rfl

end Grammar

namespace ParseSession

open Grammar

/-- What a session can be asked for. -/
inductive Action where
  | parse
  | expression (min : Int)
  | advance
  | accept (kind : Kind)
  | expect (kind : Kind) (context : String)
  | check (kind : Kind)
  | peek
  | eraseStarter (kind : Kind)
  | eraseOperator (kind : Kind)

/-- It takes a rule away. -/
def Action.erases : Action → Bool
  | eraseStarter _ | eraseOperator _ => true
  | _ => false

/-- The session after an action, whether or not the action fails. -/
def perform (s : ParseSession) : Action → ParseSession
  | .parse => s.parse.2
  | .expression min => (s.expression min).2
  | .advance => s.advance.2
  | .accept kind => (s.accept kind).2
  | .expect kind context => (s.expect kind context).2
  | .check _ | .peek => s
  | .eraseStarter kind => (s.eraseStarter kind).2
  | .eraseOperator kind => (s.eraseOperator kind).2

def run (s : ParseSession) (actions : List Action) : ParseSession :=
  actions.foldl perform s

/-- The session with its rules and its limit, and nothing read yet. -/
def renewed (s : ParseSession) : ParseSession :=
  { s with current := 0, errors := [] }

/-- From one session to the next, tokens are taken of which none is an end. -/
def Advances (s s' : ParseSession) : Prop :=
  ∃ us, Leaves s.rest us ∧ s' = s.moveTo us

/-- From one session to the next, one token is taken, and it is no end. -/
def TakesOne (s s' : ParseSession) : Prop :=
  ∃ t us, s.rest = t :: us ∧ t.kind ≠ .endOfInput ∧ s' = s.moveTo us

variable {s s' : ParseSession} {tokens : List Token} {t : Token} {kind : Kind} {context : String}
  {min : Int} {n : Node} {action : Action} {fault : ParseFault}

theorem moveTo_rest (s : ParseSession) : s.moveTo s.rest = s := by
  simp [moveTo]

theorem Advances.of_eq (h : s' = s) : s.Advances s' :=
  ⟨s.rest, .refl _, h.trans s.moveTo_rest.symm⟩

theorem TakesOne.advances (h : s.TakesOne s') : s.Advances s' := by
  obtain ⟨t, us, hr, ht, hs⟩ := h
  exact ⟨us, hr ▸ leaves_cons ht, hs⟩

theorem TakesOne.current (h : s.TakesOne s') : s'.current = s.current + 1 := by
  obtain ⟨t, us, hr, _, rfl⟩ := h
  simp [moveTo, hr]

/-- Only a token that is no end is accepted, and then it is taken. -/
theorem accept_eq_true (h : (s.accept kind).1 = true) : s.TakesOne (s.accept kind).2 := by
  unfold accept at h ⊢
  split at h
  · rename_i t us ha
    obtain ⟨hr, _, ht⟩ := accept?_eq_some.1 ha
    exact ⟨t, us, hr, ht, rfl⟩
  · cases h

theorem accept_eq_false (h : (s.accept kind).1 = false) : (s.accept kind).2 = s := by
  unfold accept at h ⊢
  split at h
  · cases h
  · rfl

theorem expect_eq_ok (h : (s.expect kind context).1 = .ok t) :
    s.TakesOne (s.expect kind context).2 := by
  unfold expect at h ⊢
  split at h
  · rename_i t us he
    obtain ⟨hr, _, ht⟩ := expect_eq_done.1 he
    exact ⟨t, us, hr, ht, rfl⟩
  · cases h

theorem expect_eq_error (h : (s.expect kind context).1 = .error fault) :
    (s.expect kind context).2 = s := by
  unfold expect at h ⊢
  split at h
  · cases h
  · rename_i fault us he
    have hrest : us = s.rest := by
      unfold Grammar.expect at he
      split at he
      · cases he
      · cases he
        rfl
    rw [hrest]
    exact s.moveTo_rest

theorem advance_of_atEnd (h : s.atEnd = true) : s.advance.2 = s := by
  simp [advance, h]

theorem advance_of_not_atEnd (h : s.atEnd = false) : s.TakesOne s.advance.2 := by
  have hadvance : s.advance.2 = { s with current := s.current + 1 } := by simp [advance, h]
  unfold atEnd at h
  cases hr : s.rest with
  | nil => simp [hr, Grammar.atEnd] at h
  | cons t us =>
    have ht : t.kind ≠ .endOfInput := by simpa [hr, Grammar.atEnd] using h
    refine ⟨t, us, hr, ht, ?_⟩
    rw [hadvance]
    simp [moveTo, hr]

theorem expression_advances (s : ParseSession) (min : Int) : s.Advances (s.expression min).2 := by
  have hw : (s.grammar.expression s.stop s.limit min s.rest).Within s.rest := expression_within
  refine ⟨_, hw, ?_⟩
  unfold expression
  split
  · rename_i he
    rw [he]
    rfl
  · rename_i he
    rw [he]
    rfl

/-- An expression that was read took a token. -/
theorem current_lt_expression (h : (s.expression min).1 = .ok n) :
    s.current < (s.expression min).2.current := by
  unfold expression at h ⊢
  split at h
  · rename_i he
    have hlt := length_rest_expression_lt he
    simp only [moveTo]
    omega
  · cases h

/-- An action reads all, or takes a rule away, or goes on without passing an end. -/
theorem perform_cases (s : ParseSession) (action : Action) :
    action = .parse ∨ action.erases = true ∨ s.Advances (s.perform action) := by
  cases action with
  | parse => exact .inl rfl
  | eraseStarter | eraseOperator => exact .inr (.inl rfl)
  | check | peek => exact .inr (.inr (.of_eq rfl))
  | expression min => exact .inr (.inr (s.expression_advances min))
  | advance =>
    cases he : s.atEnd with
    | true => exact .inr (.inr (.of_eq (advance_of_atEnd he)))
    | false => exact .inr (.inr (advance_of_not_atEnd he).advances)
  | accept kind =>
    cases ha : (s.accept kind).1 with
    | true => exact .inr (.inr (accept_eq_true ha).advances)
    | false => exact .inr (.inr (.of_eq (accept_eq_false ha)))
  | expect kind context =>
    cases hx : (s.expect kind context).1 with
    | ok t => exact .inr (.inr (expect_eq_ok hx).advances)
    | error fault => exact .inr (.inr (.of_eq (expect_eq_error hx)))

/-- Taking a rule away does nothing else. -/
theorem perform_erases (h : action.erases = true) :
    ∃ g, s.perform action = { s with grammar := g } ∧
      s.renewed.perform action = { s.renewed with grammar := g } := by
  cases action <;> first | exact ⟨_, rfl, rfl⟩ | cases h

/-- A whole reading begins anew, and takes tokens of which none is an end. -/
theorem parse_cases (s : ParseSession) : ∃ us errors, Leaves s.tokens us ∧ errors.length ≤ 1 ∧
    s.parse.2 = { s with current := s.tokens.length - us.length, errors := errors } ∧
    ∀ nodes, s.parse.1 = .ok nodes → errors = [] → Grammar.atEnd us = true := by
  have hl : Leaves s.tokens (s.grammar.program s.limit s.tokens).rest := sequence_leaves
  have hend : (s.grammar.program s.limit s.tokens).fault = none → _ := atEnd_sequence
  unfold parse
  dsimp only
  split
  · rename_i hf
    refine ⟨_, [], hl, by simp, ?_, fun _ _ _ => hend hf⟩
    simp [moveTo, rest]
  · rename_i e hf
    refine ⟨_, [e], hl, by simp, ?_, by simp⟩
    simp [moveTo, rest]
  · refine ⟨_, [], hl, by simp, ?_, by simp⟩
    simp [moveTo, rest]

/-- The session stands among its tokens, no end is behind it, and no more than one error is
recorded. -/
structure Sound (s : ParseSession) (tokens : List Token) : Prop where
  same : s.tokens = tokens
  current_le : s.current ≤ tokens.length
  leaves : Leaves tokens s.rest
  errors : s.errors.length ≤ 1

theorem Sound.endIndex_eq (h : s.Sound tokens) : endIndex tokens = s.current + endIndex s.rest := by
  have hlen : tokens.length - s.rest.length = s.current := by
    have hle := h.current_le
    rw [rest, h.same, List.length_drop]
    omega
  rw [h.leaves.endIndex_eq, hlen]

theorem Sound.atEnd_iff (h : s.Sound tokens) : s.atEnd = true ↔ s.current = endIndex tokens := by
  rw [atEnd, ← endIndex_eq_zero, h.endIndex_eq]
  omega

theorem Sound.current_lt (h : s.Sound tokens) (ht : s.TakesOne s') :
    s.current < endIndex tokens := by
  obtain ⟨t, us, hr, hk, _⟩ := ht
  have hend : ¬ s.atEnd = true := by simp [atEnd, hr, Grammar.atEnd, hk]
  have heq := h.endIndex_eq
  rw [h.atEnd_iff] at hend
  omega

theorem Sound.advances (h : s.Sound tokens) (ha : s.Advances s') : s'.Sound tokens := by
  obtain ⟨us, hl, rfl⟩ := ha
  obtain ⟨taken, hr, _⟩ := id hl
  have hlen : s.rest.length = tokens.length - s.current := by
    rw [rest, h.same, List.length_drop]
  have hle := h.current_le
  refine ⟨h.same, ?_, ?_, h.errors⟩
  · simp only [moveTo]
    omega
  · rw [rest_moveTo hr]
    exact h.leaves.trans hl

theorem Sound.parse (h : s.Sound tokens) : s.parse.2.Sound tokens := by
  obtain ⟨us, errors, hl, he, hs, _⟩ := s.parse_cases
  have hdrop := List.suffix_iff_eq_drop.1 hl.suffix
  rw [hs]
  refine ⟨h.same, ?_, ?_, he⟩
  · rw [← h.same]
    exact Nat.sub_le _ _
  · rw [rest, ← h.same, ← hdrop]
    exact hl

theorem Sound.perform (h : s.Sound tokens) (action : Action) : (s.perform action).Sound tokens := by
  obtain rfl | he | ha := s.perform_cases action
  · exact h.parse
  · obtain ⟨g, hs, _⟩ := perform_erases he
    rw [hs]
    exact ⟨h.same, h.current_le, h.leaves, h.errors⟩
  · exact h.advances ha

theorem Sound.run (h : s.Sound tokens) (actions : List Action) : (s.run actions).Sound tokens := by
  induction actions generalizing s with
  | nil => exact h
  | cons action actions ih => exact ih (h.perform action)

theorem start_sound (tokens : List Token) (limit : Nat) :
    ((start tokens).withLimit limit).Sound tokens :=
  ⟨rfl, Nat.zero_le _, .refl tokens, Nat.zero_le _⟩

/-- Nothing but a whole reading goes back or changes the errors. -/
theorem perform_forward (s : ParseSession) (h : action ≠ .parse) :
    s.current ≤ (s.perform action).current ∧ (s.perform action).errors = s.errors := by
  obtain rfl | he | ⟨us, _, hs⟩ := s.perform_cases action
  · contradiction
  · obtain ⟨g, hs, _⟩ := perform_erases he
    rw [hs]
    exact ⟨Nat.le_refl _, rfl⟩
  · rw [hs]
    exact ⟨Nat.le_add_right _ _, rfl⟩

theorem renewed_perform (s : ParseSession) (h : action.erases = false) :
    (s.perform action).renewed = s.renewed := by
  obtain rfl | he | ⟨us, _, hs⟩ := s.perform_cases action
  · obtain ⟨us, errors, _, _, hs, _⟩ := s.parse_cases
    exact (congrArg renewed hs :)
  · rw [he] at h
    cases h
  · exact (congrArg renewed hs :)

theorem renewed_erases (s : ParseSession) (h : action.erases = true) :
    (s.perform action).renewed = s.renewed.perform action := by
  obtain ⟨g, hs, hn⟩ := perform_erases h
  rw [hs, hn]
  rfl

/-- Begun anew, a session is as if nothing but the taking away of rules had been done. -/
theorem renewed_run (s : ParseSession) (actions : List Action) :
    (s.run actions).renewed = s.renewed.run (actions.filter Action.erases) := by
  induction actions generalizing s with
  | nil => rfl
  | cons action actions ih =>
    have hrun : (s.run (action :: actions)).renewed = _ := ih (s.perform action)
    cases he : action.erases with
    | true =>
      rw [hrun, s.renewed_erases he, List.filter_cons_of_pos he]
      rfl
    | false => rw [hrun, s.renewed_perform he, List.filter_cons_of_neg (by simp [he])]

/-- A whole reading begins the session anew. -/
theorem parse_renewed (s : ParseSession) : s.renewed.parse = s.parse := rfl

end ParseSession

/-- Whatever was done in a session, and whatever of it failed: the session stands at the first end
among its tokens or in front of it, with one error at most. Single steps never go back, and
they leave the errors as they are; one that takes a token takes exactly one, short of the end, or
else does nothing, and an expression that is read takes one at least. Where all is read without an
error, the session is at the end, and a whole reading is that of a new session from which the same
rules were taken away. -/
theorem parse_session (tokens : List Token) (limit : Nat) (actions : List ParseSession.Action)
    (s : ParseSession) (h : ((ParseSession.start tokens).withLimit limit).run actions = s) :
    s.current ≤ Grammar.endIndex tokens ∧ s.errors.length ≤ 1 ∧
      (∀ action, action ≠ .parse →
        s.current ≤ (s.perform action).current ∧ (s.perform action).errors = s.errors) ∧
      (s.current < Grammar.endIndex tokens → s.advance.2.current = s.current + 1) ∧
      (∀ kind, (s.accept kind).1 = true → s.current < Grammar.endIndex tokens ∧
        (s.accept kind).2.current = s.current + 1) ∧
      (∀ kind, (s.accept kind).1 = false → (s.accept kind).2 = s) ∧
      (∀ kind context t, (s.expect kind context).1 = .ok t →
        s.current < Grammar.endIndex tokens ∧ (s.expect kind context).2.current = s.current + 1) ∧
      (∀ kind context fault, (s.expect kind context).1 = .error fault →
        (s.expect kind context).2 = s) ∧
      (∀ min n, (s.expression min).1 = .ok n → s.current < (s.expression min).2.current) ∧
      (Automaton.Readable tokens → ∃ nodes, s.parse.1 = .ok nodes) ∧
      (∀ nodes, s.parse.1 = .ok nodes → s.parse.2.errors = [] →
        s.parse.2.current = Grammar.endIndex tokens) ∧
      s.parse = (((ParseSession.start tokens).withLimit limit).run
        (actions.filter ParseSession.Action.erases)).parse := by
  have hs : s.Sound tokens := h ▸ (ParseSession.start_sound tokens limit).run actions
  have hend := hs.endIndex_eq
  refine ⟨by omega, hs.errors, fun action ha => s.perform_forward ha, ?_, ?_,
    fun kind hk => ParseSession.accept_eq_false hk, ?_,
    fun kind context fault hx => ParseSession.expect_eq_error hx,
    fun min n hn => ParseSession.current_lt_expression hn, ?_, ?_, ?_⟩
  · intro hlt
    have hne : s.atEnd = false := by
      rw [← Bool.not_eq_true, hs.atEnd_iff]
      omega
    exact (ParseSession.advance_of_not_atEnd hne).current
  · intro kind hk
    have ht := ParseSession.accept_eq_true hk
    exact ⟨hs.current_lt ht, ht.current⟩
  · intro kind context t hx
    have ht := ParseSession.expect_eq_ok hx
    exact ⟨hs.current_lt ht, ht.current⟩
  · intro hr
    exact ⟨_, ParseSession.parse_statements (hs.same ▸ hr)⟩
  · intro nodes hn he
    obtain ⟨us, errors, hl, _, hp, hdone⟩ := s.parse_cases
    rw [hp] at he ⊢
    have hzero := Grammar.endIndex_eq_zero.2 (hdone nodes hn he)
    rw [← hs.same, hl.endIndex_eq, hzero]
    rfl
  · rw [← s.parse_renewed, ← h, ParseSession.renewed_run]
    rfl

/-- The tokens of `a b - c`, an end, and one token behind it. -/
def closedEarly : List Token :=
  [⟨.identifier, "a", .null, .origin⟩, ⟨.identifier, "b", .null, .origin⟩,
    ⟨.minus, "-", .null, .origin⟩, ⟨.identifier, "c", .null, .origin⟩,
    ⟨.endOfInput, "", .null, .origin⟩, ⟨.identifier, "d", .null, .origin⟩]

/-- At a power below zero the name `b` is taken for an operator, and refused. Without the rule for
`-` all is read up to it, and then only `c` can be taken. -/
theorem parse_session_closedEarly : ∃ s,
    ((ParseSession.start closedEarly).withLimit 9).run [.expression (-1), .eraseOperator .minus,
      .parse, .advance, .advance] = s ∧
    s.current = 4 ∧ s.current ≤ Grammar.endIndex closedEarly ∧ Grammar.endIndex closedEarly = 4 ∧
    s.errors = [.invalidOperator ⟨.minus, "-", .null, .origin⟩] ∧
    (s.perform (.expression (-1))).errors = s.errors ∧ (s.accept .identifier).2 = s ∧
    Automaton.Readable closedEarly ∧ (∃ nodes, s.parse.1 = .ok nodes) ∧
    s.parse =
      (((ParseSession.start closedEarly).withLimit 9).run [.eraseOperator .minus]).parse := by
  have hr : Automaton.Readable closedEarly := by
    unfold Automaton.Readable
    decide +kernel
  have hend : Grammar.endIndex closedEarly = 4 := by decide
  generalize hs : ((ParseSession.start closedEarly).withLimit 9).run [.expression (-1),
    .eraseOperator .minus, .parse, .advance, .advance] = s
  have hcurrent : s.current = 4 := by
    subst hs
    decide +kernel
  have herrors : s.errors = [.invalidOperator ⟨.minus, "-", .null, .origin⟩] := by
    subst hs
    decide +kernel
  have hno : (s.accept .identifier).1 = false := by
    subst hs
    decide +kernel
  obtain ⟨hle, _, hforward, _, _, hstays, _, _, _, hreads, _, hfresh⟩ :=
    parse_session closedEarly 9 _ s hs
  have hkeeps := (hforward (.expression (-1)) (by simp)).2
  exact ⟨s, rfl, hcurrent, hle, hend, herrors, hkeeps, hstays _ hno, hr, hreads hr, hfresh⟩

end FrontEnd
