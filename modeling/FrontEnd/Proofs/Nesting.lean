import FrontEnd.Proofs.Automaton

namespace FrontEnd

variable {ts us mid rest : List Token} {t op : Token}

namespace Reading

variable {α β : Type} {r r' : Reading α} {next next' : α → List Token → Reading β} {a : α}

/-- It failed because too many expressions were open. -/
def TooDeep (r : Reading α) : Prop :=
  ∃ t rest, r = failed (.rejected (.tooDeep t)) rest

theorem not_tooDeep_done : ¬ (done a rest).TooDeep := by
  intro h
  obtain ⟨_, _, h⟩ := h
  cases h

theorem TooDeep.bind (h : r.TooDeep) : (r.bind next).TooDeep := by
  obtain ⟨found, left, rfl⟩ := h
  exact ⟨found, left, rfl⟩

theorem tooDeep_bind (h : (r.bind next).TooDeep) :
    r.TooDeep ∨ ∃ a mid, r = done a mid ∧ (next a mid).TooDeep := by
  cases r with
  | done a mid => exact .inr ⟨a, mid, rfl, h⟩
  | failed fault mid =>
    obtain ⟨_, _, h⟩ := h
    cases h
    exact .inl ⟨_, _, rfl⟩

theorem not_tooDeep_bind (h : ¬ r.TooDeep) (hn : ∀ a mid, ¬ (next a mid).TooDeep) :
    ¬ (r.bind next).TooDeep := by
  intro hb
  obtain hr | ⟨a, mid, _, ha⟩ := tooDeep_bind hb
  · exact h hr
  · exact hn a mid ha

/-- The first reading is the second one, if it was not cut off for being too deep. -/
def Cut (r r' : Reading α) : Prop :=
  r.TooDeep ∨ r = r'

theorem Cut.done (h : r.Cut r') (hd : r = done a rest) : r' = done a rest := by
  rcases h with h | h
  · rw [hd] at h
    exact absurd h not_tooDeep_done
  · exact h ▸ hd

theorem Cut.bind (h : r.Cut r') (hn : ∀ a mid, r = .done a mid → (next a mid).Cut (next' a mid)) :
    (r.bind next).Cut (r'.bind next') := by
  rcases h with h | rfl
  · exact .inl h.bind
  · cases r with
    | done a mid => exact hn a mid rfl
    | failed fault mid => exact .inr rfl

/-- What is read without a limit may be cut off within one, and then the whole is. -/
theorem Cut.tooDeep_bind (h : r.Cut r') (hd : r' = .done a rest) (hn : (next a rest).TooDeep) :
    (r.bind next).TooDeep := by
  rcases h with h | rfl
  · exact h.bind
  · rw [hd]
    exact hn

end Reading

namespace Grammar

variable {g : Grammar} {stop : Token} {depth depth' rounds n : Nat} {min min' : Int}
  {inner inner' : Int → List Token → Reading Node} {left left' : Node}

theorem operand_cut (hi : ∀ us, (inner 0 us).Cut (inner' 0 us)) :
    (operand g stop inner t ts).Cut (operand g stop inner' t ts) := by
  unfold operand
  split
  · exact .inr rfl
  · split
    · exact .inr rfl
    · exact .inr rfl
    · exact .inr rfl
    · exact Reading.Cut.bind (.inr rfl) fun _ mid _ => (hi mid).bind fun _ _ _ => .inr rfl
    · exact .inr rfl

theorem climb_cut (hi : ∀ min us, (inner min us).Cut (inner' min us)) :
    (climb g inner min rounds left ts).Cut (climb g inner' min rounds left ts) := by
  induction rounds generalizing left ts with
  | zero => cases ts <;> exact .inr rfl
  | succ rounds ih =>
    cases ts with
    | nil => exact .inr rfl
    | cons t rest =>
      simp only [climb]
      split
      · exact .inr rfl
      · split
        · exact .inr rfl
        · exact (hi _ rest).bind fun _ _ _ => ih

/-- A higher limit changes nothing but readings that were cut off. -/
theorem expression_cut (h : depth ≤ depth') :
    (expression g stop depth min ts).Cut (expression g stop depth' min ts) := by
  induction depth generalizing depth' min ts with
  | zero => exact .inl ⟨_, _, rfl⟩
  | succ depth ih =>
    obtain ⟨depth', rfl⟩ := Nat.exists_eq_add_one_of_ne_zero (Nat.ne_zero_of_lt h)
    have hi : ∀ min us, (expression g stop depth min us).Cut (expression g stop depth' min us) :=
      fun _ _ => ih (by omega)
    cases ts with
    | nil => exact .inr rfl
    | cons t rest =>
      by_cases he : t.kind = .endOfInput
      · exact .inr (by simp [expression, he])
      · rw [expression_cons he, expression_cons he]
        exact (operand_cut (hi 0)).bind fun _ _ _ => climb_cut hi

/-- From a tree and the tokens behind it reading goes on, by operators stronger than `min` with
their right operands, to a larger tree. -/
inductive Grows (g : Grammar) (inner : Int → List Token → Reading Node) (min : Int) :
    Node → List Token → Node → List Token → Prop
  | refl (left : Node) (ts : List Token) : Grows g inner min left ts left ts
  | step {t : Token} {rest mid us : List Token} {left right left' : Node} (ht : Takes g min t)
      (hr : inner t.kind.rightPower rest = .done right mid)
      (hm : Grows g inner min (.binary t.span t.lexeme (some left) (some right)) mid left' us) :
      Grows g inner min left (t :: rest) left' us

/-- While an expression is read, another one is begun: for the initial value of a declaration, or
for the right operand of an operator. -/
inductive Calls (g : Grammar) (stop : Token) (inner : Int → List Token → Reading Node) :
    Int → List Token → Int → List Token → Prop
  | value {opening name colon type equals : Token} {isMutable : Bool} {marks us : List Token}
      {min : Int} (hk : opening.kind = .newWord) (hg : opening.kind ∈ g.starters)
      (hm : Marks isMutable marks) (hn : name.kind = .identifier) (hc : colon.kind = .colon)
      (hy : type.kind = .identifier) (he : equals.kind = .assign) :
      Calls g stop inner min (opening :: (marks ++ name :: colon :: type :: equals :: us)) 0 us
  | right {t op : Token} {rest mid us : List Token} {left left' : Node} {min : Int}
      (hk : t.kind ≠ .endOfInput) (ho : operand g stop inner t rest = .done left mid)
      (hg : Grows g inner min left mid left' (op :: us)) (ht : Takes g min op) :
      Calls g stop inner min (t :: rest) op.kind.rightPower us

theorem Grows.leaves (hi : ∀ min ts, (inner min ts).Within ts)
    (h : Grows g inner min left ts left' us) : Leaves ts us := by
  induction h with
  | refl left ts => exact .refl ts
  | step ht hr hm ih => exact (leaves_cons ht.stays).trans (((hi _ _).of_done hr).trans ih)

theorem Calls.length_lt (hi : ∀ min ts, (inner min ts).Within ts)
    (h : Calls g stop inner min ts min' us) : us.length < ts.length := by
  cases h with
  | value =>
    simp only [List.length_cons, List.length_append]
    omega
  | right hk ho hg ht =>
    have hus := (((operand_within hi).of_done ho).trans (hg.leaves hi)).length_le
    simp only [List.length_cons] at hus ⊢
    omega

theorem Grows.cut (hi : ∀ min us, (inner min us).Cut (inner' min us))
    (h : Grows g inner min left ts left' us) : Grows g inner' min left ts left' us := by
  induction h with
  | refl left ts => exact .refl left ts
  | step ht hr hm ih => exact .step ht ((hi _ _).done hr) ih

/-- What is begun within a limit is begun without it. -/
theorem Calls.cut (hi : ∀ min us, (inner min us).Cut (inner' min us))
    (h : Calls g stop inner min ts min' us) : Calls g stop inner' min ts min' us := by
  cases h with
  | value hk hg hm hn hc hy he => exact .value hk hg hm hn hc hy he
  | right hk ho hg ht => exact .right hk ((operand_cut (hi 0)).done ho) (hg.cut hi) ht

theorem not_tooDeep_expect {kind : Kind} {context : String} :
    ¬ (expect stop kind context ts).TooDeep := by
  intro h
  obtain ⟨t, rest, h⟩ := h
  unfold expect at h
  split at h <;> cases h

theorem not_tooDeep_head {isMutable : Bool} : ¬ (head stop isMutable ts).TooDeep := by
  unfold head
  refine Reading.not_tooDeep_bind not_tooDeep_expect fun _ _ => ?_
  refine Reading.not_tooDeep_bind not_tooDeep_expect fun _ _ => ?_
  refine Reading.not_tooDeep_bind not_tooDeep_expect fun _ _ => ?_
  refine Reading.not_tooDeep_bind not_tooDeep_expect fun _ _ => ?_
  exact Reading.not_tooDeep_done

/-- Of the operands only the initial value of a declaration can be too deep. -/
theorem calls_of_operand (h : (operand g stop inner t ts).TooDeep) :
    ∃ us, (∀ min, Calls g stop inner min (t :: ts) 0 us) ∧ (inner 0 us).TooDeep := by
  unfold operand at h
  split at h
  · obtain ⟨_, _, h⟩ := h
    cases h
  · rename_i hg
    split at h
    · split at h <;> obtain ⟨_, _, h⟩ := h <;> cases h
    · exact absurd h Reading.not_tooDeep_done
    · exact absurd h Reading.not_tooDeep_done
    · rename_i hk
      obtain ⟨isMutable, marks, vs, hm, rfl, he⟩ := declaration_cases stop inner t ts
      rw [he, body] at h
      obtain hhead | ⟨_, us, hhead, hvalue⟩ := Reading.tooDeep_bind h
      · exact absurd hhead not_tooDeep_head
      obtain ⟨name, colon, type, equals, rfl, hn, hc, hy, he, _⟩ := head_eq_done.1 hhead
      obtain h | ⟨_, _, _, h⟩ := Reading.tooDeep_bind hvalue
      · exact ⟨us, fun _ => .value hk (Classical.not_not.1 hg) hm hn hc hy he, h⟩
      · exact absurd h Reading.not_tooDeep_done
    · obtain ⟨_, _, h⟩ := h
      cases h

theorem grows_of_resume (h : (resume g stop depth min left ts).TooDeep) :
    ∃ left' op us, Grows g (expression g stop depth) min left ts left' (op :: us) ∧
      Takes g min op ∧ (expression g stop depth op.kind.rightPower us).TooDeep := by
  induction left, ts using resume_induction g stop depth min with
  | stops left ts _ he =>
    rw [he] at h
    exact absurd h Reading.not_tooDeep_done
  | refuses left t us _ _ _ he =>
    rw [he] at h
    obtain ⟨_, _, h⟩ := h
    cases h
  | breaks left t us fault mid ht hr he =>
    rw [he, ← hr] at h
    exact ⟨left, t, us, .refl _ _, ht, h⟩
  | grows left t us right mid ht hr he ih =>
    rw [he] at h
    obtain ⟨left', op, vs, hg, ho, hdeep⟩ := ih h
    exact ⟨left', op, vs, .step ht hr hg, ho, hdeep⟩

/-- What is too deep has begun an expression that is too deep. -/
theorem calls_of_tooDeep (h : (expression g stop (depth + 1) min ts).TooDeep) :
    ∃ min' us, Calls g stop (expression g stop depth) min ts min' us ∧
      (expression g stop depth min' us).TooDeep := by
  cases ts with
  | nil =>
    obtain ⟨_, _, h⟩ := h
    cases h
  | cons t rest =>
    by_cases he : t.kind = .endOfInput
    · obtain ⟨_, _, h⟩ := h
      simp [expression, he] at h
    · rw [expression_cons he] at h
      obtain h | ⟨left, mid, ho, h⟩ := Reading.tooDeep_bind h
      · obtain ⟨us, hc, hdeep⟩ := calls_of_operand h
        exact ⟨0, us, hc min, hdeep⟩
      · obtain ⟨left', op, us, hg, ht, hdeep⟩ := grows_of_resume h
        exact ⟨_, us, .right he ho hg ht, hdeep⟩

/-- No more expressions can be open than there are tokens, and one. -/
theorem depth_le_of_tooDeep (h : (expression g stop depth min ts).TooDeep) :
    depth ≤ ts.length := by
  induction depth generalizing min ts with
  | zero => exact Nat.zero_le _
  | succ depth ih =>
    obtain ⟨_, us, hc, hdeep⟩ := calls_of_tooDeep h
    have hlt := hc.length_lt fun _ _ => expression_within
    have := ih hdeep
    omega

/-- Reading an expression without a limit: with a limit that no reading of these tokens can meet. -/
def free (g : Grammar) (stop : Token) (min : Int) (ts : List Token) : Reading Node :=
  expression g stop (ts.length + 1) min ts

theorem not_tooDeep_free : ¬ (free g stop min ts).TooDeep := by
  intro h
  have := depth_le_of_tooDeep h
  omega

/-- With a limit or without, the reading is the same if it is not cut off. -/
theorem expression_cut_free : (expression g stop depth min ts).Cut (free g stop min ts) := by
  rcases Nat.le_total depth (ts.length + 1) with h | h
  · exact expression_cut h
  · exact .inr ((expression_cut h).resolve_left not_tooDeep_free).symm

/-- Reading without a limit is what reading with one is, with the limit left out. -/
theorem free_eq (g : Grammar) (stop : Token) (min : Int) (ts : List Token) : free g stop min ts =
    match ts with
    | [] => .failed (.rejected (.unexpectedEnd "an expression" stop.span)) []
    | t :: rest =>
      if t.kind = .endOfInput then
        .failed (.rejected (.unexpectedEnd "an expression" t.span)) ts
      else
        (operand g stop (free g stop) t rest).bind fun left rest =>
        climb g (free g stop) min rest.length left rest := by
  cases ts with
  | nil => rfl
  | cons t rest =>
    by_cases he : t.kind = .endOfInput
    · simp [free, expression, he]
    · have hcut : (free g stop min (t :: rest)).Cut ((operand g stop (free g stop) t rest).bind
          fun left mid => climb g (free g stop) min mid.length left mid) := by
        rw [free, List.length_cons, expression_cons he]
        exact (operand_cut fun _ => expression_cut_free).bind fun _ _ _ =>
          climb_cut fun _ _ => expression_cut_free
      simpa only [he, ↓reduceIte] using hcut.resolve_left not_tooDeep_free

/-- Without a limit, `n` expressions are open at once while one is read, if not more. -/
inductive Opens (g : Grammar) (stop : Token) : Nat → Int → List Token → Prop
  | one (min : Int) (ts : List Token) : Opens g stop 1 min ts
  | call {n : Nat} {min min' : Int} {ts us : List Token}
      (hc : Calls g stop (free g stop) min ts min' us) (ho : Opens g stop n min' us) :
      Opens g stop (n + 1) min ts

theorem opens_of_tooDeep (h : (expression g stop depth min ts).TooDeep) :
    Opens g stop (depth + 1) min ts := by
  induction depth generalizing min ts with
  | zero => exact .one min ts
  | succ depth ih =>
    obtain ⟨min', us, hc, hdeep⟩ := calls_of_tooDeep h
    exact .call (hc.cut fun _ _ => expression_cut_free) (ih hdeep)

theorem tooDeep_of_grows (hg : Grows g (free g stop) min left ts left' (op :: us))
    (ht : Takes g min op) (h : (expression g stop depth op.kind.rightPower us).TooDeep) :
    (resume g stop depth min left ts).TooDeep := by
  generalize hvs : op :: us = vs at hg
  induction hg with
  | refl left ts =>
    rw [← hvs, resume_takes ht]
    exact h.bind
  | step ht' hr hm ih =>
    rw [resume_takes ht']
    exact expression_cut_free.tooDeep_bind hr (ih hvs)

theorem tooDeep_of_calls (hc : Calls g stop (free g stop) min ts min' us)
    (h : (expression g stop depth min' us).TooDeep) :
    (expression g stop (depth + 1) min ts).TooDeep := by
  cases hc with
  | value hk hg hm hn hcolon hy he =>
    rw [expression_cons (by simp [hk]), operand_of_head hk hg hm hn hcolon hy he]
    exact h.bind.bind
  | right hk ho hg ht =>
    rw [expression_cons hk]
    exact (operand_cut fun _ => expression_cut_free).tooDeep_bind ho (tooDeep_of_grows hg ht h)

/-- The limit is met just where more expressions would be open without it. -/
theorem tooDeep_iff :
    (expression g stop depth min ts).TooDeep ↔ Opens g stop (depth + 1) min ts := by
  refine ⟨opens_of_tooDeep, fun h => ?_⟩
  generalize hn : depth + 1 = n at h
  induction h generalizing depth with
  | one min ts =>
    cases hn
    exact ⟨_, _, rfl⟩
  | @call n min min' ts us hc ho ih =>
    obtain rfl := Nat.succ.inj hn
    cases depth with
    | zero => cases ho
    | succ depth => exact tooDeep_of_calls hc (ih rfl)

end Grammar

namespace Parsing

/-- It stopped because too many expressions were open. -/
def TooDeep (p : Parsing) : Prop :=
  ∃ t, p.fault = some (.rejected (.tooDeep t))

/-- The first parsing is the second one, or an earlier part of it that was cut off. -/
def Cut (p p' : Parsing) : Prop :=
  p.TooDeep ∧ p.statements <+: p'.statements ∨ p = p'

theorem Cut.initial {p p' : Parsing} (h : p.Cut p') : p.statements <+: p'.statements := by
  rcases h with h | rfl
  · exact h.2
  · exact List.prefix_refl _

end Parsing

namespace Grammar

variable {g : Grammar} {stop : Token} {limit limit' : Nat} {nodes : List Node}

theorem sequence_of_tooDeep (hend : atEnd ts = false)
    (h : (g.expression stop limit 0 ts).TooDeep) :
    (sequence g stop limit ts).TooDeep ∧ (sequence g stop limit ts).statements = [] := by
  obtain ⟨t, rest, hx⟩ := h
  rw [sequence_of_failed hend hx]
  exact ⟨⟨t, rfl⟩, rfl⟩

theorem sequence_cut (h : limit ≤ limit') :
    (sequence g stop limit ts).Cut (sequence g stop limit' ts) := by
  induction ts using sequence_induction g stop limit with
  | ends ts hend he => exact .inr (he.trans (sequence_of_atEnd hend).symm)
  | breaks ts fault rest hend hx he =>
    have hcut : (g.expression stop limit 0 ts).Cut (g.expression stop limit' 0 ts) :=
      expression_cut h
    rcases hcut with hdeep | heq
    · obtain ⟨hdeep, hnil⟩ := sequence_of_tooDeep hend hdeep
      exact .inl ⟨hdeep, hnil ▸ List.nil_prefix⟩
    · rw [hx] at heq
      exact .inr (he.trans (sequence_of_failed hend heq.symm).symm)
  | goesOn ts n rest hend hx he ih =>
    rw [he, sequence_of_done hend ((expression_cut h).done hx)]
    rcases ih with ⟨⟨t, ht⟩, hp⟩ | heq
    · exact .inl ⟨⟨t, ht⟩, List.cons_prefix_cons.2 ⟨rfl, hp⟩⟩
    · exact .inr (by rw [heq])

theorem not_tooDeep_sequence (h : ts.length < limit) : ¬ (sequence g stop limit ts).TooDeep := by
  intro hdeep
  obtain ⟨t, ht⟩ := hdeep
  induction ts using sequence_induction g stop limit with
  | ends ts hend he =>
    rw [he] at ht
    cases ht
  | breaks ts fault rest hend hx he =>
    rw [he] at ht
    cases ht
    have := depth_le_of_tooDeep ⟨_, _, hx⟩
    omega
  | goesOn ts n rest hend hx he ih =>
    rw [he] at ht
    have := length_rest_expression_lt hx
    exact ih (by omega) ht

/-- All limits that no reading of these tokens can meet are alike. -/
theorem sequence_limit (h : ts.length < limit) (h' : ts.length < limit') :
    sequence g stop limit ts = sequence g stop limit' ts := by
  rcases Nat.le_total limit limit' with hle | hle
  · exact (sequence_cut hle).resolve_left fun hc => not_tooDeep_sequence h hc.1
  · exact ((sequence_cut hle).resolve_left fun hc => not_tooDeep_sequence h' hc.1).symm

theorem sequence_cut_free :
    (sequence g stop limit ts).Cut (sequence g stop (ts.length + 1) ts) := by
  rcases Nat.lt_or_ge ts.length limit with h | h
  · exact .inr (sequence_limit h (Nat.lt_succ_self _))
  · exact sequence_cut (Nat.le_succ_of_le h)

/-- Without a limit the statements `nodes` are read from the first tokens, and the others are
left. -/
inductive Reaches (g : Grammar) (stop : Token) : List Token → List Node → List Token → Prop
  | here (ts : List Token) : Reaches g stop ts [] ts
  | step {ts mid us : List Token} {n : Node} {nodes : List Node} (hend : atEnd ts = false)
      (hn : free g stop 0 ts = .done n mid) (hm : Reaches g stop mid nodes us) :
      Reaches g stop ts (n :: nodes) us

/-- The statement at which reading is cut off opens more expressions than the limit allows. -/
theorem reaches_of_tooDeep (h : (sequence g stop limit ts).TooDeep) :
    ∃ us, Reaches g stop ts (sequence g stop limit ts).statements us ∧ atEnd us = false ∧
      Opens g stop (limit + 1) 0 us := by
  obtain ⟨t, ht⟩ := h
  induction ts using sequence_induction g stop limit with
  | ends ts hend he =>
    rw [he] at ht
    cases ht
  | breaks ts fault rest hend hx he =>
    rw [he] at ht ⊢
    cases ht
    exact ⟨ts, .here ts, hend, opens_of_tooDeep ⟨_, _, hx⟩⟩
  | goesOn ts n rest hend hx he ih =>
    rw [he] at ht ⊢
    obtain ⟨us, hr, hus, ho⟩ := ih ht
    exact ⟨us, .step hend (expression_cut_free.done hx) hr, hus, ho⟩

theorem tooDeep_of_reaches (hr : Reaches g stop ts nodes us) (hus : atEnd us = false)
    (ho : Opens g stop (limit + 1) 0 us) : (sequence g stop limit ts).TooDeep := by
  induction hr with
  | here ts => exact (sequence_of_tooDeep hus (tooDeep_iff.2 ho)).1
  | step hend hn hm ih =>
    rcases expression_cut_free with hdeep | heq
    · exact (sequence_of_tooDeep hend hdeep).1
    · rw [sequence_of_done hend (heq.trans hn)]
      exact ih hus ho

end Grammar

namespace ParseSession

/-- The same session with another limit. -/
def withLimit (s : ParseSession) (limit : Nat) : ParseSession :=
  { s with limit := limit }

/-- The same session with a limit that its tokens cannot meet. -/
def unlimited (s : ParseSession) : ParseSession :=
  s.withLimit (s.tokens.length + 1)

/-- A whole reading records that too many expressions were open. -/
def CutOff (s : ParseSession) : Prop :=
  ∃ e ∈ s.parse.2.errors, e.code = "P005"

/-- The limit acts only through what is read. -/
theorem parse_withLimit {s : ParseSession} {limit : Nat}
    (h : s.grammar.program limit s.tokens = s.grammar.program s.limit s.tokens) :
    (s.withLimit limit).parse = (s.parse.1, s.parse.2.withLimit limit) := by
  unfold parse withLimit
  rw [h]
  dsimp only
  split <;> rfl

theorem cutOff_iff {s : ParseSession} :
    s.CutOff ↔ (s.grammar.program s.limit s.tokens).TooDeep := by
  unfold CutOff Parsing.TooDeep parse
  dsimp only
  split
  · simp [moveTo, *]
  · rename_i e he
    simp only [List.mem_singleton, exists_eq_left, he, Option.some.injEq, ParseFault.rejected.injEq]
    cases e <;> simp [SyntaxError.code]
  · rename_i fault hne he
    simp only [moveTo, List.not_mem_nil, false_and, exists_false, he, Option.some.injEq, false_iff,
      not_exists]
    exact fun t ht => hne _ ht

theorem errors_of_cutOff {s : ParseSession} (h : s.CutOff) :
    ∃ t, s.parse.2.errors = [.tooDeep t] := by
  obtain ⟨t, ht⟩ := cutOff_iff.1 h
  refine ⟨t, ?_⟩
  unfold parse
  dsimp only
  rw [ht]

/-- What a session reads when number tokens hold numbers. -/
theorem parse_statements {s : ParseSession} (hr : Automaton.Readable s.tokens) :
    s.parse.1 = .ok (s.grammar.program s.limit s.tokens).statements := by
  obtain ⟨nodes, rest, fault, h⟩ := Automaton.sequence_readable s.grammar s.stop s.limit hr
  have hp : s.grammar.program s.limit s.tokens = ⟨nodes, rest, fault.map .rejected⟩ := h
  rw [parse_eq hp, hp]

end ParseSession

/-- A limit only cuts off. If no expression was too deep, the limit is as good as none: it gives the
same statements, errors and place. Otherwise this is the only error, the statements are the first of
those read without a limit, and the next one does open more expressions at once than are allowed;
whenever one does, reading is cut off. So a higher limit keeps the statements there are, and limits
beyond the number of tokens are all alike. -/
theorem parse_limit (s : ParseSession) (hr : Automaton.Readable s.tokens) :
    ∃ nodes all, s.parse.1 = .ok nodes ∧ s.unlimited.parse.1 = .ok all ∧ ¬ s.unlimited.CutOff ∧
      (¬ s.CutOff → nodes = all ∧ s.parse.2.errors = s.unlimited.parse.2.errors ∧
        s.parse.2.current = s.unlimited.parse.2.current) ∧
      (s.CutOff → (∃ t, s.parse.2.errors = [.tooDeep t]) ∧ nodes <+: all ∧
        ∃ us, Grammar.Reaches s.grammar s.stop s.tokens nodes us ∧ Grammar.atEnd us = false ∧
          Grammar.Opens s.grammar s.stop (s.limit + 1) 0 us) ∧
      (s.CutOff ↔ ∃ before us, Grammar.Reaches s.grammar s.stop s.tokens before us ∧
        Grammar.atEnd us = false ∧ Grammar.Opens s.grammar s.stop (s.limit + 1) 0 us) ∧
      (∀ limit, s.limit ≤ limit →
        ∃ more, (s.withLimit limit).parse.1 = .ok more ∧ nodes <+: more) ∧
      ∀ limit, s.tokens.length < limit →
        (s.withLimit limit).parse = (.ok all, s.unlimited.parse.2.withLimit limit) := by
  have hall : s.unlimited.parse.1 = _ := ParseSession.parse_statements hr
  have hcut : (s.grammar.program s.limit s.tokens).Cut
      (s.grammar.program (s.tokens.length + 1) s.tokens) := Grammar.sequence_cut_free
  refine ⟨_, _, ParseSession.parse_statements hr, hall, ?_, ?_, ?_, ?_, ?_, ?_⟩
  · exact fun h => Grammar.not_tooDeep_sequence (Nat.lt_succ_self _) (ParseSession.cutOff_iff.1 h)
  · intro h
    have heq := hcut.resolve_left fun hc => h (ParseSession.cutOff_iff.2 hc.1)
    have hparse : s.unlimited.parse = _ := ParseSession.parse_withLimit heq.symm
    rw [hparse]
    exact ⟨congrArg Parsing.statements heq, rfl, rfl⟩
  · intro h
    have hreaches := Grammar.reaches_of_tooDeep (ParseSession.cutOff_iff.1 h)
    exact ⟨ParseSession.errors_of_cutOff h, hcut.initial, hreaches⟩
  · constructor
    · exact fun h => ⟨_, Grammar.reaches_of_tooDeep (ParseSession.cutOff_iff.1 h)⟩
    · intro h
      obtain ⟨before, us, hreaches, hus, ho⟩ := h
      exact ParseSession.cutOff_iff.2 (Grammar.tooDeep_of_reaches hreaches hus ho)
  · intro limit h
    have hmore : (s.withLimit limit).parse.1 = _ := ParseSession.parse_statements hr
    exact ⟨_, hmore, (Grammar.sequence_cut h).initial⟩
  · intro limit h
    have heq : s.grammar.program limit s.tokens =
        s.grammar.program (s.tokens.length + 1) s.tokens :=
      Grammar.sequence_limit h (Nat.lt_succ_self _)
    have hparse : (s.unlimited.withLimit limit).parse = _ := ParseSession.parse_withLimit heq
    rw [← hall]
    exact hparse

/-- The tokens of `x a = b = c`, of which at most two expressions may be open at once. -/
def twoOpen : ParseSession :=
  (ParseSession.start [⟨.identifier, "x", .null, .origin⟩, ⟨.identifier, "a", .null, .origin⟩,
    ⟨.assign, "=", .null, .origin⟩, ⟨.identifier, "b", .null, .origin⟩,
    ⟨.assign, "=", .null, .origin⟩, ⟨.identifier, "c", .null, .origin⟩]).withLimit 2

theorem parse_limit_twoOpen : Automaton.Readable twoOpen.tokens ∧ twoOpen.CutOff ∧
    ∃ nodes all, twoOpen.parse.1 = .ok nodes ∧ twoOpen.unlimited.parse.1 = .ok all ∧
      nodes = [.identifier .origin "x"] ∧ all.length = 2 ∧ nodes <+: all ∧
      ∃ us, Grammar.Reaches twoOpen.grammar twoOpen.stop twoOpen.tokens nodes us ∧
        Grammar.atEnd us = false ∧ Grammar.Opens twoOpen.grammar twoOpen.stop 3 0 us := by
  have hr : Automaton.Readable twoOpen.tokens := by
    unfold Automaton.Readable
    decide +kernel
  have hcut : twoOpen.CutOff := by
    unfold ParseSession.CutOff
    decide +kernel
  obtain ⟨nodes, all, hn, ha, _, _, h, _⟩ := parse_limit twoOpen hr
  have hnodes : twoOpen.parse.1 = .ok [.identifier .origin "x"] := by rfl
  have hall : (twoOpen.unlimited.parse.1.toOption.map List.length) = some 2 := by decide +kernel
  obtain ⟨_, hp, hus⟩ := h hcut
  refine ⟨hr, hcut, nodes, all, hn, ha, ?_, ?_, hp, hus⟩
  · exact Except.ok.inj (hn.symm.trans hnodes)
  · rw [ha] at hall
    exact Option.some.inj hall

end FrontEnd
