import FrontEnd.Grammar.Session
import FrontEnd.Proofs.Reading

namespace FrontEnd.Automaton

/-- What is due next in a declaration. Behind the opening word a mark may come before the name. -/
inductive Due where
  | mark | name | colon | type | equals
  deriving DecidableEq, Repr

inductive Phase where
  /-- Between statements. -/
  | start
  /-- Where an operand must come: behind an operator, or behind the equals sign of a declaration. -/
  | operand
  /-- Behind an operand. -/
  | after
  | inside (due : Due)
  deriving DecidableEq, Repr

/-- Why a token is refused. -/
inductive Refusal where
  | noStart
  | noOperator
  | missing (due : Due)
  deriving DecidableEq, Repr

/-- The kind a token must have where this is due. -/
def Due.kind : Due → Kind
  | mark | name | type => .identifier
  | colon => .colon
  | equals => .assign

def Due.context : Due → String
  | mark | name => "for variable name"
  | colon => "after variable name"
  | type => "for type after ':'"
  | equals => "after type"

def Due.behind : Due → Phase
  | mark | name => .inside .colon
  | colon => .inside .type
  | type => .inside .equals
  | equals => .operand

/-- From the first token of an operand. -/
def opening (g : Grammar) (kind : Kind) : Except Refusal Phase :=
  if kind ∉ g.starters then .error .noStart
  else
    match kind with
    | .number | .string | .identifier => .ok .after
    | .newWord => .ok (.inside .mark)
    | _ => .error .noStart

def next (g : Grammar) (phase : Phase) (kind : Kind) : Except Refusal Phase :=
  match phase with
  | .start | .operand => opening g kind
  | .after =>
    if kind.precedence = 0 then opening g kind
    else if kind ∈ g.operators then .ok .operand
    else .error .noOperator
  | .inside due =>
    if due = .mark ∧ kind = .mutWord then .ok (.inside .name)
    else if kind = due.kind then .ok due.behind
    else .error (.missing due)

/-- How many statements are complete, the tokens not taken, and the error if there was one. -/
structure Verdict where
  complete : Nat
  rest : List Token
  error : Option SyntaxError
  deriving DecidableEq, Repr

def Verdict.oneMore (v : Verdict) : Verdict :=
  { v with complete := v.complete + 1 }

/-- A token that is merely not the one required is not taken. -/
def Refusal.verdict (t : Token) (rest : List Token) : Refusal → Verdict
  | noStart => ⟨0, rest, some (.invalidStart t)⟩
  | noOperator => ⟨0, rest, some (.invalidOperator t)⟩
  | missing due => ⟨0, t :: rest, some (.unexpected due.kind due.context t)⟩

/-- What the end of the tokens `rest` means; `found` stands there. -/
def Phase.verdict (found : Token) (rest : List Token) : Phase → Verdict
  | start => ⟨0, rest, none⟩
  | after => ⟨1, rest, none⟩
  | operand => ⟨0, rest, some (.unexpectedEnd "an expression" found.span)⟩
  | inside due => ⟨0, rest, some (.unexpected due.kind due.context found)⟩

/-- The machine from a phase on. A statement is complete where behind an operand no operator
follows. -/
def run (g : Grammar) (stop : Token) : Phase → List Token → Verdict
  | phase, [] => phase.verdict stop []
  | phase, t :: rest =>
    if t.kind = .endOfInput then phase.verdict t (t :: rest)
    else
      let v := match next g phase t.kind with
        | .error refusal => refusal.verdict t rest
        | .ok phase => run g stop phase rest
      if phase = .after ∧ t.kind.precedence = 0 then v.oneMore else v

variable {g : Grammar} {stop t : Token} {phase phase' : Phase} {ts us rest : List Token}

theorem run_end (h : t.kind = .endOfInput) :
    run g stop phase (t :: rest) = phase.verdict t (t :: rest) := by
  simp only [run, if_pos h]

theorem run_refused {refusal : Refusal} (h : t.kind ≠ .endOfInput)
    (hp : phase = .after → t.kind.precedence ≠ 0) (hn : next g phase t.kind = .error refusal) :
    run g stop phase (t :: rest) = refusal.verdict t rest := by
  have hc : ¬(phase = .after ∧ t.kind.precedence = 0) := fun hc => hp hc.1 hc.2
  simp only [run, if_neg h, if_neg hc, hn]

theorem run_taken (h : t.kind ≠ .endOfInput) (hp : phase = .after → t.kind.precedence ≠ 0)
    (hn : next g phase t.kind = .ok phase') :
    run g stop phase (t :: rest) = run g stop phase' rest := by
  have hc : ¬(phase = .after ∧ t.kind.precedence = 0) := fun hc => hp hc.1 hc.2
  simp only [run, if_neg h, if_neg hc, hn]

/-- Where no operator follows, the statement is complete and the next one starts. -/
theorem run_complete (h : Grammar.lead ts = 0) :
    run g stop .after ts = (run g stop .start ts).oneMore := by
  cases ts with
  | nil => rfl
  | cons t rest =>
    have hp : t.kind.precedence = 0 := h
    by_cases he : t.kind = .endOfInput
    · rw [run_end he, run_end he]
      rfl
    · simp [run, he, hp, next]

/-- Before a token, a statement starts as an operand does. -/
theorem run_start (h : Grammar.atEnd ts = false) : run g stop .start ts = run g stop .operand ts := by
  cases ts with
  | nil => simp [Grammar.atEnd] at h
  | cons t rest =>
    have he : t.kind ≠ .endOfInput := by simpa [Grammar.atEnd] using h
    simp [run, he, next]

theorem run_unmarked (h : ∀ t us, ts = t :: us → t.kind ≠ .mutWord) :
    run g stop (.inside .mark) ts = run g stop (.inside .name) ts := by
  cases ts with
  | nil => rfl
  | cons t rest =>
    have hm := h t rest rfl
    by_cases he : t.kind = .endOfInput
    · rw [run_end he, run_end he]
      rfl
    · by_cases hk : t.kind = .identifier
      · simp [run, next, hk, Due.kind, Due.behind]
      · simp [run, he, next, hm, hk, Due.kind, Due.context, Refusal.verdict]

/-- To show something of every run: where no token is left, at a token that is refused, and past a
token that is taken. A statement that is complete leaves its next token to the phase between
statements. -/
theorem run_induction (g : Grammar) (stop : Token) {motive : Phase → List Token → Prop}
    (ends : ∀ phase ts, Grammar.atEnd ts = true →
      run g stop phase ts = phase.verdict (Grammar.peek stop ts) ts → motive phase ts)
    (refuses : ∀ phase t us refusal, t.kind ≠ .endOfInput →
      next g phase t.kind = .error refusal →
      run g stop phase (t :: us) = refusal.verdict t us → motive phase (t :: us))
    (takes : ∀ phase phase' t us, t.kind ≠ .endOfInput → next g phase t.kind = .ok phase' →
      run g stop phase (t :: us) = run g stop phase' us → motive phase' us → motive phase (t :: us))
    (completes : ∀ t us, t.kind ≠ .endOfInput →
      run g stop .after (t :: us) = (run g stop .start (t :: us)).oneMore →
      motive .start (t :: us) → motive .after (t :: us))
    (phase : Phase) (ts : List Token) : motive phase ts := by
  induction ts generalizing phase with
  | nil => exact ends phase [] rfl rfl
  | cons t us ih =>
    by_cases he : t.kind = .endOfInput
    · exact ends phase (t :: us) (by simpa [Grammar.atEnd] using he) (run_end he)
    · have hstep : ∀ phase, (phase = .after → t.kind.precedence ≠ 0) → motive phase (t :: us) := by
        intro phase hp
        cases hn : next g phase t.kind with
        | error refusal => exact refuses phase t us refusal he hn (run_refused he hp hn)
        | ok phase' => exact takes phase phase' t us he hn (run_taken he hp hn) (ih phase')
      by_cases hc : phase = .after ∧ t.kind.precedence = 0
      · obtain ⟨rfl, hk⟩ := hc
        have hlead : Grammar.lead (t :: us) = 0 := hk
        exact completes t us he (run_complete hlead) (hstep .start (by simp))
      · exact hstep phase fun hp hk => hc ⟨hp, hk⟩

/-- What was read from `ts` is what the machine finds on its way from a phase to the next. Only
reading can find too many expressions open, and for that there must be as many tokens. -/
inductive Follows (g : Grammar) (stop : Token) (depth : Nat) (phase phase' : Phase)
    (ts : List Token) {α : Type} : Reading α → Prop
  | done {value : α} {rest : List Token} (hs : rest <:+ ts)
      (h : run g stop phase ts = run g stop phase' rest) :
      Follows g stop depth phase phase' ts (.done value rest)
  | rejected {e : SyntaxError} {rest : List Token} (h : run g stop phase ts = ⟨0, rest, some e⟩) :
      Follows g stop depth phase phase' ts (.failed (.rejected e) rest)
  | tooDeep {t : Token} {rest : List Token} (h : depth ≤ ts.length) :
      Follows g stop depth phase phase' ts (.failed (.rejected (.tooDeep t)) rest)

variable {α β : Type} {r : Reading α} {depth depth' : Nat}

theorem Follows.bind {next : α → List Token → Reading β} {last : Phase}
    (hr : Follows g stop depth phase phase' ts r)
    (hn : ∀ a mid, mid <:+ ts → Follows g stop depth phase' last mid (next a mid)) :
    Follows g stop depth phase last ts (r.bind next) := by
  cases hr with
  | @done a mid hs h =>
    rw [Reading.bind_done]
    have hnext := hn a mid hs
    generalize next a mid = r' at hnext
    cases hnext with
    | done hs' h' => exact .done (hs'.trans hs) (h.trans h')
    | rejected h' => exact .rejected (h.trans h')
    | tooDeep h' => exact .tooDeep (Nat.le_trans h' hs.length_le)
  | rejected h => exact .rejected h
  | tooDeep h => exact .tooDeep h

/-- Where nothing was read it does not matter what was to be read. -/
theorem Follows.failed {last : Phase} {fault : ParseFault} {a : Type} {b : Type}
    (h : @Follows g stop depth phase phase' ts a (.failed fault rest)) :
    @Follows g stop depth phase last ts b (.failed fault rest) := by
  cases h with
  | rejected h => exact .rejected h
  | tooDeep h => exact .tooDeep h

/-- What was read further on counts from where the machine came that way. -/
theorem Follows.earlier {before : Phase} (h : Follows g stop depth phase phase' us r)
    (hrun : run g stop before ts = run g stop phase us) (hs : us <:+ ts)
    (hd : depth ≤ us.length → depth' ≤ ts.length) :
    Follows g stop depth' before phase' ts r := by
  cases h with
  | done hs' h => exact .done (hs'.trans hs) (hrun.trans h)
  | rejected h => exact .rejected (hrun.trans h)
  | tooDeep h => exact .tooDeep (hd h)

theorem expect_follows (due : Due) (hd : due ≠ .mark) :
    Follows g stop depth (.inside due) due.behind ts
      (Grammar.expect stop due.kind due.context ts) := by
  have hkind : due.kind ≠ .endOfInput := by cases due <;> decide
  cases ts with
  | nil => exact .rejected rfl
  | cons t rest =>
    by_cases hk : t.kind = due.kind
    · have he : t.kind ≠ .endOfInput := hk ▸ hkind
      have hx : Grammar.expect stop due.kind due.context (t :: rest) = .done t rest :=
        Grammar.expect_eq_done.2 ⟨rfl, hk, he⟩
      have hn : next g (.inside due) t.kind = .ok due.behind := by simp [next, hd, hk]
      rw [hx]
      exact .done (List.suffix_cons t rest) (run_taken he (by simp) hn)
    · have hx : Grammar.expect stop due.kind due.context (t :: rest) =
          .failed (.rejected (.unexpected due.kind due.context t)) (t :: rest) := by
        simp [Grammar.expect, Grammar.accept?, hk, Grammar.peek]
      rw [hx]
      by_cases he : t.kind = .endOfInput
      · exact .rejected (run_end he)
      · have hn : next g (.inside due) t.kind = .error (.missing due) := by simp [next, hd, hk]
        exact .rejected (run_refused he (by simp) hn)

theorem head_follows {isMutable : Bool} :
    Follows g stop depth (.inside .name) .operand ts (Grammar.head stop isMutable ts) := by
  unfold Grammar.head
  refine (expect_follows .name (by simp)).bind fun _ _ _ => ?_
  refine (expect_follows .colon (by simp)).bind fun _ _ _ => ?_
  refine (expect_follows .type (by simp)).bind fun _ _ _ => ?_
  refine (expect_follows .equals (by simp)).bind fun _ us _ => ?_
  exact .done (List.suffix_refl us) rfl

variable {inner : Int → List Token → Reading Node}

theorem body_follows {opening : Token} {isMutable : Bool}
    (hi : ∀ us, us <:+ ts → Follows g stop depth .operand .after us (inner 0 us)) :
    Follows g stop depth (.inside .name) .after ts
      (Grammar.body stop inner opening isMutable ts) := by
  unfold Grammar.body
  refine head_follows.bind fun _ us hs => ?_
  refine (hi us hs).bind fun _ us _ => ?_
  exact .done (List.suffix_refl us) rfl

theorem declaration_follows {opening : Token}
    (hi : ∀ us, us <:+ ts → Follows g stop depth .operand .after us (inner 0 us)) :
    Follows g stop depth (.inside .mark) .after ts
      (Grammar.declaration stop inner opening ts) := by
  obtain ⟨mark, us, rfl, hk, hx⟩ | ⟨hk, hx⟩ := Grammar.declaration_split stop inner opening ts
  · have hn : next g (.inside .mark) mark.kind = .ok (.inside .name) := by simp [next, hk]
    have hs := List.suffix_cons mark us
    rw [hx]
    refine (body_follows fun vs hv => hi vs (hv.trans hs)).earlier ?_ hs ?_
    · exact run_taken (by simp [hk]) (by simp) hn
    · simp only [List.length_cons]
      omega
  · rw [hx]
    exact (body_follows hi).earlier (run_unmarked hk) (List.suffix_refl ts) id

/-- Number tokens hold numbers. -/
def Readable (ts : List Token) : Prop :=
  ∀ t ∈ ts, t.kind = .number → (Numeral.real? t.lexeme).isSome

theorem Readable.suffix (h : Readable ts) (hs : us <:+ ts) : Readable us :=
  fun t ht => h t (hs.mem ht)

theorem operand_follows (he : t.kind ≠ .endOfInput) (hr : Readable (t :: ts))
    (hi : ∀ us, us <:+ ts → Follows g stop depth .operand .after us (inner 0 us)) :
    Follows g stop (depth + 1) .operand .after (t :: ts) (Grammar.operand g stop inner t ts) := by
  have hs := List.suffix_cons t ts
  have hnext : next g .operand t.kind = opening g t.kind := rfl
  unfold opening at hnext
  unfold Grammar.operand
  split
  · rename_i hg
    rw [if_pos hg] at hnext
    exact .rejected (run_refused he (by simp) hnext)
  · rename_i hg
    rw [if_neg hg] at hnext
    split
    · rename_i hk
      obtain ⟨v, hv⟩ := Option.isSome_iff_exists.1 (hr t (by simp) hk)
      rw [hv]
      exact .done hs (run_taken he (by simp) (by rw [hnext, hk]))
    · rename_i hk
      exact .done hs (run_taken he (by simp) (by rw [hnext, hk]))
    · rename_i hk
      exact .done hs (run_taken he (by simp) (by rw [hnext, hk]))
    · rename_i hk
      refine (declaration_follows hi).earlier ?_ hs ?_
      · exact run_taken he (by simp) (by rw [hnext, hk])
      · simp
    · have hn : next g .operand t.kind = .error .noStart := by
        rw [hnext]
        split
        all_goals first | contradiction | rfl
      exact .rejected (run_refused he (by simp) hn)

theorem run_operator {min : Int} (hmin : 0 ≤ min) (h : Grammar.Takes g min t) :
    run g stop .after (t :: ts) = run g stop .operand ts := by
  have hpos : t.kind.precedence ≠ 0 := by have := h.stronger; omega
  exact run_taken h.stays (fun _ => hpos) (by simp [next, hpos, h.listed])

/-- The powers only say which of the open calls takes an operator; the machine goes on the same. -/
theorem resume_follows {min : Int} {left : Node} (hmin : 0 ≤ min) (hr : Readable ts)
    (hi : ∀ min us, 0 ≤ min → Readable us →
      Follows g stop depth .operand .after us (Grammar.expression g stop depth min us)) :
    Follows g stop (depth + 1) .after .after ts (Grammar.resume g stop depth min left ts) := by
  induction left, ts using Grammar.resume_induction g stop depth min with
  | stops left ts _ hx =>
    rw [hx]
    exact .done (List.suffix_refl ts) rfl
  | refuses left t us he hp hg hx =>
    have hpos : t.kind.precedence ≠ 0 := by omega
    have hn : next g .after t.kind = .error .noOperator := by simp [next, hpos, hg]
    rw [hx]
    exact .rejected (run_refused he (fun _ => hpos) hn)
  | breaks left t us fault mid ht hv hx =>
    have hright := hi t.kind.rightPower us (Kind.rightPower_nonneg _)
      (hr.suffix (List.suffix_cons t us))
    rw [hv] at hright
    rw [hx]
    exact hright.failed.earlier (run_operator hmin ht) (List.suffix_cons t us) (by simp)
  | grows left t us right mid ht hv hx ih =>
    have hright := hi t.kind.rightPower us (Kind.rightPower_nonneg _)
      (hr.suffix (List.suffix_cons t us))
    rw [hv] at hright
    rw [hx]
    cases hright with
    | done hs h =>
      have hmid := hs.trans (List.suffix_cons t us)
      have hlen := hmid.length_le
      exact (ih (hr.suffix hmid)).earlier ((run_operator hmin ht).trans h) hmid (by omega)

theorem expression_follows {min : Int} (hmin : 0 ≤ min) (hr : Readable ts) :
    Follows g stop depth .operand .after ts (Grammar.expression g stop depth min ts) := by
  induction depth generalizing min ts with
  | zero => exact .tooDeep (Nat.zero_le _)
  | succ depth ih =>
    cases ts with
    | nil => exact .rejected rfl
    | cons t us =>
      by_cases he : t.kind = .endOfInput
      · have hx : Grammar.expression g stop (depth + 1) min (t :: us) =
            .failed (.rejected (.unexpectedEnd "an expression" t.span)) (t :: us) := by
          simp [Grammar.expression, he]
        rw [hx]
        exact .rejected (run_end he)
      · rw [Grammar.expression_cons he]
        have hus := hr.suffix (List.suffix_cons t us)
        refine (operand_follows he hr fun vs hv => ih (by simp) (hus.suffix hv)).bind ?_
        intro left mid hmid
        exact resume_follows hmin (hr.suffix hmid) fun _ _ hm hu => ih hm hu

/-- A whole reading against the verdict on its tokens. -/
inductive Agrees (limit len : Nat) (v : Verdict) : Parsing → Prop
  | same {nodes : List Node} (h : nodes.length = v.complete) :
      Agrees limit len v ⟨nodes, v.rest, v.error.map .rejected⟩
  | tooDeep {nodes : List Node} {rest : List Token} {t : Token} (h : nodes.length ≤ v.complete)
      (hl : limit ≤ len) : Agrees limit len v ⟨nodes, rest, some (.rejected (.tooDeep t))⟩

/-- One more statement in front of what agrees. -/
theorem Agrees.cons {limit len len' : Nat} {v : Verdict} {p : Parsing} {n : Node}
    (h : Agrees limit len v p) (hlen : len ≤ len') :
    Agrees limit len' v.oneMore { p with statements := n :: p.statements } := by
  cases h with
  | @same nodes h =>
    have hl : (n :: nodes).length = v.oneMore.complete := by simp [Verdict.oneMore, h]
    exact .same hl
  | tooDeep h hl => exact .tooDeep (by simpa [Verdict.oneMore] using h) (Nat.le_trans hl hlen)

theorem sequence_agrees {limit : Nat} (hr : Readable ts) :
    Agrees limit ts.length (run g stop .start ts) (Grammar.sequence g stop limit ts) := by
  induction ts using Grammar.sequence_induction g stop limit with
  | ends ts hend he =>
    have hrun : run g stop .start ts = ⟨0, ts, none⟩ := by
      cases ts with
      | nil => rfl
      | cons t us =>
        have ht : t.kind = .endOfInput := by simpa [Grammar.atEnd] using hend
        exact run_end ht
    rw [he, hrun]
    exact .same rfl
  | breaks ts fault rest hend hx he =>
    have hfirst : Follows g stop limit .operand .after ts (g.expression stop limit 0 ts) :=
      expression_follows (by simp) hr
    rw [hx] at hfirst
    rw [he, run_start hend]
    cases hfirst with
    | rejected h =>
      rw [h]
      exact .same rfl
    | tooDeep h => exact .tooDeep (Nat.zero_le _) h
  | goesOn ts n rest hend hx he ih =>
    have hfirst : Follows g stop limit .operand .after ts (g.expression stop limit 0 ts) :=
      expression_follows (by simp) hr
    have hlt := Grammar.length_rest_expression_lt hx
    have hlead := Grammar.lead_le_of_expression (by simp) hx
    rw [hx] at hfirst
    rw [he, run_start hend]
    cases hfirst with
    | done hs h =>
      rw [h, run_complete (by omega)]
      exact (ih (hr.suffix hs)).cons (by omega)

/-- The only fault there can be is an error. -/
theorem sequence_readable (g : Grammar) (stop : Token) (limit : Nat) (hr : Readable ts) :
    ∃ nodes rest fault,
      Grammar.sequence g stop limit ts = ⟨nodes, rest, Option.map ParseFault.rejected fault⟩ := by
  have h : Agrees limit ts.length (run g stop .start ts) (Grammar.sequence g stop limit ts) :=
    sequence_agrees hr
  generalize Grammar.sequence g stop limit ts = p at h
  cases h with
  | same => exact ⟨_, _, _, rfl⟩
  | tooDeep => exact ⟨_, _, some _, rfl⟩

end FrontEnd.Automaton

namespace FrontEnd

/-- With no fault but an error a session keeps what was read and where. -/
theorem ParseSession.parse_eq {s : ParseSession} {nodes : List Node} {rest : List Token}
    {fault : Option SyntaxError} (h : s.grammar.program s.limit s.tokens =
      ⟨nodes, rest, fault.map .rejected⟩) :
    s.parse = (.ok nodes, { s with
      current := s.tokens.length - rest.length, errors := fault.toList }) := by
  unfold ParseSession.parse
  rw [h]
  cases fault with
  | none => simp [ParseSession.moveTo, ParseSession.rest]
  | some e => simp [ParseSession.moveTo, ParseSession.rest]

/-- What the machine says of the tokens of a session. -/
def ParseSession.verdict (s : ParseSession) : Automaton.Verdict :=
  Automaton.run s.grammar s.stop .start s.tokens

end FrontEnd
