import FrontEnd.Proofs.Nesting

namespace FrontEnd

namespace Level

/-- The levels of the operators that group to the left. -/
def leftGrouping : List Level :=
  [.or, .and, .equality, .comparison, .bitwise, .term, .factor]

/-- How many of these levels an expression that begins at power `min` cannot take in. -/
def passed (min : Int) : Nat :=
  leftGrouping.countP fun level => (level.strength : Int) ≤ min

variable {level : Level} {min : Int}

theorem passed_le (min : Int) : passed min ≤ 7 :=
  List.countP_le_length

theorem passed_lt (hl : level ∈ leftGrouping) (h : min < level.strength) :
    passed min < passed level.strength := by
  obtain ⟨weaker, stronger, hsplit⟩ := List.append_of_mem hl
  have hmono : ∀ levels : List Level,
      levels.countP (fun level => (level.strength : Int) ≤ min) ≤
        levels.countP fun other => (other.strength : Int) ≤ level.strength := by
    intro levels
    apply List.countP_mono_left
    intro other _ hother
    simp only [decide_eq_true_eq] at hother ⊢
    omega
  have hweaker := hmono weaker
  have hstronger := hmono stronger
  simp only [passed, hsplit, List.countP_append, List.countP_cons, Int.le_refl, decide_true,
    Int.not_le.2 h, decide_false, Bool.false_eq_true, ↓reduceIte]
  omega

end Level

/-- Behind an operator that groups to the left one level more is passed. -/
theorem Kind.passed_rightPower {kind : Kind} {min : Int} (hmin : 0 ≤ min)
    (h : min < kind.precedence) (hr : kind.isRightAssociative = false) :
    Level.passed min < Level.passed kind.rightPower := by
  have hpos : 0 < kind.precedence := by omega
  obtain ⟨level, hlevel⟩ := Option.isSome_iff_exists.1 ((precedence_pos_iff kind).1 hpos)
  have hstrength : kind.precedence = level.strength := by simp [precedence, hlevel]
  have hmem : level ∈ Level.leftGrouping := by
    cases level <;> simp_all [isRightAssociative, Level.leftGrouping]
  rw [rightPower, hr, hstrength]
  exact Level.passed_lt hmem (hstrength ▸ h)

/-- An operator that groups to the right, or the word that opens a declaration. -/
def Token.reopens (t : Token) : Bool :=
  t.kind.isRightAssociative || t.kind == .newWord

variable {ts us mid rest : List Token} {t op : Token} {α β γ : Type}

/-- The tokens of `ts` that were taken, whether or not reading failed behind them. -/
def Reading.taken (r : Reading α) (ts : List Token) : List Token :=
  ts.take (ts.length - r.rest.length)

theorem Reading.taken_eq {r : Reading α} {front : List Token} (h : ts = front ++ r.rest) :
    r.taken ts = front := by
  have hlen : ts.length - r.rest.length = front.length := by
    rw [h, List.length_append]
    omega
  rw [taken, hlen]
  conv => lhs; rw [h]
  exact List.take_left

theorem Reading.Within.eq_taken_append {r : Reading α} (h : r.Within ts) :
    ts = r.taken ts ++ r.rest := by
  obtain ⟨front, hts, _⟩ := h
  rw [taken_eq hts]
  exact hts

theorem Reading.bind_leaves {r : Reading α} {next : α → List Token → Reading β}
    (h : ∀ a mid, (next a mid).Within mid) : Grammar.Leaves r.rest (r.bind next).rest := by
  cases r with
  | done a mid => exact h a mid
  | failed fault mid => exact .refl mid

theorem Reading.bind_assoc (r : Reading α) (next : α → List Token → Reading β)
    (more : β → List Token → Reading γ) :
    (r.bind next).bind more = r.bind fun a mid => (next a mid).bind more := by
  cases r <;> rfl

namespace Grammar

variable {g : Grammar} {stop : Token} {depth n limit : Nat} {min min' : Int} {left left' : Node}

theorem Grows.resume_eq (h : Grows g (expression g stop depth) min left ts left' us) :
    resume g stop depth min left ts = resume g stop depth min left' us := by
  induction h with
  | refl left ts => rfl
  | step ht hr hm ih => rw [resume_takes ht, hr, Reading.bind_done, ih]

/-- An expression begins with reading another one that it begins, and goes on behind that one. -/
theorem Calls.reads (h : Calls g stop (expression g stop depth) min ts min' us) :
    ∃ next, (∀ right mid, (next right mid).Within mid) ∧
      expression g stop (depth + 1) min ts = (expression g stop depth min' us).bind next := by
  cases h with
  | value hk hg hm hn hc hy he =>
    rw [expression_cons (by simp [hk]), operand_of_head hk hg hm hn hc hy he, Reading.bind_assoc]
    exact ⟨_, fun _ _ => resume_within, rfl⟩
  | right hk ho hg ht =>
    rw [expression_cons hk, ho, Reading.bind_done, hg.resume_eq, resume_takes ht]
    exact ⟨_, fun _ _ => resume_within, rfl⟩

/-- The tokens before an expression that is begun: at one of them powers begin anew, or the new
expression begins at a higher power. -/
theorem Calls.front (hmin : 0 ≤ min) (h : Calls g stop (expression g stop depth) min ts min' us) :
    ∃ front, ts = front ++ us ∧ 0 ≤ min' ∧
      ((∃ t ∈ front, t.kind.isRightAssociative = true) ∨ Level.passed min < Level.passed min') := by
  cases h with
  | @value opening name colon type equals isMutable marks _ _ hk hg hm hn hc hy he =>
    refine ⟨opening :: (marks ++ [name, colon, type, equals]), by simp, Int.le_refl 0, .inl ?_⟩
    exact ⟨equals, by simp, by rw [he]; rfl⟩
  | @right t op rest mid _ left left' _ hk ho hg ht =>
    have hi : ∀ min ts, (expression g stop depth min ts).Within ts := fun _ _ => expression_within
    obtain ⟨front, rfl, _⟩ := ((operand_within hi).of_done ho).trans (hg.leaves hi)
    refine ⟨t :: (front ++ [op]), by simp, op.kind.rightPower_nonneg, ?_⟩
    cases hr : op.kind.isRightAssociative with
    | true => exact .inl ⟨op, by simp, hr⟩
    | false => exact .inr (Kind.passed_rightPower hmin ht.stronger hr)

/-- The outer expression takes all that the inner one takes, and the tokens in front of it. -/
theorem Calls.taken {front : List Token} (hfront : ts = front ++ us)
    (h : Calls g stop (expression g stop depth) min ts min' us) :
    ∃ more, (expression g stop (depth + 1) min ts).taken ts =
      front ++ ((expression g stop depth min' us).taken us ++ more) := by
  obtain ⟨next, hnext, hreads⟩ := h.reads
  have hinner : (expression g stop depth min' us).Within us := expression_within
  obtain ⟨more, hmore, _⟩ := Reading.bind_leaves (r := expression g stop depth min' us) hnext
  refine ⟨more, Reading.taken_eq ?_⟩
  rw [hreads, List.append_assoc, List.append_assoc, ← hmore, ← hinner.eq_taken_append]
  exact hfront

/-- While an expression with room for `depth` open ones is read, `n` are open at once, each begun by
the one before. The last may be one too many, which is then refused. -/
inductive Stacked (g : Grammar) (stop : Token) : Nat → Nat → Int → List Token → Prop
  | one (depth : Nat) (min : Int) (ts : List Token) : Stacked g stop depth 1 min ts
  | call {depth n : Nat} {min min' : Int} {ts us : List Token}
      (hc : Calls g stop (expression g stop depth) min ts min' us)
      (hs : Stacked g stop depth n min' us) : Stacked g stop (depth + 1) (n + 1) min ts

/-- It is the last one too many that is refused. -/
theorem tooDeep_iff_stacked :
    (expression g stop depth min ts).TooDeep ↔ Stacked g stop depth (depth + 1) min ts := by
  induction depth generalizing min ts with
  | zero =>
    constructor
    · intro _
      exact .one 0 min ts
    · intro _
      exact ⟨_, _, rfl⟩
  | succ depth ih =>
    constructor
    · intro h
      obtain ⟨min', us, hc, hdeep⟩ := calls_of_tooDeep h
      exact .call hc (ih.1 hdeep)
    · intro h
      cases h with
      | call hc hs =>
        obtain ⟨next, _, hreads⟩ := hc.reads
        rw [hreads]
        exact (ih.2 hs).bind

/-- From one open expression to the next a level more is passed, or a token is taken at which powers
begin anew; and seven levels are all that can be passed in between. -/
theorem Stacked.add_passed_le (hmin : 0 ≤ min) (h : Stacked g stop depth n min ts) :
    n + Level.passed min ≤
      8 * (((expression g stop depth min ts).taken ts).countP (·.kind.isRightAssociative) + 1) := by
  induction h with
  | one depth min ts =>
    have := Level.passed_le min
    omega
  | @call depth n min min' ts us hc hs ih =>
    obtain ⟨front, hfront, hmin', hstep⟩ := hc.front hmin
    have hinner := ih hmin'
    obtain ⟨more, htaken⟩ := hc.taken hfront
    rw [htaken, List.countP_append, List.countP_append]
    rcases hstep with ⟨t, ht, hr⟩ | hlt
    · have hfirst : 0 < front.countP (·.kind.isRightAssociative) :=
        List.countP_pos_iff.2 ⟨t, ht, hr⟩
      have := Level.passed_le min
      omega
    · omega

/-- Reading the tokens `ts` within a limit comes to a statement at the tokens `us`. -/
inductive Attempts (g : Grammar) (stop : Token) (limit : Nat) : List Token → List Token → Prop
  | first {ts : List Token} (hend : atEnd ts = false) : Attempts g stop limit ts ts
  | later {ts mid us : List Token} {n : Node} (hend : atEnd ts = false)
      (hn : expression g stop limit 0 ts = .done n mid) (hl : Attempts g stop limit mid us) :
      Attempts g stop limit ts us

theorem Attempts.suffix (h : Attempts g stop limit ts us) : us <:+ ts := by
  induction h with
  | first hend => exact List.suffix_refl _
  | later hend hn hl ih => exact ih.trans (expression_within.of_done hn).suffix

/-- A program is cut off at a statement that it comes to. -/
theorem tooDeep_iff_attempts : (sequence g stop limit ts).TooDeep ↔
    ∃ us, Attempts g stop limit ts us ∧ (expression g stop limit 0 us).TooDeep := by
  constructor
  · intro h
    obtain ⟨t, ht⟩ := h
    induction ts using sequence_induction g stop limit with
    | ends ts hend he =>
      rw [he] at ht
      cases ht
    | breaks ts fault rest hend hx he =>
      rw [he] at ht
      cases ht
      exact ⟨ts, .first hend, _, _, hx⟩
    | goesOn ts n rest hend hx he ih =>
      rw [he] at ht
      obtain ⟨us, hus, hdeep⟩ := ih ht
      exact ⟨us, .later hend hx hus, hdeep⟩
  · intro h
    obtain ⟨us, hus, hdeep⟩ := h
    induction hus with
    | first hend => exact (sequence_of_tooDeep hend hdeep).1
    | later hend hn hl ih =>
      rw [sequence_of_done hend hn]
      exact ih hdeep

end Grammar

namespace ParseSession

/-- A whole reading comes to a statement at the tokens `us`, read or not. -/
def Attempts (s : ParseSession) (us : List Token) : Prop :=
  Grammar.Attempts s.grammar s.stop s.limit s.tokens us

/-- While the statement at `us` is read, `n` expressions are open at once. -/
def Stacks (s : ParseSession) (us : List Token) (n : Nat) : Prop :=
  Grammar.Stacked s.grammar s.stop s.limit n 0 us

/-- The tokens that the statement at `us` takes, also if it fails behind them. -/
def taken (s : ParseSession) (us : List Token) : List Token :=
  (s.grammar.expression s.stop s.limit 0 us).taken us

variable {s : ParseSession} {us : List Token} {n : Nat}

theorem mem_of_mem_taken (h : s.Attempts us) {t : Token} (ht : t ∈ s.taken us) : t ∈ s.tokens :=
  h.suffix.subset (List.mem_of_mem_take ht)

theorem cutOff_iff_stacks : s.CutOff ↔ ∃ us, s.Attempts us ∧ s.Stacks us (s.limit + 1) := by
  rw [cutOff_iff]
  refine Grammar.tooDeep_iff_attempts.trans ?_
  simp only [Grammar.tooDeep_iff_stacked]
  rfl

theorem stacks_le (h : s.Stacks us n) :
    n ≤ 8 * ((s.taken us).countP (·.kind.isRightAssociative) + 1) :=
  Nat.le_of_add_right_le (h.add_passed_le (Int.le_refl 0))

theorem countP_taken_le (s : ParseSession) (us : List Token) :
    (s.taken us).countP (·.kind.isRightAssociative) ≤ (s.taken us).countP Token.reopens := by
  apply List.countP_mono_left
  intro t _ ht
  simp [Token.reopens, ht]

end ParseSession

/-- Whatever the tokens, the rules and the limit, the expressions that are open at once while a
statement is read are at most eight times as many as the operators that group to the right and the
opening words that the statement takes, and eight; the operators would do, for the equals sign of a
declaration is one of them. A program is cut off just where a statement opens one more than the
limit allows. So one without such operators and without declarations never has more than eight
expressions open, and no limit of eight or more cuts it off. -/
theorem open_expressions (s : ParseSession) :
    (∀ us n, s.Attempts us → s.Stacks us n →
      n ≤ 8 * ((s.taken us).countP Token.reopens + 1) ∧
      n ≤ 8 * ((s.taken us).countP (·.kind.isRightAssociative) + 1)) ∧
    (s.CutOff ↔ ∃ us, s.Attempts us ∧ s.Stacks us (s.limit + 1)) ∧
    ((∀ t ∈ s.tokens, t.reopens = false) →
      (∀ us n, s.Attempts us → s.Stacks us n → n ≤ 8) ∧ (8 ≤ s.limit → ¬ s.CutOff)) := by
  have hbound : ∀ us n, s.Stacks us n → n ≤ 8 * ((s.taken us).countP Token.reopens + 1) := by
    intro us n h
    have hle := ParseSession.stacks_le h
    have hcount := s.countP_taken_le us
    omega
  refine ⟨?_, ParseSession.cutOff_iff_stacks, ?_⟩
  · intro us n _ h
    exact ⟨hbound us n h, ParseSession.stacks_le h⟩
  · intro hflat
    have height : ∀ us n, s.Attempts us → s.Stacks us n → n ≤ 8 := by
      intro us n hus h
      have hnone : (s.taken us).countP Token.reopens = 0 := by
        apply List.countP_eq_zero.2
        intro t ht
        simp [hflat t (ParseSession.mem_of_mem_taken hus ht)]
      have hle := hbound us n h
      omega
    refine ⟨height, ?_⟩
    intro hlimit hcut
    obtain ⟨us, hus, h⟩ := ParseSession.cutOff_iff_stacks.1 hcut
    have hle := height us _ hus h
    omega

/-- The tokens of `x || x && x == x < x & x + x * x`, with an operator of every level that groups to
the left, each level stronger than the one before. -/
def risingLevels (limit : Nat) : ParseSession :=
  let name : Token := ⟨.identifier, "x", .null, .origin⟩
  let joined : List (Kind × String) := [(.orOr, "||"), (.andAnd, "&&"), (.equalEqual, "=="),
    (.less, "<"), (.ampersand, "&"), (.plus, "+"), (.star, "*")]
  (ParseSession.start
    (name :: joined.flatMap fun op => [⟨op.1, op.2, .null, .origin⟩, name])).withLimit limit

/-- Eight expressions are open at once in it, which a limit of eight allows and one of seven does
not. -/
theorem open_expressions_risingLevels :
    (∀ limit, ∀ t ∈ (risingLevels limit).tokens, t.reopens = false) ∧
    (∃ us, (risingLevels 7).Attempts us ∧ (risingLevels 7).Stacks us 8) ∧
    (∀ us n, (risingLevels 8).Attempts us → (risingLevels 8).Stacks us n → n ≤ 8) ∧
    ¬ (risingLevels 8).CutOff := by
  have hflat : ∀ limit, ∀ t ∈ (risingLevels limit).tokens, t.reopens = false := by
    intro limit
    exact (by decide +kernel : ∀ t ∈ (risingLevels 0).tokens, t.reopens = false)
  have hcut : (risingLevels 7).CutOff := by
    unfold ParseSession.CutOff
    decide +kernel
  obtain ⟨_, hseven, _⟩ := open_expressions (risingLevels 7)
  obtain ⟨_, _, height⟩ := open_expressions (risingLevels 8)
  obtain ⟨hopen, hwhole⟩ := height (hflat 8)
  exact ⟨hflat, hseven.1 hcut, hopen, hwhole (Nat.le_refl 8)⟩

end FrontEnd
