import FrontEnd.Grammar.Program

namespace FrontEnd

variable {rest mid ts us : List Token} {t : Token}

/-- Tokens were taken from the front of `ts`, none of them an end, and `us` is left. -/
def Grammar.Leaves (ts us : List Token) : Prop :=
  ∃ taken, ts = taken ++ us ∧ ∀ t ∈ taken, t.kind ≠ .endOfInput

theorem Grammar.Leaves.refl (ts : List Token) : Leaves ts ts :=
  ⟨[], rfl, by simp⟩

theorem Grammar.Leaves.suffix (h : Leaves ts us) : us <:+ ts := by
  obtain ⟨taken, rfl, _⟩ := h
  exact List.suffix_append taken us

theorem Grammar.Leaves.length_le (h : Leaves ts us) : us.length ≤ ts.length :=
  h.suffix.length_le

theorem Grammar.Leaves.trans (h : Leaves ts mid) (h' : Leaves mid us) : Leaves ts us := by
  obtain ⟨taken, rfl, ht⟩ := h
  obtain ⟨more, rfl, hm⟩ := h'
  refine ⟨taken ++ more, by simp, fun t hmem => ?_⟩
  exact (List.mem_append.1 hmem).elim (ht t) (hm t)

theorem Grammar.leaves_cons (h : t.kind ≠ .endOfInput) : Leaves (t :: rest) rest :=
  ⟨[t], rfl, by simpa using h⟩

namespace Reading

@[simp] theorem bind_done (value : α) (rest : List Token) (next : α → List Token → Reading β) :
    (done value rest).bind next = next value rest := rfl

theorem bind_eq_done {r : Reading α} {next : α → List Token → Reading β} {b : β} :
    r.bind next = done b rest ↔ ∃ a mid, r = done a mid ∧ next a mid = done b rest := by
  cases r with
  | done a mid =>
    constructor
    · exact fun h => ⟨a, mid, rfl, h⟩
    · intro h
      obtain ⟨_, _, h, hn⟩ := h
      cases h
      exact hn
  | failed fault mid =>
    constructor
    · intro h
      cases h
    · rintro ⟨_, _, h, _⟩
      cases h

/-- Nothing is put back, and no end is taken. -/
def Within (r : Reading α) (ts : List Token) : Prop := Grammar.Leaves ts r.rest

theorem Within.of_done {r : Reading α} {a : α} (hr : r.Within ts) (h : r = done a rest) :
    Grammar.Leaves ts rest := by
  subst h
  exact hr

theorem Within.of_failed {r : Reading α} {fault : ParseFault} (hr : r.Within ts)
    (h : r = failed fault rest) : Grammar.Leaves ts rest := by
  subst h
  exact hr

theorem Within.bind {r : Reading α} {next : α → List Token → Reading β} (hr : r.Within ts)
    (hn : ∀ a mid, r = done a mid → (next a mid).Within mid) : (r.bind next).Within ts := by
  cases r with
  | done a mid => exact hr.trans (hn a mid rfl)
  | failed fault mid => exact hr

end Reading

namespace Grammar

variable {g : Grammar} {stop : Token} {kind : Kind} {context : String} {depth rounds : Nat}
  {min : Int} {inner : Int → List Token → Reading Node} {n left : Node}

/-- Every kind with a level joins two operands. -/
theorem mem_operators (h : kind.level?.isSome) : kind ∈ standard.operators :=
  List.mem_filter.2 ⟨Kind.mem_all kind, h⟩

theorem accept?_eq_some : accept? kind ts = some (t, rest) ↔
    ts = t :: rest ∧ t.kind = kind ∧ t.kind ≠ .endOfInput := by
  cases ts with
  | nil => simp [accept?]
  | cons u us =>
    simp only [accept?]
    split
    · simp only [Option.some.injEq, Prod.mk.injEq, List.cons.injEq]
      constructor
      · intro h
        obtain ⟨rfl, rfl⟩ := h
        exact ⟨⟨rfl, rfl⟩, by assumption⟩
      · exact fun h => h.1
    · rename_i hu
      simp only [reduceCtorEq, List.cons.injEq, false_iff]
      intro h
      obtain ⟨⟨rfl, rfl⟩, h⟩ := h
      exact hu h

theorem expect_eq_done : expect stop kind context ts = .done t rest ↔
    ts = t :: rest ∧ t.kind = kind ∧ t.kind ≠ .endOfInput := by
  rw [← accept?_eq_some]
  unfold expect
  split <;> simp_all

theorem expect_within : (expect stop kind context ts).Within ts := by
  unfold expect
  split
  · rename_i t rest h
    obtain ⟨rfl, _, ht⟩ := accept?_eq_some.1 h
    exact leaves_cons ht
  · exact .refl ts

theorem head_eq_done {isMutable : Bool} {h : Head} : head stop isMutable ts = .done h rest ↔
    ∃ name colon type equals, ts = name :: colon :: type :: equals :: rest ∧
      name.kind = .identifier ∧ colon.kind = .colon ∧ type.kind = .identifier ∧
      equals.kind = .assign ∧ h = ⟨isMutable, name.lexeme, type.lexeme⟩ := by
  simp only [head, Reading.bind_eq_done, expect_eq_done, Reading.done.injEq]
  constructor
  · intro h
    obtain ⟨name, _, ⟨rfl, hn, _⟩, colon, _, ⟨rfl, hc, _⟩, type, _, ⟨rfl, hy, _⟩, equals, _,
      ⟨rfl, he, _⟩, rfl, rfl⟩ := h
    exact ⟨name, colon, type, equals, rfl, hn, hc, hy, he, rfl⟩
  · intro h
    obtain ⟨name, colon, type, equals, rfl, hn, hc, hy, he, rfl⟩ := h
    exact ⟨name, _, ⟨rfl, hn, by simp [hn]⟩, colon, _, ⟨rfl, hc, by simp [hc]⟩, type, _,
      ⟨rfl, hy, by simp [hy]⟩, equals, _, ⟨rfl, he, by simp [he]⟩, rfl, rfl⟩

theorem head_within {isMutable : Bool} : (head stop isMutable ts).Within ts :=
  expect_within.bind fun _ _ _ => expect_within.bind fun _ _ _ => expect_within.bind fun _ _ _ =>
    expect_within.bind fun _ mid _ => .refl mid

/-- The mark of a mutable declaration; others have none. -/
def Marks (isMutable : Bool) (marks : List Token) : Prop :=
  marks.map Token.kind = if isMutable then [.mutWord] else []

/-- What is done behind the opening word and the mark. -/
def body (stop : Token) (inner : Int → List Token → Reading Node) (opening : Token)
    (isMutable : Bool) (ts : List Token) : Reading Node :=
  (head stop isMutable ts).bind fun head ts =>
  (inner 0 ts).bind fun value ts =>
  .done (.declaration opening.span head.name head.isMutable (some value) (some head.typeName)) ts

theorem declaration_marked {opening mark : Token} (h : mark.kind = .mutWord) :
    declaration stop inner opening (mark :: ts) = body stop inner opening true ts := by
  have ha : accept? .mutWord (mark :: ts) = some (mark, ts) :=
    accept?_eq_some.2 ⟨rfl, h, by simp [h]⟩
  simp [declaration, body, ha]

theorem declaration_unmarked {opening : Token} (h : ∀ t us, ts = t :: us → t.kind ≠ .mutWord) :
    declaration stop inner opening ts = body stop inner opening false ts := by
  have ha : accept? .mutWord ts = none := by
    cases ha : accept? .mutWord ts with
    | none => rfl
    | some p => exact absurd (accept?_eq_some.1 ha).2.1 (h _ _ (accept?_eq_some.1 ha).1)
  simp [declaration, body, ha]

/-- Whether there is a mark is seen from the next token alone. -/
theorem declaration_split (stop : Token) (inner : Int → List Token → Reading Node)
    (opening : Token) (ts : List Token) :
    (∃ mark us, ts = mark :: us ∧ mark.kind = .mutWord ∧
      declaration stop inner opening ts = body stop inner opening true us) ∨
    (∀ t us, ts = t :: us → t.kind ≠ .mutWord) ∧
      declaration stop inner opening ts = body stop inner opening false ts := by
  by_cases h : ∀ t us, ts = t :: us → t.kind ≠ .mutWord
  · exact .inr ⟨h, declaration_unmarked h⟩
  · simp only [Classical.not_forall, Classical.not_not] at h
    obtain ⟨t, us, rfl, hk⟩ := h
    exact .inl ⟨t, us, rfl, hk, declaration_marked hk⟩

theorem declaration_cases (stop : Token) (inner : Int → List Token → Reading Node)
    (opening : Token) (ts : List Token) : ∃ isMutable marks us, Marks isMutable marks ∧
      ts = marks ++ us ∧ declaration stop inner opening ts = body stop inner opening isMutable us := by
  obtain ⟨mark, us, rfl, hk, hx⟩ | ⟨_, hx⟩ := declaration_split stop inner opening ts
  · exact ⟨true, [mark], us, by simp [Marks, hk], rfl, hx⟩
  · exact ⟨false, [], ts, rfl, rfl, hx⟩

theorem body_eq_done {opening : Token} {isMutable : Bool} :
    body stop inner opening isMutable ts = .done n rest ↔
      ∃ name colon type equals us value, ts = name :: colon :: type :: equals :: us ∧
        name.kind = .identifier ∧ colon.kind = .colon ∧ type.kind = .identifier ∧
        equals.kind = .assign ∧ inner 0 us = .done value rest ∧
        n = .declaration opening.span name.lexeme isMutable (some value) (some type.lexeme) := by
  simp only [body, Reading.bind_eq_done, head_eq_done, Reading.done.injEq]
  constructor
  · intro h
    obtain ⟨_, us, ⟨name, colon, type, equals, rfl, hn, hc, hy, he, rfl⟩, value, _, hv, rfl, rfl⟩ := h
    exact ⟨name, colon, type, equals, us, value, rfl, hn, hc, hy, he, hv, rfl⟩
  · intro h
    obtain ⟨name, colon, type, equals, us, value, rfl, hn, hc, hy, he, hv, rfl⟩ := h
    exact ⟨_, us, ⟨name, colon, type, equals, rfl, hn, hc, hy, he, rfl⟩, value, _, hv, rfl, rfl⟩

theorem body_within {opening : Token} {isMutable : Bool}
    (hi : ∀ min ts, (inner min ts).Within ts) : (body stop inner opening isMutable ts).Within ts :=
  head_within.bind fun _ mid _ => (hi 0 mid).bind fun _ mid _ => .refl mid

theorem declaration_eq_done {opening : Token}
    (h : declaration stop inner opening ts = .done n rest) :
    ∃ isMutable marks name colon type equals us value, Marks isMutable marks ∧
      ts = marks ++ name :: colon :: type :: equals :: us ∧
      name.kind = .identifier ∧ colon.kind = .colon ∧ type.kind = .identifier ∧
      equals.kind = .assign ∧ inner 0 us = .done value rest ∧
      n = .declaration opening.span name.lexeme isMutable (some value) (some type.lexeme) := by
  obtain ⟨isMutable, marks, us, hm, rfl, he⟩ := declaration_cases stop inner opening ts
  rw [he] at h
  obtain ⟨name, colon, type, equals, us, value, rfl, hb⟩ := body_eq_done.1 h
  exact ⟨isMutable, marks, name, colon, type, equals, us, value, hm, rfl, hb⟩

/-- What is in front of the initial value is all that is read before it. -/
theorem declaration_of_head {opening name colon type equals : Token} {isMutable : Bool}
    {marks : List Token} (hm : Marks isMutable marks) (hn : name.kind = .identifier)
    (hc : colon.kind = .colon) (hy : type.kind = .identifier) (he : equals.kind = .assign) :
    declaration stop inner opening (marks ++ name :: colon :: type :: equals :: ts) =
      (inner 0 ts).bind fun value rest => .done (.declaration opening.span name.lexeme isMutable
        (some value) (some type.lexeme)) rest := by
  have hhead : head stop isMutable (name :: colon :: type :: equals :: ts) =
      .done ⟨isMutable, name.lexeme, type.lexeme⟩ ts :=
    head_eq_done.2 ⟨name, colon, type, equals, rfl, hn, hc, hy, he, rfl⟩
  have hbody : body stop inner opening isMutable (name :: colon :: type :: equals :: ts) =
      (inner 0 ts).bind fun value rest => .done (.declaration opening.span name.lexeme isMutable
        (some value) (some type.lexeme)) rest := by
    rw [body, hhead]
    rfl
  rw [← hbody]
  cases isMutable with
  | true =>
    obtain ⟨mark, rfl, hk⟩ := List.map_eq_singleton_iff.1 hm
    exact declaration_marked hk
  | false =>
    cases List.map_eq_nil_iff.1 hm
    apply declaration_unmarked
    intro t us h
    cases h
    simp [hn]

theorem operand_of_head {opening name colon type equals : Token} {isMutable : Bool}
    {marks : List Token} (hk : opening.kind = .newWord) (hg : opening.kind ∈ g.starters)
    (hm : Marks isMutable marks) (hn : name.kind = .identifier) (hc : colon.kind = .colon)
    (hy : type.kind = .identifier) (he : equals.kind = .assign) :
    operand g stop inner opening (marks ++ name :: colon :: type :: equals :: ts) =
      (inner 0 ts).bind fun value rest => .done (.declaration opening.span name.lexeme isMutable
        (some value) (some type.lexeme)) rest := by
  have hdeclared : operand g stop inner opening (marks ++ name :: colon :: type :: equals :: ts) =
      declaration stop inner opening (marks ++ name :: colon :: type :: equals :: ts) := by
    rw [hk] at hg
    simp [operand, hk, hg]
  rw [hdeclared, declaration_of_head hm hn hc hy he]

theorem Marks.mutWord {isMutable : Bool} {marks : List Token} (h : Marks isMutable marks)
    (ht : t ∈ marks) : t.kind = .mutWord := by
  have hmem : t.kind ∈ marks.map Token.kind := List.mem_map_of_mem ht
  rw [h] at hmem
  cases isMutable with
  | true => exact List.mem_singleton.1 hmem
  | false => exact absurd hmem List.not_mem_nil

theorem Marks.leaves {isMutable : Bool} {marks : List Token} (h : Marks isMutable marks) :
    Leaves (marks ++ ts) ts := by
  refine ⟨marks, rfl, fun t ht he => ?_⟩
  rw [Marks.mutWord h ht] at he
  cases he

theorem declaration_within {opening : Token} (hi : ∀ min ts, (inner min ts).Within ts) :
    (declaration stop inner opening ts).Within ts := by
  obtain ⟨isMutable, marks, us, hm, rfl, he⟩ := declaration_cases stop inner opening ts
  rw [he]
  exact hm.leaves.trans (body_within hi)

theorem operand_within (hi : ∀ min ts, (inner min ts).Within ts) :
    (operand g stop inner t ts).Within ts := by
  unfold operand
  split
  · exact .refl ts
  · split
    · split <;> exact .refl ts
    · exact .refl ts
    · exact .refl ts
    · exact declaration_within hi
    · exact .refl ts

theorem climb_within (hi : ∀ min ts, (inner min ts).Within ts) :
    (climb g inner min rounds left ts).Within ts := by
  induction rounds generalizing left ts with
  | zero => cases ts <;> exact .refl _
  | succ rounds ih =>
    cases ts with
    | nil => exact .refl _
    | cons t rest =>
      simp only [climb]
      split
      · exact .refl _
      · rename_i h
        have ht : Leaves (t :: rest) rest := leaves_cons fun he => h (.inl he)
        split
        · exact ht
        · exact ht.trans ((hi _ rest).bind fun _ _ _ => ih)

theorem expression_within : (expression g stop depth min ts).Within ts := by
  induction depth generalizing min ts with
  | zero => exact .refl ts
  | succ depth ih =>
    cases ts with
    | nil => exact .refl _
    | cons t rest =>
      simp only [expression]
      split
      · exact .refl _
      · rename_i he
        have ht : Leaves (t :: rest) rest := leaves_cons he
        exact ht.trans ((operand_within fun _ _ => ih).bind fun _ _ _ =>
          climb_within fun _ _ => ih)

theorem climb_rounds (hi : ∀ min ts, (inner min ts).Within ts) (more : Nat)
    (h : ts.length ≤ rounds) (h' : ts.length ≤ more) :
    climb g inner min rounds left ts = climb g inner min more left ts := by
  induction rounds generalizing more left ts with
  | zero =>
    cases List.length_eq_zero_iff.1 (Nat.le_zero.1 h)
    simp [climb]
  | succ rounds ih =>
    cases ts with
    | nil => simp [climb]
    | cons t rest =>
      obtain ⟨more, rfl⟩ := Nat.exists_eq_add_one_of_ne_zero (Nat.ne_zero_of_lt h')
      simp only [climb]
      congr 2
      cases hr : inner t.kind.rightPower rest with
      | failed fault mid => rfl
      | done right mid =>
        have := ((hi _ rest).of_done hr).length_le
        simp only [List.length_cons] at h h'
        exact ih more (by omega) (by omega)

/-- Reading on behind the tree `left`, for as long as there are operators stronger than `min`. -/
def resume (g : Grammar) (stop : Token) (depth : Nat) (min : Int) (left : Node)
    (ts : List Token) : Reading Node :=
  climb g (expression g stop depth) min ts.length left ts

theorem resume_nil : resume g stop depth min left [] = .done left [] := by
  simp [resume, climb]

theorem resume_cons (g : Grammar) (stop : Token) (depth : Nat) (min : Int) (left : Node)
    (t : Token) (rest : List Token) : resume g stop depth min left (t :: rest) =
    if t.kind = .endOfInput ∨ (t.kind.precedence : Int) ≤ min then .done left (t :: rest)
    else if t.kind ∉ g.operators then .failed (.rejected (.invalidOperator t)) rest
    else
      (expression g stop depth t.kind.rightPower rest).bind fun right rest =>
      resume g stop depth min (.binary t.span t.lexeme (some left) (some right)) rest := by
  simp only [resume, List.length_cons, climb]
  congr 2
  cases hr : expression g stop depth t.kind.rightPower rest with
  | failed fault mid => rfl
  | done right mid =>
    exact climb_rounds (fun _ _ => expression_within) _ (expression_within.of_done hr).length_le
      (Nat.le_refl _)

theorem expression_cons (h : t.kind ≠ .endOfInput) :
    expression g stop (depth + 1) min (t :: rest) =
      (operand g stop (expression g stop depth) t rest).bind (resume g stop depth min) := by
  simp only [expression, h, ↓reduceIte]
  rfl

theorem resume_within : (resume g stop depth min left ts).Within ts :=
  climb_within fun _ _ => expression_within

/-- How strong the next token is as an operator; zero for other tokens and at the end. -/
def lead : List Token → Nat
  | [] => 0
  | t :: _ => t.kind.precedence

theorem lead_of_atEnd (h : atEnd ts = true) : lead ts = 0 := by
  cases ts with
  | nil => rfl
  | cons t rest =>
    have hk : t.kind = .endOfInput := by simpa [atEnd] using h
    simp only [lead, hk]
    decide

/-- At power `min` the token `t` is taken as an operator. -/
structure Takes (g : Grammar) (min : Int) (t : Token) : Prop where
  stays : t.kind ≠ .endOfInput
  stronger : min < t.kind.precedence
  listed : t.kind ∈ g.operators

theorem resume_takes (ht : Takes g min t) : resume g stop depth min left (t :: rest) =
    (expression g stop depth t.kind.rightPower rest).bind fun right rest =>
      resume g stop depth min (.binary t.span t.lexeme (some left) (some right)) rest := by
  have hstays := ht.stays
  have hstronger := ht.stronger
  rw [resume_cons, if_neg (by simp only [hstays, false_or]; omega),
    if_neg (not_not_intro ht.listed)]

/-- Reading on behind a tree is one of four things, the last of them over and over. -/
theorem resume_induction (g : Grammar) (stop : Token) (depth : Nat) (min : Int)
    {motive : Node → List Token → Prop}
    (stops : ∀ left ts, atEnd ts = true ∨ (lead ts : Int) ≤ min →
      resume g stop depth min left ts = .done left ts → motive left ts)
    (refuses : ∀ left t rest, t.kind ≠ .endOfInput → min < t.kind.precedence →
      t.kind ∉ g.operators →
      resume g stop depth min left (t :: rest) = .failed (.rejected (.invalidOperator t)) rest →
      motive left (t :: rest))
    (breaks : ∀ left t rest fault us, Takes g min t →
      expression g stop depth t.kind.rightPower rest = .failed fault us →
      resume g stop depth min left (t :: rest) = .failed fault us → motive left (t :: rest))
    (grows : ∀ left t rest right mid, Takes g min t →
      expression g stop depth t.kind.rightPower rest = .done right mid →
      resume g stop depth min left (t :: rest) =
        resume g stop depth min (.binary t.span t.lexeme (some left) (some right)) mid →
      motive (.binary t.span t.lexeme (some left) (some right)) mid → motive left (t :: rest))
    (left : Node) (ts : List Token) : motive left ts := by
  generalize hlen : ts.length = len
  induction len using Nat.strongRecOn generalizing left ts with
  | ind len ih =>
    cases ts with
    | nil => exact stops left [] (.inl rfl) resume_nil
    | cons t rest =>
      have he := resume_cons g stop depth min left t rest
      split at he
      · rename_i h
        exact stops left _ (h.imp (by simp [atEnd]) id) he
      · rename_i h
        simp only [not_or, Int.not_le] at h
        split at he
        · rename_i hl
          exact refuses left t rest h.1 h.2 hl he
        · rename_i hl
          have ht : Takes g min t := ⟨h.1, h.2, Classical.not_not.1 hl⟩
          cases hr : expression g stop depth t.kind.rightPower rest with
          | failed fault us =>
            rw [hr] at he
            exact breaks left t rest fault us ht hr he
          | done right mid =>
            rw [hr] at he
            have hle := (expression_within.of_done hr).length_le
            simp only [List.length_cons] at hlen
            exact grows left t rest right mid ht hr he (ih mid.length (by omega) _ mid rfl)

/-- Reading stops only before what is no operator for it. -/
theorem lead_le_of_resume (hmin : 0 ≤ min) (h : resume g stop depth min left ts = .done n rest) :
    lead rest ≤ min := by
  induction left, ts using resume_induction g stop depth min with
  | stops left ts hend he =>
    rw [he] at h
    cases h
    rcases hend with hend | hend
    · rw [lead_of_atEnd hend]
      exact hmin
    · exact hend
  | refuses left t us _ _ _ he | breaks left t us _ _ _ _ he =>
    rw [he] at h
    cases h
  | grows left t us right mid _ _ he ih =>
    rw [he] at h
    exact ih h

/-- An expression that was read is an operand and what was read on behind it. -/
theorem expression_eq_done (h : expression g stop depth min ts = .done n rest) :
    ∃ d t us left mid, depth = d + 1 ∧ ts = t :: us ∧
      operand g stop (expression g stop d) t us = .done left mid ∧
      resume g stop d min left mid = .done n rest := by
  cases depth with
  | zero => simp [expression] at h
  | succ d =>
    cases ts with
    | nil => simp [expression] at h
    | cons t us =>
      by_cases he : t.kind = .endOfInput
      · simp [expression, he] at h
      · rw [expression_cons he] at h
        obtain ⟨left, mid, hl, hr⟩ := Reading.bind_eq_done.1 h
        exact ⟨d, t, us, left, mid, rfl, rfl, hl, hr⟩

/-- At the end no expression is read. -/
theorem atEnd_of_expression (h : expression g stop depth min ts = .done n rest) :
    atEnd ts = false := by
  obtain ⟨d, t, us, _, _, rfl, rfl, _, _⟩ := expression_eq_done h
  cases hend : atEnd (t :: us) with
  | false => rfl
  | true =>
    have he : t.kind = .endOfInput := by simpa [atEnd] using hend
    simp [expression, he] at h

theorem lead_le_of_expression (hmin : 0 ≤ min)
    (h : expression g stop depth min ts = .done n rest) : lead rest ≤ min := by
  obtain ⟨_, _, _, _, _, _, _, _, hr⟩ := expression_eq_done h
  exact lead_le_of_resume hmin hr

/-- An expression that was read took a token. -/
theorem length_rest_expression_lt (h : expression g stop depth min ts = .done n rest) :
    rest.length < ts.length := by
  obtain ⟨d, t, us, left, mid, rfl, rfl, hl, hr⟩ := expression_eq_done h
  have hmid := (operand_within fun _ _ => expression_within).of_done hl
  have := (hmid.trans (resume_within.of_done hr)).length_le
  simp only [List.length_cons]
  omega

theorem statements_rounds {limit : Nat} (more : Nat) (h : ts.length ≤ rounds)
    (h' : ts.length ≤ more) :
    g.statements stop limit rounds ts = g.statements stop limit more ts := by
  induction rounds generalizing more ts with
  | zero =>
    cases List.length_eq_zero_iff.1 (Nat.le_zero.1 h)
    cases more <;> simp [statements, atEnd]
  | succ rounds ih =>
    cases ts with
    | nil => cases more <;> simp [statements, atEnd]
    | cons t rest =>
      obtain ⟨more, rfl⟩ := Nat.exists_eq_add_one_of_ne_zero (Nat.ne_zero_of_lt h')
      simp only [statements]
      congr 1
      cases hr : g.expression stop limit 0 (t :: rest) with
      | failed fault mid => rfl
      | done n mid =>
        have := length_rest_expression_lt hr
        simp only [List.length_cons] at h h' this
        dsimp only
        rw [ih more (by omega) (by omega)]

/-- The statements of a whole row of tokens. -/
def sequence (g : Grammar) (stop : Token) (limit : Nat) (ts : List Token) : Parsing :=
  g.statements stop limit ts.length ts

theorem sequence_of_atEnd {limit : Nat} (h : atEnd ts = true) :
    sequence g stop limit ts = ⟨[], ts, none⟩ := by
  unfold sequence
  cases ts.length <;> simp [statements, h]

theorem sequence_of_failed {limit : Nat} {fault : ParseFault} (h : atEnd ts = false)
    (hf : g.expression stop limit 0 ts = .failed fault rest) :
    sequence g stop limit ts = ⟨[], rest, some fault⟩ := by
  cases ts with
  | nil => simp [atEnd] at h
  | cons t us => simp [sequence, statements, h, hf]

theorem sequence_of_done {limit : Nat} (h : atEnd ts = false)
    (hd : g.expression stop limit 0 ts = .done n rest) :
    sequence g stop limit ts =
      { sequence g stop limit rest with
        statements := n :: (sequence g stop limit rest).statements } := by
  cases ts with
  | nil => simp [atEnd] at h
  | cons t us =>
    have hlt := length_rest_expression_lt hd
    simp only [List.length_cons] at hlt
    simp only [sequence, List.length_cons, statements, h, hd, Bool.false_eq_true, ↓reduceIte]
    rw [statements_rounds rest.length (by omega) (Nat.le_refl _)]

/-- Statements end, or one of them cannot be read, or one is read and others follow. -/
theorem sequence_induction (g : Grammar) (stop : Token) (limit : Nat)
    {motive : List Token → Prop}
    (ends : ∀ ts, atEnd ts = true → sequence g stop limit ts = ⟨[], ts, none⟩ → motive ts)
    (breaks : ∀ ts fault rest, atEnd ts = false →
      g.expression stop limit 0 ts = .failed fault rest →
      sequence g stop limit ts = ⟨[], rest, some fault⟩ → motive ts)
    (goesOn : ∀ ts n rest, atEnd ts = false → g.expression stop limit 0 ts = .done n rest →
      sequence g stop limit ts = { sequence g stop limit rest with
        statements := n :: (sequence g stop limit rest).statements } →
      motive rest → motive ts)
    (ts : List Token) : motive ts := by
  generalize hlen : ts.length = len
  induction len using Nat.strongRecOn generalizing ts with
  | ind len ih =>
    cases hend : atEnd ts with
    | true => exact ends ts hend (sequence_of_atEnd hend)
    | false =>
      cases hx : g.expression stop limit 0 ts with
      | failed fault rest => exact breaks ts fault rest hend hx (sequence_of_failed hend hx)
      | done n rest =>
        have hlt := length_rest_expression_lt hx
        exact goesOn ts n rest hend hx (sequence_of_done hend hx)
          (ih rest.length (by omega) rest rfl)

theorem sequence_leaves {limit : Nat} : Leaves ts (sequence g stop limit ts).rest := by
  induction ts using sequence_induction g stop limit with
  | ends ts hend he =>
    rw [he]
    exact .refl ts
  | breaks ts fault rest _ hx he =>
    rw [he]
    exact expression_within.of_failed hx
  | goesOn ts n rest _ hx he ih =>
    rw [he]
    exact (expression_within.of_done hx).trans ih

/-- Without a fault reading goes on to the end. -/
theorem atEnd_sequence {limit : Nat} (h : (sequence g stop limit ts).fault = none) :
    atEnd (sequence g stop limit ts).rest = true := by
  induction ts using sequence_induction g stop limit with
  | ends ts hend he =>
    rw [he]
    exact hend
  | breaks ts fault rest _ hx he =>
    rw [he] at h
    cases h
  | goesOn ts n rest _ hx he ih =>
    rw [he] at h ⊢
    exact ih h

end Grammar
end FrontEnd
