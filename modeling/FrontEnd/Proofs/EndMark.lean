import FrontEnd.Proofs.Boundaries
import FrontEnd.Proofs.EndOfInput

namespace FrontEnd

variable {e stop stop' t : Token} {ts us behind : List Token}

/-- No token marks the end. -/
def Unmarked (ts : List Token) : Prop :=
  ∀ t ∈ ts, t.kind ≠ .endOfInput

theorem Unmarked.suffix (h : Unmarked ts) (hs : us <:+ ts) : Unmarked us :=
  fun t ht => h t (hs.mem ht)

theorem Unmarked.head (h : Unmarked (t :: ts)) : t.kind ≠ .endOfInput :=
  h t List.mem_cons_self

theorem Unmarked.head_ne (h : Unmarked (t :: ts)) (hstop : stop.kind = .endOfInput) : t ≠ stop :=
  fun ht => h.head (ht ▸ hstop)

theorem Unmarked.tail (h : Unmarked (t :: ts)) : Unmarked ts :=
  h.suffix (List.suffix_cons t ts)

/-- The error with the mark `e` in place of `stop`, which stood for the end. -/
def SyntaxError.endedBy (stop e : Token) : SyntaxError → SyntaxError
  | invalidStart found => invalidStart found
  | unexpected expected context found =>
    unexpected expected context (if found = stop then e else found)
  | invalidOperator found => invalidOperator found
  | unexpectedEnd expected _ => unexpectedEnd expected e.span
  | tooDeep found => tooDeep (if found = stop then e else found)

def ParseFault.endedBy (stop e : Token) : ParseFault → ParseFault
  | rejected error => rejected (error.endedBy stop e)
  | notANumber text => notANumber text

/-- What is read if `e` marks the end and `behind` comes after it. -/
def Reading.endedBy (stop e : Token) (behind : List Token) : Reading α → Reading α
  | done value rest => done value (rest ++ e :: behind)
  | failed fault rest => failed (fault.endedBy stop e) (rest ++ e :: behind)

def Parsing.endedBy (stop e : Token) (behind : List Token) (p : Parsing) : Parsing :=
  ⟨p.statements, p.rest ++ e :: behind, p.fault.map (ParseFault.endedBy stop e)⟩

namespace Grammar

variable {g : Grammar} {depth limit : Nat} {min : Int} {left : Node} {α β : Type}

/-- The reader stops at the mark `e` as it stops where the tokens run out. -/
def StopsAt (e : Token) (behind : List Token) (read : Token → List Token → Reading α) : Prop :=
  ∀ stop stop' ts, stop.kind = .endOfInput → Unmarked ts →
    read stop' (ts ++ e :: behind) = (read stop ts).endedBy stop e behind

theorem StopsAt.bind {read : Token → List Token → Reading α}
    {next : Token → α → List Token → Reading β} (hr : StopsAt e behind read)
    (hw : ∀ stop ts, (read stop ts).Within ts)
    (hn : ∀ a, StopsAt e behind fun stop => next stop a) :
    StopsAt e behind fun stop ts => (read stop ts).bind (next stop) := by
  intro stop stop' ts hstop hts
  dsimp only
  rw [hr stop stop' ts hstop hts]
  cases h : read stop ts with
  | failed fault mid => rfl
  | done a mid => exact hn a stop stop' mid hstop (hts.suffix ((hw stop ts).of_done h).suffix)

theorem StopsAt.of_done {read : Token → List Token → Reading α} {a : α}
    (h : StopsAt e behind read) (hstop : stop.kind = .endOfInput) (hts : Unmarked ts)
    (hr : read stop ts = .done a us) :
    read stop' (ts ++ e :: behind) = .done a (us ++ e :: behind) := by
  rw [h stop stop' ts hstop hts, hr]
  rfl

theorem StopsAt.of_failed {read : Token → List Token → Reading α} {fault : ParseFault}
    (h : StopsAt e behind read) (hstop : stop.kind = .endOfInput) (hts : Unmarked ts)
    (hr : read stop ts = .failed fault us) :
    read stop' (ts ++ e :: behind) = .failed (fault.endedBy stop e) (us ++ e :: behind) := by
  rw [h stop stop' ts hstop hts, hr]
  rfl

theorem stopsAt_done (e : Token) (behind : List Token) (a : α) :
    StopsAt e behind fun _ ts => .done a ts :=
  fun _ _ _ _ _ => rfl

theorem expect_stopsAt (he : e.kind = .endOfInput) (kind : Kind) (context : String) :
    StopsAt e behind fun stop => expect stop kind context := by
  intro stop stop' ts hstop hts
  cases ts with
  | nil =>
    simp [expect, accept?, peek, he, Reading.endedBy, ParseFault.endedBy, SyntaxError.endedBy]
  | cons t us =>
    have ht := hts.head
    by_cases hk : t.kind = kind
    · simp [expect, accept?, hk ▸ ht, hk, Reading.endedBy]
    · simp [expect, accept?, peek, hk, hts.head_ne hstop, Reading.endedBy, ParseFault.endedBy,
        SyntaxError.endedBy]

theorem head_stopsAt (he : e.kind = .endOfInput) (isMutable : Bool) :
    StopsAt e behind fun stop => head stop isMutable :=
  (expect_stopsAt he _ _).bind (fun _ _ => expect_within) fun _ =>
    (expect_stopsAt he _ _).bind (fun _ _ => expect_within) fun _ =>
    (expect_stopsAt he _ _).bind (fun _ _ => expect_within) fun _ =>
    (expect_stopsAt he _ _).bind (fun _ _ => expect_within) fun _ => stopsAt_done e behind _

section Inner

variable {inner : Token → Int → List Token → Reading Node}

theorem body_stopsAt (he : e.kind = .endOfInput) (hi : StopsAt e behind fun stop => inner stop 0)
    (hw : ∀ stop ts, (inner stop 0 ts).Within ts) (opening : Token) (isMutable : Bool) :
    StopsAt e behind fun stop => body stop (inner stop) opening isMutable :=
  (head_stopsAt he isMutable).bind (fun _ _ => head_within) fun _ =>
    hi.bind hw fun _ => stopsAt_done e behind _

/-- The mark is no word, so a declaration is as mutable as without it. -/
theorem declaration_stopsAt (he : e.kind = .endOfInput)
    (hi : StopsAt e behind fun stop => inner stop 0)
    (hw : ∀ stop ts, (inner stop 0 ts).Within ts) (opening : Token) :
    StopsAt e behind fun stop => declaration stop (inner stop) opening := by
  intro stop stop' ts hstop hts
  dsimp only
  obtain ⟨word, us, rfl, hk, hread⟩ | ⟨hk, hread⟩ :=
    declaration_split stop (inner stop) opening ts
  · rw [hread, List.cons_append, declaration_marked hk]
    exact body_stopsAt he hi hw opening true stop stop' us hstop hts.tail
  · have hnone : ∀ t us, ts ++ e :: behind = t :: us → t.kind ≠ .mutWord := by
      intro t us h
      cases ts with
      | nil =>
        cases h
        simp [he]
      | cons =>
        cases h
        exact hk _ _ rfl
    rw [hread, declaration_unmarked hnone]
    exact body_stopsAt he hi hw opening false stop stop' ts hstop hts

theorem operand_stopsAt (he : e.kind = .endOfInput)
    (hi : StopsAt e behind fun stop => inner stop 0)
    (hw : ∀ stop ts, (inner stop 0 ts).Within ts) (t : Token) :
    StopsAt e behind fun stop => operand g stop (inner stop) t := by
  intro stop stop' ts hstop hts
  dsimp only
  unfold operand
  split
  · rfl
  · split
    · split <;> rfl
    · rfl
    · rfl
    · exact declaration_stopsAt he hi hw t stop stop' ts hstop hts
    · rfl

end Inner

theorem resume_stopsAt (he : e.kind = .endOfInput)
    (hx : ∀ min, StopsAt e behind fun stop => expression g stop depth min) (left : Node) :
    StopsAt e behind fun stop => resume g stop depth min left := by
  intro stop stop' ts hstop hts
  dsimp only
  induction left, ts using resume_induction g stop depth min with
  | stops left ts hend hread =>
    rw [hread]
    cases ts with
    | nil => rw [List.nil_append, resume_cons, if_pos (.inl he)]; rfl
    | cons t us =>
      have hle : (t.kind.precedence : Int) ≤ min := by
        apply hend.resolve_left
        simpa [atEnd] using hts.head
      rw [List.cons_append, resume_cons, if_pos (.inr hle)]
      rfl
  | refuses left t us ht hmin hl hread =>
    have hneg : ¬ (t.kind = .endOfInput ∨ (t.kind.precedence : Int) ≤ min) := by
      rintro (h | h)
      · exact ht h
      · omega
    rw [hread, List.cons_append, resume_cons, if_neg hneg, if_pos hl]
    rfl
  | breaks left t us fault mid ht hr hread =>
    rw [hread, List.cons_append, resume_takes ht, (hx _).of_failed hstop hts.tail hr]
    rfl
  | grows left t us right mid ht hr hread ih =>
    have hmid : Unmarked mid := hts.tail.suffix (expression_within.of_done hr).suffix
    rw [hread, List.cons_append, resume_takes ht, (hx _).of_done hstop hts.tail hr]
    exact ih hmid

theorem expression_stopsAt (he : e.kind = .endOfInput) (g : Grammar) (depth : Nat) (min : Int) :
    StopsAt e behind fun stop => expression g stop depth min := by
  induction depth generalizing min with
  | zero =>
    intro stop stop' ts hstop hts
    cases ts with
    | nil => simp [expression, peek, Reading.endedBy, ParseFault.endedBy, SyntaxError.endedBy]
    | cons t us =>
      simp [expression, peek, hts.head_ne hstop, Reading.endedBy, ParseFault.endedBy,
        SyntaxError.endedBy]
  | succ depth ih =>
    intro stop stop' ts hstop hts
    cases ts with
    | nil => simp [expression, he, Reading.endedBy, ParseFault.endedBy, SyntaxError.endedBy]
    | cons t us =>
      have hboth : StopsAt e behind fun stop us =>
          (operand g stop (expression g stop depth) t us).bind (resume g stop depth min) :=
        (operand_stopsAt he (ih 0) (fun _ _ => expression_within) t).bind
          (fun _ _ => operand_within fun _ _ => expression_within)
          fun left => resume_stopsAt he ih left
      dsimp only
      rw [List.cons_append, expression_cons hts.head, expression_cons hts.head]
      exact hboth stop stop' us hstop hts.tail

theorem sequence_stopsAt (he : e.kind = .endOfInput) (hstop : stop.kind = .endOfInput)
    (hts : Unmarked ts) : sequence g stop' limit (ts ++ e :: behind) =
      (sequence g stop limit ts).endedBy stop e behind := by
  have hread : StopsAt e behind fun stop => expression g stop limit 0 :=
    expression_stopsAt he g limit 0
  have hend : ∀ us, atEnd (us ++ e :: behind) = atEnd us := by
    intro us
    cases us with
    | nil => simp [atEnd, he]
    | cons t us => rfl
  induction ts using sequence_induction g stop limit with
  | ends ts hdone heq =>
    rw [heq, sequence_of_atEnd ((hend ts).trans hdone)]
    rfl
  | breaks ts fault rest hmore hx heq =>
    have hfailed : expression g stop' limit 0 (ts ++ e :: behind) =
        .failed (fault.endedBy stop e) (rest ++ e :: behind) := hread.of_failed hstop hts hx
    rw [heq, sequence_of_failed ((hend ts).trans hmore) hfailed]
    rfl
  | goesOn ts n rest hmore hx heq ih =>
    have hdone : expression g stop' limit 0 (ts ++ e :: behind) = .done n (rest ++ e :: behind) :=
      hread.of_done hstop hts hx
    have hrest : Unmarked rest := hts.suffix (expression_within.of_done hx).suffix
    rw [heq, sequence_of_done ((hend ts).trans hmore) hdone, ih hrest]
    rfl

end Grammar

namespace SyntaxError

variable {error : SyntaxError}

theorem code_endedBy (stop e : Token) (error : SyntaxError) :
    (error.endedBy stop e).code = error.code := by
  cases error <;> rfl

/-- A mark is reported in the same words as an end without one. -/
theorem message_endedBy (hstop : stop.kind = .endOfInput) (he : e.kind = .endOfInput)
    (error : SyntaxError) : (error.endedBy stop e).message = error.message := by
  cases error with
  | unexpected expected context found =>
    have hfound : (if found = stop then e else found).found = found.found := by
      split
      · rename_i h
        rw [h, Token.found, if_pos he, Token.found, if_pos hstop]
      · rfl
    unfold endedBy message
    dsimp only
    rw [hfound]
  | _ => rfl

theorem diagnostic_endedBy (hstop : stop.kind = .endOfInput) (he : e.kind = .endOfInput)
    (error : SyntaxError) : (error.endedBy stop e).diagnostic =
      { error.diagnostic with span := (error.endedBy stop e).span } := by
  have hhelp : (error.endedBy stop e).help = error.help := by cases error <;> rfl
  have hhints : (error.endedBy stop e).suggestions = error.suggestions := by cases error <;> rfl
  unfold diagnostic
  rw [message_endedBy hstop he, code_endedBy, hhelp, hhints]

theorem endedBy_of_atEnd (h : error.AtEnd stop) : (error.endedBy stop e).span = e.span ∧
    (error.endedBy stop e).token? = error.token?.map fun _ => e := by
  cases error with
  | unexpectedEnd expected span => exact ⟨rfl, rfl⟩
  | unexpected expected context found =>
    have hfound : found = stop := by simpa [AtEnd, code, token?] using h
    simp [endedBy, span, token?, hfound]
  | _ => simp [AtEnd, code] at h

theorem endedBy_of_ne (hc : error.code ≠ "P004") (ht : error.token? ≠ some stop) :
    error.endedBy stop e = error := by
  cases error with
  | unexpectedEnd expected span => exact absurd rfl hc
  | unexpected expected context found | tooDeep found =>
    have hfound : found ≠ stop := fun h => ht (congrArg some h)
    rw [endedBy, if_neg hfound]
  | _ => rfl

end SyntaxError

/-- Where no token marks the end, an error at the end is shown at the end token. -/
theorem ParseSession.span_of_atEnd {s : ParseSession} {error : SyntaxError}
    (hr : Automaton.Readable s.tokens) (hts : Unmarked s.tokens) (he : error ∈ s.parse.2.errors)
    (h : error.AtEnd s.stop) : error.span = s.stop.span := by
  have hcode : error.code ≠ "P005" := by
    intro hc
    simp [SyntaxError.AtEnd, hc] at h
  exact (Automaton.run_atEnd (endToken_kind s.tokens) hts (verdict_error hr he hcode) h).1

/-- The error `b` reports the same as `a`, but at the mark `e` if `a` is found at `stop`. -/
structure SyntaxError.MovedTo (stop e : Token) (a b : SyntaxError) : Prop where
  reported : b.diagnostic = { a.diagnostic with span := b.span }
  atEnd : a.AtEnd stop →
    a.span = stop.span ∧ b.span = e.span ∧ b.token? = a.token?.map fun _ => e
  other : a.code ≠ "P004" → a.token? ≠ some stop → b = a

theorem ParseSession.movedTo {s : ParseSession} {error : SyntaxError}
    (hr : Automaton.Readable s.tokens) (hts : Unmarked s.tokens) (he : e.kind = .endOfInput)
    (herror : error ∈ s.parse.2.errors) :
    error.MovedTo s.stop e (error.endedBy s.stop e) where
  reported := SyntaxError.diagnostic_endedBy (endToken_kind s.tokens) he error
  atEnd h := ⟨span_of_atEnd hr hts herror h, SyntaxError.endedBy_of_atEnd h⟩
  other := SyntaxError.endedBy_of_ne

open Automaton in
/-- A token that marks the end is like the end of the tokens. Whatever comes behind it, the
statements and the place are those that come without it, and there is an error exactly if there is
one without it. The error is reported in the same words. If it is found at the end, its place is the
mark; any other error is the same. -/
theorem parse_marked (s : ParseSession) (hr : Readable ts) (hts : Unmarked ts)
    (he : e.kind = .endOfInput) (behind : List Token) :
    ∃ nodes, (s.given ts).parse.1 = .ok nodes ∧
      (s.given (ts ++ e :: behind)).parse.1 = .ok nodes ∧
      (s.given (ts ++ e :: behind)).parse.2.current = (s.given ts).parse.2.current ∧
      List.Forall₂ (SyntaxError.MovedTo (endToken ts) e) (s.given ts).parse.2.errors
        (s.given (ts ++ e :: behind)).parse.2.errors := by
  obtain ⟨nodes, rest, fault, hread⟩ := sequence_readable s.grammar (endToken ts) s.limit hr
  have hmarked : Grammar.sequence s.grammar (endToken (ts ++ e :: behind)) s.limit
      (ts ++ e :: behind) = ⟨nodes, rest ++ e :: behind,
        (fault.map (SyntaxError.endedBy (endToken ts) e)).map .rejected⟩ := by
    rw [Grammar.sequence_stopsAt he (endToken_kind ts) hts, hread]
    cases fault <;> rfl
  have hmoved : ∀ error ∈ (s.given ts).parse.2.errors,
      error.MovedTo (endToken ts) e (error.endedBy (endToken ts) e) :=
    fun error herror => ParseSession.movedTo (s := s.given ts) hr hts he herror
  rw [ParseSession.parse_given hread] at hmoved ⊢
  rw [ParseSession.parse_given hmarked]
  refine ⟨nodes, rfl, rfl, ?_, ?_⟩
  · simp only [List.length_append, Nat.add_sub_add_right]
  · cases fault with
    | none => exact .nil
    | some error => exact .cons (hmoved error (List.mem_singleton_self error)) .nil

/-- The tokens of `a new b`, a declaration without a type. -/
def cutDeclaration : List Token :=
  [⟨.identifier, "a", .null, .origin⟩, ⟨.newWord, "new", .null, .origin⟩,
    ⟨.identifier, "b", .null, .origin⟩]

/-- A mark of the end on the ninth line. -/
def lateMark : Token :=
  ⟨.endOfInput, "", .null, { Span.origin with line := 9, line_pos := by decide }⟩

/-- A number that cannot be read, and one more mark. -/
def behindMark : List Token :=
  [⟨.number, "1e", .null, .origin⟩, lateMark]

/-- The colon is missed at the mark, and the number behind it, which cannot be read, is not. -/
theorem parse_marked_cutDeclaration :
    Automaton.Readable cutDeclaration ∧ Unmarked cutDeclaration ∧ lateMark.kind = .endOfInput ∧
    ∃ nodes b,
      (ParseSession.start cutDeclaration).parse.1 = .ok nodes ∧
      (ParseSession.start (cutDeclaration ++ lateMark :: behindMark)).parse.1 = .ok nodes ∧
      (ParseSession.start (cutDeclaration ++ lateMark :: behindMark)).parse.2.current = 3 ∧
      (ParseSession.start (cutDeclaration ++ lateMark :: behindMark)).parse.2.errors = [b] ∧
      b.code = "P002" ∧ b.token? = some lateMark ∧ b.span = lateMark.span := by
  have hr : Automaton.Readable cutDeclaration := by
    unfold Automaton.Readable
    decide +kernel
  have hts : Unmarked cutDeclaration := by
    unfold Unmarked
    decide
  have halone : (ParseSession.start cutDeclaration).parse.2.errors =
      [.unexpected .colon "after variable name" (endToken cutDeclaration)] := by
    decide +kernel
  have hplace : (ParseSession.start cutDeclaration).parse.2.current = 3 := by decide +kernel
  obtain ⟨nodes, hfirst, hsecond, hcurrent, herrors⟩ :=
    parse_marked (.start []) hr hts (e := lateMark) rfl behindMark
  have hstart : ∀ ts, (ParseSession.start []).given ts = .start ts := fun _ => rfl
  rw [hstart, hstart, halone] at herrors
  obtain ⟨b, more, hmoved, hmore, hb⟩ := List.forall₂_cons_left_iff.1 herrors
  cases List.forall₂_nil_left_iff.1 hmore
  obtain ⟨_, hspan, htoken⟩ := hmoved.atEnd (.inr ⟨rfl, rfl⟩)
  have hcode : some b.code = some "P002" := congrArg Diagnostic.code hmoved.reported
  exact ⟨hr, hts, rfl, nodes, b, hfirst, hsecond, hcurrent.trans hplace, hb,
    Option.some.inj hcode, htoken, hspan⟩

end FrontEnd
