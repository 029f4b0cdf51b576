import FrontEnd.Proofs.Placement
import Mathlib.Data.List.Forall2

namespace FrontEnd

open Text

/-- The span `a` ends before the span `b` begins. -/
structure Span.Before (a b : Span) : Prop where
  increasing : a.line < b.line ∨ a.line = b.line ∧ a.startColumn < b.startColumn
  apart : a.line = b.line → a.endColumn ≤ b.startColumn

/-- The line of a token shows the token between its columns: all of it, or what is on the first
line, without carriage returns at the end. -/
def Token.Shown (t : Token) : Prop :=
  (t.span.lineContent.toList.take t.span.endColumn).drop t.span.startColumn =
    if '\n' ∈ t.lexeme.toList then trimReturns (t.lexeme.toList.takeWhile (· ≠ '\n'))
    else t.lexeme.toList

namespace Source

variable {s : Source} {c : Cursor} {t u : Token} {ts : List Token} {bounds : List (Nat × Nat)}
  {i first last first' last' : Nat} {x : Char}

theorem Placed.drop (h : s.Placed first last t) :
    s.text.drop first = t.lexeme.toList ++ s.text.drop last := by
  have := h.nonempty
  have := h.within
  rw [h.lexeme, drop_slice (by omega) h.within]

theorem Placed.length (h : s.Placed first last t) : first + t.lexeme.toList.length = last := by
  have := h.nonempty
  have := h.within
  rw [h.lexeme]
  simp
  omega

/-- A token is in one place only. -/
theorem Placed.first_unique (h : s.Placed first last t) (h' : s.Placed first' last' t) :
    first = first' := by
  have := h.nonempty
  have := h.within
  have := h'.nonempty
  have := h'.within
  have hline := h.line.symm.trans h'.line
  have hcolumn := h.startColumn.symm.trans h'.startColumn
  exact eq_of_feeds_of_column (by omega) (by omega) (by omega) hcolumn

/-- The first character of a token keeps what stands before it from being trimmed. -/
theorem Placed.content (h : s.Placed first last t) : t.span.lineContent.toList =
    lead s.text first ++ trimReturns ((t.lexeme.toList ++ s.text.drop last).takeWhile (· ≠ '\n')) := by
  have hle : first ≤ s.text.length := by
    have := h.nonempty
    have := h.within
    omega
  obtain ⟨⟨x, hx, hb⟩, _⟩ := h.solid
  obtain ⟨more, hmore⟩ := List.head?_eq_some_iff.1 hx
  have hn : x ≠ '\n' := ne_of_visible hb rfl
  have hr : x ≠ '\r' := ne_of_visible hb rfl
  rw [h.lineContent, String.toList_ofList, lineAround_eq hle, h.drop, trimReturns_append_of_head]
  exact ⟨x, by simp [hmore, hn], hr⟩

theorem Placed.shown (h : s.Placed first last t) : t.Shown := by
  have hcontent := h.content
  have hend := h.endColumn
  have hstart : t.span.startColumn = (lead s.text first).length := by
    have := h.nonempty
    have := h.within
    rw [h.startColumn, length_lead (by omega)]
  unfold Token.Shown
  by_cases hn : '\n' ∈ t.lexeme.toList
  · rw [if_pos hn] at hend ⊢
    have hcut : (t.lexeme.toList ++ s.text.drop last).takeWhile (· ≠ '\n') =
        t.lexeme.toList.takeWhile (· ≠ '\n') := takeWhile_append_of_mem hn
    rw [hend, ← String.length_toList, List.take_length, hcontent, hstart, List.drop_left, hcut]
  · rw [if_neg hn] at hend ⊢
    have hflat : (t.lexeme.toList ++ s.text.drop last).takeWhile (· ≠ '\n') =
        t.lexeme.toList ++ (s.text.drop last).takeWhile (· ≠ '\n') := by
      apply List.takeWhile_append_of_pos
      intro x hx
      simp only [ne_eq, decide_eq_true_eq]
      intro he
      exact hn (he ▸ hx)
    obtain ⟨_, x, hx, hb⟩ := h.solid
    rw [hend, hcontent, hflat, trimReturns_append_of_getLast ⟨x, hx, ne_of_visible hb rfl⟩, hstart,
      ← String.length_toList, ← List.append_assoc, ← List.length_append, List.take_left,
      List.drop_left]

theorem Placed.before (h : s.Placed first last t) (h' : s.Placed first' last' u)
    (hle : last ≤ first') : t.span.Before u.span := by
  have hlen := h.length
  have hle' : first' ≤ s.text.length := by
    have := h'.nonempty
    have := h'.within
    omega
  have hgap : s.text.drop last = (s.text.take first').drop last ++ s.text.drop first' :=
    drop_slice hle hle'
  have hglen : last + ((s.text.take first').drop last).length = first' := by
    simp
    omega
  have hf := feeds_add h.drop
  have hf' := feeds_add hgap
  rw [hlen] at hf
  rw [hglen] at hf'
  -- either the line ends somewhere between the two starts, or both are on it
  by_cases hsame : feeds s.text first' = feeds s.text first
  · have hn : '\n' ∉ t.lexeme.toList := List.count_eq_zero.1 (by omega)
    have hn' : '\n' ∉ (s.text.take first').drop last := List.count_eq_zero.1 (by omega)
    have hls := lineStart_add h.drop hn
    have hls' := lineStart_add hgap hn'
    rw [hlen] at hls
    rw [hglen] at hls'
    have hend := h.endColumn
    rw [if_neg hn, h.startColumn, ← String.length_toList] at hend
    have hlow := lineStart_le s.text first
    have hpos := h.nonempty
    refine ⟨.inr ⟨?_, ?_⟩, fun _ => ?_⟩
    · rw [h.line, h'.line, hsame]
    · rw [h.startColumn, h'.startColumn]
      omega
    · rw [hend, h'.startColumn]
      omega
  · have hlt : t.span.line < u.span.line := by
      rw [h.line, h'.line]
      omega
    exact ⟨.inl hlt, fun he => absurd he (Nat.ne_of_lt hlt)⟩

/-- The tokens `ts` lie from offset `i` on between the offsets `bounds`, and all else there is white
space. -/
inductive Tiled (s : Source) : Nat → List (Nat × Nat) → List Token → Prop
  | done {i : Nat} (hb : ∀ x ∈ s.text.drop i, isBlank x = true) : Tiled s i [] []
  | token {i first last : Nat} {t : Token} {bounds : List (Nat × Nat)} {ts : List Token}
      (hi : i ≤ first) (hb : ∀ x ∈ (s.text.take first).drop i, isBlank x = true)
      (hp : s.Placed first last t) (hm : Tiled s last bounds ts) :
      Tiled s i ((first, last) :: bounds) (t :: ts)

theorem tokensFrom_tiled (hc : c.On s.text) (h : (s.tokensFrom c).fault = none) :
    ∃ bounds, s.Tiled c.position.offset bounds (s.tokensFrom c).tokens := by
  generalize hlen : c.rest.length = len
  induction len using Nat.strongRecOn generalizing c with
  | ind len ih =>
    have hnext := hc.skipWhile isBlank
    have hblank : ∀ x ∈ c.rest.takeWhile isBlank, isBlank x = true :=
      List.all_eq_true.1 List.all_takeWhile
    rw [tokensFrom] at h ⊢
    dsimp only at h ⊢
    split at h
    · rename_i hend
      rw [if_pos hend]
      have hall : c.rest = c.rest.takeWhile isBlank := by
        have hdrop : c.rest.dropWhile isBlank = [] := by simpa [Cursor.skipWhile, Cursor.atEnd] using hend
        rw [← List.append_nil (c.rest.takeWhile isBlank), ← hdrop, List.takeWhile_append_dropWhile]
      exact ⟨[], .done (by rwa [hc.rest, hall])⟩
    · rename_i hend
      rw [if_neg hend]
      split at h
      · cases h
      · rename_i t ht
        have hhead := List.head?_dropWhile_not isBlank c.rest
        have hvisible : ∀ x ∈ (c.skipWhile isBlank).rest.head?, isBlank x = false := by
          intro x hx
          have hx' : (c.rest.dropWhile isBlank).head? = some x := hx
          simpa [hx'] using hhead
        have hstep := token_steps hnext hvisible ht
        have hlt := length_rest_token_lt ht
        have hle := Cursor.length_rest_skipWhile_le c isBlank
        have hoff : (c.skipWhile isBlank).position.offset =
            c.position.offset + (c.rest.takeWhile isBlank).length := Position.afterAll_offset _ _
        have hsplit : s.text.drop c.position.offset =
            c.rest.takeWhile isBlank ++ c.rest.dropWhile isBlank := by
          rw [List.takeWhile_append_dropWhile, hc.rest]
        obtain ⟨bounds, hm⟩ := ih _ (by omega) hstep.on h rfl
        refine ⟨_, .token ?_ ?_ hstep.placed hm⟩
        · omega
        · rw [hoff, slice_eq hsplit]
          exact hblank

theorem Tiled.forall₂ (h : s.Tiled i bounds ts) :
    List.Forall₂ (fun b t => s.Placed b.1 b.2 t) bounds ts := by
  induction h with
  | done => exact .nil
  | token _ _ hp _ ih => exact .cons hp ih

theorem Tiled.start_le (h : s.Tiled i bounds ts) : ∀ b ∈ bounds, i ≤ b.1 := by
  induction h with
  | done => simp
  | token hi _ hp _ ih =>
    intro b hb
    have := hp.nonempty
    rcases List.mem_cons.mp hb with rfl | hb
    · exact hi
    · have := ih b hb
      omega

theorem Tiled.ordered (h : s.Tiled i bounds ts) : bounds.Pairwise fun a b => a.2 ≤ b.1 := by
  induction h with
  | done => exact .nil
  | token _ _ _ hm ih => exact .cons hm.start_le ih

theorem Tiled.blank (h : s.Tiled i bounds ts) {j : Nat} (hj : i ≤ j) (hx : s.text[j]? = some x)
    (hout : ∀ b ∈ bounds, ¬(b.1 ≤ j ∧ j < b.2)) : isBlank x = true := by
  induction h with
  | @done i hb =>
    apply hb
    apply List.mem_of_getElem? (i := j - i)
    rw [List.getElem?_drop, Nat.add_sub_cancel' hj, hx]
  | @token i first last t bounds ts hi hb hp hm ih =>
    by_cases hlow : j < first
    · apply hb
      apply List.mem_of_getElem? (i := j - i)
      rw [List.getElem?_drop, Nat.add_sub_cancel' hj, List.getElem?_take_of_lt hlow, hx]
    · have hhigh : last ≤ j := by
        have := hout (first, last) (by simp)
        omega
      exact ih hhigh fun b hb => hout b (by simp [hb])

theorem Tiled.placed (h : s.Tiled i bounds ts) :
    ∀ t ∈ ts, ∃ first last, i ≤ first ∧ s.Placed first last t := by
  induction h with
  | done => simp
  | token hi _ hp _ ih =>
    intro u hu
    have := hp.nonempty
    rcases List.mem_cons.mp hu with rfl | hu
    · exact ⟨_, _, hi, hp⟩
    · obtain ⟨f, l, hf, hpu⟩ := ih u hu
      exact ⟨f, l, by omega, hpu⟩

theorem Tiled.before (h : s.Tiled i bounds ts) : ts.Pairwise fun t u => t.span.Before u.span := by
  induction h with
  | done => exact .nil
  | token _ _ hp hm ih =>
    refine .cons ?_ ih
    intro u hu
    obtain ⟨f, l, hf, hpu⟩ := hm.placed u hu
    exact hp.before hpu hf

theorem tokens_eq_ok : s.tokens = .ok ts ↔ s.lexing.fault = none ∧ s.lexing.tokens = ts := by
  unfold tokens
  split <;> simp_all

theorem tokens_eq_error {fault : ScanFault} :
    s.tokens = .error fault ↔ s.lexing.fault = some fault := by
  unfold tokens
  split <;> simp_all

end Source

/-- The tokens of a source lie one behind the other in it with nothing but white space between, and
each has the line and the columns of its place. So a line shows its tokens where they are, and their
spans come in order and do not overlap. -/
theorem tokens_placed (s : Source) (ts : List Token) (h : s.tokens = .ok ts) :
    ∃ bounds : List (Nat × Nat), List.Forall₂ (fun b t => s.Placed b.1 b.2 t) bounds ts ∧
      (bounds.Pairwise fun a b => a.2 ≤ b.1) ∧
      (∀ i x, s.text[i]? = some x → (∀ b ∈ bounds, ¬(b.1 ≤ i ∧ i < b.2)) → isBlank x = true) ∧
      (∀ t ∈ ts, t.Shown) ∧ ts.Pairwise fun t u => t.span.Before u.span := by
  obtain ⟨hf, rfl⟩ := Source.tokens_eq_ok.1 h
  obtain ⟨bounds, htiled⟩ := Source.tokensFrom_tiled (Cursor.on_start s.text) hf
  refine ⟨bounds, htiled.forall₂, htiled.ordered, ?_, ?_, htiled.before⟩
  · intro i x hx hout
    exact htiled.blank (Nat.zero_le i) hx hout
  · intro t ht
    obtain ⟨_, _, _, hp⟩ := htiled.placed t ht
    exact hp.shown

/-- A string over two lines, and carriage returns at the end of both. -/
def twoLines : Source := .ofText "a = \"x\r\ny\" +\r" "lines" .standard

theorem tokens_placed_twoLines : twoLines.tokens = .ok twoLines.lexing.tokens ∧
    (twoLines.lexing.tokens.map fun t => (t.span.line, t.span.startColumn, t.span.endColumn)) =
      [(1, 0, 1), (1, 2, 3), (1, 4, 6), (2, 3, 4)] ∧
    (∀ t ∈ twoLines.lexing.tokens, t.Shown) ∧
    twoLines.lexing.tokens.Pairwise fun t u => t.span.Before u.span := by
  have hf : twoLines.lexing.fault = none := by decide +kernel
  have ht := Source.tokens_eq_ok.2 ⟨hf, rfl⟩
  obtain ⟨_, _, _, _, hshown, hbefore⟩ := tokens_placed twoLines _ ht
  exact ⟨ht, by decide +kernel, hshown, hbefore⟩

end FrontEnd
