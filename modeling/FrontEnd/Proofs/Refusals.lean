import FrontEnd.Proofs.Coordinates
import FrontEnd.Proofs.Scanning
import Mathlib.Algebra.Group.Nat.Even
import Mathlib.Order.Bounds.Defs

namespace FrontEnd

namespace Text

def Outside (text : List Char) (i : Nat) : Prop :=
  Even ((text.take i).count '"')

/-- At offset `i` there is a character that may not stand outside strings, and does. -/
def Stray (text : List Char) (i : Nat) : Prop :=
  Outside text i ∧ ∃ x, text[i]? = some x ∧ isLegal x = false

/-- A piece of text with all its strings closed and nothing stray. -/
structure Sound (cs : List Char) : Prop where
  even : Even (cs.count '"')
  clean : ∀ i, ¬ Stray cs i

variable {cs xs ys : List Char} {x : Char} {i : Nat}

theorem stray_append_left (h : i < xs.length) : Stray (xs ++ ys) i ↔ Stray xs i := by
  simp only [Stray, Outside, List.take_append_of_le_length (Nat.le_of_lt h),
    List.getElem?_append_left h]

theorem stray_append_right (h : Even (xs.count '"')) :
    Stray (xs ++ ys) (xs.length + i) ↔ Stray ys i := by
  simp only [Stray, Outside, List.take_length_add_append, List.count_append, Nat.even_add, h,
    true_iff, List.getElem?_append_right (Nat.le_add_right _ _), Nat.add_sub_cancel_left]

theorem Sound.append (hx : Sound xs) (hy : Sound ys) : Sound (xs ++ ys) where
  even := by
    rw [List.count_append]
    exact hx.even.add hy.even
  clean := by
    intro i hi
    rcases Nat.lt_or_ge i xs.length with h | h
    · exact hx.clean i ((stray_append_left h).1 hi)
    · obtain ⟨j, rfl⟩ := Nat.exists_eq_add_of_le h
      exact hy.clean j ((stray_append_right hx.even).1 hi)

theorem not_stray_of_legal (h : ∀ x ∈ cs, isLegal x = true) (i : Nat) : ¬ Stray cs i := by
  intro hi
  obtain ⟨_, x, hx, hl⟩ := hi
  rw [h x (List.mem_of_getElem? hx)] at hl
  cases hl

theorem Sound.of_legal (h : ∀ x ∈ cs, isLegal x = true) (hq : '"' ∉ cs) : Sound cs where
  even := by
    rw [List.count_eq_zero.2 hq]
    exact Even.zero
  clean := not_stray_of_legal h

/-- From an opening quote to the next quote nothing is outside. -/
theorem not_stray_of_quote (hq : '"' ∉ xs) (hi : i ≤ xs.length + 1) :
    ¬ Stray ('"' :: (xs ++ ys)) i := by
  intro hs
  obtain ⟨ho, x, hx, hl⟩ := hs
  cases i with
  | zero =>
    cases hx
    cases hl
  | succ j =>
    have hnone : (xs.take j).count '"' = 0 :=
      List.count_eq_zero.2 fun hm => hq (List.mem_of_mem_take hm)
    have hle : j ≤ xs.length := by omega
    rw [Outside, List.take_succ_cons, List.take_append_of_le_length hle, List.count_cons_self,
      hnone] at ho
    exact absurd ho (by decide)

/-- A string that is closed hides what is in it. -/
theorem sound_quoted (hq : '"' ∉ xs) : Sound ('"' :: (xs ++ ['"'])) where
  even := by
    rw [List.count_cons_self, List.count_append, List.count_eq_zero.2 hq]
    decide
  clean := by
    intro i hs
    rcases Nat.lt_or_ge i (xs.length + 2) with hi | hi
    · exact not_stray_of_quote hq (by omega) hs
    · obtain ⟨_, x, hx, _⟩ := hs
      have hlen := (List.getElem?_eq_some_iff.1 hx).1
      simp only [List.length_cons, List.length_append, List.length_nil] at hlen
      omega

theorem isLeast_stray (hx : Sound xs) (hl : isLegal x = false) :
    IsLeast {i | Stray (xs ++ x :: ys) i} xs.length := by
  constructor
  · have hat : Stray (xs ++ x :: ys) (xs.length + 0) :=
      (stray_append_right hx.even).2 ⟨by simp [Outside], x, rfl, hl⟩
    exact hat
  · intro i hi
    rcases Nat.lt_or_ge i xs.length with h | h
    · exact absurd ((stray_append_left h).1 hi) (hx.clean i)
    · exact h

theorem not_stray_unclosed (hx : Sound xs) (hq : '"' ∉ ys) (i : Nat) :
    ¬ Stray (xs ++ '"' :: ys) i := by
  intro hs
  rcases Nat.lt_or_ge i xs.length with h | h
  · exact hx.clean i ((stray_append_left h).1 hs)
  · obtain ⟨j, rfl⟩ := Nat.exists_eq_add_of_le h
    have hj := (stray_append_right hx.even).1 hs
    obtain ⟨y, hy, _⟩ := hj.2
    have hlen := (List.getElem?_eq_some_iff.1 hy).1
    simp only [List.length_cons] at hlen
    have hnone : ¬ Stray ('"' :: (ys ++ [])) j := not_stray_of_quote hq (by omega)
    rw [List.append_nil] at hnone
    exact hnone hj

theorem isGreatest_quote (hq : '"' ∉ ys) :
    IsGreatest {i | (xs ++ '"' :: ys)[i]? = some '"'} xs.length := by
  constructor
  · simp
  · intro i hi
    rcases Nat.lt_or_ge xs.length i with h | h
    · obtain ⟨j, rfl⟩ := Nat.exists_eq_add_of_lt h
      have hj : ys[j]? = some '"' := by
        simpa [List.getElem?_append_right, Nat.add_assoc] using hi
      exact absurd (List.mem_of_getElem? hj) hq
    · exact h

theorem sound_gap (hg : ∀ x ∈ cs, isBlank x = true) : Sound cs := by
  apply Sound.of_legal
  · intro x hx
    simp [isLegal, hg x hx]
  · intro hm
    cases hg _ hm

end Text

open Text

theorem Lexeme.sound (l : Lexeme) : Sound l.chars := by
  have hpart : ∀ {x : Char}, isWordPart x = true → isLegal x = true := by
    intro x hx
    simp only [isWordPart, Char.isAlphanum, Bool.or_eq_true] at hx
    rcases hx with (hx | hx) | hx <;> simp [isLegal, hx]
  cases l with
  | word first more starts goesOn =>
    have hp := isWordPart_of_mem_word starts goesOn
    exact .of_legal (fun x hx => hpart (hp x hx)) fun hm => by cases hp _ hm
  | number first more starts goesOn =>
    have hd := isDigit_of_mem_number starts goesOn
    exact .of_legal (fun x hx => hpart (isWordPart_of_isDigit (hd x hx))) fun hm => by cases hd _ hm
  | quoted inner closes => exact sound_quoted closes
  | operator symbol kind listed =>
    exact .of_legal (isLegal_of_ofOperator? listed) fun hm =>
      ne_quote_of_ofOperator? listed _ hm rfl

namespace Source

variable {s : Source} {c : Cursor} {fault : Option ScanFault} {cs xs : List Char} {i : Nat}

/-- What reading finds in the text `cs` that begins at offset `i` of the source. -/
inductive Finds (s : Source) (i : Nat) (cs : List Char) : Option ScanFault → Prop
  | nothing (h : Sound cs) : Finds s i cs none
  | stray {front rest : List Char} {x : Char} {span : Span} (hcs : cs = front ++ x :: rest)
      (hf : Sound front) (hx : isLegal x = false) (hb : s.Begins (i + front.length) span)
      (he : span.endColumn = span.startColumn + 1)
      (hshown : span.lineContent.toList[span.startColumn]? = some x) :
      Finds s i cs (some (.lexical (.unknownCharacter x span)))
  | unclosed {front rest : List Char} {span : Span} (hcs : cs = front ++ '"' :: rest)
      (hf : Sound front) (hq : '"' ∉ rest) (hb : s.Begins (i + front.length) span)
      (he : span.endColumn = span.lineContent.length) :
      Finds s i cs (some (.lexical (.unterminatedString span)))

/-- A sound piece in front changes only the offsets. -/
theorem Finds.append (hx : Sound xs) (h : s.Finds (i + xs.length) cs fault) :
    s.Finds i (xs ++ cs) fault := by
  cases h with
  | nothing h => exact .nothing (hx.append h)
  | @stray front rest x span hcs hf hl hb he hshown =>
    have hall : xs ++ cs = (xs ++ front) ++ x :: rest := by rw [hcs, List.append_assoc]
    refine .stray hall (hx.append hf) hl ?_ he hshown
    rwa [List.length_append, ← Nat.add_assoc]
  | @unclosed front rest span hcs hf hq hb he =>
    have hall : xs ++ cs = (xs ++ front) ++ '"' :: rest := by rw [hcs, List.append_assoc]
    refine .unclosed hall (hx.append hf) hq ?_ he
    rwa [List.length_append, ← Nat.add_assoc]

theorem tokensFrom_finds (hc : c.On s.text) :
    s.Finds c.position.offset c.rest (s.tokensFrom c).fault := by
  induction c, hc using tokensFrom_induction with
  | blank c hc hb =>
    rw [tokensFrom_of_blank hb]
    exact .nothing (sound_gap hb)
  | stray c hc gap x rest hr hg hx =>
    obtain ⟨span, _, hfault, hb, he, hshown⟩ := tokensFrom_of_stray hc hr hg hx
    rw [hfault]
    exact .stray hr (sound_gap hg) hx hb he hshown
  | unclosed c hc gap rest hr hg hq =>
    obtain ⟨span, _, hfault, hb, he⟩ := tokensFrom_of_unclosed hc hr hg hq
    rw [hfault]
    exact .unclosed hr (sound_gap hg) hq hb he
  | lexeme c hc gap l t next h ih =>
    have hpiece : Sound (gap ++ l.chars) := (sound_gap h.blank).append l.sound
    rw [h.offset, Nat.add_assoc, ← List.length_append] at ih
    rw [h.tokensFrom_eq, h.rest, ← List.append_assoc]
    exact ih.append hpiece

end Source

/-- The first character that is outside all strings and begins no lexeme is refused where it
stands. If there is none, but the number of quotes is odd, then the last quote is refused with the
rest of its line. All other sources are read. -/
theorem tokens_refused (s : Source) :
    ((∃ i, Stray s.text i) → ∃ k x span, IsLeast {i | Stray s.text i} k ∧
      s.text[k]? = some x ∧ s.tokens = .error (.lexical (.unknownCharacter x span)) ∧
      s.Begins k span ∧ span.endColumn = span.startColumn + 1 ∧
      span.lineContent.toList[span.startColumn]? = some x) ∧
    ((∀ i, ¬ Stray s.text i) → ¬ Even (s.text.count '"') →
      ∃ k span, IsGreatest {i | s.text[i]? = some '"'} k ∧
      s.tokens = .error (.lexical (.unterminatedString span)) ∧ s.Begins k span ∧
      span.endColumn = span.lineContent.length) ∧
    ((∀ i, ¬ Stray s.text i) → Even (s.text.count '"') → ∃ ts, s.tokens = .ok ts) := by
  have hfinds : s.Finds 0 s.text s.lexing.fault := Source.tokensFrom_finds (Cursor.on_start s.text)
  generalize hfault : s.lexing.fault = fault at hfinds
  cases hfinds with
  | nothing h =>
    refine ⟨fun hstray => ?_, fun _ hodd => absurd h.even hodd, fun _ _ => ?_⟩
    · obtain ⟨i, hi⟩ := hstray
      exact absurd hi (h.clean i)
    · exact ⟨_, Source.tokens_eq_ok.2 ⟨hfault, rfl⟩⟩
  | @stray front rest x span hcs hf hx hb he hshown =>
    have hleast : IsLeast {i | Stray s.text i} front.length := hcs ▸ isLeast_stray hf hx
    rw [Nat.zero_add] at hb
    refine ⟨fun _ => ⟨front.length, x, span, hleast, ?_, Source.tokens_eq_error.2 hfault, hb, he,
      hshown⟩, fun hnone => absurd hleast.1 (hnone _), fun hnone => absurd hleast.1 (hnone _)⟩
    simp [hcs]
  | @unclosed front rest span hcs hf hq hb he =>
    have hnone : ∀ i, ¬ Stray s.text i := hcs ▸ not_stray_unclosed hf hq
    have hodd : ¬ Even (s.text.count '"') := by
      rw [hcs, List.count_append, List.count_cons_self, List.count_eq_zero.2 hq, Nat.even_add]
      simp [hf.even]
    have hgreatest : IsGreatest {i | s.text[i]? = some '"'} front.length :=
      hcs ▸ isGreatest_quote hq
    rw [Nat.zero_add] at hb
    refine ⟨fun hstray => ?_, fun _ _ => ⟨front.length, span, hgreatest,
      Source.tokens_eq_error.2 hfault, hb, he⟩, fun _ heven => absurd heven hodd⟩
    obtain ⟨i, hi⟩ := hstray
    exact absurd hi (hnone i)

/-- A character that is harmless in the string of the first line, and stray on the second. -/
def strayMark : Source :=
  .ofText "a \"@\"\r\n  @ \"" "stray" .standard

/-- A string that runs to the end of the text. -/
def openString : Source :=
  .ofText "a = \"b\r\nc" "open" .standard

theorem tokens_refused_strayMark : Stray strayMark.text 9 ∧
    (∃ k x span, IsLeast {i | Stray strayMark.text i} k ∧ strayMark.text[k]? = some x ∧
      strayMark.tokens = .error (.lexical (.unknownCharacter x span)) ∧
      strayMark.Begins k span ∧ span.endColumn = span.startColumn + 1 ∧
      span.lineContent.toList[span.startColumn]? = some x) ∧
    (∀ i, ¬ Stray openString.text i) ∧ ¬ Even (openString.text.count '"') ∧
    ∃ k span, IsGreatest {i | openString.text[i]? = some '"'} k ∧
      openString.tokens = .error (.lexical (.unterminatedString span)) ∧
      openString.Begins k span ∧ span.endColumn = span.lineContent.length := by
  have hstray : Stray strayMark.text 9 := ⟨by unfold Outside; decide +kernel, '@', rfl, by decide⟩
  have hlegal : openString.text.all isLegal = true := by decide +kernel
  have hnone := not_stray_of_legal (List.all_eq_true.1 hlegal)
  have hodd : ¬ Even (openString.text.count '"') := by decide +kernel
  exact ⟨hstray, (tokens_refused strayMark).1 ⟨9, hstray⟩, hnone, hodd,
    (tokens_refused openString).2.1 hnone hodd⟩

end FrontEnd
