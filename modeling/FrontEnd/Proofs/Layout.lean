import FrontEnd.Proofs.Coordinates
import FrontEnd.Proofs.Scanning
import Mathlib.Data.List.Chain

namespace FrontEnd

open Text

/-- A lexeme with the white space in front of it. -/
structure Spaced where
  gap : List Char
  lexeme : Lexeme
  blank : gap.all isBlank = true

namespace Spaced

def chars (x : Spaced) : List Char :=
  x.gap ++ x.lexeme.chars

/-- Neighbours with nothing between them must not merge. -/
def Apart (x y : Spaced) : Prop :=
  y.gap = [] → x.lexeme.merges y.lexeme = false

instance : DecidableRel Apart := fun x y =>
  inferInstanceAs (Decidable (y.gap = [] → x.lexeme.merges y.lexeme = false))

/-- The lexemes one behind the other, and white space at the end. -/
def layout (xs : List Spaced) (tail : List Char) : List Char :=
  xs.flatMap chars ++ tail

variable {x : Spaced} {xs : List Spaced} {tail : List Char}

theorem layout_cons : layout (x :: xs) tail = x.gap ++ (x.lexeme.chars ++ layout xs tail) := by
  simp [layout, chars]

/-- In a layout every lexeme stops where it should. -/
theorem stops_layout (ha : (x :: xs).IsChain Apart) (ht : tail.all isBlank = true) :
    x.lexeme.Stops (layout xs tail) := by
  have hblank : ∀ cs : List Char, cs.all isBlank = true → ∀ c ∈ cs.head?, isBlank c = true := by
    intro cs hcs c hc
    exact List.all_eq_true.1 hcs c (List.mem_of_mem_head? hc)
  cases xs with
  | nil => exact Lexeme.stops_of_blank _ (hblank tail ht)
  | cons y ys =>
    have hy : Apart x y := (List.isChain_cons_cons.1 ha).1
    rw [layout_cons]
    cases hg : y.gap with
    | nil => exact (Lexeme.stops_iff _ _ _).2 (hy hg)
    | cons c gap =>
      apply Lexeme.stops_of_blank
      intro d hd
      exact hblank y.gap y.blank d (by simpa [hg] using hd)

end Spaced

namespace Source

variable {s : Source} {c : Cursor} {t : Token} {xs : List Spaced} {tail : List Char}

theorem tokensFrom_layout (hc : c.On s.text) (hr : c.rest = Spaced.layout xs tail)
    (ha : xs.IsChain Spaced.Apart) (ht : tail.all isBlank = true) :
    (s.tokensFrom c).fault = none ∧
      List.Forall₂ (fun x t => x.lexeme.Denotes s.keywords t) xs (s.tokensFrom c).tokens := by
  induction xs generalizing c with
  | nil =>
    have hrest : c.rest = tail := hr
    rw [tokensFrom_of_blank (List.all_eq_true.1 (hrest ▸ ht))]
    exact ⟨rfl, .nil⟩
  | cons x xs ih =>
    rw [Spaced.layout_cons] at hr
    obtain ⟨t, next, hreads, hrest⟩ :=
      tokensFrom_of_lexeme hc hr (List.all_eq_true.1 x.blank) (Spaced.stops_layout ha ht)
    obtain ⟨hf, hts⟩ := ih hreads.on hrest ha.tail
    rw [hreads.tokensFrom_eq]
    exact ⟨hf, .cons hreads.denotes hts⟩

/-- Every token was read where a lexeme stands and stops. -/
theorem exists_reads (hc : c.On s.text) :
    ∀ t ∈ (s.tokensFrom c).tokens, ∃ d gap l next, s.Reads d gap l t next := by
  induction c, hc using tokensFrom_induction with
  | blank c hc hb => simp [tokensFrom_of_blank hb]
  | stray c hc gap x rest hr hg hx =>
    obtain ⟨_, hnone, _⟩ := tokensFrom_of_stray hc hr hg hx
    simp [hnone]
  | unclosed c hc gap rest hr hg hq =>
    obtain ⟨_, hnone, _⟩ := tokensFrom_of_unclosed hc hr hg hq
    simp [hnone]
  | lexeme c hc gap l t next hreads ih =>
    rw [hreads.tokensFrom_eq]
    intro u hu
    rcases List.mem_cons.mp hu with rfl | hu
    · exact ⟨c, gap, l, next, hreads⟩
    · exact ih u hu

/-- A token that is just a lexeme of the text was read from that lexeme, which stops there. -/
theorem Placed.stops {l : Lexeme} {before after : List Char}
    (htext : s.text = before ++ (l.chars ++ after)) (ht : t ∈ s.lexing.tokens)
    (hp : s.Placed before.length (before.length + l.chars.length) t) : l.Stops after := by
  obtain ⟨d, gap, k, next, h⟩ := exists_reads (Cursor.on_start s.text) t ht
  have hfirst := hp.first_unique h.placed
  have hdrop := hp.drop
  have hdrop' := h.placed.drop
  have hlen := hp.length
  have hlen' := h.placed.length
  have hoff := h.offset
  have hchars : t.lexeme.toList = k.chars := by rw [h.denotes.lexeme, String.toList_ofList]
  rw [← hfirst, hchars, h.on.rest, htext, List.drop_left] at hdrop'
  rw [hchars] at hlen hlen'
  obtain ⟨hl, hafter⟩ := List.append_inj hdrop' (by omega)
  cases Lexeme.chars_injective hl
  exact hafter ▸ h.stops

end Source

/-- Lexemes laid out with white space between any two that would merge are read back one by one:
each as its token, with its kind and its value. Where two lexemes that merge stand with nothing
between them, the first of them is no token of the source, so they are never read as neighbours. -/
theorem tokens_layout (s : Source) :
    (∀ xs tail, s.text = Spaced.layout xs tail → xs.IsChain Spaced.Apart →
      tail.all isBlank = true →
      ∃ ts, s.tokens = .ok ts ∧
        List.Forall₂ (fun x t => x.lexeme.Denotes s.keywords t) xs ts) ∧
    ∀ before (l m : Lexeme) after, s.text = before ++ (l.chars ++ (m.chars ++ after)) →
      l.merges m = true → ∀ ts, s.tokens = .ok ts →
        ∀ t ∈ ts, ¬ s.Placed before.length (before.length + l.chars.length) t := by
  constructor
  · intro xs tail htext ha ht
    obtain ⟨hf, hts⟩ := Source.tokensFrom_layout (Cursor.on_start s.text) htext ha ht
    exact ⟨_, Source.tokens_eq_ok.2 ⟨hf, rfl⟩, hts⟩
  · intro before l m after htext hm ts hts t ht hp
    obtain ⟨_, rfl⟩ := Source.tokens_eq_ok.1 hts
    have hstops := hp.stops htext ht
    rw [Lexeme.stops_iff, hm] at hstops
    cases hstops

/-- A word right behind a number, and operators with no more white space than they need. -/
def tight : List Spaced :=
  [⟨[], .number '1' ['2'] rfl rfl, rfl⟩, ⟨[], .word 'a' ['1'] rfl rfl, rfl⟩,
    ⟨[], .operator ['*'] .star rfl, rfl⟩, ⟨[' '], .operator ['=', '='] .equalEqual rfl, rfl⟩,
    ⟨[], .operator ['&'] .ampersand rfl, rfl⟩, ⟨[], .quoted ['x', ' '] (by decide), rfl⟩,
    ⟨[], .word 't' ['r', 'u', 'e'] rfl rfl, rfl⟩]

/-- The layout `12a1* ==&"x "true`. -/
def tightSource : Source :=
  .ofText "12a1* ==&\"x \"true\n" "tight" .standard

/-- The first of the two equals signs is no token. -/
theorem tokens_layout_tight : tight.IsChain Spaced.Apart ∧ ∃ ts, tightSource.tokens = .ok ts ∧
    ts.length = 7 ∧ List.Forall₂ (fun x t => x.lexeme.Denotes .standard t) tight ts ∧
    ∀ t ∈ ts, ¬ tightSource.Placed 6 7 t := by
  have hchain : tight.IsChain Spaced.Apart := by decide +kernel
  have htext : tightSource.text = Spaced.layout tight ['\n'] := by decide +kernel
  obtain ⟨hread, hmerged⟩ := tokens_layout tightSource
  obtain ⟨ts, hts, hd⟩ := hread tight ['\n'] htext hchain (by decide)
  have hequals := hmerged "12a1* ".toList (.operator ['='] .assign rfl)
    (.operator ['='] .assign rfl) "&\"x \"true\n".toList (by decide +kernel) (by decide +kernel)
    ts hts
  exact ⟨hchain, ts, hts, hd.length_eq.symm, hd, hequals⟩

end FrontEnd
