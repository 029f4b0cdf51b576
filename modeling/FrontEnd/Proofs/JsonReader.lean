import FrontEnd.Proofs.JsonGrammar
import FrontEnd.Proofs.Placement

namespace FrontEnd.Json

def skipGap (text : List Char) : List Char :=
  text.dropWhile isGap

def readEscape : List Char → Option (Nat × List Char)
  | 'u' :: a :: b :: c :: d :: rest => (hexUnit? a b c d).map (·, rest)
  | c :: rest => (shortEscape? c).map (·, rest)
  | [] => none

/-- Up to the closing quote and over it; each round takes a character at least. -/
def readBody : Nat → List Char → Option (List Nat × List Char)
  | rounds + 1, c :: rest =>
    if c = '"' then some ([], rest)
    else if c = '\\' then do
      let (unit, rest) ← readEscape rest
      let (units, rest) ← readBody rounds rest
      return (unit :: units, rest)
    else if c.toNat < 0x20 then none
    else do
      let (units, rest) ← readBody rounds rest
      return (c.toNat :: units, rest)
  | _, _ => none

def readString (text : List Char) : Option (List Nat × List Char) :=
  (readBody (text.length + 1) text).map fun (units, rest) => (join units, rest)

section Sequences

variable {α : Type} (one : List Char → Option (α × List Char))

/-- What `one` reads, with gaps around it. -/
def readPadded (text : List Char) : Option (α × List Char) :=
  (one (skipGap text)).map fun (a, rest) => (a, skipGap rest)

/-- One after the other, with commas between them, up to the closing mark and over it. -/
def readSequence (close : Char) : Nat → List Char → Option (List α × List Char)
  | 0, _ => none
  | rounds + 1, text =>
    match one text with
    | some (a, c :: rest) =>
      if c = close then some ([a], rest)
      else if c = ',' then (readSequence close rounds rest).map fun (as, rest) => (a :: as, rest)
      else none
    | _ => none

/-- What stands between brackets, of which the first is behind. -/
def readBracket (close : Char) (text : List Char) : Option (List α × List Char) :=
  match skipGap text with
  | [] => none
  | c :: rest => if c = close then some ([], rest) else readSequence one close (text.length + 1) text

/-- A key, a colon, and what `one` reads behind it with gaps around it. -/
def readField (text : List Char) : Option ((List Nat × α) × List Char) :=
  match skipGap text with
  | '"' :: rest => do
    let (points, rest) ← readString rest
    match skipGap rest with
    | ':' :: rest => (readPadded one rest).map fun (a, rest) => ((points, a), rest)
    | _ => none
  | _ => none

end Sequences

def readWord (dialect : Dialect) (text : List Char) : Option (Document × List Char) :=
  (word? dialect (text.takeWhile isWordChar)).map (·, text.dropWhile isWordChar)

/-- The value at the head of a text, of a depth below the bound, and what is behind it. -/
def readValue (dialect : Dialect) : Nat → List Char → Option (Document × List Char)
  | 0, _ => none
  | bound + 1, text =>
    match text with
    | '"' :: rest => (readString rest).map fun (points, rest) => (.string points, rest)
    | '[' :: rest =>
      (readBracket (readPadded (readValue dialect bound)) ']' rest).map fun (ds, rest) =>
        (.array ds, rest)
    | '\x7b' :: rest =>
      (readBracket (readField (readValue dialect bound)) '\x7d' rest).map fun (ds, rest) =>
        (.object ds, rest)
    | text => readWord dialect text

/-- A text is a value with gaps around it. -/
def read? (dialect : Dialect) (text : List Char) : Option Document :=
  match readPadded (readValue dialect (text.length + 1)) text with
  | some (d, []) => some d
  | _ => none

variable {dialect : Dialect} {part : Part} {d : Document} {c : Char} {n bound rounds : Nat}
  {units : List Nat} {cs gap rest : List Char}

theorem readEscape_short (h : shortEscape? c = some n) : readEscape (c :: rest) = some (n, rest) := by
  have hu : c ≠ 'u' := by
    rintro rfl
    cases h
  rw [readEscape, h]
  · rfl
  · rintro _ _ _ _ _ rfl
    contradiction

theorem readBody_complete (h : Body units cs) (hlen : cs.length < rounds) :
    readBody rounds (cs ++ '"' :: rest) = some (units, rest) := by
  induction h generalizing rounds with
  | nil =>
    obtain ⟨k, rfl⟩ := Nat.exists_eq_add_of_lt hlen
    simp [readBody]
  | @plain c units cs hlow hquote hslash _ ih =>
    obtain ⟨k, rfl⟩ : ∃ k, rounds = k + 1 := ⟨rounds - 1, by omega⟩
    have hk : cs.length < k := by simpa using hlen
    rw [List.cons_append, readBody, if_neg hquote, if_neg hslash, if_neg (Nat.not_lt.2 hlow), ih hk]
    rfl
  | @short c n units cs hc _ ih =>
    obtain ⟨k, rfl⟩ : ∃ k, rounds = k + 1 := ⟨rounds - 1, by omega⟩
    have hk : cs.length < k := by
      rw [List.length_cons, List.length_cons] at hlen
      omega
    rw [List.cons_append, List.cons_append, readBody, if_neg (by decide), if_pos rfl,
      readEscape_short hc]
    simp only [Option.bind_eq_bind, Option.bind_some, ih hk]
    rfl
  | @unit a b c d n units cs hn _ ih =>
    obtain ⟨k, rfl⟩ : ∃ k, rounds = k + 1 := ⟨rounds - 1, by omega⟩
    have hk : cs.length < k := by
      simp only [List.length_cons] at hlen
      omega
    have hescape : readEscape ('u' :: a :: b :: c :: d :: (cs ++ '"' :: rest)) =
        some (n, cs ++ '"' :: rest) := by
      rw [readEscape, hn]
      rfl
    simp only [List.cons_append]
    rw [readBody, if_neg (by decide), if_pos rfl, hescape]
    simp only [Option.bind_eq_bind, Option.bind_some, ih hk]
    rfl

theorem readString_complete (h : Body units cs) :
    readString (cs ++ '"' :: rest) = some (join units, rest) := by
  have hlen : cs.length < (cs ++ '"' :: rest).length + 1 := by
    rw [List.length_append]
    omega
  rw [readString, readBody_complete h hlen]
  rfl

theorem readWord_complete (h : word? dialect cs = some d)
    (hrest : ∀ c ∈ rest.head?, isWordChar c = false) :
    readWord dialect (cs ++ rest) = some (d, rest) := by
  have hall := List.all_eq_true.1 (all_of_word h).2
  rw [readWord, takeWhile_append_stops hall hrest, dropWhile_append_stops hall hrest, h]
  rfl

/-- A character that ends a word and stands in no gap. -/
def Closes (c : Char) : Prop :=
  isWordChar c = false ∧ isGap c = false

/-- A character with which no gap and no end of a bracket begins. -/
def Opens (c : Char) : Prop :=
  isGap c = false ∧ c ≠ ']' ∧ c ≠ '\x7d'

theorem head_cons {p : Char → Prop} {x : Char} (h : p x) : ∀ c ∈ (x :: rest).head?, p c := by
  intro c hc
  obtain rfl : x = c := by simpa using hc
  exact h

theorem skipGap_append (hg : gap.all isGap = true) (hrest : ∀ c ∈ rest.head?, isGap c = false) :
    skipGap (gap ++ rest) = rest :=
  dropWhile_append_stops (List.all_eq_true.1 hg) hrest

theorem head_append_gap (hg : gap.all isGap = true) (hrest : ∀ c ∈ rest.head?, Closes c) :
    ∀ c ∈ (gap ++ rest).head?, isWordChar c = false := by
  intro c hc
  cases gap with
  | nil => exact (hrest c hc).1
  | cons g gap =>
    obtain rfl : g = c := by simpa using hc
    have hg : isGap g = true := (List.all_eq_true.1 hg) g List.mem_cons_self
    simp only [isGap, Bool.or_eq_true, beq_iff_eq] at hg
    obtain ((rfl | rfl) | rfl) | rfl := hg <;> decide

theorem opens_of_isWordChar (h : isWordChar c = true) : Opens c := by
  refine ⟨?_, ?_, ?_⟩
  · by_contra hg
    simp only [isGap, Bool.not_eq_false, Bool.or_eq_true, beq_iff_eq] at hg
    obtain ((rfl | rfl) | rfl) | rfl := hg <;> cases h
  · rintro rfl
    cases h
  · rintro rfl
    cases h

theorem Spells.opens_value (h : Spells dialect (.value d) cs) :
    ∃ c more, cs = c :: more ∧ Opens c := by
  cases h with
  | word hw =>
    obtain ⟨hne, hall⟩ := all_of_word hw
    obtain ⟨c, more, rfl⟩ := List.exists_cons_of_ne_nil hne
    exact ⟨c, more, rfl, opens_of_isWordChar (List.all_eq_true.1 hall c List.mem_cons_self)⟩
  | string => exact ⟨_, _, rfl, by decide, by decide, by decide⟩
  | emptyArray => exact ⟨_, _, rfl, by decide, by decide, by decide⟩
  | array => exact ⟨_, _, rfl, by decide, by decide, by decide⟩
  | emptyObject => exact ⟨_, _, rfl, by decide, by decide, by decide⟩
  | object => exact ⟨_, _, rfl, by decide, by decide, by decide⟩

/-- Behind its gap every part begins with a character of its own. -/
theorem Spells.opens (h : Spells dialect part cs) :
    ∃ gap c more, cs = gap ++ c :: more ∧ gap.all isGap = true ∧ Opens c := by
  have hvalue : ∀ {d cs}, Spells dialect (.value d) cs →
      ∃ gap c more, cs = gap ++ c :: more ∧ gap.all isGap = true ∧ Opens c := by
    intro d cs h
    obtain ⟨c, more, rfl, hc⟩ := h.opens_value
    exact ⟨[], c, more, rfl, rfl, hc⟩
  induction h with
  | word hw => exact hvalue (.word hw)
  | string hb => exact hvalue (.string hb)
  | emptyArray hg => exact hvalue (.emptyArray hg)
  | array hs => exact hvalue (.array hs)
  | emptyObject hg => exact hvalue (.emptyObject hg)
  | object hs => exact hvalue (.object hs)
  | @item d before cs after hb hs ha ih =>
    obtain ⟨c, more, rfl, hc⟩ := hs.opens_value
    exact ⟨before, c, more ++ after, rfl, hb, hc⟩
  | lastItem _ ih =>
    obtain ⟨gap, c, more, rfl, hg, hc⟩ := ih
    exact ⟨gap, c, more ++ [']'], by simp, hg, hc⟩
  | @nextItem d ds cs rest _ _ ih =>
    obtain ⟨gap, c, more, rfl, hg, hc⟩ := ih
    exact ⟨gap, c, more ++ ',' :: rest, by simp, hg, hc⟩
  | @field units d before key after cs hb hk ha hs ih =>
    exact ⟨before, '"', _, rfl, hb, by decide, by decide, by decide⟩
  | lastField _ ih =>
    obtain ⟨gap, c, more, rfl, hg, hc⟩ := ih
    exact ⟨gap, c, more ++ ['\x7d'], by simp, hg, hc⟩
  | @nextField points d ds cs rest _ _ ih =>
    obtain ⟨gap, c, more, rfl, hg, hc⟩ := ih
    exact ⟨gap, c, more ++ ',' :: rest, by simp, hg, hc⟩

section Sequences

variable {α : Type} {one : List Char → Option (α × List Char)} {a : α} {as : List α} {close : Char}

theorem readPadded_append (hg : gap.all isGap = true) (hrest : ∀ c ∈ rest.head?, Closes c)
    (h : one (skipGap cs) = some (a, gap ++ rest)) : readPadded one cs = some (a, rest) := by
  rw [readPadded, h]
  simp only [Option.map_some, skipGap_append hg fun c hc => (hrest c hc).2]

theorem readSequence_last (h : one cs = some (a, close :: rest)) :
    readSequence one close (rounds + 1) cs = some ([a], rest) := by
  simp only [readSequence, h, if_pos]

theorem readSequence_next (hc : close ≠ ',') (h : one cs = some (a, ',' :: gap))
    (hmore : readSequence one close rounds gap = some (as, rest)) :
    readSequence one close (rounds + 1) cs = some (a :: as, rest) := by
  simp only [readSequence, h, if_neg hc.symm, if_pos, hmore, Option.map_some]

theorem readBracket_empty (hg : gap.all isGap = true) (hc : isGap close = false) :
    readBracket one close (gap ++ close :: rest) = some ([], rest) := by
  have hskip : skipGap (gap ++ close :: rest) = close :: rest :=
    skipGap_append hg (head_cons hc)
  simp only [readBracket, hskip, if_pos]

/-- What does not end a bracket at once is the first of a sequence. -/
theorem readBracket_eq (h : Spells dialect part cs) (hc : close = ']' ∨ close = '\x7d') :
    readBracket one close (cs ++ rest) =
      readSequence one close ((cs ++ rest).length + 1) (cs ++ rest) := by
  obtain ⟨gap, c, more, rfl, hg, hgap, hsquare, hcurly⟩ := h.opens
  have hskip : skipGap (gap ++ c :: more ++ rest) = c :: (more ++ rest) := by
    rw [List.append_assoc]
    exact skipGap_append hg (head_cons hgap)
  have hne : c ≠ close := by
    rcases hc with rfl | rfl
    · exact hsquare
    · exact hcurly
  simp only [readBracket, hskip, if_neg hne]

theorem readField_append {before key after : List Char} (hb : before.all isGap = true)
    (hk : Body units key) (ha : after.all isGap = true)
    (h : readPadded one cs = some (a, rest)) :
    readField one (before ++ '"' :: (key ++ '"' :: (after ++ ':' :: cs))) =
      some ((join units, a), rest) := by
  have hbefore : skipGap (before ++ '"' :: (key ++ '"' :: (after ++ ':' :: cs))) =
      '"' :: (key ++ '"' :: (after ++ ':' :: cs)) :=
    skipGap_append hb (head_cons rfl)
  have hafter : skipGap (after ++ ':' :: cs) = ':' :: cs := skipGap_append ha (head_cons rfl)
  simp only [readField, hbefore, readString_complete hk, Option.bind_eq_bind, Option.bind_some,
    hafter, h, Option.map_some]

end Sequences

/-- How the reader reads a part in front of anything that can follow it. -/
def Part.ReadIn (dialect : Dialect) (cs : List Char) : Part → Prop
  | .value d => ∀ bound rest, cs.length < bound → (∀ c ∈ rest.head?, isWordChar c = false) →
      readValue dialect bound (cs ++ rest) = some (d, rest)
  | .item d => ∀ bound rest, cs.length < bound → (∀ c ∈ rest.head?, Closes c) →
      readPadded (readValue dialect bound) (cs ++ rest) = some (d, rest)
  | .items ds => ∀ bound rounds rest, cs.length < bound → cs.length < rounds →
      readSequence (readPadded (readValue dialect bound)) ']' rounds (cs ++ rest) = some (ds, rest)
  | .field points d => ∀ bound rest, cs.length < bound → (∀ c ∈ rest.head?, Closes c) →
      readField (readValue dialect bound) (cs ++ rest) = some ((points, d), rest)
  | .fields ds => ∀ bound rounds rest, cs.length < bound → cs.length < rounds →
      readSequence (readField (readValue dialect bound)) '\x7d' rounds (cs ++ rest) =
        some (ds, rest)

theorem readValue_word (h : word? dialect cs = some d)
    (hrest : ∀ c ∈ rest.head?, isWordChar c = false) :
    readValue dialect (bound + 1) (cs ++ rest) = some (d, rest) := by
  have hread := readWord_complete h hrest
  obtain ⟨hne, hall⟩ := all_of_word h
  obtain ⟨c, more, rfl⟩ := List.exists_cons_of_ne_nil hne
  have hc : isWordChar c = true := List.all_eq_true.1 hall c List.mem_cons_self
  rw [readValue]
  · exact hread
  all_goals
    rintro rest' heq
    cases heq
    cases hc

/-- The reader reads what the grammar lets a text say. -/
theorem Spells.readIn (h : Spells dialect part cs) : part.ReadIn dialect cs := by
  induction h with
  | word hw =>
    intro bound rest hlen hrest
    obtain ⟨k, rfl⟩ : ∃ k, bound = k + 1 := ⟨bound - 1, by omega⟩
    exact readValue_word hw hrest
  | @string units cs hb =>
    intro bound rest hlen hrest
    obtain ⟨k, rfl⟩ : ∃ k, bound = k + 1 := ⟨bound - 1, by omega⟩
    rw [List.cons_append, List.append_assoc, readValue]
    exact congrArg _ (readString_complete hb)
  | @emptyArray gap hg =>
    intro bound rest hlen hrest
    obtain ⟨k, rfl⟩ : ∃ k, bound = k + 1 := ⟨bound - 1, by omega⟩
    rw [List.cons_append, List.append_assoc, readValue]
    exact congrArg _ (readBracket_empty hg rfl)
  | @array ds cs hs ih =>
    intro bound rest hlen hrest
    obtain ⟨k, rfl⟩ : ∃ k, bound = k + 1 := ⟨bound - 1, by omega⟩
    rw [List.cons_append, readValue, readBracket_eq hs (.inl rfl),
      ih k _ rest (by simpa using hlen) (by rw [List.length_append]; omega)]
    rfl
  | @emptyObject gap hg =>
    intro bound rest hlen hrest
    obtain ⟨k, rfl⟩ : ∃ k, bound = k + 1 := ⟨bound - 1, by omega⟩
    rw [List.cons_append, List.append_assoc, readValue]
    exact congrArg _ (readBracket_empty hg rfl)
  | @object ds cs hs ih =>
    intro bound rest hlen hrest
    obtain ⟨k, rfl⟩ : ∃ k, bound = k + 1 := ⟨bound - 1, by omega⟩
    rw [List.cons_append, readValue, readBracket_eq hs (.inr rfl),
      ih k _ rest (by simpa using hlen) (by rw [List.length_append]; omega)]
    rfl
  | @item d before cs after hb hs ha ih =>
    intro bound rest hlen hrest
    obtain ⟨c, more, hcs, hc⟩ := hs.opens_value
    have hskip : skipGap (before ++ (cs ++ after) ++ rest) = cs ++ (after ++ rest) := by
      rw [List.append_assoc, List.append_assoc]
      rw [hcs]
      exact skipGap_append hb (head_cons hc.1)
    have hvalue := ih bound (after ++ rest)
      (by rw [List.length_append, List.length_append] at hlen; omega) (head_append_gap ha hrest)
    exact readPadded_append ha hrest (by rw [hskip, hvalue])
  | @lastItem d cs hs ih =>
    intro bound rounds rest hlen hrounds
    obtain ⟨k, rfl⟩ : ∃ k, rounds = k + 1 := ⟨rounds - 1, by omega⟩
    rw [List.length_append] at hlen
    rw [List.append_assoc]
    exact readSequence_last (ih bound (']' :: rest) (by omega) (head_cons ⟨rfl, rfl⟩))
  | @nextItem d ds cs more hs hmore ih ihmore =>
    intro bound rounds rest hlen hrounds
    obtain ⟨k, rfl⟩ : ∃ k, rounds = k + 1 := ⟨rounds - 1, by omega⟩
    rw [List.length_append, List.length_cons] at hlen hrounds
    rw [List.append_assoc]
    exact readSequence_next (by decide)
      (ih bound (',' :: (more ++ rest)) (by omega) (head_cons ⟨rfl, rfl⟩))
      (ihmore bound k rest (by omega) (by omega))
  | @field units d before key after cs hb hk ha hs ih =>
    intro bound rest hlen hrest
    simp only [List.append_assoc, List.cons_append]
    refine readField_append hb hk ha (ih bound rest ?_ hrest)
    simp only [List.length_append, List.length_cons] at hlen
    omega
  | @lastField points d cs hs ih =>
    intro bound rounds rest hlen hrounds
    obtain ⟨k, rfl⟩ : ∃ k, rounds = k + 1 := ⟨rounds - 1, by omega⟩
    rw [List.length_append] at hlen
    rw [List.append_assoc]
    exact readSequence_last (ih bound ('\x7d' :: rest) (by omega) (head_cons ⟨rfl, rfl⟩))
  | @nextField points d ds cs more hs hmore ih ihmore =>
    intro bound rounds rest hlen hrounds
    obtain ⟨k, rfl⟩ : ∃ k, rounds = k + 1 := ⟨rounds - 1, by omega⟩
    rw [List.length_append, List.length_cons] at hlen hrounds
    rw [List.append_assoc]
    exact readSequence_next (by decide)
      (ih bound (',' :: (more ++ rest)) (by omega) (head_cons ⟨rfl, rfl⟩))
      (ihmore bound k rest (by omega) (by omega))

/-- Whatever a text says, it says that alone. -/
theorem Spells.read (h : Spells dialect (.item d) cs) : read? dialect cs = some d := by
  have hread := h.readIn (cs.length + 1) [] (Nat.lt_succ_self _) (by simp)
  rw [List.append_nil] at hread
  rw [read?, hread]

theorem Spells.unique {d' : Document} (h : Spells dialect (.item d) cs)
    (h' : Spells dialect (.item d') cs) : d = d' :=
  Option.some.inj (h.read.symm.trans h'.read)

end FrontEnd.Json
