import FrontEnd.Proofs.DecimalText
import FrontEnd.Proofs.RunOutput

namespace FrontEnd

open Text

/-- What a listing says of a token. -/
structure Row where
  name : String
  lexeme : String
  line : Nat
  startColumn : Nat
  endColumn : Nat
  deriving DecidableEq, Repr

def Token.row (t : Token) : Row :=
  ⟨t.kind.name, t.lexeme, t.span.line, t.span.startColumn, t.span.endColumn⟩

namespace CommandLine

variable {rest : List Char}

def skipBlanks (cs : List Char) : List Char :=
  cs.dropWhile (· == ' ')

/-- What stands behind a word. -/
def readWord (word : String) (cs : List Char) : Option (List Char) :=
  if word.toList.isPrefixOf cs then some (cs.drop word.toList.length) else none

/-- The number that the digits at the head of a text make, and what stands behind them. -/
def readNumber (cs : List Char) : Nat × List Char :=
  (Numeral.ofDigits (cs.takeWhile Char.isDigit), cs.dropWhile Char.isDigit)

/-- A name, a quoted text and a place, with blanks between them. -/
def readRow? (cs : List Char) : Option Row := do
  let name := cs.takeWhile (· != ' ')
  let (lexeme, rest) ← readQuoted (skipBlanks (cs.dropWhile (· != ' ')))
  let (line, rest) := readNumber (← readWord "line " (skipBlanks rest))
  let (first, rest) := readNumber (← readWord ", columns " rest)
  let (last, rest) := readNumber (← readWord "-" rest)
  if rest = [] then some ⟨String.ofList name, String.ofList lexeme, line, first, last⟩ else none

/-- The rows of a text of which every line ends with a line feed. -/
def readListing? (cs : List Char) : Option (List Row) :=
  (splitLines cs).dropLast.mapM readRow?

theorem skipBlanks_blanks (n : Nat) (h : ∀ c ∈ rest.head?, c ≠ ' ') :
    skipBlanks (List.replicate n ' ' ++ rest) = rest := by
  refine dropWhile_append_stops ?_ ?_
  · intro c hc
    simp [List.eq_of_mem_replicate hc]
  · intro c hc
    simpa using h c hc

theorem readWord_append (word : String) (rest : List Char) :
    readWord word (word.toList ++ rest) = some rest := by
  have hprefix : word.toList.isPrefixOf (word.toList ++ rest) = true :=
    List.isPrefixOf_iff_prefix.2 (List.prefix_append _ _)
  rw [readWord, if_pos hprefix, List.drop_left]

theorem readNumber_append (n : Nat) (h : ∀ c ∈ rest.head?, c.isDigit = false) :
    readNumber ((toString n).toList ++ rest) = (n, rest) := by
  have hdigits : ∀ c ∈ (toString n).toList, c.isDigit = true := fun _ => isDigit_of_mem_toString
  rw [readNumber, takeWhile_append_stops hdigits h, dropWhile_append_stops hdigits h,
    Binary64.toList_toString, Numeral.ofDigits_toDigits]

theorem blank_not_mem_name (kind : Kind) : ' ' ∉ kind.name.toList := by
  have hnames : (Kind.all.all fun kind => !kind.name.toList.contains ' ') = true := by
    decide +kernel
  simpa using List.all_eq_true.1 hnames _ kind.mem_all

theorem toList_listingRow (t : Token) : ∃ m n, (listingRow t).toList =
    t.kind.name.toList ++ (List.replicate (m + 1) ' ' ++ ((quoted t.lexeme).toList ++
      (List.replicate (n + 1) ' ' ++ ("line ".toList ++ ((toString t.span.line).toList ++
        (", columns ".toList ++ ((toString t.span.startColumn).toList ++
          ("-".toList ++ ((toString t.span.endColumn).toList ++ []))))))))) := by
  refine ⟨16 - t.kind.name.length, 20 - (quoted t.lexeme).length, ?_⟩
  have hstring : ∀ s : String, toString s = s := fun _ => rfl
  simp [listingRow, padRight, List.replicate_succ', hstring]

/-- All that a row says can be told from it. -/
theorem readRow?_listingRow (t : Token) : readRow? (listingRow t).toList = some t.row := by
  obtain ⟨m, n, hrow⟩ := toList_listingRow t
  have hname : ∀ c ∈ t.kind.name.toList, (c != ' ') = true := by
    intro c hc
    simp only [bne_iff_ne]
    exact fun he => blank_not_mem_name t.kind (he ▸ hc)
  have hblank : ∀ rest : List Char, ∀ c ∈ (List.replicate (m + 1) ' ' ++ rest).head?,
      (c != ' ') = false := by
    simp [List.replicate_succ]
  have hquote : ∀ rest : List Char, ∀ c ∈ ((quoted t.lexeme).toList ++ rest).head?, c ≠ ' ' := by
    rcases quoteMark_cases t.lexeme.toList with hm | hm <;> simp [quoted, hm]
  have hplace : ∀ rest : List Char, skipBlanks (List.replicate (n + 1) ' ' ++
      ("line ".toList ++ rest)) = "line ".toList ++ rest :=
    fun rest => skipBlanks_blanks (n + 1) (by simp)
  have hcomma : ∀ (k : Nat) (rest : List Char),
      readNumber ((toString k).toList ++ (", columns ".toList ++ rest)) =
        (k, ", columns ".toList ++ rest) :=
    fun k rest => readNumber_append k (by simp)
  have hdash : ∀ (k : Nat) (rest : List Char),
      readNumber ((toString k).toList ++ ("-".toList ++ rest)) = (k, "-".toList ++ rest) :=
    fun k rest => readNumber_append k (by simp)
  have hend : ∀ k : Nat, readNumber ((toString k).toList ++ []) = (k, []) :=
    fun k => readNumber_append k (by simp)
  rw [readRow?, hrow, takeWhile_append_stops hname (hblank _),
    dropWhile_append_stops hname (hblank _), skipBlanks_blanks _ (hquote _), readQuoted_quoted]
  simp only [Option.bind_eq_bind, Option.bind_some, hplace, readWord_append, hcomma, hdash, hend]
  simp [Token.row]

theorem mapM_readRow? (ts : List Token) :
    (ts.map fun t => (listingRow t).toList).mapM readRow? = some (ts.map Token.row) := by
  induction ts with
  | nil => rfl
  | cons t ts ih => simp [readRow?_listingRow, ih]

theorem readListing?_listing (ts : List Token) :
    readListing? (listing ts).toList = some (ts.map Token.row) := by
  rw [readListing?, splitLines_listing, List.dropLast_concat, mapM_readRow?]

theorem count_listing (ts : List Token) : (listing ts).toList.count '\n' = ts.length := by
  have hlen := congrArg List.length (splitLines_listing ts)
  rw [length_splitLines, List.length_append, List.length_map, List.length_singleton] at hlen
  omega

/-- What a run writes that is asked for the tokens of a source loses none of them, and nothing of
their kinds, texts and places. It has one line for each token, its lines are read as what they say
of the tokens, and so no other tokens, of whatever source, are listed by the same text. -/
theorem listing_lossless {inv : Invocation} {room : Nat} {source : Source} {ts : List Token}
    (hc : inv.command = .tokens) (h : source.tokens = .ok ts) :
    (inv.runSource room source).output.toList.count '\n' = ts.length ∧
    readListing? (inv.runSource room source).output.toList = some (ts.map Token.row) ∧
    ∀ inv' room' source' ts', Invocation.command inv' = .tokens → source'.tokens = .ok ts' →
      (inv'.runSource room' source').output = (inv.runSource room source).output →
        ts'.map Token.row = ts.map Token.row := by
  rw [Invocation.runSource_listing hc h]
  refine ⟨count_listing ts, readListing?_listing ts, ?_⟩
  intro inv' room' source' ts' hc' h' heq
  rw [Invocation.runSource_listing hc' h'] at heq
  have hlisting : listing ts' = listing ts := heq
  have hread : some (ts'.map Token.row) = some (ts.map Token.row) := by
    rw [← readListing?_listing, ← readListing?_listing, hlisting]
  exact Option.some.inj hread

/-- A string over two lines with both kinds of quotes, a backslash and a bell. -/
def oddString : Source :=
  .ofText "\"it's\n\\\x07\" x" "m.fp" .standard

theorem listing_lossless_oddString : ∃ ts, oddString.tokens = .ok ts ∧
    (Invocation.runSource ⟨false, false, .tokens, "m.fp"⟩ 0 oddString).output.toList.count '\n' =
      2 ∧
    readListing? (Invocation.runSource ⟨false, false, .tokens, "m.fp"⟩ 0 oddString).output.toList =
      some [⟨"STRING", "\"it's\n\\\x07\"", 1, 0, 5⟩, ⟨"IDENTIFIER", "x", 2, 4, 5⟩] := by
  have hf : oddString.lexing.fault = none := by decide +kernel
  have ht := Source.tokens_eq_ok.2 ⟨hf, rfl⟩
  have hlen : oddString.lexing.tokens.length = 2 := by decide +kernel
  have hrows : oddString.lexing.tokens.map Token.row =
      [⟨"STRING", "\"it's\n\\\x07\"", 1, 0, 5⟩, ⟨"IDENTIFIER", "x", 2, 4, 5⟩] := by
    decide +kernel
  obtain ⟨hcount, hread, -⟩ :=
    @listing_lossless ⟨false, false, .tokens, "m.fp"⟩ 0 oddString _ rfl ht
  exact ⟨_, ht, hcount.trans hlen, hrows ▸ hread⟩

end CommandLine
end FrontEnd
