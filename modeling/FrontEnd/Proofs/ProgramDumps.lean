import FrontEnd.Proofs.Dumps
import FrontEnd.Proofs.Faults
import FrontEnd.Proofs.FiniteRange

namespace FrontEnd

namespace Json

variable {layout : Layout} {v : Json} {x : Binary64}

/-- Every number in a value is written as the standard has numbers. -/
def Ordinary (v : Json) : Prop :=
  ∀ t ∈ (document v).numbers, isNumber t = true

/-- A text is standard exactly if the value has only ordinary numbers. -/
theorem standard_iff (hl : layout.Blank) :
    (∃ d, Spells .standard (.item d) (text layout v).toList) ↔ Ordinary v := by
  have hspells := (text_spells hl v).1
  constructor
  · rintro ⟨d, hd⟩
    obtain ⟨hextended, hnumbers⟩ := spells_standard_iff.1 hd
    obtain rfl := hextended.unique hspells
    exact hnumbers
  · intro h
    exact ⟨_, spells_standard_iff.2 ⟨hspells, h⟩⟩

theorem ordinary_text (s : String) : Ordinary (.scalar (.text s)) :=
  fun _ ht => absurd ht List.not_mem_nil

theorem ordinary_bool (value : Bool) : Ordinary (.scalar (.bool value)) :=
  fun _ ht => absurd ht List.not_mem_nil

theorem ordinary_int (i : Int) : Ordinary (.scalar (.int i)) := by
  intro t ht
  obtain rfl := List.mem_singleton.1 ht
  exact isNumber_int i

theorem ordinary_float_iff : Ordinary (.scalar (.float x)) ↔
    isNumber (floatText x).toList = true := by
  constructor
  · intro h
    exact h _ (List.mem_singleton.2 rfl)
  · intro h t ht
    obtain rfl := List.mem_singleton.1 ht
    exact h

theorem ordinary_array_iff {items : List Json} :
    Ordinary (.array items) ↔ ∀ v ∈ items, Ordinary v := by
  have hlist : ∀ items : List Json, (∀ t ∈ Document.numbersIn (documents items),
      isNumber t = true) ↔ ∀ v ∈ items, Ordinary v := by
    intro items
    induction items with
    | nil => simp [documents, Document.numbersIn]
    | cons v items ih =>
      rw [documents, Document.numbersIn, List.forall_mem_append, List.forall_mem_cons, ih]
      rfl
  rw [Ordinary, document, Document.numbers, hlist]

theorem ordinary_object_iff {fields : List (String × Json)} :
    Ordinary (.object fields) ↔ ∀ f ∈ fields, Ordinary f.2 := by
  have hlist : ∀ fields : List (String × Json),
      (∀ t ∈ Document.numbersUnder (fieldDocuments fields), isNumber t = true) ↔
        ∀ f ∈ fields, Ordinary f.2 := by
    intro fields
    induction fields with
    | nil => simp [fieldDocuments, Document.numbersUnder]
    | cons f fields ih =>
      obtain ⟨key, v⟩ := f
      rw [fieldDocuments, Document.numbersUnder, List.forall_mem_append, List.forall_mem_cons, ih]
      rfl
  rw [Ordinary, document, Document.numbers, hlist]

end Json

open Json

namespace Node

theorem ordinary_place (s : Span) : Ordinary (place s) := by
  rw [place, ordinary_object_iff]
  intro f hf
  simp only [List.mem_cons, List.not_mem_nil, or_false] at hf
  obtain rfl | rfl | rfl := hf
  · exact ordinary_int _
  · exact ordinary_int _
  · exact ordinary_int _

/-- Kind and place of a view are ordinary, so all depends on the content. -/
theorem ordinary_viewOf_iff {kind : String} {content : List (String × Json)} {s : Span} :
    Ordinary (viewOf kind content s) ↔ ∀ f ∈ content, Ordinary f.2 := by
  rw [viewOf, ordinary_object_iff, List.forall_mem_cons, List.forall_mem_append,
    List.forall_mem_singleton]
  constructor
  · rintro ⟨-, h, -⟩
    exact h
  · intro h
    exact ⟨ordinary_text kind, h, ordinary_place s⟩

end Node

/-- A token as it is read from a text. -/
structure Token.FromText (t : Token) : Prop where
  number : t.kind = .number → t.lexeme.toList ≠ [] ∧ ∀ c ∈ t.lexeme.toList, c.isDigit = true
  string : t.kind = .string → ∃ s, t.value = .text s
  spelled : t.kind.level?.isSome → Kind.ofOperator? t.lexeme = some t.kind
  inside : t.kind ≠ .endOfInput

/-- Not a number token whose digits are too great for a floating-point number. -/
def Token.InRange (t : Token) : Prop :=
  t.kind = .number → Numeral.ofDigits t.lexeme.toList < Binary64.overflow

theorem Token.inRange_of_ne {t : Token} (h : t.kind ≠ .number) : t.InRange :=
  fun hk => absurd hk h

/-- Kinds of tokens that join nothing and have no value. -/
def Kind.isPlain (kind : Kind) : Bool :=
  kind != .number && kind != .string && kind != .endOfInput && kind.level?.isNone

theorem Token.fromText_of_isPlain {t : Token} (h : t.kind.isPlain = true) : t.FromText := by
  simp only [Kind.isPlain, Bool.and_eq_true, bne_iff_ne] at h
  obtain ⟨⟨⟨hn, hs⟩, he⟩, hl⟩ := h
  refine ⟨fun hk => absurd hk hn, fun hk => absurd hk hs, fun hk => ?_, he⟩
  rw [Option.isNone_iff_eq_none.1 hl] at hk
  cases hk

theorem Source.tokens_fromText {text name : String} {ts : List Token}
    (h : (Source.ofText text name .standard).tokens = .ok ts) : ∀ t ∈ ts, t.FromText := by
  obtain ⟨_, rfl⟩ := tokens_eq_ok.1 h
  intro t ht
  obtain ⟨_, _, l, _, hreads⟩ := exists_reads (Cursor.on_start _) t ht
  obtain ⟨hkind, hlexeme, hvalue⟩ := hreads.denotes
  cases l with
  | word first more _ _ =>
    have hall : (Keywords.standard.all fun e => e.2.isPlain) = true := by decide
    apply Token.fromText_of_isPlain
    rw [hkind]
    exact Keywords.kindOf_of_all rfl hall _
  | number first more starts goesOn =>
    have hk : t.kind = .number := hkind
    have hdigits := isDigit_of_mem_number starts goesOn
    refine ⟨fun _ => ?_, fun h => ?_, fun h => ?_, fun h => ?_⟩
    · rw [hlexeme, String.toList_ofList]
      exact ⟨List.cons_ne_nil _ _, hdigits⟩
    · cases hk.symm.trans h
    · rw [hk] at h
      cases h
    · cases hk.symm.trans h
  | quoted inner closes =>
    have hk : t.kind = .string := hkind
    refine ⟨fun h => ?_, fun _ => ⟨_, hvalue⟩, fun h => ?_, fun h => ?_⟩
    · cases hk.symm.trans h
    · rw [hk] at h
      cases h
    · cases hk.symm.trans h
  | operator symbol kind listed =>
    have hk : t.kind = kind := hkind
    have hall : (Kind.operators.all fun e => e.2 != .number && e.2 != .string &&
      e.2 != .endOfInput) = true := by decide
    have hne := List.all_eq_true.1 hall _ (mem_of_lookup listed)
    simp only [Bool.and_eq_true, bne_iff_ne] at hne
    obtain ⟨⟨hn, hs⟩, he⟩ := hne
    rw [← hk] at hn hs he listed
    refine ⟨fun h => absurd h hn, fun h => absurd h hs, fun _ => ?_, he⟩
    rw [hlexeme]
    exact listed

namespace Grammar

variable {g : Grammar} {stop : Token} {limit : Nat} {ts : List Token}

/-- The statements are the trees of the first tokens, and without a fault of all before the end. -/
theorem sequence_yields (hs : Spelled ts) : ∃ layouts more,
    List.Forall₂ Node.Yields (sequence g stop limit ts).statements layouts ∧
      ts = layouts.flatten ++ more ∧
      ((sequence g stop limit ts).fault = none → more = (sequence g stop limit ts).rest) := by
  induction ts using sequence_induction g stop limit with
  | ends ts hend he =>
    rw [he]
    exact ⟨[], ts, .nil, rfl, fun _ => rfl⟩
  | breaks ts fault rest hend hx he =>
    rw [he]
    exact ⟨[], ts, .nil, rfl, fun h => by cases h⟩
  | goesOn ts n rest hend hx he ih =>
    obtain ⟨taken, rfl, hn⟩ := expression_settled (Int.le_refl 0) hs hx
    obtain ⟨layouts, more, hall, hrest, hwhole⟩ := ih (hs.suffix (List.suffix_append taken rest))
    rw [he]
    refine ⟨taken :: layouts, more, .cons hn.yields hall, ?_, hwhole⟩
    rw [List.flatten_cons, List.append_assoc, ← hrest]

end Grammar

theorem Source.program_eq_ok {s : Source} {nodes : List Node} : s.program = .ok nodes ↔
    ∃ ts rest, s.tokens = .ok ts ∧
      Grammar.standard.program nestingLimit ts = ⟨nodes, rest, none⟩ := by
  unfold program
  cases hts : s.tokens with
  | error fault => simp
  | ok ts =>
    rcases hp : Grammar.standard.program nestingLimit ts with ⟨statements, rest, _ | fault⟩
    · simp [hp]
    · simp [hp]

/-- A program that is read is made of all its tokens. -/
theorem Source.program_yields {text name : String} {nodes : List Node}
    (h : (Source.ofText text name .standard).program = .ok nodes) :
    ∃ layouts, (Source.ofText text name .standard).tokens = .ok layouts.flatten ∧
      List.Forall₂ Node.Yields nodes layouts := by
  obtain ⟨ts, rest, hts, hprogram⟩ := program_eq_ok.1 h
  have hfrom := tokens_fromText hts
  have hs : Spelled ts := fun t ht => (hfrom t ht).spelled
  have hsequence : Grammar.sequence .standard (endToken ts) nestingLimit ts =
      ⟨nodes, rest, none⟩ := hprogram
  have hfault : (Grammar.sequence .standard (endToken ts) nestingLimit ts).fault = none := by
    rw [hsequence]
  have hend := Grammar.atEnd_sequence hfault
  obtain ⟨layouts, more, hall, hsplit, hwhole⟩ :=
    @Grammar.sequence_yields .standard (endToken ts) nestingLimit ts hs
  obtain rfl := hwhole hfault
  rw [hsequence] at hend hall hsplit
  subst hsplit
  cases rest with
  | nil => exact ⟨layouts, by rw [hts, List.append_nil], hall⟩
  | cons t rest =>
    have hk : t.kind = .endOfInput := by simpa [Grammar.atEnd] using hend
    exact absurd hk (hfrom t (by simp)).inside

/-- The number that digits are read as is ordinary exactly below the overflow. -/
theorem isNumber_digits_iff (n : Nat) :
    isNumber (floatText (.ofDecimal false n 0)).toList = true ↔ n < Binary64.overflow := by
  rw [isNumber_float_iff, ← Binary64.nearestRank_lt_iff]
  rcases Nat.eq_zero_or_pos n with rfl | hn
  · refine ⟨fun _ => ?_, fun _ => ⟨_, _, _, rfl⟩⟩
    rw [Nat.zero_mul]
    decide +kernel
  · have hdecimal : Binary64.ofDecimal false n 0 =
        .ofRank false (Binary64.nearestRank (n * Binary64.one) 1) := by
      rw [Binary64.ofDecimal, if_neg (by omega), if_pos (by decide), if_neg (by decide)]
      rw [Binary64.ofRatio]
      congr 3
      exact Nat.mul_one n
    rw [hdecimal, Binary64.ofRank]
    constructor
    · rintro ⟨negative, rank, h, he⟩
      split_ifs at he with hlt
      exact hlt
    · intro hlt
      rw [dif_pos hlt]
      exact ⟨_, _, _, rfl⟩

theorem Source.tokens_digits (first : Char) (more : List Char) (name : String)
    (hf : first.isDigit = true) (hm : more.all Char.isDigit = true) :
    ∃ t, (Source.ofText (String.ofList (first :: more)) name .standard).tokens = .ok [t] ∧
      t.kind = .number ∧ t.lexeme = String.ofList (first :: more) := by
  generalize hs : Source.ofText (String.ofList (first :: more)) name .standard = s
  have htext : s.text = first :: more := by
    rw [← hs]
    exact String.toList_ofList
  have hrest : s.start.rest = [] ++ ((Lexeme.number first more hf hm).chars ++ []) := by
    rw [List.nil_append, List.append_nil]
    exact htext
  obtain ⟨t, next, hreads, hnext⟩ :=
    tokensFrom_of_lexeme (Cursor.on_start s.text) hrest (by simp) (by simp [Lexeme.Stops])
  have hend : s.tokensFrom next = ⟨[], ⟨next.position.afterAll next.rest, []⟩, none⟩ :=
    tokensFrom_of_blank (by simp [hnext])
  have hlexing : s.lexing = _ := hreads.tokensFrom_eq
  refine ⟨t, ?_, hreads.denotes.kind, hreads.denotes.lexeme⟩
  rw [tokens_eq_ok, hlexing, hend]
  exact ⟨rfl, rfl⟩

/-- A run of digits is a program of one number. -/
theorem Source.program_digits (first : Char) (more : List Char) (name : String)
    (hf : first.isDigit = true) (hm : more.all Char.isDigit = true) :
    ∃ span, (Source.ofText (String.ofList (first :: more)) name .standard).program =
      .ok [.number span (.float (.ofDecimal false (Numeral.ofDigits (first :: more)) 0))] := by
  obtain ⟨t, htokens, hk, hlexeme⟩ := tokens_digits first more name hf hm
  have hreal := Numeral.real?_digits (List.cons_ne_nil first more) (isDigit_of_mem_number hf hm)
  rw [← hlexeme] at hreal
  generalize Binary64.ofDecimal false (Numeral.ofDigits (first :: more)) 0 = value at *
  have hlimit : nestingLimit = 496 + 1 := rfl
  have hread : Grammar.standard.expression (endToken [t]) nestingLimit 0 [t] =
      .done (.number t.span (.float value)) [] := by
    rw [hlimit, Grammar.expression_cons (by simp [hk]), Grammar.operand,
      if_neg (by rw [hk]; decide)]
    simp only [hk, hreal]
    exact Grammar.resume_nil
  have hsequence := Grammar.sequence_of_done (by simp [Grammar.atEnd, hk]) hread
  have hnil : Grammar.atEnd [] = true := rfl
  rw [Grammar.sequence_of_atEnd hnil] at hsequence
  exact ⟨t.span, program_eq_ok.2 ⟨[t], [], htokens, hsequence⟩⟩

namespace Node

variable {n : Node} {nodes : List Node} {t : Token} {ts : List Token}
  {layouts : List (List Token)}

theorem ordinary_number_iff {value : Binary64} (ht : t.FromText) (hk : t.kind = .number)
    (hv : Numeral.real? t.lexeme = some value) :
    Ordinary (.scalar (.float value)) ↔ t.InRange := by
  obtain ⟨hne, hdigits⟩ := ht.number hk
  have hreal := Numeral.real?_digits hne hdigits
  rw [String.ofList_toList, hv] at hreal
  obtain rfl := Option.some.inj hreal
  rw [ordinary_float_iff, isNumber_digits_iff]
  constructor
  · intro h _
    exact h
  · intro h
    exact h hk

theorem ordinary_binary_iff {operator : String} {l r : Json} {s : Span} :
    Ordinary (viewOf "binaryOp" [("operator", textField operator), ("left", l), ("right", r)] s) ↔
      Ordinary l ∧ Ordinary r := by
  rw [ordinary_viewOf_iff, List.forall_mem_cons, List.forall_mem_cons, List.forall_mem_singleton]
  exact and_iff_right (ordinary_text operator)

theorem ordinary_declaration_iff {name typeName : String} {isMutable : Bool} {v : Json}
    {s : Span} : Ordinary (viewOf "varDeclaration" [("identifier", textField name),
      ("mutable", .scalar (.bool isMutable)), ("type", textField typeName), ("value", v)] s) ↔
        Ordinary v := by
  rw [ordinary_viewOf_iff, List.forall_mem_cons, List.forall_mem_cons, List.forall_mem_cons,
    List.forall_mem_singleton]
  constructor
  · rintro ⟨-, -, -, h⟩
    exact h
  · intro h
    exact ⟨ordinary_text name, ordinary_bool isMutable, ordinary_text typeName, h⟩

theorem inRange_operator (h : t.kind.Spells t.lexeme) : t.InRange := by
  apply Token.inRange_of_ne
  intro hk
  have hlevel := h.1
  rw [hk] at hlevel
  cases hlevel

/-- None of the tokens before an initial value is a number. -/
theorem inRange_declaration_iff {opening name colon type equals : Token} {isMutable : Bool}
    {marks body : List Token} (hopen : opening.kind = .newWord)
    (hmarks : Grammar.Marks isMutable marks) (hname : name.kind = .identifier)
    (hcolon : colon.kind = .colon) (htype : type.kind = .identifier)
    (hequals : equals.kind = .assign) :
    (∀ t ∈ opening :: (marks ++ name :: colon :: type :: equals :: body), t.InRange) ↔
      ∀ t ∈ body, t.InRange := by
  have hmark : ∀ t ∈ marks, t.InRange := by
    intro t ht
    exact Token.inRange_of_ne (by simp [Grammar.Marks.mutWord hmarks ht])
  simp only [List.forall_mem_cons, List.forall_mem_append]
  constructor
  · rintro ⟨-, -, -, -, -, -, h⟩
    exact h
  · intro h
    exact ⟨Token.inRange_of_ne (by simp [hopen]), hmark, Token.inRange_of_ne (by simp [hname]),
      Token.inRange_of_ne (by simp [hcolon]), Token.inRange_of_ne (by simp [htype]),
      Token.inRange_of_ne (by simp [hequals]), h⟩

/-- The numbers in the view of a tree are its places and those of its number tokens. -/
theorem Yields.view (hy : n.Yields ts) (ht : ∀ t ∈ ts, t.FromText) :
    ∃ v, n.view? = some v ∧ (Ordinary v ↔ ∀ t ∈ ts, t.InRange) := by
  induction hy with
  | @number t value hk hv =>
    refine ⟨_, rfl, ?_⟩
    rw [ordinary_viewOf_iff, List.forall_mem_singleton, List.forall_mem_singleton]
    exact ordinary_number_iff (ht t (List.mem_singleton_self t)) hk hv
  | @string t hk =>
    obtain ⟨s, hs⟩ := (ht t (List.mem_singleton_self t)).string hk
    refine ⟨_, rfl, ?_⟩
    rw [ordinary_viewOf_iff, List.forall_mem_singleton, List.forall_mem_singleton, hs]
    exact iff_of_true (ordinary_text s) (Token.inRange_of_ne (by simp [hk]))
  | @identifier t hk =>
    refine ⟨_, rfl, ?_⟩
    rw [ordinary_viewOf_iff, List.forall_mem_singleton, List.forall_mem_singleton]
    exact iff_of_true (ordinary_text t.lexeme) (Token.inRange_of_ne (by simp [hk]))
  | @binary t left right before after hl ho hr ihl ihr =>
    rw [List.forall_mem_append, List.forall_mem_cons] at ht
    obtain ⟨l, hlv, hlo⟩ := ihl ht.1
    obtain ⟨r, hrv, hro⟩ := ihr ht.2.2
    refine ⟨viewOf "binaryOp" [("operator", textField t.lexeme), ("left", l), ("right", r)] t.span,
      ?_, ?_⟩
    · rw [view?, childView?, childView?, hlv, hrv]
      rfl
    · rw [ordinary_binary_iff, hlo, hro, List.forall_mem_append, List.forall_mem_cons]
      exact and_congr_right fun _ => (and_iff_right (inRange_operator ho)).symm
  | @declaration opening name colon type equals isMutable value marks body hopen hmarks hname
      hcolon htype hequals hv ih =>
    obtain ⟨v, hvv, hvo⟩ := ih fun t hmem => ht t (by simp [hmem])
    refine ⟨viewOf "varDeclaration" [("identifier", textField name.lexeme),
      ("mutable", .scalar (.bool isMutable)), ("type", textField type.lexeme), ("value", v)]
      opening.span, ?_, ?_⟩
    · rw [view?, childView?, hvv]
      rfl
    · rw [ordinary_declaration_iff, hvo,
        inRange_declaration_iff hopen hmarks hname hcolon htype hequals]

/-- The same of all statements: the array of their views is ordinary if no number is too great. -/
theorem views_yields (hy : List.Forall₂ Yields nodes layouts)
    (ht : ∀ t ∈ layouts.flatten, t.FromText) : ∃ views, nodes.mapM view? = some views ∧
      (Ordinary (.array views) ↔ ∀ t ∈ layouts.flatten, t.InRange) := by
  induction hy with
  | nil => exact ⟨[], rfl, by simp [ordinary_array_iff]⟩
  | @cons n ts nodes layouts hn _ ih =>
    rw [List.flatten_cons, List.forall_mem_append] at ht
    obtain ⟨v, hv, hvo⟩ := hn.view ht.1
    obtain ⟨views, hvs, hvso⟩ := ih ht.2
    refine ⟨v :: views, ?_, ?_⟩
    · rw [List.mapM_cons, hv, hvs]
      rfl
    · rw [ordinary_array_iff] at hvso
      rw [ordinary_array_iff, List.forall_mem_cons, List.flatten_cons, List.forall_mem_append,
        hvo, hvso]

end Node

/-- Every program has a dump at every indentation. The dump is standard JSON exactly if the digits of
no number token are too great for a floating-point number: such a number is dumped as a word that
the standard does not have. -/
theorem program_dump_standard (text name : String) (nodes : List Node) (indent : Option Int)
    (h : (Source.ofText text name .standard).program = .ok nodes) :
    ∃ ts dump, (Source.ofText text name .standard).tokens = .ok ts ∧
      Node.dump? (.ofIndent indent) nodes = some dump ∧
      ((∃ d, Spells .standard (.item d) dump.toList) ↔ ∀ t ∈ ts, t.InRange) := by
  obtain ⟨layouts, hts, hy⟩ := Source.program_yields h
  obtain ⟨views, hv, hviews⟩ := Node.views_yields hy (Source.tokens_fromText hts)
  refine ⟨layouts.flatten, Json.text (.ofIndent indent) (.array views), hts, ?_, ?_⟩
  · rw [Node.dump?, hv]
    rfl
  · rw [standard_iff (Layout.blank_ofIndent indent)]
    exact hviews

/-- A declaration of the sum of a number and a string. -/
def mixedSum : Source :=
  .ofText "new n : int = 20 + \"\\\"" "sum" .standard

theorem program_dump_standard_mixedSum : ∃ nodes, mixedSum.program = .ok nodes ∧
    ∃ dump, Node.dump? (.ofIndent (some 2)) nodes = some dump ∧
      ∃ d, Spells .standard (.item d) dump.toList := by
  have hread : mixedSum.program.toOption.isSome = true := by decide +kernel
  obtain ⟨nodes, hn⟩ : ∃ nodes, mixedSum.program = .ok nodes := by
    cases hp : mixedSum.program with
    | error fault =>
      rw [hp] at hread
      cases hread
    | ok nodes => exact ⟨nodes, rfl⟩
  obtain ⟨ts, dump, hts, hdump, hiff⟩ :=
    program_dump_standard "new n : int = 20 + \"\\\"" "sum" nodes (some 2) hn
  have hdigits : mixedSum.tokens.toOption.map (fun ts => ts.filterMap fun t =>
      if t.kind = .number then some (Numeral.ofDigits t.lexeme.toList) else none) =
        some [20] := by
    decide +kernel
  refine ⟨nodes, hn, dump, hdump, hiff.2 ?_⟩
  intro t ht hk
  have hts' : mixedSum.tokens = .ok ts := hts
  rw [hts'] at hdigits
  have hmem : Numeral.ofDigits t.lexeme.toList ∈ [20] := by
    rw [← Option.some.inj hdigits]
    exact List.mem_filterMap.2 ⟨t, ht, if_pos hk⟩
  rw [List.mem_singleton.1 hmem]
  decide +kernel

/-- A one and as many zeros as no floating-point number has is dumped as a word. -/
theorem program_dump_not_standard : ¬ ∀ (text name : String) (nodes : List Node)
    (indent : Option Int), (Source.ofText text name .standard).program = .ok nodes →
      ∃ dump, Node.dump? (.ofIndent indent) nodes = some dump ∧
        ∃ d, Spells .standard (.item d) dump.toList := by
  intro h
  have hzeros : (List.replicate 309 '0').all Char.isDigit = true := by decide +kernel
  obtain ⟨span, hp⟩ := Source.program_digits '1' (List.replicate 309 '0') "great" rfl hzeros
  obtain ⟨dump, hdump, hd⟩ := h _ "great" _ none hp
  generalize hn : Numeral.ofDigits ('1' :: List.replicate 309 '0') = n at hdump
  have hview : Node.dump? (.ofIndent none) [.number span (.float (.ofDecimal false n 0))] =
      some (Json.text (.ofIndent none) (.array
        [Node.viewOf "number" [("value", .scalar (.float (.ofDecimal false n 0)))] span])) := rfl
  obtain rfl := Option.some.inj (hview.symm.trans hdump)
  rw [standard_iff (Layout.blank_ofIndent none), ordinary_array_iff, List.forall_mem_singleton,
    Node.ordinary_viewOf_iff, List.forall_mem_singleton, ordinary_float_iff,
    isNumber_digits_iff, ← hn] at hd
  exact absurd hd (by decide +kernel)

end FrontEnd
