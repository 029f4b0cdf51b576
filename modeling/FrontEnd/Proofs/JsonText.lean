import FrontEnd.Proofs.JsonReader
import FrontEnd.Proofs.NumberText

namespace FrontEnd.Json

/-- The code points of a string. -/
def points (s : String) : List Nat :=
  s.toList.map Char.toNat

def scalarDocument : Scalar → Document
  | .null => .null
  | .bool value => .bool value
  | .int value => .number (toString value).toList
  | .float value => .number (floatText value).toList
  | .text value => .string (points value)

mutual

/-- A value as a document, numbers by their texts. -/
def document : Json → Document
  | .scalar value => scalarDocument value
  | .array items => .array (documents items)
  | .object fields => .object (fieldDocuments fields)

def documents : List Json → List Document
  | [] => []
  | item :: items => document item :: documents items

def fieldDocuments : List (String × Json) → List (List Nat × Document)
  | [] => []
  | (key, value) :: fields => (points key, document value) :: fieldDocuments fields

end

def Ascii (cs : List Char) : Prop :=
  ∀ c ∈ cs, c.toNat < 128

instance (cs : List Char) : Decidable (Ascii cs) :=
  decidable_of_iff (cs.all fun c => c.toNat < 128) (by simp only [List.all_eq_true,
    decide_eq_true_eq, Ascii])

section Ascii

variable {c : Char} {cs ds : List Char}

theorem Ascii.append (hc : Ascii cs) (hd : Ascii ds) : Ascii (cs ++ ds) := by
  intro x hx
  rcases List.mem_append.1 hx with hx | hx
  · exact hc x hx
  · exact hd x hx

theorem Ascii.cons (hc : c.toNat < 128) (hd : Ascii ds) : Ascii (c :: ds) := by
  intro x hx
  rcases List.mem_cons.1 hx with rfl | hx
  · exact hc
  · exact hd x hx

theorem ascii_gap (h : cs.all isGap = true) : Ascii cs := by
  intro c hc
  have hg := List.all_eq_true.1 h c hc
  simp only [isGap, Bool.or_eq_true, beq_iff_eq] at hg
  obtain ((rfl | rfl) | rfl) | rfl := hg <;> decide

theorem ascii_word (h : cs.all isWordChar = true) : Ascii cs := by
  intro c hc
  have hw := List.all_eq_true.1 h c hc
  simp only [isWordChar, Char.isAlphanum, Bool.or_eq_true, beq_iff_eq] at hw
  obtain (((halpha | hdigit) | rfl) | rfl) | rfl := hw
  · have := Text.toNat_of_isAlpha halpha
    omega
  · obtain ⟨-, hle⟩ := Char.isDigit_iff_toNat.1 hdigit
    have hnine : '9'.toNat = 57 := rfl
    omega
  · decide
  · decide
  · decide

end Ascii

section Strings

variable {c : Char} {cs : List Char} {us : List Nat}

theorem hexValue?_digitChar {n : Nat} (h : n < 16) : hexValue? (Nat.digitChar n) = some n := by
  have hall : ∀ d < 16, hexValue? (Nat.digitChar d) = some d := by decide
  exact hall n h

theorem ascii_digitChar {n : Nat} (h : n < 16) : (Nat.digitChar n).toNat < 128 := by
  have hall : ∀ d < 16, (Nat.digitChar d).toNat < 128 := by decide
  exact hall n h

/-- Four hexadecimal digits hold sixteen bits. -/
theorem hexUnit?_eq {n : Nat} (h : n < 0x10000) :
    hexUnit? (Nat.digitChar (n / 4096 % 16)) (Nat.digitChar (n / 256 % 16))
      (Nat.digitChar (n / 16 % 16)) (Nat.digitChar (n / 1 % 16)) = some n := by
  have hdigit : ∀ m, hexValue? (Nat.digitChar (m % 16)) = some (m % 16) :=
    fun m => hexValue?_digitChar (Nat.mod_lt m (by decide))
  simp only [hexUnit?, hdigit, Option.bind_eq_bind, Option.bind_some, Option.pure_def,
    Option.some.injEq]
  omega

theorem body_escapeUnit {n : Nat} (h : n < 0x10000) (hb : Body us cs) :
    Body (n :: us) (escapeUnit n ++ cs) :=
  .unit (hexUnit?_eq h) hb

theorem ascii_escapeUnit (n : Nat) : Ascii (escapeUnit n) := by
  have hdigit : ∀ m, (Nat.digitChar (m % 16)).toNat < 128 :=
    fun m => ascii_digitChar (Nat.mod_lt m (by decide))
  intro c hc
  simp only [escapeUnit, hex4, List.map_cons, List.map_nil, List.mem_cons, List.not_mem_nil,
    or_false] at hc
  obtain rfl | rfl | rfl | rfl | rfl | rfl := hc
  · decide
  · decide
  · exact hdigit _
  · exact hdigit _
  · exact hdigit _
  · exact hdigit _

/-- The units of a character: two surrogates beyond sixteen bits. -/
def units (c : Char) : List Nat :=
  if c.toNat < 0x10000 then [c.toNat]
  else [0xD800 + (c.toNat - 0x10000) / 0x400, 0xDC00 + (c.toNat - 0x10000) % 0x400]

theorem units_short (h : c.toNat < 0x10000) : units c = [c.toNat] :=
  if_pos h

/-- What is no surrogate stands for itself. -/
theorem join_cons {n : Nat} (h : ¬ (0xD800 ≤ n ∧ n < 0xDC00)) :
    join (n :: us) = n :: join us := by
  cases us with
  | nil => rfl
  | cons m us =>
    rw [join, if_neg]
    rintro ⟨hl, hh, -⟩
    exact h ⟨hl, hh⟩

theorem join_units (c : Char) (us : List Nat) : join (units c ++ us) = c.toNat :: join us := by
  have hvalid : c.toNat < 0xD800 ∨ 0xDFFF < c.toNat ∧ c.toNat < 0x110000 := c.valid
  unfold units
  split_ifs with h
  · exact join_cons (by omega)
  · have hsum : 0x10000 + (0xD800 + (c.toNat - 0x10000) / 0x400 - 0xD800) * 0x400 +
        (0xDC00 + (c.toNat - 0x10000) % 0x400 - 0xDC00) = c.toNat := by
      omega
    rw [List.cons_append, List.cons_append, List.nil_append, join, if_pos (by omega), hsum]

theorem body_escapeChar (c : Char) (hb : Body us cs) :
    Body (units c ++ us) (escapeChar c ++ cs) := by
  have hvalid : c.toNat < 0xD800 ∨ 0xDFFF < c.toNat ∧ c.toNat < 0x110000 := c.valid
  unfold escapeChar
  split
  · exact .short rfl hb
  · exact .short rfl hb
  · exact .short rfl hb
  · exact .short rfl hb
  · exact .short rfl hb
  · exact .short rfl hb
  · exact .short rfl hb
  · next hquote hslash _ _ _ _ _ =>
    split_ifs with hplain hunit
    · simp only [Bool.and_eq_true, decide_eq_true_eq] at hplain
      rw [units_short (by omega)]
      exact .plain hplain.1 hquote hslash hb
    · rw [units_short hunit]
      exact body_escapeUnit hunit hb
    · rw [units, if_neg hunit, List.append_assoc]
      exact body_escapeUnit (by omega) (body_escapeUnit (by omega) hb)

theorem ascii_escapeChar (c : Char) : Ascii (escapeChar c) := by
  unfold escapeChar
  split
  · decide
  · decide
  · decide
  · decide
  · decide
  · decide
  · decide
  · split_ifs with hplain hunit
    · simp only [Bool.and_eq_true, decide_eq_true_eq] at hplain
      exact Ascii.cons (by omega) (fun _ h => absurd h List.not_mem_nil)
    · exact ascii_escapeUnit _
    · exact (ascii_escapeUnit _).append (ascii_escapeUnit _)

theorem body_flatMap (cs : List Char) :
    Body (cs.flatMap units) (cs.flatMap escapeChar) ∧
      join (cs.flatMap units) = cs.map Char.toNat ∧ Ascii (cs.flatMap escapeChar) := by
  induction cs with
  | nil => exact ⟨.nil, rfl, fun _ h => absurd h List.not_mem_nil⟩
  | cons c cs ih =>
    obtain ⟨hb, hj, ha⟩ := ih
    rw [List.flatMap_cons, List.flatMap_cons, List.map_cons]
    exact ⟨body_escapeChar c hb, by rw [join_units, hj], (ascii_escapeChar c).append ha⟩

end Strings

section Writer

variable {layout : Layout} {depth : Nat} {dialect : Dialect} {cs gap : List Char} {part : Part}

/-- A layout that puts nothing but gaps between the parts of a text. -/
def Layout.Blank (layout : Layout) : Prop :=
  ∀ depth, (layout.newline depth).all isGap = true

theorem Layout.Blank.separator (h : layout.Blank) (depth : Nat) :
    ∃ gap, layout.separator depth = ',' :: gap ∧ gap.all isGap = true := by
  cases layout with
  | none => exact ⟨[' '], rfl, rfl⟩
  | some unit => exact ⟨_, rfl, h depth⟩

theorem gap_nil : ([] : List Char).all isGap = true :=
  rfl

theorem gap_blank : [' '].all isGap = true :=
  rfl

/-- A text in ASCII that spells a part. -/
def Puts (part : Part) (cs : List Char) : Prop :=
  Spells .extended part cs ∧ Ascii cs

theorem puts_word {d : Document} (h : word? .extended cs = some d) : Puts (.value d) cs :=
  ⟨.word h, ascii_word (all_of_word h).2⟩

theorem word?_number (h : isNumber cs = true) : word? dialect cs = some (.number cs) :=
  if_pos h

theorem puts_string (s : String) : Puts (.value (.string (points s))) (stringText s) := by
  obtain ⟨hb, hj, ha⟩ := body_flatMap s.toList
  have hspells : Spells .extended _ (stringText s) := .string hb
  rw [hj] at hspells
  have hquote : Ascii ['"'] := by decide
  exact ⟨hspells, Ascii.cons (by decide) (ha.append hquote)⟩

theorem puts_scalar (v : Scalar) : Puts (.value (scalarDocument v)) (scalarText v) := by
  cases v with
  | null => exact puts_word rfl
  | bool value =>
    cases value with
    | true => exact puts_word rfl
    | false => exact puts_word rfl
  | int value => exact puts_word (word?_number (isNumber_int value))
  | float value =>
    cases value with
    | nan => exact puts_word rfl
    | infinite negative =>
      cases negative with
      | true => exact puts_word rfl
      | false => exact puts_word rfl
    | finite negative rank h => exact puts_word (word?_number (isNumber_finite h))
  | text value => exact puts_string value

/-- The writer puts the text of a value in front of whatever follows, at every depth. -/
def Written (layout : Layout) (v : Json) : Prop :=
  ∀ depth, ∃ cs, (∀ rest, write layout depth v rest = cs ++ rest) ∧ Puts (.value (document v)) cs

theorem Puts.item {d : Document} {before after : List Char} (hb : before.all isGap = true)
    (h : Puts (.value d) cs) (ha : after.all isGap = true) :
    Puts (.item d) (before ++ (cs ++ after)) :=
  ⟨.item hb h.1 ha, (ascii_gap hb).append (h.2.append (ascii_gap ha))⟩

theorem Puts.lastItem {d : Document} (h : Puts (.item d) cs) : Puts (.items [d]) (cs ++ [']']) :=
  ⟨.lastItem h.1, h.2.append (by decide)⟩

theorem Puts.nextItem {d : Document} {ds : List Document} {more : List Char}
    (h : Puts (.item d) cs) (hmore : Puts (.items ds) more) :
    Puts (.items (d :: ds)) (cs ++ ',' :: more) :=
  ⟨.nextItem h.1 hmore.1, h.2.append (.cons (by decide) hmore.2)⟩

theorem Puts.field {key : String} {d : Document} {before : List Char}
    (hb : before.all isGap = true) (h : Puts (.item d) cs) :
    Puts (.field (points key) d) (before ++ (stringText key ++ ':' :: cs)) := by
  obtain ⟨hbody, hj, ha⟩ := body_flatMap key.toList
  have hspells := Spells.field hb hbody gap_nil h.1
  rw [hj] at hspells
  refine ⟨?_, (ascii_gap hb).append ((puts_string key).2.append (.cons (by decide) h.2))⟩
  simpa [stringText, points] using hspells

theorem Puts.lastField {key : List Nat} {d : Document} (h : Puts (.field key d) cs) :
    Puts (.fields [(key, d)]) (cs ++ ['\x7d']) :=
  ⟨.lastField h.1, h.2.append (by decide)⟩

theorem Puts.nextField {key : List Nat} {d : Document} {ds : List (List Nat × Document)}
    {more : List Char} (h : Puts (.field key d) cs) (hmore : Puts (.fields ds) more) :
    Puts (.fields ((key, d) :: ds)) (cs ++ ',' :: more) :=
  ⟨.nextField h.1 hmore.1, h.2.append (.cons (by decide) hmore.2)⟩

/-- The items of a list up to its closing bracket, the first behind any gap. -/
theorem written_items (hl : layout.Blank) (hg : gap.all isGap = true) (item : Json)
    (items : List Json) (h : ∀ v ∈ item :: items, Written layout v) :
    ∃ cs, (∀ rest, gap ++ write layout (depth + 1) item (writeItems layout (depth + 1) items
      (layout.newline depth ++ ']' :: rest)) = cs ++ rest) ∧
        Puts (.items (documents (item :: items))) cs := by
  induction items generalizing gap item with
  | nil =>
    obtain ⟨cs, hcs, hp⟩ := h item List.mem_cons_self (depth + 1)
    refine ⟨_, fun rest => ?_, (hp.item hg (hl depth)).lastItem⟩
    rw [hcs, writeItems]
    simp only [List.append_assoc, List.cons_append, List.nil_append]
  | cons next items ih =>
    obtain ⟨cs, hcs, hp⟩ := h item List.mem_cons_self (depth + 1)
    obtain ⟨gap', hsep, hg'⟩ := hl.separator (depth + 1)
    obtain ⟨more, hmore, hpmore⟩ := ih hg' next fun v hv => h v (List.mem_cons_of_mem _ hv)
    refine ⟨_, fun rest => ?_, (hp.item hg gap_nil).nextItem hpmore⟩
    rw [hcs, writeItems, hsep]
    simp only [List.append_assoc, List.cons_append, List.append_nil, hmore]

/-- The fields of an object up to its closing brace, the first behind any gap. -/
theorem written_fields (hl : layout.Blank) (hg : gap.all isGap = true) (field : String × Json)
    (fields : List (String × Json)) (h : ∀ f ∈ field :: fields, Written layout f.2) :
    ∃ cs, (∀ rest, gap ++ writeField layout (depth + 1) field (writeFields layout (depth + 1) fields
      (layout.newline depth ++ '\x7d' :: rest)) = cs ++ rest) ∧
        Puts (.fields (fieldDocuments (field :: fields))) cs := by
  induction fields generalizing gap field with
  | nil =>
    obtain ⟨cs, hcs, hp⟩ := h field List.mem_cons_self (depth + 1)
    have hitem := hp.item gap_blank (hl depth)
    refine ⟨_, fun rest => ?_, (Puts.field hg hitem).lastField⟩
    rw [writeField, hcs, writeFields]
    simp only [List.append_assoc, List.cons_append, List.nil_append]
  | cons next fields ih =>
    obtain ⟨cs, hcs, hp⟩ := h field List.mem_cons_self (depth + 1)
    obtain ⟨gap', hsep, hg'⟩ := hl.separator (depth + 1)
    obtain ⟨more, hmore, hpmore⟩ := ih hg' next fun v hv => h v (List.mem_cons_of_mem _ hv)
    have hitem := hp.item gap_blank gap_nil
    refine ⟨_, fun rest => ?_, (Puts.field hg hitem).nextField hpmore⟩
    rw [writeField, hcs, writeFields, hsep]
    simp only [List.append_assoc, List.cons_append, List.nil_append, hmore]

theorem sizeOf_item_lt {v : Json} {items : List Json} (h : v ∈ items) :
    sizeOf v < sizeOf (array items) := by
  have hlt := List.sizeOf_lt_of_mem h
  simp only [array.sizeOf_spec]
  omega

theorem sizeOf_field_lt {f : String × Json} {fields : List (String × Json)} (h : f ∈ fields) :
    sizeOf f.2 < sizeOf (object fields) := by
  have hlt := List.sizeOf_lt_of_mem h
  obtain ⟨key, value⟩ := f
  simp only [object.sizeOf_spec, Prod.mk.sizeOf_spec] at hlt ⊢
  omega

theorem written (hl : layout.Blank) (v : Json) : Written layout v := by
  intro depth
  cases v with
  | scalar value =>
    refine ⟨_, fun rest => ?_, puts_scalar value⟩
    rw [write]
  | array items =>
    cases items with
    | nil =>
      refine ⟨['[', ']'], fun rest => ?_, ?_, by decide⟩
      · rw [write]
        rfl
      · rw [document, documents]
        exact .emptyArray gap_nil
    | cons item items =>
      obtain ⟨cs, hcs, hp⟩ := written_items hl (hl (depth + 1)) item items
        fun v hv => written hl v
      refine ⟨'[' :: cs, fun rest => ?_, .array hp.1, .cons (by decide) hp.2⟩
      rw [write, hcs, List.cons_append]
  | object fields =>
    cases fields with
    | nil =>
      refine ⟨['\x7b', '\x7d'], fun rest => ?_, ?_, by decide⟩
      · rw [write]
        rfl
      · rw [document, fieldDocuments]
        exact .emptyObject gap_nil
    | cons field fields =>
      obtain ⟨cs, hcs, hp⟩ := written_fields hl (hl (depth + 1)) field fields
        fun f hf => written hl f.2
      refine ⟨'\x7b' :: cs, fun rest => ?_, .object hp.1, .cons (by decide) hp.2⟩
      rw [write, hcs, List.cons_append]
termination_by v
decreasing_by
  · exact sizeOf_item_lt hv
  · exact sizeOf_field_lt hf

/-- The text of a value says the value, and that alone. -/
theorem text_spells (hl : layout.Blank) (v : Json) :
    Puts (.item (document v)) (text layout v).toList := by
  obtain ⟨cs, hcs, hp⟩ := written hl v 0
  have htext : (text layout v).toList = [] ++ (cs ++ []) := by
    rw [text, String.toList_ofList, hcs, List.nil_append]
  rw [htext]
  exact hp.item gap_nil gap_nil

end Writer

section Injective

theorem points_inj {s s' : String} (h : points s = points s') : s = s' := by
  have hchar : ∀ c c' : Char, c.toNat = c'.toNat → c = c' := by
    intro c c' hc
    rw [← Char.ofNat_toNat c, hc, Char.ofNat_toNat]
  exact String.toList_inj.1 ((List.map_inj_right hchar).1 h)

/-- A number is known by its text. -/
theorem scalarOf?_document {v : Scalar} {text : List Char} (h : scalarDocument v = .number text) :
    scalarOf? text = some v := by
  cases v with
  | null => cases h
  | bool => cases h
  | int value =>
    cases h
    exact scalarOf?_int value
  | float value =>
    cases h
    exact scalarOf?_float value
  | text => cases h

theorem scalarDocument_inj {v w : Scalar} (h : scalarDocument v = scalarDocument w) : v = w := by
  have hnumber : ∀ text, scalarDocument v = .number text → v = w := fun text hv =>
    Option.some.inj ((scalarOf?_document hv).symm.trans (scalarOf?_document (h.symm.trans hv)))
  cases v with
  | int value => exact hnumber _ rfl
  | float value => exact hnumber _ rfl
  | null =>
    cases w with
    | null => rfl
    | bool | int | float | text => cases h
  | bool value =>
    cases w with
    | bool value' =>
      cases h
      rfl
    | null | int | float | text => cases h
  | text value =>
    cases w with
    | text value' => rw [points_inj (Document.string.inj h)]
    | null | bool | int | float => cases h

theorem documents_inj {vs ws : List Json}
    (hinj : ∀ v ∈ vs, ∀ w, document v = document w → v = w) (h : documents vs = documents ws) :
    vs = ws := by
  induction vs generalizing ws with
  | nil =>
    cases ws with
    | nil => rfl
    | cons w ws => cases h
  | cons v vs ih =>
    cases ws with
    | nil => cases h
    | cons w ws =>
      obtain ⟨hv, hvs⟩ := List.cons.inj h
      rw [hinj v List.mem_cons_self w hv,
        ih (fun u hu => hinj u (List.mem_cons_of_mem _ hu)) hvs]

theorem fieldDocuments_inj {fs gs : List (String × Json)}
    (hinj : ∀ f ∈ fs, ∀ w, document f.2 = document w → f.2 = w)
    (h : fieldDocuments fs = fieldDocuments gs) : fs = gs := by
  induction fs generalizing gs with
  | nil =>
    cases gs with
    | nil => rfl
    | cons g gs => cases h
  | cons f fs ih =>
    obtain ⟨key, v⟩ := f
    cases gs with
    | nil => cases h
    | cons g gs =>
      obtain ⟨key', w⟩ := g
      obtain ⟨hf, hfs⟩ := List.cons.inj h
      obtain ⟨hkey, hv⟩ := Prod.mk.inj hf
      obtain rfl := points_inj hkey
      obtain rfl := hinj (key, v) List.mem_cons_self w hv
      rw [ih (fun u hu => hinj u (List.mem_cons_of_mem _ hu)) hfs]

theorem scalarDocument_ne_array (v : Scalar) (ds : List Document) :
    scalarDocument v ≠ .array ds := by
  cases v <;> simp [scalarDocument]

theorem scalarDocument_ne_object (v : Scalar) (ds : List (List Nat × Document)) :
    scalarDocument v ≠ .object ds := by
  cases v <;> simp [scalarDocument]

/-- A value is known by its document. -/
theorem document_inj : (v w : Json) → document v = document w → v = w
  | scalar value, w, h => by
    cases w with
    | scalar value' =>
      rw [document, document] at h
      rw [scalarDocument_inj h]
    | array items => exact absurd h (scalarDocument_ne_array value _)
    | object fields => exact absurd h (scalarDocument_ne_object value _)
  | array items, w, h => by
    cases w with
    | scalar value => exact absurd h.symm (scalarDocument_ne_array value _)
    | array items' =>
      rw [document, document] at h
      rw [documents_inj (fun v hv w hvw => document_inj v w hvw) (Document.array.inj h)]
    | object fields => cases h
  | object fields, w, h => by
    cases w with
    | scalar value => exact absurd h.symm (scalarDocument_ne_object value _)
    | array items => cases h
    | object fields' =>
      rw [document, document] at h
      rw [fieldDocuments_inj (fun f hf w hfw => document_inj f.2 w hfw) (Document.object.inj h)]
termination_by v => v
decreasing_by
  · exact sizeOf_item_lt hv
  · exact sizeOf_field_lt hf

end Injective

end FrontEnd.Json
