import FrontEnd.File.Reading
import FrontEnd.Grammar.Program
import FrontEnd.Proofs.Octets

namespace FrontEnd

namespace File

variable {cs : List Char} {octets : Octets} {t path : String}

theorem not_mem_unifyNewlines (cs : List Char) : '\r' ∉ unifyNewlines cs := by
  induction cs using unifyNewlines.induct with
  | case1 => exact List.not_mem_nil
  | case2 rest ih => simpa [unifyNewlines] using ih
  | case3 rest h ih => simpa [unifyNewlines] using ih
  | case4 c rest h h' ih =>
    have hc : '\r' ≠ c := fun hc => h' hc.symm
    rw [unifyNewlines]
    · simp [hc, ih]
    · exact h
    · exact h'

/-- Only a carriage return is ever changed. -/
theorem unifyNewlines_eq_iff : unifyNewlines cs = cs ↔ '\r' ∉ cs := by
  constructor
  · intro h
    rw [← h]
    exact not_mem_unifyNewlines cs
  · intro h
    induction cs with
    | nil => rfl
    | cons c rest ih =>
      obtain ⟨hc, hrest⟩ := not_or.1 (mt List.mem_cons.2 h)
      have hne : c ≠ '\r' := fun he => hc he.symm
      rw [unifyNewlines, ih hrest]
      · rintro rest' rfl
        contradiction
      · exact hne

theorem text_encode (cs : List Char) :
    text (Utf8.encode cs) = .ok (String.ofList (unifyNewlines cs)) := by
  rw [text, Utf8.decode_eq_ok_iff.2 rfl]

end File

namespace Source

variable {cs : List Char} {octets : Octets} {path : String} {source : Source}

/-- The source of a text with a line feed at the end of every line, under the base name. -/
def unified (path : String) (cs : List Char) : Source :=
  ofText (String.ofList (File.unifyNewlines cs)) (File.baseName path) .standard

theorem ofFile_encode (path : String) (cs : List Char) :
    ofFile path (Utf8.encode cs) = .ok (unified path cs) := by
  rw [ofFile, File.text_encode]
  rfl

theorem ofText_inj {text text' name : String} {keywords : Keywords} :
    ofText text name keywords = ofText text' name keywords ↔ text = text' := by
  constructor
  · intro h
    exact String.toList_inj.1 (congrArg Source.text h)
  · rintro rfl
    rfl

end Source

/-- A file whose octets are those of a text gives the tokens and the statements, or the fault, of
that text with a line feed at the end of every line. That is the text itself exactly if no carriage
return is in it. -/
theorem file_source {read : String → Except SystemError Octets} {path text : String}
    (h : File.content read path = .ok (Utf8.encode text.toList)) :
    ∃ source, (File.content read path).bind (Source.ofFile path) = .ok source ∧
      source.tokens = (Source.unified path text.toList).tokens ∧
      source.program = (Source.unified path text.toList).program ∧
      (source = .ofText text (File.baseName path) .standard ↔ '\r' ∉ text.toList) := by
  have hread : (File.content read path).bind (Source.ofFile path) =
      .ok (Source.unified path text.toList) := by
    rw [h]
    exact Source.ofFile_encode path text.toList
  refine ⟨_, hread, rfl, rfl, ?_⟩
  rw [Source.unified, Source.ofText_inj, ← File.unifyNewlines_eq_iff]
  constructor
  · intro he
    rw [← String.toList_inj, String.toList_ofList] at he
    exact he
  · intro he
    rw [he, String.ofList_toList]

/-- A string over two lines that end as they do on some systems. -/
def returnInString : String :=
  "\"a\r\nb\""

/-- Its file opens under every path. -/
def openReturn (_ : String) : Except SystemError Octets :=
  .ok (Utf8.encode returnInString.toList)

theorem file_source_returnInString :
    File.content openReturn "src/m.fp" = .ok (Utf8.encode returnInString.toList) ∧
      ∃ source, (File.content openReturn "src/m.fp").bind (Source.ofFile "src/m.fp") = .ok source ∧
        source.tokens = (Source.ofText "\"a\nb\"" "m.fp" .standard).tokens ∧
        source ≠ .ofText returnInString "m.fp" .standard := by
  have hcontent : File.content openReturn "src/m.fp" =
      .ok (Utf8.encode returnInString.toList) := by
    rw [File.content, if_neg (by decide)]
    rfl
  have hbase : File.baseName "src/m.fp" = "m.fp" := by decide
  have hunified : String.ofList (File.unifyNewlines returnInString.toList) = "\"a\nb\"" := by decide
  obtain ⟨source, hs, htokens, -, hsame⟩ := file_source hcontent
  rw [Source.unified, hbase, hunified] at htokens
  rw [hbase] at hsame
  exact ⟨hcontent, source, hs, htokens, mt hsame.1 (by decide)⟩

/-- The tokens of a file need not be those of its text. -/
theorem file_tokens_differ : ¬ ∀ (read : String → Except SystemError Octets) (path text : String),
    File.content read path = .ok (Utf8.encode text.toList) →
      ((File.content read path).bind (Source.ofFile path)).map Source.tokens =
        .ok (Source.ofText text (File.baseName path) .standard).tokens := by
  intro h
  have hsame := h openReturn "m.fp" returnInString rfl
  have hfile : (((File.content openReturn "m.fp").bind (Source.ofFile "m.fp")).map
      Source.tokens).toOption.map (fun r => r.toOption.map (List.map Token.lexeme)) =
        some (some ["\"a\nb\""]) := by
    decide +kernel
  have htext : (Source.ofText returnInString (File.baseName "m.fp") .standard).tokens.toOption.map
      (List.map Token.lexeme) = some ["\"a\r\nb\""] := by
    decide +kernel
  rw [hsame] at hfile
  exact absurd (htext.symm.trans (Option.some.inj hfile)) (by decide)

end FrontEnd
