import FrontEnd.Proofs.ExitStatus
import FrontEnd.Proofs.LongSums
import FrontEnd.Proofs.ProgramDumps
import FrontEnd.Proofs.QuotedText

namespace FrontEnd

namespace CommandLine

variable {words words' : List String} {opener : String → Except SystemError Octets}
  {inv : Invocation} {path : String} {cs : List Char} {ts : List Token} {indent : Int} {room : Nat}

/-- The line of a token in a listing without its line feed. -/
def listingRow (t : Token) : String :=
  padRight 16 t.kind.name ++ " " ++ padRight 20 (Text.quoted t.lexeme) ++
    s!" line {t.span.line}, columns {t.span.startColumn}-{t.span.endColumn}"

theorem listingLine_eq (t : Token) : listingLine t = listingRow t ++ "\n" := by
  simp only [listingLine, listingRow, String.append_assoc]
  rfl

theorem newline_not_mem_padRight {width : Nat} {text : String} (h : '\n' ∉ text.toList) :
    '\n' ∉ (padRight width text).toList := by
  simp [padRight, h]

theorem newline_not_mem_listingRow (t : Token) : '\n' ∉ (listingRow t).toList := by
  have hnames : (Kind.all.all fun kind => !kind.name.toList.contains '\n') = true := by
    decide +kernel
  have hname : '\n' ∉ t.kind.name.toList := by
    simpa using List.all_eq_true.1 hnames _ t.kind.mem_all
  have hkind : '\n' ∉ (padRight 16 t.kind.name).toList := newline_not_mem_padRight hname
  have hlexeme : '\n' ∉ (padRight 20 (Text.quoted t.lexeme)).toList :=
    newline_not_mem_padRight (Text.newline_not_mem_quoted t.lexeme)
  have hnumber := Text.newline_not_mem_toString
  simp only [listingRow, String.toList_append, List.mem_append, not_or]
  refine ⟨⟨⟨hkind, ?_⟩, hlexeme⟩, ⟨⟨⟨⟨?_, hnumber _⟩, ?_⟩, hnumber _⟩, ?_⟩, hnumber _⟩
  all_goals decide

/-- Of a listing every line is the row of a token. -/
theorem splitLines_listing (ts : List Token) : Text.splitLines (listing ts).toList =
    ts.map (fun t => (listingRow t).toList) ++ [[]] := by
  have hlines : (listing ts).toList =
      (ts.map fun t => (listingRow t).toList).flatMap (· ++ ['\n']) := by
    simp [listing, String.toList_join, List.flatMap_map, listingLine_eq]
  rw [hlines]
  apply Text.splitLines_rows
  intro row hrow
  obtain ⟨t, _, rfl⟩ := List.mem_map.1 hrow
  exact newline_not_mem_listingRow t

namespace Invocation

end Invocation

end CommandLine
end FrontEnd
