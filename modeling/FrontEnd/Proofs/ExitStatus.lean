import FrontEnd.Proofs.DumpLimits
import FrontEnd.Proofs.Faults
import FrontEnd.Proofs.FileSources

namespace FrontEnd

/-- The report on a fault that has one. -/
def Fault.report? : Fault → Option Diagnostic
  | .scan (.lexical e) => some e.diagnostic
  | .parse (.rejected e) => some e.diagnostic
  | _ => none

namespace CommandLine

variable {words : List String} {opener : String → Except SystemError Octets} {inv : Invocation}
  {source : Source} {ts : List Token} {octets : Octets} {room : Nat}

namespace Invocation

/-- What a run meets in a source: a listing of the tokens goes no further than the characters. -/
def fault? (inv : Invocation) (source : Source) : Option Fault :=
  match inv.command with
  | .tokens =>
    match source.tokens with
    | .error fault => some (.scan fault)
    | .ok _ => none
  | .ast _ =>
    match source.program with
    | .error fault => some fault
    | .ok _ => none

/-- A run on a source ends well without a fault, and otherwise with a report behind the log. -/
def Reports (inv : Invocation) (fault : Option Fault) (run : Outcome) : Prop :=
  match fault with
  | none => run.ending = .status 0 ∧ (inv.verbose = false → run.errors = "")
  | some fault => run.ending = .status 1 ∧ ∃ d log, fault.report? = some d ∧
      run.errors = log ++ d.render inv.colored ∧ (inv.verbose = false → log = "")

theorem runSource_listing (hc : inv.command = .tokens) (h : source.tokens = .ok ts) :
    inv.runSource room source = ⟨.status 0, listing ts, inv.scanLog source ts⟩ := by
  simp only [runSource, h, hc]

section Dumps

variable {indent : Option Int} {nodes : List Node} {rest : List Token} {text : String}
  {fault : DumpFault}

end Dumps

/-- The run ends where the dump is withheld. -/
def Leaves (inv : Invocation) (fault : DumpFault) (run : Outcome) : Prop :=
  run.ending = .escaped (.dump fault) ∧ run.output = "" ∧ (inv.verbose = false → run.errors = "")

end Invocation

theorem kindOf_ne_number (word : String) : Keywords.standard.kindOf word ≠ .number := by
  have hk : (Keywords.standard.all fun e => e.2 != .number) = true := by decide
  exact Keywords.kindOf_ne_number hk word

theorem Invocation.Reports.status {fault : Option Fault} {run : Outcome}
    (h : inv.Reports fault run) : ∃ n, run.ending = .status n := by
  cases fault with
  | none => exact ⟨0, h.1⟩
  | some fault => exact ⟨1, h.1⟩

end CommandLine
end FrontEnd
