import Scriptlet.Proofs.Reader.Spans
import Scriptlet.Proofs.Trace.Laws

/-!
# Located faults

Operators, natives and the checks of calls raise faults without a place, and a fault gets one on its
way out of the run. `faults_located` says that none misses it: the fault that ends the run of a text
points at an expression, at a name or at a return of that text, and once a fault has a place, it
passes all tasks around as it is.
-/

namespace Scriptlet

open Run

/-- The code on the machine of a fresh session is native. -/
theorem codeIn_start (C : Span → Prop) (console : Console) (clock : Clock) :
    (Machine.start console clock).heap.CodeIn C :=
  Machine.codeIn_registerAll (Heap.codeIn_empty C) standardLibrary

/-- **Faults are located.** Let a text be scanned and read without problems, and run on the machine
of a fresh session, whatever its clock shows. If the run ends with a fault, then the fault has a place: that of an expression,
of a name or of a return of the program, which lies in the text, and its line is one more than the
line ends before it. Inside the run, whatever task stops with a fault that has a place, that fault
is how all tasks around it stop, and the run. -/
theorem faults_located (mode : Mode) (text : String) (console : Console) (clock : Clock)
    (fuel : Nat) (clean : (Source.ofText mode text).diagnostics = []) :
    let p := (Source.ofText mode text).statements
    let traced := traceProgram Host.none fuel mode p
    let m := Machine.start console clock
    (∀ f m', interpret Host.none fuel mode p m = .error (.fault f) m' →
      ∃ s, f.span = some s ∧ s ∈ programPlaces p ∧ s.start ≤ s.stop ∧ s.stop ≤ text.length ∧
        f.line? text = some (1 + (text.toList.take s.start).count '\n')) ∧
    traced.run = interpret Host.none fuel mode p ∧
    ∀ root ∈ traced.inner m, ∀ around node, root.Within around node →
      ∀ f s, f.span = some s → node.report = .stopped (.fault f) →
        (∀ t ∈ around, t.report = .stopped (.fault f)) ∧
        ∃ m', interpret Host.none fuel mode p m = .error (.fault f) m' := by
  intro p traced m
  have follows := follows_traceProgram Host.none fuel mode p
  refine ⟨fun f m' stopped => ?_, follows.run, ?_⟩
  · obtain ⟨s, at_⟩ := located_interpret Host.none fuel mode p m f m' stopped
    -- a fresh machine has no code with places, so the places are those of the program
    have points : (interpret Host.none fuel mode p).PointsInto (· ∈ Stmt.codePlacesAll p)
        (· ∈ programPlaces p) :=
      pointsInto_interpret (fun _ mem => Stmt.codePlacesAll_subset p mem) Host.unplaced_none fuel
        mode (fun _ mem => mem) fun _ mem => mem
    have there := points.fault m (codeIn_start _ console clock) f m' stopped s at_
    obtain ⟨order, inside⟩ := fits_of_clean clean s there
    refine ⟨s, at_, there, order, inside, ?_⟩
    rw [Fault.line?, at_, Option.map_some, lineNumber, Nat.add_comm]
  · intro root top around node inside f s at_ stopped
    have lawful := follows.lawful m root top
    obtain ⟨others, risen⟩ := lawful.stopped_around inside at_ stopped
    exact ⟨others, follows.stopped m root top _ risen⟩

/-- A text that reads the clock in its first line, and once more in a function that its last line
calls. -/
def timingText : String :=
  "var start = epoch();\nfunction f() \x7b\n  return epoch() - start;\n\x7d\nf();"

/-- Its run on a clock that is set back before 1970 between the two readings. -/
def timingRun : EStateM.Result Stop Machine Unit :=
  interpret Host.none 20 .file (Source.ofText .file timingText).statements
    (Machine.start {} (.ofList [3, -1]))

theorem clock_fault_located :
    (Source.ofText .file timingText).diagnostics = [] ∧
    ∃ f m', timingRun = .error (.fault f) m' ∧
      f.message = "system clock is before the Unix epoch: second time provided was later than self" ∧
      f.line? timingText = some 3 ∧
      ∃ s ∈ programPlaces (Source.ofText .file timingText).statements, f.span = some s := by
  have clean : (Source.ofText .file timingText).diagnostics = [] := by decide +kernel
  have stops : Report.ofResult (fun _ => .flow .next) timingRun =
      .stopped (.fault (.withSpan (FaultCause.custom
        "system clock is before the Unix epoch: second time provided was later than self")
        ⟨45, 52⟩)) := by
    decide +kernel
  obtain ⟨m', stopped⟩ := Traced.ofResult_eq_stopped (by simp) stops
  obtain ⟨s, at_, there, -⟩ :=
    (faults_located .file timingText {} (.ofList [3, -1]) 20 clean).1 _ m' stopped
  exact ⟨clean, _, m', stopped, rfl, by decide +kernel, s, there, at_⟩

end Scriptlet
