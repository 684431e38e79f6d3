import Scriptlet.Proofs.Fault.Located
import Scriptlet.Proofs.Layout
import Scriptlet.Proofs.Reader.Blame
import Scriptlet.Proofs.Stack

/-!
# Places in a session

The functions and classes of a text outlive its run, with the places of that text. A later text can
call them, and a fault in them keeps its place. So what a session reports of a text points into the
text, or else into the code of an earlier one (`diagnostics_point_into_session`), and nothing in the
diagnostic tells which. `stale_place_reported` is such a report, beyond the end of the text that it
is about.
-/

namespace Scriptlet

open Run

/-- A place in a function or class of one of several texts, which was read without problems. -/
def Span.KeptFrom (mode : Mode) (texts : List String) (span : Span) : Prop :=
  ∃ text ∈ texts, (Source.ofText mode text).diagnostics = [] ∧
    span ∈ Stmt.codePlacesAll (Source.ofText mode text).statements

namespace Session

/-- Running a text keeps the way texts are read and the host. -/
theorem mode_host_run (s : Session) (text : String) :
    (s.run text).2.mode = s.mode ∧ (s.run text).2.host = s.host := by
  by_cases clean : (Source.ofText s.mode text).diagnostics = []
  · rw [run_of_clean clean]
    cases ran : interpret s.host fuel s.mode (Source.ofText s.mode text).statements s.machine with
    | ok u m =>
      rw [execute_of_ok ran]
      exact ⟨rfl, rfl⟩
    | error why m =>
      rw [execute_of_error ran]
      exact ⟨rfl, rfl⟩
  · rw [run_of_problems clean]
    exact ⟨rfl, rfl⟩

/-- A text adds no code to the heap but that of its own functions and classes. -/
theorem codeIn_run {C : Span → Prop} {s : Session} (unplaced : s.host.Unplaced)
    (code : s.machine.heap.CodeIn C) {text : String}
    (own : (Source.ofText s.mode text).diagnostics = [] →
      ∀ x ∈ Stmt.codePlacesAll (Source.ofText s.mode text).statements, C x) :
    (s.run text).2.machine.heap.CodeIn C := by
  by_cases clean : (Source.ofText s.mode text).diagnostics = []
  · rw [run_of_clean clean, machine_execute]
    have points : (interpret s.host fuel s.mode
        (Source.ofText s.mode text).statements).PointsInto C fun _ => True :=
      pointsInto_interpret (fun _ _ => trivial) unplaced fuel s.mode (fun _ _ => trivial)
        (own clean)
    exact points.code s.machine code
  · rw [run_of_problems clean]
    exact code

/-- The code on the heap after several texts comes from these texts. -/
theorem codeIn_serveAll {C : Span → Prop} {s : Session} (unplaced : s.host.Unplaced)
    (code : s.machine.heap.CodeIn C) {texts : List String}
    (own : ∀ x, x.KeptFrom s.mode texts → C x) :
    let after := s.serveAll (texts.map .text)
    after.mode = s.mode ∧ after.host = s.host ∧ after.machine.heap.CodeIn C := by
  induction texts generalizing s with
  | nil => exact ⟨rfl, rfl, code⟩
  | cons text rest ih =>
    obtain ⟨mode, host⟩ := s.mode_host_run text
    have kept : (s.run text).2.machine.heap.CodeIn C :=
      codeIn_run unplaced code fun clean x mem =>
        own x ⟨text, List.mem_cons_self, clean, mem⟩
    have later : ∀ x, x.KeptFrom (s.run text).2.mode rest → C x := by
      rintro x ⟨other, mem, kept⟩
      rw [mode] at kept
      exact own x ⟨other, List.mem_cons_of_mem _ mem, kept⟩
    obtain ⟨mode', host', code'⟩ := ih (host ▸ unplaced) kept later
    exact ⟨mode'.trans mode, host'.trans host, code'⟩

/-- What is reported of a text points into the text or into code on the heap. Only faults of its run
point into code on the heap. -/
theorem place_of_report {C : Span → Prop} {s : Session} (unplaced : s.host.Unplaced)
    (code : s.machine.heap.CodeIn C) {text : String} {d : Diagnostic} {span : Span}
    (reported : d ∈ (s.run text).1.diagnostics) (at_ : d.span = some span) :
    span.IsPlace s.mode text ∨ C span ∧ ∃ f, (s.run text).1 = .stopped (.fault f) := by
  by_cases clean : (Source.ofText s.mode text).diagnostics = []
  · rw [run_of_clean clean] at reported ⊢
    cases ran : interpret s.host fuel s.mode (Source.ofText s.mode text).statements s.machine with
    | ok u m =>
      rw [execute_of_ok ran] at reported
      cases reported
    | error why m =>
      rw [execute_of_error ran] at reported ⊢
      cases why with
      | awaitingInput | awaitingTime => cases reported
      | outOfFuel =>
        rw [List.mem_singleton.1 reported] at at_
        cases at_
      | fault f =>
        rw [List.mem_singleton.1 reported] at at_
        -- its own functions and classes join the code on the heap before they are called
        have points : (interpret s.host fuel s.mode
            (Source.ofText s.mode text).statements).PointsInto
            (fun x => C x ∨ x ∈ Stmt.codePlacesAll (Source.ofText s.mode text).statements)
            (fun x => C x ∨ x ∈ programPlaces (Source.ofText s.mode text).statements) :=
          pointsInto_interpret (fun x => Or.imp_right fun mem => Stmt.codePlacesAll_subset _ mem)
            unplaced fuel s.mode (fun _ => .inr) fun _ => .inr
        rcases points.fault s.machine (code.mono fun _ => .inl) f m ran span at_ with kept | own
        · exact .inr ⟨kept, f, rfl⟩
        · exact .inl (.program clean own)
  · rw [run_of_problems clean] at reported
    exact .inl (place_of_problem reported at_)

end Session

/-- **Places in a session.** Whatever texts a session has run, the places in what it reports of the
next one are places of that text and lie in it, except for faults of its run: these can also stand
in a function or class of an earlier text that was accepted, and then they lie in that text. -/
theorem diagnostics_point_into_session (mode : Mode) (console : Console) (clock : Clock)
    (earlier : List String) (line : String) :
    let s := (Session.start mode console clock).serveAll (earlier.map .text)
    ∀ d ∈ (s.run line).1.diagnostics, ∀ span, d.span = some span →
      (span.IsPlace mode line ∧ span.Fits line.length) ∨
      ((∃ f, (s.run line).1 = .stopped (.fault f)) ∧
        ∃ text ∈ earlier, (Source.ofText mode text).diagnostics = [] ∧
          span ∈ Stmt.codePlacesAll (Source.ofText mode text).statements ∧
          span.Fits text.length) := by
  intro s d reported span at_
  -- all code on the heap is native or comes from the earlier texts
  obtain ⟨sameMode, host, code⟩ : s.mode = mode ∧ s.host = Host.none ∧
      s.machine.heap.CodeIn (Span.KeptFrom mode earlier) :=
    Session.codeIn_serveAll Host.unplaced_none (codeIn_start _ console clock) fun _ kept => kept
  rcases Session.place_of_report (host ▸ Host.unplaced_none) code reported at_ with own | kept
  · rw [sameMode] at own
    exact .inl ⟨own, own.fits⟩
  · obtain ⟨⟨text, mem, clean, there⟩, stopped⟩ := kept
    refine .inr ⟨stopped, text, mem, clean, there, ?_⟩
    exact fits_of_clean clean span (Stmt.codePlacesAll_subset _ there)

/-- A line that declares a function with an undefined name in it. -/
def declaringLine : String := "function f(a) \x7b return a + missing; \x7d"

/-- A call of that function reports a place that the line with the call does not have. -/
theorem stale_place_reported :
    let s := (Session.start .interactive {} (.still 0)).serveAll ([declaringLine].map .text)
    ∃ d span, (s.run "f(1)").1.diagnostics = [d] ∧ d.span = some span ∧
      ¬ span.Fits "f(1)".length ∧
      span ∈ Stmt.codePlacesAll (Source.ofText .interactive declaringLine).statements := by
  intro s
  have spans : (s.run "f(1)").1.diagnostics.map (·.span) = [some ⟨27, 34⟩] := by decide +kernel
  obtain ⟨d, rest, reported, at_, none⟩ := List.map_eq_cons_iff.1 spans
  rw [List.map_eq_nil_iff.1 none] at reported
  have beyond : ¬ Span.Fits "f(1)".length ⟨27, 34⟩ := fun fits => absurd fits.2 (by decide)
  refine ⟨d, ⟨27, 34⟩, reported, at_, beyond, ?_⟩
  have own : d ∈ (s.run "f(1)").1.diagnostics := reported ▸ List.mem_singleton_self d
  rcases diagnostics_point_into_session .interactive {} (.still 0) [declaringLine] "f(1)" d own _ at_ with
    ⟨-, fits⟩ | ⟨-, text, mem, -, there, -⟩
  · exact absurd fits beyond
  · rw [List.mem_singleton.1 mem] at there
    exact there

end Scriptlet
