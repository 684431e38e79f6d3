import Scriptlet.Proofs.Parts
import Scriptlet.Proofs.Trace.Bounds

/-!
# Counting up and down as assignments

`++t` reads the place `t` and writes to it what it has computed; `t = t + 1` evaluates a sum, in
which `t` is an operand, and then stores its value in `t`. Both go through the parts of `t` twice, in
the same order, and whatever the parts do is done twice.

`Changes` says how a place is read and then written, whichever of the two it is for; each form is
shown to end exactly as that says (`ends_step_iff`, `ends_assign_iff`), so that they end alike.
-/

namespace Scriptlet

open Run Traced

/-! ## How expressions end -/

/-- Under some bound the evaluation of the expression ends so. -/
def Expr.Leads (host : Host) (e : Expr) (m : Machine) (r : Outcome Value) : Prop :=
  (∀ m', r ≠ .error .outOfFuel m') ∧ ∃ n, Expr.eval host n e m = r

/-- The evaluation of the expression ends, and this is its trace. -/
def Expr.Unfolds (host : Host) (e : Expr) (m : Machine) (trace : Trace) : Prop :=
  ∃ r, Ends (fun n => Expr.trace host n e) m r [trace]

variable {host : Host} {e t d : Expr} {op : StepOp} {m : Machine} {tasks : List Trace}

theorem leads_iff_ends {r : Outcome Value} :
    e.Leads host m r ↔ ∃ tasks, Ends (fun n => Expr.trace host n e) m r tasks := by
  have run (n : Nat) : (Expr.trace host n e).run = Expr.eval host n e := ((obeys host n).eval e).run
  constructor
  · rintro ⟨settled, n, ended⟩
    exact ⟨_, settled, n, by rw [run, ended], rfl⟩
  · rintro ⟨tasks, settled, n, ended, -⟩
    exact ⟨settled, n, by rw [← run, ended]⟩

theorem Expr.Leads.unique {r r' : Outcome Value} (leads : e.Leads host m r)
    (leads' : e.Leads host m r') : r = r' := by
  obtain ⟨tasks, ends⟩ := leads_iff_ends.1 leads
  obtain ⟨tasks', ends'⟩ := leads_iff_ends.1 leads'
  exact ((growing_eval host e).unique ends ends').1

/-- Every evaluation is one task, and gives the faults in it a place. -/
theorem Traced.Ends.eval {r : Outcome Value} (ends : Ends (fun n => Expr.trace host n e) m r tasks) :
    r.located e.span = r ∧
      ∃ inner, tasks = [.node (.eval e) m inner (.ofResult .value r) r.machine] := by
  have same (n : Nat) : ∃ w : Traced Value,
      Expr.trace host (n + 1) e = doing (.eval e) .value (Traced.locating e.span w) :=
    ⟨_, by unfold Expr.trace; rfl⟩
  obtain ⟨f, same⟩ := Classical.axiomOfChoice same
  obtain ⟨r', inner, -, rfl, rfl⟩ := (ends_eval_iff same).1 ends
  exact ⟨r'.located_located _ _, inner, rfl⟩

theorem Traced.Ends.located {r : Outcome Value} (ends : Ends (fun n => Expr.trace host n e) m r tasks)
    (span : Span) : r.located span = r := by
  rw [← ends.eval.1, Outcome.located_located]

/-! ## Reading a place and writing to it -/

/-- The place is read, and then the number in it, changed by the operator, is written to it: with
which tasks, and how that ends. -/
inductive Changes (host : Host) (op : StepOp) (t : Expr) (m : Machine) :
    List Trace → List Trace → Outcome (Float × Float) → Prop
  | unread {why : Stop} {m' : Machine} {reads : List Trace} :
      Ends (fun n => Expr.trace host n t) m (.error why m') reads →
      Changes host op t m reads [] (.error why m')
  | written {x : Float} {m' : Machine} {reads writes : List Trace} {r : Outcome Unit} :
      Ends (fun n => Expr.trace host n t) m (.ok (.number x) m') reads →
      Ends (fun n => Expr.traceStore host n t (.number (x + op.delta))) m' r writes →
      Changes host op t m reads writes (r.map fun _ => (x, x + op.delta))

/-- What the place holds, if reading it ends with a value, is a number. -/
def Numeric (host : Host) (t : Expr) (m : Machine) : Prop :=
  ∀ v m', t.Leads host m (.ok v m') → ∃ x, v = .number x

theorem Numeric.of_ends (numeric : Numeric host t m) {v : Value} {m' : Machine}
    (ends : Ends (fun n => Expr.trace host n t) m (.ok v m') tasks) : ∃ x, v = .number x :=
  numeric v m' (leads_iff_ends.2 ⟨tasks, ends⟩)

theorem ends_step_iff (assignable : t.isAssignable = true) (numeric : Numeric host t m)
    {r : Outcome (Float × Float)} :
    Ends (fun n => Expr.traceStep host n op t) m r tasks ↔
      ∃ reads writes, Changes host op t m reads writes r ∧ tasks = reads ++ writes := by
  have start : Expr.traceStep host 0 op t = quiet (stop .outOfFuel) := by unfold Expr.traceStep; rfl
  have same (n : Nat) : Expr.traceStep host (n + 1) op t =
      (Expr.trace host n t >>= fun v => quiet (onHeap (·.toNumber v)) >>= fun old =>
        Expr.traceStore host n t (.number (old + op.delta)) >>= fun _ =>
          pure (old, old + op.delta)) := by
    unfold Expr.traceStep
    rw [if_pos assignable]
  rw [ends_succ_iff (f := fun n => Expr.traceStep host n op t) start]
  simp only [same]
  constructor
  · intro ends
    obtain ⟨why, m', first, rfl⟩ | ⟨v, m', reads, rest, read, ends, rfl⟩ := ends.of_bind
    · exact ⟨tasks, [], .unread first, by simp⟩
    · obtain ⟨x, rfl⟩ := numeric.of_ends read
      obtain ⟨why, m₁, counted, -⟩ | ⟨old, m₁, none, writes, counted, ends, rfl⟩ := ends.of_bind
      · cases counted.of_quiet.1
      · obtain ⟨⟨⟩, rfl⟩ := counted.of_quiet
        obtain ⟨r', written, rfl⟩ := ends_map_iff.1 ends
        exact ⟨reads, writes, .written read written, by simp⟩
  · rintro ⟨reads, writes, changes, rfl⟩
    have storing (old : Float) : Growing fun n =>
        Expr.traceStore host n t (.number (old + op.delta)) >>= fun _ =>
          pure (old, old + op.delta) :=
      (growing_store host t _).bind fun _ => growing_quiet _
    cases changes with
    | unread first =>
      rw [List.append_nil]
      exact first.bind_error
    | @written x m' _ _ r read written =>
      have counted : Ends (fun _ => quiet (onHeap (·.toNumber (.number x)))) m' (.ok x m') [] :=
        ends_quiet rfl
      refine read.bind_ok ?_ (growing_eval host t) fun v => (growing_quiet _).bind storing
      exact counted.bind_ok (ends_map_iff.2 ⟨r, written, rfl⟩) (growing_quiet _) storing

/-! ## The three forms -/

/-- An evaluation that changes a place by one and makes its value of the numbers before and after. -/
theorem ends_counting_iff (assignable : t.isAssignable = true) (numeric : Numeric host t m)
    {k : Float × Float → Float} {r : Outcome Value}
    (same : ∀ n, Expr.trace host (n + 1) e = doing (.eval e) .value (Traced.locating e.span
      (Expr.traceStep host n op t >>= fun p => pure (.number (k p))))) :
    Ends (fun n => Expr.trace host n e) m r tasks ↔
      ∃ reads writes r', Changes host op t m reads writes r' ∧
        r = (r'.map fun p => Value.number (k p)).located e.span ∧
        tasks = [.node (.eval e) m (reads ++ writes) (.ofResult .value r) r.machine] := by
  rw [ends_eval_iff same]
  simp only [ends_map_iff, ends_step_iff assignable numeric]
  constructor
  · rintro ⟨_, _, ⟨r', ⟨reads, writes, changes, rfl⟩, rfl⟩, rfl, rfl⟩
    exact ⟨reads, writes, r', changes, rfl, rfl⟩
  · rintro ⟨reads, writes, r', changes, rfl, rfl⟩
    exact ⟨_, _, ⟨r', ⟨reads, writes, changes, rfl⟩, rfl⟩, rfl, rfl⟩

theorem trace_stepThenTake (host : Host) (span : Span) (op : StepOp) (t : Expr) (n : Nat) :
    Expr.trace host (n + 1) (.stepThenTake span op t) =
      doing (.eval (.stepThenTake span op t)) .value (Traced.locating span
        (Expr.traceStep host n op t >>= fun p => pure (.number p.2))) := by
  rw [Expr.trace]
  rfl

theorem trace_takeThenStep (host : Host) (span : Span) (op : StepOp) (t : Expr) (n : Nat) :
    Expr.trace host (n + 1) (.takeThenStep span op t) =
      doing (.eval (.takeThenStep span op t)) .value (Traced.locating span
        (Expr.traceStep host n op t >>= fun p => pure (.number p.1))) := by
  rw [Expr.trace]
  rfl

/-- The expressions that write what an operator adds: one, or minus one. -/
inductive Addend : StepOp → Expr → Prop
  | one (span : Span) : Addend .increment (.literal span (.number 1.0))
  | minusOne (span : Span) : Addend .decrement (.literal span (.number (-1.0)))
  | negated (span inner : Span) :
      Addend .decrement (.unary span .neg (.literal inner (.number 1.0)))
  | group {op : StepOp} {d : Expr} (span : Span) : Addend op d → Addend op (.group span d)

theorem ends_literal (span : Span) (value : Constant) (m : Machine) :
    ∃ tasks, Ends (fun n => Expr.trace host n (.literal span value)) m (.ok value.value m) tasks :=
  ⟨_, nofun, 1, by unfold Expr.trace; exact ⟨rfl, rfl⟩⟩

theorem Addend.ends (addend : Addend op d) (host : Host) (m : Machine) :
    ∃ tasks, Ends (fun n => Expr.trace host n d) m (.ok (.number op.delta) m) tasks := by
  induction addend with
  | one span => exact ends_literal span _ m
  | minusOne span => exact ends_literal span _ m
  | negated span inner =>
    exact ⟨_, nofun, 2, by unfold Expr.trace; unfold Expr.trace; exact ⟨rfl, rfl⟩⟩
  | @group op d span _ ih =>
    obtain ⟨tasks, ends⟩ := ih
    have same (n : Nat) : Expr.trace host (n + 1) (.group span d) =
        doing (.eval (.group span d)) .value (Traced.locating span (Expr.trace host n d)) := by
      rw [Expr.trace]
      rfl
    exact ⟨_, (ends_eval_iff (e := .group span d) same).2 ⟨_, tasks, ends, rfl, rfl⟩⟩

/-- The sum in `t = t + 1`: its tasks are those of reading `t`, and then those of the number. -/
theorem ends_sum_iff (numeric : Numeric host t m) (addend : Addend op d) {inner : Span}
    {r : Outcome Value} :
    Ends (fun n => Expr.trace host n (.binary inner .add t d)) m r tasks ↔
      ∃ reads added,
        ((∃ why m', Ends (fun n => Expr.trace host n t) m (.error why m') reads ∧ added = [] ∧
            r = .error why m') ∨
          ∃ x m', Ends (fun n => Expr.trace host n t) m (.ok (.number x) m') reads ∧
            Ends (fun n => Expr.trace host n d) m' (.ok (.number op.delta) m') added ∧
            r = .ok (.number (x + op.delta)) m') ∧
        tasks = [.node (.eval (.binary inner .add t d)) m (reads ++ added) (.ofResult .value r)
          r.machine] := by
  have same (n : Nat) : Expr.trace host (n + 1) (.binary inner .add t d) =
      doing (.eval (.binary inner .add t d)) .value (Traced.locating inner
        (Expr.trace host n t >>= fun a => Expr.trace host n d >>= fun b =>
          quiet (onHeap (·.binary .add a b)))) := by
    rw [Expr.trace]
    rfl
  have adding (a : Value) : Growing fun n =>
      Expr.trace host n d >>= fun b => quiet (onHeap (·.binary .add a b)) :=
    (growing_eval host d).bind fun _ => growing_quiet _
  rw [ends_eval_iff (e := .binary inner .add t d) same]
  constructor
  · rintro ⟨r', tasks', ends, rfl, rfl⟩
    obtain ⟨why, m', first, rfl⟩ | ⟨v, m', reads, rest, read, ends, rfl⟩ := ends.of_bind
    · refine ⟨tasks', [], .inl ⟨why, m', first, rfl, ?_⟩, by rw [List.append_nil]⟩
      exact first.located inner
    · obtain ⟨x, rfl⟩ := numeric.of_ends read
      obtain ⟨added, computed⟩ := addend.ends host m'
      obtain ⟨why, m₁, failed, -⟩ | ⟨b, m₁, added', none, taken, summed, rfl⟩ := ends.of_bind
      · cases ((growing_eval host d).unique computed failed).1
      · obtain ⟨⟨⟩, rfl⟩ := (growing_eval host d).unique computed taken
        obtain ⟨rfl, rfl⟩ := summed.of_quiet
        exact ⟨reads, added, .inr ⟨x, m', read, computed, rfl⟩, by rw [List.append_nil]⟩
  · rintro ⟨reads, added, ⟨why, m', first, rfl, rfl⟩ | ⟨x, m', read, computed, rfl⟩, rfl⟩
    · refine ⟨_, reads, first.bind_error, (first.located inner).symm, by rw [List.append_nil]⟩
    · have summed : Ends (fun _ => quiet (onHeap (·.binary .add (.number x) (.number op.delta)))) m'
          (.ok (.number (x + op.delta)) m') [] := ends_quiet rfl
      have rest : Ends (fun n => Expr.trace host n d >>= fun b =>
          quiet (onHeap (·.binary .add (.number x) b))) m' _ (added ++ []) :=
        computed.bind_ok summed (growing_eval host d) fun _ => growing_quiet _
      rw [List.append_nil] at rest
      exact ⟨_, _, read.bind_ok rest (growing_eval host t) adding, rfl, rfl⟩

/-- Where a place is changed, the sum can be evaluated first. -/
theorem Changes.sum {reads writes : List Trace} {r : Outcome (Float × Float)}
    (changes : Changes host op t m reads writes r) (numeric : Numeric host t m)
    (addend : Addend op d) (inner : Span) :
    ∃ added rs, (∀ x ∈ added, x.task = .eval d) ∧
      Ends (fun n => Expr.trace host n (.binary inner .add t d)) m rs
        [.node (.eval (.binary inner .add t d)) m (reads ++ added) (.ofResult .value rs)
          rs.machine] := by
  cases changes with
  | unread read =>
    exact ⟨[], _, nofun, (ends_sum_iff numeric addend).2
      ⟨reads, [], .inl ⟨_, _, read, rfl, rfl⟩, rfl⟩⟩
  | @written x m' _ _ _ read _ =>
    obtain ⟨added, computed⟩ := addend.ends host m'
    obtain ⟨-, inside, same⟩ := computed.eval
    refine ⟨added, _, ?_, (ends_sum_iff numeric addend).2
      ⟨reads, added, .inr ⟨x, m', read, computed, rfl⟩, rfl⟩⟩
    rw [same]
    simp [Trace.task]

/-- `t = t + 1` reads the place inside the sum, and then writes to it. -/
theorem ends_assign_iff (numeric : Numeric host t m) (addend : Addend op d) {span inner : Span}
    {r : Outcome Value} :
    Ends (fun n => Expr.trace host n (.assign span t (.binary inner .add t d))) m r tasks ↔
      ∃ reads writes r' sum, Changes host op t m reads writes r' ∧
        (Expr.binary inner .add t d).Unfolds host m sum ∧
        r = (r'.map fun p => Value.number p.2).located span ∧
        tasks = [.node (.eval (.assign span t (.binary inner .add t d))) m (sum :: writes)
          (.ofResult .value r) r.machine] := by
  have same (n : Nat) : Expr.trace host (n + 1) (.assign span t (.binary inner .add t d)) =
      doing (.eval (.assign span t (.binary inner .add t d))) .value (Traced.locating span
        (Expr.trace host n (.binary inner .add t d) >>= fun v =>
          Expr.traceStore host n t v >>= fun _ => pure v)) := by
    rw [Expr.trace]
    rfl
  have storing (v : Value) : Growing fun n => Expr.traceStore host n t v >>= fun _ => pure v :=
    (growing_store host t v).bind fun _ => growing_quiet _
  have sums := growing_eval host (.binary inner .add t d)
  rw [ends_eval_iff (e := .assign span t (.binary inner .add t d)) same]
  constructor
  · rintro ⟨r', tasks', ends, rfl, rfl⟩
    obtain ⟨why, m', first, rfl⟩ | ⟨v, m', added, writes, summed, rest, rfl⟩ := ends.of_bind
    · obtain ⟨reads, added, ⟨why, m', read, rfl, ⟨⟩⟩ | ⟨_, _, _, _, ⟨⟩⟩, rfl⟩ :=
        (ends_sum_iff numeric addend).1 first
      exact ⟨reads, [], _, _, .unread read, ⟨_, first⟩, rfl, rfl⟩
    · obtain ⟨reads, added, ⟨_, _, _, _, ⟨⟩⟩ | ⟨x, m', read, computed, ⟨⟩⟩, rfl⟩ :=
        (ends_sum_iff numeric addend).1 summed
      obtain ⟨r', written, rfl⟩ := ends_map_iff.1 rest
      refine ⟨reads, writes, _, _, .written read written, ⟨_, summed⟩, ?_, rfl⟩
      cases r' <;> rfl
  · rintro ⟨reads, writes, r', sum, changes, ⟨rs, summed⟩, rfl, rfl⟩
    cases changes with
    | unread read =>
      obtain ⟨rfl, -⟩ := sums.unique summed ((ends_sum_iff numeric addend).2
        ⟨reads, [], .inl ⟨_, _, read, rfl, rfl⟩, rfl⟩)
      exact ⟨_, _, summed.bind_error, rfl, rfl⟩
    | @written x m' _ _ r'' read written =>
      obtain ⟨added, computed⟩ := addend.ends host m'
      obtain ⟨rfl, -⟩ := sums.unique summed ((ends_sum_iff numeric addend).2
        ⟨reads, added, .inr ⟨x, m', read, computed, rfl⟩, rfl⟩)
      have stored : Ends (fun n => Expr.traceStore host n t (.number (x + op.delta)) >>= fun _ =>
          pure (.number (x + op.delta))) m' (r''.map fun _ => Value.number (x + op.delta)) writes :=
        ends_map_iff.2 ⟨r'', written, rfl⟩
      refine ⟨_, _, summed.bind_ok stored sums storing, ?_, rfl⟩
      cases r'' <;> rfl

/-- A place is changed in one way at most. -/
theorem Changes.unique {reads reads' writes writes' : List Trace} {r r' : Outcome (Float × Float)}
    (changes : Changes host op t m reads writes r)
    (changes' : Changes host op t m reads' writes' r') :
    reads = reads' ∧ writes = writes' ∧ r = r' := by
  have place := growing_eval host t
  cases changes with
  | unread read =>
    cases changes' with
    | unread read' =>
      obtain ⟨⟨⟩, rfl⟩ := place.unique read read'
      exact ⟨rfl, rfl, rfl⟩
    | written read' _ => cases (place.unique read read').1
  | written read written =>
    cases changes' with
    | unread read' => cases (place.unique read read').1
    | written read' written' =>
      obtain ⟨⟨⟩, rfl⟩ := place.unique read read'
      obtain ⟨rfl, rfl⟩ := (growing_store host t _).unique written written'
      exact ⟨rfl, rfl, rfl⟩

theorem Changes.of_ok {reads writes : List Trace} {r : Outcome (Float × Float)} {p : Float × Float}
    {m' : Machine} (changes : Changes host op t m reads writes r) (ok : r = .ok p m') :
    ∃ x m₁, Ends (fun n => Expr.trace host n t) m (.ok (.number x) m₁) reads ∧
      p = (x, x + op.delta) := by
  cases changes with
  | unread => cases ok
  | @written x m₁ _ _ r read _ =>
    cases r with
    | ok =>
      cases ok
      exact ⟨x, m₁, read, rfl⟩
    | error => cases ok

/-! ## How the forms end -/

section
variable {span inner : Span} {r : Outcome Value}

theorem leads_stepThenTake_iff (assignable : t.isAssignable = true) (numeric : Numeric host t m) :
    (Expr.stepThenTake span op t).Leads host m r ↔
      ∃ reads writes r', Changes host op t m reads writes r' ∧
        r = (r'.map fun p => Value.number p.2).located span := by
  rw [leads_iff_ends]
  simp only [ends_counting_iff assignable numeric (trace_stepThenTake host span op t)]
  constructor
  · rintro ⟨_, reads, writes, r', changes, ended, -⟩
    exact ⟨reads, writes, r', changes, ended⟩
  · rintro ⟨reads, writes, r', changes, ended⟩
    exact ⟨_, reads, writes, r', changes, ended, rfl⟩

theorem leads_takeThenStep_iff (assignable : t.isAssignable = true) (numeric : Numeric host t m) :
    (Expr.takeThenStep span op t).Leads host m r ↔
      ∃ reads writes r', Changes host op t m reads writes r' ∧
        r = (r'.map fun p => Value.number p.1).located span := by
  rw [leads_iff_ends]
  simp only [ends_counting_iff assignable numeric (trace_takeThenStep host span op t)]
  constructor
  · rintro ⟨_, reads, writes, r', changes, ended, -⟩
    exact ⟨reads, writes, r', changes, ended⟩
  · rintro ⟨reads, writes, r', changes, ended⟩
    exact ⟨_, reads, writes, r', changes, ended, rfl⟩

theorem leads_assign_iff (numeric : Numeric host t m) (addend : Addend op d) :
    (Expr.assign span t (.binary inner .add t d)).Leads host m r ↔
      ∃ reads writes r', Changes host op t m reads writes r' ∧
        r = (r'.map fun p => Value.number p.2).located span := by
  rw [leads_iff_ends]
  simp only [ends_assign_iff numeric addend]
  constructor
  · rintro ⟨_, reads, writes, r', _, changes, -, ended, -⟩
    exact ⟨reads, writes, r', changes, ended⟩
  · rintro ⟨reads, writes, r', changes, ended⟩
    obtain ⟨added, rs, -, summed⟩ := changes.sum numeric addend inner
    exact ⟨_, reads, writes, r', _, changes, ⟨rs, summed⟩, ended, rfl⟩

end

/-! ## The parts of the place -/

/-- The step evaluates these expressions in their order, all of them unless it stops the run. -/
def Takes {α : Type} (es : List Expr) (f : Nat → Traced α) : Prop :=
  ∀ m r tasks, Ends f m r tasks → tasks.map (·.task) <+: es.map .eval ∧
    ∀ a m', r = .ok a m' → tasks.map (·.task) = es.map .eval

theorem takes_nothing {α : Type} {f : Nat → Traced α} (nothing : ∀ n m, (f n).inner m = []) :
    Takes [] f := by
  rintro m r tasks ⟨-, n, -, rfl⟩
  rw [nothing]
  exact ⟨List.prefix_rfl, fun _ _ _ => rfl⟩

theorem Takes.cons {α : Type} {es : List Expr} {g : Nat → Value → Traced α}
    (h : ∀ v, Takes es fun n => g n v) :
    Takes (e :: es) fun n => Expr.trace host n e >>= g n := by
  intro m r tasks ends
  obtain ⟨why, m', first, rfl⟩ | ⟨v, m', firsts, rest, first, last, rfl⟩ := ends.of_bind
  · obtain ⟨-, inner, rfl⟩ := first.eval
    exact ⟨List.cons_prefix_cons.2 ⟨rfl, List.nil_prefix⟩, nofun⟩
  · obtain ⟨-, inner, rfl⟩ := first.eval
    obtain ⟨some, all⟩ := h v m' r rest last
    exact ⟨List.cons_prefix_cons.2 ⟨rfl, some⟩, fun a m₁ ok => congrArg _ (all a m₁ ok)⟩

theorem inner_quiet_bind {α β : Type} (r : Run α) (k : α → Run β) (m : Machine) :
    (quiet r >>= fun a => quiet (k a)).inner m = [] := by
  show [] ++ innerAfter r _ m = []
  unfold innerAfter
  cases r m <;> rfl

/-- Reading a place evaluates its parts. -/
theorem parts_read (assignable : t.isAssignable = true) {r : Outcome Value} {read : Trace}
    (ends : Ends (fun n => Expr.trace host n t) m r [read]) :
    read.inner.map (·.task) <+: t.children.map .eval ∧
      ∀ v m', r = .ok v m' → read.inner.map (·.task) = t.children.map .eval := by
  obtain ⟨f, takes, same⟩ : ∃ f : Nat → Traced Value, Takes t.children f ∧
      ∀ n, Expr.trace host (n + 1) t = doing (.eval t) .value (Traced.locating t.span (f n)) := by
    cases t with
    | ident name => exact ⟨_, takes_nothing fun _ _ => rfl, fun n => by rw [Expr.trace]⟩
    | index span target position =>
      exact ⟨_, .cons fun v => .cons fun i => takes_nothing fun _ _ => rfl,
        fun n => by rw [Expr.trace]⟩
    | field span target name =>
      exact ⟨_, .cons fun v => takes_nothing fun _ _ => rfl, fun n => by rw [Expr.trace]⟩
    | _ => cases assignable
  obtain ⟨r', inner, inside, rfl, ⟨⟩⟩ := (ends_eval_iff same).1 ends
  obtain ⟨some, all⟩ := takes m r' inner inside
  refine ⟨some, fun v m' ok => all v m' ?_⟩
  cases r' with
  | ok => exact ok
  | error why m₁ => cases why <;> cases ok

/-- Writing to a place evaluates its parts. -/
theorem takes_store (assignable : t.isAssignable = true) (value : Value) :
    Takes t.children fun n => Expr.traceStore host n t value := by
  intro m r tasks ends
  rw [ends_succ_iff (f := fun n => Expr.traceStore host n t value)
    (by unfold Expr.traceStore; rfl)] at ends
  refine (show Takes t.children fun n => Expr.traceStore host (n + 1) t value from ?_) m r tasks ends
  cases t with
  | ident name => exact takes_nothing fun _ _ => rfl
  | index span target position =>
    exact .cons fun v => .cons fun i => takes_nothing fun _ m => inner_quiet_bind _ _ m
  | field span target name => exact .cons fun v => takes_nothing fun _ m => inner_quiet_bind _ _ m
  | _ => cases assignable

/-- What a place is read and written with, and which of its parts are evaluated for that. -/
theorem Changes.parts {reads writes : List Trace} {r : Outcome (Float × Float)}
    (changes : Changes host op t m reads writes r) (assignable : t.isAssignable = true) :
    ∃ read, reads = [read] ∧ t.Unfolds host m read ∧
      read.inner.map (·.task) <+: t.children.map .eval ∧
      writes.map (·.task) <+: t.children.map .eval ∧
      ∀ p m', r = .ok p m' → read.inner.map (·.task) = t.children.map .eval ∧
        writes.map (·.task) = t.children.map .eval := by
  cases changes with
  | unread ends =>
    obtain ⟨-, inner, rfl⟩ := ends.eval
    exact ⟨_, rfl, ⟨_, ends⟩, (parts_read assignable ends).1, List.nil_prefix, nofun⟩
  | @written x m' _ _ r ends written =>
    obtain ⟨-, inner, rfl⟩ := ends.eval
    obtain ⟨some, all⟩ := parts_read assignable ends
    obtain ⟨some', all'⟩ := takes_store assignable _ _ _ _ written
    refine ⟨_, rfl, ⟨_, ends⟩, some, some', fun p m₁ ok => ⟨all _ _ rfl, ?_⟩⟩
    cases r with
    | ok a m₂ => exact all' a m₂ rfl
    | error => cases ok

/-- **Counting is assigning.** For a place that holds a number, `++t` ends as `t = t + 1` does, and
`--t` as `t = t + -1`; `t++` and `t--` end in the same state, or stop for the same reason, and give
the number that was read first. All of them evaluate the parts of the place twice, in their order:
with the same tasks to read and the same tasks to write. The state includes the clock, so they take
the same readings of it; and the host is pure (`Host`), so asking it does not change what it
answers. -/
theorem counting_is_assigning (assignable : t.isAssignable = true) (numeric : Numeric host t m)
    (addend : Addend op d) (span inner : Span) :
    (∀ r, (Expr.stepThenTake span op t).Leads host m r ↔
      (Expr.assign span t (.binary inner .add t d)).Leads host m r) ∧
    (∀ why m', (Expr.takeThenStep span op t).Leads host m (.error why m') ↔
      (Expr.assign span t (.binary inner .add t d)).Leads host m (.error why m')) ∧
    (∀ v m', (Expr.takeThenStep span op t).Leads host m (.ok v m') ↔
      (∃ w, (Expr.assign span t (.binary inner .add t d)).Leads host m (.ok w m')) ∧
        ∃ m₁, t.Leads host m (.ok v m₁)) ∧
    ∀ a b c, (Expr.stepThenTake span op t).Unfolds host m a →
      (Expr.takeThenStep span op t).Unfolds host m b →
      (Expr.assign span t (.binary inner .add t d)).Unfolds host m c →
      ∃ read writes sum added, t.Unfolds host m read ∧
        a.inner = read :: writes ∧ b.inner = read :: writes ∧ c.inner = sum :: writes ∧
        sum.task = .eval (.binary inner .add t d) ∧ sum.inner = read :: added ∧
        (∀ x ∈ added, x.task = .eval d) ∧
        read.inner.map (·.task) <+: t.children.map .eval ∧
        writes.map (·.task) <+: t.children.map .eval ∧
        ∀ v, a.report = .value v →
          read.inner.map (·.task) = t.children.map .eval ∧
          writes.map (·.task) = t.children.map .eval := by
  refine ⟨fun r => ?_, fun why m' => ?_, fun v m' => ?_, ?_⟩
  · rw [leads_stepThenTake_iff assignable numeric, leads_assign_iff numeric addend]
  · rw [leads_takeThenStep_iff assignable numeric, leads_assign_iff numeric addend]
    refine exists_congr fun reads => exists_congr fun writes => exists_congr fun r' => ?_
    exact and_congr_right fun _ => Outcome.error_eq_located_map_congr _ _
  · rw [leads_takeThenStep_iff assignable numeric]
    simp only [leads_assign_iff numeric addend, Outcome.ok_eq_located_map_iff]
    constructor
    · rintro ⟨reads, writes, r', changes, p, ok, rfl⟩
      obtain ⟨x, m₁, read, rfl⟩ := changes.of_ok ok
      exact ⟨⟨_, reads, writes, r', changes, _, ok, rfl⟩, m₁, leads_iff_ends.2 ⟨reads, read⟩⟩
    · rintro ⟨⟨w, reads, writes, r', changes, p, ok, rfl⟩, m₁, held⟩
      obtain ⟨x, m₂, read, rfl⟩ := changes.of_ok ok
      obtain ⟨reads', read'⟩ := leads_iff_ends.1 held
      obtain ⟨⟨⟩, -⟩ := (growing_eval host t).unique read read'
      exact ⟨reads, writes, r', changes, _, ok, rfl⟩
  · rintro a b c ⟨ra, enda⟩ ⟨rb, endb⟩ ⟨rc, endc⟩
    obtain ⟨reads, writes, r', changes, rfl, ⟨⟩⟩ :=
      (ends_counting_iff assignable numeric (trace_stepThenTake host span op t)).1 enda
    obtain ⟨_, _, _, changesb, rfl, ⟨⟩⟩ :=
      (ends_counting_iff assignable numeric (trace_takeThenStep host span op t)).1 endb
    obtain ⟨_, _, _, sum, changesc, ⟨rs, summed⟩, rfl, ⟨⟩⟩ := (ends_assign_iff numeric addend).1 endc
    obtain ⟨rfl, rfl, rfl⟩ := changes.unique changesb
    obtain ⟨rfl, rfl, rfl⟩ := changes.unique changesc
    obtain ⟨added, _, ofAddend, summed'⟩ := changes.sum numeric addend inner
    obtain ⟨-, ⟨⟩⟩ := (growing_eval host _).unique summed summed'
    obtain ⟨read, rfl, unfolds, someRead, someWritten, all⟩ := changes.parts assignable
    refine ⟨read, writes, _, added, unfolds, rfl, rfl, rfl, rfl, rfl, ofAddend, someRead,
      someWritten, fun v value => ?_⟩
    cases r' with
    | ok p m' => exact all p m' rfl
    | error why m' => cases why <;> cases value

/-- A machine where `o` names an object whose field `x` is one, and whose clock goes on. -/
def pointMachine : Machine :=
  { Machine.initial {} (.ofList [5, 7]) with
    heap := { Heap.empty with
      objects := #[⟨"Point", Dict.empty.insert "x" (.number 1.0)⟩]
      functions := #[.native "epoch" 0 .clock] }
    scopes := ((Scopes.root.define Scopes.rootId "o" (.object ⟨0⟩) true).define Scopes.rootId "b"
      .null true).define Scopes.rootId "epoch" (.function ⟨0⟩) true }

/-- The place `((b = epoch()) == null ? b : o).x`, at which every look reads the clock and assigns
to `b`. -/
def timedPlace : Expr :=
  let reading := Expr.call ⟨8, 15⟩ (.ident ⟨"epoch", ⟨8, 13⟩⟩) []
  let assigned := Expr.group ⟨3, 16⟩ (.assign ⟨4, 15⟩ (.ident ⟨"b", ⟨4, 5⟩⟩) reading)
  let missing := Expr.binary ⟨3, 24⟩ .eq assigned (.literal ⟨20, 24⟩ .null)
  let point := Expr.ternary ⟨3, 32⟩ missing (.ident ⟨"b", ⟨27, 28⟩⟩) (.ident ⟨"o", ⟨31, 32⟩⟩)
  .field ⟨2, 35⟩ (.group ⟨2, 33⟩ point) ⟨"x", ⟨34, 35⟩⟩

theorem counting_at_timed_place :
    timedPlace.isAssignable = true ∧ Numeric Host.none timedPlace pointMachine ∧
    Addend .increment (.literal ⟨0, 35⟩ (.number 1.0)) ∧
    ∃ m', m'.clock.taken = 2 ∧
      (Expr.stepThenTake ⟨0, 35⟩ .increment timedPlace).Leads Host.none pointMachine
        (.ok (.number (1.0 + 1.0)) m') ∧
      (Expr.assign ⟨0, 35⟩ timedPlace (.binary ⟨0, 35⟩ .add timedPlace
        (.literal ⟨0, 35⟩ (.number 1.0)))).Leads Host.none pointMachine
        (.ok (.number (1.0 + 1.0)) m') ∧
      (Expr.takeThenStep ⟨0, 35⟩ .increment timedPlace).Leads Host.none pointMachine
        (.ok (.number 1.0) m') := by
  have read : ∃ m₁, timedPlace.Leads Host.none pointMachine (.ok (.number 1.0) m₁) :=
    ⟨_, nofun, 20, by with_unfolding_all rfl⟩
  obtain ⟨m₁, read⟩ := read
  have numeric : Numeric Host.none timedPlace pointMachine := by
    intro v m' leads
    cases read.unique leads
    exact ⟨1.0, rfl⟩
  have addend : Addend .increment (.literal ⟨0, 35⟩ (.number 1.0)) := .one _
  have stepped : ∃ m', m'.clock.taken = 2 ∧
      (Expr.stepThenTake ⟨0, 35⟩ .increment timedPlace).Leads Host.none pointMachine
        (.ok (.number (1.0 + 1.0)) m') :=
    ⟨(Expr.eval Host.none 20 (.stepThenTake ⟨0, 35⟩ .increment timedPlace)).after pointMachine,
      by with_unfolding_all rfl, nofun, 20, by with_unfolding_all rfl⟩
  obtain ⟨m', twice, stepped⟩ := stepped
  obtain ⟨alike, -, taken, -⟩ := counting_is_assigning rfl numeric addend ⟨0, 35⟩ ⟨0, 35⟩
  have assigned := (alike _).1 stepped
  exact ⟨rfl, numeric, addend, m', twice, stepped, assigned,
    (taken _ _).2 ⟨⟨_, assigned⟩, m₁, read⟩⟩

end Scriptlet
