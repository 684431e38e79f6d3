import Scriptlet.Proofs.Trace.Laws

/-!
# Returns

A `return` ends the innermost body of a function, and nothing else. The machine has no stack of
calls to look at: it counts the bodies it is in, and a returned value passes through statements by
being handed on. `returns_confined` says that this comes to the same. The count is the number of
activations that are going on; a value is returned only inside an activation, and ends at the
innermost one, as its result; no run of a program sees one.

A trace shows who hands what to whom. What is missing in its laws is that statements return only
inside bodies (`Run.Confined`), and what creating an object results in (`instantiate_eq_ok`).
-/

namespace Scriptlet

open Run

/-! ## Statements return only inside bodies -/

/-- A step that returns only inside a body. -/
def Run.Confined (r : Run Flow) : Prop :=
  ∀ m v m', r m = .ok (.returned v) m' → 0 < m.depth

namespace Run

variable {α : Type}

theorem confined_next : Confined (pure .next) := by
  intro m v m' ok
  cases ok

theorem confined_stop (why : Stop) : Confined (stop why) := by
  intro m v m' ok
  cases ok

/-- What follows a step that stays in its body. -/
theorem Level.bind_confined {r : Run α} {k : α → Run Flow} (level : r.Level)
    (hk : ∀ a, Confined (k a)) : Confined (r >>= k) := by
  intro m v m' ok
  obtain ⟨a, m₁, first, second⟩ := bind_eq_ok ok
  rw [← level.depth_of_ok first]
  exact hk a m₁ v m' second

theorem Confined.within {r : Run Flow} (h : r.Confined) (scope : ScopeId) :
    (within scope r).Confined := by
  intro m v m' ok
  obtain ⟨m₁, inside, -⟩ := within_eq_ok ok
  exact h { m with scope } v m₁ inside

/-- Two statements in turn. -/
theorem Confined.then {r after : Run Flow} (hr : r.Confined) (level : r.Level)
    (hafter : after.Confined) :
    Confined (do match ← r with
      | .returned v => return .returned v
      | .next => after) := by
  intro m v m' ok
  obtain ⟨flow, m₁, first, second⟩ := bind_eq_ok ok
  cases flow with
  | returned v => exact hr m v m₁ first
  | next =>
    rw [← level.depth_of_ok first]
    exact hafter m₁ v m' second

end Run

/-- Statements return only inside bodies, with a given fuel. -/
structure Confines (host : Host) (n : Nat) : Prop where
  exec : ∀ s, (Stmt.exec host n s).Confined
  execAll : ∀ ss, (Stmt.execAll host n ss).Confined
  execLoop : ∀ condition body, (Stmt.execLoop host n condition body).Confined

variable {host : Host} {n : Nat}

theorem Confines.exec_succ (ih : Confines host n) (s : Stmt) :
    (Stmt.exec host (n + 1) s).Confined := by
  have parts := Footprint.stack.respects host n
  unfold Stmt.exec
  cases s with
  | declare name value constant =>
    have defined (v : Value) : Confined
        (do define (← get).scope name.text v (!constant); return .next) :=
      level_get.bind_confined fun m => (level_define _ _ _ _).bind_confined fun _ => confined_next
    cases value with
    | none => exact (Footprint.evaluates_pure _).level.bind_confined defined
    | some e => exact (parts.eval e).level.bind_confined defined
  | function decl =>
    exact (Footprint.executes_declareFunction decl).level.bind_confined fun _ => confined_next
  | classDecl decl =>
    exact (Footprint.executes_declareClass decl).level.bind_confined fun _ => confined_next
  | ret span value =>
    intro m v m' ok
    by_cases outside : m.depth = 0
    · cases (Stmt.exec_stray outside).symm.trans ok
    · exact Nat.pos_of_ne_zero outside
  | expr e => exact (parts.eval e).level.bind_confined fun _ => confined_next
  | block body =>
    refine level_get.bind_confined fun m => ?_
    refine (level_newScope _).bind_confined fun scope => ?_
    exact (ih.execAll body).within scope
  | branch condition yes no =>
    refine (parts.eval condition).level.bind_confined fun v => ?_
    refine level_get.bind_confined fun m => ?_
    split
    · exact ih.exec yes
    · cases no with
      | none => exact confined_next
      | some no => exact ih.exec no
  | loop condition body => exact ih.execLoop condition body

theorem Confines.execAll_succ (ih : Confines host n) (ss : List Stmt) :
    (Stmt.execAll host (n + 1) ss).Confined := by
  cases ss with
  | nil => exact confined_next
  | cons s rest =>
    exact (ih.exec s).then ((Footprint.stack.respects host n).exec s).level (ih.execAll rest)

theorem Confines.execLoop_succ (ih : Confines host n) (condition : Expr) (body : Stmt) :
    (Stmt.execLoop host (n + 1) condition body).Confined := by
  have parts := Footprint.stack.respects host n
  unfold Stmt.execLoop
  refine (parts.eval condition).level.bind_confined fun v => ?_
  refine level_get.bind_confined fun m => ?_
  split
  · exact (ih.exec body).then (parts.exec body).level (ih.execLoop condition body)
  · exact confined_next

theorem confines (host : Host) (n : Nat) : Confines host n := by
  induction n with
  | zero => exact ⟨fun _ => confined_stop _, fun _ => confined_stop _, fun _ _ => confined_stop _⟩
  | succ n ih => exact ⟨ih.exec_succ, ih.execAll_succ, ih.execLoop_succ⟩

/-- Creating an object results in the new object, whatever its constructor returns. -/
theorem instantiate_eq_ok {id : ClassId} {args : List Value} {m m' : Machine} {v : Value}
    (ok : instantiate host n id args m = .ok v m') : v = .object ⟨m.heap.objects.size⟩ := by
  cases n with
  | zero => cases ok
  | succ n =>
    unfold instantiate at ok
    obtain ⟨_, m₁, got, ok⟩ := bind_eq_ok ok
    cases got
    obtain ⟨_, m₁, checked, ok⟩ := bind_eq_ok ok
    -- up to the allocation nothing happens to the heap
    have same : m₁ = m := by
      unfold checkArity at checked
      split at checked <;> cases checked
      rfl
    subst same
    obtain ⟨object, m₂, allocated, ok⟩ := bind_eq_ok ok
    cases allocated
    obtain ⟨bound, m₃, _, ok⟩ := bind_eq_ok ok
    cases declared : bound.constructor with
    | none =>
      rw [declared] at ok
      cases ok
      rfl
    | some constructor =>
      rw [declared] at ok
      obtain ⟨_, m₄, _, ok⟩ := bind_eq_ok ok
      cases ok
      rfl

namespace Trace

variable {root node : Trace} {around : List Trace}

/-! ## Single tasks -/

theorem Law.finish_depth (law : node.Law host) : node.finish.depth = node.start.depth := by
  obtain ⟨n, genuine⟩ := law.genuine
  have parts := Footprint.stack.respects host n
  have finish : node.finish = (node.task.outcome host n node.start).2 := by rw [genuine]
  rw [finish]
  cases node.task with
  | eval e => exact (parts.eval e).level _
  | exec s => exact (parts.exec s).level _
  | body ss => exact (parts.execAll ss).level _
  | call id args => exact (parts.callFunction id args).level _
  | create id args => exact (parts.instantiate id args).level _

/-- What is executed inside no body does not return. -/
theorem Law.inside_body (law : node.Law host) {v : Value}
    (returned : node.report = .flow (.returned v)) : 0 < node.start.depth := by
  obtain ⟨n, genuine⟩ := law.genuine
  have report : (node.task.outcome host n node.start).1 = .flow (.returned v) := by
    rw [genuine, returned]
  -- statements and bodies are confined, and the other tasks have values, not flows
  have confined {r : Run Flow} (confined : r.Confined)
      (same : Report.ofResult .flow (r node.start) = .flow (.returned v)) :
      0 < node.start.depth := by
    cases hr : r node.start with
    | ok flow m =>
      rw [hr] at same
      cases same
      exact confined _ _ _ hr
    | error why m =>
      rw [hr] at same
      cases same
  have valued {r : Run Value}
      (same : Report.ofResult .value (r node.start) = .flow (.returned v)) : False := by
    cases hr : r node.start <;> rw [hr] at same <;> cases same
  cases h : node.task <;> rw [h] at report
  case exec s => exact confined ((confines host n).exec s) report
  case body ss => exact confined ((confines host n).execAll ss) report
  case eval e => exact (valued report).elim
  case call id args => exact (valued report).elim
  case create id args => exact (valued report).elim

theorem Law.created (law : node.Law host) {id : ClassId} {args : List Value} {v : Value}
    (task : node.task = .create id args) (report : node.report = .value v) :
    v = .object ⟨node.start.heap.objects.size⟩ := by
  obtain ⟨n, genuine⟩ := law.genuine
  rw [task] at genuine
  have same : Report.ofResult .value (instantiate host n id args node.start) = .value v :=
    (congrArg (·.1) genuine).trans report
  cases hr : instantiate host n id args node.start with
  | ok a m =>
    rw [hr] at same
    cases same
    exact instantiate_eq_ok hr
  | error why m =>
    rw [hr] at same
    cases same

/-! ## The way of a returned value -/

/-- A value goes the way of a return: from the innermost task outwards it passes through tasks that
are no activations and return it themselves, up to an activation that results in it. -/
def ConsumedBy (v : Value) (around : List Trace) : Prop :=
  ∃ before call after, around = before ++ call :: after ∧
    (∀ t ∈ before, t.isActivation = false ∧ t.report = .flow (.returned v)) ∧
    call.isActivation = true ∧ call.report = .value v

theorem Lawful.consumed (h : root.Lawful host) (outside : root.start.depth = 0)
    (inside : root.Within around node) {v : Value} (returned : node.report = .flow (.returned v)) :
    ConsumedBy v around := by
  -- from the run inwards: a task inside another hands its value to that one, which either results
  -- in it or hands it on
  induction inside with
  | self => exact absurd (h.law.inside_body returned) (by omega)
  | @inside around parent child within mem ih =>
    have handed := (h.of_within within).law.returned child mem v returned
    cases activation : parent.isActivation with
    | true =>
      rw [activation] at handed
      exact ⟨[], parent, around, rfl, nofun, activation, handed⟩
    | false =>
      rw [activation] at handed
      obtain ⟨before, call, after, rfl, passing, consumed⟩ := ih handed
      refine ⟨parent :: before, call, after, rfl, ?_, consumed⟩
      exact List.forall_mem_cons.2 ⟨⟨activation, handed⟩, passing⟩

end Trace

/-! ## The main statement -/

open Trace

/-- **Return confinement.** Consider a run of a program from outside all bodies, and any task `node`
in its trace, which is the trace of the real run. The machine counts as many bodies as there are
activations around the task, at its start and at its end. A value is returned only if there is one;
it ends at the innermost, as its result, and an activation results in nothing but what its body
returned, or null. A task that creates an object results in that object. The run itself sees no
returned value and ends outside all bodies. A `return` that no activation is around stops the run,
without a look at its value. The host is pure (`Host`): a native is no activation, nor does it start
one. -/
theorem returns_confined (host : Host) (fuel : Nat) (mode : Mode) (p : List Stmt) (m : Machine)
    (outside : m.depth = 0) :
    let traced := traceProgram host fuel mode p
    traced.run = interpret host fuel mode p ∧
    ((interpret host fuel mode p).after m).depth = 0 ∧
    ∀ root ∈ traced.inner m, (∀ v, root.report ≠ .flow (.returned v)) ∧
      ∀ around node, root.Within around node →
        (∃ n, node.task.outcome host n node.start = (node.report, node.finish)) ∧
        node.start.depth = activations around ∧
        node.finish.depth = activations around ∧
        (∀ v, node.report = .flow (.returned v) → 0 < activations around ∧ ConsumedBy v around) ∧
        (node.isActivation = true → ∀ v, node.report = .value v →
          ∃ body ∈ node.inner,
            body.report = .flow (.returned v) ∨ body.report = .flow .next ∧ v = .null) ∧
        (∀ id args v, node.task = .create id args → node.report = .value v →
          v = .object ⟨node.start.heap.objects.size⟩) ∧
        ∀ span value, node.task = .exec (.ret span value) → activations around = 0 →
          node.inner = [] ∧ node.finish = node.start ∧
          node.report = .stopped (.strayReturn span) ∧
          ∃ m', interpret host fuel mode p m = .error (.strayReturn span) m' := by
  intro traced
  have follows := follows_traceProgram host fuel mode p
  refine ⟨follows.run, ?_, fun root top => ?_⟩
  · rw [follows.level m, outside]
  have lawful := follows.lawful m root top
  have root_outside : root.start.depth = 0 := by rw [follows.depth m root top, outside]
  refine ⟨fun v returned => ?_, fun around node inside => ?_⟩
  · exact absurd (lawful.law.inside_body returned) (by omega)
  have law := (lawful.of_within inside).law
  have start : node.start.depth = activations around := by
    rw [lawful.start_depth inside, root_outside, Nat.zero_add]
  refine ⟨law.genuine, start, ?_, fun v returned => ?_, law.result, fun id args v => law.created,
    fun span value task none => ?_⟩
  · rw [law.finish_depth, start]
  · rw [← start]
    exact ⟨law.inside_body returned, lawful.consumed root_outside inside returned⟩
  · obtain ⟨inner, report, finish⟩ := law.stray span value task (start.trans none)
    obtain ⟨-, risen⟩ := lawful.stopped_around inside (f := ⟨.strayReturn, span, []⟩) rfl report
    exact ⟨inner, finish, report, follows.stopped m root top _ risen⟩

/-- A function that returns from a loop, and a call of it. -/
def loopText : String := "function f(a) \x7b while (a) return a; \x7d f(true);"

/-- The tasks of its run. -/
def loopTraces : List Trace :=
  (traceProgram Host.none 20 .file (Source.ofText .file loopText).statements).inner
    (Machine.start {} (.still 0))

theorem loop_return_confined :
    (Machine.start {} (.still 0)).depth = 0 ∧ ∃ root ∈ loopTraces, ∃ around node,
      root.Within around node ∧ node.report = .flow (.returned (.bool true)) ∧
        activations around = 1 ∧ ConsumedBy (.bool true) around := by
  have outside : (Machine.start {} (.still 0)).depth = 0 := rfl
  have deep : ∃ root ∈ loopTraces, ∃ value ∈ root.inner, ∃ call ∈ value.inner,
      ∃ body ∈ call.inner, ∃ loop ∈ body.inner, ∃ ret ∈ loop.inner,
        ret.report = .flow (.returned (.bool true)) ∧ ret.start.depth = 1 := by
    decide +kernel
  obtain ⟨root, h₀, value, h₁, call, h₂, body, h₃, loop, h₄, ret, h₅, returned, depth⟩ := deep
  have inside : root.Within [loop, body, call, value, root] ret :=
    .inside (.inside (.inside (.inside (.inside .self h₁) h₂) h₃) h₄) h₅
  obtain ⟨-, start, -, consumed, -⟩ :=
    ((returns_confined Host.none 20 .file (Source.ofText .file loopText).statements
      (Machine.start {} (.still 0)) outside).2.2 root h₀).2 _ ret inside
  exact ⟨outside, root, h₀, _, ret, inside, returned, start.symm.trans depth,
    (consumed _ returned).2⟩

end Scriptlet
