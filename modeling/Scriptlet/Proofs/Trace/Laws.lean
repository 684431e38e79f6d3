import Scriptlet.Proofs.Trace
import Scriptlet.Proofs.Stack

/-!
# Laws of traces

What a task has to do with the tasks directly inside it. `Trace.Law` says it for one node:

* the node is **genuine**: it reports what the evaluator does with its task from its start on;
* the tasks inside it stand in **as many bodies** as the task itself, or in one more if the task is
  an activation;
* a task that **stops** stops the task around it, for the same reason up to a missing place;
* a **returned** value passes through statements and bodies, and ends at an activation, whose
  result it is.

The laws hold of all nodes of all traces, and forgetting the traces gives the evaluator back
(`Traced.obeys`, `follows_traceProgram`). Both are proved by one induction over the evaluator, whose
hypothesis on a traced step is `Traced.Follows`.
-/

namespace Scriptlet

open Run Traced

/-- What a task makes of the reason why a task inside it stopped: an evaluation gives a fault its
own place if the fault has none. -/
def Task.relay (task : Task) (why : Stop) : Stop :=
  match task, why with
  | .eval e, .fault f => .fault (f.orSpan e.span)
  | _, why => why

/-- Why a return outside all bodies of functions stops the run. -/
def Stop.strayReturn (span : Span) : Stop :=
  .fault { cause := .strayReturn, span := some span }

theorem Stmt.exec_stray {host : Host} {n : Nat} {span : Span} {value : Option Expr} {m : Machine}
    (outside : m.depth = 0) :
    Stmt.exec host (n + 1) (.ret span value) m = .error (.strayReturn span) m := by
  unfold Stmt.exec
  exact congrFun (if_pos outside) m

namespace Trace

/-- What holds between a task and the tasks directly inside it. -/
structure Law (host : Host) (t : Trace) : Prop where
  genuine : ∃ n, t.task.outcome host n t.start = (t.report, t.finish)
  inner_depth : ∀ c ∈ t.inner, c.start.depth = t.start.depth + if t.isActivation then 1 else 0
  stopped : ∀ c ∈ t.inner, ∀ why, c.report = .stopped why → t.report = .stopped (t.task.relay why)
  returned : ∀ c ∈ t.inner, ∀ v, c.report = .flow (.returned v) →
    t.report = if t.isActivation then .value v else .flow (.returned v)
  /-- An activation results in what its body returned, or in null. -/
  result : t.isActivation = true → ∀ v, t.report = .value v →
    ∃ c ∈ t.inner, c.report = .flow (.returned v) ∨ c.report = .flow .next ∧ v = .null
  /-- A return outside all bodies does not get to its value. -/
  stray : ∀ span value, t.task = .exec (.ret span value) → t.start.depth = 0 →
    t.inner = [] ∧ t.report = .stopped (.strayReturn span) ∧ t.finish = t.start

/-- The laws hold of a task and of all tasks inside it. -/
inductive Lawful (host : Host) : Trace → Prop
  | node {t : Trace} : t.Law host → (∀ c ∈ t.inner, Lawful host c) → Lawful host t

variable {host : Host} {t : Trace}

theorem Lawful.law (h : t.Lawful host) : t.Law host := by
  cases h with
  | node law _ => exact law

theorem Lawful.inner (h : t.Lawful host) : ∀ c ∈ t.inner, c.Lawful host := by
  cases h with
  | node _ inner => exact inner

theorem Lawful.of_within (h : t.Lawful host) {around : List Trace} {node : Trace}
    (inside : t.Within around node) : node.Lawful host := by
  induction inside with
  | self => exact h
  | inside _ mem ih => exact ih.inner _ mem

end Trace

/-- A step that ends in as many bodies as it started in. -/
def Run.Level {α : Type} (r : Run α) : Prop := ∀ m, (r.after m).depth = m.depth

theorem Run.KeepsStack.level {α : Type} {r : Run α} (h : r.KeepsStack) : r.Level :=
  fun m => (h m).depth

theorem Footprint.Evaluates.level {α : Type} {r : Run α} (h : Footprint.stack.Evaluates r) :
    r.Level :=
  h.keepsStack.level

theorem Footprint.Executes.level {α : Type} {r : Run α} (h : Footprint.stack.Executes r) :
    r.Level :=
  h.keepsStack.level

namespace Run

variable {α β : Type} {r : Run α}

theorem deeper_eq_ok {m m' : Machine} {a : α} (h : deeper r m = .ok a m') :
    ∃ m₁, r { m with depth := m.depth + 1 } = .ok a m₁ := by
  unfold deeper at h
  cases hr : r { m with depth := m.depth + 1 } <;> rw [hr] at h <;> cases h
  exact ⟨_, rfl⟩

theorem Level.depth_of_ok (hr : r.Level) {m m' : Machine} {a : α} (ok : r m = .ok a m') :
    m'.depth = m.depth := by
  rw [← after_eq_of_ok ok, hr m]

theorem Level.bind {k : α → Run β} (hr : r.Level) (hk : ∀ a, (k a).Level) :
    (r >>= k).Level := by
  intro m
  cases hrm : r m with
  | ok a m' => rw [after_bind_of_ok hrm, hk a m', hr.depth_of_ok hrm]
  | error why m' => rw [after_bind_of_error hrm, ← after_eq_of_error hrm, hr m]

theorem Level.within (hr : r.Level) (scope : ScopeId) : (within scope r).Level := by
  intro m
  rw [after_within]
  exact hr { m with scope }

theorem Level.deeper (hr : r.Level) : (deeper r).Level := by
  intro m
  rw [after_deeper]
  show (r.after { m with depth := m.depth + 1 }).depth - 1 = m.depth
  rw [hr]
  rfl

theorem level_get : (get : Run Machine).Level := fun _ => rfl

theorem level_newScope (parent : ScopeId) : (newScope parent).Level := fun _ => rfl

theorem level_define (id : ScopeId) (name : String) (value : Value) (writable : Bool) :
    (define id name value writable).Level :=
  fun _ => rfl

theorem level_bindArguments (scope : ScopeId) (params : List Name) (args : List Value) :
    (bindArguments scope params args).Level := by
  induction params generalizing args with
  | nil => exact fun _ => rfl
  | cons param params ih =>
    cases args with
    | nil => exact fun _ => rfl
    | cons arg args => exact (level_define _ _ _ _).bind fun _ => ih args

theorem level_bindInherited (scope : ScopeId) (parentName : String) (bound : BoundClass) :
    (bindInherited scope parentName bound).Level := by
  unfold bindInherited
  refine (Footprint.evaluates_allocate _).level.bind fun base => ?_
  refine (level_define _ _ _ _).bind fun _ => ?_
  cases bound.constructor with
  | some id => exact (Footprint.evaluates_pure _).level.bind fun _ => level_define _ _ _ _
  | none => exact (Footprint.evaluates_allocate _).level.bind fun _ => level_define _ _ _ _

end Run

namespace Traced

variable {α β : Type}

/-- A traced step follows a step: it does the same, the laws hold of the tasks inside it, these
stand `k` bodies deeper, and if one of them stops, so does the step. -/
structure Follows (host : Host) (k : Nat) (w : Traced α) (r : Run α) : Prop where
  run : w.run = r
  level : r.Level
  lawful : ∀ m, ∀ c ∈ w.inner m, c.Lawful host
  depth : ∀ m, ∀ c ∈ w.inner m, c.start.depth = m.depth + k
  stopped : ∀ m, ∀ c ∈ w.inner m, ∀ why, c.report = .stopped why → ∃ m', r m = .error why m'

/-- Moreover, if a task inside the step returns a value, then the step ends with what `takes` makes
of it. -/
structure Answers (host : Host) (k : Nat) (takes : Value → α → Prop) (w : Traced α) (r : Run α) :
    Prop extends Follows host k w r where
  returned : ∀ m, ∀ c ∈ w.inner m, ∀ v, c.report = .flow (.returned v) →
    ∃ a m', r m = .ok a m' ∧ takes v a

/-- No task inside a step returns. -/
def silent (_ : Value) (_ : α) : Prop := False

/-- What a task inside a statement returns, the statement returns. -/
def passes (v : Value) (flow : Flow) : Prop := flow = .returned v

/-- What the body of a function returns is the value of the call. -/
def yields (v : Value) (result : Value) : Prop := result = v

variable {host : Host} {k n : Nat} {w : Traced α} {r : Run α} {takes : Value → α → Prop}

/-! ## Steps -/

theorem Answers.quiet (level : r.Level) : Answers host k takes (.quiet r) r where
  run := rfl
  level
  lawful _ _ mem := nomatch mem
  depth _ _ mem := nomatch mem
  stopped _ _ mem := nomatch mem
  returned _ _ mem := nomatch mem

theorem answers_pure (a : α) : Answers host k takes (pure a : Traced α) (pure a) :=
  .quiet (Footprint.evaluates_pure a).level

theorem answers_fault (f : Fault) : Answers host k takes (.quiet (fault f)) (fault f : Run α) :=
  .quiet (Footprint.evaluates_fault f).level

theorem mem_inner_bind {f : α → Traced β} {m : Machine} {c : Trace}
    (mem : c ∈ (w >>= f).inner m) :
    c ∈ w.inner m ∨ ∃ a m', w.run m = .ok a m' ∧ c ∈ (f a).inner m' := by
  rcases List.mem_append.mp mem with first | second
  · exact .inl first
  · unfold innerAfter at second
    cases h : w.run m with
    | ok a m' =>
      rw [h] at second
      exact .inr ⟨a, m', rfl, second⟩
    | error why m' =>
      rw [h] at second
      cases second

theorem mem_inner_second {f : α → Traced β} {a : α} {m m' : Machine} {c : Trace}
    (ok : w.run m = .ok a m') (mem : c ∈ (f a).inner m') : c ∈ (w >>= f).inner m := by
  refine List.mem_append_right _ ?_
  unfold innerAfter
  rw [ok]
  exact mem

theorem Follows.bind {f : α → Traced β} {g : α → Run β} (hw : Follows host k w r)
    (hf : ∀ a, Follows host k (f a) (g a)) : Follows host k (w >>= f) (r >>= g) where
  run := by
    show (w.run >>= fun a => (f a).run) = r >>= g
    rw [hw.run]
    exact congrArg _ (funext fun a => (hf a).run)
  level := hw.level.bind fun a => (hf a).level
  lawful m c mem := by
    rcases mem_inner_bind mem with first | ⟨a, m', _, second⟩
    · exact hw.lawful m c first
    · exact (hf a).lawful m' c second
  depth m c mem := by
    rcases mem_inner_bind mem with first | ⟨a, m', ok, second⟩
    · exact hw.depth m c first
    · -- the first step leaves the count of bodies as it was
      rw [hw.run] at ok
      rw [(hf a).depth m' c second, hw.level.depth_of_ok ok]
  stopped m c mem why report := by
    rcases mem_inner_bind mem with first | ⟨a, m', ok, second⟩
    · obtain ⟨m', error⟩ := hw.stopped m c first why report
      exact ⟨m', bind_of_error error⟩
    · rw [hw.run] at ok
      obtain ⟨m'', error⟩ := (hf a).stopped m' c second why report
      exact ⟨m'', by rw [bind_of_ok ok, error]⟩

/-- A sequence whose second step takes up what is returned inside the first. -/
theorem Answers.take_bind {takes' : Value → β → Prop} {f : α → Traced β} {g : α → Run β}
    (hw : Answers host k takes w r) (hf : ∀ a, Answers host k takes' (f a) (g a))
    (taken : ∀ v a, takes v a → ∀ m, ∃ b m', g a m = .ok b m' ∧ takes' v b) :
    Answers host k takes' (w >>= f) (r >>= g) where
  toFollows := hw.toFollows.bind fun a => (hf a).toFollows
  returned m c mem v report := by
    rcases mem_inner_bind mem with first | ⟨a, m', ok, second⟩
    · obtain ⟨a, m', ok, takes⟩ := hw.returned m c first v report
      rw [bind_of_ok ok]
      exact taken v a takes m'
    · rw [hw.run] at ok
      rw [bind_of_ok ok]
      exact (hf a).returned m' c second v report

theorem Answers.bind {takes : Value → β → Prop} {f : α → Traced β} {g : α → Run β}
    (hw : Answers host k silent w r) (hf : ∀ a, Answers host k takes (f a) (g a)) :
    Answers host k takes (w >>= f) (r >>= g) :=
  hw.take_bind hf fun _ _ never => never.elim

theorem Answers.quiet_bind {takes : Value → β → Prop} {f : α → Traced β} {g : α → Run β}
    (level : r.Level) (hf : ∀ a, Answers host k takes (f a) (g a)) :
    Answers host k takes (.quiet r >>= f) (r >>= g) :=
  (Answers.quiet level).bind hf

theorem Answers.get_bind {takes : Value → β → Prop} {f : Machine → Traced β}
    {g : Machine → Run β} (hf : ∀ m, Answers host k takes (f m) (g m)) :
    Answers host k takes (.quiet get >>= f) (get >>= g) :=
  .quiet_bind level_get hf

theorem inner_get_bind (f : Machine → Traced β) (m : Machine) :
    (.quiet get >>= f : Traced β).inner m = (f m).inner m :=
  rfl

theorem Answers.within (h : Answers host k takes w r) (scope : ScopeId) :
    Answers host k takes (Traced.within scope w) (Run.within scope r) where
  run := congrArg (Run.within scope) h.run
  level := h.level.within scope
  lawful m := h.lawful { m with scope }
  depth m := h.depth { m with scope }
  stopped m c mem why report := by
    obtain ⟨m', error⟩ := h.stopped { m with scope } c mem why report
    exact ⟨{ m' with scope := m.scope }, by simp only [Run.within, error]⟩
  returned m c mem v report := by
    obtain ⟨a, m', ok, takes⟩ := h.returned { m with scope } c mem v report
    exact ⟨a, { m' with scope := m.scope }, by simp only [Run.within, ok], takes⟩

theorem Answers.deeper (h : Answers host k takes w r) :
    Answers host (k + 1) takes (Traced.deeper w) (Run.deeper r) where
  run := congrArg Run.deeper h.run
  level := h.level.deeper
  lawful m := h.lawful { m with depth := m.depth + 1 }
  depth m c mem := by
    rw [h.depth { m with depth := m.depth + 1 } c mem, Nat.add_right_comm, Nat.add_assoc]
  stopped m c mem why report := by
    obtain ⟨m', error⟩ := h.stopped { m with depth := m.depth + 1 } c mem why report
    exact ⟨{ m' with depth := m'.depth - 1 }, by simp only [Run.deeper, error]⟩
  returned m c mem v report := by
    obtain ⟨a, m', ok, takes⟩ := h.returned { m with depth := m.depth + 1 } c mem v report
    exact ⟨a, { m' with depth := m'.depth - 1 }, by simp only [Run.deeper, ok], takes⟩

/-! ## Tasks -/

/-- The node that `doing` puts up. -/
theorem mem_inner_doing {task : Task} {f : α → Report} {m : Machine} {c : Trace}
    (run : w.run = r) (mem : c ∈ (doing task f w).inner m) :
    c = .node task m (w.inner m) (.ofResult f (r m)) (r.after m) := by
  rw [← run]
  exact List.mem_singleton.mp mem

theorem ofResult_eq_stopped {f : α → Report} {m : Machine} {why : Stop}
    (plain : ∀ a, f a ≠ .stopped why) (h : Report.ofResult f (r m) = .stopped why) :
    ∃ m', r m = .error why m' := by
  cases hr : r m with
  | ok a m' =>
    rw [hr] at h
    exact absurd h (plain a)
  | error e m' =>
    rw [hr] at h
    cases h
    exact ⟨m', rfl⟩

theorem report_of_error {f : α → Report} {m m' : Machine} {why : Stop} (h : r m = .error why m') :
    Report.ofResult f (r m) = .stopped why := by
  rw [h]
  rfl

/-- The step that does a task follows what the task is to do, if its node obeys the laws. -/
theorem follows_doing {task : Task} {f : α → Report} (run : w.run = r) (level : r.Level)
    (plain : ∀ a why, f a ≠ .stopped why)
    (law : ∀ m, (Trace.node task m (w.inner m) (.ofResult f (r m)) (r.after m)).Law host)
    (lawful : ∀ m, ∀ c ∈ w.inner m, c.Lawful host) : Follows host 0 (doing task f w) r where
  run := run
  level
  lawful m c mem := by
    rw [mem_inner_doing run mem]
    exact .node (law m) (lawful m)
  depth m c mem := by
    rw [mem_inner_doing run mem]
    rfl
  stopped m c mem why report := by
    rw [mem_inner_doing run mem] at report
    exact ofResult_eq_stopped (plain · why) report

/-- A task that ends with a value returns nothing. -/
theorem answers_value {task : Task} {w : Traced Value} {r : Run Value} (run : w.run = r)
    (level : r.Level)
    (law : ∀ m, (Trace.node task m (w.inner m) (.ofResult .value (r m)) (r.after m)).Law host)
    (lawful : ∀ m, ∀ c ∈ w.inner m, c.Lawful host) :
    Answers host 0 silent (doing task .value w) r where
  toFollows := follows_doing run level (fun _ _ h => nomatch h) law lawful
  returned m c mem v report := by
    rw [mem_inner_doing run mem] at report
    change Report.ofResult .value (r m) = .flow (.returned v) at report
    cases hr : r m <;> rw [hr] at report <;> cases report

/-- A task that ends with a flow returns what the flow says. -/
theorem answers_flow {task : Task} {w : Traced Flow} {r : Run Flow} (run : w.run = r)
    (level : r.Level)
    (law : ∀ m, (Trace.node task m (w.inner m) (.ofResult .flow (r m)) (r.after m)).Law host)
    (lawful : ∀ m, ∀ c ∈ w.inner m, c.Lawful host) :
    Answers host 0 passes (doing task .flow w) r where
  toFollows := follows_doing run level (fun _ _ h => nomatch h) law lawful
  returned m c mem v report := by
    rw [mem_inner_doing run mem] at report
    change Report.ofResult .flow (r m) = .flow (.returned v) at report
    cases hr : r m with
    | ok flow m' =>
      rw [hr] at report
      cases report
      exact ⟨.returned v, m', rfl, rfl⟩
    | error why m' =>
      rw [hr] at report
      cases report

/-- Evaluating an expression locates the faults inside it. -/
theorem Answers.eval {e : Expr} {w : Traced Value} {r : Run Value}
    (h : Answers host 0 silent w r) (same : Expr.eval host n e = Run.locating e.span r) :
    Answers host 0 silent (doing (.eval e) .value (Traced.locating e.span w))
      (Expr.eval host n e) := by
  refine answers_value ?_ ?_ (fun m => ?_) h.lawful
  · rw [same, ← h.run]
    rfl
  · intro m
    rw [same, after_locating]
    exact h.level m
  · refine ⟨⟨n, rfl⟩, h.depth m, ?_, ?_, nofun, fun _ _ other => nomatch other⟩
    · intro c mem why report
      obtain ⟨m', error⟩ := h.stopped m c mem why report
      have located : Expr.eval host n e m = .error ((Task.eval e).relay why) m' := by
        rw [same, Run.locating, error]
        cases why <;> rfl
      exact report_of_error located
    · intro c mem v report
      obtain ⟨_, _, _, never⟩ := h.returned m c mem v report
      exact never.elim

theorem Answers.create {id : ClassId} {args : List Value} {w : Traced Value}
    (h : Answers host 0 silent w (instantiate host n id args)) :
    Answers host 0 silent (doing (.create id args) .value w) (instantiate host n id args) := by
  refine answers_value h.run h.level (fun m => ?_) h.lawful
  refine ⟨⟨n, rfl⟩, h.depth m, ?_, ?_, nofun, fun _ _ other => nomatch other⟩
  · intro c mem why report
    obtain ⟨m', error⟩ := h.stopped m c mem why report
    exact report_of_error error
  · intro c mem v report
    obtain ⟨_, _, _, never⟩ := h.returned m c mem v report
    exact never.elim

/-- A statement passes on what is returned inside it. -/
theorem Answers.exec {s : Stmt} {w : Traced Flow} (h : Answers host 0 passes w (Stmt.exec host n s))
    (stray : ∀ span value, s = .ret span value → ∀ m, m.depth = 0 →
      w.inner m = [] ∧ Stmt.exec host n s m = .error (.strayReturn span) m) :
    Answers host 0 passes (doing (.exec s) .flow w) (Stmt.exec host n s) := by
  refine answers_flow h.run h.level (fun m => ?_) h.lawful
  refine ⟨⟨n, rfl⟩, h.depth m, ?_, ?_, nofun, ?_⟩
  · intro c mem why report
    obtain ⟨m', error⟩ := h.stopped m c mem why report
    exact report_of_error error
  · intro c mem v report
    obtain ⟨_, m', ok, rfl⟩ := h.returned m c mem v report
    show Report.ofResult .flow (Stmt.exec host n s m) = .flow (.returned v)
    rw [ok]
    rfl
  · intro span value same outside
    cases same
    obtain ⟨inner, stopped⟩ := stray span value rfl m outside
    exact ⟨inner, report_of_error stopped, after_eq_of_error stopped⟩

/-- A statement that is no return. -/
theorem Answers.exec_other {s : Stmt} {w : Traced Flow}
    (h : Answers host 0 passes w (Stmt.exec host n s)) (other : ∀ span value, s ≠ .ret span value) :
    Answers host 0 passes (doing (.exec s) .flow w) (Stmt.exec host n s) :=
  h.exec fun span value same => absurd same (other span value)

theorem Answers.body {ss : List Stmt} {w : Traced Flow}
    (h : Answers host 0 passes w (Stmt.execAll host n ss)) :
    Answers host 0 passes (doing (.body ss) .flow w) (Stmt.execAll host n ss) := by
  refine answers_flow h.run h.level (fun m => ?_) h.lawful
  refine ⟨⟨n, rfl⟩, h.depth m, ?_, ?_, nofun, fun _ _ other => nomatch other⟩
  · intro c mem why report
    obtain ⟨m', error⟩ := h.stopped m c mem why report
    exact report_of_error error
  · intro c mem v report
    obtain ⟨_, m', ok, rfl⟩ := h.returned m c mem v report
    show Report.ofResult .flow (Stmt.execAll host n ss m) = .flow (.returned v)
    rw [ok]
    rfl

/-- A call in which nothing happens unless its function is declared ends with what the body of the
function returns. -/
theorem Answers.call {id : FunctionId} {args : List Value} {w : Traced Value}
    (h : Answers host 1 yields w (callFunction host n id args))
    (native : ∀ m, (m.heap.function id).isNative = true → w.inner m = [])
    (result : ∀ m v m', (m.heap.function id).isNative = false →
      callFunction host n id args m = .ok v m' →
        ∃ c ∈ w.inner m, c.report = .flow (.returned v) ∨ c.report = .flow .next ∧ v = .null) :
    Answers host 0 silent (doing (.call id args) .value w) (callFunction host n id args) := by
  refine answers_value h.run h.level (fun m => ?_) h.lawful
  -- if there is a task inside the call at all, then the function is declared
  have activation {c : Trace} (mem : c ∈ w.inner m) (report : Report) (finish : Machine) :
      (Trace.node (.call id args) m (w.inner m) report finish).isActivation = true := by
    show (!(m.heap.function id).isNative) = true
    cases declared : (m.heap.function id).isNative with
    | false => rfl
    | true =>
      rw [native m declared] at mem
      cases mem
  refine ⟨⟨n, rfl⟩, ?_, ?_, ?_, ?_, fun _ _ other => nomatch other⟩
  · intro c mem
    rw [activation mem]
    exact h.depth m c mem
  · intro c mem why report
    obtain ⟨m', error⟩ := h.stopped m c mem why report
    exact report_of_error error
  · intro c mem v report
    rw [activation mem]
    obtain ⟨_, m', ok, rfl⟩ := h.returned m c mem v report
    show Report.ofResult .value (callFunction host n id args m) = .value _
    rw [ok]
    rfl
  · intro active v report
    have declared : (m.heap.function id).isNative = false :=
      Bool.not_inj (active : (!(m.heap.function id).isNative) = !false)
    change Report.ofResult .value (callFunction host n id args m) = .value v at report
    cases hr : callFunction host n id args m with
    | ok a m' =>
      rw [hr] at report
      cases report
      exact result m v m' declared hr
    | error why m' =>
      rw [hr] at report
      cases report

/-! ## The evaluator -/

/-- Every traced function of the evaluator follows the function, with a given fuel. -/
structure Obeys (host : Host) (n : Nat) : Prop where
  eval : ∀ e, Answers host 0 silent (Expr.trace host n e) (Expr.eval host n e)
  evalAll : ∀ es, Answers host 0 silent (Expr.traceAll host n es) (Expr.evalAll host n es)
  store : ∀ target value,
    Answers host 0 silent (Expr.traceStore host n target value) (Expr.store host n target value)
  step : ∀ op target,
    Answers host 0 silent (Expr.traceStep host n op target) (Expr.step host n op target)
  callValue : ∀ callee args,
    Answers host 0 silent (traceValue host n callee args) (callValue host n callee args)
  callFunction : ∀ id args,
    Answers host 0 silent (traceFunction host n id args) (callFunction host n id args)
  instantiate : ∀ id args,
    Answers host 0 silent (traceInstantiate host n id args) (instantiate host n id args)
  bindClass : ∀ id object,
    Answers host 0 silent (traceClass host n id object) (bindClass host n id object)
  initFields : ∀ object fields,
    Answers host 0 silent (traceFields host n object fields) (initFields host n object fields)
  exec : ∀ s, Answers host 0 passes (Stmt.trace host n s) (Stmt.exec host n s)
  execAll : ∀ ss, Answers host 0 passes (Stmt.traceAll host n ss) (Stmt.execAll host n ss)
  execLoop : ∀ condition body, Answers host 0 passes (Stmt.traceLoop host n condition body)
    (Stmt.execLoop host n condition body)

theorem obeys_zero : Obeys host 0 := by
  constructor <;> intros <;> exact .quiet (Footprint.evaluates_stop _).level

theorem Obeys.eval_succ (ih : Obeys host n) (e : Expr) :
    Answers host 0 silent (Expr.trace host (n + 1) e) (Expr.eval host (n + 1) e) := by
  have level_onHeap {α : Type} (g : Heap → Except Fault α) : (onHeap g).Level :=
    (Footprint.evaluates_onHeap g).level
  unfold Expr.trace
  cases e with
  | literal span value => exact (answers_pure _).eval rfl
  | ident name => exact (Answers.quiet (Footprint.evaluates_lookup name).level).eval rfl
  | group span inner => exact (ih.eval inner).eval rfl
  | array span elements =>
    refine Answers.eval ((ih.evalAll elements).bind fun items => ?_) rfl
    exact .quiet_bind (Footprint.evaluates_allocate _).level fun _ => answers_pure _
  | unary span op operand =>
    exact Answers.eval ((ih.eval operand).bind fun _ => .quiet (level_onHeap _)) rfl
  | stepThenTake span op operand =>
    exact Answers.eval ((ih.step op operand).bind fun _ => answers_pure _) rfl
  | takeThenStep span op operand =>
    exact Answers.eval ((ih.step op operand).bind fun _ => answers_pure _) rfl
  | binary span op left right =>
    refine Answers.eval ((ih.eval left).bind fun _ => ?_) rfl
    exact (ih.eval right).bind fun _ => .quiet (level_onHeap _)
  | logical span op left right =>
    refine Answers.eval ((ih.eval left).bind fun a => .get_bind fun m => ?_) rfl
    cases shortCircuit? m.heap op a with
    | some v => exact answers_pure v
    | none => exact (ih.eval right).bind fun _ => .get_bind fun _ => answers_pure _
  | ternary span condition yes no =>
    refine Answers.eval ((ih.eval condition).bind fun v => .get_bind fun m => ?_) rfl
    cases m.heap.toBool v with
    | true => exact ih.eval yes
    | false => exact ih.eval no
  | assign span target value =>
    refine Answers.eval ((ih.eval value).bind fun v => ?_) rfl
    exact (ih.store target v).bind fun _ => answers_pure v
  | index span target position =>
    refine Answers.eval ((ih.eval target).bind fun _ => ?_) rfl
    exact (ih.eval position).bind fun _ => .quiet (level_onHeap _)
  | field span target name =>
    refine Answers.eval ((ih.eval target).bind fun _ => .quiet ?_) rfl
    exact ((Footprint.evaluates_onHeap _).locating name.span).level
  | call span callee args =>
    refine Answers.eval ((ih.eval callee).bind fun f => ?_) rfl
    refine (ih.evalAll args).bind fun values => ?_
    cases f.kind.isCallable with
    | true => exact ih.callValue f values
    | false => exact answers_fault _

theorem Obeys.evalAll_succ (ih : Obeys host n) (es : List Expr) :
    Answers host 0 silent (Expr.traceAll host (n + 1) es) (Expr.evalAll host (n + 1) es) := by
  cases es with
  | nil => exact answers_pure []
  | cons e rest =>
    unfold Expr.traceAll Expr.evalAll
    refine (ih.eval e).bind fun _ => ?_
    exact (ih.evalAll rest).bind fun _ => answers_pure _

theorem Obeys.store_succ (ih : Obeys host n) (target : Expr) (value : Value) :
    Answers host 0 silent (Expr.traceStore host (n + 1) target value)
      (Expr.store host (n + 1) target value) := by
  unfold Expr.traceStore Expr.store
  cases target with
  | ident name => exact .quiet (Footprint.evaluates_assign _ _).level
  | index span target position =>
    refine (ih.eval target).bind fun _ => (ih.eval position).bind fun _ => ?_
    refine .quiet_bind (Footprint.evaluates_onHeap _).level fun _ => ?_
    exact .quiet (Footprint.evaluates_write _ _).level
  | field span target name =>
    refine (ih.eval target).bind fun _ => ?_
    refine .quiet_bind ((Footprint.evaluates_onHeap _).locating name.span).level fun _ => ?_
    exact .quiet (Footprint.evaluates_write _ _).level
  | _ => exact answers_fault _

theorem Obeys.step_succ (ih : Obeys host n) (op : StepOp) (target : Expr) :
    Answers host 0 silent (Expr.traceStep host (n + 1) op target)
      (Expr.step host (n + 1) op target) := by
  unfold Expr.traceStep Expr.step
  split
  · refine (ih.eval target).bind fun _ => ?_
    refine .quiet_bind (Footprint.evaluates_onHeap _).level fun _ => ?_
    exact (ih.store target _).bind fun _ => answers_pure _
  · exact answers_fault _

theorem Obeys.callValue_succ (ih : Obeys host n) (callee : Value) (args : List Value) :
    Answers host 0 silent (traceValue host (n + 1) callee args)
      (Scriptlet.callValue host (n + 1) callee args) := by
  unfold traceValue Scriptlet.callValue
  cases callee with
  | function id => exact ih.callFunction id args
  | cls id => exact ih.instantiate id args
  | _ => exact answers_fault _

/-- What a call does with a declared function. -/
def runDeclared (host : Host) (n : Nat) (decl : FunctionDecl Stmt) (home : ScopeId)
    (args : List Value) : Run Value := do
  checkArity decl.arity args.length
  let scope ← newScope home
  bindArguments scope decl.params args
  match ← Run.within scope (Run.deeper (Stmt.execAll host n decl.body)) with
  | .returned v => return v
  | .next => return .null

/-- Trace what a call does with a declared function. -/
def traceDeclared (host : Host) (n : Nat) (decl : FunctionDecl Stmt) (home : ScopeId)
    (args : List Value) : Traced Value := do
  quiet (checkArity decl.arity args.length)
  let scope ← quiet (newScope home)
  quiet (bindArguments scope decl.params args)
  let body := doing (.body decl.body) .flow (Stmt.traceAll host n decl.body)
  match ← Traced.within scope (Traced.deeper body) with
  | .returned v => return v
  | .next => return .null

theorem Obeys.answers_declared (ih : Obeys host n) (decl : FunctionDecl Stmt) (home : ScopeId)
    (args : List Value) :
    Answers host 1 yields (traceDeclared host n decl home args)
      (runDeclared host n decl home args) := by
  refine .quiet_bind (Footprint.evaluates_checkArity _ _).level fun _ => ?_
  refine .quiet_bind (level_newScope home) fun scope => ?_
  refine .quiet_bind (level_bindArguments _ _ _) fun _ => ?_
  refine ((ih.execAll decl.body).body.deeper.within scope).take_bind (fun flow => ?_) ?_
  · cases flow <;> exact answers_pure _
  · rintro v _ rfl m
    exact ⟨v, m, rfl, rfl⟩

/-- A call that results in a value has gone through the body, which returned it or went to its
end. -/
theorem Obeys.result_declared (ih : Obeys host n) {decl : FunctionDecl Stmt} {home : ScopeId}
    {args : List Value} {m m' : Machine} {v : Value}
    (ok : runDeclared host n decl home args m = .ok v m') :
    ∃ c ∈ (traceDeclared host n decl home args).inner m,
      c.report = .flow (.returned v) ∨ c.report = .flow .next ∧ v = .null := by
  obtain ⟨_, m₁, checked, ok⟩ := bind_eq_ok ok
  obtain ⟨scope, m₂, opened, ok⟩ := bind_eq_ok ok
  obtain ⟨_, m₃, bound, ok⟩ := bind_eq_ok ok
  obtain ⟨flow, m₄, executed, ok⟩ := bind_eq_ok ok
  -- the body runs in the new scope and one body deeper
  let inside : Machine := { m₃ with scope, depth := m₃.depth + 1 }
  let body := doing (.body decl.body) .flow (Stmt.traceAll host n decl.body)
  have run : body.run = Stmt.execAll host n decl.body := (ih.execAll decl.body).run
  refine ⟨.node (.body decl.body) inside ((Stmt.traceAll host n decl.body).inner inside)
    (.ofResult .flow (body.run inside)) (body.run.after inside), ?_, ?_⟩
  · refine mem_inner_second checked (mem_inner_second opened (mem_inner_second bound ?_))
    exact List.mem_append_left _ (List.mem_singleton.2 rfl)
  · obtain ⟨m₅, entered, -⟩ := within_eq_ok executed
    obtain ⟨m₆, reached⟩ := deeper_eq_ok entered
    show Report.ofResult .flow (body.run inside) = _ ∨
      Report.ofResult .flow (body.run inside) = _ ∧ _
    rw [run, show Stmt.execAll host n decl.body inside = .ok flow m₆ from reached]
    cases flow with
    | returned u =>
      cases ok
      exact .inl rfl
    | next =>
      cases ok
      exact .inr ⟨rfl, rfl⟩

/-- The call of a native function has no tasks inside it, the call of a declared one has its
body. -/
theorem Obeys.callFunction_succ (ih : Obeys host n) (id : FunctionId) (args : List Value) :
    Answers host 0 silent (traceFunction host (n + 1) id args)
      (Scriptlet.callFunction host (n + 1) id args) := by
  unfold traceFunction
  refine Answers.call ?_ (fun m native => ?_) (fun m v m' declared ok => ?_)
  · unfold Scriptlet.callFunction
    refine .get_bind fun m => ?_
    cases m.heap.function id with
    | native name arity action =>
      refine .quiet_bind (Footprint.evaluates_checkArity _ _).level fun _ => ?_
      exact .quiet (Footprint.evaluates_native host action args).level
    | user decl home => exact ih.answers_declared decl home args
  · rw [inner_get_bind]
    cases found : m.heap.function id with
    | native name arity action =>
      show innerAfter _ _ m = []
      unfold innerAfter
      cases (quiet (checkArity arity args.length)).run m <;> rfl
    | user decl home =>
      rw [found] at native
      cases native
  · rw [inner_get_bind]
    unfold Scriptlet.callFunction at ok
    obtain ⟨_, _, got, ok⟩ := bind_eq_ok ok
    cases got
    cases found : m.heap.function id with
    | native name arity action =>
      rw [found] at declared
      cases declared
    | user decl home =>
      rw [found] at ok
      exact ih.result_declared ok

theorem Obeys.instantiate_succ (ih : Obeys host n) (id : ClassId) (args : List Value) :
    Answers host 0 silent (traceInstantiate host (n + 1) id args)
      (Scriptlet.instantiate host (n + 1) id args) := by
  unfold traceInstantiate
  refine Answers.create ?_
  unfold Scriptlet.instantiate
  refine .get_bind fun m => .quiet_bind (Footprint.evaluates_checkArity _ _).level fun _ => ?_
  refine .quiet_bind (Footprint.evaluates_allocate _).level fun object => ?_
  refine (ih.bindClass id object).bind fun bound => ?_
  cases bound.constructor with
  | none => exact answers_pure _
  | some constructor => exact (ih.callFunction constructor args).bind fun _ => answers_pure _

/-- What is left of binding a class after the names that it inherits. -/
theorem Obeys.members (ih : Obeys host n) (object : ObjectId) (scope : ScopeId)
    (decl : ClassDecl Stmt) (inherited : Dict Value) :
    Answers host 0 silent
      (do
        Traced.within scope (traceFields host n object decl.fields)
        let methods ← quiet (bindMethods object scope decl.methods inherited)
        let constructor ← quiet (match decl.constructor with
          | some decl => some <$> allocate (·.addFunction (.user decl scope))
          | none => pure none)
        return ⟨methods, constructor⟩)
      (bindMembers host n object scope decl inherited) := by
  refine ((ih.initFields object decl.fields).within scope).bind fun _ => ?_
  refine .quiet_bind (Footprint.evaluates_bindMethods _ _ _ _).level fun methods => ?_
  cases decl.constructor with
  | none => exact .quiet_bind (fun _ => rfl) fun _ => answers_pure _
  | some decl => exact .quiet_bind (fun _ => rfl) fun _ => answers_pure _

theorem Obeys.bindClass_succ (ih : Obeys host n) (id : ClassId) (object : ObjectId) :
    Answers host 0 silent (traceClass host (n + 1) id object)
      (Scriptlet.bindClass host (n + 1) id object) := by
  unfold traceClass Scriptlet.bindClass
  refine .get_bind fun m => .quiet_bind (level_newScope _) fun scope => ?_
  refine .quiet_bind (level_define _ _ _ _) fun _ => ?_
  cases (m.heap.classRecord id).superclass with
  | none => exact (answers_pure _).bind fun _ => ih.members object scope _ _
  | some parent =>
    refine (ih.bindClass parent object).bind fun bound => .get_bind fun m' => ?_
    refine .quiet_bind (level_bindInherited _ _ _) fun _ => ?_
    exact (answers_pure _).bind fun _ => ih.members object scope _ _

theorem Obeys.initFields_succ (ih : Obeys host n) (object : ObjectId) (fields : List FieldDecl) :
    Answers host 0 silent (traceFields host (n + 1) object fields)
      (Scriptlet.initFields host (n + 1) object fields) := by
  cases fields with
  | nil => exact answers_pure ()
  | cons field rest =>
    unfold traceFields Scriptlet.initFields
    refine (ih.eval field.value).bind fun _ => ?_
    exact .quiet_bind (Footprint.evaluates_write _ _).level fun _ => ih.initFields object rest

/-- Of a sequence of two statements, the second is reached only if the first does not return. -/
theorem Answers.then {w rest : Traced Flow} {r after : Run Flow} (hw : Answers host 0 passes w r)
    (hrest : Answers host 0 passes rest after) :
    Answers host 0 passes
      (do match ← w with
        | .returned v => return .returned v
        | .next => rest)
      (do match ← r with
        | .returned v => return .returned v
        | .next => after) := by
  refine hw.take_bind (fun flow => ?_) ?_
  · cases flow with
    | returned v => exact answers_pure _
    | next => exact hrest
  · rintro v _ rfl m
    exact ⟨.returned v, m, rfl, rfl⟩

theorem Obeys.exec_succ (ih : Obeys host n) (s : Stmt) :
    Answers host 0 passes (Stmt.trace host (n + 1) s) (Stmt.exec host (n + 1) s) := by
  have silently (e : Expr) (flow : Value → Flow) : Answers host 0 passes
      (do return flow (← Expr.trace host n e)) (do return flow (← Expr.eval host n e)) :=
    (ih.eval e).bind fun _ => answers_pure _
  unfold Stmt.trace
  cases s with
  | declare name value constant =>
    refine Answers.exec_other ?_ (by simp)
    unfold Stmt.exec
    have defined (v : Value) : Answers host 0 passes
        (do quiet (define (← quiet get).scope name.text v (!constant)); return .next)
        (do define (← get).scope name.text v (!constant); return .next) :=
      .get_bind fun m => .quiet_bind (level_define _ _ _ _) fun _ => answers_pure _
    cases value with
    | none => exact (answers_pure _).bind defined
    | some e => exact (ih.eval e).bind defined
  | function decl =>
    refine Answers.exec_other ?_ (by simp)
    exact .quiet_bind (Footprint.executes_declareFunction decl).level fun _ => answers_pure _
  | classDecl decl =>
    refine Answers.exec_other ?_ (by simp)
    exact .quiet_bind (Footprint.executes_declareClass decl).level fun _ => answers_pure _
  | ret span value =>
    refine Answers.exec ?_ ?_
    · unfold Stmt.exec
      refine .get_bind fun m => ?_
      split
      · exact answers_fault _
      · cases value with
        | none => exact (answers_pure _).bind fun _ => answers_pure _
        | some e => exact silently e .returned
    · intro _ _ same m outside
      cases same
      constructor
      · rw [inner_get_bind, if_pos outside]
        rfl
      · exact Stmt.exec_stray outside
  | expr e =>
    refine Answers.exec_other ?_ (by simp)
    exact silently e fun _ => .next
  | block body =>
    refine Answers.exec_other ?_ (by simp)
    unfold Stmt.exec
    refine .get_bind fun m => .quiet_bind (level_newScope _) fun scope => ?_
    exact (ih.execAll body).body.within scope
  | branch condition yes no =>
    refine Answers.exec_other ?_ (by simp)
    unfold Stmt.exec
    refine (ih.eval condition).bind fun v => .get_bind fun m => ?_
    split
    · exact ih.exec yes
    · cases no with
      | none => exact answers_pure _
      | some no => exact ih.exec no
  | loop condition body =>
    refine Answers.exec_other ?_ (by simp)
    exact ih.execLoop condition body

theorem Obeys.execAll_succ (ih : Obeys host n) (ss : List Stmt) :
    Answers host 0 passes (Stmt.traceAll host (n + 1) ss) (Stmt.execAll host (n + 1) ss) := by
  cases ss with
  | nil => exact answers_pure _
  | cons s rest => exact (ih.exec s).then (ih.execAll rest)

theorem Obeys.execLoop_succ (ih : Obeys host n) (condition : Expr) (body : Stmt) :
    Answers host 0 passes (Stmt.traceLoop host (n + 1) condition body)
      (Stmt.execLoop host (n + 1) condition body) := by
  unfold Stmt.traceLoop Stmt.execLoop
  refine (ih.eval condition).bind fun v => .get_bind fun m => ?_
  split
  · exact (ih.exec body).then (ih.execLoop condition body)
  · exact answers_pure _

/-- **Traces are those of the evaluator, and lawful.** The induction is on the fuel, as in the
evaluator itself. -/
theorem obeys (host : Host) (n : Nat) : Obeys host n := by
  induction n with
  | zero => exact obeys_zero
  | succ n ih =>
    exact ⟨ih.eval_succ, ih.evalAll_succ, ih.store_succ, ih.step_succ, ih.callValue_succ,
      ih.callFunction_succ, ih.instantiate_succ, ih.bindClass_succ, ih.initFields_succ,
      ih.exec_succ, ih.execAll_succ, ih.execLoop_succ⟩

end Traced

/-- The trace of a program is that of its run. Nothing is known here of what the statements of the
program return. -/
theorem follows_traceProgram (host : Host) (fuel : Nat) (mode : Mode) (p : List Stmt) :
    Follows host 0 (traceProgram host fuel mode p) (interpret host fuel mode p) := by
  have parts := obeys host fuel
  induction p with
  | nil =>
    have nothing : Answers host 0 silent (pure () : Traced Unit) (pure ()) := answers_pure ()
    exact nothing.toFollows
  | cons s rest ih =>
    have shown (e : Expr) : Follows host 0
        (do
          let v ← Expr.trace host fuel e
          if !v.isNull then quiet (print ((← quiet get).heap.text v ++ "\n"))
          traceProgram host fuel mode rest)
        (do
          let v ← Expr.eval host fuel e
          if !v.isNull then print ((← get).heap.text v ++ "\n")
          interpret host fuel mode rest) := by
      refine (parts.eval e).toFollows.bind fun v => ?_
      split
      · have printed : Answers host 0 silent
            (do quiet (print ((← quiet get).heap.text v ++ "\n")))
            (do print ((← get).heap.text v ++ "\n")) :=
          .get_bind fun m => .quiet (Footprint.evaluates_print _).level
        exact printed.toFollows.bind fun _ => ih
      · exact ih
    have plain (s : Stmt) : Follows host 0
        (do
          let _ ← Stmt.trace host fuel s
          traceProgram host fuel mode rest)
        (do
          let _ ← Stmt.exec host fuel s
          interpret host fuel mode rest) :=
      (parts.exec s).toFollows.bind fun _ => ih
    unfold traceProgram interpret
    cases mode with
    | file => exact plain s
    | interactive =>
      cases s with
      | expr e => exact shown e
      | _ => exact plain _

/-! ## Along a trace -/

theorem Task.relay_located {f : Fault} {span : Span} (located : f.span = some span)
    (task : Task) : task.relay (.fault f) = .fault f := by
  cases task with
  | eval e => exact congrArg Stop.fault (f.orSpan_eq_self located e.span)
  | _ => rfl

namespace Trace

variable {host : Host} {root node : Trace} {around : List Trace}

/-- The count of bodies at the start of a task counts the activations around it. -/
theorem Lawful.start_depth (h : root.Lawful host) (inside : root.Within around node) :
    node.start.depth = root.start.depth + activations around := by
  induction inside with
  | self => rfl
  | @inside around parent child within mem ih =>
    rw [(h.of_within within).law.inner_depth child mem, ih, activations, activations,
      List.countP_cons, Nat.add_assoc]

/-- A fault with a place stops all tasks around it as it is. -/
theorem Lawful.stopped_around (h : root.Lawful host) (inside : root.Within around node) {f : Fault}
    {span : Span} (located : f.span = some span) (stopped : node.report = .stopped (.fault f)) :
    (∀ t ∈ around, t.report = .stopped (.fault f)) ∧ root.report = .stopped (.fault f) := by
  induction inside with
  | self => exact ⟨nofun, stopped⟩
  | @inside around parent child within mem ih =>
    have risen := (h.of_within within).law.stopped child mem _ stopped
    rw [parent.task.relay_located located] at risen
    obtain ⟨others, top⟩ := ih risen
    exact ⟨List.forall_mem_cons.2 ⟨risen, others⟩, top⟩

end Trace
end Scriptlet
