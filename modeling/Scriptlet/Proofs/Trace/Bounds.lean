import Scriptlet.Proofs.Trace.Laws

/-!
# Larger bounds

The evaluator counts down a bound, which is there to make it end and for nothing else: a run that
ends within a bound is the same under every larger one. `Traced.Approximates` says so of a step and
another with a larger bound, tasks included, and `steady` of the whole evaluator.

So one may forget the bound. `Ends` says how a step ends and what tasks it takes on, under some bound
and hence under all larger ones; a sequence of steps is taken apart by `ends_bind_iff`.
-/

namespace Scriptlet

open Run Traced

/-- How a run ends, with the machine at its end. -/
abbrev Outcome (α : Type) := EStateM.Result Stop Machine α

namespace Traced

variable {α β : Type} {w w' w'' : Traced α} {host : Host} {n : Nat}

/-- The second step does what the first one does and takes on the same tasks, unless the first one
uses its bound up. -/
def Approximates (w w' : Traced α) : Prop :=
  ∀ m, (∃ m', w.run m = .error .outOfFuel m') ∨ w'.run m = w.run m ∧ w'.inner m = w.inner m

namespace Approximates

theorem refl (w : Traced α) : w.Approximates w := fun _ => .inr ⟨rfl, rfl⟩

theorem trans (h : w.Approximates w') (h' : w'.Approximates w'') : w.Approximates w'' := by
  intro m
  rcases h m with exhausted | ⟨run, inner⟩
  · exact .inl exhausted
  · rw [← run, ← inner]
    exact h' m

theorem exhausted (w : Traced α) : (quiet (stop .outOfFuel)).Approximates w :=
  fun m => .inl ⟨m, rfl⟩

theorem bind {f f' : α → Traced β} (h : w.Approximates w')
    (hf : ∀ a, (f a).Approximates (f' a)) : (w >>= f).Approximates (w' >>= f') := by
  intro m
  rcases h m with ⟨m', spent⟩ | ⟨run, inner⟩
  · exact .inl ⟨m', bind_of_error spent⟩
  · show (∃ m', (w.run >>= fun a => (f a).run) m = _) ∨
      (w'.run >>= fun a => (f' a).run) m = (w.run >>= fun a => (f a).run) m ∧
        w'.inner m ++ innerAfter w'.run _ m = w.inner m ++ innerAfter w.run _ m
    unfold innerAfter
    cases ended : w.run m with
    | error why m' =>
      rw [ended] at run
      rw [bind_of_error ended, bind_of_error run, run, inner]
      exact .inr ⟨rfl, rfl⟩
    | ok a m' =>
      rw [ended] at run
      rw [bind_of_ok ended, bind_of_ok run, run, inner]
      exact (hf a m').imp_right fun same => ⟨same.1, congrArg _ same.2⟩

theorem after {f f' : α → Traced β} (hf : ∀ a, (f a).Approximates (f' a)) :
    (w >>= f).Approximates (w >>= f') :=
  (refl w).bind hf

theorem locating (h : w.Approximates w') (span : Span) :
    (Traced.locating span w).Approximates (Traced.locating span w') := by
  intro m
  refine (h m).imp ?_ fun same => ⟨?_, same.2⟩
  · rintro ⟨m', spent⟩
    exact ⟨m', by simp only [Traced.locating, Run.locating, spent]⟩
  · simp only [Traced.locating, Run.locating, same.1]

theorem within (h : w.Approximates w') (scope : ScopeId) :
    (Traced.within scope w).Approximates (Traced.within scope w') := by
  intro m
  refine (h { m with scope }).imp ?_ fun same => ⟨?_, same.2⟩
  · rintro ⟨m', spent⟩
    exact ⟨{ m' with scope := m.scope }, by simp only [Traced.within, Run.within, spent]⟩
  · simp only [Traced.within, Run.within, same.1]

theorem deeper (h : w.Approximates w') : (Traced.deeper w).Approximates (Traced.deeper w') := by
  intro m
  refine (h { m with depth := m.depth + 1 }).imp ?_ fun same => ⟨?_, same.2⟩
  · rintro ⟨m', spent⟩
    exact ⟨{ m' with depth := m'.depth - 1 }, by simp only [Traced.deeper, Run.deeper, spent]⟩
  · simp only [Traced.deeper, Run.deeper, same.1]

theorem doing (h : w.Approximates w') (task : Task) (f : α → Report) :
    (Traced.doing task f w).Approximates (Traced.doing task f w') := by
  intro m
  refine (h m).imp id fun same => ⟨same.1, ?_⟩
  simp only [Traced.doing, Run.after, same.1, same.2]

end Approximates

/-! ## The evaluator -/

/-- One more than a given bound changes no run that ends within it. -/
structure Steady (host : Host) (n : Nat) : Prop where
  eval : ∀ e, (Expr.trace host n e).Approximates (Expr.trace host (n + 1) e)
  evalAll : ∀ es, (Expr.traceAll host n es).Approximates (Expr.traceAll host (n + 1) es)
  store : ∀ target value, (Expr.traceStore host n target value).Approximates
    (Expr.traceStore host (n + 1) target value)
  step : ∀ op target, (Expr.traceStep host n op target).Approximates
    (Expr.traceStep host (n + 1) op target)
  callValue : ∀ callee args, (traceValue host n callee args).Approximates
    (traceValue host (n + 1) callee args)
  callFunction : ∀ id args, (traceFunction host n id args).Approximates
    (traceFunction host (n + 1) id args)
  instantiate : ∀ id args, (traceInstantiate host n id args).Approximates
    (traceInstantiate host (n + 1) id args)
  bindClass : ∀ id object, (traceClass host n id object).Approximates
    (traceClass host (n + 1) id object)
  initFields : ∀ object fields, (traceFields host n object fields).Approximates
    (traceFields host (n + 1) object fields)
  exec : ∀ s, (Stmt.trace host n s).Approximates (Stmt.trace host (n + 1) s)
  execAll : ∀ ss, (Stmt.traceAll host n ss).Approximates (Stmt.traceAll host (n + 1) ss)
  execLoop : ∀ condition body, (Stmt.traceLoop host n condition body).Approximates
    (Stmt.traceLoop host (n + 1) condition body)

theorem steady_zero : Steady host 0 := by
  constructor <;> intros <;> exact .exhausted _

theorem Steady.eval_succ (ih : Steady host n) (e : Expr) :
    (Expr.trace host (n + 1) e).Approximates (Expr.trace host (n + 1 + 1) e) := by
  unfold Expr.trace
  refine Approximates.doing (.locating ?_ _) _ _
  cases e with
  | literal span value => exact .refl _
  | ident name => exact .refl _
  | group span inner => exact ih.eval inner
  | array span elements => exact (ih.evalAll elements).bind fun _ => .refl _
  | unary span op operand => exact (ih.eval operand).bind fun _ => .refl _
  | stepThenTake span op operand => exact (ih.step op operand).bind fun _ => .refl _
  | takeThenStep span op operand => exact (ih.step op operand).bind fun _ => .refl _
  | binary span op left right =>
    exact (ih.eval left).bind fun _ => (ih.eval right).bind fun _ => .refl _
  | logical span op left right =>
    refine (ih.eval left).bind fun a => .after fun m => ?_
    cases shortCircuit? m.heap op a with
    | some v => exact .refl _
    | none => exact (ih.eval right).bind fun _ => .refl _
  | ternary span condition yes no =>
    refine (ih.eval condition).bind fun v => .after fun m => ?_
    cases m.heap.toBool v with
    | true => exact ih.eval yes
    | false => exact ih.eval no
  | assign span target value =>
    exact (ih.eval value).bind fun v => (ih.store target v).bind fun _ => .refl _
  | index span target position =>
    exact (ih.eval target).bind fun _ => (ih.eval position).bind fun _ => .refl _
  | field span target name => exact (ih.eval target).bind fun _ => .refl _
  | call span callee args =>
    refine (ih.eval callee).bind fun f => (ih.evalAll args).bind fun values => ?_
    cases f.kind.isCallable with
    | true => exact ih.callValue f values
    | false => exact .refl _

theorem Steady.evalAll_succ (ih : Steady host n) (es : List Expr) :
    (Expr.traceAll host (n + 1) es).Approximates (Expr.traceAll host (n + 1 + 1) es) := by
  cases es with
  | nil => exact .refl _
  | cons e rest => exact (ih.eval e).bind fun _ => (ih.evalAll rest).bind fun _ => .refl _

theorem Steady.store_succ (ih : Steady host n) (target : Expr) (value : Value) :
    (Expr.traceStore host (n + 1) target value).Approximates
      (Expr.traceStore host (n + 1 + 1) target value) := by
  cases target with
  | index span target position =>
    exact (ih.eval target).bind fun _ => (ih.eval position).bind fun _ => .refl _
  | field span target name => exact (ih.eval target).bind fun _ => .refl _
  | _ => exact .refl _

theorem Steady.step_succ (ih : Steady host n) (op : StepOp) (target : Expr) :
    (Expr.traceStep host (n + 1) op target).Approximates
      (Expr.traceStep host (n + 1 + 1) op target) := by
  unfold Expr.traceStep
  split
  · refine (ih.eval target).bind fun _ => .after fun _ => ?_
    exact (ih.store target _).bind fun _ => .refl _
  · exact .refl _

theorem Steady.callValue_succ (ih : Steady host n) (callee : Value) (args : List Value) :
    (traceValue host (n + 1) callee args).Approximates
      (traceValue host (n + 1 + 1) callee args) := by
  cases callee with
  | function id => exact ih.callFunction id args
  | cls id => exact ih.instantiate id args
  | _ => exact .refl _

theorem Steady.callFunction_succ (ih : Steady host n) (id : FunctionId) (args : List Value) :
    (traceFunction host (n + 1) id args).Approximates
      (traceFunction host (n + 1 + 1) id args) := by
  unfold traceFunction
  refine Approximates.doing (.after fun m => ?_) _ _
  cases m.heap.function id with
  | native name arity action => exact .refl _
  | user decl home =>
    refine .after fun _ => .after fun scope => .after fun _ => ?_
    exact ((ih.execAll decl.body).doing _ _).deeper.within scope |>.bind fun _ => .refl _

theorem Steady.instantiate_succ (ih : Steady host n) (id : ClassId) (args : List Value) :
    (traceInstantiate host (n + 1) id args).Approximates
      (traceInstantiate host (n + 1 + 1) id args) := by
  unfold traceInstantiate
  refine Approximates.doing (.after fun m => .after fun _ => .after fun object => ?_) _ _
  refine (ih.bindClass id object).bind fun bound => ?_
  cases bound.constructor with
  | none => exact .refl _
  | some constructor => exact (ih.callFunction constructor args).bind fun _ => .refl _

theorem Steady.bindClass_succ (ih : Steady host n) (id : ClassId) (object : ObjectId) :
    (traceClass host (n + 1) id object).Approximates
      (traceClass host (n + 1 + 1) id object) := by
  unfold traceClass
  refine .after fun m => .after fun scope => .after fun _ => ?_
  have fields := (ih.initFields object (m.heap.classRecord id).decl.fields).within scope
  cases (m.heap.classRecord id).superclass with
  | none => exact .after fun _ => fields.bind fun _ => .refl _
  | some parent =>
    refine (ih.bindClass parent object).bind fun bound => .after fun _ => .after fun _ => ?_
    exact .after fun _ => fields.bind fun _ => .refl _

theorem Steady.initFields_succ (ih : Steady host n) (object : ObjectId) (fields : List FieldDecl) :
    (traceFields host (n + 1) object fields).Approximates
      (traceFields host (n + 1 + 1) object fields) := by
  cases fields with
  | nil => exact .refl _
  | cons field rest =>
    exact (ih.eval field.value).bind fun _ => .after fun _ => ih.initFields object rest

/-- Of a sequence of two statements, the second may not be reached. -/
theorem Approximates.follow {w w' rest rest' : Traced Flow} (h : w.Approximates w')
    (hrest : rest.Approximates rest') :
    Approximates
      (do match ← w with
        | .returned v => return .returned v
        | .next => rest)
      (do match ← w' with
        | .returned v => return .returned v
        | .next => rest') :=
  h.bind fun flow => by
    cases flow with
    | returned v => exact .refl _
    | next => exact hrest

theorem Steady.exec_succ (ih : Steady host n) (s : Stmt) :
    (Stmt.trace host (n + 1) s).Approximates (Stmt.trace host (n + 1 + 1) s) := by
  unfold Stmt.trace
  refine Approximates.doing ?_ _ _
  cases s with
  | declare name value constant =>
    cases value with
    | none => exact .refl _
    | some e => exact (ih.eval e).bind fun _ => .refl _
  | function decl => exact .refl _
  | classDecl decl => exact .refl _
  | ret span value =>
    refine .after fun m => ?_
    split
    · exact .refl _
    · cases value with
      | none => exact .refl _
      | some e => exact (ih.eval e).bind fun _ => .refl _
  | expr e => exact (ih.eval e).bind fun _ => .refl _
  | block body =>
    exact .after fun _ => .after fun scope => ((ih.execAll body).doing _ _).within scope
  | branch condition yes no =>
    refine (ih.eval condition).bind fun v => .after fun m => ?_
    cases m.heap.toBool v with
    | true => exact ih.exec yes
    | false =>
      cases no with
      | none => exact .refl _
      | some no => exact ih.exec no
  | loop condition body => exact ih.execLoop condition body

theorem Steady.execAll_succ (ih : Steady host n) (ss : List Stmt) :
    (Stmt.traceAll host (n + 1) ss).Approximates (Stmt.traceAll host (n + 1 + 1) ss) := by
  cases ss with
  | nil => exact .refl _
  | cons s rest => exact (ih.exec s).follow (ih.execAll rest)

theorem Steady.execLoop_succ (ih : Steady host n) (condition : Expr) (body : Stmt) :
    (Stmt.traceLoop host (n + 1) condition body).Approximates
      (Stmt.traceLoop host (n + 1 + 1) condition body) := by
  unfold Stmt.traceLoop
  refine (ih.eval condition).bind fun v => .after fun m => ?_
  cases m.heap.toBool v with
  | true => exact (ih.exec body).follow (ih.execLoop condition body)
  | false => exact .refl _

/-- **A larger bound changes no run that ends.** The induction is on the bound, as in the evaluator
itself. -/
theorem steady (host : Host) (n : Nat) : Steady host n := by
  induction n with
  | zero => exact steady_zero
  | succ n ih =>
    exact ⟨ih.eval_succ, ih.evalAll_succ, ih.store_succ, ih.step_succ, ih.callValue_succ,
      ih.callFunction_succ, ih.instantiate_succ, ih.bindClass_succ, ih.initFields_succ,
      ih.exec_succ, ih.execAll_succ, ih.execLoop_succ⟩

/-! ## How steps end -/

variable {f f' : Nat → Traced α} {m : Machine} {r r' : Outcome α} {tasks tasks' : List Trace}

/-- A step for every bound, such that larger bounds change nothing that ends. -/
def Growing (f : Nat → Traced α) : Prop := ∀ n, (f n).Approximates (f (n + 1))

/-- Under some bound the step ends so, and takes on these tasks. -/
def Ends (f : Nat → Traced α) (m : Machine) (r : Outcome α) (tasks : List Trace) : Prop :=
  (∀ m', r ≠ .error .outOfFuel m') ∧ ∃ n, (f n).run m = r ∧ (f n).inner m = tasks

theorem Growing.mono (h : Growing f) {n n' : Nat} (le : n ≤ n') :
    (f n).Approximates (f n') := by
  induction le with
  | refl => exact .refl _
  | step _ ih => exact ih.trans (h _)

theorem growing_quiet (r : Run α) : Growing fun _ => quiet r := fun _ => .refl _

theorem growing_eval (host : Host) (e : Expr) : Growing fun n => Expr.trace host n e :=
  fun n => (steady host n).eval e

theorem growing_store (host : Host) (target : Expr) (value : Value) :
    Growing fun n => Expr.traceStore host n target value :=
  fun n => (steady host n).store target value

theorem Growing.bind {g : Nat → α → Traced β} (hf : Growing f)
    (hg : ∀ a, Growing fun n => g n a) : Growing fun n => f n >>= g n :=
  fun n => (hf n).bind fun a => hg a n

/-- What ends under some bound ends so under all that are large enough. -/
theorem Growing.eventually (h : Growing f) (ends : Ends f m r tasks) :
    ∃ n, ∀ n', n ≤ n' → (f n').run m = r ∧ (f n').inner m = tasks := by
  obtain ⟨settled, n, run, inner⟩ := ends
  refine ⟨n, fun n' le => ?_⟩
  rcases h.mono le m with ⟨m', spent⟩ | ⟨run', inner'⟩
  · exact absurd (run.symm.trans spent) (settled m')
  · exact ⟨run'.trans run, inner'.trans inner⟩

theorem Growing.unique (h : Growing f) (ends : Ends f m r tasks) (ends' : Ends f m r' tasks') :
    r = r' ∧ tasks = tasks' := by
  obtain ⟨n, always⟩ := h.eventually ends
  obtain ⟨n', always'⟩ := h.eventually ends'
  obtain ⟨run, inner⟩ := always _ (Nat.le_max_left n n')
  obtain ⟨run', inner'⟩ := always' _ (Nat.le_max_right n n')
  exact ⟨run.symm.trans run', inner.symm.trans inner'⟩

/-- A step that counts the bound down ends as what it does with the rest of the bound. -/
theorem ends_succ_iff (start : f 0 = quiet (stop .outOfFuel)) :
    Ends f m r tasks ↔ Ends (fun n => f (n + 1)) m r tasks := by
  constructor
  · rintro ⟨settled, n, run, inner⟩
    cases n with
    | zero =>
      rw [start] at run
      exact absurd run.symm (settled m)
    | succ n => exact ⟨settled, n, run, inner⟩
  · rintro ⟨settled, n, run, inner⟩
    exact ⟨settled, n + 1, run, inner⟩

theorem ends_quiet {r : Run α} {a : α} {m' : Machine} (run : r m = .ok a m') :
    Ends (fun _ => quiet r) m (.ok a m') [] :=
  ⟨nofun, 0, run, rfl⟩

theorem Ends.of_quiet {r : Run α} {ending : Outcome α}
    (ends : Ends (fun _ => quiet r) m ending tasks) : r m = ending ∧ tasks = [] :=
  let ⟨_, _, run, inner⟩ := ends
  ⟨run, inner.symm⟩

/-- Of a sequence of two steps, the first stops the run, or the second ends it. -/
theorem Ends.of_bind {g : Nat → α → Traced β} {r : Outcome β}
    (ends : Ends (fun n => f n >>= g n) m r tasks) :
    (∃ why m', Ends f m (.error why m') tasks ∧ r = .error why m') ∨
    ∃ a m' first second, Ends f m (.ok a m') first ∧ Ends (fun n => g n a) m' r second ∧
      tasks = first ++ second := by
  obtain ⟨settled, n, run, inner⟩ := ends
  change ((f n).run >>= fun a => (g n a).run) m = r at run
  change (f n).inner m ++ innerAfter (f n).run (fun a => (g n a).inner) m = tasks at inner
  unfold innerAfter at inner
  cases ended : (f n).run m with
  | error why m' =>
    rw [bind_of_error ended] at run
    rw [ended, List.append_nil] at inner
    subst run
    refine .inl ⟨why, m', ⟨fun m₁ same => ?_, n, ended, inner⟩, rfl⟩
    cases same
    exact settled m' rfl
  | ok a m' =>
    rw [bind_of_ok ended] at run
    rw [ended] at inner
    exact .inr ⟨a, m', _, _, ⟨nofun, n, ended, rfl⟩, ⟨settled, n, run, rfl⟩, inner.symm⟩

theorem Ends.bind_error {g : Nat → α → Traced β} {why : Stop} {m' : Machine}
    (first : Ends f m (.error why m') tasks) :
    Ends (fun n => f n >>= g n) m (.error why m') tasks := by
  obtain ⟨settled, n, run, inner⟩ := first
  refine ⟨fun m₁ same => ?_, n, bind_of_error run, ?_⟩
  · cases same
    exact settled m' rfl
  · show (f n).inner m ++ innerAfter (f n).run (fun a => (g n a).inner) m = tasks
    rw [innerAfter, run, inner, List.append_nil]

theorem Ends.bind_ok {g : Nat → α → Traced β} {a : α} {m' : Machine} {r : Outcome β}
    (first : Ends f m (.ok a m') tasks) (second : Ends (fun n => g n a) m' r tasks')
    (hf : Growing f) (hg : ∀ a, Growing fun n => g n a) :
    Ends (fun n => f n >>= g n) m r (tasks ++ tasks') := by
  obtain ⟨n, always⟩ := hf.eventually first
  obtain ⟨n', always'⟩ := (hg a).eventually second
  obtain ⟨run, inner⟩ := always _ (Nat.le_max_left n n')
  obtain ⟨run', inner'⟩ := always' _ (Nat.le_max_right n n')
  refine ⟨second.1, max n n', (bind_of_ok run).trans run', ?_⟩
  show (f _).inner m ++ innerAfter (f _).run (fun a => (g _ a).inner) m = tasks ++ tasks'
  rw [innerAfter, run, inner]
  exact congrArg _ inner'

end Traced

namespace Outcome

variable {α β : Type}

/-- The machine at the end. -/
def machine : Outcome α → Machine
  | .ok _ m => m
  | .error _ m => m

/-- The ending with a place for its fault, unless the fault has one. -/
def located (span : Span) : Outcome α → Outcome α
  | .error (.fault f) m => .error (.fault (f.orSpan span)) m
  | other => other

def map (k : α → β) : Outcome α → Outcome β
  | .ok a m => .ok (k a) m
  | .error why m => .error why m

theorem located_located (r : Outcome α) (span other : Span) :
    (r.located span).located other = r.located span := by
  cases r with
  | ok => rfl
  | error why m =>
    cases why with
    | fault f => simp only [located, Fault.orSpan_orSpan]
    | outOfFuel | awaitingInput | awaitingTime => rfl

theorem located_eq_outOfFuel {r : Outcome α} {span : Span} {m : Machine} :
    r.located span = .error .outOfFuel m ↔ r = .error .outOfFuel m := by
  cases r with
  | ok => exact Iff.rfl
  | error why m => cases why <;> simp [located]

theorem ok_eq_located_map_iff {r : Outcome α} {k : α → β} {span : Span} {b : β} {m : Machine} :
    .ok b m = (r.map k).located span ↔ ∃ a, r = .ok a m ∧ b = k a := by
  cases r with
  | ok a m' =>
    constructor
    · rintro ⟨⟩
      exact ⟨a, rfl, rfl⟩
    · rintro ⟨_, ⟨⟩, rfl⟩
      rfl
  | error why m' => cases why <;> exact ⟨nofun, nofun⟩

/-- Whether a run stops does not depend on what is made of its value. -/
theorem error_eq_located_map_congr {r : Outcome α} {span : Span} {why : Stop} {m : Machine}
    (k l : α → β) : .error why m = (r.map k).located span ↔ .error why m = (r.map l).located span := by
  cases r with
  | ok a m' => exact ⟨nofun, nofun⟩
  | error why m' => exact Iff.rfl

end Outcome

namespace Traced

variable {α β : Type} {f : Nat → Traced α} {m : Machine} {r : Outcome α} {tasks : List Trace}

/-- A step followed by a change of its value. -/
theorem ends_map_iff {k : α → β} {r : Outcome β} :
    Ends (fun n => f n >>= fun a => pure (k a)) m r tasks ↔
      ∃ r', Ends f m r' tasks ∧ r = r'.map k := by
  constructor
  · intro ends
    obtain ⟨why, m', first, rfl⟩ | ⟨a, m', first, second, ended, last, rfl⟩ := ends.of_bind
    · exact ⟨_, first, rfl⟩
    · obtain ⟨rfl, rfl⟩ := last.of_quiet
      exact ⟨_, by rwa [List.append_nil], rfl⟩
  · rintro ⟨r', ends, rfl⟩
    cases r' with
    | error why m' => exact ends.bind_error
    | ok a m' =>
      obtain ⟨settled, n, run, inner⟩ := ends
      refine ⟨nofun, n, bind_of_ok run, ?_⟩
      show (f n).inner m ++ innerAfter (f n).run _ m = tasks
      rw [innerAfter, run, inner]
      exact List.append_nil _

theorem ends_locating_iff {span : Span} :
    Ends (fun n => Traced.locating span (f n)) m r tasks ↔
      ∃ r', Ends f m r' tasks ∧ r = r'.located span := by
  have same (n : Nat) : (Traced.locating span (f n)).run m = Outcome.located span ((f n).run m) := by
    show Run.locating span (f n).run m = _
    unfold Run.locating
    cases (f n).run m with
    | ok => rfl
    | error why m' => cases why <;> rfl
  constructor
  · rintro ⟨settled, n, run, inner⟩
    rw [same] at run
    refine ⟨(f n).run m, ⟨fun m' spent => ?_, n, rfl, inner⟩, run.symm⟩
    exact settled m' (run.symm.trans (Outcome.located_eq_outOfFuel.2 spent))
  · rintro ⟨r', ⟨settled, n, run, inner⟩, rfl⟩
    refine ⟨fun m' spent => settled m' (Outcome.located_eq_outOfFuel.1 spent), n, ?_, inner⟩
    rw [same, run]

theorem ends_doing_iff {task : Task} {report : α → Report} :
    Ends (fun n => doing task report (f n)) m r tasks ↔
      ∃ inner, Ends f m r inner ∧
        tasks = [.node task m inner (.ofResult report r) r.machine] := by
  have finish (n : Nat) : (f n).run.after m = Outcome.machine ((f n).run m) := by
    unfold Run.after
    cases (f n).run m <;> rfl
  constructor
  · rintro ⟨settled, n, run, inner⟩
    change (f n).run m = r at run
    subst run
    rw [← finish]
    exact ⟨_, ⟨settled, n, rfl, rfl⟩, inner.symm⟩
  · rintro ⟨inner, ⟨settled, n, rfl, rfl⟩, rfl⟩
    refine ⟨settled, n, rfl, ?_⟩
    rw [← finish]
    rfl

/-- The evaluation of an expression, which does this with the rest of the bound. -/
theorem ends_eval_iff {host : Host} {e : Expr} {f : Nat → Traced Value} {r : Outcome Value}
    (same : ∀ n, Expr.trace host (n + 1) e = doing (.eval e) .value (Traced.locating e.span (f n))) :
    Ends (fun n => Expr.trace host n e) m r tasks ↔
      ∃ r' inner, Ends f m r' inner ∧ r = r'.located e.span ∧
        tasks = [.node (.eval e) m inner (.ofResult .value r) r.machine] := by
  rw [ends_succ_iff (f := fun n => Expr.trace host n e) (by unfold Expr.trace; rfl)]
  simp only [same, ends_doing_iff, ends_locating_iff]
  constructor
  · rintro ⟨inner, ⟨r', ends, rfl⟩, rfl⟩
    exact ⟨r', inner, ends, rfl, rfl⟩
  · rintro ⟨r', inner, ends, rfl, rfl⟩
    exact ⟨inner, ⟨r', ends, rfl⟩, rfl⟩

end Traced
end Scriptlet
