import Scriptlet.Proofs.Footprint

/-!
# Watched runs

A watched step is a step together with the moments it passes through: the machine states at which
the evaluation of an expression is entered, or the target of an assignment is written to. The
evaluator is repeated here over watched steps; it writes down a moment in two places only, where
`Expr.watch` and `Expr.watchStore` start. Forgetting the moments gives the evaluator back
(`watchProgram_run`), so the moments are those of the real run, whatever it ends with.
-/

namespace Scriptlet

/-- What an expression is entered for. -/
inductive Purpose where
  /-- To compute its value. -/
  | value
  /-- To write to the place it names. -/
  | target
deriving DecidableEq, Repr

/-- A machine about to enter an expression. -/
structure Moment where
  purpose : Purpose
  expr : Expr
  machine : Machine

/-- A step with the moments it passes through, from each machine it may start in. -/
structure Watched (α : Type) where
  run : Run α
  moments : Machine → List Moment

namespace Watched

variable {α β : Type}

/-- What goes on after a step, if it ended with a value. -/
def momentsAfter (r : Run α) (next : α → Machine → List Moment) (m : Machine) : List Moment :=
  match r m with
  | .ok a m' => next a m'
  | .error _ _ => []

instance : Monad Watched where
  pure a := ⟨pure a, fun _ => []⟩
  bind w f :=
    ⟨w.run >>= fun a => (f a).run,
      fun m => w.moments m ++ momentsAfter w.run (fun a => (f a).moments) m⟩

/-- A step that enters no expression. -/
def quiet (r : Run α) : Watched α := ⟨r, fun _ => []⟩

/-- Write down that an expression is entered. -/
def enter (purpose : Purpose) (e : Expr) : Watched Unit :=
  ⟨pure (), fun m => [⟨purpose, e, m⟩]⟩

def locating (span : Span) (w : Watched α) : Watched α := ⟨Run.locating span w.run, w.moments⟩

def within (scope : ScopeId) (w : Watched α) : Watched α :=
  ⟨Run.within scope w.run, fun m => w.moments { m with scope }⟩

def deeper (w : Watched α) : Watched α :=
  ⟨Run.deeper w.run, fun m => w.moments { m with depth := m.depth + 1 }⟩

end Watched

open Run Watched

mutual

/-- Watch the evaluation of an expression. -/
def Expr.watch (host : Host) : Nat → Expr → Watched Value
  | 0, _ => quiet (stop .outOfFuel)
  | n + 1, e => do
    enter .value e
    Watched.locating e.span <|
      match e with
      | .literal _ value => pure value.value
      | .ident name => quiet (lookup name)
      | .group _ inner => Expr.watch host n inner
      | .array _ elements => do
        let items ← Expr.watchAll host n elements
        let id ← quiet (allocate (·.addArray items.toArray))
        return .array id
      | .unary _ op operand => do
        let v ← Expr.watch host n operand
        quiet (onHeap (·.unary op v))
      | .stepThenTake _ op operand => do
        let (_, new) ← Expr.watchStep host n op operand
        return .number new
      | .takeThenStep _ op operand => do
        let (old, _) ← Expr.watchStep host n op operand
        return .number old
      | .binary _ op left right => do
        let a ← Expr.watch host n left
        let b ← Expr.watch host n right
        quiet (onHeap (·.binary op a b))
      | .logical _ op left right => do
        let a ← Expr.watch host n left
        match shortCircuit? (← quiet get).heap op a with
        | some v => return v
        | none =>
          let b ← Expr.watch host n right
          return afterRight (← quiet get).heap op b
      | .ternary _ condition yes no => do
        let v ← Expr.watch host n condition
        if (← quiet get).heap.toBool v then Expr.watch host n yes else Expr.watch host n no
      | .assign _ target value => do
        let v ← Expr.watch host n value
        Expr.watchStore host n target v
        return v
      | .index _ target position => do
        let t ← Expr.watch host n target
        let i ← Expr.watch host n position
        quiet (onHeap (·.indexGet t i))
      | .field _ target name => do
        let t ← Expr.watch host n target
        quiet (Run.locating name.span (onHeap (·.fieldGet t name.text)))
      | .call _ callee args => do
        let f ← Expr.watch host n callee
        let values ← Expr.watchAll host n args
        if f.kind.isCallable then watchValue host n f values
        else quiet (fault { cause := .notCallable f.kind, span := some callee.span })

def Expr.watchAll (host : Host) : Nat → List Expr → Watched (List Value)
  | 0, _ => quiet (stop .outOfFuel)
  | _ + 1, [] => pure []
  | n + 1, e :: rest => do
    let v ← Expr.watch host n e
    let vs ← Expr.watchAll host n rest
    return v :: vs

def Expr.watchStore (host : Host) : Nat → Expr → Value → Watched Unit
  | 0, _, _ => quiet (stop .outOfFuel)
  | n + 1, target, value => do
    enter .target target
    match target with
    | .ident name => quiet (assign name value)
    | .index _ target position => do
      let t ← Expr.watch host n target
      let i ← Expr.watch host n position
      quiet (write (← quiet (onHeap (·.itemPlace t i))) value)
    | .field _ target name => do
      let t ← Expr.watch host n target
      quiet (write (← quiet (Run.locating name.span (onHeap fun _ =>
        Heap.fieldPlace t name.text))) value)
    | other => quiet (fault { cause := .invalidTarget, span := some other.span })

def Expr.watchStep (host : Host) : Nat → StepOp → Expr → Watched (Float × Float)
  | 0, _, _ => quiet (stop .outOfFuel)
  | n + 1, op, target =>
    if target.isAssignable then do
      let v ← Expr.watch host n target
      let old ← quiet (onHeap (·.toNumber v))
      let new := old + op.delta
      Expr.watchStore host n target (.number new)
      return (old, new)
    else quiet (fault FaultCause.invalidTarget)

def watchValue (host : Host) : Nat → Value → List Value → Watched Value
  | 0, _, _ => quiet (stop .outOfFuel)
  | n + 1, callee, args =>
    match callee with
    | .function id => watchFunction host n id args
    | .cls id => watchInstantiate host n id args
    | v => quiet (fault (FaultCause.notCallable v.kind))

def watchFunction (host : Host) : Nat → FunctionId → List Value → Watched Value
  | 0, _, _ => quiet (stop .outOfFuel)
  | n + 1, id, args => do
    match (← quiet get).heap.function id with
    | .native _ arity action =>
      quiet (checkArity arity args.length)
      quiet (Native.call host action args)
    | .user decl home =>
      quiet (checkArity decl.arity args.length)
      let scope ← quiet (newScope home)
      quiet (bindArguments scope decl.params args)
      match ← Watched.within scope (Watched.deeper (Stmt.watchAll host n decl.body)) with
      | .returned v => return v
      | .next => return .null

def watchInstantiate (host : Host) : Nat → ClassId → List Value → Watched Value
  | 0, _, _ => quiet (stop .outOfFuel)
  | n + 1, id, args => do
    let record := (← quiet get).heap.classRecord id
    quiet (checkArity record.decl.arity args.length)
    let object ← quiet (allocate (·.addObject ⟨record.name, .empty⟩))
    let bound ← watchClass host n id object
    match bound.constructor with
    | some constructor =>
      let _ ← watchFunction host n constructor args
      return .object object
    | none => return .object object

def watchClass (host : Host) : Nat → ClassId → ObjectId → Watched BoundClass
  | 0, _, _ => quiet (stop .outOfFuel)
  | n + 1, id, object => do
    let record := (← quiet get).heap.classRecord id
    let scope ← quiet (newScope record.home)
    quiet (define scope "this" (.object object) false)
    let inherited ← match record.superclass with
      | none => pure .empty
      | some parent =>
        let bound ← watchClass host n parent object
        quiet (bindInherited scope ((← quiet get).heap.classRecord parent).name bound)
        pure bound.methods
    Watched.within scope (watchFields host n object record.decl.fields)
    let methods ← quiet (bindMethods object scope record.decl.methods inherited)
    let constructor ← quiet (match record.decl.constructor with
      | some decl => some <$> allocate (·.addFunction (.user decl scope))
      | none => pure none)
    return ⟨methods, constructor⟩

def watchFields (host : Host) : Nat → ObjectId → List FieldDecl → Watched Unit
  | 0, _, _ => quiet (stop .outOfFuel)
  | _ + 1, _, [] => pure ()
  | n + 1, object, field :: rest => do
    let v ← Expr.watch host n field.value
    quiet (setField object field.name.text v)
    watchFields host n object rest

/-- Watch the execution of a statement. -/
def Stmt.watch (host : Host) : Nat → Stmt → Watched Flow
  | 0, _ => quiet (stop .outOfFuel)
  | n + 1, s =>
    match s with
    | .declare name value constant => do
      let v ← match value with
        | some e => Expr.watch host n e
        | none => pure .null
      quiet (define (← quiet get).scope name.text v (!constant))
      return .next
    | .function decl => do
      quiet (declareFunction decl)
      return .next
    | .classDecl decl => do
      quiet (declareClass decl)
      return .next
    | .ret span value => do
      if (← quiet get).depth = 0 then quiet (fault { cause := .strayReturn, span := some span })
      else
        let v ← match value with
          | some e => Expr.watch host n e
          | none => pure .null
        return .returned v
    | .expr e => do
      let _ ← Expr.watch host n e
      return .next
    | .block body => do
      let scope ← quiet (newScope (← quiet get).scope)
      Watched.within scope (Stmt.watchAll host n body)
    | .branch condition yes no => do
      let v ← Expr.watch host n condition
      if (← quiet get).heap.toBool v then Stmt.watch host n yes
      else match no with
        | some no => Stmt.watch host n no
        | none => return .next
    | .loop condition body => Stmt.watchLoop host n condition body

def Stmt.watchAll (host : Host) : Nat → List Stmt → Watched Flow
  | 0, _ => quiet (stop .outOfFuel)
  | _ + 1, [] => pure .next
  | n + 1, s :: rest => do
    match ← Stmt.watch host n s with
    | .returned v => return .returned v
    | .next => Stmt.watchAll host n rest

def Stmt.watchLoop (host : Host) : Nat → Expr → Stmt → Watched Flow
  | 0, _, _ => quiet (stop .outOfFuel)
  | n + 1, condition, body => do
    let v ← Expr.watch host n condition
    if (← quiet get).heap.toBool v then
      match ← Stmt.watch host n body with
      | .returned v => return .returned v
      | .next => Stmt.watchLoop host n condition body
    else return .next

end

/-- What is left of binding a class after the names that it inherits, watched. -/
def watchMembers (host : Host) (n : Nat) (object : ObjectId) (scope : ScopeId)
    (decl : ClassDecl Stmt) (inherited : Dict Value) : Watched BoundClass := do
  Watched.within scope (watchFields host n object decl.fields)
  let methods ← quiet (bindMethods object scope decl.methods inherited)
  let constructor ← quiet (match decl.constructor with
    | some decl => some <$> allocate (·.addFunction (.user decl scope))
    | none => pure none)
  return ⟨methods, constructor⟩

/-- Watch the run of a program. -/
def watchProgram (host : Host) (fuel : Nat) (mode : Mode) : List Stmt → Watched Unit
  | [] => pure ()
  | s :: rest => do
    match mode, s with
    | .interactive, .expr e =>
      let v ← Expr.watch host fuel e
      if !v.isNull then quiet (print ((← quiet get).heap.text v ++ "\n"))
    | _, s =>
      let _ ← Stmt.watch host fuel s
    watchProgram host fuel mode rest

/-- Every evaluation starts with a moment of its own. -/
theorem Expr.entered_value (host : Host) (n : Nat) (e : Expr) (m : Machine) :
    ⟨.value, e, m⟩ ∈ (Expr.watch host (n + 1) e).moments m :=
  List.mem_append_left _ (List.mem_singleton_self _)

/-! ## Forgetting the moments -/

namespace Watched

variable {α β : Type}

/-- Sequences of watched steps forget their moments one by one. -/
theorem run_bind {w : Watched α} {f : α → Watched β} {r : Run α} {g : α → Run β}
    (first : w.run = r) (second : ∀ a, (f a).run = g a) : (w >>= f).run = r >>= g := by
  show (w.run >>= fun a => (f a).run) = r >>= g
  rw [first, funext second]

theorem run_locating {w : Watched α} {r : Run α} (span : Span) (h : w.run = r) :
    (locating span w).run = Run.locating span r := by
  rw [← h]
  rfl

/-- Writing down a moment is not part of the step. -/
theorem run_entered {w : Watched α} {r : Run α} {purpose : Purpose} {e : Expr} (h : w.run = r) :
    (enter purpose e >>= fun _ => w).run = r :=
  (run_bind rfl fun _ => h).trans (pure_bind () fun _ => r)

theorem run_within {w : Watched α} {r : Run α} (scope : ScopeId) (h : w.run = r) :
    (within scope w).run = Run.within scope r := by
  rw [← h]
  rfl

theorem run_deeper {w : Watched α} {r : Run α} (h : w.run = r) :
    (deeper w).run = Run.deeper r := by
  rw [← h]
  rfl

end Watched

/-- Up to a bound on the length of the run, watching changes nothing. -/
structure Unnoticed (host : Host) (n : Nat) : Prop where
  eval : ∀ e, (Expr.watch host n e).run = Expr.eval host n e
  evalAll : ∀ es, (Expr.watchAll host n es).run = Expr.evalAll host n es
  store : ∀ e v, (Expr.watchStore host n e v).run = Expr.store host n e v
  step : ∀ op e, (Expr.watchStep host n op e).run = Expr.step host n op e
  callValue : ∀ v args, (watchValue host n v args).run = callValue host n v args
  callFunction : ∀ id args, (watchFunction host n id args).run = callFunction host n id args
  instantiate : ∀ id args, (watchInstantiate host n id args).run = instantiate host n id args
  bindClass : ∀ id object, (watchClass host n id object).run = bindClass host n id object
  initFields : ∀ object fields, (watchFields host n object fields).run =
    initFields host n object fields
  exec : ∀ s, (Stmt.watch host n s).run = Stmt.exec host n s
  execAll : ∀ ss, (Stmt.watchAll host n ss).run = Stmt.execAll host n ss
  execLoop : ∀ c s, (Stmt.watchLoop host n c s).run = Stmt.execLoop host n c s

theorem unnoticed_zero (host : Host) : Unnoticed host 0 := by
  constructor <;> intros <;> rfl

namespace Unnoticed

variable {host : Host} {n : Nat}

theorem eval_succ (h : Unnoticed host n) (e : Expr) :
    (Expr.watch host (n + 1) e).run = Expr.eval host (n + 1) e := by
  cases e with
  | literal | ident => rfl
  | group span inner => exact run_entered (run_locating span (h.eval inner))
  | array span elements =>
    exact run_entered (run_locating span (run_bind (h.evalAll elements) fun _ => rfl))
  | unary span op operand =>
    exact run_entered (run_locating span (run_bind (h.eval operand) fun _ => rfl))
  | stepThenTake span op operand | takeThenStep span op operand =>
    exact run_entered (run_locating span (run_bind (h.step op operand) fun _ => rfl))
  | binary span op left right =>
    exact run_entered (run_locating span
      (run_bind (h.eval left) fun _ => run_bind (h.eval right) fun _ => rfl))
  | logical span op left right =>
    refine run_entered (run_locating span
      (run_bind (h.eval left) fun a => run_bind rfl fun m => ?_))
    cases shortCircuit? m.heap op a with
    | some v => rfl
    | none => exact run_bind (h.eval right) fun _ => rfl
  | ternary span condition yes no =>
    refine run_entered (run_locating span
      (run_bind (h.eval condition) fun v => run_bind rfl fun m => ?_))
    by_cases truth : m.heap.toBool v = true
    · rw [if_pos truth, if_pos truth]
      exact h.eval yes
    · rw [if_neg truth, if_neg truth]
      exact h.eval no
  | assign span target value =>
    exact run_entered (run_locating span
      (run_bind (h.eval value) fun v => run_bind (h.store target v) fun _ => rfl))
  | index span target position =>
    exact run_entered (run_locating span
      (run_bind (h.eval target) fun _ => run_bind (h.eval position) fun _ => rfl))
  | field span target name =>
    exact run_entered (run_locating span (run_bind (h.eval target) fun _ => rfl))
  | call span callee args =>
    refine run_entered (run_locating span
      (run_bind (h.eval callee) fun f => run_bind (h.evalAll args) fun values => ?_))
    by_cases callable : f.kind.isCallable = true
    · rw [if_pos callable, if_pos callable]
      exact h.callValue f values
    · rw [if_neg callable, if_neg callable]
      rfl

theorem evalAll_succ (h : Unnoticed host n) (es : List Expr) :
    (Expr.watchAll host (n + 1) es).run = Expr.evalAll host (n + 1) es := by
  cases es with
  | nil => rfl
  | cons e rest =>
    rw [Expr.watchAll, Expr.evalAll]
    exact run_bind (h.eval e) fun _ => run_bind (h.evalAll rest) fun _ => rfl

theorem store_succ (h : Unnoticed host n) (e : Expr) (v : Value) :
    (Expr.watchStore host (n + 1) e v).run = Expr.store host (n + 1) e v := by
  cases e with
  | index span target position =>
    exact run_entered
      (run_bind (h.eval target) fun _ => run_bind (h.eval position) fun _ => rfl)
  | field span target name => exact run_entered (run_bind (h.eval target) fun _ => rfl)
  | _ => rfl

theorem step_succ (h : Unnoticed host n) (op : StepOp) (e : Expr) :
    (Expr.watchStep host (n + 1) op e).run = Expr.step host (n + 1) op e := by
  rw [Expr.watchStep, Expr.step]
  by_cases place : e.isAssignable = true
  · rw [if_pos place, if_pos place]
    exact run_bind (h.eval e) fun v => run_bind rfl fun old => run_bind (h.store e _) fun _ => rfl
  · rw [if_neg place, if_neg place]
    rfl

theorem callValue_succ (h : Unnoticed host n) (v : Value) (args : List Value) :
    (watchValue host (n + 1) v args).run = Scriptlet.callValue host (n + 1) v args := by
  cases v with
  | function id => exact h.callFunction id args
  | cls id => exact h.instantiate id args
  | _ => rfl

theorem callFunction_succ (h : Unnoticed host n) (id : FunctionId) (args : List Value) :
    (watchFunction host (n + 1) id args).run = Scriptlet.callFunction host (n + 1) id args := by
  rw [watchFunction, Scriptlet.callFunction]
  refine run_bind rfl fun m => ?_
  cases m.heap.function id with
  | native name arity action => rfl
  | user decl home =>
    refine run_bind rfl fun _ => run_bind rfl fun scope => run_bind rfl fun _ => ?_
    refine run_bind (run_within scope (run_deeper (h.execAll decl.body))) fun flow => ?_
    cases flow <;> rfl

theorem instantiate_succ (h : Unnoticed host n) (id : ClassId) (args : List Value) :
    (watchInstantiate host (n + 1) id args).run = Scriptlet.instantiate host (n + 1) id args := by
  rw [watchInstantiate, Scriptlet.instantiate]
  refine run_bind rfl fun m => run_bind rfl fun _ => run_bind rfl fun object => ?_
  refine run_bind (h.bindClass id object) fun bound => ?_
  cases bound.constructor with
  | none => rfl
  | some constructor => exact run_bind (h.callFunction constructor args) fun _ => rfl

theorem members (h : Unnoticed host n) (object : ObjectId) (scope : ScopeId)
    (decl : ClassDecl Stmt) (inherited : Dict Value) :
    (watchMembers host n object scope decl inherited).run =
      bindMembers host n object scope decl inherited := by
  refine run_bind (run_within scope (h.initFields object _)) fun _ => run_bind rfl fun _ => ?_
  cases decl.constructor <;> rfl

theorem bindClass_succ (h : Unnoticed host n) (id : ClassId) (object : ObjectId) :
    (watchClass host (n + 1) id object).run = Scriptlet.bindClass host (n + 1) id object := by
  rw [watchClass, Scriptlet.bindClass]
  refine run_bind rfl fun m => run_bind rfl fun scope => run_bind rfl fun _ => ?_
  cases (m.heap.classRecord id).superclass with
  | none => exact h.members object scope _ .empty
  | some parent =>
    exact run_bind (h.bindClass parent object) fun bound => run_bind rfl fun m' =>
      run_bind rfl fun _ => h.members object scope _ bound.methods

theorem initFields_succ (h : Unnoticed host n) (object : ObjectId) (fields : List FieldDecl) :
    (watchFields host (n + 1) object fields).run =
      Scriptlet.initFields host (n + 1) object fields := by
  cases fields with
  | nil => rfl
  | cons field rest =>
    rw [watchFields, Scriptlet.initFields]
    exact run_bind (h.eval field.value) fun _ => run_bind rfl fun _ => h.initFields object rest

theorem exec_succ (h : Unnoticed host n) (s : Stmt) :
    (Stmt.watch host (n + 1) s).run = Stmt.exec host (n + 1) s := by
  cases s with
  | declare name value constant =>
    cases value with
    | none => rfl
    | some e => exact run_bind (h.eval e) fun _ => rfl
  | function | classDecl => rfl
  | ret span value =>
    refine run_bind rfl fun m => ?_
    by_cases outside : m.depth = 0
    · simp only [outside, ↓reduceIte]
      rfl
    · simp only [outside, ↓reduceIte]
      cases value with
      | none => rfl
      | some e => exact run_bind (h.eval e) fun _ => rfl
  | expr e => exact run_bind (h.eval e) fun _ => rfl
  | block body =>
    exact run_bind rfl fun m => run_bind rfl fun scope => run_within scope (h.execAll body)
  | branch condition yes no =>
    refine run_bind (h.eval condition) fun v => run_bind rfl fun m => ?_
    by_cases truth : m.heap.toBool v = true
    · rw [if_pos truth, if_pos truth]
      exact h.exec yes
    · rw [if_neg truth, if_neg truth]
      cases no with
      | none => rfl
      | some no => exact h.exec no
  | loop condition body => exact h.execLoop condition body

theorem execAll_succ (h : Unnoticed host n) (ss : List Stmt) :
    (Stmt.watchAll host (n + 1) ss).run = Stmt.execAll host (n + 1) ss := by
  cases ss with
  | nil => rfl
  | cons s rest =>
    rw [Stmt.watchAll, Stmt.execAll]
    refine run_bind (h.exec s) fun flow => ?_
    cases flow with
    | returned v => rfl
    | next => exact h.execAll rest

theorem execLoop_succ (h : Unnoticed host n) (condition : Expr) (body : Stmt) :
    (Stmt.watchLoop host (n + 1) condition body).run =
      Stmt.execLoop host (n + 1) condition body := by
  rw [Stmt.watchLoop, Stmt.execLoop]
  refine run_bind (h.eval condition) fun v => run_bind rfl fun m => ?_
  by_cases truth : m.heap.toBool v = true
  · rw [if_pos truth, if_pos truth]
    refine run_bind (h.exec body) fun flow => ?_
    cases flow with
    | returned v => rfl
    | next => exact h.execLoop condition body
  · rw [if_neg truth, if_neg truth]
    rfl

end Unnoticed

theorem unnoticed (host : Host) : ∀ n, Unnoticed host n
  | 0 => unnoticed_zero host
  | n + 1 =>
    have ih := unnoticed host n
    { eval := ih.eval_succ
      evalAll := ih.evalAll_succ
      store := ih.store_succ
      step := ih.step_succ
      callValue := ih.callValue_succ
      callFunction := ih.callFunction_succ
      instantiate := ih.instantiate_succ
      bindClass := ih.bindClass_succ
      initFields := ih.initFields_succ
      exec := ih.exec_succ
      execAll := ih.execAll_succ
      execLoop := ih.execLoop_succ }

/-- A watched run is the run. -/
theorem watchProgram_run (host : Host) (fuel : Nat) (mode : Mode) (p : List Stmt) :
    (watchProgram host fuel mode p).run = interpret host fuel mode p := by
  induction p with
  | nil => rfl
  | cons s rest ih =>
    have other : (Stmt.watch host fuel s >>= fun _ => watchProgram host fuel mode rest).run =
        (Stmt.exec host fuel s >>= fun _ => interpret host fuel mode rest) :=
      run_bind ((unnoticed host fuel).exec s) fun _ => ih
    cases mode with
    | file => exact other
    | interactive =>
      cases s with
      | expr e =>
        refine run_bind ((unnoticed host fuel).eval e) fun v => ?_
        by_cases null : v.isNull = true
        · simp only [null, Bool.not_true, Bool.false_eq_true, ↓reduceIte]
          exact ih
        · simp only [null, Bool.not_false, ↓reduceIte]
          exact run_bind rfl fun m => run_bind rfl fun _ => ih
      | _ => exact other

end Scriptlet
