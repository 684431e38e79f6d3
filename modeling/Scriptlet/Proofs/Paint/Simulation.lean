import Mathlib
import Scriptlet.Proofs.Paint.Tracked
import Scriptlet.Proofs.Stack

/-!
# A run stands in the scopes that the painting walk saw

Whenever a run enters an expression, its scopes mirror the frames with which the walk visited that
expression. Up to every bound on the length of a run, each function of the evaluator is safe
(`Simulates`): expressions and statements where the program stands in scopes that mirror the frames
of the walk, calls in every tracked machine, as the called code brings its own scopes.

`scopes_simulated` is the main statement.
-/

namespace Scriptlet

open Watched

/-- Up to a bound on the length of the run, the evaluator is safe. -/
structure Simulates (visits : List Visit) (host : Host) (n : Nat) : Prop where
  eval : ∀ {frames missing m e}, Expr.Seen visits frames missing e →
    m.Stands visits frames missing → (Expr.watch host n e).Safe visits m fun _ _ => True
  evalAll : ∀ {frames missing m es}, (∀ e ∈ es, Expr.Seen visits frames missing e) →
    m.Stands visits frames missing → (Expr.watchAll host n es).Safe visits m fun _ _ => True
  store : ∀ {frames missing m e} (v : Value), Expr.Seen visits frames missing e →
    m.Stands visits frames missing → (Expr.watchStore host n e v).Safe visits m fun _ _ => True
  step : ∀ {frames missing m e} (op : StepOp), Expr.Seen visits frames missing e →
    m.Stands visits frames missing → (Expr.watchStep host n op e).Safe visits m fun _ _ => True
  callValue : ∀ {m} (v : Value) (args : List Value), m.Tracked visits →
    (watchValue host n v args).Safe visits m fun _ _ => True
  callFunction : ∀ {m} (id : FunctionId) (args : List Value), m.Tracked visits →
    (watchFunction host n id args).Safe visits m fun _ _ => True
  instantiate : ∀ {m} (id : ClassId) (args : List Value), m.Tracked visits →
    (watchInstantiate host n id args).Safe visits m fun _ _ => True
  bindClass : ∀ {m} (id : ClassId) (object : ObjectId), m.Tracked visits →
    (watchClass host n id object).Safe visits m fun _ _ => True
  initFields : ∀ {frames m fields} (object : ObjectId),
    (∀ field ∈ fields, Expr.Seen visits frames none field.value) → m.Stands visits frames none →
    (watchFields host n object fields).Safe visits m fun _ _ => True
  exec : ∀ {frames m st}, Stmt.Seen visits frames st → m.Stands visits frames none →
    (Stmt.watch host n st).Safe visits m fun flow m' =>
      (flow = .next → m'.Stands visits (st.paint frames).1 none) ∧ (m.depth = 0 → flow = .next)
  execAll : ∀ {frames m body}, Stmt.AllSeen visits frames body → m.Stands visits frames none →
    (Stmt.watchAll host n body).Safe visits m fun flow _ => m.depth = 0 → flow = .next
  execLoop : ∀ {frames m condition body}, Expr.Seen visits frames none condition →
    Stmt.Seen visits frames body → m.Stands visits frames none →
    (Stmt.watchLoop host n condition body).Safe visits m fun flow _ => m.depth = 0 → flow = .next

theorem simulates_zero (visits : List Visit) (host : Host) : Simulates visits host 0 := by
  constructor <;> intros <;> exact .stop

/-- A class binds its name. -/
theorem classPaint_frames (frames : Frames) (decl : ClassDecl Stmt) :
    (classPaint frames decl).1 = frames.define .className decl.name.text := by
  cases decl
  rfl

namespace Simulates

variable {visits : List Visit} {host : Host} {n : Nat} {m : Machine} {frames : Frames}
  {missing : Option String}

theorem eval_succ (h : Simulates visits host n) {e : Expr} (seen : e.Seen visits frames missing)
    (stands : m.Stands visits frames missing) :
    (Expr.watch host (n + 1) e).Safe visits m fun _ _ => True := by
  -- everything inside the expression was looked at under its frames, and no step leaves its scope
  refine .entered (.locating ?_) ⟨frames, missing, seen, stands.mirrors⟩
  have inside : ∀ x ∈ e.children, x.Seen visits frames missing := fun x mem => seen.child mem
  cases e with
  | literal span value => exact .pure stands.tracked trivial
  | ident name => exact (Run.calm_lookup name).safe stands.tracked
  | group span inner => exact h.eval (inside inner (by simp [Expr.children])) stands
  | array span elements =>
    refine (h.evalAll inside stands).step stands fun items m₁ stands₁ => ?_
    refine ((Run.calm_addArray _).safe stands₁.tracked).step stands₁ fun id m₂ stands₂ => ?_
    exact .pure stands₂.tracked trivial
  | unary span op operand =>
    have first := h.eval (inside operand (by simp [Expr.children])) stands
    exact first.step stands fun v m₁ stands₁ => (Run.calm_onHeap _).safe stands₁.tracked
  | stepThenTake span op operand | takeThenStep span op operand =>
    have first := h.step op (inside operand (by simp [Expr.children])) stands
    exact first.step stands fun v m₁ stands₁ => .pure stands₁.tracked trivial
  | binary span op left right =>
    have first := h.eval (inside left (by simp [Expr.children])) stands
    refine first.step stands fun a m₁ stands₁ => ?_
    have second := h.eval (inside right (by simp [Expr.children])) stands₁
    exact second.step stands₁ fun b m₂ stands₂ => (Run.calm_onHeap _).safe stands₂.tracked
  | logical span op left right =>
    have first := h.eval (inside left (by simp [Expr.children])) stands
    refine first.step stands fun a m₁ stands₁ => .get_bind ?_
    cases Run.shortCircuit? m₁.heap op a with
    | some v => exact .pure stands₁.tracked trivial
    | none =>
      have second := h.eval (inside right (by simp [Expr.children])) stands₁
      exact second.step stands₁ fun b m₂ stands₂ => .get_bind (.pure stands₂.tracked trivial)
  | ternary span condition yes no =>
    have first := h.eval (inside condition (by simp [Expr.children])) stands
    refine first.step stands fun v m₁ stands₁ => .get_bind ?_
    by_cases truth : m₁.heap.toBool v = true
    · rw [if_pos truth]
      exact h.eval (inside yes (by simp [Expr.children])) stands₁
    · rw [if_neg truth]
      exact h.eval (inside no (by simp [Expr.children])) stands₁
  | assign span target value =>
    have first := h.eval (inside value (by simp [Expr.children])) stands
    refine first.step stands fun v m₁ stands₁ => ?_
    have second := h.store v (inside target (by simp [Expr.children])) stands₁
    exact second.step stands₁ fun _ m₂ stands₂ => .pure stands₂.tracked trivial
  | index span target position =>
    have first := h.eval (inside target (by simp [Expr.children])) stands
    refine first.step stands fun t m₁ stands₁ => ?_
    have second := h.eval (inside position (by simp [Expr.children])) stands₁
    exact second.step stands₁ fun i m₂ stands₂ => (Run.calm_onHeap _).safe stands₂.tracked
  | field span target name =>
    have first := h.eval (inside target (by simp [Expr.children])) stands
    exact first.step stands fun t m₁ stands₁ =>
      ((Run.calm_onHeap _).locating name.span).safe stands₁.tracked
  | call span callee args =>
    have first := h.eval (inside callee List.mem_cons_self) stands
    refine first.step stands fun f m₁ stands₁ => ?_
    have second := h.evalAll (fun e mem => inside e (List.mem_cons_of_mem _ mem)) stands₁
    refine second.step stands₁ fun values m₂ stands₂ => ?_
    by_cases callable : f.kind.isCallable = true
    · rw [if_pos callable]
      exact h.callValue f values stands₂.tracked
    · rw [if_neg callable]
      exact .stop

theorem evalAll_succ (h : Simulates visits host n) {es : List Expr}
    (seen : ∀ e ∈ es, e.Seen visits frames missing) (stands : m.Stands visits frames missing) :
    (Expr.watchAll host (n + 1) es).Safe visits m fun _ _ => True := by
  cases es with
  | nil => exact .pure stands.tracked trivial
  | cons e rest =>
    rw [Expr.watchAll]
    refine (h.eval (seen e List.mem_cons_self) stands).step stands fun v m₁ stands₁ => ?_
    have second := h.evalAll (fun e mem => seen e (List.mem_cons_of_mem _ mem)) stands₁
    exact second.step stands₁ fun vs m₂ stands₂ => .pure stands₂.tracked trivial

theorem store_succ (h : Simulates visits host n) {e : Expr} (v : Value)
    (seen : e.Seen visits frames missing) (stands : m.Stands visits frames missing) :
    (Expr.watchStore host (n + 1) e v).Safe visits m fun _ _ => True := by
  refine .entered ?_ ⟨frames, missing, seen, stands.mirrors⟩
  have inside : ∀ x ∈ e.children, x.Seen visits frames missing := fun x mem => seen.child mem
  cases e with
  | ident name => exact safe_assign stands.tracked name v
  | index span target position =>
    have first := h.eval (inside target (by simp [Expr.children])) stands
    refine first.step stands fun t m₁ stands₁ => ?_
    have second := h.eval (inside position (by simp [Expr.children])) stands₁
    refine second.step stands₁ fun i m₂ stands₂ => ?_
    refine ((Run.calm_onHeap _).safe stands₂.tracked).step stands₂ fun place m₃ stands₃ => ?_
    exact (Run.calm_write place v).safe stands₃.tracked
  | field span target name =>
    have first := h.eval (inside target (by simp [Expr.children])) stands
    refine first.step stands fun t m₁ stands₁ => ?_
    have second := ((Run.calm_onHeap fun _ => Heap.fieldPlace t name.text).locating name.span).safe
      stands₁.tracked
    refine second.step stands₁ fun place m₂ stands₂ => ?_
    exact (Run.calm_write place v).safe stands₂.tracked
  | _ => exact .stop

theorem step_succ (h : Simulates visits host n) {e : Expr} (op : StepOp)
    (seen : e.Seen visits frames missing) (stands : m.Stands visits frames missing) :
    (Expr.watchStep host (n + 1) op e).Safe visits m fun _ _ => True := by
  rw [Expr.watchStep]
  by_cases place : e.isAssignable = true
  · rw [if_pos place]
    refine (h.eval seen stands).step stands fun v m₁ stands₁ => ?_
    refine ((Run.calm_onHeap _).safe stands₁.tracked).step stands₁ fun old m₂ stands₂ => ?_
    refine (h.store _ seen stands₂).step stands₂ fun _ m₃ stands₃ => ?_
    exact .pure stands₃.tracked trivial
  · rw [if_neg place]
    exact .stop

theorem callValue_succ (h : Simulates visits host n) (v : Value) (args : List Value)
    (tracked : m.Tracked visits) :
    (watchValue host (n + 1) v args).Safe visits m fun _ _ => True := by
  cases v with
  | function id => exact h.callFunction id args tracked
  | cls id => exact h.instantiate id args tracked
  | _ => exact .stop

theorem callFunction_succ (h : Simulates visits host n) (id : FunctionId) (args : List Value)
    (tracked : m.Tracked visits) :
    (watchFunction host (n + 1) id args).Safe visits m fun _ _ => True := by
  rw [watchFunction]
  refine .get_bind ?_
  cases found : m.heap.function id with
  | native name arity action =>
    refine (safe_checkArity tracked arity args.length).bind fun _ m₁ tracked₁ _ _ => ?_
    exact (Run.calm_native host action args).safe tracked₁
  | user decl home =>
    -- the frames of the body come with the function, wherever the call stands
    obtain ⟨frames, mirrors, seen⟩ := tracked.functions id decl home found
    refine (safe_checkArity tracked decl.arity args.length).bind ?_
    intro _ m₁ tracked₁ steady₁ arity
    refine (safe_newScope tracked₁ (mirrors.grow steady₁.grows)).bind ?_
    intro scope m₂ tracked₂ _ mirrors₂
    refine (safe_bindArguments tracked₂ mirrors₂ arity).bind fun _ m₃ tracked₃ _ mirrors₃ => ?_
    have body : (Watched.within scope (Watched.deeper (Stmt.watchAll host n decl.body))).Safe
        visits m₃ fun _ _ => True := by
      have inner := h.execAll seen (m := { m₃ with scope, depth := m₃.depth + 1 })
        ⟨tracked₃.grow (.refl _) rfl rfl, mirrors₃⟩
      exact .within (.deeper (inner.mono fun _ _ _ _ _ => trivial))
    refine body.bind fun flow m₄ tracked₄ _ _ => ?_
    cases flow <;> exact .pure tracked₄ trivial

theorem instantiate_succ (h : Simulates visits host n) (id : ClassId) (args : List Value)
    (tracked : m.Tracked visits) :
    (watchInstantiate host (n + 1) id args).Safe visits m fun _ _ => True := by
  rw [watchInstantiate]
  refine .get_bind ?_
  refine (safe_checkArity tracked _ args.length).bind fun _ m₁ tracked₁ _ _ => ?_
  refine ((Run.calm_addObject _).safe tracked₁).bind fun object m₂ tracked₂ _ _ => ?_
  refine (h.bindClass id object tracked₂).bind fun bound m₃ tracked₃ _ _ => ?_
  cases bound.constructor with
  | none => exact .pure tracked₃ trivial
  | some constructor =>
    exact (h.callFunction constructor args tracked₃).bind fun _ m₄ tracked₄ _ _ =>
      .pure tracked₄ trivial

theorem initFields_succ (h : Simulates visits host n) {fields : List FieldDecl}
    (object : ObjectId) (seen : ∀ field ∈ fields, field.value.Seen visits frames none)
    (stands : m.Stands visits frames none) :
    (watchFields host (n + 1) object fields).Safe visits m fun _ _ => True := by
  cases fields with
  | nil => exact .pure stands.tracked trivial
  | cons field rest =>
    rw [watchFields]
    refine (h.eval (seen field List.mem_cons_self) stands).step stands fun v m₁ stands₁ => ?_
    refine ((Run.calm_write _ v).safe stands₁.tracked).step stands₁ fun _ m₂ stands₂ => ?_
    exact h.initFields object (fun field mem => seen field (List.mem_cons_of_mem _ mem)) stands₂

/-- The members of a class, once the scope that they share has the names of the frame. -/
theorem bindMembers (h : Simulates visits host n) {decl : ClassDecl Stmt} {scope : ScopeId}
    (object : ObjectId) (inherited : Dict Value) (seen : decl.Seen visits frames)
    (tracked : m.Tracked visits)
    (mirrors : m.scopes.Mirrors (frames.withClass decl.superclass) none scope) :
    (watchMembers host n object scope decl inherited).Safe visits m fun _ _ => True := by
  have fields := h.initFields object (fun field mem => seen.field mem)
    (tracked.stands_in mirrors)
  refine fields.within.bind fun _ m₁ tracked₁ steady₁ _ => ?_
  have mirrors₁ := mirrors.grow steady₁.grows
  refine (safe_bindMethods tracked₁ mirrors₁ object (fun method mem => seen.method mem)
    inherited).bind fun methods m₂ tracked₂ steady₂ _ => ?_
  have mirrors₂ := mirrors₁.grow steady₂.grows
  have returned : ∀ (constructor : Option FunctionId) m₃, m₃.Tracked visits →
      (pure ⟨methods, constructor⟩ : Watched BoundClass).Safe visits m₃ fun _ _ => True :=
    fun _ _ tracked₃ => .pure tracked₃ trivial
  cases declared : decl.constructor with
  | none => exact returned none m₂ tracked₂
  | some method =>
    have allocated : (quiet (some <$> Run.allocate (·.addFunction (.user method scope)))).Safe
        visits m₂ fun _ _ => True := by
      rw [map_eq_pure_bind]
      exact (safe_addFunction tracked₂ mirrors₂ (seen.constructor declared)).quiet_bind
        fun id m₃ tracked₃ _ _ => .pure tracked₃ trivial
    exact allocated.bind fun constructor m₃ tracked₃ _ _ => returned constructor m₃ tracked₃

theorem bindClass_succ (h : Simulates visits host n) (id : ClassId) (object : ObjectId)
    (tracked : m.Tracked visits) :
    (watchClass host (n + 1) id object).Safe visits m fun _ _ => True := by
  rw [watchClass]
  refine .get_bind ?_
  obtain ⟨frames, home, seen, superclass⟩ := tracked.classes id
  -- the new scope lies inside the home of the class, not where the object is created
  refine (safe_newScope tracked home).bind fun scope m₁ tracked₁ _ mirrors₁ => ?_
  refine (safe_define tracked₁ mirrors₁ .this "this" (.object object) false).bind ?_
  intro _ m₂ tracked₂ _ mirrors₂
  cases inherits : (m.heap.classRecord id).superclass with
  | none =>
    have alone : (m.heap.classRecord id).decl.superclass.isSome = false := by
      rw [← superclass, inherits]
      rfl
    refine h.bindMembers object .empty seen tracked₂ ?_
    rw [Frames.withClass, alone]
    exact mirrors₂
  | some parent =>
    have below : (m.heap.classRecord id).decl.superclass.isSome = true := by
      rw [← superclass, inherits]
      rfl
    -- the scopes of a superclass are its own: it is bound in a tracked machine like any class
    refine (h.bindClass parent object tracked₂).bind fun bound m₃ tracked₃ steady₃ _ => ?_
    refine .get_bind ?_
    refine (safe_bindInherited tracked₃ (mirrors₂.grow steady₃.grows) _ bound).bind ?_
    intro _ m₄ tracked₄ _ mirrors₄
    refine h.bindMembers object bound.methods seen tracked₄ ?_
    rw [Frames.withClass, below]
    exact mirrors₄

/-- The name of a declaration is bound in the walk before its first value is looked at, and in the
run after the value is there. -/
theorem exec_declare (h : Simulates visits host n) {name : Name} {value : Option Expr}
    {constant : Bool} (seen : (Stmt.declare name value constant).Seen visits frames)
    (stands : m.Stands visits frames none) :
    (Stmt.watch host (n + 1) (.declare name value constant)).Safe visits m fun flow m' =>
      (flow = .next → m'.Stands visits (frames.define .variableName name.text) none) ∧
        (m.depth = 0 → flow = .next) := by
  have bind : ∀ v m₁, m₁.Stands visits frames none →
      (quiet (Run.define m₁.scope name.text v (!constant)) >>= fun _ => pure Flow.next :
        Watched Flow).Safe visits m₁ fun flow m' =>
          (flow = .next → m'.Stands visits (frames.define .variableName name.text) none) ∧
            (m.depth = 0 → flow = .next) := by
    intro v m₁ stands₁
    refine (safe_define stands₁.tracked stands₁.mirrors .variableName name.text v
      (!constant)).bind fun _ m₂ tracked₂ steady₂ mirrors₂ => ?_
    refine .pure tracked₂ ⟨fun _ => ⟨tracked₂, ?_⟩, fun _ => rfl⟩
    rw [steady₂.scope]
    exact mirrors₂
  cases value with
  | none =>
    have null : (pure .null : Watched Value).Safe visits m fun _ _ => True :=
      .pure stands.tracked trivial
    exact null.step stands fun v m₁ stands₁ => .get_bind (bind v m₁ stands₁)
  | some e =>
    have seen : e.Seen visits (frames.define .variableName name.text) (some name.text) :=
      Expr.seen_of_visit (seen.visited _ (List.mem_singleton_self _))
    have pending : m.Stands visits (frames.define .variableName name.text) (some name.text) :=
      ⟨stands.tracked, stands.mirrors.pending .variableName name.text⟩
    exact (h.eval seen pending).step stands fun v m₁ stands₁ => .get_bind (bind v m₁ stands₁)

/-- Neither side of a branch declares anything, so the walk comes to both with the same frames. -/
theorem exec_branch (h : Simulates visits host n) {condition : Expr} {yes : Stmt}
    {no : Option Stmt} (seen : condition.Seen visits frames none)
    (seenYes : yes.Seen visits frames) (seenNo : ∀ st ∈ no, st.Seen visits frames)
    (stands : m.Stands visits frames none) :
    (Stmt.watch host (n + 1) (.branch condition yes no)).Safe visits m fun flow _ =>
      m.depth = 0 → flow = .next := by
  refine (h.eval seen stands).bind fun v m₁ tracked₁ steady₁ _ => .get_bind ?_
  have stands₁ := stands.after tracked₁ steady₁
  by_cases truth : m₁.heap.toBool v = true
  · rw [if_pos truth]
    refine (h.exec seenYes stands₁).mono fun flow m₂ _ _ after outside => ?_
    exact after.2 (steady₁.depth.trans outside)
  · rw [if_neg truth]
    cases no with
    | none => exact .pure tracked₁ fun _ => rfl
    | some st =>
      refine (h.exec (seenNo st rfl) stands₁).mono fun flow m₂ _ _ after outside => ?_
      exact after.2 (steady₁.depth.trans outside)

theorem exec_succ (h : Simulates visits host n) {st : Stmt} (seen : st.Seen visits frames)
    (stands : m.Stands visits frames none) :
    (Stmt.watch host (n + 1) st).Safe visits m fun flow m' =>
      (flow = .next → m'.Stands visits (st.paint frames).1 none) ∧
        (m.depth = 0 → flow = .next) := by
  obtain ⟨visited, regular⟩ := seen
  cases regular with
  | declare => exact h.exec_declare ⟨visited, .declare⟩ stands
  | @function decl plain bodies =>
    obtain ⟨name, params, body, isMethod⟩ := decl
    cases plain
    have declared := safe_declareFunction stands ⟨name, params, body, false⟩ ⟨visited, bodies⟩
    exact declared.bind fun _ m₁ tracked₁ _ stands₁ =>
      .pure tracked₁ ⟨fun _ => stands₁, fun _ => rfl⟩
  | @classDecl decl methods bodies flags inner =>
    have regular : Stmt.Regular (.classDecl decl) := .classDecl methods bodies flags inner
    have members : ∀ v ∈ decl.members.flatMap (memberVisits (decl.insideFrames frames)),
        v ∈ visits := by
      rw [← classVisits_eq regular frames]
      exact visited
    have declared := safe_declareClass stands decl ⟨members, regular⟩
    refine declared.bind fun _ m₁ tracked₁ _ stands₁ => .pure tracked₁ ⟨fun _ => ?_, fun _ => rfl⟩
    show m₁.Stands visits (classPaint frames decl).1 none
    rw [classPaint_frames]
    exact stands₁
  | @ret span value =>
    refine .get_bind ?_
    by_cases outside : m.depth = 0
    · simp only [outside, ↓reduceIte]
      exact .stop
    · simp only [outside, ↓reduceIte]
      cases value with
      | none => exact .pure stands.tracked ⟨nofun, nofun⟩
      | some e =>
        have seen : e.Seen visits frames none :=
          Expr.seen_of_visit (visited _ (List.mem_singleton_self _))
        exact (h.eval seen stands).step stands fun v m₁ stands₁ =>
          .pure stands₁.tracked ⟨nofun, nofun⟩
  | @expr e =>
    have seen : e.Seen visits frames none :=
      Expr.seen_of_visit (visited _ (List.mem_singleton_self _))
    exact (h.eval seen stands).step stands fun v m₁ stands₁ =>
      .pure stands₁.tracked ⟨fun _ => stands₁, fun _ => rfl⟩
  | @block body bodies =>
    refine .get_bind ((safe_newScope stands.tracked stands.mirrors).bind ?_)
    intro scope m₁ tracked₁ steady₁ mirrors₁
    have inner := h.execAll ⟨visited, bodies⟩ (tracked₁.stands_in mirrors₁)
    refine inner.within.mono fun flow m₂ tracked₂ steady₂ falls => ⟨fun _ => ?_, fun outside => ?_⟩
    · exact stands.after tracked₂ (steady₁.trans steady₂)
    · exact falls (steady₁.depth.trans outside)
  | @branch condition yes no regularYes plainYes regularNo plainNo =>
    have unchanged : ((Stmt.branch condition yes no).paint frames).1 = frames :=
      Stmt.Regular.paint_of_plain (.branch regularYes plainYes regularNo plainNo) rfl frames
    have seen : condition.Seen visits frames none :=
      Expr.seen_of_visit (visited _ List.mem_cons_self)
    have seenYes : yes.Seen visits frames :=
      ⟨fun v mem => visited v (List.mem_append_left _ (List.mem_cons_of_mem _ mem)), regularYes⟩
    have seenNo : ∀ st ∈ no, st.Seen visits frames := by
      rintro st rfl
      refine ⟨fun v mem => visited v (List.mem_append_right _ ?_), regularNo st rfl⟩
      rw [regularYes.paint_of_plain plainYes]
      exact mem
    rw [unchanged]
    exact (h.exec_branch seen seenYes seenNo stands).mono fun flow m₁ tracked₁ steady₁ falls =>
      ⟨fun _ => stands.after tracked₁ steady₁, falls⟩
  | @loop condition body regularBody plain =>
    have unchanged : ((Stmt.loop condition body).paint frames).1 = frames :=
      regularBody.paint_of_plain plain frames
    have seen : condition.Seen visits frames none :=
      Expr.seen_of_visit (visited _ List.mem_cons_self)
    have seenBody : body.Seen visits frames :=
      ⟨fun v mem => visited v (List.mem_cons_of_mem _ mem), regularBody⟩
    rw [unchanged]
    exact (h.execLoop seen seenBody stands).mono fun flow m₁ tracked₁ steady₁ falls =>
      ⟨fun _ => stands.after tracked₁ steady₁, falls⟩

theorem execAll_succ (h : Simulates visits host n) {body : List Stmt}
    (seen : Stmt.AllSeen visits frames body) (stands : m.Stands visits frames none) :
    (Stmt.watchAll host (n + 1) body).Safe visits m fun flow _ => m.depth = 0 → flow = .next := by
  cases body with
  | nil => exact .pure stands.tracked fun _ => rfl
  | cons st rest =>
    rw [Stmt.watchAll]
    refine (h.exec seen.head stands).bind fun flow m₁ tracked₁ steady₁ after => ?_
    cases flow with
    | returned v => exact .pure tracked₁ fun outside => after.2 outside
    | next =>
      refine (h.execAll seen.tail (after.1 rfl)).mono fun flow m₂ _ _ falls outside => ?_
      exact falls (steady₁.depth.trans outside)

/-- Whatever a round of a loop does to the scopes, the next one starts in scopes that have grown. -/
theorem execLoop_succ (h : Simulates visits host n) {condition : Expr} {body : Stmt}
    (seen : condition.Seen visits frames none) (seenBody : body.Seen visits frames)
    (stands : m.Stands visits frames none) :
    (Stmt.watchLoop host (n + 1) condition body).Safe visits m fun flow _ =>
      m.depth = 0 → flow = .next := by
  rw [Stmt.watchLoop]
  refine (h.eval seen stands).bind fun v m₁ tracked₁ steady₁ _ => .get_bind ?_
  have stands₁ := stands.after tracked₁ steady₁
  by_cases truth : m₁.heap.toBool v = true
  · rw [if_pos truth]
    refine (h.exec seenBody stands₁).bind fun flow m₂ tracked₂ steady₂ after => ?_
    have steady := steady₁.trans steady₂
    cases flow with
    | returned v => exact .pure tracked₂ fun outside => after.2 (steady₁.depth.trans outside)
    | next =>
      refine (h.execLoop seen seenBody (stands.after tracked₂ steady)).mono ?_
      exact fun flow m₃ _ _ falls outside => falls (steady.depth.trans outside)
  · rw [if_neg truth]
    exact .pure tracked₁ fun _ => rfl

end Simulates

theorem simulates (visits : List Visit) (host : Host) (n : Nat) : Simulates visits host n := by
  induction n with
  | zero => exact simulates_zero visits host
  | succ n ih =>
    exact {
      eval := ih.eval_succ
      evalAll := ih.evalAll_succ
      store := ih.store_succ
      step := ih.step_succ
      callValue := ih.callValue_succ
      callFunction := ih.callFunction_succ
      instantiate := ih.instantiate_succ
      bindClass := ih.bindClass_succ
      initFields := ih.initFields_succ
      exec := ih.exec_succ
      execAll := ih.execAll_succ
      execLoop := ih.execLoop_succ }

/-- The statements of a program follow each other. Outside all functions none of them returns. -/
theorem safe_watchProgram (host : Host) (fuel : Nat) (mode : Mode) {visits : List Visit}
    {frames : Frames} {p : List Stmt} {m : Machine} (seen : Stmt.AllSeen visits frames p)
    (stands : m.Stands visits frames none) (outside : m.depth = 0) :
    (watchProgram host fuel mode p).Safe visits m fun _ _ => True := by
  induction p generalizing frames m with
  | nil => exact .pure stands.tracked trivial
  | cons st rest ih =>
    have other : (Stmt.watch host fuel st >>= fun _ => watchProgram host fuel mode rest).Safe
        visits m fun _ _ => True := by
      refine ((simulates visits host fuel).exec seen.head stands).bind ?_
      -- no other flow than `next` comes up here, so the frames after the statement are mirrored
      intro flow m₁ _ steady after
      exact ih seen.tail (after.1 (after.2 outside)) (steady.depth.trans outside)
    cases mode with
    | file => exact other
    | interactive =>
      cases st with
      | expr e =>
        have seenExpr : e.Seen visits frames none :=
          Expr.seen_of_visit (seen.head.visited _ (List.mem_singleton_self _))
        refine ((simulates visits host fuel).eval seenExpr stands).bind ?_
        intro v m₁ tracked steady _
        have stands₁ := stands.after tracked steady
        have outside₁ := steady.depth.trans outside
        by_cases null : v.isNull = true
        · simp only [null, Bool.not_true, Bool.false_eq_true, ↓reduceIte]
          exact ih seen.tail stands₁ outside₁
        · simp only [null, Bool.not_false, ↓reduceIte]
          refine .get_bind (((Run.calm_print _).safe tracked).bind ?_)
          intro _ m₂ tracked₂ steady₂ _
          exact ih seen.tail (stands₁.after tracked₂ steady₂) (steady₂.depth.trans outside₁)
      | _ => exact other

/-! ## The start of a run -/

theorem Machine.stands_initial (visits : List Visit) (console : Console) (clock : Clock) :
    (Machine.initial console clock).Stands visits [Dict.empty] none := by
  have root : (Machine.initial console clock).scopes.Mirrors [Dict.empty] none Machine.globals :=
    .root rfl nofun rfl
  refine ⟨⟨?_, ?_⟩, root⟩
  · intro id decl home found
    cases found
  · intro id
    exact ⟨[Dict.empty], root, ⟨nofun, .classDecl nofun nofun nofun nofun⟩, rfl⟩

/-- Natives are bound outside all scopes, under names that the walk does not know. -/
theorem Machine.Stands.register {visits : List Visit} {m : Machine}
    (h : m.Stands visits [Dict.empty] none) (decl : NativeDecl) :
    (m.register decl).Stands visits [Dict.empty] none := by
  let routine := Routine.native decl.name decl.arity decl.action
  let value := Value.function (m.heap.addFunction routine).1
  have grows := m.scopes.grows_define Machine.globals decl.name value true
  have bound : Machine.Tracked visits
      { m with scopes := m.scopes.define Machine.globals decl.name value true } :=
    h.tracked.grow grows rfl rfl
  exact ⟨bound.addFunction (r := routine) nofun, h.mirrors.grow grows⟩

theorem Machine.Stands.registerAll {visits : List Visit} {m : Machine}
    (h : m.Stands visits [Dict.empty] none) (decls : List NativeDecl) :
    (m.registerAll decls).Stands visits [Dict.empty] none := by
  induction decls generalizing m with
  | nil => exact h
  | cons decl rest ih => exact ih (h.register decl)

/-! ## Simulation -/

/-- What the frames of a visit say about the scopes at a moment. -/
structure Moment.Follows (moment : Moment) (v : Visit) : Prop where
  /-- The chains of scopes and of frames are equally long. -/
  depth : moment.machine.scopes.depth moment.machine.scope + 1 = v.frames.length
  /-- On every level the scope has the names of the frame; only in the innermost scope the name of
  the declaration that is being initialized may be missing. -/
  names : ∀ k frame, v.frames[k]? = some frame →
    ∃ scope, moment.machine.scopes.outward? moment.machine.scope k = some scope ∧
      ∀ name, frame.contains name = true →
        moment.machine.scopes.contains scope name = true ∨ (k = 0 ∧ v.pending = some name)
  /-- A name with a role, other than that one, can be read, and be written unless it is constant. -/
  resolved : ∀ name, moment.expr = .ident name → (v.frames.role? name.text).isSome = true →
    v.pending ≠ some name.text →
    (∀ host n, ∃ value, Expr.eval host (n + 1) moment.expr moment.machine =
      .ok value moment.machine) ∧
    ∀ host n value stop m', Expr.store host (n + 1) moment.expr value moment.machine =
      .error stop m' → stop = .fault (Run.assignFault name .immutable)

section Resolution

variable {m : Machine} {frames : Frames} {missing : Option String} {name : Name}

/-- The binding that a name with a role finds at run time. -/
theorem Scopes.Mirrors.binding (h : m.scopes.Mirrors frames missing m.scope)
    (role : (frames.role? name.text).isSome = true) (present : missing ≠ some name.text) :
    ∃ owner binding, m.scopes.owner? m.scope name.text = some owner ∧
      m.scopes.local? owner name.text = some binding := by
  obtain ⟨owner, found, bound⟩ := h.owner_isSome role present
  obtain ⟨binding, there⟩ := Option.isSome_iff_exists.1 bound
  exact ⟨owner, binding, found, there⟩

theorem Scopes.Mirrors.lookup (h : m.scopes.Mirrors frames missing m.scope)
    (role : (frames.role? name.text).isSome = true) (present : missing ≠ some name.text) :
    ∃ value, Run.lookup name m = .ok value m := by
  obtain ⟨owner, binding, found, there⟩ := h.binding role present
  refine ⟨binding.value, ?_⟩
  simp only [Run.lookup, Scopes.get?, Scopes.find?, found, there, Option.bind_some, Option.map_some]

theorem Scopes.Mirrors.assign (h : m.scopes.Mirrors frames missing m.scope)
    (role : (frames.role? name.text).isSome = true) (present : missing ≠ some name.text)
    {value : Value} {why : Stop} {m' : Machine} (failed : Run.assign name value m = .error why m') :
    why = .fault (Run.assignFault name .immutable) := by
  obtain ⟨owner, binding, found, there⟩ := h.binding role present
  simp only [Run.assign, Scopes.target, found, there] at failed
  by_cases writable : binding.writable = true
  · simp only [writable, ↓reduceIte] at failed
    cases failed
  · simp only [writable, Bool.false_eq_true, ↓reduceIte] at failed
    cases failed
    rfl

end Resolution

theorem Moment.follows_of_mirrors {moment : Moment} {v : Visit}
    (h : moment.machine.scopes.Mirrors v.frames v.pending moment.machine.scope) :
    moment.Follows v where
  depth := h.depth_eq
  names _ _ at_ := h.level at_
  resolved name same role present := by
    rw [same]
    refine ⟨fun host n => ?_, fun host n value why m' failed => h.assign role present failed⟩
    obtain ⟨value, read⟩ := h.lookup role present
    refine ⟨value, ?_⟩
    show Run.locating name.span (Run.lookup name) moment.machine = .ok value moment.machine
    rw [Run.locating, read]

/-- **Scope simulation.** A program that was scanned and read without problems runs on a fresh
machine, with natives of a pure host (`Host`) and whatever the clock shows; watching the run changes
nothing and notes whenever an expression is entered. At every such moment the scopes follow the
frames with which the painting walk visited this expression: it is inside the expression of exactly
one visit, and gets its tags under the frames of that visit. -/
theorem scopes_simulated (mode : Mode) (text : String) (console : Console) (clock : Clock)
    (decls : List NativeDecl) (host : Host) (fuel : Nat)
    (clean : (Source.ofText mode text).diagnostics = []) :
    let p := (Source.ofText mode text).statements
    let run := watchProgram host fuel mode p
    run.run = interpret host fuel mode p ∧
    (∀ n e m, ⟨.value, e, m⟩ ∈ (Expr.watch host (n + 1) e).moments m) ∧
    ∀ moment ∈ run.moments (Session.fresh mode console clock decls host).machine,
      ∃ v ∈ programVisits p, v.expr.Part moment.expr ∧
        (∀ w ∈ programVisits p, w.expr.Part moment.expr → w = v) ∧
        moment.expr.tags v.frames <:+: nameTags p ∧ moment.Follows v := by
  intro p run
  refine ⟨watchProgram_run host fuel mode p, Expr.entered_value host, fun moment entered => ?_⟩
  have start := (Machine.stands_initial (programVisits p) console clock).registerAll decls
  have outside : ((Machine.initial console clock).registerAll decls).depth = 0 :=
    (Machine.sameStack_registerAll (.initial console clock) decls).depth
  have seen : Stmt.AllSeen (programVisits p) [Dict.empty] p :=
    ⟨fun v mem => mem, regular_of_clean clean⟩
  have safe := safe_watchProgram host fuel mode seen start outside
  obtain ⟨frames, missing, ⟨root, visited, part⟩, mirrors⟩ := safe.moments moment entered
  refine ⟨⟨root, frames, missing⟩, visited, part, ?_, ?_, ?_⟩
  · intro w mem shared
    exact visit_unique clean mem visited shared part
  · exact tags_infix_nameTags visited part
  · exact Moment.follows_of_mirrors mirrors

/-- A text whose last call reads a name two scopes further out. -/
def closureText : String := "var x; function f(y) \x7b \x7b return x; \x7d \x7d f(x);"

/-- The moments of its run. -/
def closureMoments : List Moment :=
  (watchProgram Host.none 20 .file (Source.ofText .file closureText).statements).moments
    (Session.fresh .file {} (.still 0) standardLibrary Host.none).machine

theorem closure_scopes_simulated :
    (Source.ofText .file closureText).diagnostics = [] ∧
    ∃ moment ∈ closureMoments, moment.expr = .ident ⟨"x", ⟨32, 33⟩⟩ ∧
      ∃ v ∈ programVisits (Source.ofText .file closureText).statements, moment.Follows v := by
  have clean : (Source.ofText .file closureText).diagnostics = [] := by decide +kernel
  have entered : closureMoments.map (·.expr) =
      [.call ⟨39, 43⟩ (.ident ⟨"f", ⟨39, 40⟩⟩) [.ident ⟨"x", ⟨41, 42⟩⟩], .ident ⟨"f", ⟨39, 40⟩⟩,
        .ident ⟨"x", ⟨41, 42⟩⟩, .ident ⟨"x", ⟨32, 33⟩⟩] := by cbv
  have inBody : Expr.ident ⟨"x", ⟨32, 33⟩⟩ ∈ closureMoments.map (·.expr) := by
    rw [entered]
    simp
  obtain ⟨moment, mem, same⟩ := List.mem_map.1 inBody
  obtain ⟨v, visited, -, -, -, follows⟩ :=
    (scopes_simulated .file closureText {} (.still 0) standardLibrary Host.none 20 clean).2.2 moment mem
  exact ⟨clean, moment, mem, same, v, visited, follows⟩

end Scriptlet
