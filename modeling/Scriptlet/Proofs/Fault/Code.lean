import Scriptlet.Proofs.Blind
import Scriptlet.Proofs.Paint.Tracked

/-!
# Where faults point

A fault may point at an expression, at the name of a field or of a superclass, or at a return: these
are the places of a program. As functions and classes outlive the text that declares them, a run may
also point into code that the machine has kept from earlier texts. `Run.PointsInto C P` says that
for a step: on a machine whose functions and classes have their places in `C`, it keeps them there,
and whatever place its fault has is in `P`.

Two facts about runs come out. Faults point into the program or into what earlier programs have
declared (`pointsInto_interpret`), and evaluation leaves no fault without a place, which is why no
run does (`located_interpret`).
-/

namespace Scriptlet

/-! ## Places of trees -/

mutual

/-- The spans of the expressions in an expression, and of the fields that they name. -/
def Expr.places : Expr → List Span
  | .literal span _ => [span]
  | .ident name => [name.span]
  | .group span inner => span :: inner.places
  | .array span elements => span :: Expr.placesAll elements
  | .unary span _ operand => span :: operand.places
  | .stepThenTake span _ operand => span :: operand.places
  | .takeThenStep span _ operand => span :: operand.places
  | .binary span _ left right => span :: (left.places ++ right.places)
  | .logical span _ left right => span :: (left.places ++ right.places)
  | .ternary span condition yes no => span :: (condition.places ++ (yes.places ++ no.places))
  | .assign span target value => span :: (target.places ++ value.places)
  | .index span target position => span :: (target.places ++ position.places)
  | .field span target name => span :: name.span :: target.places
  | .call span callee args => span :: (callee.places ++ Expr.placesAll args)

def Expr.placesAll : List Expr → List Span
  | [] => []
  | e :: rest => e.places ++ Expr.placesAll rest

end

theorem Expr.span_mem_places (e : Expr) : e.span ∈ e.places := by
  cases e <;> exact List.mem_cons_self

mutual

/-- The places in a statement: those of its expressions, the names of superclasses, and returns. -/
def Stmt.places : Stmt → List Span
  | .declare _ value _ => value.toList.flatMap Expr.places
  | .function decl => functionPlaces decl
  | .classDecl decl => classPlaces decl
  | .ret span value => span :: value.toList.flatMap Expr.places
  | .expr e => e.places
  | .block body => Stmt.placesAll body
  | .branch condition yes no => condition.places ++ (yes.places ++ Stmt.optionPlaces no)
  | .loop condition body => condition.places ++ body.places

def Stmt.placesAll : List Stmt → List Span
  | [] => []
  | s :: rest => s.places ++ Stmt.placesAll rest

def Stmt.optionPlaces : Option Stmt → List Span
  | none => []
  | some s => s.places

/-- The places in the body of a function. -/
def functionPlaces : FunctionDecl Stmt → List Span
  | ⟨_, _, body, _⟩ => Stmt.placesAll body

def methodsPlaces : List (FunctionDecl Stmt) → List Span
  | [] => []
  | decl :: rest => functionPlaces decl ++ methodsPlaces rest

def constructorPlaces : Option (FunctionDecl Stmt) → List Span
  | none => []
  | some decl => functionPlaces decl

def classPlaces : ClassDecl Stmt → List Span
  | ⟨_, superclass, fields, methods, constructor⟩ =>
    superclass.toList.map (·.span) ++ (fields.flatMap (·.value.places) ++
      (methodsPlaces methods ++ constructorPlaces constructor))

end

/-- The places in a program. -/
def programPlaces (p : List Stmt) : List Span := Stmt.placesAll p

/-- The places in the members of a class. -/
def ClassDecl.memberPlaces (decl : ClassDecl Stmt) : List Span :=
  decl.fields.flatMap (·.value.places) ++
    (methodsPlaces decl.methods ++ constructorPlaces decl.constructor)

theorem functionPlaces_eq (decl : FunctionDecl Stmt) :
    functionPlaces decl = Stmt.placesAll decl.body := by
  cases decl
  rfl

theorem classPlaces_eq (decl : ClassDecl Stmt) :
    classPlaces decl = decl.superclass.toList.map (·.span) ++ decl.memberPlaces := by
  cases decl
  rfl

mutual

/-- The places that a statement hands over to the functions and classes that it declares. -/
def Stmt.codePlaces : Stmt → List Span
  | .function decl => functionPlaces decl
  | .classDecl decl => decl.memberPlaces
  | .block body => Stmt.codePlacesAll body
  | .branch _ yes no => yes.codePlaces ++ Stmt.optionCodePlaces no
  | .loop _ body => body.codePlaces
  | .declare .. | .ret .. | .expr _ => []

def Stmt.codePlacesAll : List Stmt → List Span
  | [] => []
  | s :: rest => s.codePlaces ++ Stmt.codePlacesAll rest

def Stmt.optionCodePlaces : Option Stmt → List Span
  | none => []
  | some s => s.codePlaces

end

mutual

theorem Stmt.codePlaces_subset : ∀ s : Stmt, s.codePlaces ⊆ s.places
  | .function _ => List.Subset.refl _
  | .classDecl decl => by
    rw [Stmt.codePlaces, Stmt.places, classPlaces_eq]
    exact List.subset_append_right _ _
  | .block body => Stmt.codePlacesAll_subset body
  | .branch _ yes no => by
    have parts : yes.codePlaces ++ Stmt.optionCodePlaces no ⊆
        yes.places ++ Stmt.optionPlaces no := by
      refine List.append_subset.2 ⟨?_, ?_⟩
      · exact List.subset_append_of_subset_left _ yes.codePlaces_subset
      · exact List.subset_append_of_subset_right _ (Stmt.optionCodePlaces_subset no)
    exact List.subset_append_of_subset_right _ parts
  | .loop _ body => List.subset_append_of_subset_right _ body.codePlaces_subset
  | .declare .. | .ret .. | .expr _ => List.nil_subset _

theorem Stmt.codePlacesAll_subset : ∀ ss : List Stmt, Stmt.codePlacesAll ss ⊆ Stmt.placesAll ss
  | [] => List.nil_subset _
  | s :: rest => by
    refine List.append_subset.2 ⟨?_, ?_⟩
    · exact List.subset_append_of_subset_left _ s.codePlaces_subset
    · exact List.subset_append_of_subset_right _ (Stmt.codePlacesAll_subset rest)

theorem Stmt.optionCodePlaces_subset : ∀ s : Option Stmt,
    Stmt.optionCodePlaces s ⊆ Stmt.optionPlaces s
  | none => List.nil_subset _
  | some s => s.codePlaces_subset

end

/-! ## Code in the heap -/

/-- All functions and classes that the heap holds have their places in `C`. -/
structure Heap.CodeIn (C : Span → Prop) (h : Heap) : Prop where
  functions : ∀ id decl home, h.function id = .user decl home → ∀ s ∈ functionPlaces decl, C s
  classes : ∀ id, ∀ s ∈ (h.classRecord id).decl.memberPlaces, C s

namespace Heap.CodeIn

variable {C : Span → Prop} {h h' : Heap}

theorem congr (code : h.CodeIn C) (functions : h'.functions = h.functions)
    (classes : h'.classes = h.classes) : h'.CodeIn C where
  functions id decl home found := by
    rw [Heap.function, functions] at found
    exact code.functions id decl home found
  classes id := by
    rw [Heap.classRecord, classes]
    exact code.classes id

theorem addFunction (code : h.CodeIn C) {r : Routine}
    (new : ∀ decl home, r = .user decl home → ∀ s ∈ functionPlaces decl, C s) :
    (h.addFunction r).2.CodeIn C where
  functions id decl home found := by
    rw [Heap.function_addFunction] at found
    by_cases same : id = (h.addFunction r).1
    · rw [if_pos same] at found
      exact new decl home found
    · rw [if_neg same] at found
      exact code.functions id decl home found
  classes := code.classes

theorem addClass (code : h.CodeIn C) {record : ClassRecord}
    (new : ∀ s ∈ record.decl.memberPlaces, C s) : (h.addClass record).2.CodeIn C where
  functions := code.functions
  classes id := by
    rw [Heap.classRecord_addClass]
    by_cases same : id = (h.addClass record).1
    · rw [if_pos same]
      exact new
    · rw [if_neg same]
      exact code.classes id

theorem mono {C' : Span → Prop} (code : h.CodeIn C) (wider : ∀ s, C s → C' s) : h.CodeIn C' where
  functions id decl home found s mem := wider s (code.functions id decl home found s mem)
  classes id s mem := wider s (code.classes id s mem)

theorem write (code : h.CodeIn C) (place : Place) (value : Value) :
    (h.write place value).CodeIn C := by
  cases place <;> exact code.congr rfl rfl

end Heap.CodeIn

theorem Heap.codeIn_empty (C : Span → Prop) : Heap.empty.CodeIn C where
  functions := nofun
  classes := nofun

/-- Natives bring no code. -/
theorem Machine.codeIn_registerAll {C : Span → Prop} {m : Machine} (code : m.heap.CodeIn C)
    (decls : List NativeDecl) : (m.registerAll decls).heap.CodeIn C := by
  induction decls generalizing m with
  | nil => exact code
  | cons decl rest ih =>
    have registered : (m.register decl).heap.CodeIn C := code.addFunction nofun
    exact ih registered

/-! ## Steps -/

/-- On a machine with code in `C`, a step keeps the code there, and its fault points into `P`. -/
structure Run.PointsInto {α : Type} (C P : Span → Prop) (r : Run α) : Prop where
  code : ∀ m, m.heap.CodeIn C → (r.after m).heap.CodeIn C
  fault : ∀ m, m.heap.CodeIn C → ∀ f m', r m = .error (.fault f) m' → ∀ s, f.span = some s → P s

namespace Run

variable {α β : Type} {C P : Span → Prop} {r : Run α}

theorem PointsInto.bind {k : α → Run β} (hr : r.PointsInto C P)
    (hk : ∀ a, (k a).PointsInto C P) : (r >>= k).PointsInto C P where
  code m code := by
    have kept := hr.code m code
    cases hrm : r m with
    | ok a m' =>
      rw [after_eq_of_ok hrm] at kept
      rw [after_bind_of_ok hrm]
      exact (hk a).code m' kept
    | error why m' =>
      rw [after_eq_of_error hrm] at kept
      rw [after_bind_of_error hrm]
      exact kept
  fault m code f m' stopped := by
    have kept := hr.code m code
    cases hrm : r m with
    | ok a m₁ =>
      rw [after_eq_of_ok hrm] at kept
      rw [bind_of_ok hrm] at stopped
      exact (hk a).fault m₁ kept f m' stopped
    | error why m₁ =>
      rw [bind_of_error hrm] at stopped
      cases stopped
      exact hr.fault m code f m' hrm

/-- A step that goes on with what it finds in a machine. -/
theorem PointsInto.get_bind {k : Machine → Run β}
    (hk : ∀ m, m.heap.CodeIn C → (k m).PointsInto C P) : (get >>= k).PointsInto C P where
  code m code := (hk m code).code m code
  fault m code := (hk m code).fault m code

/-- A step that ends with a value. -/
theorem pointsInto_of_ok (h : ∀ m, ∃ a m', r m = .ok a m' ∧
    m'.heap.functions = m.heap.functions ∧ m'.heap.classes = m.heap.classes) :
    r.PointsInto C P where
  code m code := by
    obtain ⟨a, m', ok, functions, classes⟩ := h m
    rw [after_eq_of_ok ok]
    exact code.congr functions classes
  fault m _ f m' stopped := by
    obtain ⟨a, m₁, ok, -⟩ := h m
    rw [ok] at stopped
    cases stopped

theorem pointsInto_pure (a : α) : (pure a : Run α).PointsInto C P :=
  pointsInto_of_ok fun m => ⟨a, m, rfl, rfl, rfl⟩

theorem pointsInto_fault {f : Fault} (there : ∀ s, f.span = some s → P s) :
    (fault f : Run α).PointsInto C P where
  code _ code := code
  fault m _ f' m' stopped := by
    cases stopped
    exact there

/-- A fault without a place. -/
theorem pointsInto_cause (cause : FaultCause) : (fault cause : Run α).PointsInto C P :=
  pointsInto_fault fun _ same => absurd same (Option.some_ne_none _).symm

theorem pointsInto_outOfFuel : (stop .outOfFuel : Run α).PointsInto C P where
  code _ code := code
  fault _ _ _ _ stopped := by cases stopped

theorem pointsInto_onHeap {g : Heap → Except Fault α} (unplaced : ∀ h, Unplaced (g h)) :
    (onHeap g).PointsInto C P where
  code m code := by
    unfold after onHeap
    cases g m.heap <;> exact code
  fault m _ f m' stopped s at_ := by
    unfold onHeap at stopped
    cases h : g m.heap with
    | ok a =>
      rw [h] at stopped
      cases stopped
    | error e =>
      rw [h] at stopped
      cases stopped
      rw [unplaced m.heap f h] at at_
      cases at_

theorem pointsInto_write (place : Place) (value : Value) :
    (write place value).PointsInto C P where
  code _ code := code.write place value
  fault _ _ _ _ stopped := by cases stopped

theorem pointsInto_addArray (items : Array Value) :
    (allocate (·.addArray items)).PointsInto C P :=
  pointsInto_of_ok fun _ => ⟨_, _, rfl, rfl, rfl⟩

theorem pointsInto_addObject (object : ObjectRecord) :
    (allocate (·.addObject object)).PointsInto C P :=
  pointsInto_of_ok fun _ => ⟨_, _, rfl, rfl, rfl⟩

theorem pointsInto_addFunction {routine : Routine}
    (new : ∀ decl home, routine = .user decl home → ∀ s ∈ functionPlaces decl, C s) :
    (allocate (·.addFunction routine)).PointsInto C P where
  code _ code := code.addFunction new
  fault _ _ _ _ stopped := by cases stopped

theorem pointsInto_newScope (parent : ScopeId) : (newScope parent).PointsInto C P :=
  pointsInto_of_ok fun _ => ⟨_, _, rfl, rfl, rfl⟩

theorem pointsInto_define (id : ScopeId) (name : String) (value : Value) (writable : Bool) :
    (define id name value writable).PointsInto C P :=
  pointsInto_of_ok fun _ => ⟨_, _, rfl, rfl, rfl⟩

theorem pointsInto_print (text : String) : (print text).PointsInto C P :=
  pointsInto_of_ok fun _ => ⟨_, _, rfl, rfl, rfl⟩

theorem pointsInto_checkArity (expected got : Nat) : (checkArity expected got).PointsInto C P := by
  unfold checkArity
  split
  · exact pointsInto_pure ()
  · exact pointsInto_cause _

theorem pointsInto_lookup {name : Name} (there : P name.span) : (lookup name).PointsInto C P where
  code m code := by
    unfold after lookup
    cases m.scopes.get? m.scope name.text <;> exact code
  fault m _ f m' stopped s at_ := by
    unfold lookup at stopped
    split at stopped <;> cases stopped
    cases at_
    exact there

theorem pointsInto_assign {name : Name} (there : P name.span) (value : Value) :
    (Run.assign name value).PointsInto C P where
  code m code := by
    unfold after Run.assign
    cases m.scopes.target m.scope name.text <;> exact code
  fault m _ f m' stopped s at_ := by
    unfold Run.assign at stopped
    split at stopped <;> cases stopped
    cases at_
    exact there

theorem PointsInto.locating {span : Span} (h : r.PointsInto C P) (there : P span) :
    (locating span r).PointsInto C P where
  code m code := by
    rw [after_locating]
    exact h.code m code
  fault m code f m' stopped s at_ := by
    unfold Run.locating at stopped
    cases hr : r m with
    | ok a m₁ =>
      rw [hr] at stopped
      cases stopped
    | error why m₁ =>
      rw [hr] at stopped
      cases why with
      | fault e =>
        cases stopped
        -- only a fault without a place gets that of the expression
        cases place : e.span with
        | some t =>
          rw [e.orSpan_eq_self place] at at_
          exact h.fault m code e m' hr s at_
        | none =>
          simp only [Fault.orSpan, place, Option.getD_none, Option.some.injEq] at at_
          exact at_ ▸ there
      | outOfFuel | awaitingInput | awaitingTime => cases stopped

theorem PointsInto.within (h : r.PointsInto C P) (scope : ScopeId) :
    (within scope r).PointsInto C P where
  code m code := by
    rw [after_within]
    exact h.code { m with scope } code
  fault m code f m' stopped := by
    unfold Run.within at stopped
    cases hr : r { m with scope } <;> rw [hr] at stopped <;> cases stopped
    exact h.fault { m with scope } code f _ hr

theorem PointsInto.deeper (h : r.PointsInto C P) : (deeper r).PointsInto C P where
  code m code := by
    rw [after_deeper]
    exact h.code { m with depth := m.depth + 1 } code
  fault m code f m' stopped := by
    unfold Run.deeper at stopped
    cases hr : r { m with depth := m.depth + 1 } <;> rw [hr] at stopped <;> cases stopped
    exact h.fault { m with depth := m.depth + 1 } code f _ hr

theorem pointsInto_bindArguments (scope : ScopeId) (params : List Name) (args : List Value) :
    (bindArguments scope params args).PointsInto C P := by
  induction params generalizing args with
  | nil => exact pointsInto_pure ()
  | cons param params ih =>
    cases args with
    | nil => exact pointsInto_pure ()
    | cons arg args => exact (pointsInto_define _ _ _ _).bind fun _ => ih args

theorem pointsInto_bindInherited (scope : ScopeId) (parentName : String) (bound : BoundClass) :
    (bindInherited scope parentName bound).PointsInto C P := by
  unfold bindInherited
  refine (pointsInto_addObject _).bind fun base => (pointsInto_define _ _ _ _).bind fun _ => ?_
  cases bound.constructor with
  | some id => exact (pointsInto_pure id).bind fun _ => pointsInto_define _ _ _ _
  | none => exact (pointsInto_addFunction nofun).bind fun _ => pointsInto_define _ _ _ _

/-- A function of the program, made by a declaration or by binding a class. -/
theorem pointsInto_addDeclared {decl : FunctionDecl Stmt} (code : ∀ s ∈ functionPlaces decl, C s)
    (home : ScopeId) : (allocate (·.addFunction (.user decl home))).PointsInto C P := by
  refine pointsInto_addFunction fun decl' home' same => ?_
  cases same
  exact code

theorem pointsInto_bindMethods (object : ObjectId) (scope : ScopeId)
    {decls : List (FunctionDecl Stmt)} (code : ∀ s ∈ methodsPlaces decls, C s)
    (methods : Dict Value) : (bindMethods object scope decls methods).PointsInto C P := by
  induction decls generalizing methods with
  | nil => exact pointsInto_pure methods
  | cons decl rest ih =>
    obtain ⟨first, others⟩ := List.forall_mem_append.1 code
    refine (pointsInto_addDeclared first scope).bind fun id => ?_
    exact (pointsInto_write _ _).bind fun _ => ih others _

theorem pointsInto_declareFunction {decl : FunctionDecl Stmt}
    (code : ∀ s ∈ functionPlaces decl, C s) : (declareFunction decl).PointsInto C P := by
  refine .get_bind fun m _ => ?_
  exact (pointsInto_addDeclared code m.scope).bind fun _ => pointsInto_define _ _ _ _

theorem pointsInto_superclass {name : Name} (there : P name.span) :
    (superclass name).PointsInto C P where
  code m code := by
    have same : (superclass name).after m = m := by
      unfold after superclass
      split <;> rename_i h <;> split at h <;> cases h <;> rfl
    rw [same]
    exact code
  fault m _ f m' stopped s at_ := by
    unfold superclass at stopped
    split at stopped <;> cases stopped <;> cases at_ <;> exact there

theorem pointsInto_declareClass {decl : ClassDecl Stmt}
    (named : ∀ s ∈ decl.superclass.toList.map (·.span), P s)
    (code : ∀ s ∈ decl.memberPlaces, C s) : (declareClass decl).PointsInto C P := by
  have declared (parent : Option ClassId) : Run.PointsInto C P (do
      let here := (← get).scope
      let id ← allocate (·.addClass ⟨decl, here, parent⟩)
      define here decl.name.text (.cls id) true) := by
    refine .get_bind fun m _ => PointsInto.bind ?_ fun _ => pointsInto_define _ _ _ _
    exact ⟨fun _ kept => kept.addClass code, fun _ _ _ _ stopped => by cases stopped⟩
  unfold declareClass
  cases found : decl.superclass with
  | none => exact (pointsInto_pure none).bind declared
  | some name =>
    rw [found] at named
    have there : P name.span := named _ (List.mem_singleton_self _)
    have looked := (pointsInto_superclass there).bind
      fun id => pointsInto_pure (C := C) (P := P) (some id)
    exact looked.bind declared

end Run

/-- A host that gives its faults no places: it does not know the program. -/
def Host.Unplaced (host : Host) : Prop := ∀ key args h, Scriptlet.Unplaced (host key args h)

theorem Host.unplaced_none : Host.none.Unplaced := fun _ _ _ => .ok _

open Run

theorem Run.pointsInto_native {C P : Span → Prop} {host : Host} (unplaced : host.Unplaced)
    (action : NativeAction) (args : List Value) :
    (Native.call host action args).PointsInto C P := by
  have printed : (Native.print args).PointsInto C P := by
    refine pointsInto_of_ok fun m => ?_
    cases args with
    | nil => exact ⟨(), m, rfl, rfl, rfl⟩
    | cons v rest => exact ⟨(), _, rfl, rfl, rfl⟩
  have read : Native.readLine.PointsInto C P := by
    constructor
    · intro m code
      unfold after Native.readLine
      obtain ⟨answer, console⟩ := m.console.readLine
      cases answer <;> exact code
    · intro m _ f m' stopped
      unfold Native.readLine at stopped
      split at stopped <;> cases stopped
  have reading : readClock.PointsInto C P := by
    constructor
    · intro m code
      unfold after readClock
      obtain ⟨reading, clock⟩ := m.clock.read
      cases reading <;> exact code
    · intro m _ f m' stopped
      unfold readClock at stopped
      split at stopped <;> cases stopped
  unfold Native.call
  cases action with
  | print => exact printed.bind fun _ => pointsInto_pure _
  | readLine => exact printed.bind fun _ => read
  | clock => exact reading.bind fun seconds => pointsInto_onHeap fun _ => unplaced_time seconds
  | character => exact pointsInto_onHeap fun h => h.unplaced_character args
  | nothing => exact pointsInto_pure _
  | host key =>
    refine (pointsInto_onHeap fun h => unplaced key args h).bind fun reply => ?_
    cases reply with
    | value v => exact pointsInto_pure v
    | array items => exact (pointsInto_addArray _).bind fun _ => pointsInto_pure _

/-! ## The evaluator -/

/-- Every function of the evaluator points into `P`, with a given fuel. -/
structure Points (C P : Span → Prop) (host : Host) (n : Nat) : Prop where
  eval : ∀ e, (∀ s ∈ e.places, P s) → (Expr.eval host n e).PointsInto C P
  evalAll : ∀ es, (∀ s ∈ Expr.placesAll es, P s) → (Expr.evalAll host n es).PointsInto C P
  store : ∀ target value, (∀ s ∈ target.places, P s) →
    (Expr.store host n target value).PointsInto C P
  step : ∀ op target, (∀ s ∈ target.places, P s) → (Expr.step host n op target).PointsInto C P
  callValue : ∀ callee args, (callValue host n callee args).PointsInto C P
  callFunction : ∀ id args, (callFunction host n id args).PointsInto C P
  instantiate : ∀ id args, (instantiate host n id args).PointsInto C P
  bindClass : ∀ id object, (bindClass host n id object).PointsInto C P
  initFields : ∀ object fields, (∀ s ∈ fields.flatMap (·.value.places), P s) →
    (initFields host n object fields).PointsInto C P
  exec : ∀ st, (∀ s ∈ st.places, P s) → (∀ s ∈ st.codePlaces, C s) →
    (Stmt.exec host n st).PointsInto C P
  execAll : ∀ ss, (∀ s ∈ Stmt.placesAll ss, P s) → (∀ s ∈ Stmt.codePlacesAll ss, C s) →
    (Stmt.execAll host n ss).PointsInto C P
  execLoop : ∀ condition body, (∀ s ∈ condition.places, P s) → (∀ s ∈ body.places, P s) →
    (∀ s ∈ body.codePlaces, C s) → (Stmt.execLoop host n condition body).PointsInto C P

section Evaluator

variable {C P : Span → Prop} {host : Host} {n : Nat}

theorem points_zero : Points C P host 0 := by
  constructor <;> intros <;> exact pointsInto_outOfFuel

theorem Points.eval_succ (ih : Points C P host n) (e : Expr) (there : ∀ s ∈ e.places, P s) :
    (Expr.eval host (n + 1) e).PointsInto C P := by
  unfold Expr.eval
  refine PointsInto.locating ?_ (there _ e.span_mem_places)
  cases e <;> simp only [Expr.places, List.forall_mem_cons, List.forall_mem_append] at there
  case literal => exact pointsInto_pure _
  case ident name => exact pointsInto_lookup there.1
  case group inner => exact ih.eval inner there.2
  case array elements =>
    refine (ih.evalAll elements there.2).bind fun items => ?_
    exact (pointsInto_addArray _).bind fun _ => pointsInto_pure _
  case unary op operand =>
    exact (ih.eval operand there.2).bind fun v => pointsInto_onHeap fun h => h.unplaced_unary op v
  case stepThenTake op operand =>
    exact (ih.step op operand there.2).bind fun _ => pointsInto_pure _
  case takeThenStep op operand =>
    exact (ih.step op operand there.2).bind fun _ => pointsInto_pure _
  case binary op left right =>
    obtain ⟨-, inLeft, inRight⟩ := there
    refine (ih.eval left inLeft).bind fun a => (ih.eval right inRight).bind fun b => ?_
    exact pointsInto_onHeap fun h => h.unplaced_binary op a b
  case logical op left right =>
    obtain ⟨-, inLeft, inRight⟩ := there
    refine (ih.eval left inLeft).bind fun a => .get_bind fun m _ => ?_
    split
    · exact pointsInto_pure _
    · exact (ih.eval right inRight).bind fun _ => .get_bind fun _ _ => pointsInto_pure _
  case ternary condition yes no =>
    obtain ⟨-, inCondition, inYes, inNo⟩ := there
    refine (ih.eval condition inCondition).bind fun v => .get_bind fun m _ => ?_
    split
    · exact ih.eval yes inYes
    · exact ih.eval no inNo
  case assign target value =>
    obtain ⟨-, inTarget, inValue⟩ := there
    refine (ih.eval value inValue).bind fun v => ?_
    exact (ih.store target v inTarget).bind fun _ => pointsInto_pure v
  case index target position =>
    obtain ⟨-, inTarget, inPosition⟩ := there
    refine (ih.eval target inTarget).bind fun t => (ih.eval position inPosition).bind fun i => ?_
    exact pointsInto_onHeap fun h => h.unplaced_indexGet t i
  case field target name =>
    obtain ⟨-, named, inTarget⟩ := there
    refine (ih.eval target inTarget).bind fun t => PointsInto.locating ?_ named
    exact pointsInto_onHeap fun h => h.unplaced_fieldGet t name.text
  case call callee args =>
    obtain ⟨-, inCallee, inArgs⟩ := there
    refine (ih.eval callee inCallee).bind fun f => (ih.evalAll args inArgs).bind fun values => ?_
    split
    · exact ih.callValue f values
    · refine pointsInto_fault fun s same => ?_
      cases same
      exact inCallee _ callee.span_mem_places

theorem Points.evalAll_succ (ih : Points C P host n) (es : List Expr)
    (there : ∀ s ∈ Expr.placesAll es, P s) : (Expr.evalAll host (n + 1) es).PointsInto C P := by
  cases es with
  | nil => exact pointsInto_pure []
  | cons e rest =>
    obtain ⟨first, others⟩ := List.forall_mem_append.1 there
    refine (ih.eval e first).bind fun _ => ?_
    exact (ih.evalAll rest others).bind fun _ => pointsInto_pure _

theorem Points.store_succ (ih : Points C P host n) (target : Expr) (value : Value)
    (there : ∀ s ∈ target.places, P s) :
    (Expr.store host (n + 1) target value).PointsInto C P := by
  have own := there _ target.span_mem_places
  unfold Expr.store
  cases target <;> simp only [Expr.places, List.forall_mem_cons, List.forall_mem_append] at there
  case ident name => exact pointsInto_assign own value
  case index target position =>
    obtain ⟨-, inTarget, inPosition⟩ := there
    refine (ih.eval target inTarget).bind fun t => (ih.eval position inPosition).bind fun i => ?_
    exact (pointsInto_onHeap fun h => h.unplaced_itemPlace t i).bind fun _ => pointsInto_write _ _
  case field target name =>
    obtain ⟨-, named, inTarget⟩ := there
    refine (ih.eval target inTarget).bind fun t => PointsInto.bind ?_ fun _ => pointsInto_write _ _
    exact (pointsInto_onHeap fun _ => Heap.unplaced_fieldPlace t name.text).locating named
  -- nothing else can be assigned to, and the fault has the place of the target
  all_goals
    refine pointsInto_fault fun s same => ?_
    cases same
    exact own

theorem Points.step_succ (ih : Points C P host n) (op : StepOp) (target : Expr)
    (there : ∀ s ∈ target.places, P s) : (Expr.step host (n + 1) op target).PointsInto C P := by
  unfold Expr.step
  split
  · refine (ih.eval target there).bind fun v => ?_
    refine (pointsInto_onHeap fun h => h.unplaced_toNumber v).bind fun _ => ?_
    exact (ih.store target _ there).bind fun _ => pointsInto_pure _
  · exact pointsInto_cause _

theorem Points.callValue_succ (ih : Points C P host n) (callee : Value) (args : List Value) :
    (Scriptlet.callValue host (n + 1) callee args).PointsInto C P := by
  unfold Scriptlet.callValue
  split
  · exact ih.callFunction _ args
  · exact ih.instantiate _ args
  · exact pointsInto_cause _

/-- The body of a function that the heap holds has its places in `C`. -/
theorem Points.callFunction_succ (ih : Points C P host n) (wider : ∀ s, C s → P s)
    (unplaced : host.Unplaced) (id : FunctionId) (args : List Value) :
    (Scriptlet.callFunction host (n + 1) id args).PointsInto C P := by
  unfold Scriptlet.callFunction
  refine .get_bind fun m code => ?_
  cases found : m.heap.function id with
  | native name arity action =>
    exact (pointsInto_checkArity arity args.length).bind
      fun _ => pointsInto_native unplaced action args
  | user decl home =>
    have kept := code.functions id decl home found
    rw [functionPlaces_eq] at kept
    -- the statements are not those of the text that runs: all that is known is that they are kept
    have body := ih.execAll decl.body (fun s mem => wider s (kept s mem))
      fun s mem => kept s (Stmt.codePlacesAll_subset _ mem)
    refine (pointsInto_checkArity decl.arity args.length).bind fun _ => ?_
    refine (pointsInto_newScope home).bind fun scope => ?_
    refine (pointsInto_bindArguments _ _ _).bind fun _ => ?_
    refine (body.deeper.within scope).bind fun flow => ?_
    cases flow <;> exact pointsInto_pure _

theorem Points.instantiate_succ (ih : Points C P host n) (id : ClassId) (args : List Value) :
    (Scriptlet.instantiate host (n + 1) id args).PointsInto C P := by
  unfold Scriptlet.instantiate
  refine .get_bind fun m _ => (pointsInto_checkArity _ _).bind fun _ => ?_
  refine (pointsInto_addObject _).bind fun object => (ih.bindClass id object).bind fun bound => ?_
  cases bound.constructor with
  | none => exact pointsInto_pure _
  | some constructor => exact (ih.callFunction constructor args).bind fun _ => pointsInto_pure _

theorem Points.members (ih : Points C P host n) (wider : ∀ s, C s → P s) (object : ObjectId)
    (scope : ScopeId) {decl : ClassDecl Stmt} (code : ∀ s ∈ decl.memberPlaces, C s)
    (inherited : Dict Value) : (bindMembers host n object scope decl inherited).PointsInto C P := by
  simp only [ClassDecl.memberPlaces, List.forall_mem_append] at code
  obtain ⟨fields, methods, constructor⟩ := code
  have initialized := ih.initFields object decl.fields fun s mem => wider s (fields s mem)
  refine (initialized.within scope).bind fun _ => ?_
  refine (pointsInto_bindMethods _ _ methods _).bind fun table => ?_
  cases declared : decl.constructor with
  | none => exact (pointsInto_pure none).bind fun _ => pointsInto_pure _
  | some method =>
    rw [declared] at constructor
    refine PointsInto.bind ?_ fun _ => pointsInto_pure _
    exact (pointsInto_addDeclared constructor scope).bind fun id => pointsInto_pure (some id)

theorem Points.bindClass_succ (ih : Points C P host n) (wider : ∀ s, C s → P s) (id : ClassId)
    (object : ObjectId) : (Scriptlet.bindClass host (n + 1) id object).PointsInto C P := by
  unfold Scriptlet.bindClass
  refine .get_bind fun m code => (pointsInto_newScope _).bind fun scope => ?_
  refine (pointsInto_define _ _ _ _).bind fun _ => ?_
  have members := ih.members wider object scope (code.classes id)
  cases (m.heap.classRecord id).superclass with
  | none => exact (pointsInto_pure _).bind members
  | some parent =>
    refine (ih.bindClass parent object).bind fun bound => .get_bind fun m' _ => ?_
    refine (pointsInto_bindInherited _ _ _).bind fun _ => ?_
    exact (pointsInto_pure _).bind members

theorem Points.initFields_succ (ih : Points C P host n) (object : ObjectId)
    (fields : List FieldDecl) (there : ∀ s ∈ fields.flatMap (·.value.places), P s) :
    (Scriptlet.initFields host (n + 1) object fields).PointsInto C P := by
  cases fields with
  | nil => exact pointsInto_pure ()
  | cons field rest =>
    rw [List.flatMap_cons] at there
    obtain ⟨first, others⟩ := List.forall_mem_append.1 there
    unfold Scriptlet.initFields
    refine (ih.eval field.value first).bind fun _ => ?_
    exact (pointsInto_write _ _).bind fun _ => ih.initFields object rest others

/-- An optional value of a statement. -/
theorem Points.value (ih : Points C P host n) (value : Option Expr)
    (there : ∀ s ∈ value.toList.flatMap Expr.places, P s) {k : Value → Run Flow}
    (hk : ∀ v, (k v).PointsInto C P) :
    (do
      let v ← match value with
        | some e => Expr.eval host n e
        | none => pure .null
      k v).PointsInto C P := by
  cases value with
  | none => exact (pointsInto_pure _).bind hk
  | some e =>
    have inside : ∀ s ∈ e.places, P s := fun s mem => there s (by simpa using mem)
    exact (ih.eval e inside).bind hk

theorem Points.exec_succ (ih : Points C P host n) (st : Stmt) (there : ∀ s ∈ st.places, P s)
    (code : ∀ s ∈ st.codePlaces, C s) : (Stmt.exec host (n + 1) st).PointsInto C P := by
  unfold Stmt.exec
  cases st with
  | declare name value constant =>
    refine ih.value value there fun v => .get_bind fun m _ => ?_
    exact (pointsInto_define _ _ _ _).bind fun _ => pointsInto_pure _
  | function decl =>
    exact (pointsInto_declareFunction code).bind fun _ => pointsInto_pure _
  | classDecl decl =>
    rw [Stmt.places, classPlaces_eq] at there
    have named := (List.forall_mem_append.1 there).1
    exact (pointsInto_declareClass named code).bind fun _ => pointsInto_pure _
  | ret span value =>
    obtain ⟨own, inside⟩ := List.forall_mem_cons.1 there
    refine .get_bind fun m _ => ?_
    split
    · refine pointsInto_fault fun s same => ?_
      cases same
      exact own
    · exact ih.value value inside fun v => pointsInto_pure _
  | expr e => exact (ih.eval e there).bind fun _ => pointsInto_pure _
  | block body =>
    refine .get_bind fun m _ => (pointsInto_newScope _).bind fun scope => ?_
    exact (ih.execAll body there code).within scope
  | branch condition yes no =>
    simp only [Stmt.places, Stmt.codePlaces, List.forall_mem_append] at there code
    obtain ⟨inCondition, inYes, inNo⟩ := there
    refine (ih.eval condition inCondition).bind fun v => .get_bind fun m _ => ?_
    split
    · exact ih.exec yes inYes code.1
    · cases no with
      | none => exact pointsInto_pure _
      | some no => exact ih.exec no inNo code.2
  | loop condition body =>
    obtain ⟨inCondition, inBody⟩ := List.forall_mem_append.1 there
    exact ih.execLoop condition body inCondition inBody code

theorem Points.execAll_succ (ih : Points C P host n) (ss : List Stmt)
    (there : ∀ s ∈ Stmt.placesAll ss, P s) (code : ∀ s ∈ Stmt.codePlacesAll ss, C s) :
    (Stmt.execAll host (n + 1) ss).PointsInto C P := by
  cases ss with
  | nil => exact pointsInto_pure _
  | cons st rest =>
    obtain ⟨first, others⟩ := List.forall_mem_append.1 there
    obtain ⟨firstCode, otherCode⟩ := List.forall_mem_append.1 code
    unfold Stmt.execAll
    refine (ih.exec st first firstCode).bind fun flow => ?_
    cases flow with
    | returned v => exact pointsInto_pure _
    | next => exact ih.execAll rest others otherCode

theorem Points.execLoop_succ (ih : Points C P host n) (condition : Expr) (body : Stmt)
    (inCondition : ∀ s ∈ condition.places, P s) (inBody : ∀ s ∈ body.places, P s)
    (code : ∀ s ∈ body.codePlaces, C s) :
    (Stmt.execLoop host (n + 1) condition body).PointsInto C P := by
  unfold Stmt.execLoop
  refine (ih.eval condition inCondition).bind fun v => .get_bind fun m _ => ?_
  split
  · refine (ih.exec body inBody code).bind fun flow => ?_
    cases flow with
    | returned v => exact pointsInto_pure _
    | next => exact ih.execLoop condition body inCondition inBody code
  · exact pointsInto_pure _

/-- **Faults point into the program or into kept code**, as long as the heap keeps no other code
than that in `C`. The induction is on the fuel; the bodies of functions are found in the heap. -/
theorem points (wider : ∀ s, C s → P s) (unplaced : host.Unplaced) (n : Nat) :
    Points C P host n := by
  induction n with
  | zero => exact points_zero
  | succ n ih =>
    exact ⟨ih.eval_succ, ih.evalAll_succ, ih.store_succ, ih.step_succ, ih.callValue_succ,
      ih.callFunction_succ wider unplaced, ih.instantiate_succ, ih.bindClass_succ wider,
      ih.initFields_succ, ih.exec_succ, ih.execAll_succ, ih.execLoop_succ⟩

theorem pointsInto_interpret (wider : ∀ s, C s → P s) (unplaced : host.Unplaced) (fuel : Nat)
    (mode : Mode) {p : List Stmt} (there : ∀ s ∈ programPlaces p, P s)
    (code : ∀ s ∈ Stmt.codePlacesAll p, C s) : (interpret host fuel mode p).PointsInto C P := by
  have parts := points wider unplaced fuel
  refine interpret_induction (motive := fun p run => (∀ s ∈ programPlaces p, P s) →
    (∀ s ∈ Stmt.codePlacesAll p, C s) → run.PointsInto C P) ?nil ?executed ?shown p there code
  case nil => exact fun _ _ => pointsInto_pure ()
  case executed =>
    intro st rest ih there code
    obtain ⟨first, others⟩ := List.forall_mem_append.1 there
    obtain ⟨firstCode, otherCode⟩ := List.forall_mem_append.1 code
    exact (parts.exec st first firstCode).bind fun _ => ih others otherCode
  case shown =>
    intro e rest ih there code
    obtain ⟨first, others⟩ := List.forall_mem_append.1 there
    have next := ih others (List.forall_mem_append.1 code).2
    refine (parts.eval e first).bind fun v => ?_
    split
    · exact .get_bind fun m _ => (pointsInto_print _).bind fun _ => next
    · exact next

end Evaluator

/-! ## Faults have places -/

/-- A step whose faults have places. -/
def Run.Located {α : Type} (r : Run α) : Prop :=
  ∀ m f m', r m = .error (.fault f) m' → ∃ s, f.span = some s

namespace Run

variable {α β : Type} {r : Run α}

theorem Located.bind {k : α → Run β} (hr : r.Located) (hk : ∀ a, (k a).Located) :
    (r >>= k).Located := by
  intro m f m' stopped
  cases hrm : r m with
  | ok a m₁ =>
    rw [bind_of_ok hrm] at stopped
    exact hk a m₁ f m' stopped
  | error why m₁ =>
    rw [bind_of_error hrm] at stopped
    cases stopped
    exact hr m f m' hrm

/-- A step without faults. -/
theorem located_of_ok (h : ∀ m, ∃ a m', r m = .ok a m') : r.Located := by
  intro m f m' stopped
  obtain ⟨a, m₁, ok⟩ := h m
  rw [ok] at stopped
  cases stopped

theorem located_pure (a : α) : (pure a : Run α).Located := located_of_ok fun m => ⟨a, m, rfl⟩

theorem located_get : (get : Run Machine).Located := located_of_ok fun m => ⟨m, m, rfl⟩

theorem located_outOfFuel : (stop .outOfFuel : Run α).Located := by
  intro m f m' stopped
  cases stopped

/-- What is located has a place. -/
theorem located_locating (span : Span) (r : Run α) : (locating span r).Located := by
  intro m f m' stopped
  unfold locating at stopped
  cases hr : r m with
  | ok a m₁ =>
    rw [hr] at stopped
    cases stopped
  | error why m₁ =>
    rw [hr] at stopped
    cases why <;> cases stopped
    exact ⟨_, rfl⟩

theorem Located.within (h : r.Located) (scope : ScopeId) : (within scope r).Located := by
  intro m f m' stopped
  unfold Run.within at stopped
  cases hr : r { m with scope } <;> rw [hr] at stopped <;> cases stopped
  exact h _ f _ hr

theorem located_declareClass (decl : ClassDecl Stmt) : (declareClass decl).Located := by
  have declared (parent : Option ClassId) : Located (do
      let here := (← get).scope
      let id ← allocate (·.addClass ⟨decl, here, parent⟩)
      define here decl.name.text (.cls id) true) :=
    located_of_ok fun _ => ⟨_, _, rfl⟩
  unfold declareClass
  cases decl.superclass with
  | none => exact (located_pure none).bind declared
  | some name =>
    have looked : (superclass name).Located := by
      intro m f m' stopped
      unfold superclass at stopped
      split at stopped <;> cases stopped <;> exact ⟨_, rfl⟩
    exact (looked.bind fun id => located_pure (some id)).bind declared

end Run

theorem located_eval (host : Host) (n : Nat) (e : Expr) : (Expr.eval host n e).Located := by
  cases n with
  | zero => exact located_outOfFuel
  | succ n =>
    unfold Expr.eval
    exact located_locating _ _

/-- Statements add no places of their own to faults: those that they meet have one already. -/
structure Locates (host : Host) (n : Nat) : Prop where
  exec : ∀ s, (Stmt.exec host n s).Located
  execAll : ∀ ss, (Stmt.execAll host n ss).Located
  execLoop : ∀ condition body, (Stmt.execLoop host n condition body).Located

section Located

variable {host : Host} {n : Nat}

theorem Locates.exec_succ (ih : Locates host n) (s : Stmt) :
    (Stmt.exec host (n + 1) s).Located := by
  unfold Stmt.exec
  cases s with
  | declare name value constant =>
    have defined (v : Value) : Located (do
        define (← get).scope name.text v (!constant)
        return Flow.next) :=
      located_of_ok fun _ => ⟨_, _, rfl⟩
    cases value with
    | none => exact (located_pure _).bind defined
    | some e => exact (located_eval host n e).bind defined
  | function decl => exact located_of_ok fun _ => ⟨_, _, rfl⟩
  | classDecl decl => exact (located_declareClass decl).bind fun _ => located_pure _
  | ret span value =>
    refine located_get.bind fun m => ?_
    split
    · intro m f m' stopped
      cases stopped
      exact ⟨span, rfl⟩
    · cases value with
      | none => exact (located_pure _).bind fun _ => located_pure _
      | some e => exact (located_eval host n e).bind fun _ => located_pure _
  | expr e => exact (located_eval host n e).bind fun _ => located_pure _
  | block body =>
    refine located_get.bind fun m => ?_
    have opened : (newScope m.scope).Located := located_of_ok fun _ => ⟨_, _, rfl⟩
    exact opened.bind fun scope => (ih.execAll body).within scope
  | branch condition yes no =>
    refine (located_eval host n condition).bind fun v => located_get.bind fun m => ?_
    split
    · exact ih.exec yes
    · cases no with
      | none => exact located_pure _
      | some no => exact ih.exec no
  | loop condition body => exact ih.execLoop condition body

theorem Locates.execAll_succ (ih : Locates host n) (ss : List Stmt) :
    (Stmt.execAll host (n + 1) ss).Located := by
  cases ss with
  | nil => exact located_pure _
  | cons s rest =>
    unfold Stmt.execAll
    refine (ih.exec s).bind fun flow => ?_
    cases flow with
    | returned v => exact located_pure _
    | next => exact ih.execAll rest

theorem Locates.execLoop_succ (ih : Locates host n) (condition : Expr) (body : Stmt) :
    (Stmt.execLoop host (n + 1) condition body).Located := by
  unfold Stmt.execLoop
  refine (located_eval host n condition).bind fun v => located_get.bind fun m => ?_
  split
  · refine (ih.exec body).bind fun flow => ?_
    cases flow with
    | returned v => exact located_pure _
    | next => exact ih.execLoop condition body
  · exact located_pure _

theorem locates (host : Host) (n : Nat) : Locates host n := by
  induction n with
  | zero => exact ⟨fun _ => located_outOfFuel, fun _ => located_outOfFuel,
      fun _ _ => located_outOfFuel⟩
  | succ n ih => exact ⟨ih.exec_succ, ih.execAll_succ, ih.execLoop_succ⟩

/-- **No run leaves a fault without a place.** -/
theorem located_interpret (host : Host) (fuel : Nat) (mode : Mode) (p : List Stmt) :
    (interpret host fuel mode p).Located := by
  refine interpret_induction (motive := fun _ run => run.Located) ?nil ?executed ?shown p
  case nil => exact located_pure ()
  case executed =>
    intro s rest ih
    exact ((locates host fuel).exec s).bind fun _ => ih
  case shown =>
    intro e rest ih
    refine (located_eval host fuel e).bind fun v => ?_
    split
    · have printed (m : Machine) : (print (m.heap.text v ++ "\n")).Located :=
        located_of_ok fun _ => ⟨_, _, rfl⟩
      exact located_get.bind fun m => (printed m).bind fun _ => ih
    · exact ih

end Located

end Scriptlet
