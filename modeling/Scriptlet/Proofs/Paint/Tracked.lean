import Scriptlet.Proofs.Paint.Mirror
import Scriptlet.Proofs.Reader.Places
import Scriptlet.Proofs.Sequence
import Scriptlet.Proofs.Watch

/-!
# Tracked machines and safe steps

The painting walk passes over a program once and never evaluates; a run enters bodies through
closures, in any order and any number of times. The invariant that ties the two together is
`Machine.Tracked`: every function and class in the heap was declared in scopes that mirror the
frames under which the walk looked at its body. The frames themselves never occur in a run; they are
found again at every call.

A step is safe (`Watched.Safe`) if it enters expressions only in scopes that mirror the frames of
the walk, and keeps the machine tracked. The steps that a run is made of are safe one by one, and
sequences of safe steps are safe.
-/

namespace Scriptlet

/-! ## What the walk has seen -/

/-- The walk looked at an expression under these frames. -/
def Expr.Seen (visits : List Visit) (frames : Frames) (missing : Option String) (e : Expr) : Prop :=
  ∃ root, ⟨root, frames, missing⟩ ∈ visits ∧ root.Part e

theorem Expr.seen_of_visit {visits : List Visit} {frames : Frames} {missing : Option String}
    {e : Expr} (visited : ⟨e, frames, missing⟩ ∈ visits) : e.Seen visits frames missing :=
  ⟨e, visited, .self⟩

/-- What stands inside an expression is looked at under the same frames. -/
theorem Expr.Seen.child {visits : List Visit} {frames : Frames} {missing : Option String}
    {e x : Expr} (h : e.Seen visits frames missing) (mem : x ∈ e.children) :
    x.Seen visits frames missing := by
  obtain ⟨root, visited, part⟩ := h
  exact ⟨root, visited, part.inside mem⟩

/-- The walk arrived at a statement with these frames. -/
structure Stmt.Seen (visits : List Visit) (frames : Frames) (st : Stmt) : Prop where
  visited : ∀ v ∈ st.visits frames, v ∈ visits
  regular : st.Regular

/-- The walk arrived at a list of statements with these frames. -/
structure Stmt.AllSeen (visits : List Visit) (frames : Frames) (body : List Stmt) : Prop where
  visited : ∀ v ∈ Stmt.visitsAll frames body, v ∈ visits
  regular : ∀ st ∈ body, st.Regular

theorem Stmt.AllSeen.head {visits : List Visit} {frames : Frames} {st : Stmt} {rest : List Stmt}
    (h : AllSeen visits frames (st :: rest)) : st.Seen visits frames where
  visited v mem := h.visited v (List.mem_append_left _ mem)
  regular := h.regular st List.mem_cons_self

theorem Stmt.AllSeen.tail {visits : List Visit} {frames : Frames} {st : Stmt} {rest : List Stmt}
    (h : AllSeen visits frames (st :: rest)) : AllSeen visits (st.paint frames).1 rest where
  visited v mem := h.visited v (List.mem_append_right _ mem)
  regular st mem := h.regular st (List.mem_cons_of_mem _ mem)

/-- The walk looked at the body of a function whose home has these frames. -/
def FunctionDecl.Seen (visits : List Visit) (frames : Frames) (decl : FunctionDecl Stmt) : Prop :=
  Stmt.AllSeen visits (frames.withParams decl.params) decl.body

/-- The walk looked at the members of a class whose home has these frames. -/
structure ClassDecl.Seen (visits : List Visit) (frames : Frames) (decl : ClassDecl Stmt) :
    Prop where
  members : ∀ v ∈ decl.members.flatMap (memberVisits (frames.withClass decl.superclass)),
    v ∈ visits
  regular : Stmt.Regular (.classDecl decl)

section Members

variable {visits : List Visit} {frames : Frames} {decl : ClassDecl Stmt}

theorem ClassDecl.Seen.field (h : decl.Seen visits frames) {field : FieldDecl}
    (mem : field ∈ decl.fields) :
    field.value.Seen visits (frames.withClass decl.superclass) none := by
  have member : Member.field field ∈ decl.members :=
    List.mem_append_left _ (List.mem_append_left _ (List.mem_map_of_mem mem))
  refine Expr.seen_of_visit (h.members _ ?_)
  exact List.mem_flatMap.2 ⟨_, member, List.mem_singleton_self _⟩

/-- A method is looked at under the frames that all members share, as it does not bind its name. -/
theorem functionVisits_method {method : FunctionDecl Stmt} (isMethod : method.isMethod = true)
    (frames : Frames) :
    functionVisits frames method =
      Stmt.visitsAll (frames.withParams method.params) method.body := by
  obtain ⟨name, params, body, flag⟩ := method
  cases isMethod
  rfl

theorem ClassDecl.Seen.ofMember (h : decl.Seen visits frames) {method : FunctionDecl Stmt}
    (member : Member.method method ∈ decl.members) (isMethod : method.isMethod = true)
    (regular : ∀ st ∈ method.body, st.Regular) :
    method.Seen visits (frames.withClass decl.superclass) := by
  refine ⟨fun v visited => h.members v (List.mem_flatMap.2 ⟨_, member, ?_⟩), regular⟩
  show v ∈ functionVisits _ method
  rw [functionVisits_method isMethod]
  exact visited

theorem ClassDecl.Seen.method (h : decl.Seen visits frames) {method : FunctionDecl Stmt}
    (mem : method ∈ decl.methods) : method.Seen visits (frames.withClass decl.superclass) := by
  have member : Member.method method ∈ decl.members :=
    List.mem_append_left _ (List.mem_append_right _ (List.mem_map_of_mem mem))
  cases h.regular with
  | classDecl flags bodies _ _ => exact h.ofMember member (flags method mem) (bodies method mem)

theorem ClassDecl.Seen.constructor (h : decl.Seen visits frames) {method : FunctionDecl Stmt}
    (mem : decl.constructor = some method) :
    method.Seen visits (frames.withClass decl.superclass) := by
  have member : Member.method method ∈ decl.members := by
    refine List.mem_append_right _ (List.mem_map_of_mem ?_)
    rw [mem]
    exact List.mem_singleton_self method
  cases h.regular with
  | classDecl _ _ flags bodies => exact h.ofMember member (flags method mem) (bodies method mem)

end Members

/-! ## Tracked machines -/

/-- A class record whose home mirrors the frames under which the walk looked at the class. -/
structure ClassRecord.Tracked (visits : List Visit) (scopes : Scopes Value) (frames : Frames)
    (record : ClassRecord) : Prop where
  home : scopes.Mirrors frames none record.home
  seen : record.decl.Seen visits frames
  superclass : record.superclass.isSome = record.decl.superclass.isSome

/-- All code that the heap holds was seen by the walk, under frames that its home mirrors. -/
structure Machine.Tracked (visits : List Visit) (m : Machine) : Prop where
  functions : ∀ id decl home, m.heap.function id = .user decl home →
    ∃ frames, m.scopes.Mirrors frames none home ∧ decl.Seen visits frames
  classes : ∀ id, ∃ frames, (m.heap.classRecord id).Tracked visits m.scopes frames

/-- What every step keeps: where the program stands, and all scopes. -/
structure Machine.Steady (m m' : Machine) : Prop where
  scope : m'.scope = m.scope
  depth : m'.depth = m.depth
  grows : m.scopes.Grows m'.scopes

theorem Machine.Steady.refl (m : Machine) : m.Steady m := ⟨rfl, rfl, .refl _⟩

theorem Machine.Steady.trans {m m₁ m' : Machine} (h : m.Steady m₁) (h' : m₁.Steady m') :
    m.Steady m' :=
  ⟨h'.scope.trans h.scope, h'.depth.trans h.depth, h.grows.trans h'.grows⟩

/-- What the program stands in goes on mirroring the same frames. -/
theorem Machine.Steady.mirrors {m m' : Machine} {frames : Frames} {missing : Option String}
    (h : m.Steady m') (mirrors : m.scopes.Mirrors frames missing m.scope) :
    m'.scopes.Mirrors frames missing m'.scope := by
  rw [h.scope]
  exact mirrors.grow h.grows

/-- The machine is tracked, and the program stands in scopes that mirror the frames. -/
structure Machine.Stands (visits : List Visit) (frames : Frames) (missing : Option String)
    (m : Machine) : Prop where
  tracked : m.Tracked visits
  mirrors : m.scopes.Mirrors frames missing m.scope

theorem Machine.Stands.after {visits : List Visit} {frames : Frames} {missing : Option String}
    {m m' : Machine} (h : m.Stands visits frames missing) (tracked : m'.Tracked visits)
    (steady : m.Steady m') : m'.Stands visits frames missing :=
  ⟨tracked, steady.mirrors h.mirrors⟩

section Growth

variable {visits : List Visit} {m m' : Machine}

/-- Standing in another scope. -/
theorem Machine.Tracked.stands_in (h : m.Tracked visits) {frames : Frames}
    {missing : Option String} {scope : ScopeId} (mirrors : m.scopes.Mirrors frames missing scope) :
    Machine.Stands visits frames missing { m with scope } :=
  ⟨⟨h.functions, h.classes⟩, mirrors⟩

/-- Tracking depends only on the code in the heap, and survives growing scopes. -/
theorem Machine.Tracked.grow (h : m.Tracked visits) (grows : m.scopes.Grows m'.scopes)
    (functions : m'.heap.functions = m.heap.functions)
    (classes : m'.heap.classes = m.heap.classes) : m'.Tracked visits where
  functions id decl home found := by
    have found' : m.heap.function id = .user decl home := by
      rw [← found, Heap.function, Heap.function, functions]
    obtain ⟨frames, mirrors, seen⟩ := h.functions id decl home found'
    exact ⟨frames, mirrors.grow grows, seen⟩
  classes id := by
    have same : m'.heap.classRecord id = m.heap.classRecord id := by
      rw [Heap.classRecord, Heap.classRecord, classes]
    obtain ⟨frames, tracked⟩ := h.classes id
    rw [same]
    exact ⟨frames, tracked.home.grow grows, tracked.seen, tracked.superclass⟩

/-- A new function whose home mirrors the frames of its body. -/
theorem Machine.Tracked.addFunction (h : m.Tracked visits) {r : Routine}
    (new : ∀ decl home, r = .user decl home →
      ∃ frames, m.scopes.Mirrors frames none home ∧ decl.Seen visits frames) :
    Machine.Tracked visits { m with heap := (m.heap.addFunction r).2 } where
  functions id decl home found := by
    have found : (m.heap.addFunction r).2.function id = .user decl home := found
    rw [Heap.function_addFunction] at found
    by_cases same : id = (m.heap.addFunction r).1
    · rw [if_pos same] at found
      exact new decl home found
    · rw [if_neg same] at found
      exact h.functions id decl home found
  classes := h.classes

/-- A new class whose home mirrors the frames of its members. -/
theorem Machine.Tracked.addClass (h : m.Tracked visits) {record : ClassRecord} {frames : Frames}
    (new : record.Tracked visits m.scopes frames) :
    Machine.Tracked visits { m with heap := (m.heap.addClass record).2 } where
  functions := h.functions
  classes id := by
    show ∃ frames, ((m.heap.addClass record).2.classRecord id).Tracked visits m.scopes frames
    rw [Heap.classRecord_addClass]
    by_cases same : id = (m.heap.addClass record).1
    · rw [if_pos same]
      exact ⟨frames, new⟩
    · rw [if_neg same]
      exact h.classes id

end Growth

/-! ## Safe steps -/

/-- The scopes of a moment mirror frames under which the walk looked at its expression. -/
def Moment.Mirrored (visits : List Visit) (moment : Moment) : Prop :=
  ∃ frames missing, moment.expr.Seen visits frames missing ∧
    moment.machine.scopes.Mirrors frames missing moment.machine.scope

/-- From `m`, a step passes through mirrored moments only, and if it ends with a value, then in a
tracked machine that satisfies `post`. -/
structure Watched.Safe {α : Type} (visits : List Visit) (w : Watched α) (m : Machine)
    (post : α → Machine → Prop) : Prop where
  moments : ∀ moment ∈ w.moments m, moment.Mirrored visits
  ok : ∀ a m', w.run m = .ok a m' → m'.Tracked visits ∧ m.Steady m' ∧ post a m'

namespace Watched.Safe

variable {α β : Type} {visits : List Visit} {m : Machine} {w : Watched α}
  {post : α → Machine → Prop}

theorem mono {post' : α → Machine → Prop} (h : w.Safe visits m post)
    (imp : ∀ a m', m'.Tracked visits → m.Steady m' → post a m' → post' a m') :
    w.Safe visits m post' where
  moments := h.moments
  ok a m' ran := by
    obtain ⟨tracked, steady, holds⟩ := h.ok a m' ran
    exact ⟨tracked, steady, imp a m' tracked steady holds⟩

theorem bind {f : α → Watched β} {post' : β → Machine → Prop} (h : w.Safe visits m post)
    (hf : ∀ a m', m'.Tracked visits → m.Steady m' → post a m' → (f a).Safe visits m' post') :
    (w >>= f).Safe visits m post' where
  moments moment mem := by
    change moment ∈ w.moments m ++ momentsAfter w.run (fun a => (f a).moments) m at mem
    rcases List.mem_append.1 mem with mem | mem
    · exact h.moments moment mem
    · unfold momentsAfter at mem
      cases ran : w.run m with
      | error e m₁ =>
        rw [ran] at mem
        cases mem
      | ok a m₁ =>
        rw [ran] at mem
        obtain ⟨tracked, steady, holds⟩ := h.ok a m₁ ran
        exact (hf a m₁ tracked steady holds).moments moment mem
  ok b m' ran := by
    change (w.run >>= fun a => (f a).run) m = .ok b m' at ran
    obtain ⟨a, m₁, first, second⟩ := bind_eq_ok ran
    obtain ⟨tracked, steady, holds⟩ := h.ok a m₁ first
    obtain ⟨tracked', steady', holds'⟩ := (hf a m₁ tracked steady holds).ok b m' second
    exact ⟨tracked', steady.trans steady', holds'⟩

/-- A step after which the program still stands where it stood. -/
theorem step {f : α → Watched β} {post' : β → Machine → Prop} {frames : Frames}
    {missing : Option String} (h : w.Safe visits m post) (stands : m.Stands visits frames missing)
    (hf : ∀ a m', m'.Stands visits frames missing → (f a).Safe visits m' post') :
    (w >>= f).Safe visits m post' :=
  h.bind fun a m' tracked steady _ => hf a m' (stands.after tracked steady)

theorem quiet {r : Run α} (h : ∀ a m', r m = .ok a m' →
    m'.Tracked visits ∧ m.Steady m' ∧ post a m') : (Watched.quiet r).Safe visits m post :=
  ⟨nofun, h⟩

theorem quiet_bind {r : Run α} {f : α → Run β} {post' : β → Machine → Prop}
    (h : (Watched.quiet r).Safe visits m post)
    (hf : ∀ a m', m'.Tracked visits → m.Steady m' → post a m' →
      (Watched.quiet (f a)).Safe visits m' post') :
    (Watched.quiet (r >>= f)).Safe visits m post' :=
  ⟨nofun, (h.bind hf).ok⟩

theorem pure {a : α} (tracked : m.Tracked visits) (holds : post a m) :
    (Pure.pure a : Watched α).Safe visits m post where
  moments := nofun
  ok b m' ran := by
    cases ran
    exact ⟨tracked, .refl m, holds⟩

theorem stop {why : Stop} : (Watched.quiet (Run.stop why : Run α)).Safe visits m post :=
  quiet fun _ _ ran => by cases ran

/-- A step that looks at the machine. -/
theorem get_bind {f : Machine → Watched β} {post' : β → Machine → Prop}
    (h : (f m).Safe visits m post') : (Watched.quiet get >>= f).Safe visits m post' where
  moments := h.moments
  ok := h.ok

theorem locating {span : Span} (h : w.Safe visits m post) :
    (Watched.locating span w).Safe visits m post where
  moments := h.moments
  ok a m' ran := by
    refine h.ok a m' ?_
    change Run.locating span w.run m = .ok a m' at ran
    unfold Run.locating at ran
    cases first : w.run m with
    | ok b m₁ =>
      rw [first] at ran
      exact ran
    | error e m₁ =>
      rw [first] at ran
      cases e <;> cases ran

/-- Entering an expression is a moment. -/
theorem entered {purpose : Purpose} {e : Expr} (h : w.Safe visits m post)
    (mirrored : Moment.Mirrored visits ⟨purpose, e, m⟩) :
    (Watched.enter purpose e >>= fun _ => w).Safe visits m post where
  moments moment mem := by
    change moment ∈ [⟨purpose, e, m⟩] ++ w.moments m at mem
    rcases List.mem_append.1 mem with mem | mem
    · rw [List.mem_singleton.1 mem]
      exact mirrored
    · exact h.moments moment mem
  ok := h.ok

/-- A step in another scope. Where it ends, the old scope is current again. -/
theorem within {scope : ScopeId} {P : α → Prop}
    (h : w.Safe visits { m with scope } fun a _ => P a) :
    (Watched.within scope w).Safe visits m fun a _ => P a where
  moments := h.moments
  ok a m' ran := by
    change Run.within scope w.run m = .ok a m' at ran
    unfold Run.within at ran
    cases first : w.run { m with scope } with
    | error e m₁ =>
      rw [first] at ran
      cases ran
    | ok b m₁ =>
      rw [first] at ran
      cases ran
      obtain ⟨tracked, steady, holds⟩ := h.ok _ m₁ first
      exact ⟨tracked.grow (.refl _) rfl rfl, ⟨rfl, steady.depth, steady.grows⟩, holds⟩

theorem deeper {P : α → Prop}
    (h : w.Safe visits { m with depth := m.depth + 1 } fun a _ => P a) :
    (Watched.deeper w).Safe visits m fun a _ => P a where
  moments := h.moments
  ok a m' ran := by
    change Run.deeper w.run m = .ok a m' at ran
    unfold Run.deeper at ran
    cases first : w.run { m with depth := m.depth + 1 } with
    | error e m₁ =>
      rw [first] at ran
      cases ran
    | ok b m₁ =>
      rw [first] at ran
      cases ran
      obtain ⟨tracked, steady, holds⟩ := h.ok _ m₁ first
      have depth : m₁.depth - 1 = m.depth := by
        rw [steady.depth]
        rfl
      exact ⟨tracked.grow (.refl _) rfl rfl, ⟨steady.scope, depth, steady.grows⟩, holds⟩

end Watched.Safe

/-! ## Primitives -/

/-- Two machines with the same scopes and the same code, in which the program stands in the same
place. -/
structure Machine.Alike (m m' : Machine) : Prop where
  scope : m'.scope = m.scope
  depth : m'.depth = m.depth
  scopes : m'.scopes = m.scopes
  functions : m'.heap.functions = m.heap.functions
  classes : m'.heap.classes = m.heap.classes

namespace Run

variable {α β : Type}

/-- A step that, if it ends with a value, has touched neither scopes nor code. -/
def Calm (r : Run α) : Prop := ∀ m a m', r m = .ok a m' → m.Alike m'

theorem calm_of_same {r : Run α} (h : ∀ m a m', r m = .ok a m' → m' = m) : r.Calm := by
  intro m a m' ran
  rw [h m a m' ran]
  exact ⟨rfl, rfl, rfl, rfl, rfl⟩

theorem calm_pure (a : α) : (pure a : Run α).Calm :=
  calm_of_same fun m b m' ran => by cases ran; rfl

theorem calm_lookup (name : Name) : (lookup name).Calm := by
  refine calm_of_same fun m a m' ran => ?_
  unfold lookup at ran
  split at ran <;> cases ran
  rfl

theorem calm_onHeap (f : Heap → Except Fault α) : (onHeap f).Calm := by
  refine calm_of_same fun m a m' ran => ?_
  unfold onHeap at ran
  split at ran <;> cases ran
  rfl

theorem calm_write (place : Place) (value : Value) : (write place value).Calm := by
  intro m a m' ran
  cases ran
  cases place <;> exact ⟨rfl, rfl, rfl, rfl, rfl⟩

theorem calm_addArray (items : Array Value) : (allocate (·.addArray items)).Calm := by
  intro m a m' ran
  cases ran
  exact ⟨rfl, rfl, rfl, rfl, rfl⟩

theorem calm_addObject (object : ObjectRecord) : (allocate (·.addObject object)).Calm := by
  intro m a m' ran
  cases ran
  exact ⟨rfl, rfl, rfl, rfl, rfl⟩

theorem calm_print (text : String) : (print text).Calm := by
  intro m a m' ran
  cases ran
  exact ⟨rfl, rfl, rfl, rfl, rfl⟩

theorem Calm.locating {r : Run α} (h : r.Calm) (span : Span) : (locating span r).Calm := by
  intro m a m' ran
  refine h m a m' ?_
  unfold Run.locating at ran
  cases first : r m with
  | ok b m₁ =>
    rw [first] at ran
    exact ran
  | error e m₁ =>
    rw [first] at ran
    cases e <;> cases ran

theorem Calm.bind {r : Run α} {f : α → Run β} (h : r.Calm) (hf : ∀ a, (f a).Calm) :
    (r >>= f).Calm := by
  intro m b m' ran
  obtain ⟨a, m₁, first, second⟩ := bind_eq_ok ran
  obtain ⟨scope, depth, scopes, functions, classes⟩ := h m a m₁ first
  obtain ⟨scope', depth', scopes', functions', classes'⟩ := hf a m₁ b m' second
  exact ⟨scope'.trans scope, depth'.trans depth, scopes'.trans scopes,
    functions'.trans functions, classes'.trans classes⟩

theorem calm_native (host : Host) (action : NativeAction) (args : List Value) :
    (Native.call host action args).Calm := by
  have printed : (Native.print args).Calm := by
    intro m a m' ran
    unfold Native.print at ran
    split at ran <;> (cases ran; exact ⟨rfl, rfl, rfl, rfl, rfl⟩)
  have read : Native.readLine.Calm := by
    intro m a m' ran
    unfold Native.readLine at ran
    split at ran <;> cases ran <;> exact ⟨rfl, rfl, rfl, rfl, rfl⟩
  have reading : readClock.Calm := by
    intro m a m' ran
    unfold readClock at ran
    split at ran <;> cases ran
    exact ⟨rfl, rfl, rfl, rfl, rfl⟩
  cases action with
  | print => exact printed.bind fun _ => calm_pure _
  | readLine => exact printed.bind fun _ => read
  | clock => exact reading.bind fun seconds => calm_onHeap fun _ => Native.time seconds
  | character => exact calm_onHeap (Native.character · args)
  | nothing => exact calm_pure _
  | host key =>
    refine (calm_onHeap _).bind fun reply => ?_
    cases reply with
    | value v => exact calm_pure _
    | array items => exact (calm_addArray _).bind fun _ => calm_pure _

end Run

section Primitives

open Watched

variable {α : Type} {visits : List Visit} {m : Machine}

theorem Run.Calm.safe {r : Run α} (h : r.Calm) (tracked : m.Tracked visits) :
    (quiet r).Safe visits m fun _ _ => True := by
  refine .quiet fun a m' ran => ?_
  obtain ⟨scope, depth, scopes, functions, classes⟩ := h m a m' ran
  have grows : m.scopes.Grows m'.scopes := by
    rw [scopes]
    exact .refl _
  exact ⟨tracked.grow grows functions classes, ⟨scope, depth, grows⟩, trivial⟩

theorem safe_assign (tracked : m.Tracked visits) (name : Name) (value : Value) :
    (quiet (Run.assign name value)).Safe visits m fun _ _ => True := by
  refine .quiet fun a m' ran => ?_
  unfold Run.assign at ran
  split at ran
  · rename_i owner _
    cases ran
    have grows := m.scopes.grows_define owner name.text value true
    exact ⟨tracked.grow grows rfl rfl, ⟨rfl, rfl, grows⟩, trivial⟩
  · cases ran

/-- A new scope mirrors a new frame. -/
theorem safe_newScope (tracked : m.Tracked visits) {frames : Frames} {parent : ScopeId}
    (mirrors : m.scopes.Mirrors frames none parent) :
    (quiet (Run.newScope parent)).Safe visits m
      fun scope m' => m'.scopes.Mirrors frames.enter none scope := by
  refine .quiet fun scope m' ran => ?_
  cases ran
  have grows := m.scopes.grows_child parent
  exact ⟨tracked.grow grows rfl rfl, ⟨rfl, rfl, grows⟩, mirrors.enter⟩

/-- A name bound on both sides. -/
theorem safe_define (tracked : m.Tracked visits) {frames : Frames} {scope : ScopeId}
    (mirrors : m.scopes.Mirrors frames none scope) (role : Role) (name : String) (value : Value)
    (writable : Bool) :
    (quiet (Run.define scope name value writable)).Safe visits m
      fun _ m' => m'.scopes.Mirrors (frames.define role name) none scope := by
  refine .quiet fun _ m' ran => ?_
  cases ran
  have grows := m.scopes.grows_define scope name value writable
  exact ⟨tracked.grow grows rfl rfl, ⟨rfl, rfl, grows⟩, mirrors.define role name value writable⟩

/-- After the check, the call has as many arguments as there are parameters. -/
theorem safe_checkArity (tracked : m.Tracked visits) (expected got : Nat) :
    (quiet (Run.checkArity expected got)).Safe visits m fun _ _ => expected = got := by
  refine .quiet fun a m' ran => ?_
  unfold Run.checkArity at ran
  split at ran
  · rename_i same
    cases ran
    exact ⟨tracked, .refl m, same⟩
  · cases ran

/-- A function of the heap, at home in scopes under whose frames its body was looked at. -/
theorem safe_addFunction (tracked : m.Tracked visits) {frames : Frames} {home : ScopeId}
    (mirrors : m.scopes.Mirrors frames none home) {decl : FunctionDecl Stmt}
    (seen : decl.Seen visits frames) :
    (quiet (Run.allocate (·.addFunction (.user decl home)))).Safe visits m fun _ _ => True := by
  refine .quiet fun id m' ran => ?_
  cases ran
  refine ⟨tracked.addFunction ?_, ⟨rfl, rfl, .refl _⟩, trivial⟩
  intro decl' home' same
  cases same
  exact ⟨frames, mirrors, seen⟩

theorem safe_addNative (tracked : m.Tracked visits) (name : String) (arity : Nat)
    (action : NativeAction) :
    (quiet (Run.allocate (·.addFunction (.native name arity action)))).Safe visits m
      fun _ _ => True := by
  refine .quiet fun id m' ran => ?_
  cases ran
  exact ⟨tracked.addFunction nofun, ⟨rfl, rfl, .refl _⟩, trivial⟩

/-- Parameters are bound on both sides, as there is an argument for each. -/
theorem safe_bindArguments (tracked : m.Tracked visits) {frames : Frames} {scope : ScopeId}
    (mirrors : m.scopes.Mirrors frames none scope) {params : List Name} {args : List Value}
    (same : params.length = args.length) :
    (quiet (Run.bindArguments scope params args)).Safe visits m fun _ m' =>
      m'.scopes.Mirrors (params.foldl (fun acc param => acc.define .argument param.text) frames)
        none scope := by
  induction params generalizing m frames args with
  | nil => exact .pure tracked mirrors
  | cons param params ih =>
    cases args with
    | nil => cases same
    | cons arg args =>
      refine (safe_define tracked mirrors .argument param.text arg true).quiet_bind ?_
      intro _ m₁ tracked₁ _ mirrors₁
      exact ih tracked₁ mirrors₁ (Nat.succ.inj same)

/-- What a class inherits is bound on both sides. -/
theorem safe_bindInherited (tracked : m.Tracked visits) {frames : Frames} {scope : ScopeId}
    (mirrors : m.scopes.Mirrors frames none scope) (parentName : String) (bound : BoundClass) :
    (quiet (Run.bindInherited scope parentName bound)).Safe visits m fun _ m' =>
      m'.scopes.Mirrors ((frames.define .base "base").define .super "super") none scope := by
  refine ((Run.calm_addObject _).safe tracked).quiet_bind fun base m₁ tracked₁ steady₁ _ => ?_
  refine (safe_define tracked₁ (mirrors.grow steady₁.grows) .base "base" _ false).quiet_bind ?_
  intro _ m₂ tracked₂ _ mirrors₂
  -- the rest needs no more than an identifier for `super`, new or old
  have rest : ∀ id m₃, m₃.Tracked visits → m₂.Steady m₃ →
      (quiet (Run.define scope "super" (.function id) false)).Safe visits m₃ fun _ m' =>
        m'.scopes.Mirrors ((frames.define .base "base").define .super "super") none scope := by
    intro id m₃ tracked₃ steady₃
    exact safe_define tracked₃ (mirrors₂.grow steady₃.grows) .super "super" _ false
  cases bound.constructor with
  | some id => exact rest id m₂ tracked₂ (.refl m₂)
  | none =>
    exact (safe_addNative tracked₂ "super" 0 .nothing).quiet_bind
      fun id m₃ tracked₃ steady₃ _ => rest id m₃ tracked₃ steady₃

theorem safe_bindMethods (tracked : m.Tracked visits) {frames : Frames} {scope : ScopeId}
    (mirrors : m.scopes.Mirrors frames none scope) (object : ObjectId)
    {decls : List (FunctionDecl Stmt)} (seen : ∀ decl ∈ decls, decl.Seen visits frames)
    (methods : Dict Value) :
    (quiet (Run.bindMethods object scope decls methods)).Safe visits m fun _ _ => True := by
  induction decls generalizing m methods with
  | nil => exact .pure tracked trivial
  | cons decl rest ih =>
    have first := seen decl List.mem_cons_self
    refine (safe_addFunction tracked mirrors first).quiet_bind fun id m₁ tracked₁ steady₁ _ => ?_
    refine ((Run.calm_write _ _).safe tracked₁).quiet_bind fun _ m₂ tracked₂ steady₂ _ => ?_
    exact ih tracked₂ ((mirrors.grow steady₁.grows).grow steady₂.grows)
      (fun decl mem => seen decl (List.mem_cons_of_mem _ mem)) _

/-- The walk looks at the body of a function with its name bound, so the function is tracked only
once the name is bound in the run as well. -/
theorem safe_declareFunction {frames : Frames} (stands : m.Stands visits frames none)
    (decl : FunctionDecl Stmt)
    (seen : decl.Seen visits (frames.define .functionName decl.name.text)) :
    (quiet (Run.declareFunction decl)).Safe visits m fun _ m' =>
      m'.Stands visits (frames.define .functionName decl.name.text) none := by
  refine .quiet fun _ m' ran => ?_
  cases ran
  let value := Value.function (m.heap.addFunction (.user decl m.scope)).1
  have grows := m.scopes.grows_define m.scope decl.name.text value true
  have mirrors := stands.mirrors.define .functionName decl.name.text value true
  -- binding the name comes first here, as the home of the function mirrors its frames only then
  have bound : Machine.Tracked visits
      { m with scopes := m.scopes.define m.scope decl.name.text value true } :=
    stands.tracked.grow grows rfl rfl
  have tracked := bound.addFunction (r := .user decl m.scope) fun decl' home' same => by
    cases same
    exact ⟨_, mirrors, seen⟩
  exact ⟨tracked, ⟨rfl, rfl, grows⟩, tracked, mirrors⟩

theorem calm_superclass (name : Name) : (Run.superclass name).Calm := by
  refine Run.calm_of_same fun m id m' ran => ?_
  unfold Run.superclass at ran
  split at ran <;> cases ran
  rfl

/-- The members of a class, likewise, are looked at with its name bound. -/
theorem safe_declareClass {frames : Frames} (stands : m.Stands visits frames none)
    (decl : ClassDecl Stmt) (seen : decl.Seen visits (frames.define .className decl.name.text)) :
    (quiet (Run.declareClass decl)).Safe visits m fun _ m' =>
      m'.Stands visits (frames.define .className decl.name.text) none := by
  have rest : ∀ parent : Option ClassId, parent.isSome = decl.superclass.isSome →
      ∀ m₁ : Machine, m₁.Stands visits frames none →
      (quiet (do
        let here := (← get).scope
        let id ← Run.allocate (·.addClass ⟨decl, here, parent⟩)
        Run.define here decl.name.text (.cls id) true)).Safe visits m₁ fun _ m' =>
          m'.Stands visits (frames.define .className decl.name.text) none := by
    intro parent same m₁ stands₁
    refine .quiet fun _ m' ran => ?_
    cases ran
    let record : ClassRecord := ⟨decl, m₁.scope, parent⟩
    let value := Value.cls (m₁.heap.addClass record).1
    have grows := m₁.scopes.grows_define m₁.scope decl.name.text value true
    have mirrors := stands₁.mirrors.define .className decl.name.text value true
    have bound : Machine.Tracked visits
        { m₁ with scopes := m₁.scopes.define m₁.scope decl.name.text value true } :=
      stands₁.tracked.grow grows rfl rfl
    have home : record.Tracked visits _ _ := ⟨mirrors, seen, same⟩
    have tracked := bound.addClass home
    exact ⟨tracked, ⟨rfl, rfl, grows⟩, tracked, mirrors⟩
  unfold Run.declareClass
  cases superclass : decl.superclass with
  | none => exact rest none (by rw [superclass]; rfl) m stands
  | some name =>
    have named : (quiet (some <$> Run.superclass name)).Safe visits m
        fun parent _ => parent.isSome = true := by
      rw [map_eq_pure_bind]
      exact ((calm_superclass name).safe stands.tracked).quiet_bind
        fun id m₁ tracked₁ _ _ => .pure tracked₁ rfl
    refine named.quiet_bind fun parent m₁ tracked₁ steady₁ isSome => ?_
    exact rest parent (by rw [isSome, superclass]; rfl) m₁ (stands.after tracked₁ steady₁)

end Primitives
end Scriptlet
