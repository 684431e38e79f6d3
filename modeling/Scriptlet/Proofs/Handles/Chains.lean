import Scriptlet.Native.Toolkit
import Scriptlet.Proofs.Handles.Evaluation
import Scriptlet.Proofs.Stack

/-!
# Chains of scopes and of classes

In a sound machine the scope around a scope and the superclass of a class are older, so the way
outward from a scope and the way up from a class end. Such a way is a list (`Scopes.Chain`,
`Heap.Lineage`), and looking up a name or measuring the depth of a scope is a search in that list.
Binding a class recurses along it: what makes it run out of fuel is never the recursion, but a field
default that it meets on the way.

Every machine that a client can reach is sound (`Machine.Reached.sound`). The main statement,
`no_handle_dangles`, puts the two together.
-/

namespace Scriptlet

/-! ## Machines that a client can reach -/

/-- The machines that a client can reach: it registers natives, runs statements and calls values as
often as it likes, whether these finish or stop, and may make arrays to call with. -/
inductive Machine.Reached (host : Host) : Machine → Prop
  | fresh (console : Console) (clock : Clock) (decls : List NativeDecl) :
      Reached host ((Machine.initial console clock).registerAll decls)
  | interpret {m : Machine} (fuel : Nat) (mode : Mode) (p : List Stmt) :
      Reached host m → Reached host ((interpret host fuel mode p).after m)
  | call {m : Machine} (fuel : Nat) (callee : Value) (args : List Value) :
      m.HoldsAll args → Reached host m → Reached host ((callValue host fuel callee args).after m)
  | array {m : Machine} (items : Array Value) :
      (∀ v ∈ items, m.heap.Holds v) → Reached host m →
      Reached host { m with heap := (m.heap.addArray items).2 }

namespace Machine

theorem sound_initial (console : Console) (clock : Clock) : (initial console clock).Sound where
  arrays := nofun
  fields := nofun
  functionHomes := nofun
  classHomes _ := Nat.zero_lt_one
  superclasses := nofun
  bindings id node there e mem := by
    obtain ⟨_ | index⟩ := id <;> cases there
    cases mem
  parents id parent found := by
    obtain ⟨_ | index⟩ := id <;> cases found
  current := Nat.zero_lt_one
  globals := Nat.zero_lt_one

theorem Sound.registerAll {m : Machine} (sound : m.Sound) (decls : List NativeDecl) :
    (m.registerAll decls).Sound := by
  induction decls generalizing m with
  | nil => exact sound
  | cons decl rest ih =>
    have native : ∀ d home, Routine.native decl.name decl.arity decl.action = .user d home →
        m.scopes.Has home := nofun
    have added := sound.addFunction native
    have new : (m.heap.addFunction (.native decl.name decl.arity decl.action)).2.Holds
        (.function ⟨m.heap.functions.size⟩) := by
      simp [Heap.Holds, Heap.addFunction]
    exact ih (added.define Machine.globals decl.name true new)

/-- Whatever a client does, no handle dangles. -/
theorem Reached.sound {host : Host} (faithful : host.Faithful) {m : Machine}
    (reached : m.Reached host) : m.Sound := by
  induction reached with
  | fresh console clock decls => exact (sound_initial console clock).registerAll decls
  | @interpret m fuel mode p _ sound =>
    exact ((sound_interpret faithful fuel mode m p).after m (.refl m) sound).1
  | @call m fuel callee args held _ sound =>
    exact (((keeps faithful fuel).callValue m callee args held).after m (.refl m) sound).1
  | array items held _ sound => exact sound.addArray held

end Machine

/-- A session that runs a text goes from one reachable machine to the next. -/
theorem Session.reached_run {s : Session} (reached : s.machine.Reached s.host) (text : String) :
    (s.run text).2.machine.Reached s.host := by
  simp only [Session.run]
  split
  · rw [Session.machine_execute]
    exact .interpret _ _ _ reached
  · exact reached

/-! ## The way outward -/

/-- The scopes from `id` outward to one that has no parent. -/
inductive Scopes.Chain {α : Type} (s : Scopes α) : ScopeId → List ScopeId → Prop
  | outermost {id : ScopeId} : s.parent? id = none → Chain s id [id]
  | inside {id parent : ScopeId} {outward : List ScopeId} : s.parent? id = some parent →
      Chain s parent outward → Chain s id (id :: outward)

namespace Scopes

variable {α : Type} {s : Scopes α}

/-- Older parents end every way outward. The induction is on the age of the scope. -/
theorem exists_chain (older : ∀ id parent, s.parent? id = some parent → parent.index < id.index)
    (id : ScopeId) : ∃ path, s.Chain id path ∧ path.length ≤ id.index + 1 := by
  obtain ⟨age⟩ := id
  induction age using Nat.strongRecOn with
  | ind age ih =>
    cases up : s.parent? ⟨age⟩ with
    | none => exact ⟨_, .outermost up, Nat.le_add_left 1 age⟩
    | some parent =>
      have before : parent.index < age := older _ _ up
      obtain ⟨path, chain, short⟩ := ih parent.index before
      exact ⟨_, .inside up chain, Nat.succ_le_succ (Nat.le_trans short before)⟩

theorem olderParent?_of_older {id : ScopeId}
    (older : ∀ parent, s.parent? id = some parent → parent.index < id.index) :
    s.olderParent? id = s.parent? id := by
  rw [olderParent?]
  cases up : s.parent? id with
  | none => rfl
  | some parent => exact Option.filter_some_pos (decide_eq_true (older parent up))

/-- The depth of a scope is the length of its way outward. -/
theorem Chain.length_eq (older : ∀ id parent, s.parent? id = some parent → parent.index < id.index)
    {id : ScopeId} {path : List ScopeId} (chain : s.Chain id path) :
    path.length = s.depth id + 1 := by
  induction chain with
  | @outermost id up =>
    have top := (olderParent?_of_older (older id)).trans up
    rw [Scopes.depth]
    split
    · rfl
    · next found => cases top.symm.trans found
  | @inside id parent outward up _ ih =>
    have next := (olderParent?_of_older (older id)).trans up
    rw [Scopes.depth]
    split
    · next found => cases next.symm.trans found
    · next found =>
      cases next.symm.trans found
      exact congrArg (· + 1) ih

/-- Looking up a name is a search on the way outward. -/
theorem Chain.owner?_eq (older : ∀ id parent, s.parent? id = some parent → parent.index < id.index)
    {id : ScopeId} {path : List ScopeId} (chain : s.Chain id path) (name : String) :
    s.owner? id name = path.find? (s.contains · name) := by
  induction chain with
  | @outermost id up =>
    have top := (olderParent?_of_older (older id)).trans up
    rw [owner?, List.find?_cons]
    cases s.contains id name with
    | true => rfl
    | false =>
      simp only [Bool.false_eq_true, if_false, List.find?_nil]
      split
      · rfl
      · next found => cases top.symm.trans found
  | @inside id parent outward up _ ih =>
    have next := (olderParent?_of_older (older id)).trans up
    rw [owner?, List.find?_cons]
    cases s.contains id name with
    | true => rfl
    | false =>
      simp only [Bool.false_eq_true, if_false]
      split
      · next found => cases next.symm.trans found
      · next found =>
        cases next.symm.trans found
        exact ih

end Scopes

/-! ## The way up -/

/-- The classes from `id` up to one that has no superclass. -/
inductive Heap.Lineage (h : Heap) : ClassId → List ClassId → Prop
  | top {id : ClassId} : (h.classRecord id).superclass = none → Lineage h id [id]
  | under {id parent : ClassId} {up : List ClassId} : (h.classRecord id).superclass = some parent →
      Lineage h parent up → Lineage h id (id :: up)

theorem Heap.exists_lineage {h : Heap}
    (older : ∀ id parent, (h.classRecord id).superclass = some parent → parent.index < id.index)
    (id : ClassId) : ∃ path, h.Lineage id path ∧ path.length ≤ id.index + 1 := by
  obtain ⟨age⟩ := id
  induction age using Nat.strongRecOn with
  | ind age ih =>
    cases up : (h.classRecord ⟨age⟩).superclass with
    | none => exact ⟨_, .top up, Nat.le_add_left 1 age⟩
    | some parent =>
      have before : parent.index < age := older _ _ up
      obtain ⟨path, lineage, short⟩ := ih parent.index before
      exact ⟨_, .under up lineage, Nat.succ_le_succ (Nat.le_trans short before)⟩

section Binding

open Run

variable {host : Host} {n : Nat}

theorem bindMethods_ok (object : ObjectId) (scope : ScopeId) (decls : List (FunctionDecl Stmt))
    (methods : Dict Value) (m : Machine) :
    ∃ table m', bindMethods object scope decls methods m = .ok table m' := by
  induction decls generalizing methods m with
  | nil => exact ⟨methods, m, rfl⟩
  | cons decl rest ih => exact ih _ _

theorem bindInherited_ok (scope : ScopeId) (parentName : String) (bound : BoundClass)
    (m : Machine) : ∃ u m', bindInherited scope parentName bound m = .ok u m' := by
  obtain ⟨methods, _ | id⟩ := bound <;> exact ⟨(), _, rfl⟩

/-- Of the members of a class only the field defaults can stop the binding. -/
theorem initFields_of_bindMembers {object : ObjectId} {scope : ScopeId} {decl : ClassDecl Stmt}
    {inherited : Dict Value} {m m' : Machine} {why : Stop}
    (stopped : bindMembers host n object scope decl inherited m = .error why m') :
    ∃ m₁ m₂, initFields host n object decl.fields m₁ = .error why m₂ := by
  unfold bindMembers at stopped
  cases ran : initFields host n object decl.fields { m with scope } with
  | error e m₁ =>
    have inside : within scope (initFields host n object decl.fields) m =
        .error e { m₁ with scope := m.scope } := by
      unfold Run.within
      rw [ran]
    rw [bind_of_error inside] at stopped
    cases stopped
    exact ⟨_, _, ran⟩
  | ok u m₁ =>
    have inside : within scope (initFields host n object decl.fields) m =
        .ok u { m₁ with scope := m.scope } := by
      unfold Run.within
      rw [ran]
    obtain ⟨table, m₂, bound⟩ := bindMethods_ok object scope decl.methods inherited
      { m₁ with scope := m.scope }
    rw [bind_of_ok inside, bind_of_ok bound] at stopped
    cases declared : decl.constructor <;> rw [declared] at stopped <;> cases stopped

/-- The machine in which a class has got its scope, which is the newest one. -/
def Machine.withScopeOf (m : Machine) (id : ClassId) (object : ObjectId) : Machine :=
  let (scope, scopes) := m.scopes.child (m.heap.classRecord id).home
  { m with scopes := scopes.define scope "this" (.object object) false }

theorem bindClass_of_top {id : ClassId} {m : Machine}
    (up : (m.heap.classRecord id).superclass = none) (object : ObjectId) :
    bindClass host (n + 1) id object m =
      bindMembers host n object ⟨m.scopes.nodes.size⟩ (m.heap.classRecord id).decl .empty
        (m.withScopeOf id object) := by
  rw [bindClass, bind_of_ok (rfl : (get : Run Machine) m = .ok m m)]
  simp only [up]
  rfl

/-- A class below another binds its superclass first, on the same heap. -/
theorem bindClass_of_superclass {id parent : ClassId} {m : Machine}
    (up : (m.heap.classRecord id).superclass = some parent) (object : ObjectId) :
    bindClass host (n + 1) id object m =
      (bindClass host n parent object >>= fun bound => get >>= fun m₂ =>
        bindInherited ⟨m.scopes.nodes.size⟩ (m₂.heap.classRecord parent).name bound >>= fun _ =>
          bindMembers host n object ⟨m.scopes.nodes.size⟩ (m.heap.classRecord id).decl
            bound.methods) (m.withScopeOf id object) := by
  rw [bindClass, bind_of_ok (rfl : (get : Run Machine) m = .ok m m)]
  simp only [up]
  rfl

/-- The recursion that binds a class ends: a bound at least as large as the number of classes on the
way up is used up only by a field default on that way. The superclasses are bound before any default
is evaluated, so the heap that the recursion follows is the one that it starts with. -/
theorem bindClass_outOfFuel {h : Heap} {id : ClassId} {path : List ClassId}
    (lineage : h.Lineage id path) {m m' : Machine} (same : m.heap = h) {object : ObjectId}
    (enough : path.length ≤ n) (stopped : bindClass host n id object m = .error .outOfFuel m') :
    ∃ ancestor ∈ path, ∃ k, n ≤ k + path.length ∧ ∃ m₁ m₂,
      initFields host k object (h.classRecord ancestor).decl.fields m₁ = .error .outOfFuel m₂ := by
  induction lineage generalizing n m m' with
  | @top id up =>
    obtain ⟨n, rfl⟩ : ∃ k, n = k + 1 := ⟨n - 1, (Nat.sub_add_cancel enough).symm⟩
    subst same
    rw [bindClass_of_top up] at stopped
    obtain ⟨m₂, m₃, default⟩ := initFields_of_bindMembers stopped
    exact ⟨id, List.mem_singleton_self id, n, Nat.le_refl _, m₂, m₃, default⟩
  | @under id parent outward up _ ih =>
    obtain ⟨n, rfl⟩ : ∃ k, n = k + 1 :=
      ⟨n - 1, (Nat.sub_add_cancel (Nat.le_trans (Nat.le_add_left 1 _) enough)).symm⟩
    subst same
    rw [bindClass_of_superclass up] at stopped
    rcases bind_eq_error stopped with inherited | ⟨bound, m₂, -, stopped⟩
    · have kept : (m.withScopeOf id object).heap = m.heap := rfl
      obtain ⟨ancestor, mem, k, near, rest⟩ := ih kept (Nat.le_of_succ_le_succ enough) inherited
      exact ⟨ancestor, List.mem_cons_of_mem id mem, k, Nat.succ_le_succ near, rest⟩
    · obtain ⟨u, m₃, named⟩ := bindInherited_ok ⟨m.scopes.nodes.size⟩
        (m₂.heap.classRecord parent).name bound m₂
      rw [bind_of_ok (rfl : (get : Run Machine) m₂ = .ok m₂ m₂), bind_of_ok named] at stopped
      obtain ⟨m₄, m₅, default⟩ := initFields_of_bindMembers stopped
      have here : n + 1 ≤ n + (id :: outward).length := Nat.add_le_add_left (Nat.le_add_left 1 _) n
      exact ⟨id, List.mem_cons_self, n, here, m₄, m₅, default⟩

end Binding

/-! ## The main statement -/

/-- **No handle dangles.** On every machine that a client can reach with a pure host (`Host`) that
makes up no handles, whatever its runs and calls ended with and the clock showed, each stored handle refers to something of its kind, and parents and superclasses are
older than what refers to them. So the way outward from a scope ends, and looking up names and
measuring depths are searches on it; and the way up from a class ends, and binding the class uses up
no more fuel of its own than there are classes on it. -/
theorem no_handle_dangles {host : Host} (faithful : host.Faithful) {m : Machine}
    (reached : m.Reached host) :
    m.Sound ∧
    (∀ id, m.scopes.Has id → ∃ path, m.scopes.Chain id path ∧ path.length ≤ id.index + 1 ∧
      path.length = m.scopes.depth id + 1 ∧
      ∀ name, m.scopes.owner? id name = path.find? (m.scopes.contains · name)) ∧
    ∀ id, m.heap.Holds (.cls id) → ∃ path, m.heap.Lineage id path ∧ path.length ≤ id.index + 1 ∧
      ∀ n object m', path.length ≤ n → bindClass host n id object m = .error .outOfFuel m' →
        ∃ ancestor ∈ path, ∃ k, n ≤ k + path.length ∧ ∃ m₁ m₂,
          initFields host k object (m.heap.classRecord ancestor).decl.fields m₁ =
            .error .outOfFuel m₂ := by
  have sound := reached.sound faithful
  have scopes (id parent : ScopeId) (up : m.scopes.parent? id = some parent) :=
    (sound.parents id parent up).2
  have classes (id parent : ClassId) (up : (m.heap.classRecord id).superclass = some parent) :=
    (sound.superclasses id parent up).2
  refine ⟨sound, fun id _ => ?_, fun id _ => ?_⟩
  · obtain ⟨path, chain, short⟩ := Scopes.exists_chain scopes id
    exact ⟨path, chain, short, chain.length_eq scopes, chain.owner?_eq scopes⟩
  · obtain ⟨path, lineage, short⟩ := Heap.exists_lineage classes id
    exact ⟨path, lineage, short, fun _ _ _ => bindClass_outOfFuel lineage rfl⟩

/-- A text whose values refer to themselves: an array, an object, a function in its own scope. -/
def knottedLine : String :=
  "var a = []; a[0] = a; class A \x7b me = this; \x7d class B : A \x7b near = a; \x7d" ++
    " var b = B(); var f; \x7b function g() \x7b return g; \x7d f = g; \x7d" ++
    " b.pair = pair(b, f); lost"

/-- The toolkit answers with numbers, texts and arrays of what it was given. -/
theorem Toolkit.faithful_host : Toolkit.host.Faithful := by
  intro key args h held
  unfold Toolkit.host
  split
  · exact .bind fun _ => .ok trivial
  · exact .error _
  · exact .error _
  · exact .ok trivial
  · dsimp only
    split
    · exact .ok (P := h.HoldsReply) trivial
    · exact .error _
  · exact .ok held
  · exact .ok trivial
  · exact .ok trivial

/-- The handles of `knottedLine`, which stops with a fault, go round in circles, but not outward. -/
theorem knotted_handles_hold :
    let m := ((Session.fresh .interactive {} (.still 0) (standardLibrary ++ Toolkit.decls)
      Toolkit.host).run knottedLine).2.machine
    m.heap.array ⟨0⟩ = #[.array ⟨0⟩] ∧ (m.heap.object ⟨0⟩).fields.get? "me" = some (.object ⟨0⟩) ∧
      m.Sound ∧ m.heap.Holds (.cls ⟨1⟩) ∧
      ∃ path, m.heap.Lineage ⟨1⟩ path ∧ path.length ≤ 2 := by
  intro m
  have reached : m.Reached Toolkit.host :=
    Session.reached_run (s := .fresh .interactive {} (.still 0) _ Toolkit.host) (.fresh {} (.still 0) _) knottedLine
  obtain ⟨sound, -, classes⟩ := no_handle_dangles Toolkit.faithful_host reached
  have round : (m.heap.array ⟨0⟩ = #[.array ⟨0⟩] ∧
      (m.heap.object ⟨0⟩).fields.get? "me" = some (.object ⟨0⟩)) ∧ 1 < m.heap.classes.size := by
    decide +kernel
  obtain ⟨path, lineage, short, -⟩ := classes ⟨1⟩ round.2
  exact ⟨round.1.1, round.1.2, sound, round.2, path, lineage, short⟩

end Scriptlet
