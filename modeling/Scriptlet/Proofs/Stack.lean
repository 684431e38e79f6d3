import Scriptlet.Proofs.Footprint
import Scriptlet.Session

/-!
# Stack discipline

The machine has one current scope and one count of the function bodies it is in. Blocks, calls and
field defaults move both and put them back. The main statement, `stack_restored`, says that every
part of the evaluator ends with the scope and the count it started with, also when it stops in the
middle; hence a session stands outside all blocks and bodies whenever it waits for its next request.
-/

namespace Scriptlet

/-- Two machines stand in the same scope and in equally many function bodies. -/
structure SameStack (m m' : Machine) : Prop where
  scope : m'.scope = m.scope
  depth : m'.depth = m.depth

theorem SameStack.refl (m : Machine) : SameStack m m := ⟨rfl, rfl⟩

theorem SameStack.trans {a b c : Machine} (h₁ : SameStack a b) (h₂ : SameStack b c) :
    SameStack a c :=
  ⟨h₂.scope.trans h₁.scope, h₂.depth.trans h₁.depth⟩

/-- A step that puts back the current scope and the count of bodies, whatever it ends with. -/
def Run.KeepsStack {α : Type} (r : Run α) : Prop := ∀ m, SameStack m (r.after m)

/-- The stack is put back, and no scope is removed. -/
def Footprint.stack : Footprint where
  expr m m' := SameStack m m' ∧ m.scopes.nodes.size ≤ m'.scopes.nodes.size
  stmt m m' := SameStack m m' ∧ m.scopes.nodes.size ≤ m'.scopes.nodes.size
  refl m := ⟨.refl m, Nat.le_refl _⟩
  trans h₁ h₂ := ⟨h₁.1.trans h₂.1, Nat.le_trans h₁.2 h₂.2⟩
  stmt_trans h₁ h₂ := ⟨h₁.1.trans h₂.1, Nat.le_trans h₁.2 h₂.2⟩
  widen h := h
  size_le h := h.2
  heap _ _ := ⟨⟨rfl, rfl⟩, Nat.le_refl _⟩
  console _ _ := ⟨⟨rfl, rfl⟩, Nat.le_refl _⟩
  clock _ := ⟨⟨rfl, rfl⟩, Nat.le_refl _⟩
  child _ _ := ⟨⟨rfl, rfl⟩, by simp⟩
  assign _ _ _ _ _ := ⟨⟨rfl, rfl⟩, by simp⟩
  declare _ _ _ _ := ⟨⟨rfl, rfl⟩, by simp⟩
  define_fresh _ _ _ _ h _ := ⟨⟨h.1.scope, h.1.depth⟩, by simpa using h.2⟩
  within_fresh _ h _ inside :=
    ⟨⟨h.1.scope, inside.1.depth.trans h.1.depth⟩, Nat.le_trans h.2 inside.2⟩
  deeper h := ⟨⟨h.1.scope, by simp [h.1.depth]⟩, h.2⟩

theorem Footprint.Evaluates.keepsStack {α : Type} {r : Run α}
    (h : Footprint.stack.Evaluates r) : r.KeepsStack := fun m => (h m).1

theorem Footprint.Executes.keepsStack {α : Type} {r : Run α}
    (h : Footprint.stack.Executes r) : r.KeepsStack := fun m => (h m).1

/-! ## Sessions -/

/-- What a session is asked to do: run a text, or call a value. -/
inductive Request where
  | text (source : String)
  | call (callee : Value) (args : List Value)

namespace Session

/-- A session with the natives `decls` before its first request. -/
def fresh (mode : Mode) (console : Console) (clock : Clock) (decls : List NativeDecl)
    (host : Host) : Session :=
  ⟨(Machine.initial console clock).registerAll decls, mode, host⟩

/-- The session after a request, whether it was rejected, stopped or finished. -/
def serve (s : Session) : Request → Session
  | .text source => (s.run source).2
  | .call callee args => (s.call callee args).2

/-- The session after several requests, in their order. -/
def serveAll (s : Session) (requests : List Request) : Session := requests.foldl serve s

theorem machine_perform {α : Type} (s : Session) (r : Run α) :
    (s.perform r).2.machine = r.after s.machine := by
  obtain ⟨machine, mode, host⟩ := s
  simp only [perform, Run.after]
  cases r machine <;> rfl

theorem machine_execute (s : Session) (statements : List Stmt) :
    (s.execute statements).2.machine =
      (interpret s.host fuel s.mode statements).after s.machine := by
  rw [← machine_perform, execute]
  split <;> rename_i h <;> rw [h]

/-- One request leaves the stack as it was. A rejected text does not reach the machine at all. -/
theorem sameStack_serve (s : Session) (request : Request) :
    SameStack s.machine (s.serve request).machine := by
  cases request with
  | text source =>
    simp only [serve, run]
    split
    · rw [machine_execute]
      exact (Footprint.stack.executes_interpret s.host fuel s.mode _).keepsStack s.machine
    · exact .refl s.machine
  | call callee args =>
    rw [serve, call, machine_perform]
    exact ((Footprint.stack.respects s.host fuel).callValue callee args).keepsStack s.machine

theorem sameStack_serveAll (s : Session) (requests : List Request) :
    SameStack s.machine (s.serveAll requests).machine := by
  induction requests generalizing s with
  | nil => exact .refl s.machine
  | cons request rest ih => exact (sameStack_serve s request).trans (ih (s.serve request))

end Session

/-- Registering natives binds them outside all scopes and goes nowhere. -/
theorem Machine.sameStack_registerAll (m : Machine) (decls : List NativeDecl) :
    SameStack m (m.registerAll decls) := by
  induction decls generalizing m with
  | nil => exact .refl m
  | cons decl rest ih =>
    have registered : SameStack m (m.register decl) := ⟨rfl, rfl⟩
    exact registered.trans (ih (m.register decl))

/-- **Stack discipline.** Every part of the evaluator puts back the current scope and the count of
function bodies, with whatever value, return or fault it ends; so a fresh session is outside all
scopes and bodies after any requests, whatever the clock shows on the way. The host is pure
(`Host`): its functions do not call back. -/
theorem stack_restored (host : Host) (n : Nat) :
    (∀ e, (Expr.eval host n e).KeepsStack) ∧
    (∀ s, (Stmt.exec host n s).KeepsStack) ∧
    (∀ body, (Stmt.execAll host n body).KeepsStack) ∧
    (∀ id args, (callFunction host n id args).KeepsStack) ∧
    (∀ callee args, (callValue host n callee args).KeepsStack) ∧
    (∀ id args, (instantiate host n id args).KeepsStack) ∧
    (∀ mode statements, (interpret host n mode statements).KeepsStack) ∧
    ∀ mode console clock decls requests,
      let s := (Session.fresh mode console clock decls host).serveAll requests
      s.machine.scope = Machine.globals ∧ s.machine.depth = 0 := by
  have parts := Footprint.stack.respects host n
  refine ⟨fun e => (parts.eval e).keepsStack, fun s => (parts.exec s).keepsStack,
    fun body => (parts.execAll body).keepsStack,
    fun id args => (parts.callFunction id args).keepsStack,
    fun callee args => (parts.callValue callee args).keepsStack,
    fun id args => (parts.instantiate id args).keepsStack,
    fun mode statements => (Footprint.stack.executes_interpret host n mode statements).keepsStack,
    ?_⟩
  intro mode console clock decls requests
  have registered := Machine.sameStack_registerAll (.initial console clock) decls
  have served := registered.trans
    (Session.sameStack_serveAll (.fresh mode console clock decls host) requests)
  exact ⟨served.scope, served.depth⟩

end Scriptlet
