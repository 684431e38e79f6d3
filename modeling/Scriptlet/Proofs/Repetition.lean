import Scriptlet.Proofs.Handles.Chains
import Scriptlet.Proofs.Handles.Spares
import Scriptlet.Proofs.Parts

/-!
# Evaluating an expression once more

An expression that only reads adds arrays to the machine and nothing else. When it is evaluated
once more, it adds the same arrays behind those of the first time, so the two evaluations end alike
up to the handles of these arrays: where the first one has the handle of an array that it made, the
handle of the second one lies as much further back as the first one made arrays (`Value.moved`).

The second evaluation is one that finds some arrays, `gap`, in front of those that it makes
(`Run.Repeats`). With no arrays in the gap the same lemma says that neither the host nor the bound
on the length of the run matters.
-/

namespace Scriptlet

/-! ## Moving handles -/

/-- The handle of an array after `count` arrays were put in front of those from `start` on. -/
def ArrayId.moved (start count : Nat) (id : ArrayId) : ArrayId :=
  if id.index < start then id else ⟨id.index + count⟩

theorem ArrayId.index_moved (start count : Nat) (id : ArrayId) :
    (id.moved start count).index = if id.index < start then id.index else id.index + count := by
  unfold ArrayId.moved
  split <;> rfl

/-- No two handles meet where they are moved to. -/
theorem ArrayId.moved_inj {start count : Nat} {id id' : ArrayId} :
    id.moved start count = id'.moved start count ↔ id = id' := by
  have by_index (a b : ArrayId) : a = b ↔ a.index = b.index := by
    cases a
    cases b
    simp
  rw [by_index, by_index id, index_moved, index_moved]
  split <;> split <;> omega

namespace Value

/-- A value after arrays were put in front of those from `start` on. -/
def moved (start count : Nat) : Value → Value
  | .array id => .array (id.moved start count)
  | v => v

variable {start count : Nat}

theorem moved_zero (v : Value) : v.moved start 0 = v := by
  cases v with
  | array id =>
    rw [moved, ArrayId.moved]
    split <;> rfl
  | _ => rfl

@[simp] theorem isNull_moved (v : Value) : (v.moved start count).isNull = v.isNull := by
  cases v <;> rfl

theorem moved_constant (c : Constant) : c.value.moved start count = c.value := by
  cases c <;> rfl

@[simp] theorem same_moved (v w : Value) :
    (v.moved start count).same (w.moved start count) = v.same w := by
  cases v with
  | array id =>
    cases w with
    | array id' =>
      show (id.moved start count == id'.moved start count) = (id == id')
      rw [Bool.eq_iff_iff, beq_iff_eq, beq_iff_eq, ArrayId.moved_inj]
    | _ => rfl
  | _ => cases w <;> rfl

end Value

/-! ## Reading from a heap with more arrays -/

/-- `h'` is `h` with `count` arrays put in front of those from `start` on. -/
structure Heap.Moved (start count : Nat) (h h' : Heap) : Prop where
  array : ∀ id : ArrayId,
    h'.array (id.moved start count) = (h.array id).map (Value.moved start count)
  object : ∀ id, h'.object id = h.object id
  fields : ∀ id, ∀ e ∈ (h.object id).fields.entries, e.2.moved start count = e.2

namespace Heap.Moved

variable {start count : Nat} {h h' : Heap} (alike : Heap.Moved start count h h')
include alike

theorem size_array (id : ArrayId) :
    (h'.array (id.moved start count)).size = (h.array id).size := by
  rw [alike.array, Array.size_map]

theorem toNumber (v : Value) : h'.toNumber (v.moved start count) = h.toNumber v := by
  cases v with
  | array id =>
    show Except.ok (Number.ofNat (h'.array (id.moved start count)).size) = _
    rw [alike.size_array]
    rfl
  | _ => rfl

theorem toBool (v : Value) : h'.toBool (v.moved start count) = h.toBool v := by
  cases v with
  | array id =>
    show (!(h'.array (id.moved start count)).isEmpty) = !(h.array id).isEmpty
    rw [Array.isEmpty, alike.size_array, ← Array.isEmpty]
  | _ => rfl

theorem unary (op : UnaryOp) (v : Value) :
    h'.unary op (v.moved start count) = (h.unary op v).map (Value.moved start count) := by
  cases op with
  | not =>
    rw [Heap.unary, Heap.unary, alike.toBool]
    rfl
  | neg =>
    rw [Heap.unary, Heap.unary, alike.toNumber]
    cases h.toNumber v <;> rfl

theorem binary (op : BinaryOp) (a b : Value) :
    h'.binary op (a.moved start count) (b.moved start count) =
      (h.binary op a b).map (Value.moved start count) := by
  cases op with
  | add => cases a <;> cases b <;> rfl
  | eq | ne =>
    simp only [Heap.binary, Value.same_moved]
    rfl
  | div =>
    simp only [Heap.binary, alike.toNumber]
    cases h.toNumber b with
    | error f => rfl
    | ok divisor =>
      show (if divisor == 0.0 then _ else _) = Except.map _ (if divisor == 0.0 then _ else _)
      split
      · rfl
      · cases h.toNumber a <;> rfl
  | _ =>
    simp only [Heap.binary, Heap.compare, Heap.bitwise, alike.toNumber]
    cases h.toNumber a <;> cases h.toNumber b <;> rfl

theorem indexGet (target index : Value) :
    h'.indexGet (target.moved start count) (index.moved start count) =
      (h.indexGet target index).map (Value.moved start count) := by
  have position : Heap.position (index.moved start count) = Heap.position index := by
    cases index <;> rfl
  cases target with
  | text s =>
    show (h'.indexGet (.text s) _) = _
    rw [Heap.indexGet, Heap.indexGet, position]
    cases Heap.position index with
    | error f => rfl
    | ok i =>
      cases i with
      | negSucc n => rfl
      | ofNat n =>
        dsimp only [Bind.bind, Except.bind]
        cases s.toList[n]? <;> rfl
  | array id =>
    show (h'.indexGet (.array (id.moved start count)) _) = _
    rw [Heap.indexGet, Heap.indexGet, position, alike.array, Array.size_map]
    cases Heap.position index with
    | error f => rfl
    | ok i =>
      cases i with
      | negSucc n => rfl
      | ofNat n =>
        show Except.ok (((h.array id).map (Value.moved start count))[n]?.getD .null) =
          Except.ok (((h.array id)[n]?.getD .null).moved start count)
        rw [Array.getElem?_map]
        cases (h.array id)[n]? <;> rfl
  | _ => rfl

theorem fieldGet (target : Value) (name : String) :
    h'.fieldGet (target.moved start count) name =
      (h.fieldGet target name).map (Value.moved start count) := by
  cases target with
  | text s =>
    show h'.fieldGet (.text s) name = _
    unfold Heap.fieldGet
    dsimp only
    split <;> rfl
  | object id =>
    show h'.fieldGet (.object id) name = _
    unfold Heap.fieldGet
    dsimp only
    rw [alike.object]
    cases found : (h.object id).fields.get? name with
    | none => rfl
    | some value =>
      have still := alike.fields id _ (Dict.mem_of_get? found)
      exact congrArg Except.ok still.symm
  | _ => rfl

theorem shortCircuit? (op : LogicalOp) (left : Value) :
    Run.shortCircuit? h' op (left.moved start count) =
      (Run.shortCircuit? h op left).map (Value.moved start count) := by
  unfold Run.shortCircuit?
  rw [alike.toBool, Value.isNull_moved]
  cases op <;> dsimp only <;> split <;> rfl

theorem afterRight (op : LogicalOp) (right : Value) :
    Run.afterRight h' op (right.moved start count) =
      (Run.afterRight h op right).moved start count := by
  unfold Run.afterRight
  rw [alike.toBool]
  cases op <;> rfl

end Heap.Moved

/-! ## Machines with new arrays -/

namespace Machine

/-- The machine with some more arrays. -/
def grown (m : Machine) (fresh : Array (Array Value)) : Machine :=
  { m with heap := { m.heap with arrays := m.heap.arrays ++ fresh } }

@[simp] theorem grown_empty (m : Machine) : m.grown #[] = m := by
  simp [grown]

/-- A run that ends in the machine with an answer. -/
def ending {α : Type} (m : Machine) : Except Fault α → EStateM.Result Stop Machine α
  | .ok a => .ok a m
  | .error f => .error (.fault f) m

/-- How values move when arrays are put in front of those that the machine makes next. -/
def move (m : Machine) (gap : Array (Array Value)) : Value → Value :=
  Value.moved m.heap.arrays.size gap.size

/-- The machine with new arrays behind a gap. -/
def apart (m : Machine) (gap fresh : Array (Array Value)) : Machine :=
  m.grown (gap ++ fresh.map (·.map (m.move gap)))

/-- What is stored in the machine stays the same when arrays are put behind those that it has. -/
structure Settled (m : Machine) (gap : Array (Array Value)) : Prop where
  arrays : ∀ id, ∀ v ∈ m.heap.array id, m.move gap v = v
  fields : ∀ id, ∀ e ∈ (m.heap.object id).fields.entries, m.move gap e.2 = e.2
  names : ∀ name v, m.scopes.get? m.scope name = some v → m.move gap v = v

theorem settled_empty (m : Machine) : m.Settled #[] :=
  ⟨fun _ v _ => v.moved_zero, fun _ e _ => e.2.moved_zero, fun _ v _ => v.moved_zero⟩

theorem move_of_holds {m : Machine} {v : Value} (held : m.heap.Holds v)
    (gap : Array (Array Value)) : m.move gap v = v := by
  cases v with
  | array id =>
    have old : id.moved m.heap.arrays.size gap.size = id := if_pos held
    exact congrArg Value.array old
  | _ => rfl

theorem Sound.settled {m : Machine} (sound : m.Sound) (gap : Array (Array Value)) :
    m.Settled gap where
  arrays id v mem := move_of_holds (sound.arrays id v mem) gap
  fields id e mem := move_of_holds (sound.fields id e mem) gap
  names _ _ found := move_of_holds (sound.holds_of_get? found) gap

/-- Behind the gap the new arrays are what they are without it. -/
theorem Settled.moved {m : Machine} {gap : Array (Array Value)} (settled : m.Settled gap)
    (fresh : Array (Array Value)) :
    Heap.Moved m.heap.arrays.size gap.size (m.grown fresh).heap (m.apart gap fresh).heap where
  object _ := rfl
  fields := settled.fields
  array id := by
    obtain ⟨i⟩ := id
    show ((m.heap.arrays ++ (gap ++ fresh.map (·.map (m.move gap))))[
        (ArrayId.moved m.heap.arrays.size gap.size ⟨i⟩).index]?.getD #[]) =
      ((m.heap.arrays ++ fresh)[i]?.getD #[]).map (m.move gap)
    unfold ArrayId.moved
    split
    · next old =>
      have same : (m.heap.array ⟨i⟩).map (m.move gap) = m.heap.array ⟨i⟩ :=
        (Array.map_congr_left (settled.arrays ⟨i⟩)).trans (Array.map_id _)
      rw [Array.getElem?_append_left old, Array.getElem?_append_left old]
      exact same.symm
    · next new =>
      have behind : m.heap.arrays.size ≤ i := Nat.le_of_not_lt new
      rw [Array.getElem?_append_right behind, Array.getElem?_append_right (by simp only; omega),
        Array.getElem?_append_right (by simp only; omega), Array.getElem?_map,
        show i + gap.size - m.heap.arrays.size - gap.size = i - m.heap.arrays.size by omega]
      cases fresh[i - m.heap.arrays.size]? with
      | none => exact Array.map_empty.symm
      | some items => rfl

/-- What was added and the answer can be told from how a run ends. -/
theorem ending_inj {α : Type} {m : Machine} {answer answer' : Except Fault α}
    {fresh fresh' : Array (Array Value)}
    (same : (m.grown fresh).ending answer = (m.grown fresh').ending answer') :
    fresh = fresh' ∧ answer = answer' := by
  have cancel (same : m.grown fresh = m.grown fresh') : fresh = fresh' :=
    (Array.append_right_inj _).1 (congrArg (·.heap.arrays) same)
  cases answer with
  | ok a =>
    cases answer' with
    | ok a' =>
      obtain ⟨rfl, grown⟩ := EStateM.Result.ok.inj same
      exact ⟨cancel grown, rfl⟩
    | error f' => cases same
  | error f =>
    cases answer' with
    | ok a' => cases same
    | error f' =>
      obtain ⟨fault, grown⟩ := EStateM.Result.error.inj same
      exact ⟨cancel grown, congrArg Except.error (Stop.fault.inj fault)⟩

end Machine

/-! ## Runs beside one another -/

namespace Run

variable {α β γ δ : Type}

/-- From `m` with some new arrays `r` does nothing but add arrays, and it does not run for ever.
Behind the gap `r'` does the same, with `f` for the value. -/
def Repeats (m : Machine) (gap : Array (Array Value)) (f : α → β) (r : Run α) (r' : Run β) : Prop :=
  ∀ fresh, ∃ (answer : Except Fault α) (added : Array (Array Value)),
    r (m.grown fresh) = (m.grown (fresh ++ added)).ending answer ∧
    r' (m.apart gap fresh) = (m.apart gap (fresh ++ added)).ending (answer.map f)

variable {m : Machine} {gap : Array (Array Value)} {f : α → β} {g : γ → δ}
  {r : Run α} {r' : Run β} {k : α → Run γ} {k' : β → Run δ}

theorem repeats_pure (a : α) : Repeats m gap f (pure a) (pure (f a)) :=
  fun fresh => ⟨.ok a, #[], by rw [Array.append_empty]; rfl, by rw [Array.append_empty]; rfl⟩

theorem Repeats.bind (hr : Repeats m gap f r r') (hk : ∀ a, Repeats m gap g (k a) (k' (f a))) :
    Repeats m gap g (r >>= k) (r' >>= k') := by
  intro fresh
  obtain ⟨answer, added, ran, ran'⟩ := hr fresh
  cases answer with
  | error fault => exact ⟨.error fault, added, bind_of_error ran, bind_of_error ran'⟩
  | ok a =>
    obtain ⟨answer, more, went, went'⟩ := hk a (fresh ++ added)
    refine ⟨answer, added ++ more, ?_, ?_⟩
    · rw [← Array.append_assoc]
      exact (bind_of_ok ran).trans went
    · rw [← Array.append_assoc]
      exact (bind_of_ok ran').trans went'

theorem Repeats.get_bind {k : Machine → Run α} {k' : Machine → Run β}
    (h : ∀ fresh, Repeats m gap f (k (m.grown fresh)) (k' (m.apart gap fresh))) :
    Repeats m gap f (get >>= k) (get >>= k') :=
  fun fresh => h fresh fresh

theorem repeats_onHeap {h : Heap → Except Fault α} {h' : Heap → Except Fault β}
    (same : ∀ fresh, h' (m.apart gap fresh).heap = (h (m.grown fresh).heap).map f) :
    Repeats m gap f (onHeap h) (onHeap h') := by
  intro fresh
  refine ⟨h (m.grown fresh).heap, #[], ?_, ?_⟩
  · rw [Array.append_empty, onHeap]
    cases h (m.grown fresh).heap <;> rfl
  · rw [Array.append_empty, onHeap, same]
    cases h (m.grown fresh).heap <;> rfl

/-- What looking up a name answers, whatever arrays there are. -/
def meaning (m : Machine) (name : Name) : Except Fault Value :=
  match m.scopes.get? m.scope name.text with
  | some v => .ok v
  | none => .error { cause := .undefinedVariable name.text, span := some name.span }

theorem lookup_grown (m : Machine) (fresh : Array (Array Value)) (name : Name) :
    lookup name (m.grown fresh) = (m.grown fresh).ending (meaning m name) := by
  show (match m.scopes.get? m.scope name.text with | some v => _ | none => _) = _
  rw [meaning]
  cases m.scopes.get? m.scope name.text <;> rfl

theorem repeats_lookup (settled : m.Settled gap) (name : Name) :
    Repeats m gap (m.move gap) (lookup name) (lookup name) := by
  have same : (meaning m name).map (m.move gap) = meaning m name := by
    unfold meaning
    cases found : m.scopes.get? m.scope name.text with
    | none => rfl
    | some v => exact congrArg Except.ok (settled.names _ _ found)
  intro fresh
  refine ⟨meaning m name, #[], ?_, ?_⟩
  · rw [Array.append_empty]
    exact lookup_grown m fresh name
  · rw [Array.append_empty, same]
    exact lookup_grown m _ name

theorem repeats_addArray (items : List Value) :
    Repeats m gap (ArrayId.moved m.heap.arrays.size gap.size)
      (allocate (·.addArray items.toArray))
      (allocate (·.addArray (items.map (m.move gap)).toArray)) := by
  intro fresh
  have new : ArrayId.moved m.heap.arrays.size gap.size ⟨m.heap.arrays.size + fresh.size⟩ =
      ⟨m.heap.arrays.size + (gap.size + fresh.size)⟩ := by
    rw [ArrayId.moved, if_neg (by simp), Nat.add_right_comm, Nat.add_assoc]
  refine ⟨.ok ⟨m.heap.arrays.size + fresh.size⟩, #[items.toArray], ?_, ?_⟩
  · simp [allocate, Heap.addArray, Machine.grown, Machine.ending]
  · simp [allocate, Heap.addArray, Machine.grown, Machine.apart, Machine.ending, Except.map, new]

theorem Repeats.locating (h : Repeats m gap f r r') (span : Span) :
    Repeats m gap f (locating span r) (locating span r') := by
  intro fresh
  obtain ⟨answer, added, ran, ran'⟩ := h fresh
  refine ⟨answer.mapError (·.orSpan span), added, ?_, ?_⟩
  · rw [Run.locating, ran]
    cases answer <;> rfl
  · rw [Run.locating, ran']
    cases answer <;> rfl

end Run

/-! ## The evaluator -/

namespace Expr

theorem onlyReads_of_mem {es : List Expr} (only : allOnlyRead es) {e : Expr} (mem : e ∈ es) :
    e.onlyReads := by
  induction es with
  | nil => cases mem
  | cons first rest ih =>
    obtain ⟨head, tail⟩ := Bool.and_eq_true_iff.1 only
    rcases List.mem_cons.1 mem with rfl | mem
    · exact head
    · exact ih tail mem

theorem onlyReads_of_mem_children {e c : Expr} (only : e.onlyReads) (mem : c ∈ e.children) :
    c.onlyReads := by
  cases e with
  | literal | ident => cases mem
  | array span elements => exact onlyReads_of_mem only mem
  | stepThenTake | takeThenStep | assign | call => cases only
  | _ =>
    simp only [children, List.mem_cons, List.not_mem_nil, or_false] at mem
    simp only [onlyReads, Bool.and_eq_true] at only
    grind

end Expr

section Evaluator

open Run

variable {m : Machine} {gap : Array (Array Value)} {host host' : Host}

theorem repeats_evalAll {es : List Expr} (each : ∀ e ∈ es, ∀ n n', sizeOf e < n → sizeOf e < n' →
      Repeats m gap (m.move gap) (Expr.eval host n e) (Expr.eval host' n' e)) {n n' : Nat}
    (enough : sizeOf es < n) (enough' : sizeOf es < n') :
    Repeats m gap (List.map (m.move gap)) (Expr.evalAll host n es) (Expr.evalAll host' n' es) := by
  induction es generalizing n n' with
  | nil =>
    obtain ⟨n, rfl⟩ := Nat.exists_eq_add_of_lt enough
    obtain ⟨n', rfl⟩ := Nat.exists_eq_add_of_lt enough'
    exact repeats_pure []
  | cons e rest ih =>
    obtain ⟨n, rfl⟩ := Nat.exists_eq_add_one_of_ne_zero (Nat.ne_zero_of_lt enough)
    obtain ⟨n', rfl⟩ := Nat.exists_eq_add_one_of_ne_zero (Nat.ne_zero_of_lt enough')
    rw [List.cons.sizeOf_spec] at enough enough'
    unfold Expr.evalAll
    have first := each e List.mem_cons_self n n' (by omega) (by omega)
    have others : Repeats m gap (List.map (m.move gap)) (Expr.evalAll host n rest)
        (Expr.evalAll host' n' rest) :=
      ih (fun e mem => each e (List.mem_cons_of_mem _ mem)) (by omega) (by omega)
    exact first.bind fun _ => others.bind fun _ => repeats_pure _

/-- Evaluating an expression that only reads is repeated with any fuel that the tree does not
exhaust, and by any host. -/
theorem repeats_eval (settled : m.Settled gap) (e : Expr) (only : e.onlyReads) {n n' : Nat}
    (enough : sizeOf e < n) (enough' : sizeOf e < n') :
    Repeats m gap (m.move gap) (Expr.eval host n e) (Expr.eval host' n' e) := by
  induction e using Expr.children_induction generalizing n n' with
  | step e ih =>
    obtain ⟨n, rfl⟩ := Nat.exists_eq_add_one_of_ne_zero (Nat.ne_zero_of_lt enough)
    obtain ⟨n', rfl⟩ := Nat.exists_eq_add_one_of_ne_zero (Nat.ne_zero_of_lt enough')
    have inside (c : Expr) (mem : c ∈ e.children) :
        Repeats m gap (m.move gap) (Expr.eval host n c) (Expr.eval host' n' c) := by
      have smaller := Expr.sizeOf_lt_of_mem_children mem
      exact ih c mem (Expr.onlyReads_of_mem_children only mem) (by omega) (by omega)
    unfold Expr.eval
    refine Repeats.locating ?_ e.span
    cases e with
    | literal span value =>
      have constant : Repeats m gap (m.move gap) (pure value.value)
          (pure (m.move gap value.value)) := repeats_pure value.value
      rwa [Machine.move, Value.moved_constant] at constant
    | ident name => exact repeats_lookup settled name
    | group span inner => exact inside inner List.mem_cons_self
    | array span elements =>
      rw [Expr.array.sizeOf_spec] at enough enough'
      have each (e : Expr) (mem : e ∈ elements) (k k' : Nat) (enough : sizeOf e < k)
          (enough' : sizeOf e < k') :
          Repeats m gap (m.move gap) (Expr.eval host k e) (Expr.eval host' k' e) :=
        ih e mem (Expr.onlyReads_of_mem only mem) enough enough'
      have items : Repeats m gap (List.map (m.move gap)) (Expr.evalAll host n elements)
          (Expr.evalAll host' n' elements) := repeats_evalAll each (by omega) (by omega)
      refine items.bind fun vs => ?_
      exact (repeats_addArray vs).bind fun id => repeats_pure (Value.array id)
    | unary span op operand =>
      refine (inside operand List.mem_cons_self).bind fun v => repeats_onHeap fun fresh => ?_
      exact (settled.moved fresh).unary op v
    | binary span op left right =>
      refine (inside left (by simp [Expr.children])).bind fun a => ?_
      refine (inside right (by simp [Expr.children])).bind fun b => repeats_onHeap fun fresh => ?_
      exact (settled.moved fresh).binary op a b
    | logical span op left right =>
      refine (inside left (by simp [Expr.children])).bind fun a => .get_bind fun fresh => ?_
      have decided := (settled.moved fresh).shortCircuit? op a
      rw [Machine.move, decided]
      cases shortCircuit? (m.grown fresh).heap op a with
      | some v => exact repeats_pure v
      | none =>
        refine (inside right (by simp [Expr.children])).bind fun b => .get_bind fun fresh => ?_
        have taken := (settled.moved fresh).afterRight op b
        rw [Machine.move, taken]
        exact repeats_pure _
    | ternary span condition yes no =>
      refine (inside condition (by simp [Expr.children])).bind fun v => .get_bind fun fresh => ?_
      rw [Machine.move, (settled.moved fresh).toBool v]
      split
      · exact inside yes (by simp [Expr.children])
      · exact inside no (by simp [Expr.children])
    | index span target position =>
      refine (inside target (by simp [Expr.children])).bind fun t => ?_
      refine (inside position (by simp [Expr.children])).bind fun i =>
        repeats_onHeap fun fresh => ?_
      exact (settled.moved fresh).indexGet t i
    | field span target name =>
      refine (inside target List.mem_cons_self).bind fun t => Repeats.locating ?_ name.span
      exact repeats_onHeap fun fresh => (settled.moved fresh).fieldGet t name.text
    | stepThenTake | takeThenStep | assign | call => cases only

/-- How an expression that only reads ends. It does so whatever the host is, and with any fuel that
the tree does not exhaust. -/
theorem eval_ends {e : Expr} (only : e.onlyReads) (m : Machine) :
    ∃ (answer : Except Fault Value) (fresh : Array (Array Value)), ∀ host n, sizeOf e < n →
      Expr.eval host n e m = (m.grown fresh).ending answer := by
  have repeats (host : Host) (n : Nat) (enough : sizeOf e < n) :
      Repeats m #[] (m.move #[]) (Expr.eval .none (sizeOf e + 1) e) (Expr.eval host n e) :=
    repeats_eval m.settled_empty e only (Nat.lt_succ_self _) enough
  obtain ⟨answer, fresh, once, -⟩ := repeats .none _ (Nat.lt_succ_self _) #[]
  rw [Machine.grown_empty, Array.empty_append] at once
  refine ⟨answer, fresh, fun host n enough => ?_⟩
  -- the run with this host and fuel is beside the same one run
  obtain ⟨answer', fresh', again, beside⟩ := repeats host n enough #[]
  rw [Machine.grown_empty, Array.empty_append, once] at again
  obtain ⟨rfl, rfl⟩ := Machine.ending_inj again
  have moved : m.move #[] = id := funext Value.moved_zero
  simpa [Machine.apart, moved, Except.map_id] using beside

/-- **Evaluating once more.** Where an expression has no call, no assignment and no `++` or `--`,
evaluating it ends, with a fuel that the tree does not exhaust, and does nothing but add arrays.
Evaluating it at once again adds the same arrays and ends with the same answer, up to the handles of
the arrays that were added, and with the same fault if it is one.

A handle that dangles would come to refer to an array that the first evaluation adds; no machine
that a client can reach has one. -/
theorem reading_repeats {e : Expr} (only : e.onlyReads) (m : Machine) :
    ∃ (answer : Except Fault Value) (fresh : Array (Array Value)),
      (∀ host n, sizeOf e < n → Expr.eval host n e m = (m.grown fresh).ending answer) ∧
      (m.Sound →
        let move := Value.moved m.heap.arrays.size fresh.size
        ∀ host n, sizeOf e < n → Expr.eval host n e (m.grown fresh) =
          ((m.grown fresh).grown (fresh.map (·.map move))).ending (answer.map move)) := by
  obtain ⟨answer, fresh, once⟩ := eval_ends only m
  refine ⟨answer, fresh, once, fun sound => ?_⟩
  intro move host n enough
  -- the second evaluation is the first one behind the arrays that it added
  have repeats : Repeats m fresh (m.move fresh) (Expr.eval host n e) (Expr.eval host n e) :=
    repeats_eval (sound.settled fresh) e only enough enough
  obtain ⟨answer', fresh', first, second⟩ := repeats #[]
  rw [Machine.grown_empty, Array.empty_append, once host n enough] at first
  obtain ⟨rfl, rfl⟩ := Machine.ending_inj first
  have behind : m.apart fresh #[] = m.grown fresh := by simp [Machine.apart]
  have both : m.apart fresh fresh = (m.grown fresh).grown (fresh.map (·.map move)) := by
    simp [Machine.apart, Machine.grown, Machine.move, move]
  rwa [behind, Array.empty_append, both] at second

end Evaluator

/-- A machine with one array, which the name `xs` means. -/
def oneArray : Machine :=
  { Machine.initial {} (.still 0) with
    heap := { Heap.empty with arrays := #[#[.null]] }
    scopes := Scopes.root.define Machine.globals "xs" (.array ⟨0⟩) true }

/-- The expression `[[xs], [xs] == []]`. -/
def nestedArrays : Expr :=
  let xs := .array .nowhere [.ident ⟨"xs", .nowhere⟩]
  .array .nowhere [xs, .binary .nowhere .eq xs (.array .nowhere [])]

/-- The arrays that are made the second time hold the handle of the old array as it was, and a new
handle in place of the one that was made first. -/
theorem nested_arrays_repeat :
    let first := oneArray.grown #[#[.array ⟨0⟩], #[.array ⟨0⟩], #[], #[.array ⟨1⟩, .bool false]]
    nestedArrays.onlyReads ∧ sizeOf nestedArrays < 2000 ∧ oneArray.Sound ∧
    Expr.eval .none 2000 nestedArrays oneArray = .ok (.array ⟨4⟩) first ∧
    Expr.eval .none 2000 nestedArrays first = .ok (.array ⟨8⟩)
      (first.grown #[#[.array ⟨0⟩], #[.array ⟨0⟩], #[], #[.array ⟨5⟩, .bool false]]) := by
  intro first
  have only : nestedArrays.onlyReads := by decide
  have enough : sizeOf nestedArrays < 2000 := by decide +kernel
  have sound : oneArray.Sound := by
    have held : ∀ v ∈ #[Value.null], (Machine.initial {} (.still 0)).heap.Holds v := by simp [Heap.Holds]
    have added := (Machine.sound_initial {} (.still 0)).addArray held
    exact added.define Machine.globals "xs" true Nat.zero_lt_one
  obtain ⟨answer, fresh, once, twice⟩ := reading_repeats only oneArray
  have ran := once .none 2000 enough
  have value : (Expr.eval .none 2000 nestedArrays).run' oneArray = some (.array ⟨4⟩) := by
    decide +kernel
  have arrays : ((Expr.eval .none 2000 nestedArrays).after oneArray).heap.arrays =
      first.heap.arrays := by
    decide +kernel
  have value : EStateM.run' (fun _ => (oneArray.grown fresh).ending answer) oneArray =
      some (.array ⟨4⟩) := ran ▸ value
  rw [Run.after, ran] at arrays
  cases answer with
  | error f => cases value
  | ok v =>
    cases Option.some.inj value
    cases (Array.append_right_inj _).1 arrays
    refine ⟨only, enough, sound, ran, (twice sound .none 2000 enough).trans ?_⟩
    refine congrArg (fun added => EStateM.Result.ok (Value.array ⟨8⟩) (first.grown added)) ?_
    decide +kernel

end Scriptlet
