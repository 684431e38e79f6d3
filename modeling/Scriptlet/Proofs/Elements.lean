import Mathlib.Algebra.Group.Int.Defs
import Scriptlet.Proofs.Footprint

/-!
# Elements of arrays

A write to an element lands inside the array, or behind its end with the gap filled by null, or
nowhere. `elements_follow_writes` says which, what each leaves behind, and what is read after any
number of writes: at each position the last value that was written there.

The limit on growing an array is checked against the array as it is, but whether a write lands can
be told before any of them: a write that lands leaves the same writes to land
(`Heap.landing?_write`).
-/

namespace Scriptlet

namespace Heap

/-! ## Where a write lands -/

/-- The integer that a value names as an index, if it is a number. -/
def whole? : Value → Option Int
  | .number x => some (Number.whole x)
  | _ => none

theorem whole?_eq_some_iff {v : Value} {i : Int} :
    whole? v = some i ↔ ∃ x, v = .number x ∧ Number.whole x = i := by
  cases v <;> simp [whole?]

/-- The position at which a write to an array of some size lands, if it does. -/
def landing? (size : Nat) (index : Value) : Option Nat :=
  match whole? index with
  | some (.ofNat n) => if acceptsWrite size n then some n else none
  | _ => none

/-- A write lands within the array, or behind it below the limit. -/
theorem landing?_eq_some_iff {size n : Nat} {index : Value} :
    landing? size index = some n ↔
      whole? index = some (n : Int) ∧ (n < size ∨ n < arrayLimit) := by
  unfold landing?
  cases whole? index with
  | none => simp
  | some i =>
    cases i with
    | negSucc k =>
      constructor
      · intro lands
        cases lands
      · rintro ⟨same, -⟩
        cases same
    | ofNat k =>
      have accepts : acceptsWrite size k = true ↔ k < size ∨ k < arrayLimit := by
        simp [acceptsWrite]
      constructor
      · intro lands
        dsimp only at lands
        split at lands
        · next accepted =>
          cases lands
          exact ⟨rfl, accepts.1 accepted⟩
        · cases lands
      · rintro ⟨same, accepted⟩
        cases same
        exact if_pos (accepts.2 accepted)

theorem exists_landing_iff {size : Nat} {index : Value} :
    (∃ n, landing? size index = some n) ↔ ∃ x, index = .number x ∧
      0 ≤ Number.whole x ∧ (Number.whole x < size ∨ Number.whole x < 2 ^ 24) := by
  simp only [landing?_eq_some_iff, whole?_eq_some_iff, arrayLimit]
  constructor
  · rintro ⟨n, ⟨x, rfl, whole⟩, accepted⟩
    refine ⟨x, rfl, ?_, ?_⟩
    · omega
    · omega
  · rintro ⟨x, rfl, positive, accepted⟩
    refine ⟨(Number.whole x).toNat, ⟨x, rfl, ?_⟩, ?_⟩
    · omega
    · omega

/-- The cause of the fault of a write that does not land. -/
def refusal (size : Nat) : Value → FaultCause
  | .number x => .indexRange (Number.whole x) size
  | v => .indexKind v.kind

section
variable {h : Heap} {id : ArrayId} {index : Value}

theorem itemPlace_of_landing {n : Nat} (lands : landing? (h.array id).size index = some n) :
    h.itemPlace (.array id) index = .ok (.item id n) := by
  obtain ⟨named, accepted⟩ := landing?_eq_some_iff.1 lands
  obtain ⟨x, rfl, whole⟩ := whole?_eq_some_iff.1 named
  have inside : acceptsWrite (h.array id).size n = true := by
    simpa [acceptsWrite] using accepted
  unfold itemPlace position
  dsimp only [bind, Except.bind]
  rw [whole]
  exact if_pos inside

theorem itemPlace_of_none (refused : landing? (h.array id).size index = none) :
    ∃ f, h.itemPlace (.array id) index = .error f ∧
      f.cause = refusal (h.array id).size index := by
  cases index with
  | number x =>
    unfold landing? whole? at refused
    unfold itemPlace position refusal
    dsimp only [bind, Except.bind, pure, Except.pure] at refused ⊢
    generalize Number.whole x = i at refused
    cases i with
    | negSucc k => exact ⟨_, rfl, rfl⟩
    | ofNat n =>
      have out : ¬acceptsWrite (h.array id).size n = true := by
        intro accepted
        have lands : (if acceptsWrite (h.array id).size n then some n else none) = none := refused
        rw [if_pos accepted] at lands
        cases lands
      refine ⟨_, if_neg out, rfl⟩
  | _ => exact ⟨_, rfl, rfl⟩

/-- Reading never fails at a position, be it behind the end. -/
theorem indexGet_of_whole {x : Float} {n : Nat} (whole : Number.whole x = n) :
    h.indexGet (.array id) (.number x) = .ok ((h.array id)[n]?.getD .null) := by
  unfold indexGet position
  dsimp only [bind, Except.bind]
  rw [whole]
  rfl

/-! ## What a write leaves behind -/

theorem array_write (h : Heap) (id other : ArrayId) (n : Nat) (v : Value) :
    (h.write (.item id n) v).array other =
      if other = id ∧ id.index < h.arrays.size then writeAt (h.array id) n v
      else h.array other := by
  have key : other = id ↔ id.index = other.index := by
    cases id
    cases other
    simp [eq_comm]
  simp only [write, array, Array.getElem?_modify, key]
  by_cases same : id.index = other.index
  · rw [if_pos same, same]
    by_cases there : other.index < h.arrays.size
    · rw [if_pos ⟨rfl, there⟩]
      simp [there]
    · rw [if_neg fun both => there both.2]
      simp [there]
  · rw [if_neg same, if_neg fun both => same both.1]

/-- A write that lands leaves the same writes to land, in this array and in the others. -/
theorem landing?_write {n : Nat} (lands : landing? (h.array id).size index = some n)
    (v : Value) (other : ArrayId) (wanted : Value) :
    landing? ((h.write (.item id n) v).array other).size wanted =
      landing? (h.array other).size wanted := by
  obtain ⟨-, accepted⟩ := landing?_eq_some_iff.1 lands
  rw [array_write]
  split
  · next this_ =>
    obtain ⟨rfl, -⟩ := this_
    have same (k : Nat) : acceptsWrite (max (h.array other).size (n + 1)) k =
        acceptsWrite (h.array other).size k := by
      rw [acceptsWrite, acceptsWrite, Bool.eq_iff_iff]
      simp only [Bool.or_eq_true, decide_eq_true_eq]
      omega
    rw [size_writeAt]
    unfold landing?
    simp only [same]
  · rfl

/-- What a write at a position leaves behind: nothing else has changed. -/
structure Wrote (h : Heap) (id : ArrayId) (n : Nat) (v : Value) (h' : Heap) : Prop where
  size : (h'.array id).size = max (h.array id).size (n + 1)
  /-- The position holds the value. -/
  here : (h'.array id)[n]? = some v
  kept : ∀ p, p < (h.array id).size → p ≠ n → (h'.array id)[p]? = (h.array id)[p]?
  /-- A gap between the old end and the position is filled. -/
  filled : ∀ p, (h.array id).size ≤ p → p < n → (h'.array id)[p]? = some .null
  others : ∀ other, other ≠ id → h'.array other = h.array other
  rest : h'.objects = h.objects ∧ h'.functions = h.functions ∧ h'.classes = h.classes

theorem getElem?_of_lt {items : Array Value} {p : Nat} (inside : p < items.size) :
    items[p]? = some (items[p]?.getD .null) := by
  simp [inside]

theorem wrote_write {n : Nat} (there : id.index < h.arrays.size) (v : Value) :
    h.Wrote id n v (h.write (.item id n) v) := by
  have array : (h.write (.item id n) v).array id = writeAt (h.array id) n v := by
    rw [array_write, if_pos ⟨rfl, there⟩]
  refine ⟨?_, ?_, ?_, ?_, ?_, rfl, rfl, rfl⟩
  · rw [array, size_writeAt]
  · rw [array, getElem?_of_lt (by rw [size_writeAt]; omega), getD_writeAt, if_pos rfl]
  · intro p inside other
    rw [array, getElem?_of_lt (by rw [size_writeAt]; omega), getD_writeAt, if_neg other]
    exact (getElem?_of_lt inside).symm
  · intro p outside before
    rw [array, getElem?_of_lt (by rw [size_writeAt]; omega), getD_writeAt, if_neg (by omega)]
    simp [outside]
  · intro other apart
    rw [array_write, if_neg fun both => apart both.1]

end
end Heap

/-! ## Steps of a run -/

namespace Run

/-- Write an element: find the place, then write there. -/
def writeItem (target index value : Value) : Run Unit := do
  write (← onHeap (·.itemPlace target index)) value

section
variable {m : Machine} {id : ArrayId} {index : Value}

theorem writeItem_of_landing {n : Nat}
    (lands : Heap.landing? (m.heap.array id).size index = some n) (v : Value) :
    writeItem (.array id) index v m =
      .ok () { m with heap := m.heap.write (.item id n) v } := by
  have found : onHeap (·.itemPlace (.array id) index) m = .ok (.item id n) m := by
    unfold onHeap
    dsimp only
    rw [Heap.itemPlace_of_landing lands]
  exact bind_of_ok found

theorem writeItem_of_error {f : Fault}
    (failed : m.heap.itemPlace (.array id) index = .error f) (v : Value) :
    writeItem (.array id) index v m = .error (.fault f) m := by
  have stopped : onHeap (·.itemPlace (.array id) index) m = .error (.fault f) m := by
    unfold onHeap
    dsimp only
    rw [failed]
  exact bind_of_error stopped

end
end Run

/-! ## Many writes -/

/-- A value that is to be written to an element. -/
structure ElementWrite where
  array : ArrayId
  index : Value
  value : Value

namespace ElementWrite

def run (w : ElementWrite) : Run Unit := Run.writeItem (.array w.array) w.index w.value

/-- Where a write lands in a heap. -/
def landing? (w : ElementWrite) (h : Heap) : Option Nat :=
  Heap.landing? (h.array w.array).size w.index

/-- Whether a write names a position of an array. -/
def names (w : ElementWrite) (id : ArrayId) (p : Nat) : Bool :=
  decide (w.array = id) && decide (Heap.whole? w.index = some (p : Int))

/-- The machine after several writes, each tried whether or not those before it succeed. -/
def runAll (m : Machine) (ws : List ElementWrite) : Machine :=
  ws.foldl (fun m w => w.run.after m) m

/-- The writes that succeed, each on what those before it leave behind. -/
def succeeded (m : Machine) : List ElementWrite → List ElementWrite
  | [] => []
  | w :: ws =>
    match w.run m with
    | .ok _ m' => w :: succeeded m' ws
    | .error _ m' => succeeded m' ws

/-- The last value that is written to a position. -/
def last? (ws : List ElementWrite) (id : ArrayId) (p : Nat) : Option Value :=
  (ws.filter (·.names id p)).getLast?.map (·.value)

section
variable {m : Machine} {w : ElementWrite} {ws : List ElementWrite} {id : ArrayId} {p : Nat}

theorem last?_cons : last? (w :: ws) id p =
    (last? ws id p).or (if w.names id p then some w.value else none) := by
  unfold last?
  rw [List.filter_cons]
  split
  · rw [List.getLast?_cons]
    cases (ws.filter (·.names id p)).getLast? <;> rfl
  · rw [Option.or_none]

/-- The machine after a write that lands. -/
def written (m : Machine) (w : ElementWrite) (n : Nat) : Machine :=
  { m with heap := m.heap.write (.item w.array n) w.value }

theorem runAll_of_landing {n : Nat} (lands : w.landing? m.heap = some n) :
    runAll m (w :: ws) = runAll (written m w n) ws ∧
      succeeded m (w :: ws) = w :: succeeded (written m w n) ws := by
  have done : w.run m = .ok () (written m w n) := Run.writeItem_of_landing lands w.value
  constructor
  · show runAll (w.run.after m) ws = _
    rw [Run.after_eq_of_ok done]
  · rw [succeeded, done]

theorem runAll_of_none (refused : w.landing? m.heap = none) :
    runAll m (w :: ws) = runAll m ws ∧ succeeded m (w :: ws) = succeeded m ws := by
  obtain ⟨f, failed, -⟩ := Heap.itemPlace_of_none refused
  have failed : w.run m = .error (.fault f) m := Run.writeItem_of_error failed w.value
  constructor
  · show runAll (w.run.after m) ws = _
    rw [Run.after_eq_of_error failed]
  · rw [succeeded, failed]

/-- Which writes succeed can be told from the sizes before any of them. -/
theorem succeeded_eq_filter (m : Machine) (ws : List ElementWrite) :
    succeeded m ws = ws.filter fun w => (w.landing? m.heap).isSome := by
  induction ws generalizing m with
  | nil => rfl
  | cons w ws ih =>
    cases lands : w.landing? m.heap with
    | none =>
      rw [(runAll_of_none lands).2, ih, List.filter_cons_of_neg (by simp [lands])]
    | some n =>
      have same (other : ElementWrite) :
          other.landing? (written m w n).heap = other.landing? m.heap :=
        Heap.landing?_write lands w.value other.array other.index
      rw [(runAll_of_landing lands).2, ih, List.filter_cons_of_pos (by simp [lands])]
      simp only [same]

/-- A write that lands names the position at which it does. -/
theorem names_of_landing {n : Nat} (lands : w.landing? m.heap = some n) :
    w.names id p = true ↔ w.array = id ∧ n = p := by
  obtain ⟨named, -⟩ := Heap.landing?_eq_some_iff.1 lands
  rw [ElementWrite.names, Bool.and_eq_true, decide_eq_true_iff, decide_eq_true_iff, named,
    Option.some_inj, Int.ofNat_inj]

theorem there_written {n : Nat} (there : id.index < m.heap.arrays.size) :
    id.index < (written m w n).heap.arrays.size := by
  simpa [written, Heap.write] using there

/-- What is read at a position after a write that lands. -/
theorem getD_written {n : Nat} (there : id.index < m.heap.arrays.size)
    (lands : w.landing? m.heap = some n) :
    ((written m w n).heap.array id)[p]?.getD .null =
      if w.names id p then w.value else (m.heap.array id)[p]?.getD .null := by
  have names : w.names id p = true ↔ w.array = id ∧ n = p := names_of_landing lands
  rw [written, Heap.array_write]
  by_cases here : id = w.array
  · subst here
    rw [if_pos ⟨rfl, there⟩, Heap.getD_writeAt]
    simp only [names, true_and, eq_comm]
  · rw [if_neg fun both => here both.1, if_neg fun named => here (names.1 named).1.symm]

theorem getD_runAll (there : id.index < m.heap.arrays.size) :
    ((runAll m ws).heap.array id)[p]?.getD .null =
      (last? (succeeded m ws) id p).getD ((m.heap.array id)[p]?.getD .null) := by
  induction ws generalizing m with
  | nil => rfl
  | cons w ws ih =>
    cases lands : w.landing? m.heap with
    | none =>
      rw [(runAll_of_none lands).1, (runAll_of_none lands).2]
      exact ih there
    | some n =>
      rw [(runAll_of_landing lands).1, (runAll_of_landing lands).2, ih (there_written there),
        getD_written there lands, last?_cons]
      cases last? (succeeded (written m w n) ws) id p with
      | some v => rfl
      | none => split <;> rfl

/-- A write that lands reaches up to the position that it names. -/
theorem lt_size_written {n : Nat} (there : id.index < m.heap.arrays.size)
    (lands : w.landing? m.heap = some n) :
    p < ((written m w n).heap.array id).size ↔
      p < (m.heap.array id).size ∨ ∃ q, p ≤ q ∧ w.names id q = true := by
  have names (q : Nat) : w.names id q = true ↔ w.array = id ∧ n = q := names_of_landing lands
  rw [written, Heap.array_write]
  by_cases here : id = w.array
  · subst here
    rw [if_pos ⟨rfl, there⟩, Heap.size_writeAt]
    have reach : (∃ q, p ≤ q ∧ w.names w.array q = true) ↔ p ≤ n := by
      simp [names]
    rw [reach]
    omega
  · rw [if_neg fun both => here both.1]
    refine ⟨.inl, ?_⟩
    rintro (inside | ⟨q, -, named⟩)
    · exact inside
    · exact absurd ((names q).1 named).1.symm here

/-- The array ends behind its old elements and behind every position written to. -/
theorem lt_size_runAll (there : id.index < m.heap.arrays.size) :
    p < ((runAll m ws).heap.array id).size ↔ p < (m.heap.array id).size ∨
      ∃ w ∈ succeeded m ws, ∃ q, p ≤ q ∧ w.names id q = true := by
  induction ws generalizing m with
  | nil => simp [runAll, succeeded]
  | cons w ws ih =>
    cases lands : w.landing? m.heap with
    | none =>
      rw [(runAll_of_none lands).1, (runAll_of_none lands).2]
      exact ih there
    | some n =>
      rw [(runAll_of_landing lands).1, (runAll_of_landing lands).2, ih (there_written there),
        lt_size_written there lands]
      simp only [List.mem_cons, exists_eq_or_imp, or_assoc]

end
end ElementWrite

/-! ## The main statement -/

open Run ElementWrite

/-- **Elements follow writes.** A write to an element succeeds exactly if the index is a number that
is not negative and lies within the array or below the limit of growth. It then changes one position
and fills the gap before it; otherwise nothing changes. After any number of writes a position has
the last value that was written to it, or its first value, or null. -/
theorem elements_follow_writes (m : Machine) {id : ArrayId}
    (there : id.index < m.heap.arrays.size) :
    let items := m.heap.array id
    -- one write
    (∀ index v,
      ((∃ m', writeItem (.array id) index v m = .ok () m') ↔ ∃ x, index = .number x ∧
        0 ≤ Number.whole x ∧ (Number.whole x < items.size ∨ Number.whole x < 2 ^ 24)) ∧
      (∀ m', writeItem (.array id) index v m = .ok () m' →
        ∃ (x : Float) (n : Nat), index = .number x ∧ Number.whole x = n ∧
          m.heap.indexSet (.array id) index v = .ok m'.heap ∧
          m.heap.Wrote id n v m'.heap ∧ m' = { m with heap := m'.heap }) ∧
      ∀ stop m', writeItem (.array id) index v m = .error stop m' →
        m' = m ∧ ∃ f, stop = .fault f ∧ m.heap.indexSet (.array id) index v = .error f ∧
          f.cause = Heap.refusal items.size index) ∧
    -- reading
    (∀ (x : Float) (n : Nat), Number.whole x = n →
      m.heap.indexGet (.array id) (.number x) = .ok (items[n]?.getD .null)) ∧
    -- many writes
    ∀ ws, let items' := (runAll m ws).heap.array id
      (∀ p, items'[p]?.getD .null = (last? (succeeded m ws) id p).getD (items[p]?.getD .null)) ∧
      (∀ p, p < items'.size ↔
        p < items.size ∨ ∃ w ∈ succeeded m ws, ∃ q, p ≤ q ∧ w.names id q = true) ∧
      succeeded m ws = ws.filter fun w => (w.landing? m.heap).isSome := by
  intro items
  refine ⟨fun index v => ?_, fun x n whole => Heap.indexGet_of_whole whole, fun ws => ?_⟩
  · rw [← Heap.exists_landing_iff]
    cases lands : Heap.landing? items.size index with
    | some n =>
      have done := writeItem_of_landing lands v
      refine ⟨⟨fun _ => ⟨n, rfl⟩, fun _ => ⟨_, done⟩⟩, fun m' done' => ?_, fun stop m' failed => ?_⟩
      · obtain ⟨x, rfl, whole⟩ := Heap.whole?_eq_some_iff.1 (Heap.landing?_eq_some_iff.1 lands).1
        rw [done] at done'
        cases done'
        refine ⟨x, n, rfl, whole, ?_, Heap.wrote_write there v, rfl⟩
        rw [Heap.indexSet, Heap.itemPlace_of_landing lands]
        rfl
      · rw [done] at failed
        cases failed
    | none =>
      obtain ⟨f, failed, cause⟩ := Heap.itemPlace_of_none lands
      have stopped := writeItem_of_error failed v
      refine ⟨⟨fun ⟨m', done⟩ => ?_, nofun⟩, fun m' done => ?_, fun stop m' stopped' => ?_⟩
      · rw [stopped] at done
        cases done
      · rw [stopped] at done
        cases done
      · rw [stopped] at stopped'
        cases stopped'
        refine ⟨rfl, f, rfl, ?_, cause⟩
        rw [Heap.indexSet, failed]
        rfl
  · exact ⟨fun p => getD_runAll there, fun p => lt_size_runAll there, succeeded_eq_filter m ws⟩

/-- A machine with two arrays, the second of which contains the first. -/
def twoArrays : Machine :=
  { Machine.initial {} (.still 0) with heap := ⟨#[#[.text "a", .text "b"], #[.array ⟨0⟩]], #[], #[], #[]⟩ }

/-- Writes behind the end, at a negative index, under a text, to the other array, at a position that
was written before, and at the limit of growth. -/
def mixedWrites : List ElementWrite :=
  [⟨⟨0⟩, .number 4, .text "x"⟩, ⟨⟨0⟩, .number (-1), .text "y"⟩, ⟨⟨0⟩, .text "0", .text "y"⟩,
    ⟨⟨1⟩, .number 0, .text "y"⟩, ⟨⟨0⟩, .number 4.7, .text "z"⟩, ⟨⟨0⟩, .number 16777216, .text "y"⟩]

/-- Three of them land; the limit is refused with its index, and the first array ends with its first
elements, a gap and the last of the values written to it. -/
theorem mixed_writes_followed :
    (⟨0⟩ : ArrayId).index < twoArrays.heap.arrays.size ∧
    (∃ f, writeItem (.array ⟨0⟩) (.number 16777216) .null twoArrays = .error (.fault f) twoArrays ∧
      f.cause = .indexRange 16777216 2) ∧
    (succeeded twoArrays mixedWrites).length = 3 ∧
    let items := (runAll twoArrays mixedWrites).heap.array ⟨0⟩
    items.size = 5 ∧ items[0]?.getD .null = .text "a" ∧ items[2]?.getD .null = .null ∧
      items[4]?.getD .null = .text "z" := by
  have there : (⟨0⟩ : ArrayId).index < twoArrays.heap.arrays.size := by decide
  obtain ⟨one, -, many⟩ := elements_follow_writes twoArrays there
  obtain ⟨contents, -, landed⟩ := many mixedWrites
  have refused : ∃ f, writeItem (.array ⟨0⟩) (.number 16777216) .null twoArrays =
      .error (.fault f) twoArrays ∧ f.cause = .indexRange 16777216 2 := by
    obtain ⟨done, -, failed⟩ := one (.number 16777216) .null
    cases written : writeItem (.array ⟨0⟩) (.number 16777216) .null twoArrays with
    | ok _ m' =>
      obtain ⟨x, same, -, low⟩ := done.1 ⟨m', written⟩
      cases same
      exact absurd low (by decide +kernel)
    | error stop m' =>
      obtain ⟨rfl, f, rfl, -, cause⟩ := failed stop m' written
      exact ⟨f, rfl, cause.trans (by decide +kernel)⟩
  refine ⟨there, refused, ?_, ?_, ?_, ?_, ?_⟩
  · rw [landed]
    decide +kernel
  · decide +kernel
  · rw [contents, landed]
    decide +kernel
  · rw [contents, landed]
    decide +kernel
  · rw [contents, landed]
    decide +kernel

end Scriptlet
