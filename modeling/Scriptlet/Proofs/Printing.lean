import Mathlib.Data.Set.Card
import Mathlib.Logic.Relation
import Scriptlet.Heap.Text

/-!
# What the text of a value shows

Arrays contain one another in any way, so a heap of them is a graph and a text is a walk through it.
`Heap.Shows` says what the walk shows, without a bound and without a state: on a path of arrays, an
array of the path is shown as `[...]` and any other by its elements, on a path that is longer by that
array.

The arrays on a path differ from one another, and so the arrays that are reachable and not yet on it
become fewer with every step (`exists_shows_of_room`). Hence every value has a layout, and the writer
needs to nest exactly as deep as the layout does (`Shows.writeText_eq`).
-/

namespace Scriptlet

/-! ## Layouts -/

/-- How the text of a value is laid out: in one word, as the mark of an array that is met again, or
by the layouts of an array's elements. -/
inductive Layout where
  | word (text : String)
  | again
  | items (parts : List Layout)
deriving Inhabited

namespace Layout

mutual

def text : Layout → String
  | word s => s
  | again => "[...]"
  | items parts => "[" ++ ", ".intercalate (texts parts) ++ "]"

def texts : List Layout → List String
  | [] => []
  | part :: rest => part.text :: texts rest

end

mutual

/-- How deep arrays nest in a layout. -/
def depth : Layout → Nat
  | word _ | again => 0
  | items parts => depths parts + 1

def depths : List Layout → Nat
  | [] => 0
  | part :: rest => max part.depth (depths rest)

end

/-- What stands at a position: the first index is that of an element of the outermost array. -/
def part? : List Nat → Layout → Option Layout
  | [], layout => some layout
  | i :: rest, items parts => parts[i]?.bind (part? rest)
  | _ :: _, _ => none

theorem texts_eq_map (parts : List Layout) : texts parts = parts.map text := by
  induction parts with
  | nil => rfl
  | cons part rest ih => rw [texts, ih, List.map_cons]

theorem depths_le_iff {parts : List Layout} {n : Nat} :
    depths parts ≤ n ↔ ∀ part ∈ parts, part.depth ≤ n := by
  induction parts with
  | nil => simp [depths]
  | cons part rest ih => rw [depths, max_le_iff, ih, List.forall_mem_cons]

end Layout

namespace Heap

variable {h : Heap}

/-! ## Arrays inside arrays -/

/-- The second array is an element of the first. -/
def Contains (h : Heap) (outer inner : ArrayId) : Prop := .array inner ∈ h.array outer

/-- The array is the value, or is reached from it through elements. -/
def Reaches (h : Heap) (v : Value) (id : ArrayId) : Prop :=
  ∃ first, v = .array first ∧ Relation.ReflTransGen h.Contains first id

/-- The array contains itself, directly or through others. -/
def OnCycle (h : Heap) (id : ArrayId) : Prop := Relation.TransGen h.Contains id id

/-- The value at a position inside a value. -/
def follow (h : Heap) : List Nat → Value → Option Value
  | [], v => some v
  | i :: rest, .array id => (h.array id)[i]?.bind (h.follow rest)
  | _ :: _, _ => none

/-- On the way to the position lies, before its end, the array. -/
def Above (h : Heap) (v : Value) (pos : List Nat) (id : ArrayId) : Prop :=
  ∃ before, before <+: pos ∧ before ≠ pos ∧ h.follow before v = some (.array id)

theorem Reaches.refl (id : ArrayId) : h.Reaches (.array id) id := ⟨id, rfl, .refl⟩

theorem Reaches.of_element {id reached : ArrayId} {w : Value} (mem : w ∈ (h.array id).toList)
    (reach : h.Reaches w reached) : h.Reaches (.array id) reached := by
  obtain ⟨first, rfl, steps⟩ := reach
  exact ⟨id, rfl, .head (Array.mem_def.2 mem) steps⟩

theorem exists_mem_arrays {id : ArrayId} {w : Value} (mem : w ∈ h.array id) :
    ∃ items ∈ h.arrays, w ∈ items := by
  unfold array at mem
  cases found : h.arrays[id.index]? with
  | none => simp [found] at mem
  | some items => exact ⟨items, Array.mem_of_getElem? found, by simpa [found] using mem⟩

/-- From a value only finitely many arrays are reached: besides the value itself, they are elements
of arrays of the heap. -/
theorem finite_reaches (h : Heap) (v : Value) : {id | h.Reaches v id}.Finite := by
  let stored : List Value := h.arrays.toList.flatMap (·.toList)
  have injective : Function.Injective Value.array := fun _ _ same => Value.array.inj same
  refine ((v :: stored).finite_toSet.preimage injective.injOn).subset ?_
  rintro id ⟨first, rfl, steps⟩
  refine List.mem_cons.2 ?_
  rcases Relation.ReflTransGen.cases_tail steps with rfl | ⟨outer, -, mem⟩
  · exact .inl rfl
  · obtain ⟨items, there, mem⟩ := exists_mem_arrays mem
    exact .inr (List.mem_flatMap.2 ⟨items, Array.mem_def.1 there, Array.mem_def.1 mem⟩)

theorem not_above_nil {v : Value} {id : ArrayId} : ¬ h.Above v [] id := by
  rintro ⟨before, before_nil, apart, -⟩
  exact apart (List.prefix_nil.1 before_nil)

theorem above_cons_iff {outer id : ArrayId} {w : Value} {i : Nat} {rest : List Nat}
    (there : (h.array outer)[i]? = some w) :
    h.Above (.array outer) (i :: rest) id ↔ id = outer ∨ h.Above w rest id := by
  constructor
  · rintro ⟨before, leads, apart, found⟩
    cases before with
    | nil =>
      cases found
      exact .inl rfl
    | cons j before =>
      obtain ⟨rfl, onward⟩ := List.cons_prefix_cons.1 leads
      rw [follow, there] at found
      exact .inr ⟨before, onward, fun same => apart (congrArg _ same), found⟩
  · rintro (rfl | ⟨before, leads, apart, found⟩)
    · exact ⟨[], List.nil_prefix, nofun, rfl⟩
    · refine ⟨i :: before, List.cons_prefix_cons.2 ⟨rfl, leads⟩, fun same => ?_, ?_⟩
      · exact apart (List.cons.inj same).2
      · rw [follow, there]
        exact found

/-! ## What is shown -/

/-- Inside the arrays of a path, the value is laid out so. -/
inductive Shows (h : Heap) : List ArrayId → Value → Layout → Prop
  | word {path : List ArrayId} {v : Value} : (∀ id, v ≠ .array id) →
      Shows h path v (.word (h.word v))
  | again {path : List ArrayId} {id : ArrayId} : id ∈ path → Shows h path (.array id) .again
  | items {path : List ArrayId} {id : ArrayId} {part : Value → Layout} : id ∉ path →
      (∀ w ∈ (h.array id).toList, Shows h (id :: path) w (part w)) →
      Shows h path (.array id) (.items ((h.array id).toList.map part))

namespace Shows

variable {path : List ArrayId} {v : Value} {layout layout' : Layout}

theorem unique (shown : h.Shows path v layout) (shown' : h.Shows path v layout') :
    layout = layout' := by
  induction shown generalizing layout' with
  | word plain =>
    cases shown' with
    | word => rfl
    | again => exact absurd rfl (plain _)
    | items => exact absurd rfl (plain _)
  | again mem =>
    cases shown' with
    | word plain => exact absurd rfl (plain _)
    | again => rfl
    | items new => exact absurd mem new
  | items new _ ih =>
    cases shown' with
    | word plain => exact absurd rfl (plain _)
    | again mem => exact absurd mem new
    | items _ parts => rw [List.map_congr_left fun w mem => ih w mem (parts w mem)]

/-- `[...]` stands for the arrays of the path and those on the way to the position, and only for
them. -/
theorem again_iff (shown : h.Shows path v layout) {pos : List Nat} {part : Layout}
    (there : layout.part? pos = some part) :
    ∃ w, h.follow pos v = some w ∧
      (part = .again ↔ ∃ id, w = .array id ∧ (id ∈ path ∨ h.Above v pos id)) := by
  induction shown generalizing pos with
  | @word path v plain =>
    cases pos with
    | cons => cases there
    | nil =>
      cases there
      refine ⟨v, rfl, nofun, ?_⟩
      rintro ⟨id, rfl, -⟩
      exact absurd rfl (plain id)
  | @again path id mem =>
    cases pos with
    | cons => cases there
    | nil =>
      cases there
      exact ⟨.array id, rfl, fun _ => ⟨id, rfl, .inl mem⟩, fun _ => rfl⟩
  | @items path outer parts new _ ih =>
    cases pos with
    | nil =>
      cases there
      refine ⟨.array outer, rfl, nofun, ?_⟩
      rintro ⟨id, ⟨rfl⟩, mem | above⟩
      · exact absurd mem new
      · exact absurd above not_above_nil
    | cons i rest =>
      rw [Layout.part?, List.getElem?_map] at there
      cases element : (h.array outer)[i]? with
      | none => simp [element] at there
      | some w =>
        have element' : (h.array outer).toList[i]? = some w := by simpa using element
        rw [element'] at there
        obtain ⟨inner, found, iff⟩ := ih w (List.mem_of_getElem? element') there
        refine ⟨inner, by rw [follow, element]; exact found, iff.trans ?_⟩
        refine exists_congr fun id => and_congr_right fun _ => ?_
        rw [above_cons_iff element, List.mem_cons, or_assoc, or_left_comm]

end Shows

/-- An array that is not on the path is laid out if its elements are. -/
theorem exists_shows_items {path : List ArrayId} {id : ArrayId} {n : Nat} (new : id ∉ path)
    (each : ∀ w ∈ (h.array id).toList, ∃ layout, h.Shows (id :: path) w layout ∧ layout.depth ≤ n) :
    ∃ layout, h.Shows path (.array id) layout ∧ layout.depth ≤ n + 1 := by
  choose! part shown using each
  refine ⟨_, .items new fun w element => (shown w element).1, ?_⟩
  refine Nat.succ_le_succ (Layout.depths_le_iff.2 fun layout among => ?_)
  obtain ⟨w, element, rfl⟩ := List.mem_map.1 among
  exact (shown w element).2

/-- The layout of a value, if all arrays it reaches are on the path or among finitely many others.
An array without elements may be missing there. -/
theorem exists_shows_of_room (h : Heap) (spare : Nat) (room : Finset ArrayId) :
    ∀ (path : List ArrayId) (v : Value),
    (∀ id, h.Reaches v id → id ∈ path ∨ id ∈ room ∨ h.array id = #[] ∧ 0 < spare) →
    ∃ layout, h.Shows path v layout ∧ layout.depth ≤ room.card + spare := by
  -- the room shrinks by every array that is entered
  induction room using Finset.strongInduction with
  | H room ih =>
    intro path v known
    by_cases plain : ∀ id, v ≠ .array id
    · exact ⟨_, .word plain, Nat.zero_le _⟩
    obtain ⟨id, rfl⟩ : ∃ id, v = .array id := by simpa using plain
    by_cases mem : id ∈ path
    · exact ⟨_, .again mem, Nat.zero_le _⟩
    rcases (known id (.refl id)).resolve_left mem with inside | ⟨empty, spared⟩
    · rw [← Finset.card_erase_add_one inside, Nat.add_right_comm]
      refine exists_shows_items mem fun w element => ?_
      refine ih _ (Finset.erase_ssubset inside) (id :: path) w fun other reach => ?_
      rcases known other (reach.of_element element) with before | there | rest
      · exact .inl (List.mem_cons_of_mem _ before)
      · by_cases same : other = id
        · exact .inl (same ▸ List.mem_cons_self)
        · exact .inr (.inl (Finset.mem_erase.2 ⟨same, there⟩))
      · exact .inr (.inr rest)
    · obtain ⟨layout, shown, deep⟩ := exists_shows_items (h := h) (n := 0) mem fun w element => by
        simp [empty] at element
      exact ⟨layout, shown, by omega⟩

/-- Every value has a layout on every path, and the layout nests no deeper than there are arrays to
reach. -/
theorem exists_shows (h : Heap) (path : List ArrayId) (v : Value) :
    ∃ layout, h.Shows path v layout ∧ layout.depth ≤ {id | h.Reaches v id}.ncard := by
  obtain ⟨layout, shown, deep⟩ := h.exists_shows_of_room 0 (h.finite_reaches v).toFinset path v
    fun id reach => .inr (.inl ((h.finite_reaches v).mem_toFinset.2 reach))
  rw [← Set.ncard_eq_toFinset_card _ (h.finite_reaches v)] at deep
  exact ⟨layout, shown, deep⟩

/-- One level more than there are arrays in the heap is enough. -/
theorem Shows.depth_le_size {v : Value} {layout : Layout} (shown : h.Shows [] v layout) :
    layout.depth ≤ h.arrays.size + 1 := by
  let allocated := (Finset.range h.arrays.size).image ArrayId.mk
  obtain ⟨layout', shown', deep⟩ := h.exists_shows_of_room 1 allocated [] v fun id _ => by
    by_cases there : id.index < h.arrays.size
    · exact .inr (.inl (Finset.mem_image.2 ⟨id.index, Finset.mem_range.2 there, rfl⟩))
    · have none : h.arrays[id.index]? = none := Array.getElem?_eq_none (Nat.le_of_not_lt there)
      exact .inr (.inr ⟨by rw [array, none]; rfl, Nat.one_pos⟩)
  have card : allocated.card ≤ h.arrays.size := by
    simpa using Finset.card_image_le (s := Finset.range h.arrays.size) (f := ArrayId.mk)
  rw [shown.unique shown']
  omega

/-! ## What is written -/

section
variable {fuel : Nat} {d : Draft} {id : ArrayId}

theorem writeText_word {v : Value} (plain : ∀ id, v ≠ .array id) :
    h.writeText fuel v d = some (d.put (h.word v)) := by
  cases v with
  | array id => exact absurd rfl (plain id)
  | null | bool | number | text | function | cls | object => cases fuel <;> rfl

theorem writeText_again (mem : id ∈ d.seen) :
    h.writeText fuel (.array id) d = some (d.put "[...]") := by
  cases fuel <;> exact if_pos mem

theorem writeText_zero (new : id ∉ d.seen) : h.writeText 0 (.array id) d = none := if_neg new

theorem writeText_succ (new : id ∉ d.seen) :
    h.writeText (fuel + 1) (.array id) d =
      (Draft.putAll (h.writeText fuel) (h.array id).toList ((d.enter id).put "[")).bind
        fun d => some (d.put "]").leave :=
  if_neg new

end

/-- Writing several values, of which each is written so if the writer may nest deep enough. -/
theorem putAll_eq (write : Value → Draft → Option Draft) (part : Value → Layout) (fuel : Nat)
    {seen : List ArrayId} {values : List Value} (out : String)
    (each : ∀ w ∈ values, ∀ out, write w ⟨out, seen⟩ =
      if (part w).depth ≤ fuel then some ⟨out ++ (part w).text, seen⟩ else none) :
    Draft.putAll write values ⟨out, seen⟩ =
      if ∀ w ∈ values, (part w).depth ≤ fuel then
        some ⟨out ++ ", ".intercalate (values.map fun w => (part w).text), seen⟩
      else none := by
  induction values generalizing out with
  | nil => simp [Draft.putAll]
  | cons v rest ih =>
    obtain ⟨first, others⟩ := List.forall_mem_cons.1 each
    rw [Draft.putAll, first out]
    by_cases room : (part v).depth ≤ fuel
    · rw [if_pos room]
      cases rest with
      | nil => simp [room]
      | cons w rest =>
        change Draft.putAll write (w :: rest) ⟨out ++ (part v).text ++ ", ", seen⟩ = _
        have all : (∀ x ∈ v :: w :: rest, (part x).depth ≤ fuel) ↔
            ∀ x ∈ w :: rest, (part x).depth ≤ fuel := by
          rw [List.forall_mem_cons, and_iff_right room]
        rw [ih _ others]
        simp only [all, List.map_cons, String.intercalate_cons_cons, String.append_assoc]
    · simp [room]

/-- The writer writes the layout if it may nest as deep as the layout, and leaves the arrays that it
is in the middle of as they were. -/
theorem Shows.writeText_eq {path : List ArrayId} {v : Value} {layout : Layout}
    (shown : h.Shows path v layout) (fuel : Nat) (out : String) :
    h.writeText fuel v ⟨out, path⟩ =
      if layout.depth ≤ fuel then some ⟨out ++ layout.text, path⟩ else none := by
  induction shown generalizing fuel out with
  | word plain => exact (writeText_word plain).trans (if_pos (Nat.zero_le fuel)).symm
  | again mem => exact (writeText_again mem).trans (if_pos (Nat.zero_le fuel)).symm
  | @items path id part new _ ih =>
    cases fuel with
    | zero => rw [writeText_zero new, if_neg (by simp [Layout.depth])]
    | succ fuel =>
      have inside := putAll_eq (h.writeText fuel) part fuel (out ++ "[") fun w element =>
        ih w element fuel
      have fits : (Layout.items ((h.array id).toList.map part)).depth ≤ fuel + 1 ↔
          ∀ w ∈ (h.array id).toList, (part w).depth ≤ fuel := by
        rw [Layout.depth, Nat.add_le_add_iff_right, Layout.depths_le_iff, List.forall_mem_map]
      rw [writeText_succ new]
      simp only [fits, Draft.put, Draft.enter, inside]
      split
      · simp [Draft.leave, Layout.text, Layout.texts_eq_map, String.append_assoc, Function.comp_def]
      · rfl

theorem Shows.text_eq {v : Value} {layout : Layout} (shown : h.Shows [] v layout) :
    h.text v = layout.text := by
  rw [text, shown.writeText_eq, if_pos shown.depth_le_size]
  exact String.empty_append

/-! ## Values without circles -/

/-- The text of a value that shows every array by its elements. -/
inductive Plain (h : Heap) : Value → String → Prop
  | word {v : Value} : (∀ id, v ≠ .array id) → Plain h v (h.word v)
  | items {id : ArrayId} {text : Value → String} :
      (∀ w ∈ (h.array id).toList, Plain h w (text w)) →
      Plain h (.array id) ("[" ++ ", ".intercalate ((h.array id).toList.map text) ++ "]")

/-- No array is met again if no array contains itself: the arrays of the path contain, directly or
not, the one that is reached. -/
theorem Shows.plain {path : List ArrayId} {v : Value} {layout : Layout}
    (shown : h.Shows path v layout) (acyclic : ∀ id, h.Reaches v id → ¬ h.OnCycle id)
    (around : ∀ outer ∈ path, ∀ id, v = .array id → Relation.TransGen h.Contains outer id) :
    h.Plain v layout.text := by
  induction shown with
  | word plain => exact .word plain
  | @again path id mem => exact absurd (around id mem id rfl) (acyclic id (.refl id))
  | @items path id part _ _ ih =>
    rw [Layout.text, Layout.texts_eq_map, List.map_map]
    refine .items fun w element => ih w element ?_ ?_
    · exact fun other reach => acyclic other (reach.of_element element)
    · rintro outer mem inner rfl
      have step : h.Contains id inner := Array.mem_def.2 element
      rcases List.mem_cons.1 mem with rfl | mem
      · exact .single step
      · exact .tail (around outer mem id rfl) step

/-- On every heap the writer ends. It needs to nest as deep as the layout of the value, which is no
deeper than there are arrays to reach; it leaves the path as it was; and it writes `[...]` for the
arrays that it is in the middle of, and for no others. Where no circle is reached the text is that of
the elements. -/
theorem text_follows_heap (h : Heap) (v : Value) :
    (∀ seen, ∃ layout, h.Shows seen v layout ∧
      layout.depth ≤ {id | h.Reaches v id}.ncard ∧
      (∀ fuel out, h.writeText fuel v ⟨out, seen⟩ =
        if layout.depth ≤ fuel then some ⟨out ++ layout.text, seen⟩ else none) ∧
      ∀ pos part, layout.part? pos = some part → ∃ w, h.follow pos v = some w ∧
        (part = .again ↔ ∃ id, w = .array id ∧ (id ∈ seen ∨ h.Above v pos id))) ∧
    (∃ layout, h.Shows [] v layout ∧ layout.depth ≤ h.arrays.size + 1 ∧ h.text v = layout.text) ∧
    ((∀ id, h.Reaches v id → ¬ h.OnCycle id) → h.Plain v (h.text v)) := by
  obtain ⟨layout, shown, -⟩ := h.exists_shows [] v
  refine ⟨fun seen => ?_, ⟨layout, shown, shown.depth_le_size, shown.text_eq⟩, fun acyclic => ?_⟩
  · obtain ⟨layout, shown, deep⟩ := h.exists_shows seen v
    exact ⟨layout, shown, deep, shown.writeText_eq, fun _ _ there => shown.again_iff there⟩
  · rw [shown.text_eq]
    exact shown.plain acyclic nofun

/-- The first array contains the second twice, and the third contains itself. -/
def shapes : Heap :=
  ⟨#[#[.array ⟨1⟩, .array ⟨1⟩], #[.text "a"], #[.array ⟨2⟩, .text "b"]], #[], #[], #[]⟩

theorem contains_shapes {outer inner : ArrayId} (step : shapes.Contains outer inner) :
    outer = ⟨0⟩ ∧ inner = ⟨1⟩ ∨ outer = ⟨2⟩ ∧ inner = ⟨2⟩ := by
  obtain ⟨outer⟩ := outer
  match outer with
  | 0 | 2 => simpa [Contains, shapes, array] using step
  | 1 | n + 3 => simp [Contains, shapes, array] at step

/-- A shared array is shown in full each time; one that contains itself is not. -/
theorem text_of_shapes :
    (∀ id, shapes.Reaches (.array ⟨0⟩) id → ¬ shapes.OnCycle id) ∧
    shapes.Plain (.array ⟨0⟩) (shapes.text (.array ⟨0⟩)) ∧
    shapes.text (.array ⟨0⟩) = "[[a], [a]]" ∧ shapes.text (.array ⟨2⟩) = "[[...], b]" := by
  -- what a circle goes through contains something and is contained in something
  have twice (id : ArrayId) (cycle : shapes.OnCycle id) : id = ⟨2⟩ := by
    obtain ⟨_, step, -⟩ := Relation.TransGen.head'_iff.1 cycle
    obtain ⟨_, -, step'⟩ := Relation.TransGen.tail'_iff.1 cycle
    rcases contains_shapes step with ⟨rfl, -⟩ | ⟨rfl, -⟩
    · simpa using contains_shapes step'
    · rfl
  have apart (id : ArrayId) (steps : Relation.ReflTransGen shapes.Contains ⟨0⟩ id) :
      id ≠ ⟨2⟩ := by
    induction steps with
    | refl => decide
    | tail _ step ih =>
      rcases contains_shapes step with ⟨-, rfl⟩ | ⟨outer, -⟩
      · decide
      · exact absurd outer ih
  have acyclic (id : ArrayId) (reach : shapes.Reaches (.array ⟨0⟩) id) : ¬ shapes.OnCycle id := by
    obtain ⟨_, ⟨rfl⟩, steps⟩ := reach
    exact fun cycle => apart id steps (twice id cycle)
  exact ⟨acyclic, (text_follows_heap shapes (.array ⟨0⟩)).2.2 acyclic, by decide +kernel,
    by decide +kernel⟩

end Heap
end Scriptlet
