import Scriptlet.Paint.Names
import Scriptlet.Scope

/-!
# Scopes that mirror the scopes of the walk

The painting walk carries a list of frames, the innermost first; a run stands in a scope and reaches
the others through parents. The scopes mirror the frames if the two chains have the same length and
each scope binds at least the names of its frame (`Scopes.Mirrors`). One name may be missing in the
innermost scope: that of a variable whose first value is still being computed.

Scopes only grow during a run (`Scopes.Grows`), and growing keeps every mirror intact. Opening a
scope and binding a name on both sides does too.
-/

namespace Scriptlet

namespace Scopes

variable {α : Type} {s s' s'' : Scopes α}

/-! ## Growth -/

/-- All scopes of `s` are there in `s'`, with their parents and names. -/
structure Grows (s s' : Scopes α) : Prop where
  node : ∀ id, (s.node? id).isSome = true → (s'.node? id).isSome = true
  parent : ∀ id, (s.node? id).isSome = true → s'.parent? id = s.parent? id
  names : ∀ id name, s.contains id name = true → s'.contains id name = true

theorem Grows.refl (s : Scopes α) : s.Grows s :=
  ⟨fun _ there => there, fun _ _ => rfl, fun _ _ bound => bound⟩

theorem Grows.trans (h : s.Grows s') (h' : s'.Grows s'') : s.Grows s'' where
  node id there := h'.node id (h.node id there)
  parent id there := (h'.parent id (h.node id there)).trans (h.parent id there)
  names id name bound := h'.names id name (h.names id name bound)

theorem child_ne {parent id : ScopeId} (there : (s.node? id).isSome = true) :
    id ≠ (s.child parent).1 := by
  rintro rfl
  simp [node?, child] at there

theorem grows_child (s : Scopes α) (parent : ScopeId) : s.Grows (s.child parent).2 := by
  have same : ∀ id, (s.node? id).isSome = true → (s.child parent).2.node? id = s.node? id := by
    intro id there
    rw [node?_child, if_neg (child_ne there)]
  refine ⟨?_, ?_, ?_⟩
  · intro id there
    rw [same id there]
    exact there
  · intro id there
    rw [parent?, parent?, same id there]
  · intro id name bound
    have there : (s.node? id).isSome = true := by
      cases found : s.node? id with
      | none => simp [contains, local?, found] at bound
      | some node => rfl
    rw [contains, local?, same id there]
    exact bound

theorem node?_define_isSome (id other : ScopeId) (name : String) (value : α) (writable : Bool) :
    ((s.define id name value writable).node? other).isSome = (s.node? other).isSome := by
  rw [node?_define]
  split
  · rw [Option.isSome_map]
  · rfl

theorem contains_define (id other : ScopeId) (name wanted : String) (value : α)
    (writable : Bool) :
    (s.define id name value writable).contains other wanted =
      (decide (id = other ∧ name = wanted ∧ (s.node? other).isSome = true) ||
        s.contains other wanted) := by
  rw [contains, contains, local?_define]
  by_cases here : id = other ∧ name = wanted ∧ (s.node? other).isSome = true
  · rw [if_pos here, decide_eq_true here]
    rfl
  · rw [if_neg here, decide_eq_false here]
    rfl

theorem grows_define (s : Scopes α) (id : ScopeId) (name : String) (value : α)
    (writable : Bool) : s.Grows (s.define id name value writable) where
  node other there := by rw [node?_define_isSome]; exact there
  parent other _ := parent?_define s id other name value writable
  names other wanted bound := by rw [contains_define, bound, Bool.or_true]

/-! ## Mirrors -/

/-- The scope `k` steps outward from a scope. -/
def outward? (s : Scopes α) (id : ScopeId) : Nat → Option ScopeId
  | 0 => some id
  | k + 1 => (s.parent? id).bind fun parent => s.outward? parent k

theorem parent?_of_olderParent? {id parent : ScopeId} (h : s.olderParent? id = some parent) :
    s.parent? id = some parent := by
  rw [olderParent?, Option.filter_eq_some_iff] at h
  exact h.1

/-- A scope binds the names of a frame, but for one that may be missing. -/
def Covers (s : Scopes α) (id : ScopeId) (frame : Dict Role) (missing : Option String) : Prop :=
  ∀ name, frame.contains name = true → missing ≠ some name → s.contains id name = true

theorem covers_empty (s : Scopes α) (id : ScopeId) (missing : Option String) :
    s.Covers id .empty missing := by
  intro name bound
  cases bound

/-- The chain of scopes from `id` outward mirrors a list of frames; `missing` is a name that the
innermost scope need not have. -/
inductive Mirrors (s : Scopes α) : Frames → Option String → ScopeId → Prop
  | root {frame missing id} : (s.node? id).isSome = true → s.Covers id frame missing →
      s.olderParent? id = none → Mirrors s [frame] missing id
  | inner {frame outer missing id parent} : (s.node? id).isSome = true →
      s.Covers id frame missing → s.olderParent? id = some parent →
      Mirrors s outer none parent → Mirrors s (frame :: outer) missing id

namespace Mirrors

variable {frames : Frames} {missing : Option String} {id : ScopeId}

theorem node (h : s.Mirrors frames missing id) : (s.node? id).isSome = true := by
  cases h with
  | root there _ _ => exact there
  | inner there _ _ _ => exact there

theorem grow (h : s.Mirrors frames missing id) (grows : s.Grows s') :
    s'.Mirrors frames missing id := by
  induction h with
  | root there covers top =>
    refine .root (grows.node _ there) ?_ ?_
    · intro name bound other
      exact grows.names _ name (covers name bound other)
    · rw [olderParent?, grows.parent _ there]
      exact top
  | inner there covers up _ ih =>
    refine .inner (grows.node _ there) ?_ ?_ ih
    · intro name bound other
      exact grows.names _ name (covers name bound other)
    · rw [olderParent?, grows.parent _ there]
      exact up

/-- Replacing the innermost frame by one that the scope still covers. -/
theorem reframe {frame frame' : Dict Role} {outer : Frames} {missing' : Option String}
    (h : s.Mirrors (frame :: outer) missing id) (covers : s.Covers id frame' missing') :
    s.Mirrors (frame' :: outer) missing' id := by
  cases h with
  | root there _ top => exact .root there covers top
  | inner there _ up outer => exact .inner there covers up outer

theorem covers {frame : Dict Role} {outer : Frames}
    (h : s.Mirrors (frame :: outer) missing id) : s.Covers id frame missing := by
  cases h with
  | root _ covers _ => exact covers
  | inner _ covers _ _ => exact covers

theorem ne_nil (h : s.Mirrors frames missing id) : ∃ frame outer, frames = frame :: outer := by
  cases h with
  | root => exact ⟨_, _, rfl⟩
  | inner => exact ⟨_, _, rfl⟩

/-- The walk has bound a name that the run has not bound yet. -/
theorem pending (h : s.Mirrors frames none id) (role : Role) (name : String) :
    s.Mirrors (frames.define role name) (some name) id := by
  obtain ⟨frame, outer, rfl⟩ := h.ne_nil
  refine h.reframe ?_
  intro wanted bound other
  rw [Dict.contains_insert, Bool.or_eq_true, decide_eq_true_eq] at bound
  rcases bound with same | bound
  · exact absurd (congrArg some same) other
  · exact h.covers wanted bound nofun

/-- Both sides bind a name. -/
theorem define (h : s.Mirrors frames none id) (role : Role) (name : String) (value : α)
    (writable : Bool) :
    (s.define id name value writable).Mirrors (frames.define role name) none id := by
  have grown := h.grow (grows_define s id name value writable)
  obtain ⟨frame, outer, rfl⟩ := h.ne_nil
  refine grown.reframe ?_
  intro wanted bound _
  rw [Dict.contains_insert, Bool.or_eq_true, decide_eq_true_eq] at bound
  rw [contains_define, Bool.or_eq_true, decide_eq_true_eq]
  rcases bound with same | bound
  · exact .inl ⟨rfl, same, h.node⟩
  · exact .inr (h.covers wanted bound nofun)

/-- Both sides open a scope. -/
theorem enter (h : s.Mirrors frames none id) :
    (s.child id).2.Mirrors frames.enter none (s.child id).1 := by
  have created : (s.child id).2.node? (s.child id).1 = some ⟨.empty, some id⟩ := by
    rw [node?_child, if_pos rfl]
  have older : id.index < (s.child id).1.index := by
    have there := h.node
    simpa [node?, child] using there
  refine .inner (by rw [created]; rfl) (covers_empty _ _ _) ?_ (h.grow (grows_child s id))
  rw [olderParent?, parent?, created]
  exact Option.filter_eq_some_iff.2 ⟨rfl, decide_eq_true older⟩

/-! ## What a mirror says -/

/-- The two chains are equally long. -/
theorem depth_eq (h : s.Mirrors frames missing id) : s.depth id + 1 = frames.length := by
  induction h with
  | root _ _ top =>
    rw [depth]
    split
    · rfl
    · rename_i up
      rw [top] at up
      cases up
  | inner _ _ up _ ih =>
    rw [depth]
    split
    · rename_i top
      rw [up] at top
      cases top
    · rename_i parent up'
      rw [up] at up'
      cases up'
      rw [ih]
      rfl

/-- On every level the scope binds the names of the frame, but for the missing one. -/
theorem level (h : s.Mirrors frames missing id) {k : Nat} {frame : Dict Role}
    (at_ : frames[k]? = some frame) :
    ∃ scope, s.outward? id k = some scope ∧ ∀ name, frame.contains name = true →
      s.contains scope name = true ∨ (k = 0 ∧ missing = some name) := by
  have covered : ∀ {id : ScopeId} {frame : Dict Role} {missing : Option String},
      s.Covers id frame missing → ∀ name, frame.contains name = true →
        s.contains id name = true ∨ (0 = 0 ∧ missing = some name) := by
    intro id frame missing covers name bound
    by_cases hole : missing = some name
    · exact .inr ⟨rfl, hole⟩
    · exact .inl (covers name bound hole)
  induction h generalizing k with
  | @root top missing id _ covers _ =>
    cases k with
    | zero =>
      cases at_
      exact ⟨id, rfl, covered covers⟩
    | succ k => cases at_
  | @inner inmost outer missing id parent _ covers up _ ih =>
    cases k with
    | zero =>
      cases at_
      exact ⟨id, rfl, covered covers⟩
    | succ k =>
      obtain ⟨scope, found, names⟩ := ih at_
      refine ⟨scope, ?_, ?_⟩
      · rw [outward?, parent?_of_olderParent? up]
        exact found
      · intro name bound
        -- only the innermost scope may have a hole
        rcases names name bound with bound | ⟨-, hole⟩
        · exact .inl bound
        · cases hole

/-- A name that the walk resolves has a binding in some scope of the chain. -/
theorem owner_isSome {name : String} (h : s.Mirrors frames missing id)
    (resolved : (frames.role? name).isSome = true) (present : missing ≠ some name) :
    ∃ owner, s.owner? id name = some owner ∧ s.contains owner name = true := by
  -- names are looked up from the inside out on both sides, so a scope that has the name can only
  -- be nearer than the frame that has it
  induction h with
  | @root frame missing id _ covers _ =>
    have bound : frame.contains name = true := by
      unfold Dict.contains
      cases found : frame.get? name with
      | none => simp [Frames.role?, found] at resolved
      | some role => rfl
    have here := covers name bound present
    exact ⟨id, by rw [owner?, if_pos here], here⟩
  | @inner frame outer missing id parent _ covers up _ ih =>
    by_cases here : s.contains id name = true
    · exact ⟨id, by rw [owner?, if_pos here], here⟩
    · have unbound : frame.get? name = none := by
        cases found : frame.get? name with
        | none => rfl
        | some role => exact absurd (covers name (by simp [Dict.contains, found]) present) here
      rw [Frames.role?, unbound] at resolved
      obtain ⟨owner, found, bound⟩ := ih resolved (Option.some_ne_none name).symm
      refine ⟨owner, ?_, bound⟩
      rw [owner?, if_neg here]
      split
      · rename_i top
        rw [up] at top
        cases top
      · rename_i other up'
        rw [up] at up'
        cases up'
        exact found

end Mirrors
end Scopes
end Scriptlet
