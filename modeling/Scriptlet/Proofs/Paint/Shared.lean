import Scriptlet.Proofs.Paint.Mirror

/-!
# Painting in shared scopes

The painting walk carries its scopes as a list of frames. The same walk can be taken in a store of
scopes, as a run takes it: standing in a scope, binding names there, and opening children of it
(`Stmt.mark`). What it finds through a handle are the frames of the chain outward from it
(`Scopes.frames`), and the two walks give the same tags (`Stmt.marks_all`).

The reason is that a walk never touches an older scope than the one it stands in
(`Scopes.Beside`): what is bound inside a child stays in scopes that are new.
-/

namespace Scriptlet

namespace Scopes

variable {s s' s'' : Scopes Role} {here id : ScopeId}

/-! ## Frames of a chain -/

/-- The names of one scope, with their roles. -/
def frame (s : Scopes Role) (id : ScopeId) : Dict Role :=
  match s.node? id with
  | some scope => ⟨scope.bindings.entries.map fun e => (e.1, e.2.value)⟩
  | none => .empty

/-- The frames of the chain outward from a scope. -/
def frames (s : Scopes Role) (id : ScopeId) : Frames :=
  match _h : s.olderParent? id with
  | none => [s.frame id]
  | some p => s.frame id :: s.frames p
termination_by id.index
decreasing_by exact olderParent?_lt _h

theorem frames_of_outermost (top : s.olderParent? id = none) : s.frames id = [s.frame id] := by
  rw [frames]
  split
  · rfl
  · next up =>
    rw [top] at up
    cases up

theorem frames_of_inside {p : ScopeId} (up : s.olderParent? id = some p) :
    s.frames id = s.frame id :: s.frames p := by
  rw [frames]
  split
  · next top =>
    rw [up] at top
    cases top
  · next up' =>
    rw [up] at up'
    cases up'
    rfl

theorem get?_frame (s : Scopes Role) (id : ScopeId) (name : String) :
    (s.frame id).get? name = (s.local? id name).map (·.value) := by
  have found (entries : List (String × Binding Role)) :
      Dict.find name (entries.map fun e => (e.1, e.2.value)) =
        (Dict.find name entries).map (·.value) := by
    induction entries with
    | nil => rfl
    | cons e rest ih =>
      simp only [List.map_cons, Dict.find]
      split
      · rfl
      · exact ih
  unfold frame local?
  cases s.node? id with
  | none => rfl
  | some scope => exact found scope.bindings.entries

/-- A name means through a handle what the frames of the chain say. -/
theorem role?_frames (s : Scopes Role) (id : ScopeId) (name : String) :
    (s.frames id).role? name = s.get? id name := by
  have here (id : ScopeId) (outer : Frames) {b : Binding Role} (bound : s.local? id name = some b) :
      Frames.role? (s.frame id :: outer) name = s.get? id name := by
    have owner : s.owner? id name = some id := by
      rw [owner?, if_pos]
      rw [contains, bound]
      rfl
    rw [Frames.role?, get?_frame, bound, get?, find?, owner, Option.bind_some, bound]
    rfl
  have away {id : ScopeId} (unbound : s.local? id name = none) : ¬ s.contains id name = true := by
    rw [contains, unbound]
    exact Bool.false_ne_true
  fun_induction frames s id with
  | case1 id top =>
    cases bound : s.local? id name with
    | some b => exact here id [] bound
    | none =>
      have nobody : s.owner? id name = none := by
        rw [owner?, if_neg (away bound)]
        split
        · rfl
        · next up =>
          rw [top] at up
          cases up
      rw [Frames.role?, get?_frame, bound, get?, find?, nobody]
      rfl
  | case2 id p up ih =>
    cases bound : s.local? id name with
    | some b => exact here id _ bound
    | none =>
      have outward : s.owner? id name = s.owner? p name := by
        rw [owner?, if_neg (away bound)]
        split
        · next top =>
          rw [up] at top
          cases top
        · next up' =>
          rw [up] at up'
          cases up'
          rfl
      rw [Frames.role?, get?_frame, bound, get?, find?, outward]
      exact ih

theorem olderParent?_congr (same : s'.node? id = s.node? id) :
    s'.olderParent? id = s.olderParent? id := by
  rw [olderParent?, olderParent?, parent?, parent?, same]

theorem frame_congr (same : s'.node? id = s.node? id) : s'.frame id = s.frame id := by
  rw [frame, frame, same]

/-- The frames depend on the scope and on older ones only. -/
theorem frames_congr (same : ∀ j : ScopeId, j.index ≤ id.index → s'.node? j = s.node? j) :
    s'.frames id = s.frames id := by
  fun_induction frames s id with
  | case1 id top =>
    have here := same id (Nat.le_refl _)
    rw [frames_of_outermost ((olderParent?_congr here).trans top), frame_congr here]
  | case2 id p up ih =>
    have here := same id (Nat.le_refl _)
    have older := olderParent?_lt up
    rw [frames_of_inside ((olderParent?_congr here).trans up), frame_congr here, ih]
    intro j below
    exact same j (by omega)

/-- Replacing the innermost frame. -/
theorem frames_replace {frame : Dict Role} (parent : s'.parent? id = s.parent? id)
    (here : s'.frame id = frame)
    (same : ∀ j : ScopeId, j.index < id.index → s'.node? j = s.node? j) :
    ∃ outer, s.frames id = s.frame id :: outer ∧ s'.frames id = frame :: outer := by
  have up' : s'.olderParent? id = s.olderParent? id := by
    rw [olderParent?, olderParent?, parent]
  cases up : s.olderParent? id with
  | none =>
    refine ⟨[], frames_of_outermost up, ?_⟩
    rw [frames_of_outermost (up'.trans up), here]
  | some p =>
    have older := olderParent?_lt up
    refine ⟨s.frames p, frames_of_inside up, ?_⟩
    rw [frames_of_inside (up'.trans up), here, frames_congr]
    intro j below
    exact same j (by omega)

theorem frames_define (there : id.index < s.nodes.size) (role : Role) (name : String) :
    (s.define id name role true).frames id = (s.frames id).define role name := by
  have put (entries : List (String × Binding Role)) :
      (Dict.put name ⟨role, true⟩ entries).map (fun e => (e.1, e.2.value)) =
        Dict.put name role (entries.map fun e => (e.1, e.2.value)) := by
    induction entries with
    | nil => rfl
    | cons e rest ih =>
      simp only [Dict.put, List.map_cons]
      split
      · rfl
      · rw [List.map_cons, ih]
  have here : (s.define id name role true).frame id = (s.frame id).insert name role := by
    have found : s.node? id = some s.nodes[id.index] := Array.getElem?_eq_getElem there
    rw [frame, frame, node?_define, if_pos rfl, found]
    exact congrArg Dict.mk (put s.nodes[id.index].bindings.entries)
  have others (j : ScopeId) (below : j.index < id.index) :
      (s.define id name role true).node? j = s.node? j := by
    rw [node?_define, if_neg]
    rintro rfl
    omega
  obtain ⟨outer, before, after⟩ :=
    frames_replace (parent?_define s id id name role true) here others
  rw [before, after]
  rfl

theorem frames_child (there : id.index < s.nodes.size) :
    (s.child id).2.frames (s.child id).1 = (s.frames id).enter := by
  have created : (s.child id).2.node? (s.child id).1 = some ⟨.empty, some id⟩ := by
    rw [node?_child, if_pos rfl]
  have older : id.index < (s.child id).1.index := there
  have up : (s.child id).2.olderParent? (s.child id).1 = some id := by
    rw [olderParent?, parent?, created]
    exact Option.filter_eq_some_iff.2 ⟨rfl, decide_eq_true older⟩
  have empty : (s.child id).2.frame (s.child id).1 = .empty := by
    rw [frame, created]
    rfl
  have others (j : ScopeId) (below : j.index ≤ id.index) :
      (s.child id).2.node? j = s.node? j := by
    rw [node?_child, if_neg]
    rintro rfl
    omega
  rw [frames_of_inside up, empty, frames_congr others]
  rfl

/-! ## What a walk leaves alone -/

/-- From `s` to `s'` scopes are added, and of the older ones at most `here` changes. -/
structure Beside (s : Scopes Role) (here : ScopeId) (s' : Scopes Role) : Prop where
  size : s.nodes.size ≤ s'.nodes.size
  others : ∀ id : ScopeId, id.index < s.nodes.size → id ≠ here → s'.node? id = s.node? id

theorem child_there (s : Scopes Role) (here : ScopeId) :
    (s.child here).1.index < (s.child here).2.nodes.size := by
  rw [size_child]
  exact Nat.lt_succ_self _

namespace Beside

theorem refl (s : Scopes Role) (here : ScopeId) : s.Beside here s :=
  ⟨Nat.le_refl _, fun _ _ _ => rfl⟩

theorem trans (h : s.Beside here s') (h' : s'.Beside here s'') : s.Beside here s'' where
  size := Nat.le_trans h.size h'.size
  others id there other := by
    rw [h'.others id (Nat.lt_of_lt_of_le there h.size) other]
    exact h.others id there other

theorem define (s : Scopes Role) (here : ScopeId) (name : String) (role : Role) :
    s.Beside here (s.define here name role true) where
  size := Nat.le_of_eq (size_define s here name role true).symm
  others id _ other := by
    rw [node?_define, if_neg other.symm]

/-- What happens in a child touches no older scope at all. -/
theorem of_child (h : (s.child here).2.Beside (s.child here).1 s') (id : ScopeId)
    (there : id.index < s.nodes.size) : s'.node? id = s.node? id := by
  have new : id ≠ (s.child here).1 := by
    rintro rfl
    exact Nat.lt_irrefl _ there
  have kept : id.index < (s.child here).2.nodes.size := by
    rw [size_child]
    omega
  rw [h.others id kept new, node?_child, if_neg new]

theorem leave (h : (s.child here).2.Beside (s.child here).1 s') : s.Beside here s' where
  size := by
    have size := h.size
    rw [size_child] at size
    omega
  others id there _ := h.of_child id there

theorem frames_leave (there : here.index < s.nodes.size)
    (h : (s.child here).2.Beside (s.child here).1 s') : s'.frames here = s.frames here :=
  frames_congr fun j below => h.of_child j (Nat.lt_of_le_of_lt below there)

end Beside
end Scopes

/-! ## The walk -/

/-- Bind the parameters of a function. -/
def Scopes.defineParams (s : Scopes Role) (here : ScopeId) (params : List Name) : Scopes Role :=
  params.foldl (fun acc param => acc.define here param.text .argument true) s

/-- Bind the names that the members of a class share. -/
def Scopes.defineShared (s : Scopes Role) (here : ScopeId) (superclass : Option Name) :
    Scopes Role :=
  let own := s.define here "this" .this true
  if superclass.isSome then (own.define here "base" .base true).define here "super" .super true
  else own

mutual

/-- The store after a statement that stands in the scope `here`, and the tags of its names. -/
def Stmt.mark (here : ScopeId) (s : Scopes Role) : Stmt → Scopes Role × List Tag
  | .declare name value _ =>
    let after := s.define here name.text .variableName true
    (after, name.tagged .variableName :: Expr.optionTags (after.frames here) value)
  | .function decl => functionMark here s decl
  | .classDecl decl => classMark here s decl
  | .ret _ value => (s, Expr.optionTags (s.frames here) value)
  | .expr e => (s, e.tags (s.frames here))
  | .block body => Stmt.markAll (s.child here).1 (s.child here).2 body
  | .branch condition yes no =>
    let (afterYes, yesTags) := yes.mark here s
    let (afterNo, noTags) := Stmt.optionMark here afterYes no
    (afterNo, condition.tags (s.frames here) ++ yesTags ++ noTags)
  | .loop condition body =>
    let (after, bodyTags) := body.mark here s
    (after, condition.tags (s.frames here) ++ bodyTags)

def Stmt.markAll (here : ScopeId) (s : Scopes Role) : List Stmt → Scopes Role × List Tag
  | [] => (s, [])
  | st :: rest =>
    let (after, tags) := st.mark here s
    let (final, more) := Stmt.markAll here after rest
    (final, tags ++ more)

def Stmt.optionMark (here : ScopeId) (s : Scopes Role) : Option Stmt → Scopes Role × List Tag
  | none => (s, [])
  | some st => st.mark here s

/-- The body of a function stands in a child, where its parameters are bound. -/
def functionMark (here : ScopeId) (s : Scopes Role) : FunctionDecl Stmt → Scopes Role × List Tag
  | ⟨name, params, body, isMethod⟩ =>
    let after := if isMethod then s else s.define here name.text .functionName true
    let inner := (after.child here).1
    let bound := (after.child here).2.defineParams inner params
    let (final, bodyTags) := Stmt.markAll inner bound body
    (final, name.tagged .functionName :: params.map (·.tagged .argument) ++ bodyTags)

def methodsMark (here : ScopeId) (s : Scopes Role) :
    List (FunctionDecl Stmt) → Scopes Role × List Tag
  | [] => (s, [])
  | decl :: rest =>
    let (after, tags) := functionMark here s decl
    let (final, more) := methodsMark here after rest
    (final, tags ++ more)

def constructorMark (here : ScopeId) (s : Scopes Role) :
    Option (FunctionDecl Stmt) → Scopes Role × List Tag
  | none => (s, [])
  | some decl =>
    let (after, tags) := functionMark here s decl
    (after, tags ++ [decl.name.tagged .constructorName])

/-- The members of a class stand in a child that binds what they share. -/
def classMark (here : ScopeId) (s : Scopes Role) : ClassDecl Stmt → Scopes Role × List Tag
  | ⟨name, superclass, fields, methods, constructor⟩ =>
    let after := s.define here name.text .className true
    let inner := (after.child here).1
    let inside := (after.child here).2.defineShared inner superclass
    let fieldTags := fields.flatMap (FieldDecl.tags (inside.frames inner))
    let (bound, methodTags) := methodsMark inner inside methods
    let (final, constructorTags) := constructorMark inner bound constructor
    let superTags := (superclass.map (·.tagged .className)).toList
    (final, name.tagged .className :: fieldTags ++ methodTags ++ constructorTags ++ superTags)

end

/-! ## The two walks agree -/

/-- A walk in the store does what the walk over frames does with the frames of `here`. -/
structure Marks (here : ScopeId) (s : Scopes Role) (marked : Scopes Role × List Tag)
    (painted : Frames × List Tag) : Prop where
  tags : marked.2 = painted.2
  frames : marked.1.frames here = painted.1
  beside : s.Beside here marked.1

namespace Marks

variable {here : ScopeId} {s s' : Scopes Role} {tags tags' : List Tag} {frames : Frames}
  {marked : Scopes Role × List Tag} {painted : Frames × List Tag}

theorem there (h : Marks here s marked painted) (there : here.index < s.nodes.size) :
    here.index < marked.1.nodes.size :=
  Nat.lt_of_lt_of_le there h.beside.size

/-- One step after another. -/
theorem seq {marked' : Scopes Role × List Tag} {painted' : Frames × List Tag}
    (h : Marks here s marked painted) (h' : Marks here marked.1 marked' painted') :
    Marks here s (marked'.1, marked.2 ++ marked'.2) (painted'.1, painted.2 ++ painted'.2) where
  tags := by
    show marked.2 ++ marked'.2 = painted.2 ++ painted'.2
    rw [h.tags, h'.tags]
  frames := h'.frames
  beside := h.beside.trans h'.beside

/-- More tags in front. -/
theorem before (h : Marks here s marked painted) (front : List Tag) :
    Marks here s (marked.1, front ++ marked.2) (painted.1, front ++ painted.2) where
  tags := congrArg _ h.tags
  frames := h.frames
  beside := h.beside

/-- More tags behind. -/
theorem behind (h : Marks here s marked painted) (back : List Tag) :
    Marks here s (marked.1, marked.2 ++ back) (painted.1, painted.2 ++ back) where
  tags := congrArg (· ++ back) h.tags
  frames := h.frames
  beside := h.beside

/-- A walk in a child of the scope. -/
theorem inChild (there : here.index < s.nodes.size)
    (h : Marks (s.child here).1 (s.child here).2 marked painted) :
    Marks here s marked (s.frames here, painted.2) where
  tags := h.tags
  frames := h.beside.frames_leave there
  beside := h.beside.leave

end Marks

theorem marks_define {here : ScopeId} {s : Scopes Role} (there : here.index < s.nodes.size)
    (role : Role) (name : String) (tags : List Tag) :
    Marks here s (s.define here name role true, tags) ((s.frames here).define role name, tags) :=
  ⟨rfl, Scopes.frames_define there role name, .define s here name role⟩

/-- Binding the parameters of a function. -/
theorem marks_params {here : ScopeId} {s : Scopes Role} (there : here.index < s.nodes.size)
    (params : List Name) :
    Marks here s (s.defineParams here params, [])
      (params.foldl (fun acc param => acc.define .argument param.text) (s.frames here), []) := by
  induction params generalizing s with
  | nil => exact ⟨rfl, rfl, .refl s here⟩
  | cons param rest ih =>
    have first := marks_define there .argument param.text []
    have later := ih (first.there there)
    rw [first.frames] at later
    exact first.seq later

/-- Binding what the members of a class share. -/
theorem marks_shared {here : ScopeId} {s : Scopes Role} (there : here.index < s.nodes.size)
    {outer : Frames} (entered : s.frames here = outer.enter) (superclass : Option Name) :
    Marks here s (s.defineShared here superclass, []) (outer.withClass superclass, []) := by
  have own := marks_define there .this "this" []
  rw [entered] at own
  cases superclass with
  | none => exact own
  | some name =>
    have base := marks_define (own.there there) .base "base" []
    rw [own.frames] at base
    have super := marks_define (base.there (own.there there)) .super "super" []
    rw [base.frames] at super
    exact (own.seq base).seq super

mutual

theorem Stmt.marks {here : ScopeId} {s : Scopes Role} (there : here.index < s.nodes.size) :
    ∀ st : Stmt, Marks here s (st.mark here s) (st.paint (s.frames here))
  | .declare name value constant => by
    have bound := marks_define there .variableName name.text []
    refine ⟨?_, bound.frames, bound.beside⟩
    show _ :: Expr.optionTags _ value = _ :: Expr.optionTags _ value
    rw [bound.frames]
  | .function decl => marks_function there decl
  | .classDecl decl => marks_class there decl
  | .ret _ value => ⟨rfl, rfl, .refl s here⟩
  | .expr e => ⟨rfl, rfl, .refl s here⟩
  | .block body => by
    have inside := Stmt.marks_all (s.child_there here) body
    rw [Scopes.frames_child there] at inside
    exact inside.inChild there
  | .branch condition yes no => by
    have first := yes.marks there
    have second := Stmt.marks_option (first.there there) no
    rw [first.frames] at second
    have both := (first.seq second).before (condition.tags (s.frames here))
    rw [← List.append_assoc, ← List.append_assoc] at both
    exact both
  | .loop condition body => (body.marks there).before (condition.tags (s.frames here))

theorem Stmt.marks_all {here : ScopeId} {s : Scopes Role} (there : here.index < s.nodes.size) :
    ∀ body : List Stmt, Marks here s (Stmt.markAll here s body) (Stmt.paintAll (s.frames here) body)
  | [] => ⟨rfl, rfl, .refl s here⟩
  | st :: rest => by
    have first := st.marks there
    have later := Stmt.marks_all (first.there there) rest
    rw [first.frames] at later
    exact first.seq later

theorem Stmt.marks_option {here : ScopeId} {s : Scopes Role} (there : here.index < s.nodes.size) :
    ∀ no : Option Stmt,
      Marks here s (Stmt.optionMark here s no) (Stmt.optionPaint (s.frames here) no)
  | none => ⟨rfl, rfl, .refl s here⟩
  | some st => st.marks there

theorem marks_function {here : ScopeId} {s : Scopes Role} (there : here.index < s.nodes.size) :
    ∀ decl : FunctionDecl Stmt,
      Marks here s (functionMark here s decl) (functionPaint (s.frames here) decl)
  | ⟨name, params, body, isMethod⟩ => by
    let after := if isMethod then s else s.define here name.text .functionName true
    have own : Marks here s (after, [name.tagged .functionName])
        (if isMethod then s.frames here else (s.frames here).define .functionName name.text,
          [name.tagged .functionName]) := by
      cases isMethod with
      | true => exact ⟨rfl, rfl, .refl s here⟩
      | false => exact marks_define there .functionName name.text _
    have params_ := marks_params (after.child_there here) params
    rw [Scopes.frames_child (own.there there), own.frames] at params_
    have inside := Stmt.marks_all (params_.there (after.child_there here)) body
    rw [params_.frames] at inside
    have closed := ((params_.seq inside).inChild (own.there there)).before
      (params.map (·.tagged .argument))
    rw [own.frames] at closed
    exact own.seq closed

theorem marks_methods {here : ScopeId} {s : Scopes Role} (there : here.index < s.nodes.size) :
    ∀ decls : List (FunctionDecl Stmt),
      Marks here s (methodsMark here s decls) (methodsPaint (s.frames here) decls)
  | [] => ⟨rfl, rfl, .refl s here⟩
  | decl :: rest => by
    have first := marks_function there decl
    have later := marks_methods (first.there there) rest
    rw [first.frames] at later
    exact first.seq later

theorem marks_constructor {here : ScopeId} {s : Scopes Role} (there : here.index < s.nodes.size) :
    ∀ decl : Option (FunctionDecl Stmt), Marks here s (constructorMark here s decl)
      ((constructorMark here s decl).1.frames here, constructorPaint (s.frames here) decl)
  | none => ⟨rfl, rfl, .refl s here⟩
  | some decl => by
    have whole := (marks_function there decl).behind [decl.name.tagged .constructorName]
    exact ⟨whole.tags, rfl, whole.beside⟩

theorem marks_class {here : ScopeId} {s : Scopes Role} (there : here.index < s.nodes.size) :
    ∀ decl : ClassDecl Stmt, Marks here s (classMark here s decl) (classPaint (s.frames here) decl)
  | ⟨name, superclass, fields, methods, constructor⟩ => by
    let after := s.define here name.text .className true
    let inner := (after.child here).1
    let inside := (after.child here).2.defineShared inner superclass
    have own := marks_define there .className name.text [name.tagged .className]
    have entered : (after.child here).2.frames inner =
        ((s.frames here).define .className name.text).enter := by
      rw [Scopes.frames_child (own.there there), own.frames]
    have opened := after.child_there here
    have shared := marks_shared opened entered superclass
    have bound := shared.there opened
    -- the members stand in one scope after the other
    have fields_ : Marks inner inside
        (inside, fields.flatMap (FieldDecl.tags (inside.frames inner)))
        (inside.frames inner, fields.flatMap (FieldDecl.tags
          (((s.frames here).define .className name.text).withClass superclass))) :=
      ⟨congrArg (fun frames => fields.flatMap (FieldDecl.tags frames)) shared.frames, rfl,
        .refl inside inner⟩
    have methods_ := marks_methods bound methods
    rw [shared.frames] at methods_
    have constructor_ := marks_constructor (methods_.there bound) constructor
    rw [methods_.frames] at constructor_
    have members := ((shared.seq fields_).seq methods_).seq constructor_
    have closed := (members.inChild (own.there there)).behind
      (superclass.map (·.tagged .className)).toList
    rw [own.frames] at closed
    exact own.seq closed

end

/-- The names of a program are tagged by a walk that starts in the outermost scope. -/
theorem nameTags_eq_markAll (statements : List Stmt) :
    nameTags statements = (Stmt.markAll Scopes.rootId Scopes.root statements).2 := by
  have outermost : Scopes.root.frames Scopes.rootId = [Dict.empty] := Scopes.frames_of_outermost rfl
  rw [(Stmt.marks_all (Nat.lt_add_one 0) statements).tags, outermost]
  rfl

end Scriptlet
