import Mathlib.Data.List.Forall2
import Scriptlet.Proofs.Handles.Chains
import Scriptlet.Proofs.Handles.Spares

/-!
# The layers of an instance

Binding a class goes up its lineage and comes back down: at each class the object gets the values of
the field defaults and then the methods. What a class contributes is a layer (`Layer`): a scope of
its own, the values, and the functions that its methods and its constructor became.

Field defaults that only read (`Expr.onlyReads`) do nothing but add arrays. So everything that a
layer consists of is still there when the layers below it are built (`Machine.Spares`), and what a
binding leaves can be read off its layers: `instance_built_in_layers`.
-/

namespace Scriptlet

/-! ## Layers -/

/-- What one class contributes to an object. -/
structure Layer where
  record : ClassRecord
  /-- The scope of the class, in which its defaults are evaluated and its functions are at home. -/
  scope : ScopeId
  /-- The values of the field defaults. -/
  values : List Value
  /-- The functions that the methods became. -/
  methods : List FunctionId
  /-- The function that the constructor became. -/
  constructor : Option FunctionId
  /-- Below a superclass, the object that is `base` and the function that is `super`. -/
  inherited : Option (ObjectId × FunctionId)

/-- Fields with their first values. -/
def fieldEntries (fields : List FieldDecl) (values : List Value) : List (String × Value) :=
  List.zipWith (fun field value => (field.name.text, value)) fields values

/-- Methods with the functions that they became. -/
def methodEntries (decls : List (FunctionDecl Stmt)) (ids : List FunctionId) :
    List (String × Value) :=
  List.zipWith (fun decl id => (decl.name.text, .function id)) decls ids

namespace Layer

/-- The methods of a layer, in the order in which they are declared. -/
def entries (l : Layer) : List (String × Value) := methodEntries l.record.decl.methods l.methods

/-- The method that a layer has under a name: of several, the last. -/
def method? (l : Layer) (name : String) : Option Value := Dict.find name l.entries.reverse

/-- The fields of an object after a layer was put on it: the defaults are written first, then the
methods. -/
def writeTo (l : Layer) (fields : Dict Value) : Dict Value :=
  (fields.insertMany (fieldEntries l.record.decl.fields l.values)).insertMany l.entries

end Layer

/-- The scope of a class for one object, inside the scope `home` that the class was declared in. All
its names are constants. -/
def classScope (object : ObjectId) (home : ScopeId) (inherited : Option (ObjectId × FunctionId)) :
    Scope Value where
  bindings := ⟨("this", ⟨.object object, false⟩) ::
    match inherited with
    | none => []
    | some (base, super) => [("base", ⟨.object base, false⟩), ("super", ⟨.function super, false⟩)]⟩
  parent := some home

def Layer.node (object : ObjectId) (l : Layer) : Scope Value :=
  classScope object l.record.home l.inherited

/-- The fields of an object after layers were put on it, the last one of the list first. -/
def fieldsOf (layers : List Layer) : Dict Value :=
  layers.reverse.foldl (fun fields l => l.writeTo fields) .empty

@[simp] theorem fieldsOf_cons (l : Layer) (above : List Layer) :
    fieldsOf (l :: above) = l.writeTo (fieldsOf above) := by
  simp [fieldsOf]

/-- The values of field defaults, one after the other. Each is evaluated on a machine that has all
that `m` has; it stands in the scope of the class, and the object has the fields that were written
before. -/
inductive Defaults (host : Host) (m : Machine) (object : ObjectId) (scope : ScopeId)
    (node : Scope Value) : Dict Value → List FieldDecl → List Value → Prop
  | nil {written : Dict Value} : Defaults host m object scope node written [] []
  | cons {written : Dict Value} {field : FieldDecl} {rest : List FieldDecl} {value : Value}
      {values : List Value} {n : Nat} {start finish : Machine} {name : String} :
      m.Spares object (fun _ => False) start → start.scope = scope →
      start.scopes.node? scope = some node →
      start.heap.objects[object.index]? = some ⟨name, written⟩ →
      Expr.eval host n field.value start = .ok value finish →
      Defaults host m object scope node (written.insert field.name.text value) rest values →
      Defaults host m object scope node written (field :: rest) (value :: values)

/-- A function is a declared one that is at home in a scope. -/
def Machine.Closure (m : Machine) (scope : ScopeId) (id : FunctionId) (decl : FunctionDecl Stmt) :
    Prop :=
  m.heap.functions[id.index]? = some (.user decl scope)

/-- A table has the methods of layers, the nearest first, each name once. -/
structure MethodTable (table : Dict Value) (layers : List Layer) : Prop where
  get : ∀ name, table.get? name = layers.findSome? (·.method? name)
  distinct : table.keys.Nodup

theorem MethodTable.nil : MethodTable .empty [] := ⟨fun _ => rfl, List.nodup_nil⟩

/-- What `base` and `super` are on layers, the nearest first: an object that is not the instance,
with the methods of the layers under their names, and the constructor of the nearest layer, or a
function that does nothing. The fields of the object can be written in any order. -/
inductive Machine.Inherits (m : Machine) (object : ObjectId) :
    Option (ObjectId × FunctionId) → List Layer → Prop
  | top : Inherits m object none []
  | below {l : Layer} {above : List Layer} {base : ObjectId} {super : FunctionId}
      {fields : Dict Value} :
      base ≠ object → m.heap.objects[base.index]? = some ⟨l.record.name, fields⟩ →
      MethodTable fields (l :: above) →
      (∀ entries, entries.Perm fields.entries → ∀ name,
        (Dict.empty.insertMany entries).get? name = fields.get? name) →
      (l.constructor = some super ∨ l.constructor = none ∧
        m.heap.functions[super.index]? = some (.native "super" 0 .nothing)) →
      Inherits m object (some (base, super)) (l :: above)

/-- A layer of an object, as it stands on the layers above in a machine. The object was bound from
`start` on. -/
structure Layer.Stands (host : Host) (start : Machine) (object : ObjectId) (m : Machine) (l : Layer)
    (above : List Layer) : Prop where
  node : m.scopes.node? l.scope = some (l.node object)
  defaults : Defaults host start object l.scope (l.node object) (fieldsOf above)
    l.record.decl.fields l.values
  methods : List.Forall₂ (m.Closure l.scope) l.methods l.record.decl.methods
  constructor : Option.Rel (m.Closure l.scope) l.constructor l.record.decl.constructor
  inherits : m.Inherits object l.inherited above

/-! ## Layers stand while others are built -/

section

variable {host : Host} {start m m' : Machine} {object : ObjectId} {scope : ScopeId}
  {except : ScopeId → Prop}

theorem Defaults.since {node : Scope Value} {written : Dict Value} {fields : List FieldDecl}
    {values : List Value} (spares : start.Spares object (fun _ => False) m)
    (h : Defaults host m object scope node written fields values) :
    Defaults host start object scope node written fields values := by
  induction h with
  | nil => exact .nil
  | cons kept here there fields ran _ ih => exact .cons (spares.trans kept) here there fields ran ih

namespace Machine.Spares

variable (spares : m.Spares object except m')

include spares

theorem closure {id : FunctionId} {decl : FunctionDecl Stmt} (h : m.Closure scope id decl) :
    m'.Closure scope id decl :=
  spares.functions id.index _ h

theorem constructor {id : Option FunctionId} {decl : Option (FunctionDecl Stmt)}
    (h : Option.Rel (m.Closure scope) id decl) : Option.Rel (m'.Closure scope) id decl := by
  cases h with
  | none => exact .none
  | some closure => exact .some (spares.closure closure)

theorem inherits {inherited : Option (ObjectId × FunctionId)} {above : List Layer}
    (h : m.Inherits object inherited above) : m'.Inherits object inherited above := by
  cases h with
  | top => exact .top
  | @below l above base super fields other there methods anyOrder constructor =>
    have apart : base.index ≠ object.index := by
      rintro same
      exact other (congrArg ObjectId.mk same)
    refine .below other (spares.objects _ _ apart there) methods anyOrder ?_
    exact constructor.imp_right (.imp_right (spares.functions _ _))

theorem stands {l : Layer} {above : List Layer} (kept : ¬ except l.scope)
    (h : l.Stands host start object m above) : l.Stands host start object m' above where
  node := spares.nodes _ _ kept h.node
  defaults := h.defaults
  methods := h.methods.imp fun _ _ => spares.closure
  constructor := spares.constructor h.constructor
  inherits := spares.inherits h.inherits

end Machine.Spares

end

/-! ## Building a layer -/

section Building

open Run

variable {host : Host} {n : Nat} {m m' : Machine} {object : ObjectId} {scope : ScopeId}
  {name : String} {written : Dict Value}

theorem object_setField (there : m.heap.objects[object.index]? = some ⟨name, written⟩)
    (field : String) (value : Value) :
    (m.heap.write (.field object field) value).objects[object.index]? =
      some ⟨name, written.insert field value⟩ := by
  show (m.heap.objects.modify object.index _)[object.index]? = _
  rw [Array.getElem?_modify, if_pos rfl, there]
  rfl

/-- Field defaults that only read are written one after the other, and that is all. -/
theorem initFields_defaults {fields : List FieldDecl} (reads : ∀ f ∈ fields, f.value.onlyReads)
    {node : Scope Value} (here : m.scopes.node? m.scope = some node)
    (there : m.heap.objects[object.index]? = some ⟨name, written⟩)
    (ran : initFields host n object fields m = .ok () m') :
    ∃ values, Defaults host m object m.scope node written fields values ∧
      m.Spares object (fun _ => False) m' ∧
      m'.heap.objects[object.index]? =
        some ⟨name, written.insertMany (fieldEntries fields values)⟩ := by
  induction fields generalizing n m written with
  | nil =>
    cases n <;> cases ran
    exact ⟨[], .nil, .refl _, there⟩
  | cons field rest ih =>
    cases n with
    | zero => cases ran
    | succ n =>
      unfold initFields at ran
      obtain ⟨value, m₁, evaluated, ran⟩ := bind_eq_ok ran
      obtain ⟨_, m₂, set, ran⟩ := bind_eq_ok ran
      cases set
      have only := (reads_eval host n).1 field.value (reads field List.mem_cons_self)
      obtain ⟨added, rfl⟩ := only m value m₁ evaluated
      have spares : m.Spares object (fun _ => False) _ :=
        (Machine.Spares.addArrays m added).trans (.setField _ field.name.text value)
      obtain ⟨values, defaults, spares', fields⟩ := ih
        (fun f mem => reads f (List.mem_cons_of_mem _ mem))
        (by exact here) (by exact object_setField there _ _) ran
      exact ⟨value :: values, .cons (.refl m) rfl here there evaluated (defaults.since spares),
        spares.trans spares', fields⟩

/-- Methods become functions of the scope, entries of the table and fields of the object. -/
theorem bindMethods_closures {decls : List (FunctionDecl Stmt)} {table table' : Dict Value}
    (there : m.heap.objects[object.index]? = some ⟨name, written⟩)
    (ran : bindMethods object scope decls table m = .ok table' m') :
    ∃ ids, List.Forall₂ (m'.Closure scope) ids decls ∧ m.Spares object (fun _ => False) m' ∧
      table' = table.insertMany (methodEntries decls ids) ∧
      m'.heap.objects[object.index]? =
        some ⟨name, written.insertMany (methodEntries decls ids)⟩ := by
  induction decls generalizing m written table with
  | nil =>
    cases ran
    exact ⟨[], .nil, .refl _, rfl, there⟩
  | cons decl rest ih =>
    unfold bindMethods at ran
    obtain ⟨id, m₁, added, ran⟩ := bind_eq_ok ran
    cases added
    obtain ⟨_, m₂, set, ran⟩ := bind_eq_ok ran
    cases set
    have added : m.Spares object (fun _ => False) _ := .addFunction m (.user decl scope)
    have spares := added.trans
      (.setField _ decl.name.text (.function ⟨m.heap.functions.size⟩))
    obtain ⟨ids, closures, spares', table', fields⟩ :=
      ih (by exact object_setField there _ _) ran
    have first : m'.Closure scope ⟨m.heap.functions.size⟩ decl :=
      spares'.functions _ _ Array.getElem?_push_size
    exact ⟨_ :: ids, .cons first closures, spares.trans spares', table', fields⟩

/-- What is left of binding a class, once its scope has all names, is a layer. -/
theorem bindMembers_layer {record : ClassRecord} {table : Dict Value} {bound : BoundClass}
    (reads : ∀ f ∈ record.decl.fields, f.value.onlyReads) {node : Scope Value}
    (here : m.scopes.node? scope = some node)
    (there : m.heap.objects[object.index]? = some ⟨name, written⟩)
    (ran : bindMembers host n object scope record.decl table m = .ok bound m')
    (inherited : Option (ObjectId × FunctionId)) :
    ∃ l : Layer, l.record = record ∧ l.scope = scope ∧ l.inherited = inherited ∧
      Defaults host m object scope node written record.decl.fields l.values ∧
      List.Forall₂ (m'.Closure scope) l.methods record.decl.methods ∧
      Option.Rel (m'.Closure scope) l.constructor record.decl.constructor ∧
      m.Spares object (fun _ => False) m' ∧
      m'.heap.objects[object.index]? = some ⟨name, l.writeTo written⟩ ∧
      bound = ⟨table.insertMany l.entries, l.constructor⟩ := by
  unfold bindMembers at ran
  obtain ⟨_, m₁, initialized, ran⟩ := bind_eq_ok ran
  obtain ⟨m₀, inside, rfl⟩ := within_eq_ok initialized
  obtain ⟨values, defaults, spares₀, fields⟩ :=
    initFields_defaults (m := { m with scope }) reads here there inside
  have entered : m.Spares object (fun _ => False) _ := .goto m scope
  have spares₁ := (entered.trans spares₀).trans (.goto m₀ m.scope)
  obtain ⟨table', m₂, methods, ran⟩ := bind_eq_ok ran
  obtain ⟨ids, closures, spares₂, rfl, fields'⟩ := bindMethods_closures (by exact fields) methods
  let layer (constructor : Option FunctionId) : Layer :=
    ⟨record, scope, values, ids, constructor, inherited⟩
  cases declared : record.decl.constructor with
  | none =>
    rw [declared] at ran
    cases ran
    exact ⟨layer none, rfl, rfl, rfl, defaults.since entered, closures, .none,
      spares₁.trans spares₂, fields', rfl⟩
  | some decl =>
    rw [declared] at ran
    cases ran
    have added : m₂.Spares object (fun _ => False) _ := .addFunction m₂ (.user decl scope)
    exact ⟨layer (some ⟨m₂.heap.functions.size⟩), rfl, rfl, rfl, defaults.since entered,
      closures.imp fun _ _ => added.closure, .some Array.getElem?_push_size,
      (spares₁.trans spares₂).trans added, fields', rfl⟩

/-- The scope of a class gets the names `base` and `super`, and that is all. -/
theorem bindInherited_names {parentName : String} {bound : BoundClass} {home : ScopeId}
    {record : ObjectRecord} (here : m.scopes.node? scope = some (classScope object home none))
    (there : m.heap.objects[object.index]? = some record)
    (ran : bindInherited scope parentName bound m = .ok () m') :
    ∃ base super, base ≠ object ∧
      m'.scopes.node? scope = some (classScope object home (some (base, super))) ∧
      m'.heap.objects[base.index]? = some ⟨parentName, bound.methods⟩ ∧
      (bound.constructor = some super ∨ bound.constructor = none ∧
        m'.heap.functions[super.index]? = some (.native "super" 0 .nothing)) ∧
      m.Spares object (· = scope) m' ∧ m'.heap.objects[object.index]? = some record := by
  unfold bindInherited at ran
  obtain ⟨base, m₁, added, ran⟩ := bind_eq_ok ran
  cases added
  have old : object.index < m.heap.objects.size := (Array.getElem?_eq_some_iff.1 there).1
  have other : (⟨m.heap.objects.size⟩ : ObjectId) ≠ object := by
    rintro rfl
    exact Nat.lt_irrefl _ old
  obtain ⟨_, m₂, defined, ran⟩ := bind_eq_ok ran
  cases defined
  have spares₁ : m.Spares object (· = scope) _ := .addObject m ⟨parentName, bound.methods⟩
  have spares₂ := spares₁.trans (.define _ scope "base" (.object ⟨m.heap.objects.size⟩) false)
  have new : (m.heap.objects.push ⟨parentName, bound.methods⟩)[m.heap.objects.size]? =
    some ⟨parentName, bound.methods⟩ := Array.getElem?_push_size
  have kept := getElem?_push_of_some (⟨parentName, bound.methods⟩ : ObjectRecord) there
  have named (super : FunctionId) :
      ((m.scopes.define scope "base" (.object ⟨m.heap.objects.size⟩) false).define scope "super"
        (.function super) false).node? scope =
      some (classScope object home (some (⟨m.heap.objects.size⟩, super))) := by
    rw [Scopes.node?_define, if_pos rfl, Scopes.node?_define, if_pos rfl, here]
    rfl
  cases constructor : bound.constructor with
  | some super =>
    rw [constructor] at ran
    cases ran
    exact ⟨_, super, other, named super, new, .inl rfl,
      spares₂.trans (.define _ scope "super" (.function super) false), kept⟩
  | none =>
    rw [constructor] at ran
    cases ran
    have spares₃ := spares₂.trans (.addFunction _ (.native "super" 0 .nothing))
    have spares₄ := spares₃.trans
      (.define _ scope "super" (.function ⟨m.heap.functions.size⟩) false)
    exact ⟨_, _, other, named _, new, .inr ⟨rfl, Array.getElem?_push_size⟩, spares₄, kept⟩

theorem node?_newest (s : Scopes Value) : s.node? ⟨s.nodes.size⟩ = none :=
  Array.getElem?_eq_none (Nat.le_refl _)

theorem node?_withScopeOf (m : Machine) (id : ClassId) (object : ObjectId) :
    (m.withScopeOf id object).scopes.node? ⟨m.scopes.nodes.size⟩ =
      some (classScope object (m.heap.classRecord id).home none) := by
  let home := (m.heap.classRecord id).home
  have child := (m.scopes.node?_child home ⟨m.scopes.nodes.size⟩).trans (if_pos rfl)
  show Scopes.node? (Scopes.define (m.scopes.child home).2 _ _ _ _) _ = _
  rw [Scopes.node?_define, if_pos rfl, child]
  rfl

theorem spares_withScopeOf (m : Machine) (id : ClassId) :
    m.Spares object (fun _ => False) (m.withScopeOf id object) := by
  let home := (m.heap.classRecord id).home
  refine .scopes m fun other node _ there => ?_
  have apart : other ≠ ⟨m.scopes.nodes.size⟩ := by
    rintro rfl
    cases (node?_newest m.scopes).symm.trans there
  have child := (m.scopes.node?_child home other).trans (if_neg apart)
  show Scopes.node? (Scopes.define (m.scopes.child home).2 _ _ _ _) _ = _
  rw [Scopes.node?_define, if_neg apart.symm, child, there]

end Building

/-! ## Building all layers -/

/-- The object has layers in `m`, the most derived first, and nothing else has changed since
`start`. -/
structure Layered (host : Host) (start : Machine) (name : String) (object : ObjectId)
    (layers : List Layer) (m : Machine) : Prop where
  spares : start.Spares object (fun _ => False) m
  /-- The object has what the layers write to it. -/
  fields : m.heap.objects[object.index]? = some ⟨name, fieldsOf layers⟩
  /-- Each layer has a scope of its own, which is new. -/
  fresh : ∀ l ∈ layers, start.scopes.nodes.size ≤ l.scope.index
  distinct : (layers.map (·.scope)).Nodup
  /-- Each layer stands on those above it. -/
  stands : ∀ l above, l :: above <:+ layers → l.Stands host start object m above

/-- What binding a class answers has the methods of all layers and the constructor of the first. -/
structure BoundClass.Answers (bound : BoundClass) (layers : List Layer) : Prop where
  methods : MethodTable bound.methods layers
  constructor : bound.constructor = layers.head?.bind (·.constructor)

section Lineage

open Run

variable {host : Host} {n : Nat} {start m m' : Machine} {object : ObjectId} {name : String}
  {layers above : List Layer} {bound : BoundClass} {scope : ScopeId}

namespace Layered

theorem nil (spares : start.Spares object (fun _ => False) m)
    (there : m.heap.objects[object.index]? = some ⟨name, .empty⟩) :
    Layered host start name object [] m where
  spares
  fields := there
  fresh := nofun
  distinct := .nil
  stands l above suffix := by cases List.suffix_nil.1 suffix

/-- Layers that were put on since a machine were put on since an earlier one. -/
theorem since (h : Layered host m name object layers m')
    (spares : start.Spares object (fun _ => False) m)
    (grows : start.scopes.nodes.size ≤ m.scopes.nodes.size) :
    Layered host start name object layers m' where
  spares := spares.trans h.spares
  fields := h.fields
  fresh l mem := Nat.le_trans grows (h.fresh l mem)
  distinct := h.distinct
  stands l above suffix :=
    { h.stands l above suffix with
      defaults := (h.stands l above suffix).defaults.since spares }

/-- Layers stay when one more scope, which is new as well, changes. -/
theorem keep (h : Layered host start name object layers m)
    (spares : m.Spares object (· = scope) m') (new : start.scopes.node? scope = none)
    (other : ∀ l ∈ layers, l.scope ≠ scope)
    (same : m'.heap.objects[object.index]? = m.heap.objects[object.index]?) :
    Layered host start name object layers m' where
  spares := by
    have wider : start.Spares object (· = scope) m' :=
      (h.spares.weaken fun _ => False.elim).trans spares
    exact wider.weaken fun id is => .inr (is ▸ new)
  fields := same.trans h.fields
  fresh := h.fresh
  distinct := h.distinct
  stands l above suffix :=
    spares.stands (other l (suffix.subset List.mem_cons_self)) (h.stands l above suffix)

/-- Binding the members of a class puts one more layer on. -/
theorem put {record : ClassRecord} {table : Dict Value}
    {inherited : Option (ObjectId × FunctionId)} (h : Layered host start name object above m)
    (reads : ∀ f ∈ record.decl.fields, f.value.onlyReads)
    (fresh : start.scopes.nodes.size ≤ scope.index) (other : ∀ l ∈ above, l.scope ≠ scope)
    (here : m.scopes.node? scope = some (classScope object record.home inherited))
    (inherits : m.Inherits object inherited above) (methods : MethodTable table above)
    (ran : bindMembers host n object scope record.decl table m = .ok bound m') :
    ∃ l : Layer, l.record = record ∧ Layered host start name object (l :: above) m' ∧
      bound.Answers (l :: above) := by
  obtain ⟨l, rfl, rfl, rfl, defaults, closures, constructor, spares, fields, rfl⟩ :=
    bindMembers_layer reads here h.fields ran inherited
  have stands : l.Stands host start object m' above :=
    { node := spares.nodes _ _ not_false here
      defaults := defaults.since h.spares
      methods := closures
      constructor
      inherits := spares.inherits inherits }
  refine ⟨l, rfl, ?_, ?_⟩
  · exact
      { spares := h.spares.trans spares
        fields := by rw [fields, fieldsOf_cons]
        fresh := List.forall_mem_cons.2 ⟨fresh, h.fresh⟩
        distinct := by
          refine List.nodup_cons.2 ⟨fun mem => ?_, h.distinct⟩
          obtain ⟨l', mem', same⟩ := List.mem_map.1 mem
          exact other l' mem' same
        stands := fun l' above' suffix => by
          rcases List.suffix_cons_iff.1 suffix with same | suffix
          · cases same
            exact stands
          · exact spares.stands not_false (h.stands l' above' suffix) }
  · exact
      { methods :=
          { get := fun name => by
              rw [Dict.get?_insertMany, methods.get, List.findSome?_cons, Layer.method?]
              cases Dict.find name l.entries.reverse <;> rfl
            distinct := Dict.nodup_keys_insertMany methods.distinct _ }
        constructor := rfl }

end Layered

/-- Below layers, a class gets their methods as `base` and the constructor of the nearest as
`super`, and puts its own layer on them. -/
theorem Layered.putBelow {record : ClassRecord} {l : Layer} {inherited : BoundClass} {m₃ : Machine}
    (h : Layered host start name object (l :: above) m) (answers : inherited.Answers (l :: above))
    (reads : ∀ f ∈ record.decl.fields, f.value.onlyReads)
    (fresh : start.scopes.nodes.size ≤ scope.index) (new : start.scopes.node? scope = none)
    (other : ∀ l' ∈ l :: above, l'.scope ≠ scope)
    (here : m.scopes.node? scope = some (classScope object record.home none))
    (named : bindInherited scope l.record.name inherited m = .ok () m₃)
    (ran : bindMembers host n object scope record.decl inherited.methods m₃ = .ok bound m') :
    ∃ l' : Layer, l'.record = record ∧ Layered host start name object (l' :: l :: above) m' ∧
      bound.Answers (l' :: l :: above) := by
  obtain ⟨base, super, apart, here, table, constructor, spares, kept⟩ :=
    bindInherited_names here h.fields named
  have inherits : m₃.Inherits object (some (base, super)) (l :: above) := by
    refine .below apart table answers.methods ?_ ?_
    · exact fun entries perm => Dict.get?_copy answers.methods.distinct perm
    · rwa [answers.constructor] at constructor
  have h₃ := h.keep spares new other (kept.trans h.fields.symm)
  exact h₃.put reads fresh other here inherits answers.methods ran

theorem Heap.Lineage.eq_cons {h : Heap} {id : ClassId} {path : List ClassId}
    (lineage : h.Lineage id path) : ∃ outward, path = id :: outward := by
  cases lineage <;> exact ⟨_, rfl⟩

/-- Binding a class puts the layers of its lineage on an object that has none. The induction follows
the lineage up; each class meets the object as fresh as its subclass did. -/
theorem bindClass_layered {h : Heap} {id : ClassId} {path : List ClassId}
    (lineage : h.Lineage id path)
    (reads : ∀ c ∈ path, ∀ f ∈ (h.classRecord c).decl.fields, f.value.onlyReads)
    (same : m.heap.classes = h.classes)
    (there : m.heap.objects[object.index]? = some ⟨name, .empty⟩)
    (ran : bindClass host n id object m = .ok bound m') :
    ∃ layers, layers.map (·.record) = path.map h.classRecord ∧
      Layered host m name object layers m' ∧ bound.Answers layers := by
  induction lineage generalizing n m m' bound with
  | @top id up =>
    have record : m.heap.classRecord id = h.classRecord id := by
      rw [Heap.classRecord, same, Heap.classRecord]
    rw [← record] at up
    cases n with
    | zero => cases ran
    | succ n =>
      rw [bindClass_of_top up] at ran
      obtain ⟨l, is, built, answers⟩ := (Layered.nil (spares_withScopeOf m id) there).put
        (by simpa [record] using reads) (Nat.le_refl _) (List.forall_mem_nil _)
        (node?_withScopeOf m id object) .top .nil ran
      exact ⟨[l], by simp [is, record], built, answers⟩
  | @under id parent outward up lineage ih =>
    have record (c : ClassId) : m.heap.classRecord c = h.classRecord c := by
      rw [Heap.classRecord, same, Heap.classRecord]
    rw [← record] at up
    cases n with
    | zero => cases ran
    | succ n =>
      rw [bindClass_of_superclass up] at ran
      obtain ⟨inherited, m₂, bound₂, ran⟩ := bind_eq_ok ran
      obtain ⟨_, _, got, ran⟩ := bind_eq_ok ran
      cases got
      obtain ⟨_, m₃, named, ran⟩ := bind_eq_ok ran
      obtain ⟨above, records, built, answers⟩ :=
        ih (fun c mem => reads c (List.mem_cons_of_mem id mem)) (m := m.withScopeOf id object) same
          there bound₂
      obtain ⟨up, rfl⟩ := lineage.eq_cons
      obtain ⟨l, above, rfl, is, -⟩ := List.map_eq_cons_iff.1 records
      have size : (m.withScopeOf id object).scopes.nodes.size = m.scopes.nodes.size + 1 := by
        simp [Machine.withScopeOf]
      have other (l' : Layer) (mem : l' ∈ l :: above) : l'.scope ≠ ⟨m.scopes.nodes.size⟩ := by
        have fresh := built.fresh l' mem
        rintro same
        rw [same, size] at fresh
        exact Nat.not_succ_le_self _ fresh
      have parentName : (m₂.heap.classRecord parent).name = l.record.name := by
        rw [is, Heap.classRecord, built.spares.classes, Heap.classRecord, ← same]
        rfl
      rw [parentName] at named
      have grown := built.since (spares_withScopeOf m id) (size ▸ Nat.le_succ _)
      obtain ⟨l', is', built', answers'⟩ := grown.putBelow answers
        (by rw [record id]; exact reads id List.mem_cons_self) (Nat.le_refl _)
        (node?_newest m.scopes) other
        (built.spares.nodes _ _ not_false (node?_withScopeOf m id object)) named ran
      refine ⟨l' :: l :: above, ?_, built', answers'⟩
      rw [List.map_cons, is', record, records]
      rfl

end Lineage

/-! ## The main statement -/

/-- **An instance is built in layers.** Let a class be bound to an object without fields, and let
the field defaults on the way up from the class contain no call, no assignment and no `++` or `--`.
Then each class of the lineage has put its layer on the object, and nothing else has changed:

* the fields of the object are what the layers write, from the top down, each its defaults and then
  its methods, and a later write wins;
* the methods and the constructor of a class are functions in one scope, which is new and belongs to
  this class and object, lies in the scope that the class was declared in, and binds `this`;
* below a superclass that scope binds `base` to an object named after the superclass, with the
  methods of the layers above, where the nearest layer and in it the last declaration counts, and
  `super` to the constructor of the superclass or to a function that does nothing.

The fields of `base` may be written in any order. The host is pure (`Host`), and is not asked. -/
theorem instance_built_in_layers {host : Host} {n : Nat} {m m' : Machine} {id : ClassId}
    {path : List ClassId} {object : ObjectId} {name : String} {bound : BoundClass}
    (lineage : m.heap.Lineage id path)
    (reads : ∀ c ∈ path, ∀ f ∈ (m.heap.classRecord c).decl.fields, f.value.onlyReads)
    (fresh : m.heap.objects[object.index]? = some ⟨name, .empty⟩)
    (ran : bindClass host n id object m = .ok bound m') :
    ∃ layers, layers.map (·.record) = path.map m.heap.classRecord ∧
      Layered host m name object layers m' ∧ bound.Answers layers :=
  bindClass_layered lineage reads rfl fresh ran

/-- A chain of three classes: the second has neither methods nor a constructor, its field takes the
place of an inherited method, and the third has a method in the place of an inherited field. -/
def chainText : String :=
  "class A \x7b tag = \"a\"; A() \x7b\x7d show() \x7b\x7d show() \x7b\x7d same() \x7b\x7d \x7d" ++
    " class B : A \x7b show = [this.tag]; \x7d class C : B \x7b tag() \x7b\x7d same() \x7b\x7d \x7d"

/-- A machine with these classes, and a new object. -/
def chainObject : ObjectId × Machine :=
  let m := ((Session.fresh .file {} (.still 0) [] Host.none).run chainText).2.machine
  let (object, heap) := m.heap.addObject ⟨"C", .empty⟩
  (object, { m with heap })

/-- The fields of an object when a class was bound to it. -/
def fieldsOn (object : ObjectId) :
    EStateM.Result Stop Machine BoundClass → Option (List (String × Value))
  | .ok _ m => some (m.heap.object object).fields.entries
  | .error .. => none

theorem chain_built_in_layers :
    let object := chainObject.1
    let m := chainObject.2
    m.heap.Lineage ⟨2⟩ [⟨2⟩, ⟨1⟩, ⟨0⟩] ∧
    (∀ c ∈ [⟨2⟩, ⟨1⟩, ⟨0⟩], ∀ f ∈ (m.heap.classRecord c).decl.fields, f.value.onlyReads) ∧
    m.heap.objects[object.index]? = some ⟨"C", .empty⟩ ∧
    ∃ bound m', bindClass Host.none 20 ⟨2⟩ object m = .ok bound m' ∧
      ∃ layers, layers.length = 3 ∧ Layered Host.none m "C" object layers m' ∧
        (fieldsOf layers).entries =
          [("tag", .function ⟨5⟩), ("show", .array ⟨0⟩), ("same", .function ⟨6⟩)] := by
  intro object m
  have fresh : m.heap.objects[object.index]? = some ⟨"C", .empty⟩ := Array.getElem?_push_size
  have computed : ((m.heap.classRecord ⟨2⟩).superclass = some ⟨1⟩ ∧
        (m.heap.classRecord ⟨1⟩).superclass = some ⟨0⟩ ∧
        (m.heap.classRecord ⟨0⟩).superclass = none) ∧
      (∀ c ∈ [⟨2⟩, ⟨1⟩, ⟨0⟩], ∀ f ∈ (m.heap.classRecord c).decl.fields, f.value.onlyReads) ∧
      fieldsOn object (bindClass Host.none 20 ⟨2⟩ object m) =
        some [("tag", .function ⟨5⟩), ("show", .array ⟨0⟩), ("same", .function ⟨6⟩)] := by
    decide +kernel
  obtain ⟨⟨third, second, first⟩, reads, fields⟩ := computed
  have lineage : m.heap.Lineage ⟨2⟩ [⟨2⟩, ⟨1⟩, ⟨0⟩] := .under third (.under second (.top first))
  cases ran : bindClass Host.none 20 ⟨2⟩ object m with
  | error why m' =>
    rw [ran] at fields
    cases fields
  | ok bound m' =>
    obtain ⟨layers, records, built, -⟩ := instance_built_in_layers lineage reads fresh ran
    rw [ran] at fields
    refine ⟨lineage, reads, fresh, bound, m', rfl, layers, ?_, built, ?_⟩
    · simpa using congrArg List.length records
    · have held : (m'.heap.object object).fields = fieldsOf layers := by
        rw [Heap.object, built.fields]
        rfl
      rw [← held]
      exact Option.some.inj fields

end Scriptlet
