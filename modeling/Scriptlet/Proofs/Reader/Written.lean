import Scriptlet.Proofs.Reader.Names
import Scriptlet.Proofs.Reader.Sentence
import Scriptlet.Proofs.Token.Coverage

/-!
# Programs as written

Reading loses names in one place only: of several methods with the name of their class, the last one
becomes the constructor, and the others are dropped. A program as written still has them, among the
methods of their class; `Stmt.kept` drops them. Every sentence of the grammar is what is kept of a
program as written, whose names are those of the identifiers among the tokens, no more and no less
(`Program.written_of_clean`).
-/

namespace Scriptlet

/-! ## What is kept -/

mutual

/-- What reading keeps of a statement as written. -/
def Stmt.kept : Stmt → Stmt
  | .declare name value constant => .declare name value constant
  | .function decl => .function (keptFunction decl)
  | .classDecl decl => .classDecl (keptClass decl)
  | .ret span value => .ret span value
  | .expr e => .expr e
  | .block body => .block (Stmt.keptAll body)
  | .branch condition yes no => .branch condition yes.kept (Stmt.keptOption no)
  | .loop condition body => .loop condition body.kept

def Stmt.keptAll : List Stmt → List Stmt
  | [] => []
  | s :: rest => s.kept :: Stmt.keptAll rest

def Stmt.keptOption : Option Stmt → Option Stmt
  | none => none
  | some s => some s.kept

def keptFunction : FunctionDecl Stmt → FunctionDecl Stmt
  | ⟨name, params, body, isMethod⟩ => ⟨name, params, Stmt.keptAll body, isMethod⟩

def keptMethods : List (FunctionDecl Stmt) → List (FunctionDecl Stmt)
  | [] => []
  | decl :: rest => keptFunction decl :: keptMethods rest

def keptConstructor : Option (FunctionDecl Stmt) → Option (FunctionDecl Stmt)
  | none => none
  | some decl => some (keptFunction decl)

/-- Of the methods with the name of the class, only the last is kept, and as its constructor. -/
def keptClass : ClassDecl Stmt → ClassDecl Stmt
  | ⟨name, superclass, fields, methods, constructor⟩ =>
    let methods := keptMethods methods
    { name
      superclass
      fields
      methods := methods.filter (·.name.text != name.text)
      constructor := (keptConstructor constructor).or
        (methods.filter (·.name.text == name.text)).getLast? }

end

theorem keptMethods_eq_map (decls : List (FunctionDecl Stmt)) :
    keptMethods decls = decls.map keptFunction := by
  induction decls with
  | nil => rfl
  | cons decl rest ih => rw [keptMethods, ih, List.map_cons]

/-- What reading keeps of a member of a class. -/
def Member.kept : Member → Member
  | field decl => field decl
  | method decl => method (keptFunction decl)

/-- A class as written, with all its methods. -/
def ClassDecl.written (name : Name) (superclass : Option Name) (members : List Member) :
    ClassDecl Stmt where
  name := name
  superclass := superclass
  fields := members.filterMap Member.field?
  methods := members.filterMap Member.method?
  constructor := none

theorem keptClass_written (name : Name) (superclass : Option Name) (members : List Member) :
    keptClass (.written name superclass members) =
      .ofMembers name superclass (members.map Member.kept) := by
  have fields : (members.map Member.kept).filterMap Member.field? =
      members.filterMap Member.field? := by
    rw [List.filterMap_map]
    refine congrArg (members.filterMap ·) (funext fun member => ?_)
    cases member <;> rfl
  have methods : (members.map Member.kept).filterMap Member.method? =
      (members.filterMap Member.method?).map keptFunction := by
    rw [List.filterMap_map, List.map_filterMap]
    refine congrArg (members.filterMap ·) (funext fun member => ?_)
    cases member <;> rfl
  simp only [ClassDecl.written, keptClass, keptMethods_eq_map, keptConstructor, Option.none_or,
    ClassDecl.ofMembers, fields, methods]

/-- The names in a class as written are its own, that of its superclass and those of its members. -/
theorem mem_classNames_written {name : Name} {superclass : Option Name} {members : List Member}
    {inner : Name} : inner ∈ classNames (.written name superclass members) ↔
      inner = name ∨ inner ∈ superclass ∨ inner ∈ members.flatMap Member.names := by
  have sorted : inner ∈ members.flatMap Member.names ↔
      inner ∈ (members.filterMap Member.field?).flatMap FieldDecl.names ∨
        inner ∈ methodsNames (members.filterMap Member.method?) := by
    induction members with
    | nil => simp [methodsNames]
    | cons member rest ih =>
      cases member with
      | field decl =>
        simp only [List.flatMap_cons, List.mem_append, Member.names, List.filterMap_cons,
          Member.field?, Member.method?, ih, or_assoc]
      | method decl =>
        simp only [List.flatMap_cons, List.mem_append, Member.names, List.filterMap_cons,
          Member.field?, Member.method?, methodsNames, ih, or_left_comm]
  rw [sorted]
  simp only [ClassDecl.written, classNames, constructorNames, List.mem_append, List.mem_cons,
    List.not_mem_nil, or_false, Option.mem_toList, or_assoc]
  tauto

/-! ## Clauses -/

theorem TerminatorYields.namesOf {mode : Mode} {ts : List Token} (h : TerminatorYields mode ts) :
    NamesOf [] ts := by
  cases h with
  | written semicolon => exact .token semicolon .nil
  | omitted => exact .nil

/-- The end of a return, which may be missing. -/
theorem returnEnd_namesOf {mode : Mode} {last : Bool} {ts : List Token}
    (h : last = true ∧ ts = [] ∨ TerminatorYields mode ts) : NamesOf [] ts := by
  rcases h with ⟨-, rfl⟩ | ended
  · exact .nil
  · exact ended.namesOf

theorem NamesYield.namesOf {names : List Name} {ts : List Token} (h : NamesYield names ts) :
    NamesOf names ts := by
  induction h with
  | last named => exact .name named .nil
  | more named comma _ ih => exact .name named (.token comma ih)

theorem ParametersYield.namesOf {params : List Name} {ts : List Token}
    (h : ParametersYield params ts) : NamesOf params ts := by
  cases h with
  | none opened closed => exact .token opened (.token closed .nil)
  | some opened names closed => exact .token opened (names.namesOf.closed closed)

/-- A clause is what is kept of something as written that has the names of the tokens. The name of a
function stands before its clause. -/
def Clause.Written : Clause → List Token → Prop
  | stmt st, ts | plain st, ts => ∃ w : Stmt, w.kept = st ∧ NamesOf w.names ts
  | block body, ts | program body, ts =>
    ∃ w, Stmt.keptAll w = body ∧ NamesOf (Stmt.namesAll w) ts
  | function name isMethod decl, ts =>
    ∃ params body, keptFunction ⟨name, params, body, isMethod⟩ = decl ∧
      NamesOf (params ++ Stmt.namesAll body) ts
  | classDecl decl, ts => ∃ w, keptClass w = decl ∧ NamesOf (classNames w) ts
  | members ms, ts =>
    ∃ w : List Member, w.map Member.kept = ms ∧ NamesOf (w.flatMap Member.names) ts

/-- Every clause of the grammar can be traced back to something as written. -/
theorem Clause.Yields.written {mode : Mode} {last : Bool} {clause : Clause} {ts : List Token}
    (h : clause.Yields mode last ts) : clause.Written ts := by
  induction h with
  | @variableOnly _ _ u _ keyword named ended =>
    exact ⟨.declare u.name none false, rfl, .token keyword (.name named ended.namesOf)⟩
  | @variableSet _ constant _ u _ value _ _ keyword named equal yields ended =>
    have no : (if constant then TokenKind.kwConst else .kwVar) ≠ .identifier := by
      cases constant <;> decide
    refine ⟨.declare u.name (some value) constant, rfl, .token keyword ?_ no⟩
    exact .name named (.token equal (yields.namesOf.before ended.namesOf))
  | @function _ _ u _ _ keyword named _ ih =>
    obtain ⟨params, body, rfl, names⟩ := ih
    exact ⟨.function ⟨u.name, params, body, false⟩, rfl, .token keyword (.name named names)⟩
  | classDecl keyword _ ih =>
    obtain ⟨w, rfl, names⟩ := ih
    exact ⟨.classDecl w, rfl, .token keyword names⟩
  | plain _ ih => exact ih
  | block brace _ ih =>
    obtain ⟨w, rfl, names⟩ := ih
    exact ⟨.block w, rfl, .token brace names⟩
  | @branch _ _ _ condition _ _ _ _ keyword opened asked closed _ ih =>
    obtain ⟨yes, rfl, names⟩ := ih
    refine ⟨.branch condition yes none, rfl, .token keyword (.token opened ?_)⟩
    exact (asked.namesOf.append (.token closed names)).same fun name => by
      simp [Stmt.names, Stmt.optionNames, Phrase.names]
  | @branchElse _ _ _ condition _ _ _ _ _ _ _ keyword opened asked closed _ isElse _ ihYes ihNo =>
    obtain ⟨yes, rfl, names⟩ := ihYes
    obtain ⟨no, rfl, more⟩ := ihNo
    refine ⟨.branch condition yes (some no), rfl, .token keyword (.token opened ?_)⟩
    exact (asked.namesOf.append (.token closed (names.append (.token isElse more)))).same
      fun name => by simp [Stmt.names, Stmt.optionNames, Phrase.names]
  | @loop _ _ _ condition _ _ _ _ keyword opened asked closed _ ih =>
    obtain ⟨body, rfl, names⟩ := ih
    refine ⟨.loop condition body, rfl, .token keyword (.token opened ?_)⟩
    exact asked.namesOf.append (.token closed names)
  | @ret _ t _ keyword ended =>
    exact ⟨.ret t.span none, rfl, .token keyword (returnEnd_namesOf ended)⟩
  | @retValue _ t e _ _ keyword yields ended =>
    refine ⟨.ret (t.span.merge e.span) (some e), rfl, .token keyword ?_⟩
    exact yields.namesOf.before (returnEnd_namesOf ended)
  | @expr _ e _ _ yields ended => exact ⟨.expr e, rfl, yields.namesOf.before ended.namesOf⟩
  | blockEnd closed => exact ⟨[], rfl, .token closed .nil⟩
  | blockStmt _ _ ih ihRest | programStmt _ _ ih ihRest =>
    obtain ⟨w, rfl, names⟩ := ih
    obtain ⟨ws, rfl, more⟩ := ihRest
    exact ⟨w :: ws, rfl, names.append more⟩
  | functionBody params opened _ ih =>
    obtain ⟨w, rfl, names⟩ := ih
    exact ⟨_, w, rfl, params.namesOf.append (.token opened names)⟩
  | @baseClass _ t _ _ _ named opened _ ih =>
    obtain ⟨w, rfl, names⟩ := ih
    refine ⟨.written t.name none w, keptClass_written .., ?_⟩
    exact (NamesOf.name named (.token opened names)).same fun name => by
      simp [mem_classNames_written]
  | @subclass _ t _ v _ _ _ named colon parent opened _ ih =>
    obtain ⟨w, rfl, names⟩ := ih
    refine ⟨.written t.name (some v.name) w, keptClass_written .., ?_⟩
    exact (NamesOf.name named (.token colon (.name parent (.token opened names)))).same
      fun name => by simp [mem_classNames_written, eq_comm]
  | membersEnd closed => exact ⟨[], rfl, .token closed .nil⟩
  | @field _ t _ value _ _ _ _ named equal yields ended _ ih =>
    obtain ⟨w, rfl, names⟩ := ih
    refine ⟨.field ⟨t.name, value⟩ :: w, rfl, .name named (.token equal ?_)⟩
    exact yields.namesOf.append (ended.namesOf.append names)
  | @method _ t _ _ _ _ named _ _ ih ihRest =>
    obtain ⟨params, body, rfl, names⟩ := ih
    obtain ⟨w, rfl, more⟩ := ihRest
    refine ⟨.method ⟨t.name, params, body, true⟩ :: w, rfl, ?_⟩
    exact (NamesOf.name named (names.append more)).same fun name => by
      simp [Member.names, functionNames]
  | programEnd => exact ⟨[], rfl, .nil⟩

/-! ## Programs -/

/-- Comments are no identifiers, and nothing follows the end of the input. -/
theorem Name.from_programTokens {text : String} {name : Name} :
    name.From (programTokens (Scanned.tokens (scan text))) ↔
      name.From (Scanned.tokens (scan text)) := by
  obtain ⟨body, line, same, inside⟩ := ends_scanFrom text.toList 0 1
  change Scanned.tokens (scan text) = _ at same
  constructor
  · rintro ⟨t, mem, named⟩
    exact ⟨t, List.mem_of_mem_filter ((List.takeWhile_subset _) mem), named⟩
  · rintro ⟨t, mem, kind, rfl⟩
    refine ⟨t, ?_, kind, rfl⟩
    rw [same, List.mem_append, List.mem_singleton] at mem
    have mem : t ∈ body := mem.resolve_right fun ending => by cases ending ▸ kind
    have before : ∀ u ∈ body.filter (!·.kind.isTrivia), (u.kind != .eof) = true :=
      fun u mem => by simpa using inside u (List.mem_of_mem_filter mem)
    rw [programTokens, same, List.filter_append, List.takeWhile_append_of_pos before]
    refine List.mem_append_left _ (List.mem_filter.2 ⟨mem, ?_⟩)
    rw [kind]
    rfl

/-- A program that is read without problems is what is kept of a program as written, whose names are
those of the identifiers of the text. -/
theorem Program.written_of_clean {mode : Mode} {text : String}
    (clean : (Program.ofTokens mode (Scanned.tokens (scan text))).errors = []) :
    ∃ written, Stmt.keptAll written =
        (Program.ofTokens mode (Scanned.tokens (scan text))).statements ∧
      ∀ name, name ∈ Stmt.namesAll written ↔ name.From (Scanned.tokens (scan text)) := by
  obtain ⟨written, kept, names⟩ := (Program.yields_of_clean clean).written
  exact ⟨written, kept, fun name => (names name).trans Name.from_programTokens⟩

end Scriptlet
