import Scriptlet.Proofs.Reader.Places
import Scriptlet.Proofs.Reader.Walk

/-!
# Pieces of programs that were read

The statements of a program with problems are not derived as a whole, because recovery leaves
something out of them. Their pieces are: every name is that of an identifier, every expression is
written with a stretch of the tokens, and a `return` with its keyword right before its value
(`Stmt.DrawnFrom`). `PageReading.Finds` goes through the productions once more and speaks only of
what they give, and `drawnFrom_ofTokens` is the result for programs.
-/

namespace Scriptlet

/-! ## Pieces -/

/-- A name that an identifier among the tokens writes. -/
def Name.From (tokens : List Token) (name : Name) : Prop :=
  ∃ t ∈ tokens, t.kind = .identifier ∧ t.name = name

/-- Names that identifiers among the tokens write. -/
def NamesFrom (tokens : List Token) (names : List Name) : Prop :=
  ∀ name ∈ names, name.From tokens

/-- An expression that is written with a stretch of the tokens. -/
def Expr.DrawnFrom (tokens : List Token) (e : Expr) : Prop :=
  ∃ ts, ts <:+: tokens ∧ (Phrase.expr 0 e).Yields ts

/-- A field whose name and value come from the tokens. -/
def FieldDecl.DrawnFrom (tokens : List Token) (decl : FieldDecl) : Prop :=
  decl.name.From tokens ∧ decl.value.DrawnFrom tokens

/-- A function whose name and parameters come from the tokens. -/
def FunctionDecl.NamedFrom (tokens : List Token) (decl : FunctionDecl Stmt) : Prop :=
  decl.name.From tokens ∧ NamesFrom tokens decl.params

/-- Statements whose names and expressions come from the tokens. Anything may have been left out
between the statements of a block. -/
inductive Stmt.DrawnFrom (tokens : List Token) : Stmt → Prop
  | declare {name value constant} : name.From tokens → (∀ e ∈ value, Expr.DrawnFrom tokens e) →
      DrawnFrom tokens (.declare name value constant)
  | function {decl} : decl.NamedFrom tokens → (∀ st ∈ decl.body, DrawnFrom tokens st) →
      DrawnFrom tokens (.function decl)
  | classDecl {decl} : decl.name.From tokens → NamesFrom tokens decl.superclass.toList →
      (∀ field ∈ decl.fields, field.DrawnFrom tokens) →
      (∀ f ∈ decl.functions, f.NamedFrom tokens) →
      (∀ f ∈ decl.functions, ∀ st ∈ f.body, DrawnFrom tokens st) →
      DrawnFrom tokens (.classDecl decl)
  | ret {t : Token} : t.kind = .kwReturn → t ∈ tokens → DrawnFrom tokens (.ret t.span none)
  | retValue {t : Token} {e ts} : t.kind = .kwReturn → (Phrase.expr 0 e).Yields ts →
      t :: ts <:+: tokens → DrawnFrom tokens (.ret (t.span.merge e.span) (some e))
  | expr {e} : e.DrawnFrom tokens → DrawnFrom tokens (.expr e)
  | block {body} : (∀ st ∈ body, DrawnFrom tokens st) → DrawnFrom tokens (.block body)
  | branch {condition yes no} : condition.DrawnFrom tokens → DrawnFrom tokens yes →
      (∀ st ∈ no, DrawnFrom tokens st) → DrawnFrom tokens (.branch condition yes no)
  | loop {condition body} : condition.DrawnFrom tokens → DrawnFrom tokens body →
      DrawnFrom tokens (.loop condition body)

namespace Stmt.DrawnFrom

variable {tokens : List Token} {st inner : Stmt}

theorem child (h : st.DrawnFrom tokens) (mem : inner ∈ st.children) : inner.DrawnFrom tokens := by
  cases h with
  | declare | ret | retValue | expr => cases mem
  | function _ body => exact body inner mem
  | classDecl _ _ _ _ bodies =>
    obtain ⟨f, declared, mem⟩ := List.mem_flatMap.1 mem
    exact bodies f declared inner mem
  | block body => exact body inner mem
  | branch _ yes no =>
    rcases List.mem_cons.1 mem with rfl | mem
    · exact yes
    · exact no inner (Option.mem_toList.1 mem)
  | loop _ body => exact List.mem_singleton.1 mem ▸ body

/-- Everything inside comes from the tokens too. -/
theorem part (h : st.DrawnFrom tokens) (part : st.Part inner) : inner.DrawnFrom tokens := by
  induction part with
  | self => exact h
  | inside _ mem ih => exact ih.child mem

/-- The expressions of a statement are written with stretches of the tokens. -/
theorem expr_of_mem {e : Expr} (h : st.DrawnFrom tokens) (mem : e ∈ st.exprs) :
    e.DrawnFrom tokens := by
  cases h with
  | declare _ value => exact value e (Option.mem_toList.1 mem)
  | function | block | ret => cases mem
  | classDecl _ _ fields =>
    obtain ⟨field, declared, rfl⟩ := List.mem_map.1 mem
    exact (fields field declared).2
  | @retValue t _ ts _ value stretch =>
    obtain rfl := List.mem_singleton.1 mem
    exact ⟨ts, (List.suffix_cons t ts).isInfix.trans stretch, value⟩
  | expr own | branch own | loop own => exact List.mem_singleton.1 mem ▸ own

end Stmt.DrawnFrom

/-- A function whose names and statements come from the tokens. -/
def FunctionDecl.DrawnFrom (tokens : List Token) (decl : FunctionDecl Stmt) : Prop :=
  decl.NamedFrom tokens ∧ ∀ st ∈ decl.body, st.DrawnFrom tokens

/-- A member whose names, expressions and statements come from the tokens. -/
def Member.DrawnFrom (tokens : List Token) : Member → Prop
  | field decl => decl.DrawnFrom tokens
  | method decl => decl.DrawnFrom tokens

section
variable {tokens : List Token}

theorem namesFrom_nil : NamesFrom tokens [] := List.forall_mem_nil _

theorem Name.From.cons {name : Name} {more : List Name} (h : name.From tokens)
    (rest : NamesFrom tokens more) : NamesFrom tokens (name :: more) :=
  List.forall_mem_cons.2 ⟨h, rest⟩

theorem ClassDecl.mem_members_of_mem_functions {name : Name} {superclass : Option Name}
    {members : List Member} {decl : FunctionDecl Stmt}
    (mem : decl ∈ (ClassDecl.ofMembers name superclass members).functions) :
    Member.method decl ∈ members := by
  rcases List.mem_append.1 mem with mem | mem
  · exact mem_members_of_mem_constructor (Option.mem_toList.1 mem)
  · exact mem_members_of_mem_methods mem

theorem ClassDecl.mem_members_of_mem_fields {name : Name} {superclass : Option Name}
    {members : List Member} {decl : FieldDecl}
    (mem : decl ∈ (ClassDecl.ofMembers name superclass members).fields) :
    Member.field decl ∈ members := by
  obtain ⟨member, inside, same⟩ := List.mem_filterMap.1 mem
  cases member with
  | field other =>
    cases same
    exact inside
  | method => cases same

/-- A class comes from the tokens if its members do. -/
theorem drawnFrom_ofMembers {name : Name} {superclass : Option Name} {members : List Member}
    (named : name.From tokens) (parent : NamesFrom tokens superclass.toList)
    (h : ∀ member ∈ members, member.DrawnFrom tokens) :
    Stmt.DrawnFrom tokens (.classDecl (.ofMembers name superclass members)) :=
  .classDecl named parent (fun _ mem => h _ (ClassDecl.mem_members_of_mem_fields mem))
    (fun _ mem => (h _ (ClassDecl.mem_members_of_mem_functions mem)).1)
    (fun _ mem => (h _ (ClassDecl.mem_members_of_mem_functions mem)).2)

end

/-! ## Streams over tokens -/

/-- A stream that holds these tokens. -/
def Stream.Over (tokens : List Token) (s : Stream) : Prop := s.tokens = tokens

section
variable {tokens ts : List Token} {s s' : Stream}

namespace Stream.Over

theorem advance (h : s.Over tokens) : s.advance.Over tokens := s.tokens_advance.trans h

theorem name (h : s.Over tokens) (kind : s.kind = .identifier) : s.here.name.From tokens :=
  ⟨s.here, h ▸ List.mem_append_right _ List.mem_cons_self, kind, rfl⟩

/-- If the tokens close with an end token, there is one at the position or after it. -/
theorem ends (h : s.Over tokens) (closed : ∃ t ∈ tokens.getLast?, t.kind = .eof) : s.Ends := by
  obtain ⟨t, last, eof⟩ := closed
  have split : tokens = s.passed.reverse ++ (s.here :: s.ahead) := h.symm
  rw [split, List.getLast?_append_of_ne_nil _ (List.cons_ne_nil _ _)] at last
  exact ⟨t, List.mem_of_getLast? last, eof⟩

end Stream.Over

/-- What is passed is a stretch of the tokens. -/
theorem Stream.Passes.stretch (h : s.Passes ts s') (held : s.Over tokens) (ends : s.Ends) :
    ts <:+: tokens := by
  have split : tokens = s.passed.reverse ++ (s.here :: s.ahead) := held.symm
  rw [split, h.ahead ends]
  exact (List.infix_append' [] ts _).trans (List.suffix_append _ _).isInfix

end

/-! ## What readings find -/

namespace Reading

variable {α β : Type} {tokens : List Token}

/-- Over the given tokens the reading stays over them, and what it gives has a property. -/
def Finds (tokens : List Token) (r : Reading α) (Q : α → Prop) : Prop :=
  ∀ s, s.Over tokens → ∀ a s', r s = .ok a s' → s'.Over tokens ∧ Q a

variable {r : Reading α} {k : α → Reading β} {P : α → Prop} {Q : β → Prop}

theorem Finds.bind (hr : r.Finds tokens P) (hk : ∀ a, P a → (k a).Finds tokens Q) :
    (r >>= k).Finds tokens Q := by
  intro s held b s' read
  obtain ⟨a, s₁, first, second⟩ := bind_eq_ok read
  obtain ⟨after, found⟩ := hr s held a s₁ first
  exact hk a found s₁ after b s' second

/-- A step of which only the way through the tokens matters. -/
theorem Walks.then (walks : r.Walks) (hk : ∀ a, (k a).Finds tokens Q) :
    (r >>= k).Finds tokens Q := by
  intro s held b s' read
  obtain ⟨a, s₁, first, second⟩ := bind_eq_ok read
  exact hk a s₁ ((walks.ok s a s₁ first).tokens.trans held) b s' second

theorem finds_pure {a : α} (found : P a) : (pure a : Reading α).Finds tokens P := by
  intro s held b s' read
  cases read
  exact ⟨held, found⟩

theorem finds_fail {expected : Expectation} : (fail expected : Reading α).Finds tokens P := by
  intro s _ a s' read
  cases read

theorem finds_name (expected : Expectation) :
    (expect .identifier expected).Finds tokens fun t => t.name.From tokens := by
  intro s held t s' read
  unfold expect at read
  split at read
  · next kind =>
    cases read
    exact ⟨held.advance, held.name kind⟩
  · cases read

theorem finds_parametersRest (n : Nat) :
    (readParametersRest n).Finds tokens (NamesFrom tokens) := by
  induction n with
  | zero => exact finds_fail
  | succ n ih =>
    unfold readParametersRest
    refine (finds_name _).bind fun param named => (forward.eat _).then fun comma => ?_
    split
    · exact ih.bind fun rest names => finds_pure (named.cons names)
    · exact finds_pure (named.cons namesFrom_nil)

theorem finds_parameters (n : Nat) : (readParameters n).Finds tokens (NamesFrom tokens) := by
  have closed (params : List Name) (names : NamesFrom tokens params) :
      (do
        let _ ← expect .rightParen .closedParameters
        return params).Finds tokens (NamesFrom tokens) :=
    (forward.expect _ _ (by decide)).then fun _ => finds_pure names
  unfold readParameters
  refine (forward.expect _ _ (by decide)).then fun _ => forward.kind.then fun kind => ?_
  split
  · exact closed [] namesFrom_nil
  · exact (finds_parametersRest n).bind closed

variable (closes : ∃ t ∈ tokens.getLast?, t.kind = .eof)
include closes

theorem finds_expr (n : Nat) : (Expr.read n).Finds tokens fun e => e.DrawnFrom tokens := by
  intro s held e s' read
  obtain ⟨ts, passed, yields⟩ := (Expr.derives_of_read read).yields
  exact ⟨passed.forward.tokens.trans held, ts, passed.stretch held (held.ends closes), yields⟩

theorem finds_variable (mode : Mode) (constant : Bool) (n : Nat) :
    (readVariable mode constant n).Finds tokens fun st => st.DrawnFrom tokens := by
  unfold readVariable
  refine (finds_name _).bind fun name named => (forward.eat _).then fun equal => ?_
  have ended (value : Option Expr) (drawn : ∀ e ∈ value, Expr.DrawnFrom tokens e) :
      (if (constant && value.isNone) = true then fail .constantValue
        else do
          readTerminator mode .declarationEnd
          return .declare name.name value constant : Reading Stmt).Finds tokens
        fun st => st.DrawnFrom tokens := by
    split
    · exact finds_fail
    · exact (forward.terminator mode _ (by decide)).then fun _ => finds_pure (.declare named drawn)
  split
  · have value : (some <$> Expr.read n : Reading (Option Expr)).Finds tokens
        fun value => ∀ e ∈ value, Expr.DrawnFrom tokens e := by
      rw [map_eq_pure_bind]
      refine (finds_expr closes n).bind fun e drawn => finds_pure ?_
      rintro _ ⟨rfl⟩
      exact drawn
    exact value.bind ended
  · exact ended none (by simp)

/-- What is read after a `return` comes from the tokens together with the keyword. -/
theorem drawnFrom_of_readReturn {mode : Mode} {n : Nat} {s s' : Stream} {st : Stmt}
    (held : s.Over tokens) (keyword : s.kind = .kwReturn)
    (read : readReturn mode s.here.span n s.advance = .ok st s') :
    s'.Over tokens ∧ st.DrawnFrom tokens := by
  have walks := forward.returning (forward.terminator mode) s.here.span (Nat.le_refl n)
  refine ⟨(walks.ok _ _ _ read).tokens.trans held.advance, ?_⟩
  rw [readReturn, Expr.kind_bind] at read
  by_cases bare : s.advance.kind = .semicolon ∨ s.advance.kind = .eof
  · rw [if_pos bare, pure_bind] at read
    obtain ⟨rfl, -⟩ := returnEnd_of_read read
    exact .ret keyword (held ▸ List.mem_append_right _ List.mem_cons_self)
  · rw [if_neg bare] at read
    obtain ⟨value, s₁, first, rest⟩ := bind_eq_ok read
    obtain ⟨e, rfl, derived⟩ := some_of_read first
    obtain ⟨rfl, -⟩ := returnEnd_of_read rest
    obtain ⟨ts, passed, yields⟩ := derived.yields
    have whole : s.Passes (s.here :: ts) s₁ := .token keyword passed
    exact .retValue keyword yields (whole.stretch held (held.ends closes))

end Reading

namespace PageReading

variable {α β : Type} {tokens : List Token}

/-- The same for declarations. -/
def Finds (tokens : List Token) (r : PageReading α) (Q : α → Prop) : Prop :=
  ∀ page, page.stream.Over tokens → ∀ a page', r page = .ok a page' →
    page'.stream.Over tokens ∧ Q a

/-- The same if the token under the position is of a known kind. -/
def FindsAt (kind : TokenKind) (tokens : List Token) (r : PageReading α) (Q : α → Prop) : Prop :=
  ∀ page, page.stream.Over tokens → page.stream.kind = kind → ∀ a page', r page = .ok a page' →
    page'.stream.Over tokens ∧ Q a

variable {r : PageReading α} {k : α → PageReading β} {P : α → Prop} {Q : β → Prop}

theorem Finds.at {kind : TokenKind} (h : r.Finds tokens P) : r.FindsAt kind tokens P :=
  fun page held _ => h page held

theorem Finds.bind (hr : r.Finds tokens P) (hk : ∀ a, P a → (k a).Finds tokens Q) :
    (r >>= k).Finds tokens Q := by
  intro page held b page' read
  obtain ⟨a, page₁, first, second⟩ := bind_eq_ok read
  obtain ⟨after, found⟩ := hr page held a page₁ first
  exact hk a found page₁ after b page' second

theorem finds_lift {r : Reading α} (h : r.Finds tokens P) :
    (liftM r : PageReading α).Finds tokens P := by
  intro page held a page' read
  obtain ⟨s, first, rfl⟩ := lift_eq_ok read
  exact h page.stream held a s first

theorem finds_pure {a : α} (found : P a) : (pure a : PageReading α).Finds tokens P :=
  finds_lift (Reading.finds_pure found)

theorem finds_fail {expected : Expectation} :
    (liftM (Reading.fail expected : Reading α) : PageReading α).Finds tokens P :=
  finds_lift Reading.finds_fail

theorem then_finds {r : Reading α} (walks : r.Walks) (hk : ∀ a, (k a).Finds tokens Q) :
    (liftM r >>= k).Finds tokens Q := by
  intro page held b page' read
  obtain ⟨a, page₁, first, second⟩ := bind_eq_ok read
  have way := ((walks_lift walks).ok page a page₁ first).stream
  exact hk a page₁ (way.tokens.trans held) b page' second

/-- What is done next may use the kind of the token under the position. -/
theorem kind_finds {k : TokenKind → PageReading β}
    (hk : ∀ kind, (k kind).FindsAt kind tokens Q) : (liftM Reading.kind >>= k).Finds tokens Q := by
  intro page held b page' read
  exact hk page.stream.kind page held rfl b page' read

theorem Finds.recovering (h : r.Finds tokens P) (walks : r.Walks) (boundary : Boundary) :
    (recovering boundary r).Finds tokens fun o => ∀ a ∈ o, P a := by
  intro page held o page' read
  have way := ((walks.recovering boundary).ok page o page' read).stream
  refine ⟨way.tokens.trans held, ?_⟩
  obtain ⟨a, rfl, first⟩ | ⟨e, page₁, rfl, -, -⟩ := recovering_eq_ok read
  · rintro _ ⟨rfl⟩
    exact (h page held a page' first).2
  · simp

end PageReading

/-! ## Statements -/

namespace Stmt

open PageReading

/-- What each production finds comes from the tokens. -/
structure Drawing (tokens : List Token) (mode : Mode) (n : Nat) : Prop where
  read : (Stmt.read mode n).Finds tokens fun st => st.DrawnFrom tokens
  readPlain : (Stmt.readPlain mode n).Finds tokens fun st => st.DrawnFrom tokens
  readBlock : (Stmt.readBlock mode n).Finds tokens fun body => ∀ st ∈ body, st.DrawnFrom tokens
  readFunction : ∀ name isMethod, name.From tokens →
    (Stmt.readFunction mode name isMethod n).Finds tokens fun decl => decl.DrawnFrom tokens
  readClass : (Stmt.readClass mode n).Finds tokens
    fun decl => Stmt.DrawnFrom tokens (.classDecl decl)
  readMembers : (Stmt.readMembers mode n).Finds tokens
    fun members => ∀ member ∈ members, member.DrawnFrom tokens

variable {tokens : List Token} {mode : Mode} {n : Nat}

theorem drawing_zero : Drawing tokens mode 0 where
  read := finds_fail
  readPlain := finds_fail
  readBlock := finds_fail
  readFunction _ _ _ := finds_fail
  readClass := finds_fail
  readMembers := finds_fail

namespace Drawing

/-- A declaration, if it can be read, and those after it. -/
theorem item {boundary : Boundary} {r : PageReading (List Stmt)} (ih : Drawing tokens mode n)
    (rest : r.Finds tokens fun body => ∀ st ∈ body, st.DrawnFrom tokens) :
    (do
      let first ← PageReading.recovering boundary (Stmt.read mode n)
      let rest ← r
      return first.toList ++ rest).Finds tokens fun body => ∀ st ∈ body, st.DrawnFrom tokens := by
  have one := ih.read.recovering (Stmt.walks mode n).read boundary
  refine one.bind fun first found => rest.bind fun others drawn => finds_pure ?_
  exact List.forall_mem_append.2 ⟨fun st mem => found st (Option.mem_toList.1 mem), drawn⟩

theorem readBlock_succ (ih : Drawing tokens mode n) :
    (Stmt.readBlock mode (n + 1)).Finds tokens fun body => ∀ st ∈ body, st.DrawnFrom tokens := by
  unfold Stmt.readBlock
  refine then_finds Reading.forward.kind fun kind => ?_
  cases kind
  case rightBrace =>
    exact then_finds Reading.forward.next fun _ => finds_pure (List.forall_mem_nil _)
  case eof => exact finds_fail
  all_goals exact ih.item ih.readBlock

theorem readFunction_succ (ih : Drawing tokens mode n) (name : Name) (isMethod : Bool)
    (named : name.From tokens) : (Stmt.readFunction mode name isMethod (n + 1)).Finds tokens
      fun decl => decl.DrawnFrom tokens := by
  unfold Stmt.readFunction
  refine (finds_lift (Reading.finds_parameters n)).bind fun params given => ?_
  refine then_finds (Reading.forward.expect _ _ (by decide)) fun _ => ?_
  exact ih.readBlock.bind fun body drawn => finds_pure ⟨⟨named, given⟩, drawn⟩

theorem readClass_succ (ih : Drawing tokens mode n) : (Stmt.readClass mode (n + 1)).Finds tokens
    fun decl => Stmt.DrawnFrom tokens (.classDecl decl) := by
  have body (name : Token) (superclass : Option Name) (named : name.name.From tokens)
      (parent : NamesFrom tokens superclass.toList) :
      (do
        let _ ← liftM (Reading.expect .leftBrace .openClass)
        let members ← Stmt.readMembers mode n
        return ClassDecl.ofMembers name.name superclass members : PageReading _).Finds tokens
        fun decl => Stmt.DrawnFrom tokens (.classDecl decl) := by
    refine then_finds (Reading.forward.expect _ _ (by decide)) fun _ => ?_
    exact ih.readMembers.bind fun _ drawn => finds_pure (drawnFrom_ofMembers named parent drawn)
  unfold Stmt.readClass
  refine (finds_lift (Reading.finds_name _)).bind fun name named => ?_
  refine then_finds (Reading.forward.eat _) fun isBelow => ?_
  cases isBelow with
  | true =>
    refine (finds_lift (Reading.finds_name _)).bind fun token above => ?_
    exact body name _ named (above.cons namesFrom_nil)
  | false => exact body name none named namesFrom_nil

variable (closes : ∃ t ∈ tokens.getLast?, t.kind = .eof)
include closes

theorem read_succ (ih : Drawing tokens mode n) :
    (Stmt.read mode (n + 1)).Finds tokens fun st => st.DrawnFrom tokens := by
  unfold Stmt.read
  refine then_finds Reading.forward.kind fun kind => ?_
  cases kind
  case kwVar | kwConst =>
    refine then_finds Reading.forward.next fun _ => ?_
    exact finds_lift (Reading.finds_variable closes mode _ n)
  case kwFunction =>
    refine then_finds Reading.forward.next fun _ => ?_
    refine (finds_lift (Reading.finds_name _)).bind fun name named => ?_
    exact (ih.readFunction _ _ named).bind fun decl drawn => finds_pure (.function drawn.1 drawn.2)
  case kwClass =>
    refine then_finds Reading.forward.next fun _ => ?_
    exact ih.readClass.bind fun decl drawn => finds_pure drawn
  all_goals exact ih.readPlain

theorem readPlain_succ (ih : Drawing tokens mode n) :
    (Stmt.readPlain mode (n + 1)).Finds tokens fun st => st.DrawnFrom tokens := by
  have expr := finds_lift (Reading.finds_expr closes n)
  unfold Stmt.readPlain
  refine kind_finds fun kind => ?_
  cases kind
  case leftBrace =>
    refine (then_finds Reading.forward.next fun _ => ?_).at
    exact ih.readBlock.bind fun body drawn => finds_pure (.block drawn)
  case kwIf =>
    refine (then_finds Reading.forward.next fun _ => ?_).at
    refine then_finds (Reading.forward.expect _ _ (by decide)) fun _ => ?_
    refine expr.bind fun condition asked => ?_
    refine then_finds (Reading.forward.expect _ _ (by decide)) fun _ => ?_
    refine ih.readPlain.bind fun yes taken => ?_
    refine then_finds (Reading.forward.eat _) fun more => ?_
    split
    · refine ih.readPlain.bind fun no other => finds_pure (.branch asked taken ?_)
      rintro _ ⟨rfl⟩
      exact other
    · exact finds_pure (.branch asked taken (by simp))
  case kwWhile =>
    refine (then_finds Reading.forward.next fun _ => ?_).at
    refine then_finds (Reading.forward.expect _ _ (by decide)) fun _ => ?_
    refine expr.bind fun condition asked => ?_
    refine then_finds (Reading.forward.expect _ _ (by decide)) fun _ => ?_
    exact ih.readPlain.bind fun body drawn => finds_pure (.loop asked drawn)
  case kwReturn =>
    intro page held here st page' read
    obtain ⟨keyword, page₁, first, second⟩ := bind_eq_ok read
    obtain ⟨_, ⟨⟩, rfl⟩ := lift_eq_ok first
    obtain ⟨s, ret, rfl⟩ := lift_eq_ok second
    exact Reading.drawnFrom_of_readReturn closes held here ret
  all_goals
    refine (expr.bind fun e drawn => ?_).at
    exact then_finds (Reading.forward.terminator mode _ (by decide)) fun _ =>
      finds_pure (.expr drawn)

/-- What follows the name of a member, with the members after it. -/
theorem member (ih : Drawing tokens mode n) (name : Token) (named : name.name.From tokens)
    (kind : TokenKind) :
    (do
      let member ← match kind with
        | .equal =>
          let _ ← Reading.next
          let value ← Expr.read n
          readTerminator mode .fieldEnd
          pure (.field ⟨name.name, value⟩)
        | .leftParen => Member.method <$> Stmt.readFunction mode name.name true n
        | _ => (Reading.fail .memberRest : Reading Member)
      let rest ← Stmt.readMembers mode n
      return member :: rest : PageReading (List Member)).Finds tokens
      fun members => ∀ member ∈ members, member.DrawnFrom tokens := by
  have rest (member : Member) (drawn : member.DrawnFrom tokens) :
      (do
        let rest ← Stmt.readMembers mode n
        return member :: rest : PageReading (List Member)).Finds tokens
        fun members => ∀ member ∈ members, member.DrawnFrom tokens :=
    ih.readMembers.bind fun rest others => finds_pure (List.forall_mem_cons.2 ⟨drawn, others⟩)
  cases kind
  case equal =>
    refine then_finds Reading.forward.next fun _ => ?_
    refine (finds_lift (Reading.finds_expr closes n)).bind fun value drawn => ?_
    refine then_finds (Reading.forward.terminator mode _ (by decide)) fun _ => ?_
    exact rest (.field ⟨name.name, value⟩) ⟨named, drawn⟩
  case leftParen =>
    have method : (Member.method <$> Stmt.readFunction mode name.name true n).Finds tokens
        fun member => member.DrawnFrom tokens := by
      rw [map_eq_pure_bind]
      exact (ih.readFunction _ _ named).bind fun decl drawn => finds_pure drawn
    exact method.bind rest
  all_goals exact finds_fail.bind rest

theorem readMembers_succ (ih : Drawing tokens mode n) :
    (Stmt.readMembers mode (n + 1)).Finds tokens
      fun members => ∀ member ∈ members, member.DrawnFrom tokens := by
  unfold Stmt.readMembers
  refine then_finds Reading.forward.kind fun kind => ?_
  cases kind
  case rightBrace =>
    exact then_finds Reading.forward.next fun _ => finds_pure (List.forall_mem_nil _)
  case eof => exact finds_fail
  all_goals
    refine (finds_lift (Reading.finds_name _)).bind fun name named => ?_
    exact then_finds Reading.forward.kind fun kind => ih.member closes name named kind

end Drawing

theorem drawing (closes : ∃ t ∈ tokens.getLast?, t.kind = .eof) (mode : Mode) (n : Nat) :
    Drawing tokens mode n := by
  induction n with
  | zero => exact drawing_zero
  | succ n ih =>
    exact ⟨ih.read_succ closes, ih.readPlain_succ closes, ih.readBlock_succ, ih.readFunction_succ,
      ih.readClass_succ, ih.readMembers_succ closes⟩

end Stmt

/-! ## Programs -/

section
variable {tokens : List Token}

theorem finds_readProgram (closes : ∃ t ∈ tokens.getLast?, t.kind = .eof) (mode : Mode) (n : Nat) :
    (readProgram mode n).Finds tokens fun p => ∀ st ∈ p, st.DrawnFrom tokens := by
  induction n with
  | zero => exact PageReading.finds_fail
  | succ n ih =>
    unfold readProgram
    refine PageReading.then_finds Reading.forward.kind fun kind => ?_
    split
    · exact PageReading.finds_pure (List.forall_mem_nil _)
    · exact (Stmt.drawing closes mode n).item ih

/-- **The statements of a program come from its tokens**, also if there are problems. -/
theorem drawnFrom_ofTokens {mode : Mode} {st : Stmt}
    (mem : st ∈ (Program.ofTokens mode tokens).statements) :
    st.DrawnFrom (Stream.ofTokens tokens).tokens := by
  let s := Stream.ofTokens tokens
  have closes : ∃ t ∈ s.tokens.getLast?, t.kind = .eof := by
    rw [tokens_ofTokens]
    exact getLast?_withEnd _
  have finds := finds_readProgram closes mode s.nestingBound
  change st ∈ (Program.ofStream mode s).statements at mem
  unfold Program.ofStream at mem
  cases read : readProgram mode s.nestingBound ⟨s, []⟩ with
  | ok statements page =>
    rw [read] at mem
    exact (finds ⟨s, []⟩ rfl statements page read).2 st mem
  | error e page =>
    rw [read] at mem
    cases mem

end
end Scriptlet
