import Scriptlet.Proofs.Reader.Places

/-!
# Sentences of the grammar

The grammar once more, now over lists of tokens and without any stream: `Phrase.Yields` and
`Clause.Yields` say of a tree which tokens it is written with, each token in its place and used
once. A statement needs its terminator; only a `return` at the very end of the input may lack it, so
a clause carries whether it is the last thing of the input.

What is read without problems is a sentence: its tokens are those before the end of the input,
without the comments, and its tree is the one the reader gives back
(`accepted_program_is_sentence`). The form of accepted programs, `Stmt.Proper`, is read off the
grammar.
-/

namespace Scriptlet

/-! ## Expressions -/

/-- The tokens with which a phrase is written. Levels are those of `Phrase.expr`: the left operand of
an infix operator stands at its level, the right one above it. -/
inductive Phrase.Yields : Phrase → List Token → Prop
  | literal {t value} : t.kind = .numberLiteral ∨ t.kind = .textLiteral → t.literal = some value →
      Yields (.expr 11 (.literal t.span value.constant)) [t]
  | keyword {t value} : t.kind.constant? = some value →
      Yields (.expr 11 (.literal t.span value)) [t]
  | array {t elements close ts} : t.kind = .leftBracket → Yields (.elements elements close) ts →
      Yields (.expr 11 (.array (t.span.merge close) elements)) (t :: ts)
  | group {t inner ts u} : t.kind = .leftParen → Yields (.expr 0 inner) ts →
      u.kind = .rightParen →
      Yields (.expr 11 (.group (t.span.merge u.span) inner)) (t :: (ts ++ [u]))
  | name {t} : t.kind = .identifier → Yields (.expr 12 (.ident t.name)) [t]
  | field {target ts t u} : Yields (.expr 12 target) ts → t.kind = .dot → u.kind = .identifier →
      Yields (.expr 12 (.field (target.span.merge u.span) target u.name)) (ts ++ [t, u])
  | index {target ts t position us u} : Yields (.expr 12 target) ts → t.kind = .leftBracket →
      Yields (.expr 0 position) us → u.kind = .rightBracket →
      Yields (.expr 12 (.index (target.span.merge u.span) target position)) (ts ++ t :: (us ++ [u]))
  | call {callee ts t args close us} : Yields (.expr 12 callee) ts → t.kind = .leftParen →
      Yields (.arguments args close) us →
      Yields (.expr 12 (.call (callee.span.merge close) callee args)) (ts ++ t :: us)
  | assign {target ts t value us} : Yields (.expr 12 target) ts → t.kind = .equal →
      Yields (.expr 0 value) us → Yields (.expr 11 (.assigned target value)) (ts ++ t :: us)
  | compound {target ts t op value us} : Yields (.expr 12 target) ts →
      BinaryOp.ofCompound? t.kind = some op → Yields (.expr 0 value) us →
      Yields (.expr 11 (.assigned target
        (.binary (target.span.merge value.span) op target value))) (ts ++ t :: us)
  | stepAfter {operand ts t op} : Yields (.expr 11 operand) ts →
      StepOp.ofToken? t.kind = some op →
      Yields (.expr 10 (.takeThenStep (operand.span.merge t.span) op operand)) (ts ++ [t])
  | stepBefore {t op operand ts} : StepOp.ofToken? t.kind = some op →
      Yields (.expr 10 operand) ts →
      Yields (.expr 9 (.stepThenTake (t.span.merge operand.span) op operand)) (t :: ts)
  | sign {t op operand ts} : UnaryOp.ofToken? t.kind = some op → Yields (.expr 8 operand) ts →
      Yields (.expr 8 (.unary (t.span.merge operand.span) op operand)) (t :: ts)
  | infixed {left ts t op right us} : Yields (.expr (op.level + 1) left) ts →
      Infix.ofToken? t.kind = some op → Yields (.expr (op.level + 2) right) us →
      Yields (.expr (op.level + 1) (.infixed op left right)) (ts ++ t :: us)
  | choice {condition ts t yes us u no vs} : Yields (.expr 1 condition) ts → t.kind = .question →
      Yields (.expr 0 yes) us → u.kind = .colon → Yields (.expr 0 no) vs →
      Yields (.expr 0 (.ternary (condition.span.merge no.span) condition yes no))
        (ts ++ t :: (us ++ u :: vs))
  | above {level e ts} : Yields (.expr (level + 1) e) ts → Yields (.expr level e) ts
  | noElement {t} : t.kind = .rightBracket → Yields (.elements [] t.span) [t]
  | element {e ts rest close us} : Yields (.expr 0 e) ts → Yields (.elements rest close) us →
      Yields (.elements (e :: rest) close) (ts ++ us)
  | elementComma {e ts t rest close us} : Yields (.expr 0 e) ts → t.kind = .comma →
      Yields (.elements rest close) us → Yields (.elements (e :: rest) close) (ts ++ t :: us)
  | noArgument {t} : t.kind = .rightParen → Yields (.arguments [] t.span) [t]
  | arguments {args close ts} : Yields (.someArguments args close) ts →
      Yields (.arguments args close) ts
  | lastArgument {e ts t} : Yields (.expr 0 e) ts → t.kind = .rightParen →
      Yields (.someArguments [e] t.span) (ts ++ [t])
  | argument {e ts t rest close us} : Yields (.expr 0 e) ts → t.kind = .comma →
      Yields (.someArguments rest close) us →
      Yields (.someArguments (e :: rest) close) (ts ++ t :: us)

/-! ## Statements -/

/-- The tokens that end a statement. -/
inductive TerminatorYields (mode : Mode) : List Token → Prop
  | written {t} : t.kind = .semicolon → TerminatorYields mode [t]
  | omitted : mode = .interactive → TerminatorYields mode []

/-- The tokens of names between commas, one at least. -/
inductive NamesYield : List Name → List Token → Prop
  | last {t} : t.kind = .identifier → NamesYield [t.name] [t]
  | more {t u rest ts} : t.kind = .identifier → u.kind = .comma → NamesYield rest ts →
      NamesYield (t.name :: rest) (t :: u :: ts)

/-- The tokens of parameters with their parentheses. -/
inductive ParametersYield : List Name → List Token → Prop
  | none {t u} : t.kind = .leftParen → u.kind = .rightParen → ParametersYield [] [t, u]
  | some {t params ts u} : t.kind = .leftParen → NamesYield params ts → u.kind = .rightParen →
      ParametersYield params (t :: (ts ++ [u]))

/-- The tokens with which a clause is written; `last` says whether nothing follows them. Branches and
bodies of loops are plain statements, and every value of a constant is written. -/
inductive Clause.Yields (mode : Mode) : Bool → Clause → List Token → Prop
  | variableOnly {last t u ts} : t.kind = .kwVar → u.kind = .identifier →
      TerminatorYields mode ts →
      Yields mode last (.stmt (.declare u.name none false)) (t :: u :: ts)
  | variableSet {last constant t u v value ts us} :
      t.kind = (if constant then .kwConst else .kwVar) → u.kind = .identifier → v.kind = .equal →
      (Phrase.expr 0 value).Yields ts → TerminatorYields mode us →
      Yields mode last (.stmt (.declare u.name (some value) constant)) (t :: u :: v :: (ts ++ us))
  | function {last t u decl ts} : t.kind = .kwFunction → u.kind = .identifier →
      Yields mode last (.function u.name false decl) ts →
      Yields mode last (.stmt (.function decl)) (t :: u :: ts)
  | classDecl {last t decl ts} : t.kind = .kwClass → Yields mode last (.classDecl decl) ts →
      Yields mode last (.stmt (.classDecl decl)) (t :: ts)
  | plain {last st ts} : Yields mode last (.plain st) ts → Yields mode last (.stmt st) ts
  | block {last t body ts} : t.kind = .leftBrace → Yields mode last (.block body) ts →
      Yields mode last (.plain (.block body)) (t :: ts)
  | branch {last t u condition ts v yes us} : t.kind = .kwIf → u.kind = .leftParen →
      (Phrase.expr 0 condition).Yields ts → v.kind = .rightParen →
      Yields mode last (.plain yes) us →
      Yields mode last (.plain (.branch condition yes none)) (t :: u :: (ts ++ v :: us))
  | branchElse {last t u condition ts v yes us w no vs} : t.kind = .kwIf → u.kind = .leftParen →
      (Phrase.expr 0 condition).Yields ts → v.kind = .rightParen →
      Yields mode false (.plain yes) us → w.kind = .kwElse → Yields mode last (.plain no) vs →
      Yields mode last (.plain (.branch condition yes (some no)))
        (t :: u :: (ts ++ v :: (us ++ w :: vs)))
  | loop {last t u condition ts v body us} : t.kind = .kwWhile → u.kind = .leftParen →
      (Phrase.expr 0 condition).Yields ts → v.kind = .rightParen →
      Yields mode last (.plain body) us →
      Yields mode last (.plain (.loop condition body)) (t :: u :: (ts ++ v :: us))
  | ret {last t ts} : t.kind = .kwReturn → last = true ∧ ts = [] ∨ TerminatorYields mode ts →
      Yields mode last (.plain (.ret t.span none)) (t :: ts)
  | retValue {last t e ts us} : t.kind = .kwReturn → (Phrase.expr 0 e).Yields ts →
      last = true ∧ us = [] ∨ TerminatorYields mode us →
      Yields mode last (.plain (.ret (t.span.merge e.span) (some e))) (t :: (ts ++ us))
  | expr {last e ts us} : (Phrase.expr 0 e).Yields ts → TerminatorYields mode us →
      Yields mode last (.plain (.expr e)) (ts ++ us)
  | blockEnd {last t} : t.kind = .rightBrace → Yields mode last (.block []) [t]
  | blockStmt {last st ts rest us} : Yields mode false (.stmt st) ts →
      Yields mode last (.block rest) us → Yields mode last (.block (st :: rest)) (ts ++ us)
  | functionBody {last name isMethod params ts t body us} : ParametersYield params ts →
      t.kind = .leftBrace → Yields mode last (.block body) us →
      Yields mode last (.function name isMethod ⟨name, params, body, isMethod⟩) (ts ++ t :: us)
  | baseClass {last t u members ts} : t.kind = .identifier → u.kind = .leftBrace →
      Yields mode last (.members members) ts →
      Yields mode last (.classDecl (.ofMembers t.name none members)) (t :: u :: ts)
  | subclass {last t u v w members ts} : t.kind = .identifier → u.kind = .colon →
      v.kind = .identifier → w.kind = .leftBrace → Yields mode last (.members members) ts →
      Yields mode last (.classDecl (.ofMembers t.name (some v.name) members))
        (t :: u :: v :: w :: ts)
  | membersEnd {last t} : t.kind = .rightBrace → Yields mode last (.members []) [t]
  | field {last t u value ts us rest vs} : t.kind = .identifier → u.kind = .equal →
      (Phrase.expr 0 value).Yields ts → TerminatorYields mode us →
      Yields mode last (.members rest) vs →
      Yields mode last (.members (.field ⟨t.name, value⟩ :: rest)) (t :: u :: (ts ++ (us ++ vs)))
  | method {last t decl ts rest us} : t.kind = .identifier →
      Yields mode false (.function t.name true decl) ts → Yields mode last (.members rest) us →
      Yields mode last (.members (.method decl :: rest)) (t :: (ts ++ us))
  | programEnd : Yields mode true (.program []) []
  | programStmt {st ts rest us} : Yields mode us.isEmpty (.stmt st) ts →
      Yields mode true (.program rest) us → Yields mode true (.program (st :: rest)) (ts ++ us)

/-! ## From positions to tokens -/

/-- The tokens that are passed between two positions of a stream. -/
inductive Stream.Passes : Stream → List Token → Stream → Prop
  | nil {s} : Passes s [] s
  | cons {s ts s'} : s.kind ≠ .eof → Passes s.advance ts s' → Passes s (s.here :: ts) s'

namespace Stream.Passes

variable {s s₁ s' : Stream} {ts us : List Token}

theorem append (h : s.Passes ts s₁) (h' : s₁.Passes us s') : s.Passes (ts ++ us) s' := by
  induction h with
  | nil => exact h'
  | cons more _ ih => exact .cons more (ih h')

/-- A token of a known kind is passed first. -/
theorem token {kind : TokenKind} (here : s.kind = kind) (rest : s.advance.Passes ts s')
    (more : kind ≠ .eof := by decide) : s.Passes (s.here :: ts) s' :=
  .cons (here ▸ more) rest

/-- One token of a known kind. -/
theorem one {kind : TokenKind} (here : s.kind = kind) (more : kind ≠ .eof := by decide) :
    s.Passes [s.here] s.advance :=
  .token here .nil more

/-- No end token is passed. -/
theorem ne_eof (h : s.Passes ts s') : ∀ t ∈ ts, t.kind ≠ .eof := by
  induction h with
  | nil => exact List.forall_mem_nil _
  | cons more _ ih =>
    intro t mem
    rcases List.mem_cons.1 mem with rfl | mem
    · exact more
    · exact ih t mem

/-- A position from which a token is passed is not the end. -/
theorem atEnd_of_ne_nil (h : s.Passes ts s') (some : ts ≠ []) : s.atEnd = false := by
  cases h with
  | nil => exact absurd rfl some
  | cons more _ => simpa [atEnd] using more

/-- What is passed and what is left make up what was ahead, if there is an end token. -/
theorem ahead (h : s.Passes ts s') (ends : ∃ t ∈ s.here :: s.ahead, t.kind = .eof) :
    s.here :: s.ahead = ts ++ s'.here :: s'.ahead := by
  induction h with
  | nil => rfl
  | @cons s ts s' more _ ih =>
    obtain ⟨passed, here, ahead⟩ := s
    obtain ⟨t, mem, eof⟩ := ends
    have later : t ∈ ahead := by
      rcases List.mem_cons.1 mem with rfl | mem
      · exact absurd eof more
      · exact mem
    cases ahead with
    | nil => cases later
    | cons next rest =>
      have moved : (Stream.mk passed here (next :: rest)).advance =
          ⟨here :: passed, next, rest⟩ := by
        unfold Stream.advance
        rw [if_neg (by simpa [atEnd] using more)]
      rw [moved] at ih
      exact congrArg (here :: ·) (ih ⟨t, later, eof⟩)

end Stream.Passes

/-- What is derived between two positions is written with the tokens between them. -/
theorem Derives.yields {s s' : Stream} {p : Phrase} (h : Derives s p s') :
    ∃ ts, s.Passes ts s' ∧ p.Yields ts := by
  induction h with
  | literal kind value =>
    refine ⟨_, ?_, .literal kind value⟩
    rcases kind with kind | kind <;> exact .one kind
  | keyword value => exact ⟨_, .cons (ofToken_ne rfl value) .nil, .keyword value⟩
  | array opened _ ih =>
    obtain ⟨ts, passed, yields⟩ := ih
    exact ⟨_, .token opened passed, .array opened yields⟩
  | group opened _ closed ih =>
    obtain ⟨ts, passed, yields⟩ := ih
    exact ⟨_, .token opened (passed.append (.one closed)),
      .group opened yields closed⟩
  | name named => exact ⟨_, .one named, .name named⟩
  | field _ dot named ih =>
    obtain ⟨ts, passed, yields⟩ := ih
    exact ⟨_, passed.append (.token dot (.one named)),
      .field yields dot named⟩
  | index _ opened _ closed ihTarget ih =>
    obtain ⟨ts, passed, yields⟩ := ihTarget
    obtain ⟨us, passed', yields'⟩ := ih
    exact ⟨_, passed.append (.token opened (passed'.append (.one closed))),
      .index yields opened yields' closed⟩
  | call _ opened _ ihCallee ih =>
    obtain ⟨ts, passed, yields⟩ := ihCallee
    obtain ⟨us, passed', yields'⟩ := ih
    exact ⟨_, passed.append (.token opened passed'),
      .call yields opened yields'⟩
  | assign _ equal _ ihTarget ih =>
    obtain ⟨ts, passed, yields⟩ := ihTarget
    obtain ⟨us, passed', yields'⟩ := ih
    exact ⟨_, passed.append (.token equal passed'),
      .assign yields equal yields'⟩
  | compound _ op _ ihTarget ih =>
    obtain ⟨ts, passed, yields⟩ := ihTarget
    obtain ⟨us, passed', yields'⟩ := ih
    exact ⟨_, passed.append (.cons (ofToken_ne rfl op) passed'), .compound yields op yields'⟩
  | stepAfter _ op ih =>
    obtain ⟨ts, passed, yields⟩ := ih
    exact ⟨_, passed.append (.cons (ofToken_ne rfl op) .nil), .stepAfter yields op⟩
  | stepBefore op _ ih =>
    obtain ⟨ts, passed, yields⟩ := ih
    exact ⟨_, .cons (ofToken_ne rfl op) passed, .stepBefore op yields⟩
  | sign op _ ih =>
    obtain ⟨ts, passed, yields⟩ := ih
    exact ⟨_, .cons (ofToken_ne rfl op) passed, .sign op yields⟩
  | infixed _ op _ ihLeft ihRight =>
    obtain ⟨ts, passed, yields⟩ := ihLeft
    obtain ⟨us, passed', yields'⟩ := ihRight
    exact ⟨_, passed.append (.cons (ofToken_ne rfl op) passed'), .infixed yields op yields'⟩
  | choice _ question _ colon _ ihCondition ihYes ihNo =>
    obtain ⟨ts, passed, yields⟩ := ihCondition
    obtain ⟨us, passedYes, yieldsYes⟩ := ihYes
    obtain ⟨vs, passedNo, yieldsNo⟩ := ihNo
    exact ⟨_, passed.append (.token question
      (passedYes.append (.token colon passedNo))),
      .choice yields question yieldsYes colon yieldsNo⟩
  | above _ ih =>
    obtain ⟨ts, passed, yields⟩ := ih
    exact ⟨_, passed, .above yields⟩
  | noElement closed => exact ⟨_, .one closed, .noElement closed⟩
  | element _ _ ih ihRest =>
    obtain ⟨ts, passed, yields⟩ := ih
    obtain ⟨us, passed', yields'⟩ := ihRest
    exact ⟨_, passed.append passed', .element yields yields'⟩
  | elementComma _ comma _ ih ihRest =>
    obtain ⟨ts, passed, yields⟩ := ih
    obtain ⟨us, passed', yields'⟩ := ihRest
    exact ⟨_, passed.append (.token comma passed'),
      .elementComma yields comma yields'⟩
  | noArgument closed => exact ⟨_, .one closed, .noArgument closed⟩
  | arguments _ ih =>
    obtain ⟨ts, passed, yields⟩ := ih
    exact ⟨_, passed, .arguments yields⟩
  | lastArgument _ closed ih =>
    obtain ⟨ts, passed, yields⟩ := ih
    exact ⟨_, passed.append (.one closed), .lastArgument yields closed⟩
  | argument _ comma _ ih ihRest =>
    obtain ⟨ts, passed, yields⟩ := ih
    obtain ⟨us, passed', yields'⟩ := ihRest
    exact ⟨_, passed.append (.token comma passed'),
      .argument yields comma yields'⟩

theorem Terminated.yields {mode : Mode} {s s' : Stream} (h : Terminated mode s s') :
    ∃ ts, s.Passes ts s' ∧ TerminatorYields mode ts := by
  cases h with
  | written semicolon => exact ⟨_, .one semicolon, .written semicolon⟩
  | omitted interactive => exact ⟨_, .nil, .omitted interactive⟩

theorem NamesBetween.yields {s s' : Stream} {names : List Name} (h : NamesBetween s names s') :
    ∃ ts, s.Passes ts s' ∧ NamesYield names ts := by
  induction h with
  | last named => exact ⟨_, .one named, .last named⟩
  | more named comma _ ih =>
    obtain ⟨ts, passed, yields⟩ := ih
    exact ⟨_, .token named (.token comma passed),
      .more named comma yields⟩

theorem Parameters.yields {s s' : Stream} {params : List Name} (h : Parameters s params s') :
    ∃ ts, s.Passes ts s' ∧ ParametersYield params ts := by
  cases h with
  | none opened closed =>
    exact ⟨_, .token opened (.one closed), .none opened closed⟩
  | some opened names closed =>
    obtain ⟨ts, passed, yields⟩ := names.yields
    exact ⟨_, .token opened (passed.append (.one closed)),
      .some opened yields closed⟩

/-- The end of a return, which may be missing at the end of the tokens. -/
theorem returnEnd_yields {mode : Mode} {s s' : Stream}
    (h : s.kind = .eof ∧ s' = s ∨ Terminated mode s s') :
    ∃ ts, s.Passes ts s' ∧ (s'.atEnd = true ∧ ts = [] ∨ TerminatorYields mode ts) := by
  rcases h with ⟨eof, rfl⟩ | ended
  · exact ⟨[], .nil, .inl ⟨by simp [Stream.atEnd, eof], rfl⟩⟩
  · obtain ⟨ts, passed, yields⟩ := ended.yields
    exact ⟨ts, passed, .inr yields⟩

/-- Every phrase is written with a token at least. -/
theorem Phrase.Yields.ne_nil {p : Phrase} {ts : List Token} (h : p.Yields ts) : ts ≠ [] := by
  induction h with
  | above _ ih | arguments _ ih => exact ih
  | element _ _ ih | elementComma _ _ _ ih => exact List.append_ne_nil_of_left_ne_nil ih _
  | _ => simp

/-- No clause but the empty program is written with no tokens. -/
theorem Clause.Yields.ne_nil {mode : Mode} {last : Bool} {clause : Clause} {ts : List Token}
    (h : clause.Yields mode last ts) (notEmpty : clause ≠ .program []) : ts ≠ [] := by
  induction h with
  | plain _ ih => exact ih (by simp)
  | expr yields => exact List.append_ne_nil_of_left_ne_nil yields.ne_nil _
  | blockStmt _ _ ih | programStmt _ _ ih =>
    exact List.append_ne_nil_of_left_ne_nil (ih (by simp)) _
  | programEnd => exact absurd rfl notEmpty
  | _ => simp

/-- A program goes up to the end. -/
theorem Forms.atEnd_of_program {mode : Mode} {s s' : Stream} {p : List Stmt}
    (h : Forms mode s (.program p) s') : s'.atEnd = true := by
  generalize same : Clause.program p = clause at h
  induction h generalizing p with
  | programEnd eof => simp [Stream.atEnd, eof]
  | programStmt _ _ _ ih => exact ih rfl
  | _ => cases same

/-- A clause between two positions is written with the tokens between them, and is the last thing
of the input if it stops at the end. -/
theorem Forms.yields {mode : Mode} {s s' : Stream} {clause : Clause} (h : Forms mode s clause s') :
    ∃ ts, s.Passes ts s' ∧ clause.Yields mode s'.atEnd ts := by
  induction h with
  | variableOnly keyword named _ ended =>
    obtain ⟨ts, passed, yields⟩ := ended.yields
    exact ⟨_, .token keyword (.token named passed),
      .variableOnly keyword named yields⟩
  | @variableSet s constant value s₁ s' keyword named equal derived ended =>
    obtain ⟨ts, passed, yields⟩ := derived.yields
    obtain ⟨us, passed', yields'⟩ := ended.yields
    have more : s.kind ≠ .eof := by rw [keyword]; cases constant <;> decide
    exact ⟨_, .cons more (.token named
      (.token equal (passed.append passed'))),
      .variableSet keyword named equal yields yields'⟩
  | function keyword named _ ih =>
    obtain ⟨ts, passed, yields⟩ := ih
    exact ⟨_, .token keyword (.token named passed),
      .function keyword named yields⟩
  | classDecl keyword _ ih =>
    obtain ⟨ts, passed, yields⟩ := ih
    exact ⟨_, .token keyword passed, .classDecl keyword yields⟩
  | plain _ ih =>
    obtain ⟨ts, passed, yields⟩ := ih
    exact ⟨_, passed, .plain yields⟩
  | block brace _ ih =>
    obtain ⟨ts, passed, yields⟩ := ih
    exact ⟨_, .token brace passed, .block brace yields⟩
  | branch keyword opened derived closed _ _ ih =>
    obtain ⟨ts, passed, yields⟩ := derived.yields
    obtain ⟨us, passed', yields'⟩ := ih
    exact ⟨_, .token keyword (.token opened
      (passed.append (.token closed passed'))),
      .branch keyword opened yields closed yields'⟩
  | branchElse keyword opened derived closed _ isElse _ ihYes ihNo =>
    obtain ⟨ts, passed, yields⟩ := derived.yields
    obtain ⟨us, passedYes, yieldsYes⟩ := ihYes
    obtain ⟨vs, passedNo, yieldsNo⟩ := ihNo
    -- the first branch is followed by `else`
    rw [show Stream.atEnd _ = false by simp [Stream.atEnd, isElse]] at yieldsYes
    exact ⟨_, .token keyword (.token opened
      (passed.append (.token closed
        (passedYes.append (.token isElse passedNo))))),
      .branchElse keyword opened yields closed yieldsYes isElse yieldsNo⟩
  | loop keyword opened derived closed _ ih =>
    obtain ⟨ts, passed, yields⟩ := derived.yields
    obtain ⟨us, passed', yields'⟩ := ih
    exact ⟨_, .token keyword (.token opened
      (passed.append (.token closed passed'))),
      .loop keyword opened yields closed yields'⟩
  | ret keyword _ ended =>
    obtain ⟨ts, passed, yields⟩ := returnEnd_yields ended
    exact ⟨_, .token keyword passed, .ret keyword yields⟩
  | retValue keyword derived ended =>
    obtain ⟨ts, passed, yields⟩ := derived.yields
    obtain ⟨us, passed', yields'⟩ := returnEnd_yields ended
    exact ⟨_, .token keyword (passed.append passed'),
      .retValue keyword yields yields'⟩
  | expr derived ended =>
    obtain ⟨ts, passed, yields⟩ := derived.yields
    obtain ⟨us, passed', yields'⟩ := ended.yields
    exact ⟨_, passed.append passed', .expr yields yields'⟩
  | blockEnd closed => exact ⟨_, .one closed, .blockEnd closed⟩
  | blockStmt _ _ ih ihRest =>
    obtain ⟨ts, passed, yields⟩ := ih
    obtain ⟨us, passed', yields'⟩ := ihRest
    rw [passed'.atEnd_of_ne_nil (yields'.ne_nil (by simp))] at yields
    exact ⟨_, passed.append passed', .blockStmt yields yields'⟩
  | functionBody params opened _ ih =>
    obtain ⟨ts, passed, yields⟩ := params.yields
    obtain ⟨us, passed', yields'⟩ := ih
    exact ⟨_, passed.append (.token opened passed'),
      .functionBody yields opened yields'⟩
  | baseClass named opened _ ih =>
    obtain ⟨ts, passed, yields⟩ := ih
    exact ⟨_, .token named (.token opened passed),
      .baseClass named opened yields⟩
  | subclass named colon parent opened _ ih =>
    obtain ⟨ts, passed, yields⟩ := ih
    exact ⟨_, .token named (.token colon
      (.token parent (.token opened passed))),
      .subclass named colon parent opened yields⟩
  | membersEnd closed => exact ⟨_, .one closed, .membersEnd closed⟩
  | field named equal derived ended _ ih =>
    obtain ⟨ts, passed, yields⟩ := derived.yields
    obtain ⟨us, passed', yields'⟩ := ended.yields
    obtain ⟨vs, passedRest, yieldsRest⟩ := ih
    exact ⟨_, .token named (.token equal
      (passed.append (passed'.append passedRest))),
      .field named equal yields yields' yieldsRest⟩
  | method named _ _ ih ihRest =>
    obtain ⟨ts, passed, yields⟩ := ih
    obtain ⟨us, passed', yields'⟩ := ihRest
    rw [passed'.atEnd_of_ne_nil (yields'.ne_nil (by simp))] at yields
    exact ⟨_, .token named (passed.append passed'),
      .method named yields yields'⟩
  | programEnd eof =>
    refine ⟨[], .nil, ?_⟩
    rw [show Stream.atEnd _ = true by simp [Stream.atEnd, eof]]
    exact .programEnd
  | programStmt _ formedRest ih ihRest =>
    obtain ⟨ts, passed, yields⟩ := ih
    obtain ⟨us, passed', yields'⟩ := ihRest
    have ends := formedRest.atEnd_of_program
    refine ⟨ts ++ us, passed.append passed', ?_⟩
    rw [ends] at yields' ⊢
    refine .programStmt ?_ yields'
    -- the statement is the last one exactly if nothing is passed after it
    cases us with
    | nil =>
      cases passed'
      rwa [ends] at yields
    | cons u us =>
      rwa [passed'.atEnd_of_ne_nil (List.cons_ne_nil _ _)] at yields

/-! ## The form of sentences -/

/-- Everything that is assigned to inside an expression is a chain. -/
def Expr.Proper (e : Expr) : Prop :=
  ∀ span target value, e.Part (.assign span target value) → target.isChain = true

namespace Expr.Proper

variable {e : Expr}

theorem of_children (own : ∀ span target value, e = .assign span target value →
    target.isChain = true) (inside : ∀ c ∈ e.children, c.Proper) : e.Proper := by
  intro span target value part
  rcases part_iff.1 part with same | ⟨c, mem, part⟩
  · exact own span target value same.symm
  · exact inside c mem span target value part

/-- An expression that assigns nothing itself. -/
theorem of_parts (own : ∀ span target value, e ≠ .assign span target value)
    (inside : ∀ c ∈ e.children, c.Proper) : e.Proper :=
  of_children (fun span target value same => absurd same (own span target value)) inside

theorem infixed {left right : Expr} (op : Infix) (hl : left.Proper) (hr : right.Proper) :
    (Expr.infixed op left right).Proper := by
  cases op <;> exact of_parts (by simp [Expr.infixed]) (by simp [Expr.infixed, children, hl, hr])

theorem assigned {target value : Expr} (chain : target.isChain = true) (ht : target.Proper)
    (hv : value.Proper) : (Expr.assigned target value).Proper := by
  refine of_children ?_ (by simp [Expr.assigned, children, ht, hv])
  intro span target' value' same
  cases same
  exact chain

end Expr.Proper

/-- What the grammar promises about a phrase. -/
def Phrase.Proper : Phrase → Prop
  | expr level e => e.Proper ∧ (12 ≤ level → e.isChain = true)
  | elements es _ | arguments es _ | someArguments es _ => ∀ e ∈ es, e.Proper

theorem Phrase.Yields.proper {p : Phrase} {ts : List Token} (h : p.Yields ts) : p.Proper := by
  induction h with
  | literal | keyword => exact ⟨.of_parts (by simp) (List.forall_mem_nil _), by omega⟩
  | name => exact ⟨.of_parts (by simp) (List.forall_mem_nil _), fun _ => rfl⟩
  | array _ _ ih => exact ⟨.of_parts (by simp) ih, by omega⟩
  | group _ _ _ ih => exact ⟨.of_parts (by simp) (by simp [Expr.children, ih.1]), by omega⟩
  | field _ _ _ ih =>
    exact ⟨.of_parts (by simp) (by simp [Expr.children, ih.1]), fun _ => ih.2 (Nat.le_refl _)⟩
  | index _ _ _ _ ihTarget ih =>
    exact ⟨.of_parts (by simp) (by simp [Expr.children, ihTarget.1, ih.1]),
      fun _ => ihTarget.2 (Nat.le_refl _)⟩
  | call _ _ _ ihCallee ih =>
    refine ⟨.of_parts (by simp) ?_, fun _ => ihCallee.2 (Nat.le_refl _)⟩
    intro c mem
    rcases List.mem_cons.1 mem with rfl | mem
    · exact ihCallee.1
    · exact ih c mem
  | assign _ _ _ ihTarget ih =>
    exact ⟨.assigned (ihTarget.2 (Nat.le_refl _)) ihTarget.1 ih.1, by omega⟩
  | compound _ _ _ ihTarget ih =>
    refine ⟨.assigned (ihTarget.2 (Nat.le_refl _)) ihTarget.1 ?_, by omega⟩
    exact .of_parts (by simp) (by simp [Expr.children, ihTarget.1, ih.1])
  | stepAfter _ _ ih | stepBefore _ _ ih | sign _ _ ih =>
    exact ⟨.of_parts (by simp) (by simp [Expr.children, ih.1]), by omega⟩
  | @infixed left ts t op right us _ _ _ ihLeft ihRight =>
    have bound : op.level < 7 := op.level_lt
    exact ⟨.infixed op ihLeft.1 ihRight.1, by omega⟩
  | choice _ _ _ _ _ ihCondition ihYes ihNo =>
    exact ⟨.of_parts (by simp) (by simp [Expr.children, ihCondition.1, ihYes.1, ihNo.1]), by omega⟩
  | above _ ih => exact ⟨ih.1, fun le => ih.2 (Nat.le_succ_of_le le)⟩
  | noElement | noArgument => exact List.forall_mem_nil _
  | element _ _ ih ihRest | elementComma _ _ _ ih ihRest | argument _ _ _ ih ihRest =>
    exact List.forall_mem_cons.2 ⟨ih.1, ihRest⟩
  | arguments _ ih => exact ih
  | lastArgument _ _ ih => exact List.forall_mem_singleton.2 ih.1

/-- Statements whose constants have values, whose assignments go to chains, and whose classes keep
the methods with the name of the class apart as constructors. -/
inductive Stmt.Proper : Stmt → Prop
  | declare {name value constant} : (constant = true → value.isSome = true) →
      (∀ e ∈ value, Expr.Proper e) → Proper (.declare name value constant)
  | function {decl} : (∀ st ∈ decl.body, Proper st) → Proper (.function decl)
  | classDecl {decl} : (∀ field ∈ decl.fields, field.value.Proper) →
      (∀ method ∈ decl.methods, method.name.text ≠ decl.name.text) →
      (∀ method ∈ decl.methods, ∀ st ∈ method.body, Proper st) →
      (∀ method ∈ decl.constructor, method.name.text = decl.name.text) →
      (∀ method ∈ decl.constructor, ∀ st ∈ method.body, Proper st) → Proper (.classDecl decl)
  | ret {span value} : (∀ e ∈ value, Expr.Proper e) → Proper (.ret span value)
  | expr {e} : e.Proper → Proper (.expr e)
  | block {body} : (∀ st ∈ body, Proper st) → Proper (.block body)
  | branch {condition yes no} : condition.Proper → Proper yes → (∀ st ∈ no, Proper st) →
      Proper (.branch condition yes no)
  | loop {condition body} : condition.Proper → Proper body → Proper (.loop condition body)

/-- What the grammar promises about a member of a class. -/
def Member.Proper : Member → Prop
  | field decl => decl.value.Proper
  | method decl => ∀ st ∈ decl.body, st.Proper

/-- What the grammar promises about a clause. -/
def Clause.Proper : Clause → Prop
  | stmt st | plain st => st.Proper
  | block body | program body => ∀ st ∈ body, st.Proper
  | function _ _ decl => ∀ st ∈ decl.body, st.Proper
  | classDecl decl => Stmt.Proper (.classDecl decl)
  | members ms => ∀ member ∈ ms, member.Proper

/-- The constructor is found by the name of the class, and the methods are what is left. -/
theorem proper_ofMembers {name : Name} {superclass : Option Name} {members : List Member}
    (h : ∀ member ∈ members, member.Proper) :
    Stmt.Proper (.classDecl (.ofMembers name superclass members)) := by
  refine .classDecl ?_ ?_ ?_ ?_ ?_
  · intro field mem
    obtain ⟨member, inside, same⟩ := List.mem_filterMap.1 mem
    cases member with
    | method => cases same
    | field decl =>
      cases same
      exact h _ inside
  · intro method mem
    simpa [ClassDecl.ofMembers] using (List.mem_filter.1 mem).2
  · intro method mem
    exact h _ (ClassDecl.mem_members_of_mem_methods mem)
  · intro method mem
    simpa [ClassDecl.ofMembers] using (List.mem_filter.1 (List.mem_of_getLast? mem)).2
  · intro method mem
    exact h _ (ClassDecl.mem_members_of_mem_constructor mem)

theorem Clause.Yields.proper {mode : Mode} {last : Bool} {clause : Clause} {ts : List Token}
    (h : clause.Yields mode last ts) : clause.Proper := by
  induction h with
  | variableOnly => exact .declare (by simp) (by simp)
  | variableSet _ _ _ value =>
    refine .declare (fun _ => rfl) ?_
    rintro e ⟨rfl⟩
    exact value.proper.1
  | function _ _ _ ih => exact .function ih
  | classDecl _ _ ih | plain _ ih => exact ih
  | block _ _ ih => exact .block ih
  | branch _ _ condition _ _ ih => exact .branch condition.proper.1 ih (by simp)
  | branchElse _ _ condition _ _ _ _ ihYes ihNo =>
    refine .branch condition.proper.1 ihYes ?_
    rintro st ⟨rfl⟩
    exact ihNo
  | loop _ _ condition _ _ ih => exact .loop condition.proper.1 ih
  | ret => exact .ret (by simp)
  | retValue _ value =>
    refine .ret ?_
    rintro e ⟨rfl⟩
    exact value.proper.1
  | expr e => exact .expr e.proper.1
  | blockEnd | membersEnd | programEnd => exact List.forall_mem_nil _
  | blockStmt _ _ ih ihRest | programStmt _ _ ih ihRest | method _ _ _ ih ihRest =>
    exact List.forall_mem_cons.2 ⟨ih, ihRest⟩
  | functionBody _ _ _ ih => exact ih
  | baseClass _ _ _ ih => exact proper_ofMembers ih
  | subclass _ _ _ _ _ ih => exact proper_ofMembers ih
  | field _ _ value _ _ ih => exact List.forall_mem_cons.2 ⟨value.proper.1, ih⟩

/-! ## Accepted programs -/

/-- The tokens that a program is made of: those before the first end token, without comments. -/
def programTokens (tokens : List Token) : List Token :=
  (tokens.filter (!·.kind.isTrivia)).takeWhile (·.kind != .eof)

/-- What is read closes with an end token. -/
theorem getLast?_withEnd (tokens : List Token) :
    ∃ t ∈ (Stream.withEnd tokens).getLast?, t.kind = .eof := by
  unfold Stream.withEnd
  split
  · next t last =>
    split
    · next eof => exact ⟨t, last, eof⟩
    · exact ⟨_, List.getLast?_concat, rfl⟩
  · exact ⟨_, rfl, rfl⟩

theorem exists_eof_withEnd (tokens : List Token) : ∃ t ∈ Stream.withEnd tokens, t.kind = .eof := by
  obtain ⟨t, last, eof⟩ := getLast?_withEnd tokens
  exact ⟨t, List.mem_of_getLast? last, eof⟩

theorem takeWhile_withEnd (tokens : List Token) :
    (Stream.withEnd tokens).takeWhile (·.kind != .eof) = tokens.takeWhile (·.kind != .eof) := by
  unfold Stream.withEnd
  split
  · split
    · rfl
    · rw [List.takeWhile_append]
      split
      · next all =>
        rw [(List.takeWhile_prefix _).eq_of_length all]
        simp [Stream.missingEnd, Token.ending]
      · rfl
  · next none =>
    rw [List.getLast?_eq_none_iff.1 none]
    rfl

/-- The tokens under a new stream's position and after it. -/
theorem here_cons_ahead_ofTokens (tokens : List Token) :
    (Stream.ofTokens tokens).here :: (Stream.ofTokens tokens).ahead =
      Stream.withEnd (tokens.filter (!·.kind.isTrivia)) := by
  obtain ⟨t, mem, -⟩ := exists_eof_withEnd (tokens.filter (!·.kind.isTrivia))
  unfold Stream.ofTokens
  split
  · next empty =>
    rw [empty] at mem
    cases mem
  · next same => exact same.symm

theorem passed_ofTokens (tokens : List Token) : (Stream.ofTokens tokens).passed = [] := by
  unfold Stream.ofTokens
  split <;> rfl

/-- A new stream holds the tokens that are no comments, and an end token. -/
theorem tokens_ofTokens (tokens : List Token) :
    (Stream.ofTokens tokens).tokens = Stream.withEnd (tokens.filter (!·.kind.isTrivia)) := by
  rw [Stream.tokens, passed_ofTokens, here_cons_ahead_ofTokens]
  rfl

/-- What is passed from a new stream up to an end is what a program is made of. -/
theorem Stream.Passes.eq_programTokens {tokens ts : List Token} {s' : Stream}
    (h : (Stream.ofTokens tokens).Passes ts s') (ends : s'.atEnd = true) :
    ts = programTokens tokens := by
  have whole := here_cons_ahead_ofTokens tokens
  have split := h.ahead (whole ▸ exists_eof_withEnd _)
  rw [programTokens, ← takeWhile_withEnd, ← whole, split,
    List.takeWhile_append_of_pos fun t mem => by simpa using h.ne_eof t mem,
    List.takeWhile_cons_of_neg (by simpa [atEnd, kind] using ends), List.append_nil]

/-- A program that is read without problems is written with the tokens it is made of. -/
theorem Program.yields_of_clean {mode : Mode} {tokens : List Token}
    (clean : (Program.ofTokens mode tokens).errors = []) :
    (Clause.program (Program.ofTokens mode tokens).statements).Yields mode true
      (programTokens tokens) := by
  obtain ⟨s', formed⟩ := forms_of_ofStream clean
  obtain ⟨ts, passed, yields⟩ := formed.yields
  have ends := formed.atEnd_of_program
  rwa [ends, passed.eq_programTokens ends] at yields

/-- A program that is read without problems is a sentence of the grammar: it is written with exactly
the tokens before the first end token that are no comments, in their order. Its branches and loops
hold no bare declarations, its constants have values, its assignments go to chains, and its
constructors are the methods with the name of their class. -/
theorem accepted_program_is_sentence (mode : Mode) (tokens : List Token)
    (clean : (Program.ofTokens mode tokens).errors = []) :
    (Clause.program (Program.ofTokens mode tokens).statements).Yields mode true
      (programTokens tokens) ∧
    ∀ st ∈ (Program.ofTokens mode tokens).statements, st.Regular ∧ st.Proper := by
  obtain ⟨s', formed⟩ := forms_of_ofStream clean
  have yields := Program.yields_of_clean clean
  exact ⟨yields, fun st mem => ⟨formed.regular st mem, yields.proper st mem⟩⟩

/-- A class with an array that lacks its commas, a comment, and a `return` that ends the input. -/
def looseTokens : List Token :=
  Scanned.tokens (scan "class A \x7b n = [1 2]; A(k) \x7b this.n[0] += k; \x7d \x7d // end\nreturn")

theorem loose_program_is_sentence :
    (Program.ofTokens .file looseTokens).errors = [] ∧
    (Clause.program (Program.ofTokens .file looseTokens).statements).Yields .file true
      (programTokens looseTokens) ∧
    ∀ st ∈ (Program.ofTokens .file looseTokens).statements, st.Regular ∧ st.Proper :=
  ⟨by decide +kernel, accepted_program_is_sentence .file looseTokens (by decide +kernel)⟩

end Scriptlet
