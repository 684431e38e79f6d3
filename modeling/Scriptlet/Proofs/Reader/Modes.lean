import Scriptlet.Proofs.Reader.Walk

/-!
# Interactive lines and files

What a file may say, an interactive line may say too, and it means the same: the mode only decides
whether a statement may lack its terminator, so a reading that never misses one does not notice the
mode (`interactive_extends_file`).

A single production is compared with itself in the other mode by a law. The comparison speaks of
readings that succeed, and for declarations only of those that leave no problem behind: once a
declaration has failed, recovery may go on from different tokens in the two modes. That no problem
is left at the end says so of every step before it, because recorded problems are never taken back.
-/

namespace Scriptlet

/-! ## Expressions and what ends statements -/

namespace Reading

variable {α β : Type}

/-- Whatever `r` reads, `r'` reads from the same stream in the same way. -/
structure Refines (r r' : Reading α) : Prop where
  walks : r.Walks
  ok : ∀ s a s', r s = .ok a s' → r' s = .ok a s'

theorem refines_self {r : Reading α} (walks : r.Walks) : r.Refines r :=
  ⟨walks, fun _ _ _ read => read⟩

/-- A reading that never succeeds is refined by every other. -/
theorem refines_of_fail (expected : Expectation) (r : Reading α) :
    (fail expected : Reading α).Refines r :=
  ⟨walks_fail expected, fun _ _ _ read => by cases read⟩

theorem Refines.bind {r r' : Reading α} {k k' : α → Reading β} (hr : r.Refines r')
    (hk : ∀ a, (k a).Refines (k' a)) : (r >>= k).Refines (r' >>= k') where
  walks := hr.walks.bind fun a => (hk a).walks
  ok s b s' read := by
    obtain ⟨a, s₁, first, second⟩ := bind_eq_ok read
    rw [bind_of_ok (hr.ok s a s₁ first)]
    exact (hk a).ok s₁ b s' second

/-- Refinement is a law. -/
def refining : Reading.Law where
  Holds r r' := r.Refines r'
  Meets _ := True
  value a := refines_self (forward.value a)
  failure expected _ := refines_self (walks_fail expected)
  tooDeep r := refines_of_fail .lessNesting r
  here hk := (refines_self walks_here).bind fun t => hk t trivial
  next := refines_self forward.next
  sequence hr hk := hr.bind hk

/-- The only place where the mode matters: an interactive line may leave the semicolon out, but
takes one that is there. -/
theorem refines_terminator (expected : Expectation) :
    (readTerminator .file expected).Refines (readTerminator .interactive expected) := by
  unfold readTerminator
  refine Refines.bind (refining.eat .semicolon) fun semicolon => ?_
  cases semicolon with
  | true => exact refining.value ()
  | false => exact refines_of_fail expected _

end Reading

/-! ## Declarations -/

namespace PageReading

variable {α β : Type}

/-- What `r` reads without leaving a problem on the page, `r'` reads from the same page in the same
way. -/
structure Refines (r r' : PageReading α) : Prop where
  walks : r.Walks
  clean : ∀ page a page', r page = .ok a page' → page'.errors = [] → r' page = .ok a page'

theorem Refines.bind {r r' : PageReading α} {k k' : α → PageReading β} (hr : r.Refines r')
    (hk : ∀ a, (k a).Refines (k' a)) : (r >>= k).Refines (r' >>= k') where
  walks := hr.walks.bind fun a => (hk a).walks
  clean page b page' read none := by
    obtain ⟨a, page₁, first, second⟩ := bind_eq_ok read
    -- problems are only added, so there was none after the first step either
    have way := (hk a).walks.ok page₁ b page' second
    have before : page₁.errors = [] := List.prefix_nil.1 (none ▸ way.errors)
    rw [bind_of_ok (hr.clean page a page₁ first before)]
    exact (hk a).clean page₁ b page' second none

theorem refines_lift {r r' : Reading α} (h : r.Refines r') :
    (liftM r : PageReading α).Refines (liftM r') where
  walks := walks_lift h.walks
  clean page a page' read _ := by
    obtain ⟨s, first, rfl⟩ := lift_eq_ok read
    exact lift_of_ok (h.ok _ _ _ first)

/-- Recovery leaves a problem, so a page without one was read without recovery. -/
theorem Refines.recovering {r r' : PageReading α} (boundary : Boundary) (h : r.Refines r') :
    (recovering boundary r).Refines (recovering boundary r') where
  walks := h.walks.recovering boundary
  clean page o page' read none := by
    obtain ⟨a, rfl, first⟩ | ⟨e, page₁, -, -, rfl⟩ := recovering_eq_ok read
    · exact recovering_of_ok (h.clean page a page' first none)
    · exact absurd none (List.append_ne_nil_of_right_ne_nil _ (List.cons_ne_nil e []))

/-- Refinement is a law of declarations too. -/
def refining : PageReading.Law Reading.refining where
  Holds r r' := r.Refines r'
  lift h := refines_lift h
  tooDeep _ := ⟨walks_lift (Reading.walks_fail .lessNesting), fun _ _ _ read => by cases read⟩
  sequence hr hk := hr.bind hk
  recovering boundary h := h.recovering boundary

end PageReading

/-! ## Programs -/

/-- **Interactive mode extends file mode.** Tokens that form a file without problems form the same
program, all its spans included, as an interactive line. -/
theorem interactive_extends_file (tokens : List Token)
    (clean : (Program.ofTokens .file tokens).errors = []) :
    (Program.ofTokens .interactive tokens).errors = [] ∧
      (Program.ofTokens .interactive tokens).statements =
        (Program.ofTokens .file tokens).statements := by
  let s := Stream.ofTokens tokens
  have refines : (readProgram .file s.nestingBound).Refines
      (readProgram .interactive s.nestingBound) :=
    PageReading.refining.readProgram (fun expected _ => Reading.refines_terminator expected)
      (Nat.le_refl _)
  unfold Program.ofTokens Program.ofStream at clean ⊢
  cases read : readProgram .file s.nestingBound ⟨s, []⟩ with
  | ok statements page =>
    rw [read] at clean
    rw [refines.clean ⟨s, []⟩ statements page read clean]
    exact ⟨clean, rfl⟩
  | error e page =>
    rw [read] at clean
    exact absurd clean (List.append_ne_nil_of_right_ne_nil _ (List.cons_ne_nil e []))

/-- A class with a field, a method and two constructors, nested blocks, an assignment to a chain and
a `return` that the end of the text ends. -/
def closedTokens : List Token :=
  Scanned.tokens (scan
    ("class A : B \x7b n = [1 2]; A(k) \x7b this.n[0] += k; \x7d A() \x7b \x7d get() \x7b return; \x7d \x7d" ++
      " if (a) \x7b const c = a ? -b : f(c)(d); \x7d else while (b) \x7b ++b; \x7d return"))

theorem closed_tokens_extend :
    (Program.ofTokens .file closedTokens).errors = [] ∧
    (Program.ofTokens .interactive closedTokens).errors = [] ∧
      (Program.ofTokens .interactive closedTokens).statements =
        (Program.ofTokens .file closedTokens).statements :=
  have clean : (Program.ofTokens .file closedTokens).errors = [] := by decide +kernel
  ⟨clean, interactive_extends_file closedTokens clean⟩

/-- The converse fails at the first terminator that is left out. -/
example :
    let tokens := Scanned.tokens (scan "var a = 1")
    (Program.ofTokens .interactive tokens).errors = [] ∧
      (Program.ofTokens .file tokens).errors.map (·.expected) = [.declarationEnd] := by
  decide +kernel

end Scriptlet
