import Mathlib.Data.Nat.Count
import Scriptlet.Paint.Tokens

/-!
# Pairs among tokens

The brackets among some tokens form pairs, however badly they are nested: a closing bracket that
does not match the innermost open one closes nothing, and an opening one that nothing closes stays
open for ever.

`Brackets.waiting` lists the open brackets before a token by their places. What one token does to
this list (`Brackets.Moves`) gives which brackets are in it (`Brackets.mem_waiting`) and that below
a bracket it is as it was when the bracket was opened (`Brackets.waiting_below`). The laws of pairs
follow from these two: pairs are nested or apart, what is opened inside a pair is closed inside it,
and no bracket is in two of them.
-/

namespace Scriptlet

theorem TokenKind.closes?_of_opens {kind : TokenKind} {type : Bracket}
    (opens : kind.opens? = some type) : kind.closes? = none := by
  unfold TokenKind.opens? at opens
  split at opens
  · rfl
  · rfl
  · rfl
  · cases opens

theorem TokenKind.opens?_of_closes {kind : TokenKind} {type : Bracket}
    (closes : kind.closes? = some type) : kind.opens? = none := by
  cases opens : kind.opens? with
  | none => rfl
  | some _ =>
    rw [TokenKind.closes?_of_opens opens] at closes
    cases closes

namespace Brackets

variable {tokens : List Token} {a b d e k : Nat} {type : Bracket}

/-! ## Pairs -/

/-- The type of the pair that a token opens. -/
def opens? (tokens : List Token) (k : Nat) : Option Bracket := tokens[k]?.bind (·.kind.opens?)

/-- The type of the pair that a token closes. -/
def closes? (tokens : List Token) (k : Nat) : Option Bracket := tokens[k]?.bind (·.kind.closes?)

/-- The innermost of the open brackets, if a token closes it. -/
def closed? (tokens : List Token) (before : List Nat) (d : Nat) : Option Nat :=
  before.head?.filter fun a =>
    (closes? tokens d).isSome && decide (opens? tokens a = closes? tokens d)

/-- The brackets that are open before a token, the innermost first. -/
def waiting (tokens : List Token) : Nat → List Nat
  | 0 => []
  | k + 1 =>
    let before := waiting tokens k
    if (opens? tokens k).isSome then k :: before
    else if (closed? tokens before k).isSome then before.tail
    else before

/-- The second of two brackets closes the first. -/
def Paired (tokens : List Token) (a d : Nat) : Prop :=
  closed? tokens (waiting tokens d) d = some a

instance : DecidableRel (Paired tokens) := fun _ _ => inferInstanceAs (Decidable (_ = _))

theorem paired_iff : Paired tokens a d ↔ ∃ outer type, waiting tokens d = a :: outer ∧
    opens? tokens a = some type ∧ closes? tokens d = some type := by
  unfold Paired closed?
  rw [Option.filter_eq_some_iff, List.head?_eq_some_iff, Bool.and_eq_true, decide_eq_true_iff,
    Option.isSome_iff_exists]
  constructor
  · rintro ⟨⟨outer, top⟩, ⟨type, closes⟩, same⟩
    exact ⟨outer, type, top, same.trans closes, closes⟩
  · rintro ⟨outer, type, top, opens, closes⟩
    exact ⟨⟨outer, top⟩, ⟨type, closes⟩, opens.trans closes.symm⟩

theorem not_closes_of_opens (opens : opens? tokens k = some type) : closes? tokens k = none := by
  unfold closes?
  obtain ⟨t, here, opens⟩ := Option.bind_eq_some_iff.1 opens
  rw [here]
  exact TokenKind.closes?_of_opens opens

theorem Paired.not_opens (pair : Paired tokens a d) : opens? tokens d = none := by
  obtain ⟨_, _, -, -, closes⟩ := paired_iff.1 pair
  cases opens : opens? tokens d with
  | none => rfl
  | some _ =>
    rw [not_closes_of_opens opens] at closes
    cases closes

theorem not_paired_of_opens (opens : opens? tokens d = some type) : ¬Paired tokens a d := by
  intro pair
  rw [pair.not_opens] at opens
  cases opens

/-- What a token does to the open brackets. -/
inductive Moves (tokens : List Token) (k : Nat) : Prop
  | opened {type : Bracket} : opens? tokens k = some type →
      waiting tokens (k + 1) = k :: waiting tokens k → Moves tokens k
  | closed {a : Nat} {outer : List Nat} : Paired tokens a k → waiting tokens k = a :: outer →
      waiting tokens (k + 1) = outer → Moves tokens k
  | passed : opens? tokens k = none → (∀ a, ¬Paired tokens a k) →
      waiting tokens (k + 1) = waiting tokens k → Moves tokens k

theorem moves (tokens : List Token) (k : Nat) : Moves tokens k := by
  cases opens : opens? tokens k with
  | some type =>
    refine .opened opens ?_
    rw [waiting, opens]
    rfl
  | none =>
    cases closes : closed? tokens (waiting tokens k) k with
    | some a =>
      obtain ⟨outer, _, top, -, -⟩ := paired_iff.1 closes
      refine .closed closes top ?_
      rw [waiting, opens, closes, top]
      rfl
    | none =>
      refine .passed opens (fun a pair => ?_) ?_
      · rw [Paired, closes] at pair
        cases pair
      · rw [waiting, opens, closes]
        rfl

/-! ## Open brackets -/

theorem lt_of_mem_waiting (mem : a ∈ waiting tokens k) : a < k := by
  induction k with
  | zero => cases mem
  | succ k ih =>
    cases moves tokens k with
    | opened _ after =>
      rw [after] at mem
      rcases List.mem_cons.1 mem with rfl | mem
      · exact Nat.lt_succ_self a
      · exact Nat.lt_succ_of_lt (ih mem)
    | closed _ top after =>
      rw [after] at mem
      exact Nat.lt_succ_of_lt (ih (top ▸ List.mem_cons_of_mem _ mem))
    | passed _ _ after =>
      rw [after] at mem
      exact Nat.lt_succ_of_lt (ih mem)

/-- Later brackets are further inside. -/
theorem waiting_descending (tokens : List Token) (k : Nat) :
    (waiting tokens k).Pairwise (· > ·) := by
  induction k with
  | zero => exact .nil
  | succ k ih =>
    cases moves tokens k with
    | opened _ after =>
      rw [after]
      exact .cons (fun a mem => lt_of_mem_waiting mem) ih
    | closed _ top after =>
      rw [after]
      rw [top] at ih
      exact ih.of_cons
    | passed _ _ after => rwa [after]

theorem Paired.mem_waiting (pair : Paired tokens a d) : a ∈ waiting tokens d := by
  obtain ⟨outer, _, top, -, -⟩ := paired_iff.1 pair
  rw [top]
  exact List.mem_cons_self

theorem Paired.lt (pair : Paired tokens a d) : a < d := lt_of_mem_waiting pair.mem_waiting

theorem Paired.opener_unique (pair : Paired tokens a d) (pair' : Paired tokens b d) : a = b :=
  Option.some.inj (pair.symm.trans pair')

/-- A closing bracket takes away the one it is paired with. -/
theorem mem_outer {outer : List Nat} (pair : Paired tokens b k)
    (shape : waiting tokens k = b :: outer) :
    a ∈ outer ↔ a ∈ waiting tokens k ∧ ¬Paired tokens a k := by
  have order := waiting_descending tokens k
  rw [shape] at order
  rw [shape, List.mem_cons]
  constructor
  · intro mem
    refine ⟨.inr mem, fun pair' => ?_⟩
    obtain rfl := pair.opener_unique pair'
    exact Nat.lt_irrefl b (List.rel_of_pairwise_cons order mem)
  · rintro ⟨rfl | mem, unpaired⟩
    · exact absurd pair unpaired
    · exact mem

/-- The open brackets before a token are those opened before it that were not closed by then. -/
theorem mem_waiting : a ∈ waiting tokens k ↔
    a < k ∧ (opens? tokens a).isSome ∧ ∀ d < k, ¬Paired tokens a d := by
  induction k with
  | zero => simp [waiting]
  | succ k ih =>
    have earlier : (∀ d < k + 1, ¬Paired tokens a d) ↔
        (∀ d < k, ¬Paired tokens a d) ∧ ¬Paired tokens a k := Nat.forall_lt_succ_right
    rw [earlier, Nat.lt_succ_iff_lt_or_eq]
    -- nothing else than the token `k` itself can make a difference
    cases moves tokens k with
    | opened opens after =>
      rw [after, List.mem_cons, ih]
      constructor
      · rintro (rfl | ⟨before, opens', unclosed⟩)
        · have unclosed (d : Nat) (before : d < a) : ¬Paired tokens a d := by
            intro pair
            exact Nat.lt_asymm before pair.lt
          exact ⟨.inr rfl, opens ▸ rfl, unclosed, not_paired_of_opens opens⟩
        · exact ⟨.inl before, opens', unclosed, not_paired_of_opens opens⟩
      · rintro ⟨before | same, opens', unclosed, -⟩
        · exact .inr ⟨before, opens', unclosed⟩
        · exact .inl same
    | closed pair shape after =>
      rw [after, mem_outer pair shape, ih]
      constructor
      · rintro ⟨⟨before, opens, unclosed⟩, other⟩
        exact ⟨.inl before, opens, unclosed, other⟩
      · rintro ⟨before | rfl, opens, unclosed, other⟩
        · exact ⟨⟨before, opens, unclosed⟩, other⟩
        · rw [pair.not_opens] at opens
          cases opens
    | passed no unpaired after =>
      rw [after, ih]
      constructor
      · rintro ⟨before, opens, unclosed⟩
        exact ⟨.inl before, opens, unclosed, unpaired a⟩
      · rintro ⟨before | rfl, opens, unclosed, -⟩
        · exact ⟨before, opens, unclosed⟩
        · rw [no] at opens
          cases opens

/-- Below an open bracket, the open brackets are those from when it was opened. -/
theorem waiting_below {l outer : List Nat} (shape : waiting tokens k = l ++ a :: outer) :
    outer = waiting tokens a := by
  induction k generalizing l with
  | zero => cases l <;> cases shape
  | succ k ih =>
    cases moves tokens k with
    | opened _ after =>
      rw [after] at shape
      cases l with
      | nil =>
        obtain ⟨rfl, rfl⟩ := List.cons.inj shape
        rfl
      | cons _ l => exact ih (List.cons.inj shape).2
    | @closed top _ _ before after =>
      refine ih (l := top :: l) ?_
      rw [before, ← after, shape]
      rfl
    | passed _ _ after =>
      rw [after] at shape
      exact ih shape

/-! ## Laws of pairs -/

namespace Paired

/-- Inside a pair are the open brackets from when it was opened. -/
theorem waiting_eq (pair : Paired tokens a d) : waiting tokens d = a :: waiting tokens a := by
  obtain ⟨outer, _, top, -, -⟩ := paired_iff.1 pair
  rw [top, waiting_below (l := []) top]

theorem closer_unique (pair : Paired tokens a d) (pair' : Paired tokens a e) : d = e := by
  have first {d e : Nat} (pair : Paired tokens a d) (pair' : Paired tokens a e) : ¬d < e := by
    intro before
    exact (Brackets.mem_waiting.1 pair'.mem_waiting).2.2 d before pair
  exact Nat.le_antisymm (Nat.not_lt.1 (first pair' pair)) (Nat.not_lt.1 (first pair pair'))

/-- What is opened inside a pair is closed inside it. -/
theorem inside (pair : Paired tokens a d) (after : a < b) (before : b < d)
    (opens : (opens? tokens b).isSome) : ∃ e < d, Paired tokens b e := by
  have closed : b ∉ waiting tokens d := by
    rw [pair.waiting_eq]
    intro mem
    rcases List.mem_cons.1 mem with rfl | mem
    · exact Nat.lt_irrefl b after
    · exact Nat.lt_asymm after (lt_of_mem_waiting mem)
  by_contra none
  push Not at none
  exact closed (Brackets.mem_waiting.2 ⟨before, opens, none⟩)

theorem opens (pair : Paired tokens a d) : (opens? tokens a).isSome := by
  obtain ⟨_, _, -, opens, -⟩ := paired_iff.1 pair
  exact opens ▸ rfl

/-- Two pairs stand apart or one inside the other. -/
theorem nested (pair : Paired tokens a d) (pair' : Paired tokens b e) (after : a < b) :
    d < b ∨ e < d := by
  rcases Nat.lt_trichotomy b d with before | rfl | behind
  · obtain ⟨e', inside, pair''⟩ := pair.inside after before pair'.opens
    rw [pair'.closer_unique pair'']
    exact .inr inside
  · have opens := pair'.opens
    rw [pair.not_opens] at opens
    cases opens
  · exact .inl behind

/-- No bracket is in two pairs. -/
theorem once (pair : Paired tokens a d) (pair' : Paired tokens b e) (one : k = a ∨ k = d)
    (other : k = b ∨ k = e) : a = b ∧ d = e := by
  rcases one with rfl | rfl <;> rcases other with rfl | rfl
  · exact ⟨rfl, pair.closer_unique pair'⟩
  · have opens := pair.opens
    rw [pair'.not_opens] at opens
    cases opens
  · have opens := pair'.opens
    rw [pair.not_opens] at opens
    cases opens
  · exact ⟨pair.opener_unique pair', rfl⟩

end Paired

/-- There are as many open brackets as were opened before and not closed by then. -/
theorem length_waiting (tokens : List Token) (k : Nat) : (waiting tokens k).length =
    Nat.count (fun b => (opens? tokens b).isSome = true ∧ ∀ d < k, ¬Paired tokens b d) k := by
  have distinct : (waiting tokens k).Nodup := (waiting_descending tokens k).imp Nat.ne_of_gt
  rw [Nat.count_eq_card_filter_range, ← List.toFinset_card_of_nodup distinct]
  congr 1
  ext b
  rw [List.mem_toFinset, mem_waiting, Finset.mem_filter, Finset.mem_range]

/-! ## Counting -/

/-- How many brackets are opened before a token. -/
def openedBefore (tokens : List Token) (k : Nat) : Nat :=
  (tokens.take k).countP (·.kind.opens?.isSome)

/-- How many brackets are closed before a token. -/
def closedBefore (tokens : List Token) (k : Nat) : Nat :=
  (tokens.take k).countP (·.kind.closes?.isSome)

/-- The nesting depth of a bracket: the brackets opened before it, less those closed up to it. -/
def depth (tokens : List Token) (k : Nat) : Nat :=
  openedBefore tokens k - closedBefore tokens (k + 1)

/-- A closing bracket that does not match the innermost open one. -/
def Ignored (tokens : List Token) (d : Nat) : Prop :=
  (closes? tokens d).isSome = true ∧ closed? tokens (waiting tokens d) d = none

instance : DecidablePred (Ignored tokens) := fun _ => inferInstanceAs (Decidable (_ ∧ _))

theorem openedBefore_succ (tokens : List Token) (k : Nat) : openedBefore tokens (k + 1) =
    openedBefore tokens k + if (opens? tokens k).isSome then 1 else 0 := by
  rw [openedBefore, List.take_add_one, List.countP_append]
  cases here : tokens[k]? with
  | none => simp [opens?, here, openedBefore]
  | some t => simp [opens?, here, openedBefore, List.countP_cons]

theorem closedBefore_succ (tokens : List Token) (k : Nat) : closedBefore tokens (k + 1) =
    closedBefore tokens k + if (closes? tokens k).isSome then 1 else 0 := by
  rw [closedBefore, List.take_add_one, List.countP_append]
  cases here : tokens[k]? with
  | none => simp [closes?, here, closedBefore]
  | some t => simp [closes?, here, closedBefore, List.countP_cons]

/-- What was opened is open, or was closed by one of the closing brackets that were not ignored. -/
theorem length_waiting_add_closedBefore (tokens : List Token) (k : Nat) :
    (waiting tokens k).length + closedBefore tokens k =
      openedBefore tokens k + Nat.count (Ignored tokens) k := by
  induction k with
  | zero => rfl
  | succ k ih =>
    rw [openedBefore_succ, closedBefore_succ, Nat.count_succ]
    cases moves tokens k with
    | opened opens after =>
      have heeded : ¬Ignored tokens k := by
        rintro ⟨closes, -⟩
        rw [not_closes_of_opens opens] at closes
        cases closes
      rw [after, opens, not_closes_of_opens opens, if_neg heeded, List.length_cons]
      simp only [Option.isSome_some, Option.isSome_none, if_true, Bool.false_eq_true, if_false]
      omega
    | closed pair shape after =>
      have heeded : ¬Ignored tokens k := by
        rintro ⟨-, closed⟩
        rw [Paired, closed] at pair
        cases pair
      obtain ⟨_, type, -, -, closes⟩ := paired_iff.1 pair
      rw [shape, List.length_cons] at ih
      rw [after, pair.not_opens, closes, if_neg heeded]
      simp only [Option.isSome_some, Option.isSome_none, if_true, Bool.false_eq_true, if_false]
      omega
    | passed no unpaired after =>
      have unclosed : closed? tokens (waiting tokens k) k = none :=
        Option.eq_none_iff_forall_ne_some.2 unpaired
      rw [after, no]
      simp only [Ignored, unclosed, and_true, Option.isSome_none, Bool.false_eq_true, if_false]
      omega

end Brackets
end Scriptlet
