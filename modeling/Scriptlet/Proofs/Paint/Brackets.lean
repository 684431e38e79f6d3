import Scriptlet.Proofs.Paint.Exact
import Scriptlet.Proofs.Paint.Pairs

/-!
# Coloured brackets

The brackets that are shown are those in pairs (`brackets_coloured_in_pairs`). Token by token, the
colouring holds the same brackets open as `Brackets.waiting` lists (`Brackets.openAfter_stands`), so
its tags are those of the pairs (`Brackets.mem_tokenTags`). In a balanced sequence no closing
bracket is ignored (`Brackets.Balanced.unignored`), as it closes as many brackets as it opens.
-/

namespace Scriptlet

theorem TokenKind.highlight?_of_isBracket {kind : TokenKind} (bracket : kind.isBracket = true) :
    kind.highlight? = none := by
  cases kind <;> first | rfl | cases bracket

theorem TokenKind.isBracket_highlight {kind : TokenKind} {h : Highlight}
    (own : kind.highlight? = some h) : h.isBracket = false := by
  cases kind <;> cases own <;> rfl

namespace Brackets

variable {tokens : List Token} {a b d e k : Nat} {type : Bracket}

/-! ## Tags of pairs -/

section
variable {t : Token} {stack : List OpenBracket}

/-- An open bracket stands at a place among the tokens. -/
def Stands (tokens : List Token) (a : Nat) (b : OpenBracket) : Prop :=
  ∃ t, tokens[a]? = some t ∧ t.kind.opens? = some b.type ∧ t.span = b.span

/-- The tag that the token `k` has as an end of the pair that `a` opens. -/
def EndTag (tokens : List Token) (a k : Nat) (tag : Tag) : Prop :=
  ∃ t, tokens[k]? = some t ∧ tag = ⟨t.span, .ofDepth (waiting tokens a).length⟩

theorem endTag_iff (there : tokens[k]? = some t) {tag : Tag} :
    EndTag tokens a k tag ↔ tag = ⟨t.span, .ofDepth (waiting tokens a).length⟩ := by
  simp [EndTag, there]

/-- The brackets that are open after some tokens. -/
def openAfter (stack : List OpenBracket) (tokens : List Token) : List OpenBracket :=
  tokens.foldl (fun stack t => (bracketStep stack t).2) stack

theorem opens?_of_getElem? (here : tokens[k]? = some t) : opens? tokens k = t.kind.opens? := by
  rw [opens?, here]
  rfl

theorem closes?_of_getElem? (here : tokens[k]? = some t) : closes? tokens k = t.kind.closes? := by
  rw [closes?, here]
  rfl

theorem bracketStep_of_opens (opens : t.kind.opens? = some type) :
    bracketStep stack t = ([], ⟨type, t.span⟩ :: stack) := by
  simp only [bracketStep, opens]

theorem bracketStep_of_matches {top : OpenBracket} (no : t.kind.opens? = none)
    (closes : t.kind.closes? = some top.type) : bracketStep (top :: stack) t =
      ([⟨top.span, .ofDepth stack.length⟩, ⟨t.span, .ofDepth stack.length⟩], stack) := by
  simp only [bracketStep, no, closes, if_pos]

theorem bracketStep_of_ignored (no : t.kind.opens? = none)
    (ignored : ∀ top outer, stack = top :: outer → t.kind.closes? ≠ some top.type) :
    bracketStep stack t = ([], stack) := by
  unfold bracketStep
  cases closes : t.kind.closes? with
  | none => rw [no]
  | some type =>
    rw [no]
    cases stack with
    | nil => rfl
    | cons top outer =>
      have other : top.type ≠ type := by
        rintro rfl
        exact ignored top outer rfl closes
      exact if_neg other

theorem Stands.opens?_eq {b : OpenBracket} (stands : Stands tokens a b) :
    opens? tokens a = some b.type := by
  obtain ⟨t, there, opens, -⟩ := stands
  exact (opens?_of_getElem? there).trans opens

section
variable (held : List.Forall₂ (Stands tokens) (waiting tokens k) stack) (here : tokens[k]? = some t)
include held here

/-- The second end of a pair tags both ends with the number of brackets around them. -/
theorem bracketStep_of_paired (pair : Paired tokens a k) : ∃ top outer, Stands tokens a top ∧
    List.Forall₂ (Stands tokens) (waiting tokens a) outer ∧ bracketStep stack t =
      ([⟨top.span, .ofDepth (waiting tokens a).length⟩,
        ⟨t.span, .ofDepth (waiting tokens a).length⟩], outer) := by
  rw [pair.waiting_eq] at held
  obtain ⟨top, outer, first, others, rfl⟩ := List.forall₂_cons_left_iff.1 held
  obtain ⟨_, type, -, opens, closes⟩ := paired_iff.1 pair
  have same : some type = some top.type := opens.symm.trans first.opens?_eq
  have matched : t.kind.closes? = some top.type :=
    (closes?_of_getElem? here).symm.trans (closes.trans same)
  have no : t.kind.opens? = none := TokenKind.opens?_of_closes matched
  refine ⟨top, outer, first, others, ?_⟩
  rw [bracketStep_of_matches no matched, others.length_eq]

/-- A token that opens nothing and is in no pair does nothing. -/
theorem bracketStep_of_unpaired (no : opens? tokens k = none) (unpaired : ∀ a, ¬Paired tokens a k) :
    bracketStep stack t = ([], stack) := by
  refine bracketStep_of_ignored ((opens?_of_getElem? here).symm.trans no) ?_
  rintro top rest rfl closes
  obtain ⟨a, outer, first, -, shape⟩ := List.forall₂_cons_right_iff.1 held
  exact unpaired a (paired_iff.2 ⟨outer, top.type, shape, first.opens?_eq,
    (closes?_of_getElem? here).trans closes⟩)

/-- One token keeps the open brackets in their places, and tags both ends of the pair it closes. -/
theorem bracketStep_stands :
    List.Forall₂ (Stands tokens) (waiting tokens (k + 1)) (bracketStep stack t).2 ∧
    ∀ tag, tag ∈ (bracketStep stack t).1 ↔
      ∃ a, Paired tokens a k ∧ (EndTag tokens a a tag ∨ EndTag tokens a k tag) := by
  have untagged (unpaired : ∀ a, ¬Paired tokens a k) (tag : Tag) : tag ∈ ([] : List Tag) ↔
      ∃ a, Paired tokens a k ∧ (EndTag tokens a a tag ∨ EndTag tokens a k tag) := by
    refine ⟨fun mem => absurd mem List.not_mem_nil, ?_⟩
    rintro ⟨a, pair, -⟩
    exact absurd pair (unpaired a)
  cases moves tokens k with
  | @opened type opens after =>
    have opens' : t.kind.opens? = some type := (opens?_of_getElem? here).symm.trans opens
    rw [bracketStep_of_opens opens', after]
    exact ⟨.cons ⟨t, here, opens', rfl⟩ held, untagged fun a => not_paired_of_opens opens⟩
  | @closed a outer pair shape after =>
    obtain ⟨top, rest, ⟨u, there, -, span⟩, others, step⟩ := bracketStep_of_paired held here pair
    have below : outer = waiting tokens a := waiting_below (l := []) shape
    rw [step, after, below]
    refine ⟨others, fun tag => ?_⟩
    rw [List.mem_cons, List.mem_singleton, ← span, ← endTag_iff there, ← endTag_iff here]
    constructor
    · exact fun ends => ⟨a, pair, ends⟩
    · rintro ⟨a', pair', ends⟩
      obtain rfl := pair.opener_unique pair'
      exact ends
  | passed no unpaired after =>
    rw [bracketStep_of_unpaired held here no unpaired, after]
    exact ⟨held, untagged unpaired⟩

end

theorem openAfter_take_succ (here : tokens[k]? = some t) : openAfter stack (tokens.take (k + 1)) =
    (bracketStep (openAfter stack (tokens.take k)) t).2 := by
  rw [List.take_add_one, here, openAfter, List.foldl_append]
  rfl

theorem tokenTagsFrom_append (stack : List OpenBracket) (ts us : List Token) :
    tokenTagsFrom stack (ts ++ us) =
      tokenTagsFrom stack ts ++ tokenTagsFrom (openAfter stack ts) us := by
  induction ts generalizing stack with
  | nil => rfl
  | cons t rest ih =>
    simp only [List.cons_append, tokenTagsFrom, ih, List.append_assoc]
    rfl

/-- All along the tokens, the open brackets are in their places. -/
theorem openAfter_stands (before : k ≤ tokens.length) :
    List.Forall₂ (Stands tokens) (waiting tokens k) (openAfter [] (tokens.take k)) := by
  induction k with
  | zero => exact .nil
  | succ k ih =>
    have here : tokens[k]? = some tokens[k] := List.getElem?_eq_getElem before
    rw [openAfter_take_succ here]
    exact (bracketStep_stands (ih (Nat.le_of_lt before)) here).1

/-- The tags before a token are those of single tokens and those of the pairs that are closed. -/
theorem mem_tokenTags_take (before : k ≤ tokens.length) (tag : Tag) :
    tag ∈ tokenTags (tokens.take k) ↔
      (∃ t ∈ tokens.take k, t.kind.highlight? = some tag.highlight ∧ tag.span = t.span) ∨
      ∃ a, ∃ d < k, Paired tokens a d ∧ (EndTag tokens a a tag ∨ EndTag tokens a d tag) := by
  induction k with
  | zero => simp [tokenTags, tokenTagsFrom]
  | succ k ih =>
    have here : tokens[k]? = some tokens[k] := List.getElem?_eq_getElem before
    have own (t : Token) : tag ∈ (t.kind.highlight?.map (Tag.mk t.span)).toList ↔
        t.kind.highlight? = some tag.highlight ∧ tag.span = t.span := by
      rw [Option.mem_toList, Option.map_eq_some_iff]
      constructor
      · rintro ⟨h, shown, rfl⟩
        exact ⟨shown, rfl⟩
      · rintro ⟨shown, span⟩
        exact ⟨tag.highlight, shown, span ▸ rfl⟩
    have step := (bracketStep_stands (openAfter_stands (Nat.le_of_lt before)) here).2 tag
    have shape : tokenTags (tokens.take (k + 1)) = tokenTags (tokens.take k) ++
        ((tokens[k].kind.highlight?.map (Tag.mk tokens[k].span)).toList ++
          (bracketStep (openAfter [] (tokens.take k)) tokens[k]).1 ++ []) := by
      rw [List.take_add_one, here, tokenTags, tokenTagsFrom_append]
      rfl
    rw [shape, List.append_nil, List.mem_append, List.mem_append, ih (Nat.le_of_lt before), own,
      step, List.take_add_one, here]
    simp only [Option.toList_some, List.mem_append, List.mem_singleton, Nat.lt_succ_iff_lt_or_eq]
    constructor
    · rintro ((⟨t, mem, shown⟩ | ⟨a, d, early, rest⟩) | shown | ⟨a, rest⟩)
      · exact .inl ⟨t, .inl mem, shown⟩
      · exact .inr ⟨a, d, .inl early, rest⟩
      · exact .inl ⟨_, .inr rfl, shown⟩
      · exact .inr ⟨a, k, .inr rfl, rest⟩
    · rintro (⟨t, mem | rfl, shown⟩ | ⟨a, d, early | rfl, rest⟩)
      · exact .inl (.inl ⟨t, mem, shown⟩)
      · exact .inr (.inl shown)
      · exact .inl (.inr ⟨a, d, early, rest⟩)
      · exact .inr (.inr ⟨a, rest⟩)

/-- The tags of tokens are those of single tokens and those of pairs. -/
theorem mem_tokenTags (tag : Tag) : tag ∈ tokenTags tokens ↔
    (∃ t ∈ tokens, t.kind.highlight? = some tag.highlight ∧ tag.span = t.span) ∨
    ∃ a d k, Paired tokens a d ∧ (k = a ∨ k = d) ∧ EndTag tokens a k tag := by
  have whole := mem_tokenTags_take (Nat.le_refl tokens.length) tag
  rw [List.take_length] at whole
  rw [whole]
  refine or_congr_right ⟨?_, ?_⟩
  · rintro ⟨a, d, -, pair, opener | closer⟩
    · exact ⟨a, d, a, pair, .inl rfl, opener⟩
    · exact ⟨a, d, d, pair, .inr rfl, closer⟩
  · rintro ⟨a, d, k, pair, place, ends⟩
    obtain ⟨_, type, -, -, closes⟩ := paired_iff.1 pair
    obtain ⟨t, there, -⟩ := Option.bind_eq_some_iff.1 closes
    refine ⟨a, d, (List.getElem?_eq_some_iff.1 there).1, pair, ?_⟩
    rcases place with rfl | rfl
    · exact .inl ends
    · exact .inr ends

end

/-! ## Colours -/

/-- All characters of a token are shown in one way. -/
def Shows (tokens : List Token) (o : Overlay) (k : Nat) (h : Highlight) : Prop :=
  ∀ t, tokens[k]? = some t → ∀ i, t.span.contains i = true → i < o.length → o.get i = h

/-- Whether a token is a bracket. -/
def isBracket (tokens : List Token) (k : Nat) : Bool := tokens[k]?.any (·.kind.isBracket)

/-- Characters with a colour are those of brackets in pairs. -/
theorem pair_of_colour {n i : Nat}
    (colour : (((Overlay.blank n).tagAll (tokenTags tokens)).get i).isBracket = true) :
    ∃ a d k t, Paired tokens a d ∧ (k = a ∨ k = d) ∧ tokens[k]? = some t ∧
      t.span.contains i = true := by
  rcases Nat.lt_or_ge i (Overlay.blank n).length with below | beyond
  · rw [Overlay.get_tagAll _ _ below] at colour
    cases last : lastTag (tokenTags tokens) i with
    | none =>
      rw [last, Option.map_none, Option.getD_none, Overlay.get_blank] at colour
      cases colour
    | some tag =>
      obtain ⟨tagged, contained⟩ := lastTag_eq_some last
      rw [last] at colour
      rcases (mem_tokenTags tag).1 tagged with
        ⟨t, -, own, -⟩ | ⟨a, d, k, pair, place, t, there, rfl⟩
      · have plain := TokenKind.isBracket_highlight own
        rw [show tag.highlight.isBracket = true from colour] at plain
        cases plain
      · exact ⟨a, d, k, t, pair, place, there, contained⟩
  · rw [Overlay.get_of_length_le (by rwa [Overlay.length_tagAll])] at colour
    cases colour

section
variable (apart : tokens.Pairwise fun t u => t.span.Apart u.span)
include apart

/-- A character is in one token only. -/
theorem place_unique {t u : Token} {i : Nat} (there : tokens[a]? = some t)
    (there' : tokens[b]? = some u) (inside : t.span.contains i = true)
    (inside' : u.span.contains i = true) : a = b := by
  obtain ⟨below, rfl⟩ := List.getElem?_eq_some_iff.1 there
  obtain ⟨below', rfl⟩ := List.getElem?_eq_some_iff.1 there'
  have order := List.pairwise_iff_getElem.1 apart
  rcases Nat.lt_trichotomy a b with before | same | behind
  · rw [order a b below below' before i inside] at inside'
    cases inside'
  · exact same
  · rw [order b a below' below behind i inside'] at inside
    cases inside

/-- The tags on a bracket are those of the pairs it is in. -/
theorem tag_on_bracket {t : Token} {i : Nat} (here : tokens[k]? = some t)
    (bracket : t.kind.isBracket = true) (inside : t.span.contains i = true) {tag : Tag}
    (tagged : tag ∈ tokenTags tokens) (contained : tag.span.contains i = true) :
    ∃ a d, Paired tokens a d ∧ (k = a ∨ k = d) ∧
      tag.highlight = .ofDepth (waiting tokens a).length := by
  rcases (mem_tokenTags tag).1 tagged with
    ⟨u, mem, own, same⟩ | ⟨a, d, j, pair, place, u, there, rfl⟩
  · obtain ⟨j, there⟩ := List.mem_iff_getElem?.1 mem
    obtain rfl := place_unique apart here there inside (same ▸ contained)
    rw [here] at there
    cases there
    rw [TokenKind.highlight?_of_isBracket bracket] at own
    cases own
  · obtain rfl := place_unique apart here there inside contained
    exact ⟨a, d, pair, place, rfl⟩

/-- Both ends of a pair are shown with the number of brackets that were open before it. -/
theorem shows_pair (n : Nat) (pair : Paired tokens a d) (place : k = a ∨ k = d) :
    Shows tokens ((Overlay.blank n).tagAll (tokenTags tokens)) k
      (.ofDepth (waiting tokens a).length) := by
  intro t here i inside below
  rw [Overlay.length_tagAll] at below
  rw [Overlay.get_tagAll _ _ below]
  have bracket : t.kind.isBracket = true := by
    obtain ⟨_, type, -, opens, closes⟩ := paired_iff.1 pair
    rcases place with rfl | rfl
    · rw [opens?_of_getElem? here] at opens
      simp [TokenKind.isBracket, opens]
    · rw [closes?_of_getElem? here] at closes
      simp [TokenKind.isBracket, closes]
  cases last : lastTag (tokenTags tokens) i with
  | none =>
    have own := (mem_tokenTags _).2 (.inr ⟨a, d, k, pair, place, t, here, rfl⟩)
    have untagged := lastTag_eq_none.1 last _ own
    rw [inside] at untagged
    cases untagged
  | some tag =>
    obtain ⟨tagged, contained⟩ := lastTag_eq_some last
    obtain ⟨a', d', pair', place', shown⟩ :=
      tag_on_bracket apart here bracket inside tagged contained
    obtain ⟨rfl, rfl⟩ := pair.once pair' place place'
    exact shown

/-- A bracket in no pair is not shown. -/
theorem shows_none (n : Nat) (bracket : isBracket tokens k = true)
    (unpaired : ∀ a d, Paired tokens a d → ¬(k = a ∨ k = d)) :
    Shows tokens ((Overlay.blank n).tagAll (tokenTags tokens)) k .none := by
  intro t here i inside below
  rw [isBracket, here, Option.any_some] at bracket
  have untagged : lastTag (tokenTags tokens) i = none := by
    refine lastTag_eq_none.2 fun tag tagged => Bool.eq_false_iff.2 fun contained => ?_
    obtain ⟨a, d, pair, place, -⟩ := tag_on_bracket apart here bracket inside tagged contained
    exact unpaired a d pair place
  rw [Overlay.length_tagAll] at below
  rw [Overlay.get_tagAll _ _ below, untagged]
  exact Overlay.get_blank n i

end

/-! ## Balanced brackets -/

/-- Sequences in which all brackets are closed, each by one of its type. -/
inductive Balanced : List Token → Prop
  | nil : Balanced []
  | pair {opener closer : Token} {type : Bracket} {inner rest : List Token} :
      opener.kind.opens? = some type → closer.kind.closes? = some type →
      Balanced inner → Balanced rest → Balanced (opener :: (inner ++ closer :: rest))

namespace Balanced

variable {ts : List Token}

/-- A balanced sequence leaves the open brackets as they were. -/
theorem openAfter_eq (balanced : Balanced ts) (stack : List OpenBracket) :
    openAfter stack ts = stack := by
  induction balanced generalizing stack with
  | nil => rfl
  | @pair opener closer type inner rest opens closes _ _ ihInner ihRest =>
    let top : OpenBracket := ⟨type, opener.span⟩
    have no := TokenKind.opens?_of_closes closes
    have matched : closer.kind.closes? = some top.type := closes
    calc openAfter stack (opener :: (inner ++ closer :: rest))
        = openAfter (top :: stack) (inner ++ closer :: rest) := by
          rw [openAfter, List.foldl_cons, bracketStep_of_opens opens, openAfter]
      _ = openAfter (openAfter (top :: stack) inner) (closer :: rest) := List.foldl_append
      _ = openAfter (top :: stack) (closer :: rest) := by rw [ihInner]
      _ = openAfter stack rest := by
          rw [openAfter, List.foldl_cons, bracketStep_of_matches no matched, openAfter]
      _ = stack := ihRest stack

/-- It closes as many brackets as it opens. -/
theorem countP_eq (balanced : Balanced ts) :
    ts.countP (·.kind.closes?.isSome) = ts.countP (·.kind.opens?.isSome) := by
  induction balanced with
  | nil => rfl
  | @pair opener closer type inner rest opens closes _ _ ihInner ihRest =>
    simp only [List.countP_cons, List.countP_append, opens, closes,
      TokenKind.opens?_of_closes closes, TokenKind.closes?_of_opens opens, ihInner, ihRest,
      Option.isSome_some, Option.isSome_none, if_true, Bool.false_eq_true, if_false]
    omega

variable (balanced : Balanced (tokens.filter (·.kind.isBracket)))
include balanced

/-- After all tokens nothing is open. -/
theorem waiting_eq_nil : waiting tokens tokens.length = [] := by
  have others : openAfter [] (tokens.filter (·.kind.isBracket)) = openAfter [] tokens := by
    rw [openAfter, openAfter, List.foldl_filter]
    congr 1
    funext stack t
    split
    · rfl
    · next other =>
      rw [TokenKind.isBracket, Bool.or_eq_true, not_or, Option.not_isSome_iff_eq_none,
        Option.not_isSome_iff_eq_none] at other
      rw [bracketStep_of_ignored other.1]
      intro top outer _
      rw [other.2]
      exact Option.some_ne_none _ |>.symm
  have held := openAfter_stands (Nat.le_refl tokens.length)
  rw [List.take_length, ← others, balanced.openAfter_eq] at held
  exact List.forall₂_nil_right_iff.1 held

/-- No closing bracket is ignored. -/
theorem unignored (below : k ≤ tokens.length) : Nat.count (Ignored tokens) k = 0 := by
  have closing : closedBefore tokens tokens.length =
      (tokens.filter (·.kind.isBracket)).countP (·.kind.closes?.isSome) := by
    rw [closedBefore, List.take_length, List.countP_filter]
    exact List.countP_congr fun t _ => by simp +contextual [TokenKind.isBracket]
  have opening : openedBefore tokens tokens.length =
      (tokens.filter (·.kind.isBracket)).countP (·.kind.opens?.isSome) := by
    rw [openedBefore, List.take_length, List.countP_filter]
    exact List.countP_congr fun t _ => by simp +contextual [TokenKind.isBracket]
  have conserved := length_waiting_add_closedBefore tokens tokens.length
  rw [balanced.waiting_eq_nil, closing, opening, balanced.countP_eq, List.length_nil] at conserved
  have fewer := Nat.count_monotone (Ignored tokens) below
  omega

/-- Every bracket is in a pair, and as many brackets are open before it as it is deep. -/
theorem paired (bracket : isBracket tokens k = true) : ∃ a d, Paired tokens a d ∧
    (k = a ∨ k = d) ∧ (waiting tokens a).length = depth tokens k := by
  obtain ⟨t, here, bracket⟩ := (Option.any_eq_true _ _).1 bracket
  have below : k < tokens.length := (List.getElem?_eq_some_iff.1 here).1
  have conserved := length_waiting_add_closedBefore tokens k
  rw [balanced.unignored (Nat.le_of_lt below)] at conserved
  rw [depth, closedBefore_succ]
  rw [TokenKind.isBracket, Bool.or_eq_true, ← opens?_of_getElem? here,
    ← closes?_of_getElem? here] at bracket
  rcases bracket with opens | closes
  · -- nothing is open in the end, so the bracket was closed
    have closed : ∃ d, Paired tokens k d := by
      by_contra unclosed
      push Not at unclosed
      have mem : k ∈ waiting tokens tokens.length :=
        mem_waiting.2 ⟨below, opens, fun d _ => unclosed d⟩
      rw [balanced.waiting_eq_nil] at mem
      cases mem
    obtain ⟨d, pair⟩ := closed
    obtain ⟨type, opens⟩ := Option.isSome_iff_exists.1 opens
    refine ⟨k, d, pair, .inl rfl, ?_⟩
    rw [not_closes_of_opens opens]
    simp only [Option.isSome_none, Bool.false_eq_true, if_false]
    omega
  · have heeded := balanced.unignored below
    rw [Nat.count_succ] at heeded
    cases closed : closed? tokens (waiting tokens k) k with
    | none =>
      rw [if_pos ⟨closes, closed⟩] at heeded
      omega
    | some a =>
      have pair : Paired tokens a k := closed
      rw [pair.waiting_eq, List.length_cons] at conserved
      refine ⟨a, k, pair, .inr rfl, ?_⟩
      rw [closes, if_pos rfl]
      omega

end Balanced

/-! ## The colouring -/

/-- An overlay shows the brackets among some tokens in pairs. -/
structure ColouredInPairs (tokens : List Token) (Pair : Nat → Nat → Prop) [DecidableRel Pair]
    (o : Overlay) : Prop where
  /-- A bracket and a later one of the same type that closes. -/
  ends {a d : Nat} : Pair a d →
    a < d ∧ ∃ type, opens? tokens a = some type ∧ closes? tokens d = some type
  /-- Of two pairs, one ends before the other or is inside it. -/
  nested {a d b e : Nat} : Pair a d → Pair b e → a < b → d < b ∨ e < d
  /-- What is opened inside a pair is in a pair, too. -/
  inside {a d b : Nat} : Pair a d → a < b → b < d → (opens? tokens b).isSome = true →
    ∃ e < d, Pair b e
  /-- No bracket is in two pairs. -/
  once {a d b e k : Nat} : Pair a d → Pair b e → k = a ∨ k = d → k = b ∨ k = e → a = b ∧ d = e
  /-- Both ends have the colour of the number of brackets that were opened before the pair and not
  closed by then. -/
  coloured {a d k : Nat} : Pair a d → k = a ∨ k = d → Shows tokens o k (.ofDepth
    (Nat.count (fun b => (opens? tokens b).isSome = true ∧ ∀ e < a, ¬Pair b e) a))
  /-- All other brackets are not shown. -/
  plain {k : Nat} : isBracket tokens k = true → (∀ a d, Pair a d → ¬(k = a ∨ k = d)) →
    Shows tokens o k .none
  /-- All other characters have no colour. -/
  others {i : Nat} : (o.get i).isBracket = true →
    ∃ a d k t, Pair a d ∧ (k = a ∨ k = d) ∧ tokens[k]? = some t ∧ t.span.contains i = true
  /-- If the brackets are balanced, all are in pairs and have the colour of their depth. -/
  balanced {k : Nat} : Balanced (tokens.filter (·.kind.isBracket)) → isBracket tokens k = true →
    (∃ a d, Pair a d ∧ (k = a ∨ k = d)) ∧ Shows tokens o k (.ofDepth (depth tokens k))

end Brackets

/-- **Brackets are coloured in pairs.** The brackets that tokens without a common character colour
in an overlay where nothing is shown form pairs. -/
theorem brackets_coloured_in_pairs (tokens : List Token)
    (apart : tokens.Pairwise fun t u => t.span.Apart u.span) (n : Nat) :
    Brackets.ColouredInPairs tokens (Brackets.Paired tokens)
      ((Overlay.blank n).tagAll (tokenTags tokens)) where
  ends pair := by
    obtain ⟨_, type, -, opens, closes⟩ := Brackets.paired_iff.1 pair
    exact ⟨pair.lt, type, opens, closes⟩
  nested pair pair' after := pair.nested pair' after
  inside pair after before opens := pair.inside after before opens
  once pair pair' place place' := pair.once pair' place place'
  coloured {a d k} pair place := by
    rw [← Brackets.length_waiting tokens a]
    exact Brackets.shows_pair apart n pair place
  plain bracket unpaired := Brackets.shows_none apart n bracket unpaired
  others colour := Brackets.pair_of_colour colour
  balanced even bracket := by
    obtain ⟨a, d, pair, place, depth⟩ := even.paired bracket
    rw [← depth]
    exact ⟨⟨a, d, pair, place⟩, Brackets.shows_pair apart n pair place⟩

/-- In `[(])` the round brackets are a pair inside a bracket that stays open. In `([])` they are
balanced, and the square ones are a pair that is one deep. -/
theorem crossed_and_even_brackets_coloured :
    let crossed : List Token := [⟨.leftBracket, "[", 1, none, ⟨0, 1⟩⟩,
      ⟨.leftParen, "(", 1, none, ⟨1, 2⟩⟩, ⟨.rightBracket, "]", 1, none, ⟨2, 3⟩⟩,
      ⟨.rightParen, ")", 1, none, ⟨3, 4⟩⟩]
    let even : List Token := [⟨.leftParen, "(", 1, none, ⟨0, 1⟩⟩,
      ⟨.leftBracket, "[", 1, none, ⟨1, 2⟩⟩, ⟨.rightBracket, "]", 1, none, ⟨2, 3⟩⟩,
      ⟨.rightParen, ")", 1, none, ⟨3, 4⟩⟩]
    let o := (Overlay.blank 4).tagAll (tokenTags crossed)
    let o' := (Overlay.blank 4).tagAll (tokenTags even)
    Brackets.ColouredInPairs crossed (Brackets.Paired crossed) o ∧
    Brackets.Paired crossed 1 3 ∧ o.get 1 = .bracket 1 ∧ o.get 3 = .bracket 1 ∧ o.get 0 = .none ∧
    Brackets.Balanced (even.filter (·.kind.isBracket)) ∧
    Brackets.depth even 2 = 1 ∧ o'.get 2 = .bracket 1 := by
  intro crossed even o o'
  have apart : crossed.Pairwise fun t u => t.span.stop ≤ u.span.start := by decide
  have apart' : even.Pairwise fun t u => t.span.stop ≤ u.span.start := by decide
  have whole := brackets_coloured_in_pairs crossed (apart.imp Span.apart_of_stop_le) 4
  have whole' := brackets_coloured_in_pairs even (apart'.imp Span.apart_of_stop_le) 4
  have square : Brackets.Balanced [even[1], even[2]] := @Brackets.Balanced.pair _ _ .square [] []
    rfl rfl .nil .nil
  have balanced : Brackets.Balanced (even.filter (·.kind.isBracket)) :=
    @Brackets.Balanced.pair _ _ .paren [_, _] [] rfl rfl square .nil
  have round : Brackets.Paired crossed 1 3 := by decide
  have opener := whole.coloured round (.inl rfl) _ rfl 1 rfl (by decide)
  have closer := whole.coloured round (.inr rfl) _ rfl 3 rfl (by decide)
  obtain ⟨-, deep⟩ := whole'.balanced (k := 2) balanced rfl
  exact ⟨whole, round, opener, closer, by decide, balanced, rfl, deep _ rfl 2 rfl (by decide)⟩

end Scriptlet
