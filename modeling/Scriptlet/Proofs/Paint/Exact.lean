import Scriptlet.Paint
import Scriptlet.Proofs.Paint.Tags
import Scriptlet.Proofs.Reader.Spans

/-!
# Painting is exact

The last tag on a character decides how it is shown (`Overlay.get_tagAll`). All tags of a text stand
on whole tokens, and tokens do not overlap, so all characters of a token are shown in one way, which
its kind admits, and no others are shown (`tokens_painted_whole`). No token has tags from both
passes, so it makes no difference which of them comes first.
-/

namespace Scriptlet

/-! ## The last tag -/

/-- The last tag on a character. -/
def lastTag (tags : List Tag) (i : Nat) : Option Tag := (tags.filter (·.span.contains i)).getLast?

section
variable {tags tags' : List Tag} {i : Nat}

theorem lastTag_eq_some {tag : Tag} (h : lastTag tags i = some tag) :
    tag ∈ tags ∧ tag.span.contains i = true :=
  List.mem_filter.1 (List.mem_of_getLast? h)

theorem lastTag_eq_none : lastTag tags i = none ↔ ∀ tag ∈ tags, tag.span.contains i = false := by
  simp [lastTag]

theorem lastTag_cons (t : Tag) (rest : List Tag) : lastTag (t :: rest) i =
    (lastTag rest i).or (if t.span.contains i = true then some t else none) := by
  unfold lastTag
  rw [List.filter_cons]
  split
  · rw [List.getLast?_cons]
    cases (rest.filter (·.span.contains i)).getLast? <;> rfl
  · rw [Option.or_none]

/-- Tags that are not on a character may come before or after the others. -/
theorem lastTag_append_comm (apart : lastTag tags i = none ∨ lastTag tags' i = none) :
    lastTag (tags ++ tags') i = lastTag (tags' ++ tags) i := by
  unfold lastTag at *
  rw [List.filter_append, List.filter_append]
  rcases apart with none | none
  all_goals rw [List.getLast?_eq_none_iff.1 none, List.nil_append, List.append_nil]

end

namespace Overlay

variable {o o' : Overlay}

@[simp] theorem length_tagAll (o : Overlay) (tags : List Tag) :
    (o.tagAll tags).length = o.length := by
  induction tags generalizing o with
  | nil => rfl
  | cons t rest ih => exact (ih (o.tag t)).trans (length_tag o t)

theorem get_of_length_le {i : Nat} (beyond : o.length ≤ i) : o.get i = .none := by
  rw [get, Array.getElem?_eq_none beyond]
  rfl

/-- Overlays that show the same everywhere are the same. -/
theorem ext_get (length : o.length = o'.length) (same : ∀ i, o.get i = o'.get i) : o = o' := by
  obtain ⟨a⟩ := o
  obtain ⟨a'⟩ := o'
  congr 1
  refine Array.ext length fun i inside inside' => ?_
  have here := same i
  simpa [get, inside, inside'] using here

/-- The last tag on a character decides how it is shown. -/
theorem get_tagAll (o : Overlay) (tags : List Tag) {i : Nat} (inside : i < o.length) :
    (o.tagAll tags).get i = ((lastTag tags i).map Tag.highlight).getD (o.get i) := by
  induction tags generalizing o with
  | nil => rfl
  | cons t rest ih =>
    have later := ih (o.tag t) (by rwa [length_tag])
    rw [get_tag] at later
    refine later.trans ?_
    rw [lastTag_cons]
    cases lastTag rest i with
    | some last => rfl
    | none => by_cases here : t.span.contains i = true <;> simp [here, inside]

/-- Two lists of tags that have no character in common may be applied in either order. -/
theorem tagAll_append_comm (o : Overlay) {tags tags' : List Tag}
    (apart : ∀ i, lastTag tags i = none ∨ lastTag tags' i = none) :
    o.tagAll (tags ++ tags') = o.tagAll (tags' ++ tags) := by
  refine ext_get (by simp) fun i => ?_
  rcases Nat.lt_or_ge i o.length with inside | beyond
  · rw [get_tagAll o _ inside, get_tagAll o _ inside, lastTag_append_comm (apart i)]
  · rw [get_of_length_le (by rwa [length_tagAll]), get_of_length_le (by rwa [length_tagAll])]

@[simp] theorem length_ofText (text : String) : (ofText text).length = text.length :=
  length_blank _

theorem get_blank (n i : Nat) : (blank n).get i = .none := by
  simp only [blank, get, Array.getElem?_replicate]
  split <;> rfl

theorem get_ofText (text : String) (i : Nat) : (ofText text).get i = .none :=
  get_blank text.length i

/-- A text without other highlights than those of the tags. -/
theorem get_tagAll_ofText (text : String) (tags : List Tag) (i : Nat)
    (inside : ∀ tag ∈ tags, tag.span.stop ≤ text.length) :
    ((ofText text).tagAll tags).get i = ((lastTag tags i).map Tag.highlight).getD .none := by
  rcases Nat.lt_or_ge i (ofText text).length with below | beyond
  · rw [get_tagAll _ _ below, get_ofText]
  · rw [get_of_length_le (by rwa [length_tagAll])]
    have untagged : lastTag tags i = none := by
      refine lastTag_eq_none.2 fun tag mem => Bool.eq_false_iff.2 fun contained => ?_
      rw [Span.contains_iff] at contained
      have stop := inside tag mem
      rw [length_ofText] at beyond
      omega
    rw [untagged]
    rfl

end Overlay

/-- Spans without a common character. -/
def Span.Apart (s t : Span) : Prop := ∀ i, s.contains i = true → t.contains i = false

theorem Span.Apart.symm {s t : Span} (apart : s.Apart t) : t.Apart s := by
  intro i inside
  by_contra both
  rw [apart i (Bool.not_eq_false _ ▸ both)] at inside
  cases inside

theorem Span.apart_of_stop_le {s t : Span} (order : s.stop ≤ t.start) : s.Apart t := by
  intro i inside
  rw [Span.contains_iff] at inside
  rw [Bool.eq_false_iff, ne_eq, Span.contains_iff]
  omega

/-! ## Tags on tokens -/

section
variable {tokens : List Token} {tags tags' : List Tag} {K : TokenKind → Prop} {t : Token} {i : Nat}

/-- A character outside all tokens has no tag. -/
theorem lastTag_outside (on : ∀ tag ∈ tags, tag.On tokens K)
    (outside : ∀ t ∈ tokens, t.span.contains i = false) : lastTag tags i = none := by
  refine lastTag_eq_none.2 fun tag mem => ?_
  obtain ⟨t, found, -, same, -⟩ := on tag mem
  rw [same]
  exact outside t found

variable (apart : tokens.Pairwise fun t u => t.span.stop ≤ u.span.start)
include apart

/-- A character is in one token only. -/
theorem token_unique {u : Token} (mt : t ∈ tokens) (mu : u ∈ tokens)
    (it : t.span.contains i = true) (iu : u.span.contains i = true) : t = u := by
  let Disjoint (t u : Token) := ¬(t.span.contains i = true ∧ u.span.contains i = true)
  have disjoint : tokens.Pairwise Disjoint := by
    refine apart.imp fun before both => ?_
    simp only [Span.contains_iff] at both
    omega
  have : Std.Symm Disjoint := ⟨fun _ _ h both => h both.symm⟩
  by_contra other
  exact disjoint.forall mt mu other ⟨it, iu⟩

/-- A tag on a character of a token stands on this token. -/
theorem Tag.On.of_contains {tag : Tag} (on : tag.On tokens K) (mem : t ∈ tokens)
    (inTag : tag.span.contains i = true) (inToken : t.span.contains i = true) :
    K t.kind ∧ tag.span = t.span ∧ t.kind.admits tag.highlight = true := by
  obtain ⟨u, found, kind, same, admitted⟩ := on
  obtain rfl := token_unique apart mem found inToken (same ▸ inTag)
  exact ⟨kind, same, admitted⟩

/-- A character of a token has no tag if all tags stand on tokens of other kinds. -/
theorem lastTag_of_other (on : ∀ tag ∈ tags, tag.On tokens K) (mem : t ∈ tokens)
    (other : ¬K t.kind) (inToken : t.span.contains i = true) : lastTag tags i = none := by
  refine lastTag_eq_none.2 fun tag tagged => Bool.eq_false_iff.2 fun inTag => other ?_
  exact ((on tag tagged).of_contains apart mem inTag inToken).1

/-- Tags on tokens of some kinds and tags on tokens of the other kinds never meet. -/
theorem lastTag_apart (on : ∀ tag ∈ tags, tag.On tokens K)
    (on' : ∀ tag ∈ tags', tag.On tokens (¬K ·)) (i : Nat) :
    lastTag tags i = none ∨ lastTag tags' i = none := by
  by_cases inside : ∃ t ∈ tokens, t.span.contains i = true
  · obtain ⟨t, mem, inside⟩ := inside
    by_cases kind : K t.kind
    · exact .inr (lastTag_of_other apart on' mem (not_not_intro kind) inside)
    · exact .inl (lastTag_of_other apart on mem kind inside)
  · refine .inl (lastTag_outside on fun t mem => Bool.eq_false_iff.2 fun here => ?_)
    exact inside ⟨t, mem, here⟩

variable (on : ∀ tag ∈ tags, tag.On tokens K) (mem : t ∈ tokens)
include on mem

/-- The characters of a token have the same last tag. -/
theorem lastTag_alike {j : Nat} (inToken : t.span.contains i = true)
    (inToken' : t.span.contains j = true) : lastTag tags i = lastTag tags j := by
  refine congrArg List.getLast? (List.filter_congr fun tag tagged => ?_)
  refine Bool.eq_iff_iff.2 ⟨fun inTag => ?_, fun inTag => ?_⟩
  · rw [((on tag tagged).of_contains apart mem inTag inToken).2.1]
    exact inToken'
  · rw [((on tag tagged).of_contains apart mem inTag inToken').2.1]
    exact inToken

variable (own : ∀ h, t.kind.highlight? = some h → ⟨t.span, h⟩ ∈ tags)
include own

/-- What the last tag shows is admitted, if the token does not miss the tag its kind asks for. -/
theorem admits_lastTag (inToken : t.span.contains i = true) :
    t.kind.admits (((lastTag tags i).map Tag.highlight).getD .none) = true := by
  cases last : lastTag tags i with
  | some tag =>
    obtain ⟨tagged, inTag⟩ := lastTag_eq_some last
    exact ((on tag tagged).of_contains apart mem inTag inToken).2.2
  | none =>
    cases shown : t.kind.highlight? with
    | none => exact admits_none shown
    | some h =>
      have untagged := lastTag_eq_none.1 last _ (own h shown)
      rw [inToken] at untagged
      cases untagged

/-- All characters of a token are shown in one way. -/
theorem lastTag_whole : ∃ h, t.kind.admits h = true ∧ ∀ i, t.span.contains i = true →
    ((lastTag tags i).map Tag.highlight).getD .none = h := by
  by_cases empty : ∃ i, t.span.contains i = true
  · obtain ⟨i, inside⟩ := empty
    refine ⟨_, admits_lastTag apart on mem own inside, fun j inside' => ?_⟩
    rw [lastTag_alike apart on mem inside' inside]
  · obtain ⟨h, admitted⟩ := exists_admits t.kind
    exact ⟨h, admitted, fun i inside => absurd ⟨i, inside⟩ empty⟩

end

/-! ## Texts -/

/-- **Every token is painted whole.** All its characters are shown in one way, which its kind
admits, and characters outside all tokens are not shown; so the names may be painted before the
tokens, too. -/
theorem tokens_painted_whole (text : String) :
    let source := Source.ofText .file text
    (paint text).length = text.length ∧
    (∀ t ∈ source.tokens, ∃ h, t.kind.admits h = true ∧
      ∀ i, t.span.contains i = true → (paint text).get i = h) ∧
    (∀ i, (∀ t ∈ source.tokens, t.span.contains i = false) → (paint text).get i = .none) ∧
    (Overlay.ofText text).tagAll (nameTags source.statements ++ tokenTags source.tokens) =
      paint text := by
  intro source
  have apart : source.tokens.Pairwise _ := scan_apart text
  have lexical := tokenTags_on source.tokens
  have named : ∀ tag ∈ nameTags source.statements, tag.On source.tokens (· = .identifier) := by
    intro tag tagged
    obtain ⟨t, mem, rest⟩ := nameTags_on .file source.tokens tag tagged
    exact ⟨t, mem_scan_of_mem_stream mem, rest⟩
  let tags := tokenTags source.tokens ++ nameTags source.statements
  have on : ∀ tag ∈ tags, tag.On source.tokens fun _ => True :=
    List.forall_mem_append.2 ⟨fun tag mem => (lexical tag mem).mono fun _ _ => trivial,
      fun tag mem => (named tag mem).mono fun _ _ => trivial⟩
  have shown (i : Nat) :
      (paint text).get i = ((lastTag tags i).map Tag.highlight).getD .none := by
    refine Overlay.get_tagAll_ofText text tags i fun tag mem => ?_
    obtain ⟨t, found, -, same, -⟩ := on tag mem
    rw [same]
    exact (fits_of_mem_scan found).2
  refine ⟨by simp [paint], fun t mem => ?_, fun i outside => ?_, ?_⟩
  · have own (h : Highlight) (decided : t.kind.highlight? = some h) : ⟨t.span, h⟩ ∈ tags :=
      List.mem_append_left _ (mem_tokenTagsFrom mem decided)
    obtain ⟨h, admitted, whole⟩ := lastTag_whole apart on mem own
    exact ⟨h, admitted, fun i inside => (shown i).trans (whole i inside)⟩
  · rw [shown, lastTag_outside on outside]
    rfl
  · exact Overlay.tagAll_append_comm _ fun i => lastTag_apart apart named lexical i

/-- A text with a bracket that is never closed, a declaration that cannot be read and a stray
character. -/
def tornText : String := "var a = (; function f(x) \x7b return x; \x7d #"

/-- Its keyword `return` is painted whole, and the stray character is not painted. -/
theorem torn_text_painted_whole :
    let source := Source.ofText .file tornText
    let word : Token := ⟨.kwReturn, "return", 1, none, ⟨27, 33⟩⟩
    source.diagnostics.length = 2 ∧
    word ∈ source.tokens ∧ word.kind.admits ((paint tornText).get 27) = true ∧
      (paint tornText).get 27 = (paint tornText).get 32 ∧
    (∀ t ∈ source.tokens, t.span.contains 39 = false) ∧ (paint tornText).get 39 = .none ∧
    (Overlay.ofText tornText).tagAll (nameTags source.statements ++ tokenTags source.tokens) =
      paint tornText := by
  intro source word
  obtain ⟨-, whole, others, order⟩ := tokens_painted_whole tornText
  have found : source.diagnostics.length = 2 ∧ word ∈ source.tokens ∧
      ∀ t ∈ source.tokens, t.span.contains 39 = false := by decide +kernel
  obtain ⟨problems, mem, stray⟩ := found
  obtain ⟨h, admitted, same⟩ := whole word mem
  have first := same 27 (by decide)
  exact ⟨problems, mem, first ▸ admitted, first.trans (same 32 (by decide)).symm, stray,
    others 39 stray, order⟩

/-- A bracket without its partner and the names in what could not be read are not shown. -/
example : (paint "var a = (; f(b)").runs =
    [⟨⟨0, 3⟩, .kwVar⟩, ⟨⟨12, 13⟩, .bracket 1⟩, ⟨⟨14, 15⟩, .bracket 1⟩] := by decide +kernel

end Scriptlet
