import Scriptlet.Proofs.Reader.Walk

/-!
# Reading in a window

A reading looks at the token under the position only. So as long as it stays in one part of a
stream, a window, what stands before and after the window does not matter: on another stream with
the same window the reading does the same there, whether it succeeds or fails (`Reading.Mirrors`).
Nor does a larger bound on the nesting matter, unless the reading gave up because of the smaller
one. These too are laws of reading, so all productions obey them.
-/

namespace Scriptlet

namespace Stream

/-- A stream in a longer one. -/
def within (w : Stream) (before after : List Token) : Stream :=
  ⟨w.passed ++ before, w.here, w.ahead ++ after⟩

variable {w : Stream} {before before' after after' : List Token}

@[simp] theorem kind_within : (w.within before after).kind = w.kind := rfl

@[simp] theorem position_within :
    (w.within before after).position = w.position + before.length := by
  simp [within, position]

@[simp] theorem ahead_within : (w.within before after).ahead = w.ahead ++ after := rfl

theorem tokens_within (w : Stream) (before after : List Token) :
    (w.within before after).tokens = before.reverse ++ (w.tokens ++ after) := by
  simp [within, tokens]

/-- A step that does not leave the window is the step of the window. -/
theorem advance_within (more : w.kind = .eof ∨ w.ahead ≠ []) :
    (w.within before after).advance = w.advance.within before after := by
  obtain ⟨passed, here, ahead⟩ := w
  rcases more with eof | some
  · have stays {s : Stream} (eof : s.kind = .eof) : s.advance = s :=
      if_pos (by simpa [atEnd] using eof)
    have eof' : ((Stream.mk passed here ahead).within before after).kind = .eof := eof
    rw [stays eof, stays eof']
  · obtain ⟨t, rest, rfl⟩ := List.exists_cons_of_ne_nil some
    unfold advance
    by_cases eof : here.kind = .eof <;> simp [within, atEnd, kind, eof]

/-- The step off the last token of a window. -/
theorem advance_of_last (last : w.ahead = []) (here : w.kind ≠ .eof) (t : Token)
    (rest : List Token) :
    (w.within before (t :: rest)).advance = ⟨w.here :: (w.passed ++ before), t, rest⟩ := by
  have there : w.here.kind ≠ .eof := here
  simp [within, advance, atEnd, kind, last, there]

/-- Before the end a step that stays in the window has a token of the window to go to. -/
theorem inside_of_advance (ends : (w.within before after).Ends)
    (inside : after.length ≤ (w.within before after).advance.ahead.length) :
    w.kind = .eof ∨ w.ahead ≠ [] := by
  by_cases eof : w.kind = .eof
  · exact .inl eof
  · refine .inr fun none => ?_
    have step := ahead_advance ends eof
    rw [ahead_within, none, List.nil_append] at step
    omega

/-- Skipping that stays in the window, as it goes. -/
theorem Seeks.within {set : KindSet} {k : Nat} {s : Stream}
    (seeks : (w.within before after).Seeks set k s) (short : k ≤ w.ahead.length) :
    ∃ w' : Stream, s = w'.within before after ∧
      (w.within before' after').Seeks set k (w'.within before' after') := by
  generalize same : w.within before after = u at seeks
  induction seeks generalizing w with
  | here stops =>
    subst same
    exact ⟨w, rfl, .here stops⟩
  | @move _ _ k other rest ih =>
    subst same
    have more : w.ahead ≠ [] := List.ne_nil_of_length_pos (Nat.lt_of_lt_of_le k.succ_pos short)
    have one : w.ahead.length ≤ w.advance.ahead.length + 1 := by
      unfold advance
      split
      · exact Nat.le_succ _
      · split <;> simp_all
    have step {before after : List Token} :
        (w.within before after).advance = w.advance.within before after :=
      advance_within (.inr more)
    obtain ⟨w', found, rest'⟩ := ih (by omega) step.symm
    exact ⟨w', found, .move other (step ▸ rest')⟩

/-- Skipping that stays in the window is skipping in the window. -/
theorem toBoundary_within (boundary : Boundary) (w : Stream)
    (ends : (w.within before after).Ends)
    (inside : after.length ≤ ((w.within before after).toBoundary boundary).ahead.length) :
    ∃ w' : Stream, (w.within before after).toBoundary boundary = w'.within before after ∧
      (w.within before' after').toBoundary boundary = w'.within before' after' := by
  obtain ⟨k, found⟩ := synchronize_boundary ends boundary
  have seeks := synchronize_eq_some_iff.1 found
  have short : k ≤ w.ahead.length := by
    have lengths := congrArg List.length seeks.skips.way.tokens
    rw [length_tokens, length_tokens, seeks.skips.position, ahead_within,
      List.length_append] at lengths
    omega
  obtain ⟨w', same, seeks'⟩ := @Seeks.within w before before' after after' _ k _ seeks short
  exact ⟨w', same, toBoundary_of_seeks seeks'⟩

end Stream

/-- None of the problems comes from the bound on the nesting. -/
def Shallow (errors : List ReadError) : Prop := ∀ e ∈ errors, e.expected ≠ .lessNesting

theorem Shallow.of_prefix {errors errors' : List ReadError} (h : Shallow errors')
    (le : errors <+: errors') : Shallow errors :=
  fun e mem => h e (le.subset mem)

/-! ## Readings -/

section

variable (before before' after after' : List Token)

/-- What `r` does in a window of one stream, `r'` does in the same window of another. -/
structure Reading.Mirrors {α : Type} (r r' : Reading α) : Prop where
  walks : r.Walks
  ok : ∀ (w : Stream) a s', (w.within before after).Ends → r (w.within before after) = .ok a s' →
    after.length ≤ s'.ahead.length →
    ∃ w' : Stream, s' = w'.within before after ∧
      r' (w.within before' after') = .ok a (w'.within before' after')
  error : ∀ (w : Stream) e s', (w.within before after).Ends →
    r (w.within before after) = .error e s' → e.expected ≠ .lessNesting →
    after.length ≤ s'.ahead.length →
    ∃ w' : Stream, s' = w'.within before after ∧
      r' (w.within before' after') = .error e (w'.within before' after')

/-- The same for declarations; the problems that `r` adds, `r'` adds too. -/
structure PageReading.Mirrors {α : Type} (r r' : PageReading α) : Prop where
  walks : r.Walks
  ok : ∀ (w : Stream) errors a page', (w.within before after).Ends →
    r ⟨w.within before after, errors⟩ = .ok a page' → Shallow page'.errors →
    after.length ≤ page'.stream.ahead.length →
    ∃ (w' : Stream) (new : List ReadError), page' = ⟨w'.within before after, errors ++ new⟩ ∧
      ∀ errors', r' ⟨w.within before' after', errors'⟩ =
        .ok a ⟨w'.within before' after', errors' ++ new⟩
  error : ∀ (w : Stream) errors e page', (w.within before after).Ends →
    r ⟨w.within before after, errors⟩ = .error e page' → Shallow (page'.errors ++ [e]) →
    after.length ≤ page'.stream.ahead.length →
    ∃ (w' : Stream) (new : List ReadError), page' = ⟨w'.within before after, errors ++ new⟩ ∧
      ∀ errors', r' ⟨w.within before' after', errors'⟩ =
        .error e ⟨w'.within before' after', errors' ++ new⟩

end

variable {before before' after after' : List Token}

namespace Reading

variable {α β : Type} {r r' : Reading α}

theorem Mirrors.bind {k k' : α → Reading β} (hr : Mirrors before before' after after' r r')
    (hk : ∀ a, Mirrors before before' after after' (k a) (k' a)) :
    Mirrors before before' after after' (r >>= k) (r' >>= k') where
  walks := hr.walks.bind fun a => (hk a).walks
  ok w b s' ends read inside := by
    obtain ⟨a, s₁, first, second⟩ := bind_eq_ok read
    have way := (hk a).walks.ok s₁ b s' second
    obtain ⟨w₁, rfl, first'⟩ := hr.ok w a s₁ ends first (Nat.le_trans inside way.ahead_le)
    have ends₁ := (hr.walks.ok _ a _ first).ends ends
    obtain ⟨w', same, second'⟩ := (hk a).ok w₁ b s' ends₁ second inside
    exact ⟨w', same, by rw [bind_of_ok first', second']⟩
  error w e s' ends failed bounded inside := by
    rcases bind_eq_error failed with failed | ⟨a, s₁, first, failed⟩
    · obtain ⟨w', same, failed'⟩ := hr.error w e s' ends failed bounded inside
      exact ⟨w', same, bind_of_error failed'⟩
    · have way := (hk a).walks.error s₁ e s' failed
      obtain ⟨w₁, rfl, first'⟩ := hr.ok w a s₁ ends first (Nat.le_trans inside way.ahead_le)
      have ends₁ := (hr.walks.ok _ a _ first).ends ends
      obtain ⟨w', same, failed'⟩ := (hk a).error w₁ e s' ends₁ failed bounded inside
      exact ⟨w', same, by rw [bind_of_ok first', failed']⟩

/-- A reading that stays where it is and gives the token there, or something made of it. -/
theorem mirrors_of_here {f : Token → α} (h : ∀ s, r s = .ok (f s.here) s)
    (h' : ∀ s, r' s = .ok (f s.here) s) : Mirrors before before' after after' r r' where
  walks := walks_of_ok fun s => ⟨_, s, h s, .refl s⟩
  ok w a s' _ read _ := by
    rw [h] at read
    cases read
    exact ⟨w, rfl, h' _⟩
  error w e s' _ failed := by
    rw [h] at failed
    cases failed

theorem mirrors_fail {expected : Expectation}
    (same : expected ≠ .lessNesting → r' = Reading.fail expected) :
    Mirrors before before' after after' (Reading.fail expected) r' where
  walks := walks_fail expected
  ok w a s' _ read := by cases read
  error w e s' _ failed bounded _ := by
    cases failed
    exact ⟨w, rfl, by rw [same bounded]; rfl⟩

theorem mirrors_next : Mirrors before before' after after' Reading.next Reading.next where
  walks := forward.next
  ok w a s' ends read inside := by
    cases read
    have more := Stream.inside_of_advance ends inside
    refine ⟨w.advance, Stream.advance_within more, ?_⟩
    rw [Reading.next, Stream.advance_within more]
    rfl
  error w e s' _ failed := by cases failed

/-- Staying in a window is a law. -/
def mirroring (before before' after after' : List Token) : Reading.Law where
  Holds := Mirrors before before' after after'
  Meets _ := True
  value a := mirrors_of_here (f := fun _ => a) (fun _ => rfl) fun _ => rfl
  failure _ _ := mirrors_fail fun _ => rfl
  tooDeep _ := mirrors_fail fun deep => absurd rfl deep
  here hk := (mirrors_of_here (f := id) (fun _ => rfl) fun _ => rfl).bind fun t => hk t trivial
  next := mirrors_next
  sequence hr hk := hr.bind hk

end Reading

/-! ## Declarations -/

/-- Where reading goes on after a declaration that started at `start` and failed at `s`. -/
def Stream.resume (s start : Stream) (boundary : Boundary) : Stream :=
  (if s.position = start.position then s.advance else s).toBoundary boundary

theorem Page.recover_eq (start : Stream) (boundary : Boundary) (e : ReadError) (s : Stream)
    (errors : List ReadError) :
    Page.recover start boundary e ⟨s, errors⟩ = ⟨s.resume start boundary, errors ++ [e]⟩ := rfl

/-- Whether a token must be passed does not depend on what is around the window. -/
theorem Stream.resume_eq {w w₁ : Stream} {boundary : Boundary} :
    (w₁.within before after).resume (w.within before after) boundary =
      (if w₁.position = w.position then (w₁.within before after).advance
        else w₁.within before after).toBoundary boundary := by
  simp [resume]

/-- Recovering in a window does not depend on what is around it. -/
theorem Stream.resume_within {w w₁ : Stream} {boundary : Boundary}
    (ends : (w₁.within before after).Ends) (inside : after.length ≤
      ((w₁.within before after).resume (w.within before after) boundary).ahead.length) :
    ∃ w' : Stream,
      (w₁.within before after).resume (w.within before after) boundary = w'.within before after ∧
      (w₁.within before' after').resume (w.within before' after') boundary =
        w'.within before' after' := by
  rw [resume_eq] at inside ⊢
  rw [resume_eq]
  split at inside
  · next stays =>
    have rest := ((w₁.within before after).advance.forward_toBoundary boundary).ahead_le
    have more := inside_of_advance ends (Nat.le_trans inside rest)
    have ends' := (w₁.within before after).forward_advance.ends ends
    rw [advance_within more] at inside ends'
    rw [if_pos stays, if_pos stays, advance_within more, advance_within more]
    exact toBoundary_within boundary w₁.advance ends' inside
  · next moved =>
    rw [if_neg moved, if_neg moved]
    exact toBoundary_within boundary w₁ ends inside

namespace PageReading

variable {α β : Type} {r r' : PageReading α}

theorem Mirrors.bind {k k' : α → PageReading β} (hr : Mirrors before before' after after' r r')
    (hk : ∀ a, Mirrors before before' after after' (k a) (k' a)) :
    Mirrors before before' after after' (r >>= k) (r' >>= k') where
  walks := hr.walks.bind fun a => (hk a).walks
  ok w errors b page' ends read shallow inside := by
    obtain ⟨a, page₁, first, second⟩ := bind_eq_ok read
    have way := (hk a).walks.ok page₁ b page' second
    obtain ⟨w₁, new₁, rfl, first'⟩ := hr.ok w errors a page₁ ends first
      (shallow.of_prefix way.errors) (Nat.le_trans inside way.stream.ahead_le)
    have ends₁ := (hr.walks.ok _ a _ first).stream.ends ends
    obtain ⟨w', new, rfl, second'⟩ := (hk a).ok w₁ _ b page' ends₁ second shallow inside
    refine ⟨w', new₁ ++ new, by rw [List.append_assoc], fun errors' => ?_⟩
    rw [bind_of_ok (first' errors'), second', List.append_assoc]
  error w errors e page' ends failed shallow inside := by
    rcases bind_eq_error failed with failed | ⟨a, page₁, first, failed⟩
    · obtain ⟨w', new, same, failed'⟩ := hr.error w errors e page' ends failed shallow inside
      exact ⟨w', new, same, fun errors' => bind_of_error (failed' errors')⟩
    · have way := (hk a).walks.error page₁ e page' failed
      have shallow₁ : Shallow page₁.errors :=
        shallow.of_prefix (way.errors.trans (List.prefix_append _ _))
      obtain ⟨w₁, new₁, rfl, first'⟩ := hr.ok w errors a page₁ ends first shallow₁
        (Nat.le_trans inside way.stream.ahead_le)
      have ends₁ := (hr.walks.ok _ a _ first).stream.ends ends
      obtain ⟨w', new, rfl, failed'⟩ := (hk a).error w₁ _ e page' ends₁ failed shallow inside
      refine ⟨w', new₁ ++ new, by rw [List.append_assoc], fun errors' => ?_⟩
      rw [bind_of_ok (first' errors'), failed', List.append_assoc]

theorem mirrors_lift {r r' : Reading α} (h : Reading.Mirrors before before' after after' r r') :
    Mirrors before before' after after' (liftM r : PageReading α) (liftM r') where
  walks := walks_lift h.walks
  ok w errors a page' ends read _ inside := by
    obtain ⟨s', first, rfl⟩ := lift_eq_ok read
    obtain ⟨w', rfl, read'⟩ := h.ok w a s' ends first inside
    refine ⟨w', [], by rw [List.append_nil], fun errors' => ?_⟩
    rw [lift_of_ok read', List.append_nil]
  error w errors e page' ends failed shallow inside := by
    obtain ⟨s', first, rfl⟩ := lift_eq_error failed
    have bounded := shallow e (List.mem_append_right _ (List.mem_singleton_self e))
    obtain ⟨w', rfl, failed'⟩ := h.error w e s' ends first bounded inside
    refine ⟨w', [], by rw [List.append_nil], fun errors' => ?_⟩
    rw [lift_of_error failed', List.append_nil]

theorem mirrors_tooDeep (r' : PageReading α) : Mirrors before before' after after'
    (liftM (Reading.fail .lessNesting : Reading α) : PageReading α) r' where
  walks := walks_lift (Reading.walks_fail _)
  ok w errors a page' _ read := by cases read
  error w errors e page' _ failed shallow := by
    cases failed
    exact absurd rfl (shallow _ (List.mem_append_right _ (List.mem_singleton_self _)))

theorem Mirrors.recovering (h : Mirrors before before' after after' r r') (boundary : Boundary) :
    Mirrors before before' after after' (recovering boundary r) (recovering boundary r') where
  walks := h.walks.recovering boundary
  ok w errors o page' ends read shallow inside := by
    obtain ⟨a, rfl, first⟩ | ⟨e, page₁, rfl, failed, rfl⟩ := recovering_eq_ok read
    · obtain ⟨w', new, same, read'⟩ := h.ok w errors a page' ends first shallow inside
      exact ⟨w', new, same, fun errors' => recovering_of_ok (read' errors')⟩
    · have way : page₁.Forward (page₁.recover (w.within before after) boundary e) :=
        Page.forward_recover boundary e
      obtain ⟨w₁, new, rfl, failed'⟩ := h.error w errors e page₁ ends failed shallow
        (Nat.le_trans inside way.stream.ahead_le)
      have ends₁ := (h.walks.error _ e _ failed).stream.ends ends
      obtain ⟨w', same, same'⟩ :=
        @Stream.resume_within before before' after after' w w₁ boundary ends₁ inside
      refine ⟨w', new ++ [e], ?_, fun errors' => ?_⟩
      · rw [Page.recover_eq, same, List.append_assoc]
      · rw [recovering_of_error (failed' errors'), Page.recover_eq, same', List.append_assoc]
  error w errors e page' _ failed := absurd failed recovering_ne_error

/-- Staying in a window is a law of declarations. -/
def mirroring (before before' after after' : List Token) :
    PageReading.Law (Reading.mirroring before before' after after') where
  Holds := Mirrors before before' after after'
  lift h := mirrors_lift h
  tooDeep r := mirrors_tooDeep r
  sequence hr hk := hr.bind hk
  recovering boundary h := h.recovering boundary

end PageReading

/-! ## The end of a window -/

/-- Skipping that leaves a window at its last token, where the other stream goes on with a token of
the set, stops there on the other stream. -/
theorem Stream.Seeks.leaves {set : KindSet} {ending next : Token} {more : List Token} {w s : Stream}
    {k : Nat} (bounds : set.contains next.kind = true)
    (seeks : (w.within before [ending]).Seeks set k s) (leaves : s.ahead = []) :
    s.here = ending ∧ ∃ t, (w.within before' (next :: more)).Seeks set k t ∧
      t.here = next ∧ t.ahead = more := by
  generalize same : w.within before [ending] = u at seeks
  induction seeks generalizing w with
  | here stops =>
    subst same
    simp at leaves
  | move other rest ih =>
    subst same
    have here : w.kind ≠ .eof := fun eof =>
      rest.advance_ne other (if_pos (by simpa [atEnd] using eof))
    by_cases last : w.ahead = []
    · -- the next token is the last one of the window, and the first one behind it
      rw [advance_of_last last here] at rest
      have behind := rest.le_ahead
      rw [List.length_nil, Nat.le_zero] at behind
      subst behind
      cases rest
      refine ⟨rfl, ⟨w.here :: (w.passed ++ before'), next, more⟩, .move other ?_, rfl, rfl⟩
      rw [advance_of_last last here]
      exact .here bounds
    · have step {before after : List Token} :
          (w.within before after).advance = w.advance.within before after :=
        advance_within (.inr last)
      obtain ⟨ended, t, rest', here, ahead⟩ := ih leaves step.symm
      exact ⟨ended, t, .move other (step ▸ rest'), here, ahead⟩

/-- Skipping that leaves a window at its last token, where the other stream goes on with a boundary,
stops there on the other stream. -/
theorem Stream.toBoundary_leaves {boundary : Boundary} {ending next : Token} {more : List Token}
    (bounds : boundary.contains next.kind = true) (w : Stream)
    (leaves : ((w.within before [ending]).toBoundary boundary).ahead = []) :
    ((w.within before [ending]).toBoundary boundary).here = ending ∧
      ((w.within before' (next :: more)).toBoundary boundary).here = next ∧
      ((w.within before' (next :: more)).toBoundary boundary).ahead = more := by
  rcases (w.within before [ending]).toBoundary_cases boundary with ⟨k, seeks⟩ | stays
  · obtain ⟨ended, t, seeks', here, ahead⟩ :=
      @Seeks.leaves before before' _ ending next more w _ k bounds seeks leaves
    exact ⟨ended, by rw [toBoundary_of_seeks seeks']; exact ⟨here, ahead⟩⟩
  · rw [stays] at leaves
    simp at leaves

/-- The second of two streams goes on with `next` and `more` where the first one ends: both are at
the same place of a window, or behind it. -/
inductive Stream.Beside (before before' : List Token) (ending next : Token) (more : List Token) :
    Stream → Stream → Prop
  | inside (w : Stream) : Beside before before' ending next more
      (w.within before [ending]) (w.within before' (next :: more))
  | behind {s t : Stream} : s.here = ending → s.ahead = [] → t.here = next → t.ahead = more →
      Beside before before' ending next more s t

theorem Stream.resume_leaves {w w₁ : Stream} {boundary : Boundary} {ending next : Token}
    {more : List Token} (bounds : boundary.contains next.kind = true) (here : w₁.kind ≠ .eof)
    (leaves : ((w₁.within before [ending]).resume (w.within before [ending]) boundary).ahead = []) :
    ((w₁.within before [ending]).resume (w.within before [ending]) boundary).here = ending ∧
      ((w₁.within before' (next :: more)).resume (w.within before' (next :: more))
        boundary).here = next ∧
      ((w₁.within before' (next :: more)).resume (w.within before' (next :: more))
        boundary).ahead = more := by
  rw [resume_eq] at leaves ⊢
  rw [resume_eq]
  split at leaves
  · next stays =>
    rw [if_pos stays, if_pos stays]
    by_cases last : w₁.ahead = []
    · -- the token that recovering passes is the last one of the window
      rw [advance_of_last last here] at leaves ⊢
      rw [advance_of_last last here, toBoundary_of_last _ rfl, toBoundary_of_seeks (.here bounds)]
      exact ⟨rfl, rfl, rfl⟩
    · have step {before after : List Token} :
          (w₁.within before after).advance = w₁.advance.within before after :=
        advance_within (.inr last)
      rw [step] at leaves ⊢
      rw [step]
      exact toBoundary_leaves bounds w₁.advance leaves
  · next moved =>
    rw [if_neg moved, if_neg moved]
    exact toBoundary_leaves bounds w₁ leaves

/-- A declaration that fails before the end of the first stream fails in the same way on the second,
and recovering leaves them beside one another, if what follows is a boundary. -/
theorem PageReading.Mirrors.recover {α : Type} {r r' : PageReading α} {ending next : Token}
    {more : List Token} (h : PageReading.Mirrors before before' [ending] (next :: more) r r')
    {boundary : Boundary} (bounds : boundary.contains next.kind = true) {w : Stream}
    {errors : List ReadError} {e : ReadError} {page : Page}
    (ends : (w.within before [ending]).Ends)
    (failed : r ⟨w.within before [ending], errors⟩ = .error e page)
    (found : e.found ≠ .eof) (shallow : Shallow (page.errors ++ [e])) :
    ∃ (s t : Stream) (new : List ReadError),
      PageReading.recovering boundary r ⟨w.within before [ending], errors⟩ =
        .ok none ⟨s, errors ++ new⟩ ∧
      (∀ errors', PageReading.recovering boundary r' ⟨w.within before' (next :: more), errors'⟩ =
        .ok none ⟨t, errors' ++ new⟩) ∧
      Stream.Beside before before' ending next more s t := by
  have here : page.stream.kind ≠ .eof := by
    have stands := congrArg ReadError.found (h.walks.stands _ e page failed)
    exact fun eof => found (stands.trans eof)
  have later := (h.walks.error _ e page failed).stream.ends ends
  have inside : [ending].length ≤ page.stream.ahead.length := by
    rw [Stream.ahead_advance later here]
    exact Nat.le_add_left 1 _
  obtain ⟨w₁, new, rfl, failed'⟩ := h.error w errors e page ends failed shallow inside
  refine ⟨(w₁.within before [ending]).resume (w.within before [ending]) boundary,
    (w₁.within before' (next :: more)).resume (w.within before' (next :: more)) boundary,
    new ++ [e], ?_, fun errors' => ?_, ?_⟩
  · rw [PageReading.recovering, failed, ← List.append_assoc]
    rfl
  · rw [PageReading.recovering, failed', ← List.append_assoc]
    rfl
  · by_cases stays :
        ((w₁.within before [ending]).resume (w.within before [ending]) boundary).ahead = []
    · obtain ⟨first, second, third⟩ :=
        @Stream.resume_leaves before before' w w₁ boundary ending next more bounds here stays
      exact .behind first stays second third
    · have kept := Nat.succ_le_of_lt (List.length_pos_iff.2 stays)
      obtain ⟨w', same, same'⟩ :=
        @Stream.resume_within before before' [ending] (next :: more) w w₁ boundary later kept
      rw [same, same']
      exact .inside w'

end Scriptlet
