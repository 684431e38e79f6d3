import Scriptlet.Proofs.Paint.Exact

/-!
# Runs of equal highlights

`Overlay.runs` lists the stretches of characters that are shown in the same way, from left to right.
`Stretches` says what such a list has to be for given highlights: its stretches are not empty, lie
one behind the other, and are as long as possible, and on each character the list shows what the
highlights show. `runsFrom` finds it from the right: a highlight in front either is not shown, or
makes the first stretch behind it longer, or starts a stretch of its own (`stretches_runsFrom`).

At most one stretch is on a character, so the last tag on it is the same in every order of the list,
and painting the runs in any order gives the overlay back (`runs_represent_overlay`).
-/

namespace Scriptlet

/-- One stretch ends where the other starts or before, and if they touch, they are shown
differently. -/
structure Tag.Before (r r' : Tag) : Prop where
  order : r.span.stop ≤ r'.span.start
  longest : r.span.stop = r'.span.start → r.highlight ≠ r'.highlight

/-- What a list of tags shows of a character. -/
def shownBy (tags : List Tag) (i : Nat) : Highlight :=
  ((lastTag tags i).map Tag.highlight).getD .none

theorem shownBy_cons_of_contains {t : Tag} {rest : List Tag} {i : Nat}
    (inside : t.span.contains i = true) (free : lastTag rest i = none) :
    shownBy (t :: rest) i = t.highlight := by
  rw [shownBy, lastTag_cons, free, if_pos inside]
  rfl

theorem shownBy_cons_of_not_contains {t : Tag} {rest : List Tag} {i : Nat}
    (outside : t.span.contains i = false) : shownBy (t :: rest) i = shownBy rest i := by
  rw [shownBy, lastTag_cons, outside, if_neg Bool.false_ne_true, Option.or_none]
  rfl

/-! ## Finding the stretches -/

/-- The list has the longest stretches of `hs`, the first of which stands at offset `pos`. -/
structure Stretches (pos : Nat) (hs : List Highlight) (runs : List Tag) : Prop where
  start : ∀ r ∈ runs, pos ≤ r.span.start
  nonempty : ∀ r ∈ runs, r.span.start < r.span.stop
  stop : ∀ r ∈ runs, r.span.stop ≤ pos + hs.length
  visible : ∀ r ∈ runs, r.highlight ≠ .none
  before : runs.Pairwise Tag.Before
  shown : ∀ i, shownBy runs (pos + i) = hs[i]?.getD .none

namespace Stretches

variable {pos : Nat} {h : Highlight} {hs : List Highlight} {later : List Tag}

theorem nil (pos : Nat) : Stretches pos [] [] :=
  ⟨nofun, nofun, nofun, nofun, .nil, fun _ => rfl⟩

/-- Stretches of what is behind a character are not on it. -/
theorem free (s : Stretches (pos + 1) hs later) : lastTag later pos = none := by
  refine lastTag_eq_none.2 fun r mem => Bool.eq_false_iff.2 fun inside => ?_
  have := s.start r mem
  rw [Span.contains_iff] at inside
  omega

/-- A character that is not shown. -/
theorem skip (s : Stretches (pos + 1) hs later) : Stretches pos (.none :: hs) later where
  start r mem := Nat.le_of_succ_le (s.start r mem)
  nonempty := s.nonempty
  stop r mem := by
    have := s.stop r mem
    rw [List.length_cons]
    omega
  visible := s.visible
  before := s.before
  shown i := by
    cases i with
    | zero =>
      rw [shownBy, Nat.add_zero, s.free]
      rfl
    | succ i => rw [show pos + (i + 1) = pos + 1 + i by omega, s.shown, List.getElem?_cons_succ]

/-- A character that starts a stretch, where no stretch like it follows at once. -/
theorem open_ (s : Stretches (pos + 1) hs later) (visible : h ≠ .none)
    (apart : ∀ r ∈ later, pos + 1 = r.span.start → h ≠ r.highlight) :
    Stretches pos (h :: hs) (⟨⟨pos, pos + 1⟩, h⟩ :: later) where
  start := List.forall_mem_cons.2 ⟨Nat.le_refl pos, fun r mem => Nat.le_of_succ_le (s.start r mem)⟩
  nonempty := List.forall_mem_cons.2 ⟨Nat.lt_succ_self pos, s.nonempty⟩
  stop := by
    refine List.forall_mem_cons.2 ⟨?_, fun r mem => ?_⟩
    · rw [List.length_cons]
      show pos + 1 ≤ _
      omega
    · have := s.stop r mem
      rw [List.length_cons]
      omega
  visible := List.forall_mem_cons.2 ⟨visible, s.visible⟩
  before := List.pairwise_cons.2 ⟨fun r mem => ⟨s.start r mem, apart r mem⟩, s.before⟩
  shown i := by
    cases i with
    | zero =>
      have own : (⟨pos, pos + 1⟩ : Span).contains pos = true :=
        (Span.contains_iff _ _).2 ⟨Nat.le_refl pos, Nat.lt_succ_self pos⟩
      exact shownBy_cons_of_contains own s.free
    | succ i =>
      have elsewhere : (⟨pos, pos + 1⟩ : Span).contains (pos + 1 + i) = false := by
        rw [Bool.eq_false_iff, ne_eq, Span.contains_iff]
        rintro ⟨-, before⟩
        exact absurd before (Nat.not_lt.2 (Nat.le_add_right (pos + 1) i))
      rw [show pos + (i + 1) = pos + 1 + i by omega, shownBy_cons_of_not_contains elsewhere,
        s.shown, List.getElem?_cons_succ]

/-- A character in front of a stretch that is shown like it. -/
theorem extend {first : Tag} {more : List Tag} (s : Stretches (pos + 1) hs (first :: more))
    (next : first.span.start = pos + 1) :
    Stretches pos (first.highlight :: hs)
      (⟨⟨pos, first.span.stop⟩, first.highlight⟩ :: more) := by
  obtain ⟨nonempty, nonempty'⟩ := List.forall_mem_cons.1 s.nonempty
  obtain ⟨stop, stop'⟩ := List.forall_mem_cons.1 s.stop
  obtain ⟨visible, visible'⟩ := List.forall_mem_cons.1 s.visible
  obtain ⟨before, before'⟩ := List.pairwise_cons.1 s.before
  have behind : ∀ r ∈ more, first.span.stop ≤ r.span.start := fun r mem => (before r mem).order
  have longer : pos < first.span.stop := by omega
  have reach (stop : Nat) (inside : stop ≤ pos + 1 + hs.length) :
      stop ≤ pos + (first.highlight :: hs).length := by
    rw [List.length_cons]
    omega
  refine ⟨?_, ?_, ?_, ?_, ?_, fun i => ?_⟩
  · refine List.forall_mem_cons.2 ⟨Nat.le_refl pos, fun r mem => ?_⟩
    exact Nat.le_trans (Nat.le_of_lt longer) (behind r mem)
  · exact List.forall_mem_cons.2 ⟨longer, nonempty'⟩
  · exact List.forall_mem_cons.2 ⟨reach _ stop, fun r mem => reach _ (stop' r mem)⟩
  · exact List.forall_mem_cons.2 ⟨visible, visible'⟩
  · exact List.pairwise_cons.2
      ⟨fun r mem => ⟨(before r mem).order, (before r mem).longest⟩, before'⟩
  · cases i with
    | zero =>
      have own : (⟨pos, first.span.stop⟩ : Span).contains pos = true :=
        (Span.contains_iff _ _).2 ⟨Nat.le_refl pos, longer⟩
      refine shownBy_cons_of_contains own (lastTag_eq_none.2 fun r mem => ?_)
      have := behind r mem
      rw [Bool.eq_false_iff, ne_eq, Span.contains_iff]
      omega
    | succ i =>
      -- behind the character the stretch is what it was before
      have same : (⟨pos, first.span.stop⟩ : Span).contains (pos + 1 + i) =
          first.span.contains (pos + 1 + i) := by
        rw [Bool.eq_iff_iff, Span.contains_iff, Span.contains_iff]
        show pos ≤ pos + 1 + i ∧ pos + 1 + i < first.span.stop ↔ _
        omega
      have shown := s.shown i
      rw [shownBy, lastTag_cons] at shown
      rw [show pos + (i + 1) = pos + 1 + i by omega, List.getElem?_cons_succ, ← shown, shownBy,
        lastTag_cons, same]
      cases lastTag more (pos + 1 + i) with
      | some _ => rfl
      | none => cases first.span.contains (pos + 1 + i) <;> rfl

end Stretches

theorem stretches_runsFrom (pos : Nat) (hs : List Highlight) :
    Stretches pos hs (Overlay.runsFrom pos hs) := by
  induction hs generalizing pos with
  | nil => exact .nil pos
  | cons h rest ih =>
    have s := ih (pos + 1)
    rw [Overlay.runsFrom]
    split
    · next hidden => exact hidden ▸ s.skip
    · next visible =>
      cases later : Overlay.runsFrom (pos + 1) rest with
      | nil =>
        rw [later] at s
        exact s.open_ visible nofun
      | cons first more =>
        rw [later] at s
        dsimp only
        split
        · next joined =>
          obtain ⟨rfl, next⟩ := joined
          exact s.extend next
        · next parted =>
          refine s.open_ visible (List.forall_mem_cons.2 ⟨?_, fun r mem touches => ?_⟩)
          · exact fun touches same => parted ⟨same.symm, touches.symm⟩
          · -- the first stretch lies between
            have := (List.rel_of_pairwise_cons s.before mem).order
            have := s.start first List.mem_cons_self
            have := s.nonempty first List.mem_cons_self
            omega

/-! ## Painting them -/

/-- At most one of several stretches is on a character, so their order makes no difference. -/
theorem lastTag_perm {runs runs' : List Tag} (before : runs.Pairwise Tag.Before)
    (perm : runs'.Perm runs) (i : Nat) : lastTag runs' i = lastTag runs i := by
  unfold lastTag
  have perm' : (runs'.filter (·.span.contains i)).Perm (runs.filter (·.span.contains i)) :=
    perm.filter _
  have on : ∀ r ∈ runs.filter (·.span.contains i), r.span.contains i = true :=
    fun r mem => (List.mem_filter.1 mem).2
  have before' := before.filter (·.span.contains i)
  generalize runs.filter (·.span.contains i) = here at perm' on before'
  match here with
  | [] => rw [perm'.eq_nil]
  | [r] => rw [List.perm_singleton.1 perm']
  | r :: r' :: _ =>
    have order := (List.rel_of_pairwise_cons before' List.mem_cons_self).order
    have stop := (Span.contains_iff _ _).1 (on r List.mem_cons_self)
    have start := (Span.contains_iff _ _).1 (on r' (List.mem_cons_of_mem _ List.mem_cons_self))
    omega

namespace Overlay

theorem get_eq_getElem? (o : Overlay) (i : Nat) : o.get i = o.highlights.toList[i]?.getD .none := by
  rw [get, Array.getElem?_toList]

theorem stretches_runs (o : Overlay) : Stretches 0 o.highlights.toList o.runs :=
  stretches_runsFrom 0 _

/-- Painting the runs of an overlay in any order gives it back. -/
theorem tagAll_runs (o : Overlay) {runs : List Tag} (perm : runs.Perm o.runs) :
    (blank o.length).tagAll runs = o := by
  refine ext_get (by simp) fun i => ?_
  rcases Nat.lt_or_ge i o.length with inside | beyond
  · have shown := o.stretches_runs.shown i
    rw [Nat.zero_add, ← get_eq_getElem?, shownBy] at shown
    rw [get_tagAll _ _ (by rwa [length_blank]), lastTag_perm o.stretches_runs.before perm,
      get_blank, shown]
  · rw [get_of_length_le beyond, get_of_length_le (by rwa [length_tagAll, length_blank])]

end Overlay

/-- **The runs represent the overlay.** Whatever was tagged, the runs are not empty, lie in the
overlay and show something; each ends before the next starts, or where it starts and then they are
shown differently; and tagging a blank overlay with them, in any order, gives the overlay back. -/
theorem runs_represent_overlay (length : Nat) (tags : List Tag) :
    let o := (Overlay.blank length).tagAll tags
    (∀ r ∈ o.runs, r.span.start < r.span.stop ∧ r.span.stop ≤ length ∧ r.highlight ≠ .none) ∧
    o.runs.Pairwise (fun r r' => r.span.stop ≤ r'.span.start ∧
      (r.span.stop = r'.span.start → r.highlight ≠ r'.highlight)) ∧
    ∀ runs : List Tag, runs.Perm o.runs → (Overlay.blank length).tagAll runs = o := by
  intro o
  have size : o.length = length := by simp [o]
  have s := o.stretches_runs
  refine ⟨fun r mem => ⟨s.nonempty r mem, ?_, s.visible r mem⟩, ?_, fun runs perm => ?_⟩
  · have stop := s.stop r mem
    rwa [Nat.zero_add, Array.length_toList, show o.highlights.size = length from size] at stop
  · exact s.before.imp fun before => ⟨before.order, before.longest⟩
  · rw [← size]
    exact o.tagAll_runs perm

/-- Tags that overlap, lie outside the overlay, end before they start, or show nothing. -/
def tangledTags : List Tag :=
  [⟨⟨1, 6⟩, .comment⟩, ⟨⟨8, 99⟩, .kwVar⟩, ⟨⟨3, 4⟩, .none⟩, ⟨⟨7, 2⟩, .this⟩, ⟨⟨5, 8⟩, .comment⟩,
    ⟨⟨20, 30⟩, .base⟩]

/-- Two of the runs touch, and from right to left they give the overlay back, too. -/
theorem tangled_tags_represented :
    let o := (Overlay.blank 10).tagAll tangledTags
    o.runs = [⟨⟨1, 3⟩, .comment⟩, ⟨⟨4, 8⟩, .comment⟩, ⟨⟨8, 10⟩, .kwVar⟩] ∧
    o.runs.reverse.Perm o.runs ∧ (Overlay.blank 10).tagAll o.runs.reverse = o := by
  intro o
  have perm := o.runs.reverse_perm
  exact ⟨by decide, perm, (runs_represent_overlay 10 tangledTags).2.2 _ perm⟩

end Scriptlet
