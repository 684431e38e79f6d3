import Scriptlet.Paint.Highlight

/-!
# Overlays

An overlay has one highlight for every character of a text. Tagging a span replaces the highlights
of its characters, and the part of a span outside the text is ignored. `Overlay.runs` lists the
longest stretches of characters that are shown in the same way.
-/

namespace Scriptlet

/-- One highlight for every character. -/
structure Overlay where
  highlights : Array Highlight
deriving DecidableEq, Repr

namespace Overlay

/-- The overlay of a text with `length` characters before anything is tagged. -/
def blank (length : Nat) : Overlay := ⟨Array.replicate length .none⟩

def ofText (text : String) : Overlay := blank text.length

def length (o : Overlay) : Nat := o.highlights.size

/-- Replace `count` highlights from `start` on. -/
def fillFrom (highlight : Highlight) (start : Nat) : Nat → Array Highlight → Array Highlight
  | 0, a => a
  | count + 1, a => fillFrom highlight (start + 1) count (a.setIfInBounds start highlight)

/-- Show the characters of a span in one way. -/
def tag (o : Overlay) (t : Tag) : Overlay :=
  let stop := min t.span.stop o.highlights.size
  ⟨fillFrom t.highlight t.span.start (stop - t.span.start) o.highlights⟩

/-- Apply tags one after the other. -/
def tagAll (o : Overlay) (tags : List Tag) : Overlay := tags.foldl tag o

/-- The highlight of a character; beyond the text there is none. -/
def get (o : Overlay) (offset : Nat) : Highlight := o.highlights[offset]?.getD .none

/-- The stretches of a list of highlights whose first stands at `pos`. -/
def runsFrom (pos : Nat) : List Highlight → List Tag
  | [] => []
  | h :: rest =>
    let later := runsFrom (pos + 1) rest
    if h = .none then later
    else match later with
      | [] => [⟨⟨pos, pos + 1⟩, h⟩]
      | first :: more =>
        if first.highlight = h ∧ first.span.start = pos + 1 then
          ⟨⟨pos, first.span.stop⟩, h⟩ :: more
        else ⟨⟨pos, pos + 1⟩, h⟩ :: first :: more

/-- The longest stretches of characters with the same highlight, those without one left out. -/
def runs (o : Overlay) : List Tag := runsFrom 0 o.highlights.toList

theorem size_fillFrom (highlight : Highlight) (start count : Nat) (a : Array Highlight) :
    (fillFrom highlight start count a).size = a.size := by
  induction count generalizing start a with
  | zero => rfl
  | succ count ih => simp [fillFrom, ih]

@[simp] theorem length_blank (n : Nat) : (blank n).length = n := by
  simp [blank, length]

@[simp] theorem length_tag (o : Overlay) (t : Tag) : (o.tag t).length = o.length :=
  size_fillFrom ..

theorem getElem?_fillFrom (highlight : Highlight) (start count i : Nat) (a : Array Highlight) :
    (fillFrom highlight start count a)[i]? =
      if start ≤ i ∧ i < start + count ∧ i < a.size then some highlight else a[i]? := by
  induction count generalizing start a with
  | zero =>
    have : ¬ (start ≤ i ∧ i < start + 0 ∧ i < a.size) := by omega
    rw [if_neg this]; rfl
  | succ count ih =>
    rw [fillFrom, ih, Array.getElem?_setIfInBounds, Array.size_setIfInBounds]
    by_cases h : start = i
    · by_cases hi : i < a.size
      · subst h; simp [hi]
      · simp [hi, h]
    · by_cases h1 : start + 1 ≤ i ∧ i < start + 1 + count ∧ i < a.size
      · have h2 : start ≤ i ∧ i < start + (count + 1) ∧ i < a.size := by omega
        rw [if_pos h1, if_pos h2]
      · have h2 : ¬ (start ≤ i ∧ i < start + (count + 1) ∧ i < a.size) := by omega
        rw [if_neg h1, if_neg h2, if_neg h]

/-- The highlight of a character after tagging: the new one inside the span, the old one outside. -/
theorem get_tag (o : Overlay) (t : Tag) (i : Nat) :
    (o.tag t).get i = if t.span.contains i ∧ i < o.length then t.highlight else o.get i := by
  simp only [get, tag, getElem?_fillFrom, Span.contains_iff, length]
  by_cases h : (t.span.start ≤ i ∧ i < t.span.stop) ∧ i < o.highlights.size
  · have h2 : t.span.start ≤ i ∧
        i < t.span.start + (min t.span.stop o.highlights.size - t.span.start) ∧
        i < o.highlights.size := by omega
    rw [if_pos h, if_pos h2]; rfl
  · have h2 : ¬ (t.span.start ≤ i ∧
        i < t.span.start + (min t.span.stop o.highlights.size - t.span.start) ∧
        i < o.highlights.size) := by omega
    rw [if_neg h, if_neg h2]

end Overlay
end Scriptlet
