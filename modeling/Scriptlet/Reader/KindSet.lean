import Scriptlet.Token

/-!
# Sets of token kinds

Reading resumes after a problem at a token whose kind is in a set of boundaries.
-/

namespace Scriptlet

/-- A set of token kinds, given by membership. -/
structure KindSet where
  contains : TokenKind → Bool

namespace KindSet

def ofList (kinds : List TokenKind) : KindSet := ⟨kinds.contains⟩

def insert (s : KindSet) (kind : TokenKind) : KindSet := ⟨fun k => k == kind || s.contains k⟩

def union (s t : KindSet) : KindSet := ⟨fun k => s.contains k || t.contains k⟩

/-- The members, in the order of the kinds. -/
def members (s : KindSet) : List TokenKind := TokenKind.all.filter s.contains

def count (s : KindSet) : Nat := s.members.length

/-- Whether two sets have the same members. -/
def same (s t : KindSet) : Bool := s.members == t.members

/-- The kinds with which a statement outside a block plausibly starts, and the end. -/
def outside : KindSet := ofList [.kwIf, .kwWhile, .kwFunction, .kwClass, .kwVar, .kwConst, .eof]

/-- The boundaries inside a block, where the closing brace is one too. -/
def inside : KindSet := outside.insert .rightBrace

@[simp] theorem contains_union (s t : KindSet) (k : TokenKind) :
    (s.union t).contains k = (s.contains k || t.contains k) := rfl

@[simp] theorem contains_insert (s : KindSet) (kind k : TokenKind) :
    (s.insert kind).contains k = (k == kind || s.contains k) := rfl

theorem contains_inside_of_outside {k : TokenKind} (h : outside.contains k = true) :
    inside.contains k = true := by
  rw [inside, contains_insert, h, Bool.or_true]

end KindSet

/-- A set of kinds that the end belongs to. Only such a set is a place to go on at: skipping to the
next token of any other set need not end. -/
structure Boundary extends KindSet where
  contains_eof : contains .eof = true

namespace Boundary

/-- Where reading goes on outside a block. -/
def outside : Boundary := ⟨.outside, by decide⟩

/-- Where reading goes on inside a block. -/
def inside : Boundary := ⟨.inside, by decide⟩

end Boundary
end Scriptlet
