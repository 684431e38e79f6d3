import Scriptlet.Proofs.Reader.Blame
import Scriptlet.Proofs.Token.Values

/-!
# Literals always have values

Scanning gives every literal the value that its kind calls for (`decoded_of_mem_scan`), whatever
else is wrong with a text. So the reader, which can only miss a value where a token lacks it
(`founded_ofTokens`), never misses one.
-/

namespace Scriptlet

/-- The token has the value that its kind calls for: a number the one of its lexeme without surplus
points, a text literal some text, and other tokens none. -/
def Token.Decoded (t : Token) : Prop :=
  match t.kind with
  | .numberLiteral =>
    Number.read? (String.ofList (dropSurplusPoints t.lexeme.toList)) =
        some (numberValue t.lexeme.toList) ∧
      t.literal = some (.number (numberValue t.lexeme.toList))
  | .textLiteral => ∃ value, t.literal = some (.text value)
  | _ => t.literal = none

theorem Token.Decoded.not_valueless {t : Token} (h : t.Decoded) : ¬ t.Valueless := by
  rintro ⟨number | text, none⟩
  · rw [Decoded, number, none] at h
    obtain ⟨-, value⟩ := h
    cases value
  · rw [Decoded, text, none] at h
    obtain ⟨value, some_⟩ := h
    cases some_

theorem decoded_of_mem_scan {text : String} {t : Token} (mem : t ∈ Scanned.tokens (scan text)) :
    t.Decoded := by
  have literal := literal_of_mem_scanFrom mem
  unfold Token.Decoded
  split
  · next number => exact literal_of_number mem number
  · next kind => exact ⟨_, literal.trans (by rw [kind]; rfl)⟩
  · next number text => rw [literal, literalOf.eq_3 _ _ text number]

/-- **Literals are always decoded.** Every token of a text has the value that its kind calls for. No
problem says that a number cannot be read; what is reported of numbers are the surplus points, each
once, in order and in its place. And no problem with the program says that a literal has no value.
-/
theorem literals_decoded (text : String) :
    (∀ t ∈ Scanned.tokens (scan text), t.Decoded) ∧
    (∀ e ∈ Scanned.problems (scan text), ∀ digits, e.cause ≠ .malformedNumber digits) ∧
    (∃ offsets : List Nat, offsets.Pairwise (· < ·) ∧
      (∀ i, i ∈ offsets ↔ IsSurplusPoint text i) ∧
        Scanned.surplus (scan text) = offsets.map fun i => ⟨i, i + 1⟩) ∧
    ∀ mode, ∀ e ∈ (Program.ofTokens mode (Scanned.tokens (scan text))).errors,
      e.expected ≠ .literalValue := by
  refine ⟨fun t mem => decoded_of_mem_scan mem, (scanFrom_points text.toList 0 1).1,
    surplus_reported text, fun mode e mem missing => ?_⟩
  obtain ⟨t, there, valueless⟩ := (founded_ofTokens mem).valueless missing
  exact (decoded_of_mem_scan (mem_scan_of_mem_stream there)).not_valueless valueless

/-- Three points in a number are two too many, and the number is still read. -/
example :
    Scanned.surplus (scan "x = 1.2.3.") = [⟨7, 8⟩, ⟨9, 10⟩] ∧
      (Program.ofTokens .interactive (Scanned.tokens (scan "x = 1.2.3."))).errors = [] := by
  decide +kernel

end Scriptlet
