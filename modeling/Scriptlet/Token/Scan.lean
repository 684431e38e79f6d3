import Scriptlet.Token
import Scriptlet.Token.Error
import Scriptlet.Number.Text

/-!
# Scanning

`scan` cuts a text into tokens. At every character that is not a blank, `extent` decides by the
characters ahead what kind of token starts there and how many further characters it takes; kind,
lexeme and literal are then read off those characters. A character with which no token starts is
recorded and skipped. The list ends with one token of kind `eof`.
-/

namespace Scriptlet

/-! ## What starts at a character -/

/-- Blanks between tokens. -/
def isGap (c : Char) : Bool := c == ' ' || c == '\t' || c == '\r' || c == '\n'

/-- Characters with which a word starts. -/
def isWordStart (c : Char) : Bool := c.isAlpha || c == '_'

/-- Characters with which a word goes on. -/
def isWordPart (c : Char) : Bool := c.isAlphanum || c == '_'

/-- Characters with which a number goes on. -/
def isNumberPart (c : Char) : Bool := c.isDigit || c == '.'

/-- The operators of two characters. -/
def pairKind : Char → Char → Option TokenKind
  | '!', '=' => some .bangEqual
  | '=', '=' => some .equalEqual
  | '>', '=' => some .greaterEqual
  | '<', '=' => some .lessEqual
  | '?', '?' => some .questionQuestion
  | '^', '=' => some .caretEqual
  | '*', '=' => some .starEqual
  | '/', '=' => some .slashEqual
  | '+', '+' => some .plusPlus
  | '+', '=' => some .plusEqual
  | '-', '-' => some .minusMinus
  | '-', '=' => some .minusEqual
  | '|', '|' => some .pipePipe
  | '|', '=' => some .pipeEqual
  | '&', '&' => some .ampersandAmpersand
  | '&', '=' => some .ampersandEqual
  | _, _ => none

/-- The operators and brackets of one character. -/
def singleKind : Char → Option TokenKind
  | '(' => some .leftParen
  | ')' => some .rightParen
  | '[' => some .leftBracket
  | ']' => some .rightBracket
  | '\x7b' => some .leftBrace
  | '\x7d' => some .rightBrace
  | ';' => some .semicolon
  | ':' => some .colon
  | ',' => some .comma
  | '.' => some .dot
  | '!' => some .bang
  | '=' => some .equal
  | '>' => some .greater
  | '<' => some .less
  | '?' => some .question
  | '^' => some .caret
  | '*' => some .star
  | '/' => some .slash
  | '+' => some .plus
  | '-' => some .minus
  | '|' => some .pipe
  | '&' => some .ampersand
  | _ => none

/-- How many characters a text literal takes after its opening quote: up to and including the next
quote, or all if there is none. -/
def textExtent (rest : List Char) : Nat :=
  let body := (rest.takeWhile (· != '"')).length
  if body < rest.length then body + 1 else body

/-- The kind of the token that starts with `c`, and how many of the characters after `c` it takes.
The longest token wins; `none` if no token starts with `c`. -/
def extent (c : Char) (rest : List Char) : Option (TokenKind × Nat) :=
  if c = '"' then some (.textLiteral, textExtent rest)
  else if c = '/' ∧ rest.head? = some '/' then
    some (.comment, (rest.takeWhile (· != '\n')).length)
  else match rest.head?.bind (pairKind c) with
    | some kind => some (kind, 1)
    | none =>
      match singleKind c with
      | some kind => some (kind, 0)
      | none =>
        if c.isDigit then some (.numberLiteral, (rest.takeWhile isNumberPart).length)
        else if isWordStart c then
          let word := rest.takeWhile isWordPart
          some (.ofWord (String.ofList (c :: word)), word.length)
        else none

/-! ## Literals -/

/-- The text between quotes: a backslash followed by the letter `n` stands for a line feed. -/
def unescape : List Char → List Char
  | [] => []
  | '\\' :: 'n' :: rest => '\n' :: unescape rest
  | c :: rest => c :: unescape rest

/-- The characters between the quotes of a text literal, the closing one of which may be missing. -/
def textBody (lexeme : List Char) : List Char := (lexeme.drop 1).takeWhile (· != '"')

/-- Whether a text literal has its closing quote. -/
def isClosed (lexeme : List Char) : Bool := (lexeme.drop 1).contains '"'

/-- A number without the points after its first. -/
def dropSurplusPoints (lexeme : List Char) : List Char :=
  let (before, rest) := lexeme.span (· != '.')
  match rest with
  | [] => before
  | point :: after => before ++ point :: after.filter (· != '.')

/-- The offsets of the points after the first, for a number that starts at `pos`. -/
def surplusPoints (pos : Nat) (seen : Bool) : List Char → List Nat
  | [] => []
  | c :: rest =>
    if c = '.' then
      if seen then pos :: surplusPoints (pos + 1) true rest else surplusPoints (pos + 1) true rest
    else surplusPoints (pos + 1) seen rest

/-- The value of a token of a given kind. -/
def literalOf (kind : TokenKind) (lexeme : List Char) : Option Literal :=
  match kind with
  | .textLiteral => some (.text (String.ofList (unescape (textBody lexeme))))
  | .numberLiteral => (Number.read? (String.ofList (dropSurplusPoints lexeme))).map .number
  | _ => none

/-- The problems with a token of a given kind. -/
def problemsOf (kind : TokenKind) (lexeme : List Char) (pos line : Nat) : List ScanError :=
  let span : Span := ⟨pos, pos + lexeme.length⟩
  match kind with
  | .textLiteral => if isClosed lexeme then [] else [⟨.unterminatedText, span, line⟩]
  | .numberLiteral =>
    let digits := String.ofList (dropSurplusPoints lexeme)
    (surplusPoints pos false lexeme).map (fun at_ => ⟨.surplusPoint, ⟨at_, at_ + 1⟩, line⟩) ++
      (if (Number.read? digits).isSome then [] else [⟨.malformedNumber digits, span, line⟩])
  | _ => []

/-! ## The scan -/

/-- A token, with the problems recorded since the token before it. -/
structure Scanned where
  errors : List ScanError
  token : Token
deriving DecidableEq, Repr

/-- Record a problem before those of the first token. -/
def Scanned.record (e : ScanError) : List Scanned → List Scanned
  | [] => []
  | first :: rest => { first with errors := e :: first.errors } :: rest

/-- Scan the characters from offset `pos` on. -/
def scanFrom (cs : List Char) (pos line : Nat) : List Scanned :=
  match cs with
  | [] => [⟨[], .ending line pos⟩]
  | c :: rest =>
    if isGap c then scanFrom rest (pos + 1) (if c = '\n' then line + 1 else line)
    else match extent c rest with
      | none =>
        Scanned.record ⟨.unexpectedCharacter c, ⟨pos, pos + 1⟩, line⟩ (scanFrom rest (pos + 1) line)
      | some (kind, more) =>
        let lexeme := c :: rest.take more
        let token : Token :=
          ⟨kind, String.ofList lexeme, line, literalOf kind lexeme, ⟨pos, pos + lexeme.length⟩⟩
        ⟨problemsOf kind lexeme pos line, token⟩ ::
          scanFrom (rest.drop more) (pos + lexeme.length) (line + lexeme.count '\n')
termination_by cs.length
decreasing_by all_goals simp [List.length_drop]; try omega

/-- The tokens of a text, each with the problems recorded on the way to it. -/
def scan (text : String) : List Scanned := scanFrom text.toList 0 1

/-- The tokens of a scan. -/
def Scanned.tokens (scanned : List Scanned) : List Token := scanned.map (·.token)

/-- All problems of a scan, in the order of their recording. -/
def Scanned.problems (scanned : List Scanned) : List ScanError := scanned.flatMap (·.errors)

/-! ## One token at a time -/

/-- A scanner between two tokens. -/
structure Scanner where
  rest : List Char
  pos : Nat
  line : Nat
  /-- Whether the end token was handed out. -/
  ended : Bool

namespace Scanner

/-- The scanner before the first token of a text. -/
def ofText (text : String) : Scanner := ⟨text.toList, 0, 1, false⟩

/-- Walk over blanks and stray characters to the next token: the token with the problems on the way,
and the scanner behind it. At the end of the characters there is one end token, and then nothing. -/
def seek (ended : Bool) : List Char → Nat → Nat → Option Scanned × Scanner
  | [], pos, line =>
    (if ended then none else some ⟨[], .ending line pos⟩, ⟨[], pos, line, true⟩)
  | c :: rest, pos, line =>
    if isGap c then seek ended rest (pos + 1) (if c = '\n' then line + 1 else line)
    else match extent c rest with
      | none =>
        let (answer, next) := seek ended rest (pos + 1) line
        let stray : ScanError := ⟨.unexpectedCharacter c, ⟨pos, pos + 1⟩, line⟩
        (answer.map fun first => { first with errors := stray :: first.errors }, next)
      | some (kind, more) =>
        let lexeme := c :: rest.take more
        let token : Token :=
          ⟨kind, String.ofList lexeme, line, literalOf kind lexeme, ⟨pos, pos + lexeme.length⟩⟩
        (some ⟨problemsOf kind lexeme pos line, token⟩,
          ⟨rest.drop more, pos + lexeme.length, line + lexeme.count '\n', ended⟩)

/-- Ask for the next token. -/
def next (s : Scanner) : Option Scanned × Scanner := seek s.ended s.rest s.pos s.line

/-- What the scanner answers when it is asked once more after `n` times. -/
def answer : Nat → Scanner → Option Scanned
  | 0, s => s.next.1
  | n + 1, s => answer n s.next.2

end Scanner

/-! ## Problems and tokens -/

/-- Recording a problem leaves the tokens alone. -/
@[simp] theorem Scanned.tokens_record (e : ScanError) (scanned : List Scanned) :
    Scanned.tokens (Scanned.record e scanned) = Scanned.tokens scanned := by
  cases scanned <;> rfl

theorem scanFrom_ne_nil (cs : List Char) (pos line : Nat) : scanFrom cs pos line ≠ [] := by
  fun_induction scanFrom cs pos line with
  | case1 => nofun
  | case2 _ _ _ _ _ ih => exact ih
  | case3 pos line c rest _ _ ih =>
    cases scanned : scanFrom rest (pos + 1) line with
    | nil => exact absurd scanned ih
    | cons first later => nofun
  | case4 => nofun

/-- A problem recorded before a scan comes first. -/
theorem Scanned.problems_record (e : ScanError) (cs : List Char) (pos line : Nat) :
    Scanned.problems (Scanned.record e (scanFrom cs pos line)) =
      e :: Scanned.problems (scanFrom cs pos line) := by
  cases scanned : scanFrom cs pos line with
  | nil => exact absurd scanned (scanFrom_ne_nil cs pos line)
  | cons first later => rfl

end Scriptlet
