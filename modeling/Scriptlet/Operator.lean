import Scriptlet.Token

/-!
# Operators

The operators of expressions, each with the symbol it is written by and the token that writes it.
-/

namespace Scriptlet

/-- Operators that always evaluate both operands. -/
inductive BinaryOp where
  | add
  | sub
  | mul
  | div
  | bitOr
  | bitAnd
  | bitXor
  | eq
  | ne
  | lt
  | le
  | gt
  | ge
deriving DecidableEq, Repr

/-- Operators that evaluate the right operand only if the left one does not decide. -/
inductive LogicalOp where
  | and
  | or
  | coalesce
deriving DecidableEq, Repr

inductive UnaryOp where
  | not
  | neg
deriving DecidableEq, Repr

/-- Operators that change their operand by one. -/
inductive StepOp where
  | increment
  | decrement
deriving DecidableEq, Repr

namespace BinaryOp

def symbol : BinaryOp → String
  | add => "+"
  | sub => "-"
  | mul => "*"
  | div => "/"
  | bitOr => "|"
  | bitAnd => "&"
  | bitXor => "^"
  | eq => "=="
  | ne => "!="
  | lt => "<"
  | le => "<="
  | gt => ">"
  | ge => ">="

def all : List BinaryOp := [add, sub, mul, div, bitOr, bitAnd, bitXor, eq, ne, lt, le, gt, ge]

/-- The operator that a token writes. -/
def ofToken? : TokenKind → Option BinaryOp
  | .plus => some add
  | .minus => some sub
  | .star => some mul
  | .slash => some div
  | .pipe => some bitOr
  | .ampersand => some bitAnd
  | .caret => some bitXor
  | .equalEqual => some eq
  | .bangEqual => some ne
  | .less => some lt
  | .lessEqual => some le
  | .greater => some gt
  | .greaterEqual => some ge
  | _ => none

/-- The operator that a compound assignment applies. -/
def ofCompound? : TokenKind → Option BinaryOp
  | .plusEqual => some add
  | .minusEqual => some sub
  | .starEqual => some mul
  | .slashEqual => some div
  | .pipeEqual => some bitOr
  | .ampersandEqual => some bitAnd
  | .caretEqual => some bitXor
  | _ => none

/-- The operator with a symbol. -/
def ofSymbol? (s : String) : Option BinaryOp := all.find? (·.symbol == s)

/-- No two operators share a symbol. -/
@[simp] theorem ofSymbol?_symbol (op : BinaryOp) : ofSymbol? op.symbol = some op := by
  cases op <;> decide

end BinaryOp

namespace LogicalOp

def symbol : LogicalOp → String
  | and => "&&"
  | or => "||"
  | coalesce => "??"

/-- The operator that a token writes. -/
def ofToken? : TokenKind → Option LogicalOp
  | .ampersandAmpersand => some and
  | .pipePipe => some or
  | .questionQuestion => some coalesce
  | _ => none

end LogicalOp

namespace UnaryOp

def symbol : UnaryOp → String
  | not => "!"
  | neg => "-"

/-- The operator that a token writes. -/
def ofToken? : TokenKind → Option UnaryOp
  | .bang => some not
  | .minus => some neg
  | _ => none

/-- The operator with a symbol. -/
def ofSymbol? (s : String) : Option UnaryOp := [not, neg].find? (·.symbol == s)

end UnaryOp

namespace StepOp

def symbol : StepOp → String
  | increment => "++"
  | decrement => "--"

/-- What the operator adds. -/
def delta : StepOp → Float
  | increment => 1.0
  | decrement => -1.0

/-- The operator that a token writes. -/
def ofToken? : TokenKind → Option StepOp
  | .plusPlus => some increment
  | .minusMinus => some decrement
  | _ => none

end StepOp

/-! ## Precedence -/

/-- Operators written between two operands. -/
inductive Infix where
  | binary (op : BinaryOp)
  | logical (op : LogicalOp)
deriving DecidableEq, Repr

namespace Infix

/-- The operator that a token writes. -/
def ofToken? (kind : TokenKind) : Option Infix :=
  match BinaryOp.ofToken? kind with
  | some op => some (binary op)
  | none => (LogicalOp.ofToken? kind).map logical

/-- The level of an operator on the precedence ladder; a higher level binds tighter. All levels
associate to the left. -/
def level : Infix → Nat
  | logical .coalesce => 0
  | logical .and | logical .or => 1
  | binary .eq | binary .ne => 2
  | binary .lt | binary .le | binary .gt | binary .ge => 3
  | binary .bitOr | binary .bitAnd | binary .bitXor => 4
  | binary .add | binary .sub => 5
  | binary .mul | binary .div => 6

/-- The number of levels. -/
def levels : Nat := 7

/-- The operator that a token writes at a level. -/
def at? (level : Nat) (kind : TokenKind) : Option Infix :=
  (ofToken? kind).filter (·.level == level)

theorem level_lt (op : Infix) : op.level < levels := by
  rcases op with op | op <;> cases op <;> decide

end Infix
end Scriptlet
