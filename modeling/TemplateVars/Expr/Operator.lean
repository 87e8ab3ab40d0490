/-
The operators of expressions, with their spellings and the binding strength of
the infix ones.

Design notes: the higher the precedence, the tighter an infix operator binds.
Operators of one precedence group to the left; `**`, which binds tightest and
groups to the right, is not in the table.  `??` and `||` share the lowest rank
and may be mixed.
-/
import TemplateVars.Token.Basic

namespace TemplateVars

inductive BinaryOperator where
  | add | subtract | multiply | divide | remainder | exponent
  | equal | notEqual | strictEqual | strictNotEqual
  | less | lessEqual | greater | greaterEqual
  | shiftLeft | shiftRight | unsignedShiftRight
  | bitAnd | bitOr | bitXor | memberOf | instanceOf
  deriving DecidableEq, Repr

def BinaryOperator.spelling : BinaryOperator → String
  | add => "+"
  | subtract => "-"
  | multiply => "*"
  | divide => "/"
  | remainder => "%"
  | exponent => "**"
  | equal => "=="
  | notEqual => "!="
  | strictEqual => "==="
  | strictNotEqual => "!=="
  | less => "<"
  | lessEqual => "<="
  | greater => ">"
  | greaterEqual => ">="
  | shiftLeft => "<<"
  | shiftRight => ">>"
  | unsignedShiftRight => ">>>"
  | bitAnd => "&"
  | bitOr => "|"
  | bitXor => "^"
  | memberOf => "in"
  | instanceOf => "instanceof"

inductive LogicalOperator where
  | and | or | nullish
  deriving DecidableEq, Repr

def LogicalOperator.spelling : LogicalOperator → String
  | and => "&&"
  | or => "||"
  | nullish => "??"

inductive UnaryOperator where
  | not | bitNot | plus | minus | typeof | void | delete
  deriving DecidableEq, Repr

def UnaryOperator.spelling : UnaryOperator → String
  | not => "!"
  | bitNot => "~"
  | plus => "+"
  | minus => "-"
  | typeof => "typeof"
  | void => "void"
  | delete => "delete"

inductive UpdateOperator where
  | increment | decrement
  deriving DecidableEq, Repr

def UpdateOperator.spelling : UpdateOperator → String
  | increment => "++"
  | decrement => "--"

/-- The side of its operand on which an update operator stands. -/
inductive UpdatePlace where
  | before | after
  deriving DecidableEq, Repr

/-- An operator between two operands. -/
inductive InfixOperator where
  | binary (operator : BinaryOperator)
  | logical (operator : LogicalOperator)
  deriving DecidableEq, Repr

namespace TokenKind

/-- The unary operator a token stands for in front of an operand. -/
def unaryOperator? : TokenKind → Option UnaryOperator
  | punct .bang => some .not
  | punct .tilde => some .bitNot
  | punct .plus => some .plus
  | punct .minus => some .minus
  | keyword .typeof => some .typeof
  | keyword .void => some .void
  | keyword .delete => some .delete
  | _ => none

/-- The update operator a token stands for. -/
def updateOperator? : TokenKind → Option UpdateOperator
  | punct .plusPlus => some .increment
  | punct .minusMinus => some .decrement
  | _ => none

/-- The infix operator a token stands for after an operand, with its
precedence. -/
def infixOperator? : TokenKind → Option (Nat × InfixOperator)
  | punct .questionQuestion => some (1, .logical .nullish)
  | punct .pipePipe => some (1, .logical .or)
  | punct .ampAmp => some (2, .logical .and)
  | punct .pipe => some (3, .binary .bitOr)
  | punct .caret => some (4, .binary .bitXor)
  | punct .ampersand => some (5, .binary .bitAnd)
  | punct .equalEqual => some (6, .binary .equal)
  | punct .notEqual => some (6, .binary .notEqual)
  | punct .strictEqual => some (6, .binary .strictEqual)
  | punct .strictNotEqual => some (6, .binary .strictNotEqual)
  | punct .less => some (7, .binary .less)
  | punct .lessEqual => some (7, .binary .lessEqual)
  | punct .greater => some (7, .binary .greater)
  | punct .greaterEqual => some (7, .binary .greaterEqual)
  | keyword .memberOf => some (7, .binary .memberOf)
  | keyword .instanceOf => some (7, .binary .instanceOf)
  | punct .shiftLeft => some (8, .binary .shiftLeft)
  | punct .shiftRight => some (8, .binary .shiftRight)
  | punct .unsignedShiftRight => some (8, .binary .unsignedShiftRight)
  | punct .plus => some (9, .binary .add)
  | punct .minus => some (9, .binary .subtract)
  | punct .star => some (10, .binary .multiply)
  | punct .slash => some (10, .binary .divide)
  | punct .percent => some (10, .binary .remainder)
  | _ => none

/-- The highest precedence of an infix operator. -/
def maxPrecedence : Nat := 10

theorem precedence_bounds {k : TokenKind} {p : Nat} {op : InfixOperator}
    (h : k.infixOperator? = some (p, op)) : 1 ≤ p ∧ p ≤ maxPrecedence := by
  unfold infixOperator? at h
  split at h <;> simp_all [maxPrecedence] <;> omega

end TokenKind

end TemplateVars
