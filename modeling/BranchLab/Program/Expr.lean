/-! The operators of the language and its expressions. Arithmetic on 64-bit signed words wraps,
division by zero gives zero, and a shift uses the low six bits of its amount. In the written form
every infix operation stands in parentheses and an operator before its operand stands directly in
front of it. -/

namespace BranchLab

inductive BinaryOp where
  | mul | div | rem | add | sub | shl | shr | lt | gt | le | ge | eq | ne
  | bitAnd | bitXor | bitOr | and | or
deriving DecidableEq

inductive UnaryOp where
  | not | bitNot
deriving DecidableEq

namespace BinaryOp

/-- Every operator, those that bind tightest first. -/
def all : List BinaryOp :=
  [mul, div, rem, add, sub, shl, shr, lt, gt, le, ge, eq, ne, bitAnd, bitXor, bitOr, and, or]

theorem mem_all (op : BinaryOp) : op ∈ all := by cases op <;> decide

def symbol : BinaryOp → String
  | mul => "*" | div => "/" | rem => "%" | add => "+" | sub => "-"
  | shl => "<<" | shr => ">>" | lt => "<" | gt => ">" | le => "<=" | ge => ">="
  | eq => "==" | ne => "!=" | bitAnd => "&" | bitXor => "^" | bitOr => "|"
  | and => "&&" | or => "||"

def precedence : BinaryOp → Nat
  | mul | div | rem => 10
  | add | sub => 9
  | shl | shr => 8
  | lt | gt | le | ge => 7
  | eq | ne => 6
  | bitAnd => 5
  | bitXor => 4
  | bitOr => 3
  | and => 2
  | or => 1

def loosest : Nat := 1

theorem loosest_le_precedence (op : BinaryOp) : loosest ≤ op.precedence := by
  cases op <;> decide

end BinaryOp

def UnaryOp.symbol : UnaryOp → String
  | not => "!"
  | bitNot => "~"

def truth (holds : Bool) : Int64 := if holds then 1 else 0

def shiftPlaces (amount : Int64) : Int64 := amount &&& 63

def BinaryOp.apply : BinaryOp → Int64 → Int64 → Int64
  | mul, a, b => a * b
  | div, a, b => if b = 0 then 0 else a / b
  | rem, a, b => if b = 0 then 0 else a % b
  | add, a, b => a + b
  | sub, a, b => a - b
  | shl, a, b => a <<< shiftPlaces b
  | shr, a, b => a >>> shiftPlaces b
  | lt, a, b => truth (a < b)
  | gt, a, b => truth (b < a)
  | le, a, b => truth (a ≤ b)
  | ge, a, b => truth (b ≤ a)
  | eq, a, b => truth (a = b)
  | ne, a, b => truth (a ≠ b)
  | bitAnd, a, b => a &&& b
  | bitXor, a, b => a ^^^ b
  | bitOr, a, b => a ||| b
  | and, a, b => truth (a ≠ 0 ∧ b ≠ 0)
  | or, a, b => truth (a ≠ 0 ∨ b ≠ 0)

def UnaryOp.apply : UnaryOp → Int64 → Int64
  | not, a => truth (a = 0)
  | bitNot, a => ~~~a

inductive Expr where
  | number (value : Int64)
  | ident (name : String)
  | binary (op : BinaryOp) (lhs rhs : Expr)
  | unary (op : UnaryOp) (operand : Expr)
  | random (bound : Expr)
deriving DecidableEq

namespace Expr

def text : Expr → String
  | number value => toString value.toInt
  | ident name => name
  | binary op lhs rhs => "(" ++ lhs.text ++ " " ++ op.symbol ++ " " ++ rhs.text ++ ")"
  | unary op operand => op.symbol ++ operand.text
  | random bound => "rand(" ++ bound.text ++ ")"

def names : Expr → List String
  | number _ => []
  | ident name => [name]
  | binary _ lhs rhs => lhs.names ++ rhs.names
  | unary _ operand => operand.names
  | random bound => bound.names

end Expr
end BranchLab
