import BranchLab.Program.Expr
import BranchLab.Chance.Draw

/-! The value of an expression under bindings, of which every iteration starts with one. Operands
are evaluated from left to right, the right one only if the left one leaves the result open, and
draws take words from a generator, also those made before an unbound name is met. -/

namespace BranchLab

/-- Names with their values, in the order of their code points. -/
abbrev Bindings := Catalog String Int64

def inductionName : String := "i"

/-- The number of an iteration as a signed word, held at the greatest one. -/
def inductionValue (iteration : UInt64) : Int64 :=
  Int64.ofNat (min iteration.toNat (2 ^ 63 - 1))

def Bindings.ofIteration (iteration : UInt64) : Bindings :=
  Catalog.empty.put inductionName (inductionValue iteration)

theorem Bindings.keys_ofIteration (iteration : UInt64) :
    (Bindings.ofIteration iteration).keys = [inductionName] := rfl

open Chance (Generator)

inductive EvalError where
  | unbound (name : String)
deriving DecidableEq

def EvalError.message : EvalError → String
  | unbound name => "variable `" ++ name ++ "` is not bound in the current context"

/-- The value or the first unbound name, with the generator afterwards. A conjunction with zero and a
disjunction with anything else are decided by their left operand, otherwise by the right one. -/
def Expr.value (bindings : Bindings) : Expr → Generator → Except EvalError Int64 × Generator
  | number n, g => (.ok n, g)
  | ident name, g =>
    match bindings.get? name with
    | some v => (.ok v, g)
    | none => (.error (.unbound name), g)
  | binary .and lhs rhs, g =>
    match lhs.value bindings g with
    | (.error e, g) => (.error e, g)
    | (.ok a, g) =>
      if a = 0 then (.ok 0, g)
      else
        match rhs.value bindings g with
        | (.error e, g) => (.error e, g)
        | (.ok b, g) => (.ok (truth (b ≠ 0)), g)
  | binary .or lhs rhs, g =>
    match lhs.value bindings g with
    | (.error e, g) => (.error e, g)
    | (.ok a, g) =>
      if a ≠ 0 then (.ok 1, g)
      else
        match rhs.value bindings g with
        | (.error e, g) => (.error e, g)
        | (.ok b, g) => (.ok (truth (b ≠ 0)), g)
  | binary op lhs rhs, g =>
    match lhs.value bindings g with
    | (.error e, g) => (.error e, g)
    | (.ok a, g) =>
      match rhs.value bindings g with
      | (.error e, g) => (.error e, g)
      | (.ok b, g) => (.ok (op.apply a b), g)
  | unary op operand, g =>
    match operand.value bindings g with
    | (.error e, g) => (.error e, g)
    | (.ok a, g) => (.ok (op.apply a), g)
  | random bound, g =>
    match bound.value bindings g with
    | (.error e, g) => (.error e, g)
    | (.ok b, g) =>
      let (v, g) := Chance.draw b g
      (.ok v, g)

end BranchLab
