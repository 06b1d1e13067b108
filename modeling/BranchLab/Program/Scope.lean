import BranchLab.Program.Basic
import BranchLab.Program.Eval

/-! Lexical scope. A name may be used after a binding of it in the same block or in a block around
it, and a binding made inside a guarded block is gone after the block. The first use that breaks
this, in source order, is reported. -/

namespace BranchLab

/-- A use of a name that nothing binds, with the start line of the statement it stands in. -/
structure ScopeError where
  name : String
  line : Nat
deriving DecidableEq

def ScopeError.message (error : ScopeError) : String :=
  "undefined identifier `" ++ error.name ++ "` (line " ++ toString error.line ++ ")"

def Expr.firstUnknown (known : List String) (e : Expr) : Option String :=
  e.names.find? fun name => name ∉ known

def Expr.checkNames (known : List String) (line : Nat) (e : Expr) : Except ScopeError Unit :=
  match e.firstUnknown known with
  | none => .ok ()
  | some name => .error ⟨name, line⟩

namespace Statement

mutual

/-- Checks a statement and gives the names known after it. -/
def check (known : List String) : Statement → Except ScopeError (List String)
  | bind name value lines => do
    value.checkNames known lines.start
    return name :: known
  | guarded cond body lines => do
    cond.checkNames known lines.start
    checkBlock known body
    return known

def checkBlock (known : List String) : List Statement → Except ScopeError Unit
  | [] => .ok ()
  | statement :: rest => do
    let known ← check known statement
    checkBlock known rest

end

end Statement

/-- Checks a program whose outermost block starts with some names bound. -/
def Program.check (program : Program) (initial : Bindings) : Except ScopeError Unit :=
  Statement.checkBlock initial.keys program.statements

end BranchLab
