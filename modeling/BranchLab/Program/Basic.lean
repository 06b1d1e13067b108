import BranchLab.Program.Expr

/-! Programs: bindings and guarded blocks, each with the lines it stands on. The start line of a
guarded block identifies its branch. -/

namespace BranchLab

structure LineRange where
  start : Nat
  finish : Nat
deriving DecidableEq

/-- One number for a single line, otherwise both with a dash between them. -/
def LineRange.text (lines : LineRange) : String :=
  if lines.start = lines.finish then toString lines.start
  else toString lines.start ++ "-" ++ toString lines.finish

inductive Statement where
  | bind (name : String) (value : Expr) (lines : LineRange)
  | guarded (cond : Expr) (body : List Statement) (lines : LineRange)

namespace Statement

def lines : Statement → LineRange
  | bind _ _ lines => lines
  | guarded _ _ lines => lines

def body : Statement → List Statement
  | bind .. => []
  | guarded _ body _ => body

mutual

def decEq : (a b : Statement) → Decidable (a = b)
  | bind name value lines, bind name' value' lines' =>
    decidable_of_iff (name = name' ∧ value = value' ∧ lines = lines') (by simp)
  | guarded cond body lines, guarded cond' body' lines' =>
    have := blockDecEq body body'
    decidable_of_iff (cond = cond' ∧ body = body' ∧ lines = lines') (by simp)
  | bind .., guarded .. => isFalse (by simp)
  | guarded .., bind .. => isFalse (by simp)

def blockDecEq : (a b : List Statement) → Decidable (a = b)
  | [], [] => isTrue rfl
  | first :: rest, other :: others =>
    have := decEq first other
    have := blockDecEq rest others
    decidable_of_iff (first = other ∧ rest = others) (by simp)
  | [], _ :: _ => isFalse (by simp)
  | _ :: _, [] => isFalse (by simp)

end

instance : DecidableEq Statement := decEq

mutual

def sites : Statement → List Nat
  | bind .. => []
  | guarded _ body lines => lines.start :: blockSites body

def blockSites : List Statement → List Nat
  | [] => []
  | statement :: rest => sites statement ++ blockSites rest

end

mutual

def outline (depth : Nat) : Statement → List (Nat × Statement)
  | bind name value lines => [(depth, bind name value lines)]
  | guarded cond body lines => (depth, guarded cond body lines) :: blockOutline (depth + 1) body

def blockOutline (depth : Nat) : List Statement → List (Nat × Statement)
  | [] => []
  | statement :: rest => outline depth statement ++ blockOutline depth rest

end

end Statement

structure Program where
  statements : List Statement
deriving DecidableEq

namespace Program

def branchSites (program : Program) : List Nat := Statement.blockSites program.statements

def outline (program : Program) : List (Nat × Statement) :=
  Statement.blockOutline 0 program.statements

end Program
end BranchLab
