import BranchLab.Basic
import BranchLab.Program.Basic
import BranchLab.Source.Token

/-! The grammar of programs with the trees it gives, one rule for each production. It speaks of ten
infix layers, each built from the operands of the next one, and not of precedences, nesting or what
a reader does. Places are arbitrary, so a grammar rule takes any located tokens of the right kind. -/

namespace BranchLab.Source

/-- The kinds of expressions, from those whose operators bind loosest. -/
inductive Layer where
  | or | and | bitOr | bitXor | bitAnd | equality | relation | shift | additive | term
  | unary | primary

/-- What an infix layer is made of: `inner ( sign inner )*`, with one of the signs each time. -/
def Layer.production : Layer → Option (List BinaryOp × Layer)
  | or => some ([.or], and)
  | and => some ([.and], bitOr)
  | bitOr => some ([.bitOr], bitXor)
  | bitXor => some ([.bitXor], bitAnd)
  | bitAnd => some ([.bitAnd], equality)
  | equality => some ([.eq, .ne], relation)
  | relation => some ([.lt, .gt, .le, .ge], shift)
  | shift => some ([.shl, .shr], additive)
  | additive => some ([.add, .sub], term)
  | term => some ([.mul, .div, .rem], unary)
  | unary | primary => none

structure Fold where
  sign : BinaryOp
  place : Location
  operand : List Located
  value : Expr

namespace Fold

def tokens (fold : Fold) : List Located := ⟨.op fold.sign, fold.place⟩ :: fold.operand

def onto (lhs : Expr) (fold : Fold) : Expr := .binary fold.sign lhs fold.value

end Fold

inductive Derives : Layer → List Located → Expr → Prop where
  | chain {layer inner : Layer} {signs : List BinaryOp} {front : List Located} {first : Expr}
      {folds : List Fold} (joined : layer.production = some (signs, inner))
      (head : Derives inner front first) (signed : ∀ fold ∈ folds, fold.sign ∈ signs)
      (operands : ∀ fold ∈ folds, Derives inner fold.operand fold.value) :
      Derives layer (front ++ folds.flatMap Fold.tokens) (folds.foldl Fold.onto first)
  | not (place : Location) {tokens : List Located} {e : Expr} (operand : Derives .unary tokens e) :
      Derives .unary (⟨.not, place⟩ :: tokens) (.unary .not e)
  | bitNot (place : Location) {tokens : List Located} {e : Expr}
      (operand : Derives .unary tokens e) :
      Derives .unary (⟨.bitNot, place⟩ :: tokens) (.unary .bitNot e)
  | plain {tokens : List Located} {e : Expr} (primary : Derives .primary tokens e) :
      Derives .unary tokens e
  | number (place : Location) {n : Nat} (fits : n ≤ 2 ^ 63 - 1) :
      Derives .primary [⟨.number n, place⟩] (.number (Int64.ofNat n))
  | negative (minus place : Location) {n : Nat} (fits : n ≤ 2 ^ 63) :
      Derives .primary [⟨.op .sub, minus⟩, ⟨.number n, place⟩] (.number (Int64.ofInt (-(n : Int))))
  | name (place : Location) (text : String) : Derives .primary [⟨.name text, place⟩] (.ident text)
  | draw (word opening closing : Location) {tokens : List Located} {e : Expr}
      (bound : Derives .or tokens e) :
      Derives .primary
        (⟨.randWord, word⟩ :: ⟨.openParen, opening⟩ :: tokens ++ [⟨.closeParen, closing⟩])
        (.random e)
  | group (opening closing : Location) {tokens : List Located} {e : Expr}
      (inner : Derives .or tokens e) :
      Derives .primary (⟨.openParen, opening⟩ :: tokens ++ [⟨.closeParen, closing⟩]) e

/-- The tokens of a statement, and its tree. A body is any number of statements, each with its
tokens. -/
inductive Spells : List Located → Statement → Prop where
  | bind (word named assign last : Location) (name : String) {tokens : List Located} {value : Expr}
      (valued : Derives .or tokens value) :
      Spells
        (⟨.letWord, word⟩ :: ⟨.name name, named⟩ :: ⟨.assign, assign⟩ :: tokens ++
          [⟨.semicolon, last⟩])
        (.bind name value ⟨word.line, last.line⟩)
  | guarded (word opening closing brace last : Location) {tokens : List Located} {cond : Expr}
      {body : List (List Located × Statement)} (guard : Derives .or tokens cond)
      (inside : ∀ part ∈ body, Spells part.1 part.2) :
      Spells
        (⟨.ifWord, word⟩ :: ⟨.openParen, opening⟩ :: tokens ++ ⟨.closeParen, closing⟩ ::
          ⟨.openBrace, brace⟩ :: body.flatMap Prod.fst ++ [⟨.closeBrace, last⟩])
        (.guarded cond (body.map Prod.snd) ⟨word.line, last.line⟩)

def SpellsProgram (tokens : List Located) (program : Program) : Prop :=
  ∃ parts : List (List Located × Statement), (∀ part ∈ parts, Spells part.1 part.2) ∧
    tokens = parts.flatMap Prod.fst ∧ program.statements = parts.map Prod.snd

end BranchLab.Source
