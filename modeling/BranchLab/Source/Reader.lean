import BranchLab.Program.Basic
import BranchLab.Source.Scan

/-! Programs from tokens. Every infix level groups to the left, and `room` says how many levels of
nesting are still allowed: a block, a parenthesis, a draw and an operator before its operand use one
level inside, and each operator of an infix chain uses one up to the end of the chain. What
encloses the next part hands it less room, so reading ends. -/

namespace BranchLab.Source

abbrev Tokens := List Located

/-- What is read, or the first error; a part of a program comes with the tokens after it. -/
abbrev Reading := Except SyntaxError

/-- The first token. The place `finish` is where the text ends. -/
def take (finish : Location) (wanted : Wanted) : Tokens → Reading (Located × Tokens)
  | [] => .error ⟨finish, .unexpectedEnd wanted⟩
  | head :: rest => .ok (head, rest)

def expect (finish : Location) (token : Token) (tokens : Tokens) :
    Reading (Location × Tokens) := do
  let (head, rest) ← take finish (.exactly token) tokens
  if head.token = token then return (head.place, rest)
  else throw ⟨head.place, .unexpectedToken head.token (.exactly token)⟩

def takeName (finish : Location) (tokens : Tokens) : Reading (String × Tokens) := do
  let (head, rest) ← take finish .name tokens
  match head.token with
  | .name text => return (text, rest)
  | .letWord | .ifWord | .randWord => throw ⟨head.place, .keywordAsName head.token⟩
  | _ => throw ⟨head.place, .unexpectedToken head.token .name⟩

/-- What may stand before an expression that is nested one level deeper. -/
inductive Opening where
  | unary (op : UnaryOp)
  | draw
  | group

def Token.opening? : Token → Option Opening
  | .not => some (.unary .not)
  | .bitNot => some (.unary .bitNot)
  | .randWord => some .draw
  | .openParen => some .group
  | _ => none

/-- A number or name; a number may have a minus in front of it. -/
def readAtom (finish : Location) (head : Located) (rest : Tokens) : Reading (Expr × Tokens) :=
  match head.token with
  | .number value =>
    if value < 2 ^ 63 then .ok (.number (Int64.ofNat value), rest)
    else .error ⟨head.place, .integerOutOfRange (toString value)⟩
  | .op .sub => do
    let (literal, rest) ← take finish .magnitude rest
    match literal.token with
    | .number value =>
      if value ≤ 2 ^ 63 then return (.number (Int64.ofInt (-(value : Int))), rest)
      else throw ⟨head.place, .integerOutOfRange ("-" ++ toString value)⟩
    | _ => throw ⟨literal.place, .unexpectedToken literal.token .magnitude⟩
  | .name text => .ok (.ident text, rest)
  | _ => .error ⟨head.place, .unexpectedToken head.token .expression⟩

mutual

/-- An expression without infix operators outside parentheses. -/
def readOperand (finish : Location) (room : Nat) (tokens : Tokens) : Reading (Expr × Tokens) := do
  let (head, rest) ← take finish .expression tokens
  match head.token.opening? with
  | none => readAtom finish head rest
  | some opening =>
    match room with
    | 0 => throw ⟨head.place, .nestingTooDeep⟩
    | room + 1 =>
      match opening with
      | .unary op =>
        let (operand, rest) ← readOperand finish room rest
        return (.unary op operand, rest)
      | .draw =>
        let (_, rest) ← expect finish .openParen rest
        let (lhs, rest) ← readOperand finish room rest
        let (bound, rest) ← readChain finish room BinaryOp.loosest lhs rest
        let (_, rest) ← expect finish .closeParen rest
        return (.random bound, rest)
      | .group =>
        let (lhs, rest) ← readOperand finish room rest
        let (inner, rest) ← readChain finish room BinaryOp.loosest lhs rest
        let (_, rest) ← expect finish .closeParen rest
        return (inner, rest)

/-- The infix operations that follow `lhs` and bind at least as tightly as `least`. -/
def readChain (finish : Location) (room least : Nat) (lhs : Expr) (tokens : Tokens) :
    Reading (Expr × Tokens) :=
  match tokens with
  | ⟨.op op, place⟩ :: rest =>
    if op.precedence < least then .ok (lhs, tokens)
    else
      match room with
      | 0 => .error ⟨place, .nestingTooDeep⟩
      | room + 1 => do
        let (first, rest) ← readOperand finish room rest
        let (rhs, rest) ← readChain finish room (op.precedence + 1) first rest
        readChain finish room least (.binary op lhs rhs) rest
  | _ => .ok (lhs, tokens)

end

/-- An expression whose infix operators bind at least as tightly as `least`. -/
def readInfix (finish : Location) (room least : Nat) (tokens : Tokens) :
    Reading (Expr × Tokens) := do
  let (lhs, rest) ← readOperand finish room tokens
  readChain finish room least lhs rest

def readExpr (finish : Location) (room : Nat) (tokens : Tokens) : Reading (Expr × Tokens) :=
  readInfix finish room BinaryOp.loosest tokens

/-- Parts up to a token at which `stop` holds or the end, after those in `found`, whose last comes
first. Every part takes a token at least, so there are at most as many turns as tokens. -/
def readMany {α : Type} (part : Tokens → Reading (α × Tokens)) (stop : Token → Bool) :
    (turns : Nat) → (found : List α) → Tokens → Reading (List α × Tokens)
  | turns + 1, found, head :: rest =>
    if stop head.token then .ok (found.reverse, head :: rest)
    else do
      let (next, rest) ← part (head :: rest)
      readMany part stop turns (next :: found) rest
  | _, found, tokens => .ok (found.reverse, tokens)

def readStatement (finish : Location) (room : Nat) (tokens : Tokens) :
    Reading (Statement × Tokens) := do
  let (head, rest) ← take finish .statement tokens
  match head.token with
  | .letWord =>
    let (name, rest) ← takeName finish rest
    let (_, rest) ← expect finish .assign rest
    let (value, rest) ← readExpr finish room rest
    let (last, rest) ← expect finish .semicolon rest
    return (.bind name value ⟨head.place.line, last.line⟩, rest)
  | .ifWord =>
    match room with
    | 0 => throw ⟨head.place, .nestingTooDeep⟩
    | room + 1 =>
      let (_, rest) ← expect finish .openParen rest
      let (cond, rest) ← readExpr finish room rest
      let (_, rest) ← expect finish .closeParen rest
      let (_, rest) ← expect finish .openBrace rest
      let (body, rest) ←
        readMany (readStatement finish room) (· = .closeBrace) rest.length [] rest
      let (last, rest) ← expect finish .closeBrace rest
      return (.guarded cond body ⟨head.place.line, last.line⟩, rest)
  | _ => throw ⟨head.place, .unexpectedToken head.token .statement⟩

def readProgram (finish : Location) (tokens : Tokens) : Reading Program := do
  let (statements, _) ←
    readMany (readStatement finish maxNesting) (fun _ => false) tokens.length [] tokens
  return ⟨statements⟩

end BranchLab.Source

namespace BranchLab

open Source in
/-- The program that a text spells, or the first error: an error in a token comes before one in the
order of tokens. -/
def Program.ofText (text : String) : Except SyntaxError Program := do
  let chars := text.toList
  let tokens ← scan chars
  readProgram (Location.endOf chars) tokens

end BranchLab
