import BranchLab.Source.Token
import BranchLab.Text.Quoted
import BranchLab.Text.Basic

/-! The tokens of a text, or its first error: a place, and a cause with what was found and what was
wanted there. Blanks and comments, which run from two slashes to the end of the line, stand between
tokens. A number or word takes as many characters as it can, and of two symbols that begin alike the
longer one is read. -/

namespace BranchLab.Source

inductive Wanted where
  | statement
  | name
  | expression
  | magnitude
  | exactly (token : Token)
deriving DecidableEq

def Wanted.describe : Wanted → String
  | statement => "`let` or `if`"
  | name => "a name"
  | expression => "an expression"
  | magnitude => "a number after `-`"
  | exactly token => token.describe

/-- The deepest nesting of blocks, parentheses and operators. -/
def maxNesting : Nat := 256

inductive Cause where
  | unexpectedCharacter (c : Char)
  | unexpectedToken (found : Token) (wanted : Wanted)
  | unexpectedEnd (wanted : Wanted)
  | integerOutOfRange (numeral : String)
  | keywordAsName (keyword : Token)
  | nestingTooDeep
deriving DecidableEq

def Cause.message : Cause → String
  | unexpectedCharacter c => "unexpected character " ++ Text.quoteChar c
  | unexpectedToken found wanted =>
    "expected " ++ wanted.describe ++ ", found " ++ found.describe
  | unexpectedEnd wanted => "expected " ++ wanted.describe ++ ", found end of input"
  | integerOutOfRange numeral => "integer literal out of range: " ++ numeral
  | keywordAsName keyword => "keyword " ++ keyword.describe ++ " cannot be used as a name"
  | nestingTooDeep => "nesting deeper than " ++ toString maxNesting ++ " levels"

structure SyntaxError where
  place : Location
  cause : Cause
deriving DecidableEq

def SyntaxError.message (error : SyntaxError) : String :=
  error.place.text ++ ": " ++ error.cause.message

def numberLimit : Nat := 2 ^ 64 - 1

def startsWord (c : Char) : Bool := c.isAlpha || c == '_'

def continuesWord (c : Char) : Bool := c.isAlphanum || c == '_'

/-- What begins at a character, with the number of characters after it that belong to it. -/
inductive Lexeme where
  | trivia (more : Nat)
  | token (token : Token) (more : Nat)
  | fault (cause : Cause)
deriving DecidableEq

namespace Lexeme

def number (first : Char) (rest : List Char) : Lexeme :=
  let more := rest.takeWhile Char.isDigit
  let value := Text.digitsValue (first :: more)
  if value ≤ numberLimit then token (.number value) more.length
  else fault (.integerOutOfRange (String.ofList (first :: more)))

def word (first : Char) (rest : List Char) : Lexeme :=
  let more := rest.takeWhile continuesWord
  token (.ofWord (String.ofList (first :: more))) more.length

def single (c : Char) : Lexeme :=
  match Token.ofChar c with
  | some symbol => token symbol 0
  | none => fault (.unexpectedCharacter c)

def symbol (first : Char) : List Char → Lexeme
  | [] => single first
  | second :: _ =>
    match Token.ofPair first second with
    | some symbol => token symbol 1
    | none => single first

def read (first : Char) (rest : List Char) : Lexeme :=
  if Text.isBlank first then trivia 0
  else if first = '/' ∧ rest.head? = some '/' then
    trivia (rest.takeWhile (· ≠ '\n')).length
  else if first.isDigit then number first rest
  else if startsWord first then word first rest
  else symbol first rest

end Lexeme

/-- The tokens from a place on, after `found`, whose last comes first. The next `pending` characters
belong to what began before them, and `read` tells what begins at a character. -/
def scanFrom (read : Char → List Char → Lexeme) : (place : Location) → (pending : Nat) →
    (found : List Located) → List Char → Except SyntaxError (List Located)
  | _, _, found, [] => .ok found.reverse
  | place, pending + 1, found, c :: rest => scanFrom read (place.after c) pending found rest
  | place, 0, found, c :: rest =>
    match read c rest with
    | .trivia more => scanFrom read (place.after c) more found rest
    | .token token more => scanFrom read (place.after c) more (⟨token, place⟩ :: found) rest
    | .fault cause => .error ⟨place, cause⟩

def scan (text : List Char) : Except SyntaxError (List Located) :=
  scanFrom Lexeme.read .start 0 [] text

/-- Pending characters are passed over and only move the place. -/
theorem scanFrom_pending (read : Char → List Char → Lexeme) (text : List Char) (place : Location)
    (pending : Nat) (found : List Located) :
    scanFrom read place pending found text =
      scanFrom read (place.across (text.take pending)) 0 found (text.drop pending) := by
  induction text generalizing place pending with
  | nil => cases pending <;> simp [scanFrom]
  | cons c rest ih =>
    cases pending with
    | zero => simp
    | succ pending => simpa [scanFrom] using ih (place.after c) pending

end BranchLab.Source
