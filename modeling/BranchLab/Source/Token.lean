import BranchLab.Program.Expr

/-! The tokens of the language with their spellings, and the places at which they stand: line and
column, both counted from one, a column being one character. A line feed ends a line. -/

namespace BranchLab.Source

structure Location where
  line : Nat
  column : Nat
deriving DecidableEq

namespace Location

def start : Location := ⟨1, 1⟩

def after (place : Location) (c : Char) : Location :=
  if c = '\n' then ⟨place.line + 1, 1⟩ else ⟨place.line, place.column + 1⟩

def across (place : Location) (text : List Char) : Location := text.foldl after place

def endOf (text : List Char) : Location :=
  ⟨text.count '\n' + 1, (text.reverse.takeWhile (· ≠ '\n')).length + 1⟩

def text (place : Location) : String := toString place.line ++ ":" ++ toString place.column

@[simp] theorem across_nil (place : Location) : place.across [] = place := rfl

@[simp] theorem across_cons (place : Location) (c : Char) (text : List Char) :
    place.across (c :: text) = (place.after c).across text := rfl

theorem across_append (place : Location) (front back : List Char) :
    place.across (front ++ back) = (place.across front).across back :=
  List.foldl_append

theorem line_across {text : List Char} (feedless : '\n' ∉ text) (place : Location) :
    (place.across text).line = place.line := by
  induction text generalizing place with
  | nil => rfl
  | cons c text ih =>
    obtain ⟨other, others⟩ : '\n' ≠ c ∧ '\n' ∉ text := by simpa using feedless
    rw [across_cons, ih others, after, if_neg other.symm]

/-- The end of a text is the place reached by reading it. -/
theorem across_start (text : List Char) : start.across text = endOf text := by
  suffices back : ∀ r : List Char, start.across r.reverse = endOf r.reverse by
    simpa using back text.reverse
  intro r
  induction r with
  | nil => rfl
  | cons c r ih =>
    rw [List.reverse_cons, across_append, ih]
    by_cases feed : c = '\n' <;> simp [endOf, after, feed]

end Location

inductive Token where
  | number (value : Nat)
  | name (text : String)
  | letWord | ifWord | randWord
  | assign | not | bitNot
  | op (sign : BinaryOp)
  | openParen | closeParen | openBrace | closeBrace | semicolon
deriving DecidableEq

namespace Token

def spelling : Token → String
  | number value => toString value
  | name text => text
  | letWord => "let"
  | ifWord => "if"
  | randWord => "rand"
  | assign => "="
  | not => "!"
  | bitNot => "~"
  | op sign => sign.symbol
  | openParen => "("
  | closeParen => ")"
  | openBrace => "\x7b"
  | closeBrace => "\x7d"
  | semicolon => ";"

def kind : Token → String
  | number _ => "number "
  | name _ => "identifier "
  | _ => ""

def describe (token : Token) : String := token.kind ++ "`" ++ token.spelling ++ "`"

def ofWord (word : String) : Token :=
  if word = "let" then letWord
  else if word = "if" then ifWord
  else if word = "rand" then randWord
  else name word

def ofPair : Char → Char → Option Token
  | '=', '=' => some (op .eq)
  | '!', '=' => some (op .ne)
  | '<', '=' => some (op .le)
  | '<', '<' => some (op .shl)
  | '>', '=' => some (op .ge)
  | '>', '>' => some (op .shr)
  | '&', '&' => some (op .and)
  | '|', '|' => some (op .or)
  | _, _ => none

def ofChar : Char → Option Token
  | '(' => some openParen
  | ')' => some closeParen
  | '\x7b' => some openBrace
  | '\x7d' => some closeBrace
  | ';' => some semicolon
  | '~' => some bitNot
  | '!' => some not
  | '=' => some assign
  | '+' => some (op .add)
  | '-' => some (op .sub)
  | '*' => some (op .mul)
  | '/' => some (op .div)
  | '%' => some (op .rem)
  | '^' => some (op .bitXor)
  | '<' => some (op .lt)
  | '>' => some (op .gt)
  | '&' => some (op .bitAnd)
  | '|' => some (op .bitOr)
  | _ => none

end Token

structure Located where
  token : Token
  place : Location
deriving DecidableEq

end BranchLab.Source
