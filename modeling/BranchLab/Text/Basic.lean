import BranchLab.Basic

/-! Texts as lists of characters. Blanks are those of the Unicode property White_Space, a wider set
than the ASCII one with the no-break spaces and both separators. A line feed ends a line, a carriage
return directly before it belongs to the end, and what follows the last line feed is a line only if
it is not empty. Decimal numerals are digits only, with a leading plus where any number is wanted
and a leading minus where a signed one is. A float is written with one decimal place: the value that
it stands for is rounded exactly, and one halfway between two tenths goes to the even one. -/

namespace BranchLab.Text

def isBlank (c : Char) : Bool :=
  let n := c.toNat
  (0x9 ≤ n && n ≤ 0xD) || n == 0x20 || n == 0x85 || n == 0xA0 || n == 0x1680 ||
    (0x2000 ≤ n && n ≤ 0x200A) || n == 0x2028 || n == 0x2029 || n == 0x202F ||
    n == 0x205F || n == 0x3000

theorem isBlank_of_isWhitespace {c : Char} (white : c.isWhitespace) : isBlank c := by
  simp only [Char.isWhitespace, Bool.or_eq_true, decide_eq_true_eq] at white
  rcases white with ((rfl | rfl) | rfl) | rfl <;> decide

def trimStart (text : List Char) : List Char := text.dropWhile isBlank

def trim (text : List Char) : List Char :=
  (trimStart (trimStart text).reverse).reverse

theorem trimStart_eq_self {text : List Char} (solid : ∀ c ∈ text.head?, isBlank c = false) :
    trimStart text = text := by
  cases text with
  | nil => rfl
  | cons c rest => simp [trimStart, solid c (by simp)]

/-- A line that a line feed ends, from its characters with the last one first. -/
def finishLine (reversed : List Char) : List Char :=
  match reversed with
  | '\r' :: line => line.reverse
  | line => line.reverse

/-- The lines of a text after those in `done`, whose last comes first; `line` holds the characters of
the current line, the last one first. -/
def linesFrom (done : List (List Char)) (line : List Char) : List Char → List (List Char)
  | [] => if line = [] then done.reverse else (line.reverse :: done).reverse
  | c :: rest =>
    if c = '\n' then linesFrom (finishLine line :: done) [] rest
    else linesFrom done (c :: line) rest

def lines (text : List Char) : List (List Char) := linesFrom [] [] text

def digitsValue (digits : List Char) : Nat :=
  digits.foldl (fun value c => 10 * value + (c.toNat - '0'.toNat)) 0

def digits? (text : List Char) : Option Nat :=
  if text ≠ [] ∧ text.all Char.isDigit then some (digitsValue text) else none

def unsigned? (limit : Nat) (text : List Char) : Option Nat :=
  let digits := match text with
    | '+' :: rest => rest
    | _ => text
  (digits? digits).filter (· ≤ limit)

def signed? (least greatest : Int) (text : List Char) : Option Int :=
  let value : Option Int := match text with
    | '+' :: rest => (digits? rest).map fun n => (n : Int)
    | '-' :: rest => (digits? rest).map fun n => -(n : Int)
    | _ => (digits? text).map fun n => (n : Int)
  value.filter fun v => least ≤ v && v ≤ greatest

theorem unsigned?_le {limit value : Nat} {text : List Char}
    (read : unsigned? limit text = some value) : value ≤ limit := by
  simp only [unsigned?, Option.filter_eq_some_iff] at read
  simpa using read.2

theorem signed?_mem {least greatest value : Int} {text : List Char}
    (read : signed? least greatest text = some value) : least ≤ value ∧ value ≤ greatest := by
  simp only [signed?, Option.filter_eq_some_iff] at read
  simpa using read.2

/-- The whole number nearest to `num / den`; halfway between two, the even one. -/
def nearestEven (num den : Nat) : Nat :=
  let whole := num / den
  let twice := 2 * (num % den)
  if den < twice ∨ (twice = den ∧ whole % 2 = 1) then whole + 1 else whole

theorem nearestEven_error (num den : Nat) (positive : 0 < den) :
    2 * (nearestEven num den * den) ≤ 2 * num + den ∧
      2 * num ≤ 2 * (nearestEven num den * den) + den := by
  have split := Nat.div_add_mod num den
  have small := Nat.mod_lt num positive
  have flipped : num / den * den = den * (num / den) := Nat.mul_comm _ _
  simp only [nearestEven]
  split <;> rename_i h
  · rw [Nat.add_mul, flipped]; omega
  · rw [flipped]; omega

/-- The magnitude of a finite float as `m * 2 ^ up / 2 ^ down`, read off its encoding. -/
def binaryFraction (bits : UInt64) : Nat × Nat × Nat :=
  let exponent := (bits.toNat / 2 ^ 52) % 2 ^ 11
  let fraction := bits.toNat % 2 ^ 52
  if exponent = 0 then (fraction, 0, 1074)
  else (2 ^ 52 + fraction, exponent - 1075, 1075 - exponent)

/-- A float that is not negative, with one decimal place. -/
def tenths (value : Float) : String :=
  let (m, up, down) := binaryFraction value.toBits
  let n := nearestEven (m <<< up * 10) (1 <<< down)
  s!"{n / 10}.{n % 10}"

end BranchLab.Text
