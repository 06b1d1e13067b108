import BranchLab.Basic

/-! A generator of 64-bit words with 256 bits of state, and draws of a number below a bound, or
above a negative one. A step of the generator mixes the state with shifts, exclusive-ors and one
rotation; the answer is a rotated sum of two words. For a draw a word times the width of the range
is split at 64 bits: the high part is the answer, and the word is refused when the low part lies in
the uneven rest, so that every answer is equally likely. -/

namespace BranchLab.Chance

structure Generator where
  a : UInt64
  b : UInt64
  c : UInt64
  d : UInt64
deriving DecidableEq

/-- A word with its bits turned left by `n` places, 0 < n < 64. -/
def turnLeft (x n : UInt64) : UInt64 := (x <<< n) ||| (x >>> (64 - n))

/-- A half word with its bits turned right by `n` places, 0 ≤ n < 32. -/
def turnRight (x n : UInt32) : UInt32 := (x >>> n) ||| (x <<< (32 - n))

def Generator.next (g : Generator) : UInt64 × Generator :=
  let c := g.c ^^^ g.a
  let d := g.d ^^^ g.b
  (turnLeft (g.a + g.d) 23 + g.a, ⟨g.a ^^^ d, g.b ^^^ c, c ^^^ (g.b <<< 17), turnLeft d 45⟩)

/-- One step of the linear congruence that spreads a seed. -/
def spread (seed : UInt64) : UInt64 := seed * 6364136223846793005 + 11634580027462260723

/-- The half word that a spread seed gives: its high bits, turned by its highest five. -/
def halfWord (spreaded : UInt64) : UInt32 :=
  turnRight (((spreaded >>> 18) ^^^ spreaded) >>> 27).toUInt32 (spreaded >>> 59).toUInt32

/-- A word of the first state, low half first, and the seed to go on with. -/
def seedWord (seed : UInt64) : UInt64 × UInt64 :=
  let low := spread seed
  let high := spread low
  ((halfWord low).toUInt64 ||| ((halfWord high).toUInt64 <<< 32), high)

def Generator.ofSeed (seed : UInt64) : Generator :=
  let (a, seed) := seedWord seed
  let (b, seed) := seedWord seed
  let (c, seed) := seedWord seed
  let (d, _) := seedWord seed
  ⟨a, b, c, d⟩

/-- The greatest low part that is accepted for a range of `width` values, 0 < width < 2 ^ 64. -/
def acceptance (width : Nat) : Nat := width <<< (63 - width.log2) - 1

/-- How many words a draw may refuse. Fewer than half of all words are refused, so the limit is
never met; it makes the search end for every state. -/
@[irreducible] def patience : Nat := 2 ^ 32

/-- A number below `width`, from the first word that is accepted. -/
def below (width : Nat) : (tries : Nat) → Generator → Nat × Generator
  | 0, g => (0, g)
  | tries + 1, g =>
    let (word, g) := g.next
    let product := word.toNat * width
    if product % 2 ^ 64 ≤ acceptance width then (product / 2 ^ 64, g) else below width tries g

/-- A number from 0 up to a positive bound or down to a negative one, the bound left out. The bound
zero gives zero and takes no word. -/
def draw (bound : Int64) (g : Generator) : Int64 × Generator :=
  if bound = 0 then (0, g)
  else
    let low : Int := if 0 < bound then 0 else bound.toInt + 1
    let (n, g) := below bound.toInt.natAbs patience g
    (Int64.ofInt (low + n), g)

theorem below_lt (width tries : Nat) (g : Generator) (positive : 0 < width) :
    (below width tries g).1 < width := by
  induction tries generalizing g with
  | zero => exact positive
  | succ tries ih =>
    simp only [below]
    split
    · have small := g.next.1.toNat_lt
      exact Nat.div_lt_of_lt_mul ((Nat.mul_lt_mul_right positive).2 small)
    · exact ih _

@[simp] theorem draw_zero (g : Generator) : draw 0 g = (0, g) := rfl

end BranchLab.Chance
