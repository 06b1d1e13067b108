import BranchLab.Program.Eval

/-! Draws as they are made with words of 64 bits. A word is multiplied by the width of the range, the
high half of the product is added to the lowest number, and the low half decides whether the word is
taken. Nothing of this overflows for any bound, and what is drawn lies between zero and the bound. -/

namespace BranchLab.Chance

def lowest (bound : Int64) : Int64 := if 0 < bound then 0 else bound + 1

/-- How many numbers a draw may give. As an unsigned word this also holds the least bound with its sign
turned. -/
def width (bound : Int64) : UInt64 := (if 0 < bound then bound else -bound).toUInt64

/-- The greatest low half with which a word is taken: the width with its leading zeros shifted out,
less one. -/
def zone (width : UInt64) : UInt64 := (width <<< (63 - width.log2)) - 1

def lowHalf (word width : UInt64) : UInt64 := word * width

def highHalf (word width : UInt64) : UInt64 := UInt64.ofNat (word.toNat * width.toNat / 2 ^ 64)

def Takes (bound : Int64) (word : UInt64) : Prop :=
  lowHalf word (width bound) ≤ zone (width bound)

instance (bound : Int64) (word : UInt64) : Decidable (Takes bound word) :=
  inferInstanceAs (Decidable (_ ≤ _))

def chosen (bound : Int64) (word : UInt64) : Int64 :=
  lowest bound + (highHalf word (width bound)).toInt64

/-- A draw that gives `v` after it has refused some words, however many these are. -/
inductive Draws (bound : Int64) : (refused : Nat) → Generator → Int64 → Generator → Prop
  | zero (zero : bound = 0) (g : Generator) : Draws bound 0 g 0 g
  | take {g : Generator} (nonzero : bound ≠ 0) (taken : Takes bound g.next.1) :
      Draws bound 0 g (chosen bound g.next.1) g.next.2
  | refuse {refused : Nat} {g after : Generator} {v : Int64} (nonzero : bound ≠ 0)
      (passed : ¬Takes bound g.next.1) (others : Draws bound refused g.next.2 v after) :
      Draws bound (refused + 1) g v after

def InRange (bound v : Int64) : Prop :=
  (0 < bound → 0 ≤ v ∧ v < bound) ∧ (bound < 0 → bound < v ∧ v ≤ 0) ∧ (bound = 0 → v = 0)

section Words

variable {bound : Int64}

theorem toInt_pos_iff : 0 < bound ↔ 0 < bound.toInt := Int64.lt_iff_toInt_lt

theorem toInt_lowest (bound : Int64) :
    (lowest bound).toInt = if 0 < bound.toInt then 0 else bound.toInt + 1 := by
  unfold lowest
  simp only [toInt_pos_iff]
  split
  · rfl
  · have low := bound.le_toInt
    rw [Int64.toInt_add, Int64.toInt_one]
    exact Int.bmod_eq_of_le (by omega) (by omega)

theorem toNat_toUInt64 (x : Int64) : (x.toUInt64.toNat : Int) = x.toInt % 2 ^ 64 := by
  have small := x.toUInt64.toNat_lt
  have same : x.toInt = _ := BitVec.toInt_eq_toNat_cond x.toBitVec
  have word : x.toUInt64.toNat = x.toBitVec.toNat := rfl
  rw [← word] at same
  split at same <;> omega

theorem toNat_width (bound : Int64) : (width bound).toNat = bound.toInt.natAbs := by
  have low := bound.le_toInt
  have high := bound.toInt_lt
  have word := toNat_toUInt64 (if 0 < bound then bound else -bound)
  rw [← width] at word
  split at word
  · rename_i positive
    have positive := toInt_pos_iff.mp positive
    omega
  · rename_i negative
    rw [toInt_pos_iff, Int.not_lt] at negative
    have turned : (-bound.toInt).bmod (2 ^ 64) % (2 ^ 64 : Nat) = -bound.toInt % (2 ^ 64 : Nat) :=
      Int.bmod_emod
    rw [Int64.toInt_neg] at word
    omega

theorem width_le (bound : Int64) : (width bound).toNat ≤ 2 ^ 63 := by
  have low := bound.le_toInt
  have high := bound.toInt_lt
  rw [toNat_width]
  omega

theorem leadingZeros {width : UInt64} (positive : 0 < width.toNat) :
    (63 - width.log2).toNat = 63 - width.toNat.log2 := by
  have log : width.log2.toNat = width.toNat.log2 := rfl
  have small : width.toNat.log2 < 64 :=
    (Nat.log2_lt (Nat.ne_of_gt positive)).mpr width.toNat_lt
  rw [UInt64.toNat_sub_of_le, log]
  · rfl
  · rw [UInt64.le_iff_toNat_le, log]
    exact Nat.le_of_lt_succ small

/-- Without its leading zeros a width is less than twice the greatest power of two in a word. -/
theorem shiftLeft_lt {n : Nat} (positive : 0 < n) (small : n < 2 ^ 64) :
    n <<< (63 - n.log2) < 2 ^ 64 := by
  have log : n.log2 < 64 := (Nat.log2_lt (Nat.ne_of_gt positive)).mpr small
  have scaled := (Nat.mul_lt_mul_right (Nat.two_pow_pos (63 - n.log2))).mpr (Nat.lt_log2_self (n := n))
  rw [← Nat.pow_add, show n.log2 + 1 + (63 - n.log2) = 64 by omega] at scaled
  rwa [Nat.shiftLeft_eq]

theorem toNat_zone {width : UInt64} (positive : 0 < width.toNat) :
    (zone width).toNat = acceptance width.toNat := by
  have shifted : (width <<< (63 - width.log2)).toNat = width.toNat <<< (63 - width.toNat.log2) := by
    have places : (63 - width.toNat.log2) % 64 = 63 - width.toNat.log2 := by omega
    rw [UInt64.toNat_shiftLeft, leadingZeros positive, places,
      Nat.mod_eq_of_lt (shiftLeft_lt positive width.toNat_lt)]
  have kept : 0 < width.toNat <<< (63 - width.toNat.log2) := by
    rw [Nat.shiftLeft_eq]
    exact Nat.mul_pos positive (Nat.two_pow_pos _)
  rw [zone, UInt64.toNat_sub_of_le, shifted]
  · rfl
  · rw [UInt64.le_iff_toNat_le, shifted]
    exact kept

theorem toNat_lowHalf (word width : UInt64) :
    (lowHalf word width).toNat = word.toNat * width.toNat % 2 ^ 64 := UInt64.toNat_mul word width

/-- The high half of the product with a width is below the width. -/
theorem product_div_lt (word : UInt64) {n : Nat} (positive : 0 < n) :
    word.toNat * n / 2 ^ 64 < n :=
  Nat.div_lt_of_lt_mul ((Nat.mul_lt_mul_right positive).mpr word.toNat_lt)

theorem toNat_highHalf (word : UInt64) {width : UInt64} (positive : 0 < width.toNat) :
    (highHalf word width).toNat = word.toNat * width.toNat / 2 ^ 64 :=
  UInt64.toNat_ofNat_of_lt' (Nat.lt_trans (product_div_lt word positive) width.toNat_lt)

theorem highHalf_lt (word : UInt64) {width : UInt64} (positive : 0 < width.toNat) :
    (highHalf word width).toNat < width.toNat := by
  rw [toNat_highHalf word positive]
  exact product_div_lt word positive

theorem toInt_toInt64 {word : UInt64} (small : word.toNat < 2 ^ 63) :
    word.toInt64.toInt = word.toNat := by
  have same : word.toInt64.toInt = _ := BitVec.toInt_eq_toNat_cond word.toBitVec
  rw [same, if_pos]
  · rfl
  · have word : word.toBitVec.toNat = word.toNat := rfl
    omega

theorem width_pos (nonzero : bound ≠ 0) : 0 < (width bound).toNat := by
  rw [toNat_width, Int.natAbs_pos]
  exact fun zero => nonzero (Int64.toInt_inj.mp zero)

/-- The numbers from the lowest one on, as many as the width, are those in range. -/
theorem inRange_of_toInt {v : Int64} {n : Nat} (inside : n < bound.toInt.natAbs)
    (same : v.toInt = (lowest bound).toInt + n) : InRange bound v := by
  rw [toInt_lowest] at same
  simp only [InRange, Int64.lt_iff_toInt_lt, Int64.le_iff_toInt_le, ← Int64.toInt_inj,
    Int64.toInt_zero]
  split at same <;> omega

/-- They are all words, so adding to the lowest one is exact. -/
theorem lowest_add_fits {n : Nat} (inside : n < bound.toInt.natAbs) :
    -2 ^ 63 ≤ (lowest bound).toInt + n ∧ (lowest bound).toInt + n < 2 ^ 63 := by
  have low := bound.le_toInt
  have high := bound.toInt_lt
  rw [toInt_lowest]
  split <;> omega

theorem toInt_chosen (nonzero : bound ≠ 0) (word : UInt64) : (chosen bound word).toInt =
    (lowest bound).toInt + (highHalf word (width bound)).toNat := by
  have inside := highHalf_lt word (width_pos nonzero)
  have narrow := width_le bound
  have fits := lowest_add_fits (toNat_width bound ▸ inside)
  rw [chosen, Int64.toInt_add, toInt_toInt64 (by omega)]
  exact Int.bmod_eq_of_le (by omega) (by omega)

theorem inRange_chosen (nonzero : bound ≠ 0) (word : UInt64) : InRange bound (chosen bound word) :=
  inRange_of_toInt (toNat_width bound ▸ highHalf_lt word (width_pos nonzero))
    (toInt_chosen nonzero word)

end Words

section Draws

variable {bound v : Int64} {g after : Generator} {refused : Nat}

theorem Draws.inRange (drawn : Draws bound refused g v after) : InRange bound v := by
  induction drawn with
  | zero zero => simp [InRange, zero]
  | take nonzero => exact inRange_chosen nonzero _
  | refuse nonzero passed others ih => exact ih

theorem Draws.of_zero (drawn : Draws bound refused g v after) (zero : bound = 0) :
    v = 0 ∧ after = g := by
  cases drawn with
  | zero => exact ⟨rfl, rfl⟩
  | take nonzero | refuse nonzero => exact absurd zero nonzero

theorem draw_of_nonzero (nonzero : bound ≠ 0) (g : Generator) : draw bound g =
    (Int64.ofInt ((lowest bound).toInt + (below bound.toInt.natAbs patience g).1),
      (below bound.toInt.natAbs patience g).2) := by
  simp only [draw, if_neg nonzero, toInt_lowest, toInt_pos_iff]

theorem inRange_draw (bound : Int64) (g : Generator) : InRange bound (draw bound g).1 := by
  rcases Decidable.em (bound = 0) with zero | nonzero
  · simp [InRange, zero]
  · have inside := below_lt bound.toInt.natAbs patience g (toNat_width bound ▸ width_pos nonzero)
    have fits := lowest_add_fits inside
    rw [draw_of_nonzero nonzero]
    exact inRange_of_toInt inside (Int64.toInt_ofInt_of_le fits.1 fits.2)

theorem takes_iff (nonzero : bound ≠ 0) (word : UInt64) : Takes bound word ↔
    word.toNat * bound.toInt.natAbs % 2 ^ 64 ≤ acceptance bound.toInt.natAbs := by
  rw [Takes, UInt64.le_iff_toNat_le, toNat_lowHalf, toNat_zone (width_pos nonzero), toNat_width]

theorem below_of_takes (nonzero : bound ≠ 0) (taken : Takes bound g.next.1) (tries : Nat) :
    below bound.toInt.natAbs (tries + 1) g =
      ((highHalf g.next.1 (width bound)).toNat, g.next.2) := by
  rw [toNat_highHalf _ (width_pos nonzero), toNat_width]
  exact if_pos ((takes_iff nonzero _).mp taken)

theorem below_of_refused (nonzero : bound ≠ 0) (passed : ¬Takes bound g.next.1) (tries : Nat) :
    below bound.toInt.natAbs (tries + 1) g = below bound.toInt.natAbs tries g.next.2 :=
  if_neg fun fits => passed ((takes_iff nonzero _).mpr fits)

/-- With more tries than words are refused, the number is found that is drawn. -/
theorem Draws.below_eq (drawn : Draws bound refused g v after) (nonzero : bound ≠ 0) {tries : Nat}
    (enough : refused < tries) : ∃ n, Chance.below bound.toInt.natAbs tries g = (n, after) ∧
      v.toInt = (lowest bound).toInt + n := by
  obtain ⟨tries, rfl⟩ := Nat.exists_eq_add_one_of_ne_zero (Nat.ne_zero_of_lt enough)
  induction drawn generalizing tries with
  | zero zero => exact absurd zero nonzero
  | @take g _ taken => exact ⟨_, below_of_takes nonzero taken tries, toInt_chosen nonzero g.next.1⟩
  | @refuse refused g _ _ _ passed others ih =>
    obtain ⟨fewer, rfl⟩ := Nat.exists_eq_add_one_of_ne_zero (n := tries) (by omega)
    obtain ⟨n, found, same⟩ := ih fewer (by omega)
    exact ⟨n, (below_of_refused nonzero passed (fewer + 1)).trans found, same⟩

theorem Draws.draw_eq (drawn : Draws bound refused g v after) (patient : refused < patience) :
    draw bound g = (v, after) := by
  rcases Decidable.em (bound = 0) with zero | nonzero
  · obtain ⟨rfl, rfl⟩ := drawn.of_zero zero
    rw [zero, draw_zero]
  · obtain ⟨n, found, same⟩ := drawn.below_eq nonzero patient
    rw [draw_of_nonzero nonzero, found, ← same, Int64.ofInt_toInt]

theorem one_lt_patience : 1 < patience := by
  rw [patience]
  decide

/-- A search that ends within its tries takes a word after fewer refusals. -/
theorem exists_draws (nonzero : bound ≠ 0) (tries : Nat) (g : Generator) :
    (∃ refused < tries, ∃ v after, Draws bound refused g v after) ∨
      ∀ refused v after, Draws bound refused g v after → tries ≤ refused := by
  induction tries generalizing g with
  | zero => exact .inr fun refused _ _ _ => Nat.zero_le refused
  | succ tries ih =>
    by_cases taken : Takes bound g.next.1
    · exact .inl ⟨0, Nat.succ_pos tries, _, _, .take nonzero taken⟩
    · rcases ih g.next.2 with ⟨refused, fewer, v, after, drawn⟩ | longer
      · exact .inl ⟨refused + 1, Nat.succ_lt_succ fewer, v, after, .refuse nonzero taken drawn⟩
      · refine .inr fun refused v after drawn => ?_
        cases drawn with
        | zero zero => exact absurd zero nonzero
        | take _ here => exact absurd here taken
        | refuse _ _ others => exact Nat.succ_le_succ (longer _ _ _ others)

end Draws

theorem value_random {e : Expr} {bindings : Bindings} {g after : Generator} {v : Int64}
    (valued : (Expr.random e).value bindings g = (.ok v, after)) : ∃ bound between,
      e.value bindings g = (.ok bound, between) ∧ draw bound between = (v, after) := by
  rw [Expr.value] at valued
  split at valued
  · cases valued
  · rename_i bound between inner
    cases valued
    exact ⟨bound, between, inner, rfl⟩

/-- What is drawn lies between zero and the bound, which is left out, and for the bound zero the
generator stays as it is. That holds of the search in words however many words it refuses, and the
search with a limit gives the same unless the limit is met. No step of it overflows: the lowest number
is exact, the width is that of the range, and so is the sum with the high half of any product. So the
value of a draw lies between zero and that of its bound. -/
theorem draws_stay_in_range (bound : Int64) (g : Generator) :
    (InRange bound (draw bound g).1 ∧ (bound = 0 → draw bound g = (0, g))) ∧
    (∀ refused v after, Draws bound refused g v after →
      InRange bound v ∧ (bound = 0 → v = 0 ∧ after = g) ∧
      (refused < patience → draw bound g = (v, after))) ∧
    ((∃ refused < patience, Draws bound refused g (draw bound g).1 (draw bound g).2) ∨
      ∀ refused v after, Draws bound refused g v after → patience ≤ refused) ∧
    (bound ≠ 0 →
      (lowest bound).toInt = (if 0 < bound.toInt then 0 else bound.toInt + 1) ∧
      (width bound).toNat = bound.toInt.natAbs ∧
      (zone (width bound)).toNat = acceptance bound.toInt.natAbs ∧
      ∀ word, (highHalf word (width bound)).toNat = word.toNat * bound.toInt.natAbs / 2 ^ 64 ∧
        (chosen bound word).toInt =
          (lowest bound).toInt + (highHalf word (width bound)).toNat) ∧
    ∀ (e : Expr) (bindings : Bindings) (v : Int64) (after : Generator),
      (Expr.random e).value bindings g = (.ok v, after) → ∃ bound between,
        e.value bindings g = (.ok bound, between) ∧ InRange bound v ∧
        (bound = 0 → after = between) := by
  refine ⟨⟨inRange_draw bound g, ?_⟩, fun refused v after drawn =>
    ⟨drawn.inRange, drawn.of_zero, drawn.draw_eq⟩, ?_, fun nonzero => ?_, ?_⟩
  · rintro rfl
    exact draw_zero g
  · rcases Decidable.em (bound = 0) with rfl | nonzero
    · exact .inl ⟨0, Nat.zero_lt_of_lt one_lt_patience, .zero rfl g⟩
    · rcases exists_draws nonzero patience g with ⟨refused, fewer, v, after, drawn⟩ | exhausted
      · have same := drawn.draw_eq fewer
        exact .inl ⟨refused, fewer, by rwa [same]⟩
      · exact .inr exhausted
  · have positive := width_pos nonzero
    refine ⟨toInt_lowest bound, toNat_width bound, ?_, fun word => ⟨?_, toInt_chosen nonzero word⟩⟩
    · rw [toNat_zone positive, toNat_width]
    · rw [toNat_highHalf word positive, toNat_width]
  · intro e bindings v after valued
    obtain ⟨bound, between, inner, drawn⟩ := value_random valued
    have within := inRange_draw bound between
    rw [drawn] at within
    refine ⟨bound, between, inner, within, ?_⟩
    rintro rfl
    rw [draw_zero] at drawn
    exact (congrArg Prod.snd drawn).symm

/-- The least bound refuses every odd word. -/
theorem draws_stay_in_range_least :
    let bound := Int64.minValue
    let g := Generator.ofSeed 6
    let after := g.next.2.next.2
    Draws bound 1 g (-288206346505734420) after ∧
      draw bound g = (-288206346505734420, after) ∧ InRange bound (-288206346505734420) ∧
      (width bound).toNat = 2 ^ 63 ∧ ∃ v after,
        (Expr.random (.number bound)).value (.ofIteration 0) g = (.ok v, after) ∧
          InRange bound v := by
  intro bound g after
  have nonzero : bound ≠ 0 := by decide
  have odd : ¬Takes bound g.next.1 := by decide +kernel
  have even : Takes bound g.next.2.next.1 := by decide +kernel
  have number : chosen bound g.next.2.next.1 = -288206346505734420 := by decide +kernel
  have drawn : Draws bound 1 g (-288206346505734420) after :=
    number ▸ .refuse nonzero odd (.take nonzero even)
  obtain ⟨-, sampled, -, exact, evaluated⟩ := draws_stay_in_range bound g
  obtain ⟨within, -, same⟩ := sampled 1 _ _ drawn
  have same := same one_lt_patience
  have value : (Expr.random (.number bound)).value (.ofIteration 0) g =
      (.ok (-288206346505734420), after) := by
    simp only [Expr.value, same]
  obtain ⟨_, _, inner, inside, -⟩ := evaluated _ _ _ _ value
  rw [Expr.value] at inner
  cases inner
  exact ⟨drawn, same, within, (exact nonzero).2.1.trans (by decide), _, _, value, inside⟩

end BranchLab.Chance
