import BranchLab.Proofs.Source.Spelling

/-! Numbers written in decimal are read back. A numeral has no blanks to be cut off, so it makes no
difference that they are looked for. -/

namespace BranchLab.Text

def Solid (text : List Char) : Prop :=
  (∀ c ∈ text.head?, isBlank c = false) ∧ ∀ c ∈ text.getLast?, isBlank c = false

theorem Solid.trim {text : List Char} (solid : Solid text) : trim text = text := by
  have last : trimStart text.reverse = text.reverse := by
    apply trimStart_eq_self
    rw [List.head?_reverse]
    exact solid.2
  rw [Text.trim, trimStart_eq_self solid.1, last, List.reverse_reverse]

theorem solid_of_forall {text : List Char} (solid : ∀ c ∈ text, isBlank c = false) : Solid text :=
  ⟨fun c first => solid c (List.mem_of_mem_head? first),
    fun c last => solid c (List.mem_of_mem_getLast? last)⟩

section Natural

variable (n : Nat)

theorem exists_numeral : ∃ first more, (toString n).toList = first :: more ∧
    (∀ c ∈ first :: more, c.isDigit) ∧ digits? (first :: more) = some n := by
  obtain ⟨first, more, spelled, digits, value⟩ := Source.exists_digits n
  have all : (first :: more).all Char.isDigit := List.all_eq_true.mpr digits
  exact ⟨first, more, spelled, digits, by rw [digits?, if_pos ⟨by simp, all⟩, value]⟩

theorem digits?_toString : digits? (toString n).toList = some n := by
  obtain ⟨first, more, spelled, digits, value⟩ := exists_numeral n
  rw [spelled, value]

theorem isBlank_toString : ∀ c ∈ (toString n).toList, isBlank c = false := by
  obtain ⟨first, more, spelled, digits, value⟩ := exists_numeral n
  intro c member
  rw [spelled] at member
  have code := Source.code_of_isDigit (digits c member)
  exact Source.isBlank_eq_false ⟨by omega, by omega⟩

theorem unsigned?_toString {limit : Nat} (fits : n ≤ limit) :
    unsigned? limit (toString n).toList = some n := by
  obtain ⟨first, more, spelled, digits, value⟩ := exists_numeral n
  have unsigned : first ≠ '+' := by
    rintro rfl
    exact absurd (digits '+' (by simp)) (by decide)
  have read : unsigned? limit (first :: more) = (digits? (first :: more)).filter (· ≤ limit) := by
    unfold unsigned?
    split
    · rename_i plus
      exact absurd (List.cons.inj plus).1 unsigned
    · rfl
  rw [spelled, read, value]
  simp [fits]

end Natural

theorem toList_toString_negative (n : Nat) :
    (toString (Int.negSucc n)).toList = '-' :: (toString (n + 1)).toList := by
  have written : toString (Int.negSucc n) = "-" ++ toString (n + 1) := rfl
  rw [written, String.toList_append]
  rfl

theorem isBlank_toString_int (n : Int) : ∀ c ∈ (toString n).toList, isBlank c = false := by
  cases n with
  | ofNat n => exact isBlank_toString n
  | negSucc n =>
    rw [toList_toString_negative]
    intro c member
    rcases List.mem_cons.mp member with rfl | digit
    · decide
    · exact isBlank_toString (n + 1) c digit

theorem signed?_toString {least greatest n : Int} (fits : least ≤ n ∧ n ≤ greatest) :
    signed? least greatest (toString n).toList = some n := by
  cases n with
  | ofNat n =>
    obtain ⟨first, more, spelled, digits, value⟩ := exists_numeral n
    have unsigned : first ≠ '+' ∧ first ≠ '-' := by
      constructor
      all_goals
        rintro rfl
        exact absurd (digits _ List.mem_cons_self) (by decide)
    have written : (toString (Int.ofNat n)).toList = first :: more := spelled
    have read : signed? least greatest (first :: more) =
        ((digits? (first :: more)).map fun n => (n : Int)).filter
          fun v => least ≤ v && v ≤ greatest := by
      unfold signed?
      split
      · rename_i plus
        exact absurd (List.cons.inj plus).1 unsigned.1
      · rename_i minus
        exact absurd (List.cons.inj minus).1 unsigned.2
      · rfl
    rw [written, read, value]
    simpa using fits
  | negSucc n =>
    have read : signed? least greatest ('-' :: (toString (n + 1)).toList) =
        (some (Int.negSucc n)).filter fun v => least ≤ v && v ≤ greatest := by
      simp only [signed?, digits?_toString]
      rfl
    rw [toList_toString_negative, read]
    simpa using fits

end BranchLab.Text
