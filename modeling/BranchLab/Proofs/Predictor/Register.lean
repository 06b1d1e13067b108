import Mathlib.Data.Nat.Digits.Defs
import Mathlib.Data.Nat.ModEq
import Mathlib.Tactic.Ring
import BranchLab.Session.Basic
import BranchLab.Proofs.Predictor.Shape

/-! The history register. Its binary digits are the latest outcomes, the last of them in the lowest
place, as many as the history has bits. What stood in it before the branches is only ever pushed
towards the high end, so after that many branches nothing of it is left. -/

namespace BranchLab

namespace Text

/-- The lowest binary digits of a number, the highest of them first. -/
def binaryDigits (width n : Nat) : List Char :=
  (List.range width).reverse.map fun place => if n.testBit place then '1' else '0'

theorem length_binaryDigits (width n : Nat) : (binaryDigits width n).length = width := by
  simp [binaryDigits]

theorem getElem?_binaryDigits (n : Nat) {width place : Nat} (inside : place < width) :
    (binaryDigits width n)[width - 1 - place]? = some (if n.testBit place then '1' else '0') := by
  have above : width - 1 - place < (List.range width).length := by
    rw [List.length_range]
    omega
  have mirrored : width - 1 - (width - 1 - place) = place := by omega
  rw [binaryDigits, List.getElem?_map, List.getElem?_reverse above, List.length_range, mirrored,
    List.getElem?_range inside, Option.map_some]

theorem binaryDigits_zero (width : Nat) : binaryDigits width 0 = List.replicate width '0' := by
  apply List.eq_replicate_iff.mpr
  simp [binaryDigits]

theorem binaryDigits_succ (width n : Nat) :
    binaryDigits (width + 1) n = binaryDigits width (n / 2) ++ [(n % 2).digitChar] := by
  have lowest : (if n.testBit 0 then '1' else '0') = (n % 2).digitChar := by
    rw [Nat.testBit_zero]
    rcases Nat.mod_two_eq_zero_or_one n with even | odd
    · rw [even]
      rfl
    · rw [odd]
      rfl
  rw [← lowest, binaryDigits, List.range_succ_eq_map, List.reverse_cons, List.map_append,
    ← List.map_reverse, List.map_map]
  simp only [binaryDigits, Function.comp_def, Nat.testBit_succ, List.map_cons, List.map_nil]

/-- In a width that is enough for them, the digits are those of the numeral with zeros before it. -/
theorem binaryDigits_eq_leftpad (width : Nat) {n : Nat} (small : n < 2 ^ (width + 1)) :
    binaryDigits (width + 1) n = (Nat.toDigits 2 n).leftpad (width + 1) '0' := by
  rw [binaryDigits_succ]
  -- Both sides have the lowest digit last, and what stands before it belongs to half the number.
  induction width generalizing n with
  | zero =>
    have least : n < 2 := small
    rw [Nat.toDigits_of_lt_base least, Nat.mod_eq_of_lt least]
    rfl
  | succ width ih =>
    by_cases least : n < 2
    · rw [Nat.toDigits_of_lt_base least, Nat.mod_eq_of_lt least, Nat.div_eq_of_lt least,
        binaryDigits_zero]
      rfl
    · have half : n / 2 < 2 ^ (width + 1) := by omega
      rw [Nat.toDigits_of_base_le (by decide) (Nat.le_of_not_lt least), binaryDigits_succ, ih half]
      simp [List.leftpad]

end Text

namespace Bank

variable {bank : Bank}

def latest (events : List BranchEvent) : List Bool := (events.map BranchEvent.taken).reverse

/-- The number whose binary digits are the outcomes, the first in the lowest place. -/
def reading (outcomes : List Bool) : Nat := Nat.ofDigits 2 (outcomes.map Bool.toNat)

theorem latest_cons (event : BranchEvent) (events : List BranchEvent) :
    latest (event :: events) = latest events ++ [event.taken] := by simp [latest]

theorem length_latest (events : List BranchEvent) : (latest events).length = events.length := by
  simp [latest]

theorem reading_cons (taken : Bool) (outcomes : List Bool) :
    reading (taken :: outcomes) = taken.toNat + 2 * reading outcomes := Nat.ofDigits_cons

theorem reading_snoc (outcomes : List Bool) (taken : Bool) :
    reading (outcomes ++ [taken]) = reading outcomes + 2 ^ outcomes.length * taken.toNat := by
  simp [reading, Nat.ofDigits_append]

theorem reading_take (outcomes : List Bool) (width : Nat) :
    reading (outcomes.take width) = reading outcomes % 2 ^ width := by
  have digits : ∀ digit ∈ outcomes.map Bool.toNat, digit < 2 := by
    intro digit member
    obtain ⟨taken, -, rfl⟩ := List.mem_map.mp member
    exact taken.toNat_lt
  rw [reading, List.map_take]
  exact (Nat.ofDigits_mod_pow_eq_ofDigits_take width (by decide) _ digits).symm

theorem testBit_reading (outcomes : List Bool) (place : Nat) :
    (reading outcomes).testBit place = outcomes[place]?.getD false := by
  induction outcomes generalizing place with
  | nil => simp [reading]
  | cons taken outcomes ih =>
    rw [reading_cons]
    cases place with
    | zero =>
      rw [Nat.testBit_zero]
      cases taken <;> simp [Nat.add_mod]
    | succ place =>
      have half : (taken.toNat + 2 * reading outcomes) / 2 = reading outcomes := by
        have low := taken.toNat_lt
        omega
      rw [Nat.testBit_succ, half, ih, List.getElem?_cons_succ]

/-- Outcomes come in at the low end, and what the register held moves up. -/
theorem history_after (small : bank.history < bank.geometry.tableCount) (ledger : Ledger)
    (events : List BranchEvent) :
    (bank.after ledger events).1.history =
      (2 ^ events.length * bank.history + reading (latest events)) % bank.geometry.tableCount := by
  induction events generalizing bank ledger with
  | nil =>
    have start : 2 ^ 0 * bank.history + reading [] = bank.history := by simp [reading]
    exact ((congrArg (· % _) start).trans (Nat.mod_eq_of_lt small)).symm
  | cons event events ih =>
    let next := (bank.predictAndUpdate event ledger).2.1
    have inside : next.history < next.geometry.tableCount :=
      Nat.mod_lt _ bank.geometry.tableCount_pos
    have shifted : next.history =
        (2 * bank.history + event.taken.toNat) % bank.geometry.tableCount := rfl
    rw [after_cons, ih inside, shifted, latest_cons, reading_snoc, length_latest, List.length_cons]
    calc
      _ = (2 ^ events.length * (2 * bank.history + event.taken.toNat) + reading (latest events)) %
          bank.geometry.tableCount := ((Nat.mod_modEq _ _).mul_left _).add_right _
      _ = _ := by
        congr 1
        ring

/-- Once there are as many outcomes as the register holds, nothing else is in it. -/
theorem history_after_full (small : bank.history < bank.geometry.tableCount) (ledger : Ledger)
    {events : List BranchEvent} (full : bank.geometry.historyBits ≤ events.length) :
    (bank.after ledger events).1.history =
      reading ((latest events).take bank.geometry.historyBits) := by
  obtain ⟨more, filled⟩ := Nat.exists_eq_add_of_le full
  rw [history_after small, Geometry.tableCount_eq, reading_take, filled, pow_add, Nat.mul_assoc,
    Nat.mul_add_mod]

/-- A bank that no branch has come to since it was made, or since it got its shape in a session. -/
inductive Begun (geometry : Geometry) : Bank → Prop
  | made : Begun geometry (fresh geometry)
  | reconfigured (s : Session) : Begun geometry (s.reconfigure geometry).bank
  | configured (s : Session) (tableSize : Int) (mode : String) (historyBits : Int)
      (granted : Geometry.ofInput tableSize mode historyBits = .ok geometry) :
      Begun geometry (s.configure tableSize mode historyBits).2.bank

theorem Begun.eq_fresh {geometry : Geometry} (begun : Begun geometry bank) :
    bank = fresh geometry := by
  cases begun with
  | made => rfl
  | reconfigured s => rfl
  | configured s tableSize mode historyBits granted => rw [Session.configure, granted]; rfl

theorem history_after_fresh (geometry : Geometry) (ledger : Ledger) (events : List BranchEvent) :
    ((fresh geometry).after ledger events).1.history =
      reading ((latest events).take geometry.historyBits) := by
  have empty : (fresh geometry).history = 0 := rfl
  have shape : (fresh geometry).geometry = geometry := rfl
  rw [history_after geometry.tableCount_pos, empty, shape, reading_take, Geometry.tableCount_eq,
    Nat.mul_zero, Nat.zero_add]

theorem testBit_history_after_fresh (geometry : Geometry) (ledger : Ledger)
    (events : List BranchEvent) {place : Nat} (inside : place < geometry.historyBits) :
    ((fresh geometry).after ledger events).1.history.testBit place =
      (latest events)[place]?.getD false := by
  rw [history_after_fresh, testBit_reading, List.getElem?_take_of_lt inside]

theorem historyText_toList (bank : Bank) :
    bank.historyText.toList = Text.binaryDigits bank.geometry.historyBits bank.history :=
  String.toList_ofList

/-- The register reads as the latest outcomes in binary, the last one in the lowest place, as many of
them as the history has bits, and the table of a prediction is what it read before that branch. The
text shows the same outcomes, the last one on the right and a zero where there is none yet, and is
the binary numeral filled up with zeros on the left. -/
theorem register_holds_latest_outcomes {geometry : Geometry} {bank : Bank}
    (begun : Begun geometry bank) (ledger : Ledger) (events : List BranchEvent) :
    let width := geometry.historyBits
    let register := fun events => reading ((latest events).take (min events.length width))
    let now := (bank.after ledger events).1
    now.history = register events ∧
    (bank.predictions ledger events).map Prediction.table =
      (List.range events.length).map (fun n => register (events.take n)) ∧
    now.historyText.length = width ∧
    (∀ place < width, now.historyText.toList[width - 1 - place]? =
      some (if (latest events)[place]?.getD false then '1' else '0')) ∧
    (width = 0 → now.historyText = "") ∧
    (0 < width → now.historyText.toList = (Nat.toDigits 2 now.history).leftpad width '0') := by
  intro width register now
  obtain rfl := begun.eq_fresh
  have law (events : List BranchEvent) :
      ((fresh geometry).after ledger events).1.history = register events := by
    simp only [register]
    rw [history_after_fresh, List.take_eq_take_min, length_latest, Nat.min_comm]
  have shape : now.geometry = geometry := geometry_after (fresh geometry) ledger events
  have digits : now.historyText.toList = Text.binaryDigits width now.history := by
    rw [historyText_toList, shape]
  refine ⟨law events, ?_, ?_, ?_, ?_, ?_⟩
  · apply List.ext_getElem?
    intro n
    rw [List.getElem?_map, getElem?_predictions, List.getElem?_map]
    by_cases inside : n < events.length
    · rw [List.getElem?_eq_getElem inside, List.getElem?_range inside]
      exact congrArg some (law (events.take n))
    · rw [List.getElem?_eq_none (Nat.le_of_not_lt inside),
        List.getElem?_eq_none (by simpa using inside)]
      rfl
  · rw [← String.length_toList, digits, Text.length_binaryDigits]
  · intro place inside
    have bit := testBit_history_after_fresh geometry ledger events inside
    rw [digits, Text.getElem?_binaryDigits _ inside, bit]
  · intro narrow
    rw [← String.toList_eq_nil_iff, digits, narrow]
    rfl
  · intro positive
    have small : now.history < 2 ^ width := by
      rw [← geometry.tableCount_eq]
      exact history_after_lt geometry.tableCount_pos ledger events
    obtain ⟨less, filled⟩ := Nat.exists_eq_add_one_of_ne_zero (Nat.ne_of_gt positive)
    rw [digits, filled]
    exact Text.binaryDigits_eq_leftpad less (filled ▸ small)

/-- A register of three bits after four outcomes, the first of which is gone. -/
theorem register_holds_latest_outcomes_configured :
    let geometry : Geometry := ⟨4, .twoBit, 3, by decide, by decide⟩
    let bank := ((Session.start .default 1).configure 4 " 2 " 3).2.bank
    let events : List BranchEvent := [⟨9, true⟩, ⟨4, false⟩, ⟨9, true⟩, ⟨2, true⟩]
    let now := (bank.after .empty events).1
    Geometry.ofInput 4 " 2 " 3 = .ok geometry ∧ Begun geometry bank ∧
      now.history = reading [true, true, false] ∧
      (bank.predictions .empty events).map Prediction.table = [0, 1, 2, 5] ∧
      now.historyText.toList[0]? = some '0' ∧
      now.historyText.toList = (Nat.toDigits 2 now.history).leftpad 3 '0' := by
  intro geometry bank events now
  have granted : Geometry.ofInput 4 " 2 " 3 = .ok geometry :=
    (Geometry.ofInput_ok ..).mpr ⟨by decide, by decide, by decide, rfl, rfl, by decide⟩
  have begun : Begun geometry bank := .configured _ 4 " 2 " 3 granted
  obtain ⟨history, tables, -, digit, -, padded⟩ :=
    register_holds_latest_outcomes begun .empty events
  exact ⟨granted, begun, history, tables, digit 2 (by decide), padded (by decide)⟩

end Bank
end BranchLab
