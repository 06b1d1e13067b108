import Mathlib.Algebra.Order.BigOperators.Group.Finset
import BranchLab.Proofs.Predictor.Shape

/-! How much a bank has to learn. A counter that is always told the same is wrong only until it has
come over to that side, and each wrong prediction takes it one state nearer. The states that the
entries still have to go are therefore a debt: when the outcome depends only on the entry and its
table, each misprediction pays one of it off and nothing adds to it, so the mispredictions are
never more than the debt was at first. -/

namespace BranchLab

namespace Counter

/-- How often a counter is still wrong when all branches go one way. -/
def distance (direction : Bool) : Counter → Nat
  | lastOutcome taken => (taken ^^ direction).toNat
  | stronglyNotTaken => if direction then 2 else 0
  | weaklyNotTaken => if direction then 1 else 0
  | weaklyTaken => if direction then 0 else 1
  | stronglyTaken => if direction then 0 else 2

theorem distance_le (direction : Bool) (counter : Counter) :
    counter.distance direction ≤ counter.mode.bits := by
  rcases counter with ⟨_ | _⟩ | _ | _ | _ | _ <;> cases direction <;> decide

/-- A wrong prediction brings the counter one nearer, and a right one leaves it on its side. -/
theorem distance_observe (direction : Bool) (counter : Counter) :
    (!(counter.predictsTaken == direction)).toNat + (counter.observe direction).distance direction =
      counter.distance direction := by
  rcases counter with ⟨_ | _⟩ | _ | _ | _ | _ <;> cases direction <;> rfl

end Counter

def Prediction.place (prediction : Prediction) : Nat × Nat := (prediction.table, prediction.entry)

namespace Bank

def missed (predictions : List Prediction) : Nat := predictions.countP (!·.correct)

def visited (predictions : List Prediction) : Finset (Nat × Nat) :=
  (predictions.map Prediction.place).toFinset

/-- How far the counters at some entries are from what a rule says of them. -/
def debt (bank : Bank) (rule : Nat → Nat → Bool) (places : Finset (Nat × Nat)) : Nat :=
  ∑ place ∈ places, (bank.counter place.1 place.2).distance (rule place.2 place.1)

theorem missed_append (earlier later : List Prediction) :
    missed (earlier ++ later) = missed earlier + missed later := List.countP_append

theorem missed_cons (prediction : Prediction) (predictions : List Prediction) :
    missed (prediction :: predictions) = (!prediction.correct).toNat + missed predictions := by
  rw [missed, List.countP_cons, Nat.add_comm]
  cases prediction.correct <;> rfl

variable {bank : Bank} {rule : Nat → Nat → Bool} {places : Finset (Nat × Nat)}

theorem Shaped.debt_le (shaped : bank.Shaped) (rule : Nat → Nat → Bool)
    (places : Finset (Nat × Nat)) :
    bank.debt rule places ≤ bank.geometry.mode.bits * places.card := by
  have each : ∀ place ∈ places, (bank.counter place.1 place.2).distance (rule place.2 place.1) ≤
      bank.geometry.mode.bits := by
    intro place _
    rw [← shaped.mode_counter place.1 place.2]
    exact Counter.distance_le _ _
  calc
    bank.debt rule places ≤ ∑ _place ∈ places, bank.geometry.mode.bits := Finset.sum_le_sum each
    _ = places.card * bank.geometry.mode.bits := Finset.sum_const_nat fun _ _ => rfl
    _ = _ := Nat.mul_comm ..

/-- A branch that goes as the rule says pays for its own misprediction. -/
theorem Shaped.debt_update (shaped : bank.Shaped) (event : BranchEvent) (account : Ledger)
    (counted : (bank.history, bank.entryIndex event.pc) ∈ places)
    (ruled : event.taken = rule (bank.entryIndex event.pc) bank.history) :
    (!(bank.predictAndUpdate event account).1.correct).toNat +
      (bank.predictAndUpdate event account).2.1.debt rule places = bank.debt rule places := by
  let next := (bank.predictAndUpdate event account).2.1
  let here := (bank.history, bank.entryIndex event.pc)
  have trained := shaped.counter_train (bank.entryIndex_lt event.pc) event.taken
  -- The debt of one entry is paid, and the sum over the others stands as it was.
  have elsewhere : ∀ place ∈ places.erase here,
      (next.counter place.1 place.2).distance (rule place.2 place.1) =
        (bank.counter place.1 place.2).distance (rule place.2 place.1) := by
    intro place member
    have other : ¬(bank.history = place.1 ∧ bank.entryIndex event.pc = place.2) := by
      rintro ⟨table, entry⟩
      exact Finset.ne_of_mem_erase member (Prod.ext table.symm entry.symm)
    apply congrArg
    exact (trained place.1 place.2).trans (if_neg other)
  have learned : next.counter here.1 here.2 = (bank.counter here.1 here.2).observe event.taken :=
    (trained here.1 here.2).trans (if_pos ⟨rfl, rfl⟩)
  have paid := Counter.distance_observe event.taken (bank.counter here.1 here.2)
  rw [← learned] at paid
  have spread (bank : Bank) : bank.debt rule places =
      (bank.counter here.1 here.2).distance event.taken + ∑ place ∈ places.erase here,
        (bank.counter place.1 place.2).distance (rule place.2 place.1) := by
    rw [ruled]
    exact (Finset.add_sum_erase places _ counted).symm
  change _ + next.debt rule places = _
  rw [spread next, spread bank, Finset.sum_congr rfl elsewhere, ← paid, ← Nat.add_assoc]
  rfl

theorem Shaped.missed_add_debt (shaped : bank.Shaped) (account : Ledger) (events : List BranchEvent)
    (counted : ∀ prediction ∈ bank.predictions account events, prediction.place ∈ places)
    (ruled : ∀ prediction ∈ bank.predictions account events,
      prediction.taken = rule prediction.entry prediction.table) :
    missed (bank.predictions account events) + (bank.after account events).1.debt rule places =
      bank.debt rule places := by
  induction events generalizing bank account with
  | nil => exact Nat.zero_add _
  | cons event events ih =>
    let done := bank.predictAndUpdate event account
    obtain ⟨countedFirst, countedRest⟩ := List.forall_mem_cons.mp counted
    obtain ⟨ruledFirst, ruledRest⟩ := List.forall_mem_cons.mp ruled
    have first := shaped.debt_update event account countedFirst ruledFirst
    have next : done.2.1.Shaped := shaped.train (bank.entryIndex_lt event.pc) event.taken
    have rest := ih next done.2.2 countedRest ruledRest
    have split : bank.predictions account (event :: events) =
        done.1 :: done.2.1.predictions done.2.2 events := rfl
    rw [split, missed_cons, Nat.add_assoc, after_cons, rest, first]

/-- With a rule that tells each entry always the same, there are at most as many mispredictions as
the visited entries have bits. -/
theorem Shaped.missed_le (shaped : bank.Shaped) (rule : Nat → Nat → Bool) (account : Ledger)
    (events : List BranchEvent)
    (ruled : ∀ prediction ∈ bank.predictions account events,
      prediction.taken = rule prediction.entry prediction.table) :
    missed (bank.predictions account events) ≤
      bank.geometry.mode.bits * (visited (bank.predictions account events)).card := by
  have counted : ∀ prediction ∈ bank.predictions account events,
      prediction.place ∈ visited (bank.predictions account events) := by
    intro prediction member
    exact List.mem_toFinset.mpr (List.mem_map_of_mem member)
  have paid := shaped.missed_add_debt account events counted ruled
  have most := shaped.debt_le rule (visited (bank.predictions account events))
  omega

theorem Shaped.card_visited_le (shaped : bank.Shaped) (account : Ledger)
    (events : List BranchEvent) :
    (visited (bank.predictions account events)).card ≤
      bank.geometry.tableSize * 2 ^ bank.geometry.historyBits := by
  have inside : visited (bank.predictions account events) ⊆
      Finset.range bank.geometry.tableCount ×ˢ Finset.range bank.geometry.tableSize := by
    intro place member
    obtain ⟨prediction, made, rfl⟩ := List.mem_map.mp (List.mem_toFinset.mp member)
    obtain ⟨n, event, -, rfl⟩ := exists_of_mem_predictions made
    have now := shaped.after account (events.take n)
    have shape := geometry_after bank account (events.take n)
    rw [← shape, Finset.mem_product, Finset.mem_range, Finset.mem_range]
    exact ⟨now.history, entryIndex_lt _ event.pc⟩
  have most := Finset.card_le_card inside
  rwa [Finset.card_product, Finset.card_range, Finset.card_range, Geometry.tableCount_eq,
    Nat.mul_comm] at most

/-- Whatever has happened to a bank, when the outcome of each branch follows a rule from its entry and
the history before it, the mispredictions are at most the bits of a counter times the entries that
the branches visit, however many branches there are. -/
theorem mispredictions_paid_by_visited_entries (geometry : Geometry) (ledger account : Ledger)
    (calls : List Call) (events : List BranchEvent) (rule : Nat → Nat → Bool) :
    let bank := ((fresh geometry).called ledger calls).1
    let tableSize := bank.geometry.tableSize
    let historyBits := bank.geometry.historyBits
    let bits := bank.geometry.mode.bits
    let predictions := bank.predictions account events
    (∀ n event, events[n]? = some event →
      event.taken = rule (event.pc % tableSize) (bank.after account (events.take n)).1.history) →
    missed predictions ≤ bits * (visited predictions).card ∧
      missed predictions ≤ bits * tableSize * 2 ^ historyBits := by
  intro bank tableSize historyBits bits predictions follows
  have shaped : bank.Shaped := (shaped_fresh geometry).called ledger calls
  have ruled : ∀ prediction ∈ predictions,
      prediction.taken = rule prediction.entry prediction.table := by
    intro prediction member
    obtain ⟨n, event, held, rfl⟩ := exists_of_mem_predictions member
    have entry := entryIndex_after bank account (events.take n) event.pc
    have outcome := follows n event held
    rwa [← entryIndex, ← entry] at outcome
  have paid : missed predictions ≤ bits * (visited predictions).card :=
    shaped.missed_le rule account events ruled
  refine ⟨paid, ?_⟩
  rw [Nat.mul_assoc]
  exact paid.trans (Nat.mul_le_mul_left bits (shaped.card_visited_le account events))

/-- A trained bank of two tables meets a branch that alternates, as the history foretells, and one at
another entry that is never taken. -/
theorem mispredictions_paid_by_visited_entries_alternating :
    let geometry : Geometry := ⟨2, .twoBit, 1, by decide, by decide⟩
    let calls : List Call := [.update ⟨4, true⟩, .update ⟨4, true⟩, .update ⟨4, true⟩]
    let events : List BranchEvent :=
      [⟨4, false⟩, ⟨4, true⟩, ⟨6, false⟩, ⟨7, false⟩, ⟨4, true⟩]
    let rule : Nat → Nat → Bool := fun entry history => entry == 0 && history == 0
    let bank := ((fresh geometry).called .empty calls).1
    let predictions := bank.predictions .empty events
    (∀ n event, events[n]? = some event →
      event.taken = rule (event.pc % 2) (bank.after .empty (events.take n)).1.history) ∧
    missed predictions ≤ 2 * (visited predictions).card ∧ missed predictions ≤ 2 * 2 * 2 ^ 1 := by
  intro geometry calls events rule bank predictions
  have follows : ∀ n event, events[n]? = some event →
      event.taken = rule (event.pc % 2) (bank.after .empty (events.take n)).1.history := by
    have all : ∀ place : Fin 5, events[place].taken =
        rule (events[place].pc % 2) (bank.after .empty (events.take place)).1.history := by decide
    intro n event held
    obtain ⟨inside, rfl⟩ := List.getElem?_eq_some_iff.mp held
    exact all ⟨n, inside⟩
  exact ⟨follows,
    mispredictions_paid_by_visited_entries geometry .empty .empty calls events rule follows⟩

end Bank
end BranchLab
