import BranchLab.Proofs.Predictor.Register
import BranchLab.Proofs.Predictor.Learning

/-! The warm-up of a branch that always goes one way. It selects another table each time until the
history holds its outcome alone, and from then on one entry learns it. So it can be mispredicted as
often as the history has bits, and then as often as a counter does. When nothing has been learned
before and the branch is taken, it is mispredicted just so often. -/

namespace BranchLab

namespace Reference

theorem level_replicate (n : Nat) : level (List.replicate n true) = min n 3 := by
  induction n with
  | zero => rfl
  | succ n ih =>
    have next : level (List.replicate n true ++ [true]) = min (level (List.replicate n true) + 1) 3 := by
      simp [level]
    rw [List.replicate_succ', next, ih]
    omega

/-- A counter that has been taken only predicts so once it was told as often as it has bits. -/
theorem predicts_replicate (mode : CounterMode) (n : Nat) :
    predicts mode (List.replicate n true) = decide (mode.bits ≤ n) := by
  cases mode with
  | oneBit =>
    cases n with
    | zero => rfl
    | succ n => simp [predicts, lastOutcome, List.replicate_succ', CounterMode.bits]
  | twoBit =>
    rw [predicts, level_replicate]
    apply decide_eq_decide.mpr
    change 2 ≤ min n 3 ↔ 2 ≤ n
    omega

end Reference

namespace Bank

variable {bank : Bank} {events : List BranchEvent}

theorem latest_of_constant {direction : Bool}
    (constant : ∀ event ∈ events, event.taken = direction) :
    latest events = List.replicate events.length direction := by
  apply List.eq_replicate_iff.mpr
  refine ⟨length_latest events, ?_⟩
  intro taken member
  obtain ⟨event, inside, rfl⟩ := List.mem_map.mp (List.mem_reverse.mp member)
  exact constant event inside

theorem history_after_constant (small : bank.history < bank.geometry.tableCount) (ledger : Ledger)
    {direction : Bool} (constant : ∀ event ∈ events, event.taken = direction)
    (full : bank.geometry.historyBits ≤ events.length) :
    (bank.after ledger events).1.history =
      reading (List.replicate bank.geometry.historyBits direction) := by
  rw [history_after_full small ledger full, latest_of_constant constant, List.take_replicate,
    Nat.min_eq_left full]

/-- One more branch is missed when it does not go as it is predicted. -/
theorem missed_predictions_snoc (bank : Bank) (ledger : Ledger) (events : List BranchEvent)
    (event : BranchEvent) :
    missed (bank.predictions ledger (events ++ [event])) = missed (bank.predictions ledger events) +
      (!((bank.after ledger events).1.predict event.pc == event.taken)).toNat := by
  rw [predictions_append, missed_append]
  exact congrArg (_ + ·) (missed_cons _ _)

/-- Branches that all select one table come to one entry. -/
theorem Shaped.missed_settled_le (shaped : bank.Shaped) (account : Ledger) {direction : Bool}
    {entry table : Nat}
    (steady : ∀ event ∈ events,
      event.taken = direction ∧ event.pc % bank.geometry.tableSize = entry)
    (settled : ∀ n < events.length, (bank.after account (events.take n)).1.history = table) :
    missed (bank.predictions account events) ≤ bank.geometry.mode.bits := by
  have made : ∀ prediction ∈ bank.predictions account events,
      prediction.taken = direction ∧ prediction.place = (table, entry) := by
    intro prediction member
    obtain ⟨n, event, held, rfl⟩ := exists_of_mem_predictions member
    obtain ⟨inside, rfl⟩ := List.getElem?_eq_some_iff.mp held
    obtain ⟨outcome, place⟩ := steady events[n] (List.getElem_mem inside)
    refine ⟨outcome, Prod.ext (settled n inside) ?_⟩
    exact (entryIndex_after bank account (events.take n) events[n].pc).trans place
  have single : (visited (bank.predictions account events)).card ≤ 1 := by
    apply Finset.card_le_one_iff_subset_singleton.mpr
    refine ⟨(table, entry), ?_⟩
    intro place member
    obtain ⟨prediction, inside, rfl⟩ := List.mem_map.mp (List.mem_toFinset.mp member)
    exact Finset.mem_singleton.mpr (made prediction inside).2
  have paid := shaped.missed_le (fun _ _ => direction) account events
    fun prediction member => (made prediction member).1
  calc
    _ ≤ bank.geometry.mode.bits * (visited (bank.predictions account events)).card := paid
    _ ≤ bank.geometry.mode.bits * 1 := Nat.mul_le_mul_left _ single
    _ = bank.geometry.mode.bits := Nat.mul_one _

theorem Shaped.missed_steady_le (shaped : bank.Shaped) (account : Ledger) {direction : Bool}
    {entry : Nat}
    (steady : ∀ event ∈ events,
      event.taken = direction ∧ event.pc % bank.geometry.tableSize = entry) :
    missed (bank.predictions account events) ≤
      bank.geometry.historyBits + bank.geometry.mode.bits := by
  -- As many branches as the history holds may all be missed; then it stays on one table.
  let width := bank.geometry.historyBits
  let early := events.take width
  let late := events.drop width
  let warm := bank.after account early
  have shape : warm.1.geometry = bank.geometry := geometry_after bank account early
  have split : bank.predictions account events =
      bank.predictions account early ++ warm.1.predictions warm.2 late := by
    rw [← predictions_append, List.take_append_drop]
  have first : missed (bank.predictions account early) ≤ width := by
    apply List.countP_le_length.trans
    rw [length_predictions]
    exact List.length_take_le width events
  have settled : ∀ n < late.length, (warm.1.after warm.2 (late.take n)).1.history =
      reading (List.replicate width direction) := by
    intro n inside
    have enough : width ≤ (early ++ late.take n).length := by
      simp only [early, late, List.length_append, List.length_take, List.length_drop] at inside ⊢
      omega
    have constant : ∀ event ∈ early ++ late.take n, event.taken = direction := by
      intro event member
      rcases List.mem_append.mp member with before | later
      · exact (steady event (List.mem_of_mem_take before)).1
      · exact (steady event (List.mem_of_mem_drop (List.mem_of_mem_take later))).1
    rw [← after_append]
    exact history_after_constant shaped.history account constant enough
  have second : missed (warm.1.predictions warm.2 late) ≤ warm.1.geometry.mode.bits := by
    have still : ∀ event ∈ late,
        event.taken = direction ∧ event.pc % warm.1.geometry.tableSize = entry := by
      intro event member
      rw [shape]
      exact steady event (List.mem_of_mem_drop member)
    exact (shaped.after account early).missed_settled_le warm.2 still settled
  rw [shape] at second
  rw [split, missed_append]
  exact Nat.add_le_add first second

variable {geometry : Geometry} {entry : Nat}

theorem reading_ones (n : Nat) : reading (List.replicate n true) = 2 ^ n - 1 := by
  induction n with
  | zero => rfl
  | succ n ih =>
    have positive : 0 < 2 ^ n := Nat.two_pow_pos n
    rw [List.replicate_succ, reading_cons, ih, Nat.pow_succ]
    change 1 + _ = _
    omega

theorem history_after_taken (ledger : Ledger) (taken : ∀ event ∈ events, event.taken = true) :
    ((fresh geometry).after ledger events).1.history =
      2 ^ min events.length geometry.historyBits - 1 := by
  rw [history_after_fresh, latest_of_constant taken, List.take_replicate, Nat.min_comm,
    reading_ones]

/-- The tables that are still to come are untouched, and the last one has been told of the branches
since the history was full. -/
theorem counter_after_taken (ledger : Ledger)
    (steady : ∀ event ∈ events, event.taken = true ∧ event.pc % geometry.tableSize = entry)
    {ones : Nat} (ahead : min events.length geometry.historyBits ≤ ones)
    (within : ones ≤ geometry.historyBits) (inside : entry < geometry.tableSize) :
    ((fresh geometry).after ledger events).1.counter (2 ^ ones - 1) entry =
      Reference.counter geometry.mode (List.replicate (events.length - ones) true) := by
  induction events using List.reverseRecOn generalizing ones with
  | nil =>
    have selected : 2 ^ ones - 1 < geometry.tableCount := by
      rw [Geometry.tableCount_eq]
      have most := Nat.pow_le_pow_right (n := 2) (by decide) within
      have positive := Nat.two_pow_pos ones
      omega
    rw [List.length_nil, Nat.zero_sub]
    exact counter_of_counter? (counter?_fresh selected inside)
  | append_singleton events event ih =>
    have before : ∀ event ∈ events, event.taken = true ∧ event.pc % geometry.tableSize = entry :=
      fun event member => steady event (List.mem_append_left _ member)
    obtain ⟨taken, place⟩ := steady event (by simp)
    let now := ((fresh geometry).after ledger events).1
    have shaped : now.Shaped := (shaped_fresh geometry).after ledger events
    have history : now.history = 2 ^ min events.length geometry.historyBits - 1 :=
      history_after_taken ledger fun event member => (before event member).1
    have trained : now.entryIndex event.pc = entry :=
      (entryIndex_after (fresh geometry) ledger events event.pc).trans place
    rw [List.length_append, List.length_singleton] at ahead ⊢
    have learned := ih before (by omega) within
    have next : ((fresh geometry).after ledger (events ++ [event])).1 =
        now.train (now.entryIndex event.pc) event.taken := by
      rw [after_append]
      rfl
    rw [next, shaped.counter_train (now.entryIndex_lt event.pc), learned, trained, history, taken]
    -- The selected table is the next one while the history fills, and then always the last one.
    by_cases reached : min events.length geometry.historyBits = ones
    · have more : events.length + 1 - ones = events.length - ones + 1 := by omega
      rw [if_pos ⟨by rw [reached], rfl⟩, more, List.replicate_succ', Reference.counter_snoc]
    · have other : 2 ^ min events.length geometry.historyBits - 1 ≠ 2 ^ ones - 1 := by
        intro same
        have positive := Nat.two_pow_pos ones
        have also := Nat.two_pow_pos (min events.length geometry.historyBits)
        have powers : 2 ^ min events.length geometry.historyBits = 2 ^ ones := by omega
        exact reached (Nat.pow_right_injective (Nat.le_refl 2) powers)
      have none : events.length + 1 - ones = events.length - ones := by omega
      rw [if_neg fun both => other both.1, none]

/-- The next such branch is predicted as it goes once there were enough of them. -/
theorem predict_after_taken (ledger : Ledger)
    (steady : ∀ event ∈ events, event.taken = true ∧ event.pc % geometry.tableSize = entry)
    {pc : Nat} (place : pc % geometry.tableSize = entry) :
    ((fresh geometry).after ledger events).1.predict pc =
      decide (geometry.historyBits + geometry.mode.bits ≤ events.length) := by
  have inside : entry < geometry.tableSize := by
    rw [← place]
    exact Nat.mod_lt _ geometry.tableSize_pos
  have history : ((fresh geometry).after ledger events).1.history =
      2 ^ min events.length geometry.historyBits - 1 :=
    history_after_taken ledger fun event member => (steady event member).1
  have selected : ((fresh geometry).after ledger events).1.entryIndex pc = entry :=
    (entryIndex_after (fresh geometry) ledger events pc).trans place
  have bits : 0 < geometry.mode.bits := by cases geometry.mode <;> decide
  rw [predict, history, selected,
    counter_after_taken ledger steady (Nat.le_refl _) (Nat.min_le_right _ _) inside,
    Reference.predictsTaken_counter, Reference.predicts_replicate]
  apply decide_eq_decide.mpr
  omega

theorem missed_taken (account : Ledger)
    (steady : ∀ event ∈ events, event.taken = true ∧ event.pc % geometry.tableSize = entry) :
    missed ((fresh geometry).predictions account events) =
      min events.length (geometry.historyBits + geometry.mode.bits) := by
  induction events using List.reverseRecOn with
  | nil => exact (Nat.zero_min _).symm
  | append_singleton events event ih =>
    have before : ∀ event ∈ events, event.taken = true ∧ event.pc % geometry.tableSize = entry :=
      fun event member => steady event (List.mem_append_left _ member)
    obtain ⟨taken, place⟩ := steady event (by simp)
    rw [missed_predictions_snoc, ih before, predict_after_taken account before place, taken,
      beq_true, List.length_append, List.length_singleton]
    by_cases learned : geometry.historyBits + geometry.mode.bits ≤ events.length
    · rw [decide_eq_true learned]
      change _ + 0 = _
      omega
    · rw [decide_eq_false learned]
      change _ + 1 = _
      omega

/-- Whatever a bank has learned, branches at one entry that all go one way are mispredicted at most as
often as the history and a counter have bits. When they are taken and the bank is fresh, it is
exactly so often, or each time if there are fewer of them. -/
theorem steady_branch_warms_up :
    (∀ (geometry : Geometry) (ledger account : Ledger) (calls : List Call)
      (events : List BranchEvent) (direction : Bool) (entry : Nat),
      let bank := ((fresh geometry).called ledger calls).1
      (∀ event ∈ events, event.taken = direction ∧ event.pc % bank.geometry.tableSize = entry) →
      missed (bank.predictions account events) ≤
        bank.geometry.historyBits + bank.geometry.mode.bits) ∧
    ∀ (geometry : Geometry) (account : Ledger) (events : List BranchEvent) (entry : Nat),
      (∀ event ∈ events, event.taken = true ∧ event.pc % geometry.tableSize = entry) →
      missed ((fresh geometry).predictions account events) =
        min events.length (geometry.historyBits + geometry.mode.bits) := by
  constructor
  · intro geometry ledger account calls events direction entry bank steady
    have shaped : bank.Shaped := (shaped_fresh geometry).called ledger calls
    exact shaped.missed_steady_le account steady
  · intro geometry account events entry steady
    exact missed_taken account steady

/-- A branch that was taken and no longer is, and ten rounds of one that is always taken. -/
theorem steady_branch_warms_up_sample :
    let geometry : Geometry := .default
    let calls : List Call := List.replicate 6 (.update ⟨2, true⟩)
    let bank := ((fresh geometry).called .empty calls).1
    let never : List BranchEvent := List.replicate 7 ⟨18, false⟩
    let always : List BranchEvent := List.replicate 10 ⟨2, true⟩
    (∀ event ∈ never, event.taken = false ∧ event.pc % 16 = 2) ∧
      missed (bank.predictions .empty never) ≤ 2 + 2 ∧
      (∀ event ∈ always, event.taken = true ∧ event.pc % 16 = 2) ∧
      missed ((fresh geometry).predictions .empty always) = 4 := by
  intro geometry calls bank never always
  obtain ⟨bounded, exactly⟩ := steady_branch_warms_up
  have fallen : ∀ event ∈ never, event.taken = false ∧ event.pc % 16 = 2 := by decide
  have risen : ∀ event ∈ always, event.taken = true ∧ event.pc % 16 = 2 := by decide
  exact ⟨fallen, bounded geometry .empty .empty calls never false 2 fallen, risen,
    exactly geometry .empty always 2 risen⟩

end Bank
end BranchLab
