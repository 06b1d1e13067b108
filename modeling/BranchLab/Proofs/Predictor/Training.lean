import BranchLab.Predictor.Bank

/-! How branches train a bank. An entry learns from just the outcomes that arrive at it while its table
is selected, so it stands where a counter of its own would stand after those outcomes alone, and
each branch is predicted as that counter predicts. -/

namespace BranchLab

namespace Reference

/-- The last outcome; not taken when there is none. -/
def lastOutcome (outcomes : List Bool) : Bool := outcomes.getLast?.getD false

/-- A number from 0 to 3 that goes up with each branch taken and down with each other one. -/
def level (outcomes : List Bool) : Nat :=
  outcomes.foldl (fun n taken => if taken then min (n + 1) 3 else n - 1) 0

def counterAt : Nat → Counter
  | 0 => .stronglyNotTaken
  | 1 => .weaklyNotTaken
  | 2 => .weaklyTaken
  | _ => .stronglyTaken

def counter : CounterMode → List Bool → Counter
  | .oneBit, outcomes => .lastOutcome (lastOutcome outcomes)
  | .twoBit, outcomes => counterAt (level outcomes)

def predicts : CounterMode → List Bool → Bool
  | .oneBit, outcomes => lastOutcome outcomes
  | .twoBit, outcomes => decide (2 ≤ level outcomes)

theorem counterAt_observe {n : Nat} (small : n ≤ 3) (taken : Bool) :
    (counterAt n).observe taken = counterAt (if taken then min (n + 1) 3 else n - 1) := by
  rcases n with _ | _ | _ | _ | n
  · cases taken <;> rfl
  · cases taken <;> rfl
  · cases taken <;> rfl
  · cases taken <;> rfl
  · omega

theorem level_le (outcomes : List Bool) : level outcomes ≤ 3 := by
  rw [level]
  generalize begun : 0 = n
  have small : n ≤ 3 := by omega
  clear begun
  induction outcomes generalizing n with
  | nil => exact small
  | cons taken outcomes ih =>
    rw [List.foldl_cons]
    apply ih
    cases taken
    · exact Nat.le_trans (Nat.sub_le n 1) small
    · exact Nat.min_le_right (n + 1) 3

theorem counter_snoc (mode : CounterMode) (outcomes : List Bool) (taken : Bool) :
    counter mode (outcomes ++ [taken]) = (counter mode outcomes).observe taken := by
  cases mode with
  | oneBit => simp [counter, lastOutcome, Counter.observe]
  | twoBit =>
    rw [counter, counter, counterAt_observe (level_le outcomes)]
    simp [level, List.foldl_append]

theorem foldl_observe (mode : CounterMode) (seen outcomes : List Bool) :
    outcomes.foldl Counter.observe (counter mode seen) = counter mode (seen ++ outcomes) := by
  induction outcomes generalizing seen with
  | nil => rw [List.append_nil, List.foldl_nil]
  | cons taken outcomes ih =>
    rw [List.foldl_cons, ← counter_snoc, ih, List.append_assoc, List.singleton_append]

theorem predictsTaken_counter (mode : CounterMode) (outcomes : List Bool) :
    (counter mode outcomes).predictsTaken = predicts mode outcomes := by
  cases mode with
  | oneBit => rfl
  | twoBit =>
    have small := level_le outcomes
    rw [counter, predicts]
    generalize level outcomes = n at small
    rcases n with _ | _ | _ | _ | n
    · rfl
    · rfl
    · rfl
    · rfl
    · omega

end Reference

namespace Bank

def counter? (bank : Bank) (table entry : Nat) : Option Counter :=
  bank.tables[table]?.bind fun counters => counters[entry]?

def after (bank : Bank) (ledger : Ledger) (events : List BranchEvent) : Bank × Ledger :=
  events.foldl (fun (bank, ledger) event => (bank.predictAndUpdate event ledger).2) (bank, ledger)

def predictions (bank : Bank) (ledger : Ledger) : List BranchEvent → List Prediction
  | [] => []
  | event :: events =>
    let (prediction, bank, ledger) := bank.predictAndUpdate event ledger
    prediction :: bank.predictions ledger events

/-- The outcomes of the branches that came to an entry while its table was selected, in order. -/
def arrivals (bank : Bank) (ledger : Ledger) (table entry : Nat) : List BranchEvent → List Bool
  | [] => []
  | event :: events =>
    let (_, next, scored) := bank.predictAndUpdate event ledger
    let later := arrivals next scored table entry events
    if bank.history = table ∧ event.pc % bank.geometry.tableSize = entry then event.taken :: later
    else later

theorem after_cons (bank : Bank) (ledger : Ledger) (event : BranchEvent) (events : List BranchEvent) :
    bank.after ledger (event :: events) =
      (bank.predictAndUpdate event ledger).2.1.after (bank.predictAndUpdate event ledger).2.2 events :=
  rfl

theorem after_append (bank : Bank) (ledger : Ledger) (earlier later : List BranchEvent) :
    bank.after ledger (earlier ++ later) =
      (bank.after ledger earlier).1.after (bank.after ledger earlier).2 later :=
  List.foldl_append

theorem predictions_append (bank : Bank) (ledger : Ledger) (earlier later : List BranchEvent) :
    bank.predictions ledger (earlier ++ later) = bank.predictions ledger earlier ++
      (bank.after ledger earlier).1.predictions (bank.after ledger earlier).2 later := by
  induction earlier generalizing bank ledger with
  | nil => rfl
  | cons event earlier ih =>
    apply congrArg (_ :: ·)
    exact ih _ _

theorem length_predictions (bank : Bank) (ledger : Ledger) (events : List BranchEvent) :
    (bank.predictions ledger events).length = events.length := by
  induction events generalizing bank ledger with
  | nil => rfl
  | cons event events ih => exact congrArg (· + 1) (ih _ _)

/-- Each prediction is made by the bank as it stands after the branches before. -/
theorem getElem?_predictions (bank : Bank) (ledger : Ledger) (events : List BranchEvent) (n : Nat) :
    (bank.predictions ledger events)[n]? = events[n]?.map fun event =>
      ((bank.after ledger (events.take n)).1.predictAndUpdate event
        (bank.after ledger (events.take n)).2).1 := by
  induction events generalizing bank ledger n with
  | nil => rfl
  | cons event events ih =>
    cases n with
    | zero => rfl
    | succ n => exact ih _ _ n

theorem exists_of_mem_predictions {bank : Bank} {ledger : Ledger} {events : List BranchEvent}
    {prediction : Prediction} (member : prediction ∈ bank.predictions ledger events) :
    ∃ n event, events[n]? = some event ∧
      prediction = ((bank.after ledger (events.take n)).1.predictAndUpdate event
        (bank.after ledger (events.take n)).2).1 := by
  obtain ⟨n, found⟩ := List.mem_iff_getElem?.mp member
  rw [getElem?_predictions] at found
  obtain ⟨event, held, same⟩ := Option.map_eq_some_iff.mp found
  exact ⟨n, event, held, same.symm⟩

theorem counter?_fresh {geometry : Geometry} {table entry : Nat}
    (selected : table < geometry.tableCount) (inside : entry < geometry.tableSize) :
    (fresh geometry).counter? table entry = some (Reference.counter geometry.mode []) := by
  have initial : Reference.counter geometry.mode [] = .initial geometry.mode := by
    cases geometry.mode <;> rfl
  simp [counter?, fresh, selected, inside, initial]

/-- Training observes the outcome at one entry and leaves all others as they are. -/
theorem counter?_train (bank : Bank) (trained : Nat) (taken : Bool) (table entry : Nat) :
    (bank.train trained taken).counter? table entry =
      if bank.history = table ∧ trained = entry then (bank.counter? table entry).map (·.observe taken)
      else bank.counter? table entry := by
  have read : (bank.train trained taken).counter? table entry =
      ((bank.tables.modify bank.history (·.modify trained (·.observe taken)))[table]?).bind
        fun counters => counters[entry]? := rfl
  rw [read, Array.getElem?_modify, counter?]
  by_cases selected : bank.history = table
  · cases bank.tables[table]? with
    | none => simp
    | some counters => simp [selected, Array.getElem?_modify]
  · simp [selected]

theorem counter_of_counter? {bank : Bank} {table entry : Nat} {counter : Counter}
    (found : bank.counter? table entry = some counter) : bank.counter table entry = counter := by
  rw [Bank.counter]
  change ((bank.counter? table entry).getD _) = _
  rw [found, Option.getD_some]

theorem arrivals_cons (bank : Bank) (ledger : Ledger) (table entry : Nat) (event : BranchEvent)
    (events : List BranchEvent) :
    bank.arrivals ledger table entry (event :: events) =
      if bank.history = table ∧ bank.entryIndex event.pc = entry then
        event.taken :: (bank.predictAndUpdate event ledger).2.1.arrivals
          (bank.predictAndUpdate event ledger).2.2 table entry events
      else
        (bank.predictAndUpdate event ledger).2.1.arrivals
          (bank.predictAndUpdate event ledger).2.2 table entry events := rfl

/-- An entry after some branches has observed the outcomes that arrived at it, in order. -/
theorem counter?_after (bank : Bank) (ledger : Ledger) (events : List BranchEvent)
    (table entry : Nat) :
    (bank.after ledger events).1.counter? table entry =
      (bank.counter? table entry).map
        ((bank.arrivals ledger table entry events).foldl Counter.observe) := by
  induction events generalizing bank ledger with
  | nil => simp [after, arrivals]
  | cons event events ih =>
    have trained := counter?_train bank (bank.entryIndex event.pc) event.taken table entry
    refine (ih _ _).trans ?_
    rw [trained, arrivals_cons]
    by_cases here : bank.history = table ∧ bank.entryIndex event.pc = entry
    · rw [if_pos here, if_pos here]
      cases bank.counter? table entry <;> rfl
    · rw [if_neg here, if_neg here]
      rfl

theorem geometry_after (bank : Bank) (ledger : Ledger) (events : List BranchEvent) :
    (bank.after ledger events).1.geometry = bank.geometry := by
  induction events generalizing bank ledger with
  | nil => rfl
  | cons event events ih => exact ih _ _

theorem entryIndex_after (bank : Bank) (ledger : Ledger) (events : List BranchEvent) (pc : Nat) :
    (bank.after ledger events).1.entryIndex pc = bank.entryIndex pc := by
  rw [entryIndex, geometry_after, entryIndex]

theorem history_after_lt {bank : Bank} (small : bank.history < bank.geometry.tableCount)
    (ledger : Ledger) (events : List BranchEvent) :
    (bank.after ledger events).1.history < bank.geometry.tableCount := by
  induction events generalizing bank ledger with
  | nil => exact small
  | cons event events ih =>
    let next := (bank.predictAndUpdate event ledger).2.1
    have shifted : next.history < next.geometry.tableCount :=
      Nat.mod_lt _ bank.geometry.tableCount_pos
    exact ih shifted _

/-- Each entry of a fresh bank that has seen some branches stands where the counter does that saw the
outcomes which arrived there. -/
theorem counter?_after_fresh {geometry : Geometry} {table entry : Nat}
    (selected : table < geometry.tableCount) (inside : entry < geometry.tableSize)
    (ledger : Ledger) (events : List BranchEvent) :
    ((fresh geometry).after ledger events).1.counter? table entry =
      some (Reference.counter geometry.mode
        ((fresh geometry).arrivals ledger table entry events)) := by
  rw [counter?_after, counter?_fresh selected inside, Option.map_some, Reference.foldl_observe]
  rfl

/-- At every point of a sequence of branches that a fresh bank sees, each entry is the counter of the
outcomes that arrived there, and the next branch is predicted by the counter at its entry in the
table that the history selects, is scored, and trains that entry and no other. -/
theorem counters_follow_reference (geometry : Geometry) (ledger : Ledger)
    (events : List BranchEvent) :
    let bank := ((fresh geometry).after ledger events).1
    let trained := fun table entry => (fresh geometry).arrivals ledger table entry events
    (∀ table entry, table < geometry.tableCount → entry < geometry.tableSize →
      bank.counter? table entry = some (Reference.counter geometry.mode (trained table entry))) ∧
    ∀ (event : BranchEvent) (account : Ledger),
      let prediction := (bank.predictAndUpdate event account).1
      let next := (bank.predictAndUpdate event account).2.1
      prediction.table = bank.history ∧ prediction.table < geometry.tableCount ∧
      prediction.entry = event.pc % geometry.tableSize ∧
      prediction.predicted =
        Reference.predicts geometry.mode (trained prediction.table prediction.entry) ∧
      prediction.taken = event.taken ∧
      prediction.correct = (prediction.predicted == event.taken) ∧
      next.counter? prediction.table prediction.entry = some prediction.state ∧
      bank.predict event.pc = prediction.predicted ∧
      ∀ table entry, (table, entry) ≠ (prediction.table, prediction.entry) →
        next.counter? table entry = bank.counter? table entry := by
  intro bank trained
  have entries : ∀ table entry, table < geometry.tableCount → entry < geometry.tableSize →
      bank.counter? table entry = some (Reference.counter geometry.mode (trained table entry)) :=
    fun table entry selected inside => counter?_after_fresh selected inside ledger events
  refine ⟨entries, ?_⟩
  intro event account prediction next
  have shape : bank.geometry = geometry := geometry_after (fresh geometry) ledger events
  have selected : bank.history < geometry.tableCount :=
    history_after_lt geometry.tableCount_pos ledger events
  have place : bank.entryIndex event.pc = event.pc % geometry.tableSize := by
    rw [entryIndex, shape]
  have inside : bank.entryIndex event.pc < geometry.tableSize := by
    rw [place]
    exact Nat.mod_lt _ geometry.tableSize_pos
  have found := entries bank.history (bank.entryIndex event.pc) selected inside
  have before := counter_of_counter? found
  have others := counter?_train bank (bank.entryIndex event.pc) event.taken
  refine ⟨rfl, selected, place, ?_, rfl, rfl, ?_, rfl, ?_⟩
  · rw [← Reference.predictsTaken_counter]
    exact congrArg Counter.predictsTaken before
  · refine (others bank.history (bank.entryIndex event.pc)).trans ?_
    rw [if_pos ⟨rfl, rfl⟩, found, Option.map_some, ← before]
    rfl
  · intro table entry different
    refine (others table entry).trans (if_neg ?_)
    rintro ⟨rfl, rfl⟩
    exact different rfl

/-- Three branches share an entry in both tables of one outcome of history. -/
theorem counters_follow_reference_shared :
    let geometry : Geometry := ⟨2, .twoBit, 1, by decide, by decide⟩
    let events : List BranchEvent := [⟨1, true⟩, ⟨3, true⟩, ⟨5, false⟩, ⟨3, true⟩]
    let bank := ((fresh geometry).after .empty events).1
    let done := bank.predictAndUpdate ⟨7, true⟩ .empty
    (1 < geometry.tableCount ∧ 1 < geometry.tableSize ∧
      bank.counter? 1 1 = some (Reference.counter .twoBit [true, false])) ∧
    (0, 1) ≠ (done.1.table, done.1.entry) ∧ done.2.1.counter? 0 1 = bank.counter? 0 1 := by
  intro geometry events bank done
  obtain ⟨entries, next⟩ := counters_follow_reference geometry .empty events
  obtain ⟨-, -, -, -, -, -, -, -, others⟩ := next ⟨7, true⟩ .empty
  have arrived : (fresh geometry).arrivals .empty 1 1 events = [true, false] := by decide
  have different : (0, 1) ≠ (done.1.table, done.1.entry) := by decide
  have found : bank.counter? 1 1 = some (Reference.counter .twoBit
      ((fresh geometry).arrivals .empty 1 1 events)) := entries 1 1 (by decide) (by decide)
  rw [arrived] at found
  exact ⟨⟨by decide, by decide, found⟩, different, others 0 1 different⟩

end Bank
end BranchLab
