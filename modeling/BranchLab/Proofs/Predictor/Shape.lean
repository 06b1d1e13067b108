import Mathlib.Algebra.Group.Nat.Defs
import BranchLab.Proofs.Predictor.Training

/-! The shape of a bank in use. A shape is granted only for sizes that make sense, and a bank keeps the
one it has through whatever it learns, until another one is granted. So there is always a counter at
the entry that the history and a branch select, and the register never holds more bits than there
are outcomes to select a table. -/

namespace BranchLab

def CounterMode.Holds : CounterMode → Counter → Prop
  | .oneBit, counter => ∃ taken, counter = .lastOutcome taken
  | .twoBit, counter => counter = .stronglyNotTaken ∨ counter = .weaklyNotTaken ∨
      counter = .weaklyTaken ∨ counter = .stronglyTaken

theorem CounterMode.holds_iff (mode : CounterMode) (counter : Counter) :
    mode.Holds counter ↔ counter.mode = mode := by
  cases mode <;> cases counter <;> simp [Holds, Counter.mode]

theorem CounterMode.ofText_ok (text : String) (mode : CounterMode) :
    ofText text = .ok mode ↔ String.ofList (Text.trim text.toList) = toString mode.bits := by
  have digit : toString oneBit.bits = "1" ∧ toString twoBit.bits = "2" := ⟨rfl, rfl⟩
  rw [ofText]
  generalize String.ofList (Text.trim text.toList) = word
  cases mode with
  | oneBit =>
    rw [digit.1]
    by_cases one : word = "1"
    · simp [one]
    · by_cases two : word = "2" <;> simp [one, two]
  | twoBit =>
    rw [digit.2]
    by_cases one : word = "1"
    · simp [one]
    · by_cases two : word = "2" <;> simp [one, two]

namespace Geometry

/-- What a shape is asked for with: nothing, sizes, or what a user enters. -/
inductive Request where
  | default
  | sizes (tableSize : Nat) (mode : CounterMode) (historyBits : Nat)
  | input (tableSize : Int) (mode : String) (historyBits : Int)

def Request.answer : Request → Except GeometryError Geometry
  | default => .ok .default
  | sizes tableSize mode historyBits => ofSizes tableSize mode historyBits
  | input tableSize mode historyBits => ofInput tableSize mode historyBits

/-- The sizes that are asked for make sense, and the shape has them. -/
def Request.Grants (geometry : Geometry) : Request → Prop
  | default => geometry.tableSize = 16 ∧ geometry.mode = .twoBit ∧ geometry.historyBits = 2
  | sizes tableSize mode historyBits =>
    1 ≤ tableSize ∧ historyBits ≤ 16 ∧
      geometry.tableSize = tableSize ∧ geometry.mode = mode ∧ geometry.historyBits = historyBits
  | input tableSize mode historyBits =>
    1 ≤ tableSize ∧ 0 ≤ historyBits ∧ historyBits ≤ 16 ∧
      geometry.tableSize = tableSize ∧ geometry.historyBits = historyBits ∧
      String.ofList (Text.trim mode.toList) = toString geometry.mode.bits

theorem ofSizes_ok (tableSize : Nat) (mode : CounterMode) (historyBits : Nat)
    (geometry : Geometry) :
    ofSizes tableSize mode historyBits = .ok geometry ↔
      1 ≤ tableSize ∧ historyBits ≤ 16 ∧
        geometry.tableSize = tableSize ∧ geometry.mode = mode ∧ geometry.historyBits = historyBits := by
  obtain ⟨size, kind, width, positive, narrow⟩ := geometry
  rw [ofSizes]
  split
  · rename_i filled
    split
    · rename_i fits
      have sixteen : historyBits ≤ 16 := fits
      constructor
      · intro same
        cases same
        exact ⟨filled, sixteen, rfl, rfl, rfl⟩
      · rintro ⟨-, -, rfl, rfl, rfl⟩
        rfl
    · rename_i wide
      have beyond : ¬historyBits ≤ 16 := wide
      simp [beyond]
  · rename_i empty
    have none : ¬1 ≤ tableSize := empty
    simp [none]

theorem ofInput_eq (tableSize : Int) (mode : String) (historyBits : Int) :
    ofInput tableSize mode historyBits =
      if tableSize < 0 then .error (.negativeTableSize tableSize)
      else if historyBits < 0 then .error (.negativeHistory historyBits)
      else CounterMode.ofText mode >>= fun mode =>
        if maxHistoryBits < historyBits then .error (.historyTooWide historyBits)
        else ofSizes tableSize.toNat mode historyBits.toNat := rfl

theorem ofInput_ok (tableSize : Int) (mode : String) (historyBits : Int) (geometry : Geometry) :
    ofInput tableSize mode historyBits = .ok geometry ↔
      1 ≤ tableSize ∧ 0 ≤ historyBits ∧ historyBits ≤ 16 ∧
        geometry.tableSize = tableSize ∧ geometry.historyBits = historyBits ∧
        String.ofList (Text.trim mode.toList) = toString geometry.mode.bits := by
  have sixteen : (maxHistoryBits : Int) = 16 := rfl
  rw [ofInput_eq, ← CounterMode.ofText_ok, sixteen]
  by_cases small : tableSize < 0
  · simp [small, show ¬1 ≤ tableSize by omega]
  by_cases low : historyBits < 0
  · simp [small, low, show ¬0 ≤ historyBits by omega]
  rw [if_neg small, if_neg low, bind_ok]
  constructor
  · rintro ⟨kind, read, made⟩
    split at made
    · cases made
    · obtain ⟨filled, -, size, rfl, width⟩ := (ofSizes_ok ..).mp made
      exact ⟨by omega, by omega, by omega, by omega, by omega, read⟩
  · rintro ⟨filled, -, narrow, size, width, read⟩
    refine ⟨geometry.mode, read, ?_⟩
    rw [if_neg (by omega)]
    exact (ofSizes_ok ..).mpr ⟨by omega, by omega, by omega, rfl, by omega⟩

theorem Request.answer_ok (request : Request) (geometry : Geometry) :
    request.answer = .ok geometry ↔ request.Grants geometry := by
  cases request with
  | default =>
    obtain ⟨size, mode, bits, positive, narrow⟩ := geometry
    simp [answer, Grants, Geometry.default, eq_comm]
  | sizes tableSize mode historyBits => exact ofSizes_ok ..
  | input tableSize mode historyBits => exact ofInput_ok ..

/-- Whatever is asked for, a shape that is granted has an entry and at most sixteen bits. -/
theorem Request.Grants.bounds {request : Request} {geometry : Geometry}
    (granted : request.Grants geometry) :
    1 ≤ geometry.tableSize ∧ geometry.historyBits ≤ 16 := by
  cases request with
  | default =>
    obtain ⟨size, -, bits⟩ := granted
    omega
  | sizes tableSize mode historyBits =>
    obtain ⟨filled, narrow, size, -, bits⟩ := granted
    omega
  | input tableSize mode historyBits =>
    obtain ⟨filled, -, narrow, size, bits, -⟩ := granted
    omega

theorem tableCount_eq (geometry : Geometry) : geometry.tableCount = 2 ^ geometry.historyBits :=
  Nat.one_shiftLeft _

end Geometry

namespace Bank

inductive Call where
  | update (event : BranchEvent)
  | reconfigure (request : Geometry.Request)

/-- The bank and the account after a call. A shape that is refused changes nothing. -/
def perform (bank : Bank) (ledger : Ledger) : Call → Bank × Ledger
  | .update event => (bank.predictAndUpdate event ledger).2
  | .reconfigure request =>
    match request.answer with
    | .ok geometry => (fresh geometry, ledger)
    | .error _ => (bank, ledger)

def called (bank : Bank) (ledger : Ledger) (calls : List Call) : Bank × Ledger :=
  calls.foldl (fun (bank, ledger) call => bank.perform ledger call) (bank, ledger)

/-- The shape after some calls: the last that was granted. -/
def inForce (geometry : Geometry) : List Call → Geometry
  | [] => geometry
  | .update _ :: calls => inForce geometry calls
  | .reconfigure request :: calls => inForce (request.answer.toOption.getD geometry) calls

/-- The bank has the tables and entries that its geometry speaks of, and its history and what was
touched last are among them. -/
structure Shaped (bank : Bank) : Prop where
  tables : bank.tables.size = bank.geometry.tableCount
  entries : ∀ table ∈ bank.tables, table.size = bank.geometry.tableSize
  modes : ∀ table ∈ bank.tables, ∀ counter ∈ table, counter.mode = bank.geometry.mode
  history : bank.history < bank.geometry.tableCount
  touched : ∀ place ∈ bank.lastTouched,
    place.1 < bank.geometry.tableCount ∧ place.2 < bank.geometry.tableSize

theorem entryIndex_lt (bank : Bank) (pc : Nat) : bank.entryIndex pc < bank.geometry.tableSize :=
  Nat.mod_lt pc bank.geometry.tableSize_pos

theorem shaped_fresh (geometry : Geometry) : (fresh geometry).Shaped where
  tables := Array.size_replicate
  entries table member := by
    obtain rfl := Array.eq_of_mem_replicate member
    exact Array.size_replicate
  modes table member counter inside := by
    obtain rfl := Array.eq_of_mem_replicate member
    obtain rfl := Array.eq_of_mem_replicate inside
    exact Counter.mode_initial geometry.mode
  history := geometry.tableCount_pos
  touched place member := by cases member

variable {bank : Bank}

/-- What holds of all members of an array and is kept by a function holds after it is applied at a
place. -/
theorem forall_mem_modify {α : Type} {holds : α → Prop} {xs : Array α} {f : α → α} (place : Nat)
    (all : ∀ x ∈ xs, holds x) (kept : ∀ x ∈ xs, holds (f x)) : ∀ x ∈ xs.modify place f, holds x := by
  intro x member
  obtain ⟨i, found⟩ := Array.mem_iff_getElem?.mp member
  rw [Array.getElem?_modify] at found
  split at found
  · obtain ⟨y, before, rfl⟩ := Option.map_eq_some_iff.mp found
    exact kept y (Array.mem_of_getElem? before)
  · exact all x (Array.mem_of_getElem? found)

/-- Training keeps the shape. -/
theorem Shaped.train (shaped : bank.Shaped) {entry : Nat} (inside : entry < bank.geometry.tableSize)
    (taken : Bool) : (bank.train entry taken).Shaped where
  tables := Array.size_modify.trans shaped.tables
  entries := forall_mem_modify bank.history shaped.entries fun table member =>
    Array.size_modify.trans (shaped.entries table member)
  modes := forall_mem_modify bank.history shaped.modes fun table member =>
    forall_mem_modify entry (shaped.modes table member) fun counter within =>
      (Counter.mode_observe counter taken).trans (shaped.modes table member counter within)
  history := Nat.mod_lt _ bank.geometry.tableCount_pos
  touched place member := by
    cases member
    exact ⟨shaped.history, inside⟩

theorem Shaped.perform (shaped : bank.Shaped) (ledger : Ledger) (call : Call) :
    (bank.perform ledger call).1.Shaped := by
  cases call with
  | update event => exact shaped.train (bank.entryIndex_lt event.pc) event.taken
  | reconfigure request =>
    rw [Bank.perform]
    cases request.answer with
    | ok geometry => exact shaped_fresh geometry
    | error refusal => exact shaped

theorem Shaped.called (shaped : bank.Shaped) (ledger : Ledger) (calls : List Call) :
    (bank.called ledger calls).1.Shaped := by
  induction calls generalizing bank ledger with
  | nil => exact shaped
  | cons call calls ih => exact ih (shaped.perform ledger call) _

theorem Shaped.after (shaped : bank.Shaped) (ledger : Ledger) (events : List BranchEvent) :
    (bank.after ledger events).1.Shaped := by
  induction events generalizing bank ledger with
  | nil => exact shaped
  | cons event events ih =>
    apply ih
    exact shaped.train (bank.entryIndex_lt event.pc) event.taken

theorem geometry_called (bank : Bank) (ledger : Ledger) (calls : List Call) :
    (bank.called ledger calls).1.geometry = inForce bank.geometry calls := by
  induction calls generalizing bank ledger with
  | nil => rfl
  | cons call calls ih =>
    refine (ih _ _).trans ?_
    change inForce (bank.perform ledger call).1.geometry calls = _
    cases call with
    | update event => rfl
    | reconfigure request =>
      rw [inForce, perform]
      cases request.answer <;> rfl

/-- The shape of a bank has been asked for at some time. -/
theorem exists_request {request : Geometry.Request} {geometry : Geometry}
    (answered : request.answer = .ok geometry) (calls : List Call) :
    ∃ asked : Geometry.Request, asked.answer = .ok (inForce geometry calls) := by
  induction calls generalizing request geometry with
  | nil => exact ⟨request, answered⟩
  | cons call calls ih =>
    cases call with
    | update event => exact ih answered
    | reconfigure next =>
      rw [inForce]
      cases read : next.answer with
      | ok other => exact ih read
      | error refusal => exact ih answered

/-- There is a counter at each entry of each table. -/
theorem Shaped.exists_counter (shaped : bank.Shaped) {table entry : Nat}
    (selected : table < bank.geometry.tableCount) (inside : entry < bank.geometry.tableSize) :
    ∃ counter, bank.counter? table entry = some counter := by
  rw [← shaped.tables] at selected
  have filled := shaped.entries bank.tables[table] (Array.getElem_mem selected)
  rw [← filled] at inside
  exact ⟨bank.tables[table][entry], by simp [counter?, selected, inside]⟩

/-- Every counter is of the mode of the bank, also the one that stands for a missing entry. -/
theorem Shaped.mode_counter (shaped : bank.Shaped) (table entry : Nat) :
    (bank.counter table entry).mode = bank.geometry.mode := by
  cases found : bank.counter? table entry with
  | none =>
    have read : bank.counter table entry = (bank.counter? table entry).getD _ := rfl
    rw [read, found]
    exact Counter.mode_initial bank.geometry.mode
  | some counter =>
    rw [counter_of_counter? found]
    obtain ⟨counters, selected, held⟩ := Option.bind_eq_some_iff.mp found
    exact shaped.modes counters (Array.mem_of_getElem? selected) counter
      (Array.mem_of_getElem? held)

theorem Shaped.counter_train (shaped : bank.Shaped) {trained : Nat}
    (inside : trained < bank.geometry.tableSize) (taken : Bool) (table entry : Nat) :
    (bank.train trained taken).counter table entry =
      if bank.history = table ∧ trained = entry then (bank.counter table entry).observe taken
      else bank.counter table entry := by
  have read : (bank.train trained taken).counter table entry =
      ((bank.train trained taken).counter? table entry).getD (.initial bank.geometry.mode) := rfl
  rw [read, counter?_train]
  by_cases here : bank.history = table ∧ trained = entry
  · obtain ⟨rfl, rfl⟩ := here
    obtain ⟨counter, found⟩ := shaped.exists_counter shaped.history inside
    rw [if_pos ⟨rfl, rfl⟩, if_pos ⟨rfl, rfl⟩, found, counter_of_counter? found]
    rfl
  · rw [if_neg here, if_neg here]
    rfl

/-- A new outcome comes in at the low end of the register, and the mask cuts off the oldest one. -/
theorem shift_eq_masked (geometry : Geometry) (history : Nat) (taken : Bool) :
    shift geometry history taken =
      (history <<< 1 ||| taken.toNat) &&& geometry.historyMask := by
  have low : taken.toNat < 2 ^ 1 := by cases taken <;> decide
  rw [shift, Geometry.historyMask, Geometry.tableCount_eq, Nat.and_two_pow_sub_one_eq_mod,
    ← Nat.shiftLeft_add_eq_or_of_lt low, Nat.shiftLeft_eq, Nat.mul_comm history]

theorem register_lt {geometry : Geometry} {history : Nat} (small : history < geometry.tableCount)
    (narrow : geometry.historyBits ≤ 16) (taken : Bool) :
    history <<< 1 ||| taken.toNat < 2 ^ 32 := by
  have low : taken.toNat < 2 ^ 1 := by cases taken <;> decide
  have count : geometry.tableCount ≤ 2 ^ 16 := by
    rw [Geometry.tableCount_eq]
    exact Nat.pow_le_pow_right (by decide) narrow
  rw [← Nat.shiftLeft_add_eq_or_of_lt low, Nat.shiftLeft_eq]
  omega

/-- A shape is granted for just the sizes that make sense, and whatever is asked of a bank that begins
with one, it has an entry at least in each of its 2^P tables and P is at most 16, all counters are of
the mode, and the history and what was touched last are within the tables. So there is a counter
where a branch is looked up: it makes the prediction, and it is the one that learns the outcome. The
register holds 32 bits, and none is lost before the mask is applied. -/
theorem bank_keeps_its_shape :
    (∀ (request : Geometry.Request) (geometry : Geometry),
      request.answer = .ok geometry ↔ request.Grants geometry) ∧
    ∀ (request : Geometry.Request) (geometry : Geometry), request.answer = .ok geometry →
      ∀ (ledger : Ledger) (calls : List Call),
        let bank := ((fresh geometry).called ledger calls).1
        let tableSize := bank.geometry.tableSize
        let historyBits := bank.geometry.historyBits
        bank.geometry = inForce geometry calls ∧ 1 ≤ tableSize ∧ historyBits ≤ 16 ∧
        bank.tables.size = 2 ^ historyBits ∧
        (∀ table ∈ bank.tables, table.size = tableSize ∧
          ∀ counter ∈ table, bank.geometry.mode.Holds counter) ∧
        bank.history < 2 ^ historyBits ∧
        (∀ table entry, bank.lastTouched = some (table, entry) →
          table < 2 ^ historyBits ∧ entry < tableSize) ∧
        ∀ pc, pc % tableSize < tableSize ∧
          ∃ counter, bank.counter? bank.history (pc % tableSize) = some counter ∧
            bank.predict pc = counter.predictsTaken ∧
            ∀ (taken : Bool) (account : Ledger),
              let prediction := (bank.predictAndUpdate ⟨pc, taken⟩ account).1
              let next := (bank.predictAndUpdate ⟨pc, taken⟩ account).2.1
              prediction.predicted = counter.predictsTaken ∧
              prediction.state = counter.observe taken ∧
              next.counter? bank.history (pc % tableSize) = some (counter.observe taken) ∧
              next.lastTouched = some (bank.history, pc % tableSize) ∧
              bank.history <<< 1 ||| taken.toNat < 2 ^ 32 ∧
              next.history =
                (bank.history <<< 1 ||| taken.toNat) &&& bank.geometry.historyMask := by
  refine ⟨Geometry.Request.answer_ok, fun request geometry answered ledger calls => ?_⟩
  intro bank tableSize historyBits
  have kept : bank.geometry = inForce geometry calls := geometry_called (fresh geometry) ledger calls
  obtain ⟨asked, granted⟩ := exists_request answered calls
  rw [← kept, Geometry.Request.answer_ok] at granted
  obtain ⟨filled, narrow⟩ := granted.bounds
  have shaped : bank.Shaped := (shaped_fresh geometry).called ledger calls
  have count : bank.geometry.tableCount = 2 ^ historyBits := bank.geometry.tableCount_eq
  refine ⟨kept, filled, narrow, shaped.tables.trans count, fun table member =>
    ⟨shaped.entries table member, fun counter inside =>
      (CounterMode.holds_iff ..).mpr (shaped.modes table member counter inside)⟩,
    count ▸ shaped.history, fun table entry touched => count ▸ shaped.touched (table, entry) touched,
    fun pc => ?_⟩
  have inside : bank.entryIndex pc < tableSize := bank.entryIndex_lt pc
  obtain ⟨counter, found⟩ := shaped.exists_counter shaped.history inside
  have before := counter_of_counter? found
  refine ⟨inside, counter, found, congrArg Counter.predictsTaken before, fun taken account => ?_⟩
  refine ⟨congrArg Counter.predictsTaken before, congrArg (Counter.observe · taken) before, ?_, rfl,
    register_lt shaped.history narrow taken, shift_eq_masked bank.geometry bank.history taken⟩
  refine (counter?_train bank (bank.entryIndex pc) taken bank.history (bank.entryIndex pc)).trans ?_
  rw [if_pos ⟨rfl, rfl⟩, found, Option.map_some]

/-- Sizes that are entered with blanks, a refused shape in between, and a branch at the greatest
address. -/
theorem bank_keeps_its_shape_reconfigured :
    let request : Geometry.Request := .input 3 " 1 " 2
    let geometry : Geometry := ⟨3, .oneBit, 2, by decide, by decide⟩
    let calls : List Call :=
      [.update ⟨4, true⟩, .update ⟨7, true⟩, .reconfigure (.sizes 0 .twoBit 3),
        .update ⟨2 ^ 64 - 1, true⟩]
    let bank := ((fresh geometry).called .empty calls).1
    request.answer = .ok geometry ∧ bank.history = 3 ∧ bank.geometry = geometry ∧
      bank.tables.size = 4 ∧ (∀ table ∈ bank.tables, table.size = 3) ∧
      bank.lastTouched = some (3, 0) ∧
      ∃ counter, bank.counter? 3 (2 % 3) = some counter ∧ bank.predict 2 = counter.predictsTaken := by
  intro request geometry calls bank
  have answered : request.answer = .ok geometry := by
    rw [bank_keeps_its_shape.1]
    exact ⟨by decide, by decide, by decide, rfl, rfl, by decide⟩
  obtain ⟨shape, -, -, tables, entries, -, -, reads⟩ :=
    bank_keeps_its_shape.2 request geometry answered .empty calls
  have same : bank.geometry = geometry := shape.trans (by decide)
  have history : bank.history = 3 := by decide
  obtain ⟨-, counter, found, predicted, -⟩ := reads 2
  have held : bank.counter? bank.history (2 % bank.geometry.tableSize) = some counter := found
  rw [history, same] at held
  exact ⟨answered, history, same, by decide,
    fun table member => (entries table member).1.trans (congrArg Geometry.tableSize same), by decide,
    counter, held, predicted⟩

end Bank
end BranchLab
