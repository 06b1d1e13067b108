import Mathlib.Data.List.Sort
import BranchLab.Proofs.Predictor.Account
import BranchLab.Proofs.Predictor.Shape

/-! Banks without a history. There is one table, and a branch reads and trains just its own entry of it.
Each branch is therefore predicted as if only the branches at its entry had come, and two orders
of branches that keep those at each entry in order leave the same counters and the same account. -/

namespace BranchLab

namespace Ledger

/-- The order of the records does not show in an account. -/
theorem Counts.eq_of_perm {one other : Ledger} {records moved : List (Nat × Bool)}
    (counts : one.Counts records) (also : other.Counts moved) (perm : records.Perm moved) :
    one = other := by
  have resolvedPerm : (resolved records).Perm (resolved moved) := perm.map Prod.fst
  have hitsPerm : (hits records).Perm (hits moved) := (perm.filter Prod.snd).map Prod.fst
  have overall : one.overall = other.overall := by
    rw [counts.overall, also.overall, resolvedPerm.length_eq, hitsPerm.length_eq]
  have site (pc : Nat) : one.site pc = other.site pc := by
    rw [counts.site, also.site, resolvedPerm.count_eq, hitsPerm.count_eq]
  have keys : one.sites.keys = other.sites.keys := by
    apply counts.ascending.eq_of_mem_iff also.ascending
    intro pc
    rw [counts.keys, also.keys, resolvedPerm.mem_iff]
  have entries : one.sites.entries = other.sites.entries := by
    rw [counts.entries, also.entries, keys]
    exact List.map_congr_left fun pc _ => Prod.ext rfl (site pc)
  obtain ⟨total, ⟨listed⟩⟩ := one
  obtain ⟨totalOther, ⟨listedOther⟩⟩ := other
  cases overall
  cases entries
  rfl

end Ledger

namespace Bank

variable {bank one other : Bank} {entry : Nat}

theorem Shaped.history_eq_zero (shaped : bank.Shaped) (flat : bank.geometry.historyBits = 0) :
    bank.history = 0 := by
  have small := shaped.history
  rw [Geometry.tableCount_eq, flat] at small
  exact Nat.lt_one_iff.mp small

theorem counter_eq_getElem (bank : Bank) {table : Nat} (selected : table < bank.tables.size)
    (inside : entry < bank.tables[table].size) :
    bank.counter table entry = bank.tables[table][entry] := by
  apply counter_of_counter?
  simp [counter?, selected, inside]

/-- The counters are all that there is in the tables. -/
theorem Shaped.tables_ext (shaped : one.Shaped) (also : other.Shaped)
    (shape : one.geometry = other.geometry)
    (counters : ∀ table < one.geometry.tableCount, ∀ entry < one.geometry.tableSize,
      one.counter table entry = other.counter table entry) : one.tables = other.tables := by
  have size : one.tables.size = other.tables.size := by rw [shaped.tables, also.tables, shape]
  apply Array.ext size
  intro table left right
  have width := shaped.entries _ (Array.getElem_mem left)
  have widthOther := also.entries _ (Array.getElem_mem right)
  apply Array.ext
  · rw [width, widthOther, shape]
  intro entry leftEntry rightEntry
  rw [← one.counter_eq_getElem left leftEntry, ← other.counter_eq_getElem right rightEntry]
  exact counters table (shaped.tables ▸ left) entry (width ▸ leftEntry)

/-- Two banks of one table that are the same as far as one entry is concerned. -/
structure AgreeAt (entry : Nat) (one other : Bank) : Prop where
  shaped : one.Shaped
  shapedOther : other.Shaped
  shape : one.geometry = other.geometry
  flat : one.geometry.historyBits = 0
  counter : one.counter 0 entry = other.counter 0 entry

/-- What is learned at another entry makes no difference. -/
theorem AgreeAt.elsewhere (agree : AgreeAt entry one other) (event : BranchEvent) (ledger : Ledger)
    (away : event.pc % one.geometry.tableSize ≠ entry) :
    AgreeAt entry (one.predictAndUpdate event ledger).2.1 other where
  shaped := agree.shaped.train (one.entryIndex_lt event.pc) event.taken
  shapedOther := agree.shapedOther
  shape := agree.shape
  flat := agree.flat
  counter := by
    apply Eq.trans _ agree.counter
    refine (agree.shaped.counter_train (one.entryIndex_lt event.pc) event.taken 0 entry).trans ?_
    exact if_neg fun both => away both.2

theorem AgreeAt.here (agree : AgreeAt entry one other) (event : BranchEvent)
    (ledger account : Ledger) (come : event.pc % one.geometry.tableSize = entry) :
    (one.predictAndUpdate event ledger).1 = (other.predictAndUpdate event account).1 ∧
      AgreeAt entry (one.predictAndUpdate event ledger).2.1
        (other.predictAndUpdate event account).2.1 := by
  have history := agree.shaped.history_eq_zero agree.flat
  have historyOther := agree.shapedOther.history_eq_zero (agree.shape ▸ agree.flat)
  have place : one.entryIndex event.pc = entry := come
  have placeOther : other.entryIndex event.pc = entry := by rw [entryIndex, ← agree.shape, come]
  have before : one.counter one.history (one.entryIndex event.pc) =
      other.counter other.history (other.entryIndex event.pc) := by
    rw [history, historyOther, place, placeOther, agree.counter]
  refine ⟨?_, ?_⟩
  · simp only [predictAndUpdate]
    rw [before, place, placeOther, history, historyOther]
  · refine ⟨agree.shaped.train (one.entryIndex_lt event.pc) event.taken,
      agree.shapedOther.train (other.entryIndex_lt event.pc) event.taken, agree.shape, agree.flat, ?_⟩
    have learned := agree.shaped.counter_train (one.entryIndex_lt event.pc) event.taken 0 entry
    have learnedOther :=
      agree.shapedOther.counter_train (other.entryIndex_lt event.pc) event.taken 0 entry
    rw [if_pos ⟨history, place⟩] at learned
    rw [if_pos ⟨historyOther, placeOther⟩] at learnedOther
    exact learned.trans ((congrArg (·.observe event.taken) agree.counter).trans learnedOther.symm)

def answered (bank : Bank) (ledger : Ledger) (events : List BranchEvent) :
    List (BranchEvent × Prediction) := events.zip (bank.predictions ledger events)

theorem answered_cons (bank : Bank) (ledger : Ledger) (event : BranchEvent)
    (events : List BranchEvent) :
    bank.answered ledger (event :: events) = (event, (bank.predictAndUpdate event ledger).1) ::
      (bank.predictAndUpdate event ledger).2.1.answered (bank.predictAndUpdate event ledger).2.2
        events := rfl

/-- The branches at an entry are predicted, and its counter is trained, as if no others had come. -/
theorem AgreeAt.alone (agree : AgreeAt entry one other) (ledger account : Ledger)
    (events : List BranchEvent) :
    let coming := events.filter (·.pc % one.geometry.tableSize = entry)
    (one.answered ledger events).filter (·.1.pc % one.geometry.tableSize = entry) =
        other.answered account coming ∧
      AgreeAt entry (one.after ledger events).1 (other.after account coming).1 := by
  induction events generalizing one other ledger account with
  | nil => exact ⟨rfl, agree⟩
  | cons event events ih =>
    intro coming
    let next := (one.predictAndUpdate event ledger).2
    -- A branch at the entry comes to both banks, and any other branch to the first one only.
    by_cases come : event.pc % one.geometry.tableSize = entry
    · obtain ⟨same, kept⟩ := agree.here event ledger account come
      obtain ⟨rest, later⟩ := ih kept next.2 (other.predictAndUpdate event account).2.2
      have first : coming =
          event :: events.filter (·.pc % one.geometry.tableSize = entry) :=
        List.filter_cons_of_pos (by simpa using come)
      rw [first, answered_cons, answered_cons, List.filter_cons_of_pos (by simpa using come), same]
      exact ⟨congrArg (_ :: ·) rest, later⟩
    · obtain ⟨rest, later⟩ := ih (agree.elsewhere event ledger come) next.2 account
      have skipped : coming = events.filter (·.pc % one.geometry.tableSize = entry) :=
        List.filter_cons_of_neg (by simpa using come)
      rw [skipped, answered_cons, List.filter_cons_of_neg (by simpa using come)]
      exact ⟨rest, later⟩

theorem agreeAt_fresh {geometry : Geometry} (flat : geometry.historyBits = 0) (entry : Nat) :
    AgreeAt entry (fresh geometry) (fresh geometry) :=
  ⟨shaped_fresh geometry, shaped_fresh geometry, rfl, flat, rfl⟩

/-- Lists with the same members in the same order at each remainder differ in order only. -/
theorem perm_of_filters {α : Type} [DecidableEq α] (key : α → Nat) {size : Nat} (positive : 0 < size)
    {xs ys : List α}
    (same : ∀ entry < size, xs.filter (key · % size = entry) = ys.filter (key · % size = entry)) :
    xs.Perm ys := by
  apply List.perm_iff_count.mpr
  intro x
  have counted (l : List α) : l.count x = (l.filter (key · % size = key x % size)).count x :=
    (List.count_filter (by simp)).symm
  rw [counted xs, counted ys, same (key x % size) (Nat.mod_lt _ positive)]

theorem scored_eq_map (bank : Bank) (ledger : Ledger) (events : List BranchEvent) :
    bank.scored ledger events =
      (bank.answered ledger events).map fun pair => (pair.1.pc, pair.2.correct) := by
  rw [scored, answered, List.zip, List.map_zipWith]

/-- With no history, branches at different entries can come in any order. If two orders have the
same branches in the same order at each entry, a fresh bank ends with the same tables and the same
history, an empty account ends the same, and the branches at each entry are given the same
predictions, one by one. -/
theorem branches_at_different_entries_commute (geometry : Geometry)
    (flat : geometry.historyBits = 0) (events moved : List BranchEvent)
    (same : ∀ entry < geometry.tableSize, events.filter (·.pc % geometry.tableSize = entry) =
      moved.filter (·.pc % geometry.tableSize = entry)) :
    let bank := fresh geometry
    let now := bank.after .empty events
    let also := bank.after .empty moved
    now.1.tables = also.1.tables ∧ now.1.history = also.1.history ∧ now.2 = also.2 ∧
      ∀ entry < geometry.tableSize,
        (events.zip (bank.predictions .empty events)).filter
            (·.1.pc % geometry.tableSize = entry) =
          (moved.zip (bank.predictions .empty moved)).filter
            (·.1.pc % geometry.tableSize = entry) := by
  intro bank now also
  have alone := fun entry => (agreeAt_fresh flat entry).alone .empty .empty
  have shape : now.1.geometry = geometry := geometry_after bank .empty events
  have shapeAlso : also.1.geometry = geometry := geometry_after bank .empty moved
  have shaped : now.1.Shaped := (shaped_fresh geometry).after .empty events
  have shapedAlso : also.1.Shaped := (shaped_fresh geometry).after .empty moved
  have said : ∀ entry < geometry.tableSize,
      (bank.answered .empty events).filter (·.1.pc % geometry.tableSize = entry) =
        (bank.answered .empty moved).filter (·.1.pc % geometry.tableSize = entry) := by
    intro entry inside
    refine (alone entry events).1.trans (Eq.trans ?_ (alone entry moved).1.symm)
    exact congrArg (bank.answered .empty) (same entry inside)
  have counters : ∀ entry < geometry.tableSize, now.1.counter 0 entry = also.1.counter 0 entry := by
    intro entry inside
    refine (alone entry events).2.counter.trans (Eq.trans ?_ (alone entry moved).2.counter.symm)
    exact congrArg (fun coming => (bank.after .empty coming).1.counter 0 entry) (same entry inside)
  refine ⟨?_, ?_, ?_, said⟩
  · apply shaped.tables_ext shapedAlso (shape.trans shapeAlso.symm)
    rw [shape]
    intro table selected entry inside
    have only : table = 0 := by
      rw [Geometry.tableCount_eq, flat] at selected
      exact Nat.lt_one_iff.mp selected
    rw [only]
    exact counters entry inside
  · rw [shaped.history_eq_zero (shape ▸ flat), shapedAlso.history_eq_zero (shapeAlso ▸ flat)]
  · have perm := perm_of_filters (fun pair : BranchEvent × Prediction => pair.1.pc)
      geometry.tableSize_pos said
    have counts := bank.counts_scored events Ledger.counts_empty
    have countsAlso := bank.counts_scored moved Ledger.counts_empty
    apply counts.eq_of_perm countsAlso
    rw [List.nil_append, List.nil_append, scored_eq_map, scored_eq_map]
    exact perm.map _

/-- Two branches share an entry; between them come branches at another one, which may also come after
them or before. -/
theorem branches_at_different_entries_commute_shared :
    let geometry : Geometry := ⟨4, .twoBit, 0, by decide, by decide⟩
    let events : List BranchEvent := [⟨2, true⟩, ⟨3, true⟩, ⟨6, true⟩, ⟨3, false⟩, ⟨2, false⟩]
    let moved : List BranchEvent := [⟨3, true⟩, ⟨2, true⟩, ⟨6, true⟩, ⟨2, false⟩, ⟨3, false⟩]
    let bank := fresh geometry
    geometry.historyBits = 0 ∧
      (∀ entry < 4, events.filter (·.pc % 4 = entry) = moved.filter (·.pc % 4 = entry)) ∧
      (bank.after .empty events).1.tables = (bank.after .empty moved).1.tables ∧
      (bank.after .empty events).2 = (bank.after .empty moved).2 ∧
      (events.zip (bank.predictions .empty events)).filter (·.1.pc % 4 = 2) =
        (moved.zip (bank.predictions .empty moved)).filter (·.1.pc % 4 = 2) := by
  intro geometry events moved bank
  have same : ∀ entry < 4, events.filter (·.pc % 4 = entry) = moved.filter (·.pc % 4 = entry) := by
    decide
  obtain ⟨tables, -, account, said⟩ :=
    branches_at_different_entries_commute geometry rfl events moved same
  exact ⟨rfl, same, tables, account, said 2 (by decide)⟩

end Bank
end BranchLab
