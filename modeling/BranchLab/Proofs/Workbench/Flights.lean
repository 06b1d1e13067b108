import Mathlib.Data.List.Induction
import BranchLab.Proofs.Workbench.LiveRun

/-! The live run of a workbench read off its history. A run is live while nothing that was asked since
it was begun ends it, and it goes on while it has shown fewer steps than it was begun for. Numbers
of runs are told apart as long as they do not come round again. -/

namespace BranchLab
namespace Workbench

def Operation.begins : Operation → Bool
  | .beginAutoRun _ => true
  | _ => false

def Operation.begun : Operation → Except WorkbenchError Reply → Bool
  | .beginAutoRun _, .ok _ => true
  | _, _ => false

def runs (w : Workbench) (operations : List Operation) : Nat :=
  (w.record operations).countP fun entry => entry.1.begun entry.2

/-- A run in a history: what was asked before it was begun, for how many steps it was begun, and what
was asked after that. -/
structure Flight where
  past : List Operation
  steps : Nat
  since : List Operation

namespace Flight

variable (flight : Flight) (w : Workbench)

def history : List Operation := flight.past ++ .beginAutoRun flight.steps :: flight.since

def Issues (number : UInt32) : Prop :=
  ((w.after flight.past).beginAutoRun flight.steps).1 = .ok number

def opened : Workbench := w.after (flight.past ++ [.beginAutoRun flight.steps])

def answers : List (Operation × Except WorkbenchError Reply) := (flight.opened w).record flight.since

def views (number : UInt32) : Nat :=
  (flight.answers w).countP fun entry => entry.1.shows number entry.2

/-- Nothing since ended the run, there is something to execute, and the run has shown fewer steps than
it was begun for. -/
structure GoesOn (number : UInt32) : Prop where
  lasting : ∀ entry ∈ flight.answers w, entry.1.ends entry.2 = false
  busy : (w.after flight.history).session.Busy
  unspent : flight.views w number < flight.steps

def and (operation : Operation) : Flight := { flight with since := flight.since ++ [operation] }

theorem after_history : w.after flight.history = (flight.opened w).after flight.since := by
  rw [opened, ← after_append, List.append_assoc]
  rfl

theorem history_and (operation : Operation) :
    (flight.and operation).history = flight.history ++ [operation] := by
  simp [history, and]

theorem answers_and (operation : Operation) :
    (flight.and operation).answers w =
      flight.answers w ++ [(operation, ((w.after flight.history).perform operation).1)] := by
  rw [after_history]
  exact record_append _ flight.since [operation]

theorem views_and (operation : Operation) (number : UInt32) :
    (flight.and operation).views w number = flight.views w number +
      (operation.shows number ((w.after flight.history).perform operation).1).toNat := by
  rw [views, answers_and, List.countP_append, List.countP_singleton]
  cases operation.shows number ((w.after flight.history).perform operation).1 <;> rfl

end Flight

section Numbers

variable {w : Workbench}

theorem runs_append (w : Workbench) (before rest : List Operation) :
    w.runs (before ++ rest) = w.runs before + (w.after before).runs rest := by
  simp only [runs, record_append, List.countP_append]

theorem runs_le (w : Workbench) (operations : List Operation) :
    w.runs operations ≤ operations.countP Operation.begins := by
  induction operations generalizing w with
  | nil => exact Nat.le_refl 0
  | cons operation operations ih =>
    have later := ih (w.perform operation).2
    simp only [runs, record, List.countP_cons] at later ⊢
    have asked : operation.begun (w.perform operation).1 = true → operation.begins = true := by
      cases operation <;> simp [Operation.begun, Operation.begins]
    split
    · rename_i begun
      rw [if_pos (asked begun)]
      exact Nat.succ_le_succ later
    · exact Nat.le_trans later (Nat.le_add_right ..)

theorem lastNumber_perform (w : Workbench) (operation : Operation) :
    (w.perform operation).2.lastNumber =
      w.lastNumber + UInt32.ofNat (operation.begun (w.perform operation).1).toNat := by
  have same (kept : (w.perform operation).2.lastNumber = w.lastNumber)
      (quiet : operation.begun (w.perform operation).1 = false) :
      (w.perform operation).2.lastNumber =
        w.lastNumber + UInt32.ofNat (operation.begun (w.perform operation).1).toNat := by
    rw [quiet, kept]
    simp
  cases operation with
  | compile text =>
    refine same ?_ rfl
    simp only [perform, replying, compile]
    split <;> rfl
  | edit | restart | step | stop | configure | resetAccuracy => exact same rfl rfl
  | beginAutoRun steps =>
    by_cases compiled : w.session.isCompiled = true
    · rw [perform, beginAutoRun_of_compiled compiled]
      rfl
    · rw [perform, beginAutoRun_of_absent compiled]
      simp [replying, Operation.begun, Except.map]
  | autoStep number =>
    refine same ?_ rfl
    simp only [perform, replying, autoStep]
    split
    · rfl
    split
    · rfl
    split <;> rfl

theorem runs_single (w : Workbench) (operation : Operation) :
    w.runs [operation] = (operation.begun (w.perform operation).1).toNat := by
  rw [runs, record, record, List.countP_singleton]
  cases operation.begun (w.perform operation).1 <;> rfl

theorem lastNumber_after (w : Workbench) (operations : List Operation) :
    (w.after operations).lastNumber = w.lastNumber + UInt32.ofNat (w.runs operations) := by
  induction operations using List.reverseRecOn with
  | nil => simp [after, runs, record]
  | append_singleton operations operation ih =>
    have last := lastNumber_perform (w.after operations) operation
    rw [after_append, runs_append, runs_single, UInt32.ofNat_add, ← UInt32.add_assoc, ← ih]
    exact last

end Numbers

section Flights

variable {w : Workbench} {flight other : Flight} {number : UInt32}

theorem Flight.Issues.begun (issues : flight.Issues w number) :
    number = (w.after flight.past).lastNumber + 1 ∧
      ((w.after flight.past).perform (.beginAutoRun flight.steps)).1 = .ok (.begun number) ∧
      ∃ generation, (flight.opened w).live = some ⟨number, ⟨generation, flight.steps⟩⟩ := by
  have opened : flight.opened w =
      ((w.after flight.past).perform (.beginAutoRun flight.steps)).2 := after_append ..
  by_cases compiled : (w.after flight.past).session.isCompiled = true
  · have begun := beginAutoRun_of_compiled compiled flight.steps
    rw [Issues, begun] at issues
    cases issues
    rw [opened, perform, begun]
    exact ⟨rfl, rfl, _, rfl⟩
  · rw [Issues, beginAutoRun_of_absent compiled] at issues
    cases issues

theorem Flight.Issues.number_eq {seed : UInt64} (issues : flight.Issues (start seed) number) :
    number = UInt32.ofNat ((start seed).runs flight.past + 1) := by
  have zero : (start seed).lastNumber = 0 := rfl
  rw [issues.begun.1, lastNumber_after, zero, UInt32.zero_add, UInt32.ofNat_add]
  rfl

theorem Flight.Issues.runs_lt (issues : flight.Issues w number) (between : List Operation) :
    w.runs flight.past <
      w.runs (flight.past ++ .beginAutoRun flight.steps :: between) := by
  rw [runs_append]
  refine Nat.lt_add_of_pos_right (List.countP_pos_iff.mpr ⟨_, List.mem_cons_self, ?_⟩)
  rw [issues.begun.2.1]
  rfl

theorem split_cases {α : Type} {front before rest behind : List α} {a b : α}
    (same : front ++ a :: rest = before ++ b :: behind) :
    (front = before ∧ a = b ∧ rest = behind) ∨ (∃ between, before = front ++ a :: between) ∨
      ∃ between, front = before ++ b :: between := by
  rcases List.append_eq_append_iff.mp same with ⟨between, rfl, tail⟩ | ⟨between, rfl, tail⟩
  · cases between with
    | nil =>
      obtain ⟨rfl, rfl⟩ := List.cons.inj tail
      exact .inl ⟨(List.append_nil _).symm, rfl, rfl⟩
    | cons c between =>
      obtain ⟨rfl, -⟩ := List.cons.inj tail
      exact .inr (.inl ⟨between, rfl⟩)
  · cases between with
    | nil =>
      obtain ⟨rfl, rfl⟩ := List.cons.inj tail
      exact .inl ⟨List.append_nil _, rfl, rfl⟩
    | cons c between =>
      obtain ⟨rfl, -⟩ := List.cons.inj tail
      exact .inr (.inr ⟨between, rfl⟩)

theorem Flight.Issues.past_le (issues : flight.Issues w number) {operations : List Operation}
    (whole : flight.history = operations) :
    w.runs flight.past + 1 ≤ operations.countP Operation.begins := by
  have more := issues.runs_lt flight.since
  rw [show flight.past ++ .beginAutoRun flight.steps :: flight.since = operations from whole] at more
  exact Nat.le_trans more (runs_le w operations)

/-- No two runs of a history have the same number, if there are not too many. -/
theorem Flight.Issues.unique {seed : UInt64} {operations : List Operation}
    (few : operations.countP Operation.begins < 2 ^ 32)
    (issues : flight.Issues (start seed) number) (whole : flight.history = operations)
    (again : other.Issues (start seed) number) (same : other.history = operations) :
    other = flight := by
  have small (k : Nat) (fits : k < 2 ^ 32) : (UInt32.ofNat k).toNat = k := by
    rw [UInt32.toNat_ofNat', Nat.mod_eq_of_lt fits]
  have first := Nat.lt_of_le_of_lt (issues.past_le whole) few
  have second := Nat.lt_of_le_of_lt (again.past_le same) few
  have equal : (start seed).runs flight.past = (start seed).runs other.past := by
    have numbers := congrArg UInt32.toNat (issues.number_eq.symm.trans again.number_eq)
    rw [small _ first, small _ second] at numbers
    exact Nat.succ.inj numbers
  -- Of two runs of a history the later one is begun after more runs than the other.
  obtain ⟨past, steps, since⟩ := flight
  obtain ⟨earlier, least, later⟩ := other
  rcases split_cases (whole.trans same.symm) with ⟨rfl, begun, rfl⟩ | ⟨between, after⟩ | ⟨between, after⟩
  · cases begun
    rfl
  · have less := issues.runs_lt between
    rw [← after, equal] at less
    exact absurd less (Nat.lt_irrefl _)
  · have less := again.runs_lt between
    rw [← after, equal] at less
    exact absurd less (Nat.lt_irrefl _)

end Flights

section Runs

variable {w : Workbench}

/-- A live run was begun in the history, nothing since ended it, and its ticket permits what is left of
the steps that it was begun for. -/
theorem Current.exists_flight (current : w.Current) (idle : w.live = none)
    (operations : List Operation) {run : LiveRun} (live : (w.after operations).live = some run) :
    ∃ flight : Flight, flight.history = operations ∧ flight.Issues w run.number ∧
      (∀ entry ∈ flight.answers w,
        entry.1.ends entry.2 = false ∧ entry.1.unscoped entry.2 = false) ∧
      flight.views w run.number + run.ticket.remaining = flight.steps := by
  induction operations using List.reverseRecOn generalizing run with
  | nil => cases idle.symm.trans live
  | append_singleton operations operation ih =>
    rw [after_append] at live
    have arises : (w.after operations).Arises operation run := (current.after operations).arises live
    cases arises with
    | @begun steps asked issued ticket compiled superseded =>
      subst asked
      refine ⟨⟨operations, steps, []⟩, rfl, issued, by simp [Flight.answers, record], ?_⟩
      rw [ticket]
      exact Nat.zero_add steps
    | @kept before found number generation quiet verified spent continues =>
      obtain ⟨flight, rfl, issues, lasting, left⟩ := ih found
      refine ⟨flight.and operation, flight.history_and operation, ?_, ?_, ?_⟩
      · rw [number]
        exact issues
      · intro entry member
        rw [Flight.answers_and] at member
        rcases List.mem_append.mp member with inside | last
        · exact lasting entry inside
        · obtain rfl := List.mem_singleton.mp last
          exact ⟨quiet, verified⟩
      · rw [Flight.views_and, number, Nat.add_assoc, ← number, spent, number]
        exact left

theorem Current.live_of_views (current : w.Current) {flight : Flight} {number : UInt32}
    (issues : flight.Issues w number)
    (lasting : ∀ entry ∈ flight.answers w,
      entry.1.ends entry.2 = false ∧ entry.1.unscoped entry.2 = false)
    (busy : (w.after flight.history).session.Busy) (few : flight.views w number < flight.steps) :
    ∃ ticket, (w.after flight.history).live = some ⟨number, ticket⟩ ∧
      flight.views w number + ticket.remaining = flight.steps := by
  obtain ⟨past, steps, since⟩ := flight
  induction since using List.reverseRecOn with
  | nil =>
    obtain ⟨-, -, generation, live⟩ := issues.begun
    exact ⟨⟨generation, steps⟩, live, Nat.zero_add steps⟩
  | append_singleton since operation ih =>
    -- What has been shown only grows and the program stays, so the run was as lively before.
    let flight : Flight := ⟨past, steps, since⟩
    change ∀ entry ∈ (flight.and operation).answers w, _ at lasting
    change (flight.and operation).views w number < steps at few
    change (w.after (flight.and operation).history).session.Busy at busy
    change ∃ ticket, (w.after (flight.and operation).history).live = some ⟨number, ticket⟩ ∧
      (flight.and operation).views w number + ticket.remaining = steps
    rw [Flight.answers_and] at lasting
    rw [Flight.views_and] at few ⊢
    rw [Flight.history_and, after_append] at busy ⊢
    obtain ⟨quiet, verified⟩ := lasting _ (List.mem_append_right _ (List.mem_singleton_self _))
    have filled := busy_of_quiet quiet busy
    obtain ⟨ticket, live, left⟩ := ih issues
      (fun entry inside => lasting entry (List.mem_append_left _ inside)) filled
      (Nat.lt_of_le_of_lt (Nat.le_add_right ..) few)
    change flight.views w number + ticket.remaining = steps at left
    have reached := current.after flight.history
    rcases reached.spends live (by simp only; omega) filled quiet verified with
      spent | ⟨next, goesOn, spent⟩
    · simp only at spent
      omega
    · simp only at spent
      exact ⟨next, goesOn, by omega⟩

end Runs

/-- The ticket of the live run is never refused, and no step of a run fails. A number shows a step, the
one that a single step would have shown and taken, exactly if its run is the last one begun, nothing
since ended it, there is something to execute, and it has shown fewer steps than it was begun for;
but a text that fails the scope check ends the live run as well. -/
theorem live_run_is_the_latest (seed : UInt64) (operations : List Operation)
    (few : operations.countP Operation.begins < 2 ^ 32) :
    let now := (start seed).after operations
    (∀ run, now.live = some run → now.session.isCompiled = true ∧
      run.ticket.generation = now.session.generation ∧
      ∀ trace, ∃ step next, (now.session.advanceAutoRun run.ticket trace).answer = .ok (step, next)) ∧
    (∀ number, ∃ shown, (now.autoStep number).1 = .ok shown) ∧
    (∀ number report, (now.autoStep number).1 = .ok (some report) →
      now.step.1 = .ok report ∧ (now.autoStep number).2.session = now.step.2.session ∧
      ∃ flight : Flight, flight.history = operations ∧ flight.Issues (start seed) number) ∧
    ∀ (flight : Flight) number, flight.history = operations → flight.Issues (start seed) number →
      (∀ other : Flight, other.history = operations → other.Issues (start seed) number →
        other = flight) ∧
      ((∃ report, (now.autoStep number).1 = .ok (some report)) →
        flight.GoesOn (start seed) number) ∧
      ((∀ entry ∈ flight.answers (start seed), entry.1.unscoped entry.2 = false) →
        flight.GoesOn (start seed) number →
          ∃ report, (now.autoStep number).1 = .ok (some report)) := by
  intro now
  have origin := current_start seed
  have current : now.Current := origin.after operations
  have begun (number : UInt32) (shows : ∃ report, (now.autoStep number).1 = .ok (some report)) :
      ∃ flight : Flight, flight.history = operations ∧ flight.Issues (start seed) number ∧
        flight.GoesOn (start seed) number := by
    obtain ⟨busy, ticket, live, left⟩ := (current.shows_iff number).mp shows
    obtain ⟨flight, rfl, issues, lasting, spent⟩ := origin.exists_flight rfl operations live
    refine ⟨flight, rfl, issues, fun entry member => (lasting entry member).1, busy, ?_⟩
    simp only at spent
    omega
  refine ⟨fun run live => ⟨current.compiled run live, current.generation run live,
    current.advances live⟩, current.autoStep_answers, fun number report answered => ?_,
    fun flight number whole issues => ⟨fun other same again =>
      issues.unique few whole again same, fun shows => ?_, fun verified goesOn => ?_⟩⟩
  · obtain ⟨-, same, session, -⟩ := step_of_autoStep answered
    obtain ⟨flight, whole, issues, -⟩ := begun number ⟨report, answered⟩
    exact ⟨same, session, flight, whole, issues⟩
  · obtain ⟨other, same, again, goesOn⟩ := begun number shows
    rwa [← issues.unique few whole again same]
  · subst whole
    have kept : ∀ entry ∈ flight.answers (start seed),
        entry.1.ends entry.2 = false ∧ entry.1.unscoped entry.2 = false :=
      fun entry member => ⟨goesOn.lasting entry member, verified entry member⟩
    obtain ⟨ticket, live, spent⟩ := origin.live_of_views issues kept goesOn.busy goesOn.unspent
    have unspent := goesOn.unspent
    exact (current.shows_iff number).mpr ⟨goesOn.busy, ticket, live, by omega⟩

/-- A step, a malformed text and settings that are refused come between the two steps of a run. -/
theorem live_run_is_the_latest_interleaved :
    let past : List Operation := [.compile "let a = 1;\nlet b = a;", .beginAutoRun 1, .autoStep 1]
    let since : List Operation :=
      [.step, .autoStep 2, .compile "let", .configure 3 "2bit" 4, .autoStep 1, .resetAccuracy]
    let flight : Flight := ⟨past, 2, since⟩
    let now := (start 1).after flight.history
    flight.history.countP Operation.begins < 2 ^ 32 ∧ flight.Issues (start 1) 2 ∧
      (∀ entry ∈ flight.answers (start 1), entry.1.unscoped entry.2 = false) ∧
      flight.GoesOn (start 1) 2 ∧ (∃ report, (now.autoStep 2).1 = .ok (some report)) := by
  intro past since flight now
  have few : flight.history.countP Operation.begins < 2 ^ 32 := by decide
  have begun : (((start 1).after past).beginAutoRun 2).1 = .ok 2 := by decide +kernel
  have issues : flight.Issues (start 1) 2 := begun
  have quiet : (flight.answers (start 1)).all (fun entry => !entry.1.ends entry.2) = true := by decide +kernel
  have verified : (flight.answers (start 1)).all (fun entry => !entry.1.unscoped entry.2) = true := by
    decide +kernel
  have views : flight.views (start 1) 2 = 1 := by decide +kernel
  have busy : now.session.Busy := by
    let program : Program := ⟨[.bind "a" (.number 1) ⟨1, 1⟩, .bind "b" (.ident "a") ⟨2, 2⟩]⟩
    exact Session.busy_iff.mpr ⟨program, by decide +kernel, by simp [program]⟩
  simp only [List.all_eq_true, Bool.not_eq_true'] at quiet verified
  have goesOn : flight.GoesOn (start 1) 2 := ⟨quiet, busy, by rw [views]; decide⟩
  obtain ⟨-, -, -, flights⟩ := live_run_is_the_latest 1 flight.history few
  obtain ⟨-, -, shows⟩ := flights flight 2 rfl issues
  exact ⟨few, issues, verified, goesOn, shows verified goesOn⟩

end Workbench
end BranchLab
