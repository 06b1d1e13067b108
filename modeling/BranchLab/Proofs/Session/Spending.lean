import Mathlib.Algebra.GroupWithZero.Nat
import BranchLab.Proofs.Session.Tickets

/-! What a ticket is worth. Its steps are counted by the statements that appear on the trace while it
is presented. A ticket is a value: whoever holds it may copy it, present it to be advanced and keep
what comes back, or hand it over to a paced run. Nothing is presented twice without a copy, so each
copy is worth as many steps as the ticket it was made of, and not less. -/

namespace BranchLab

def TraceEvent.isStatement : TraceEvent → Bool
  | statementExecuted _ => true
  | _ => false

def Trace.statements (trace : Trace) : Nat := trace.toList.countP TraceEvent.isStatement

theorem statements_append (trace : Trace) (events : List TraceEvent) :
    Trace.statements (trace ++ events) =
      trace.statements + events.countP TraceEvent.isStatement := by
  simp [Trace.statements]

theorem SessionStep.countP_events (step : SessionStep) :
    step.events.countP TraceEvent.isStatement = if step.outcome = .idle then 0 else 1 := by
  obtain ⟨outcome, prediction⟩ := step
  cases outcome with
  | idle => rfl
  | executed lines branch transition =>
    cases transition <;> cases branch <;> cases prediction <;> rfl

def Ticket.after (ticket : Ticket) : Except SessionError (Option SessionStep × Ticket) → Ticket
  | .ok (_, next) => next
  | .error _ => ticket

namespace Session

theorem stepTraced_trace (s : Session) (trace : Trace) :
    (∀ step, (s.stepTraced trace).answer = .ok step →
      (s.stepTraced trace).trace.statements =
        trace.statements + if step.outcome = .idle then 0 else 1) ∧
    ∀ error, (s.stepTraced trace).answer = .error error → (s.stepTraced trace).trace = trace := by
  obtain ⟨slot, bank, ledger, generation, seeds⟩ := s
  cases slot with
  | none =>
    refine ⟨?_, fun error failed => rfl⟩
    intro step answered
    cases answered
  | some stepper =>
    simp only [stepTraced]
    split
    · refine ⟨?_, fun error failed => rfl⟩
      intro step answered
      cases answered
    · split
      all_goals
        refine ⟨?_, ?_⟩
        · intro step answered
          cases answered
          rw [statements_append, SessionStep.countP_events]
        · intro error failed
          cases failed

/-- What is left of a ticket has gone down by the statements that were executed. -/
theorem statements_advanceAutoRun (s : Session) (ticket : Ticket) (trace : Trace) :
    let done := s.advanceAutoRun ticket trace
    done.trace.statements + (ticket.after done.answer).remaining ≤
      trace.statements + ticket.remaining := by
  obtain ⟨stepped, failed⟩ := s.stepTraced_trace trace
  rw [advanceAutoRun]
  split
  · exact Nat.le_refl _
  · split
    · exact Nat.le_refl _
    · rename_i unfinished
      have left : ticket.remaining ≠ 0 := by simpa [Ticket.isFinished] using unfinished
      split
      · rename_i error next events answered
        rw [answered] at failed
        have same : events = trace := failed error rfl
        exact Nat.le_of_eq (by rw [same]; rfl)
      · rename_i step next events answered
        rw [answered] at stepped
        have count : events.statements = _ := stepped step rfl
        split
        · rename_i idle
          rw [if_pos idle] at count
          simp only [Ticket.after]
          omega
        · rename_i executed
          rw [if_neg executed] at count
          simp only [Ticket.after]
          omega

theorem after_remaining_le (s : Session) (ticket : Ticket) (trace : Trace) :
    (ticket.after (s.advanceAutoRun ticket trace).answer).remaining ≤ ticket.remaining := by
  cases answered : (s.advanceAutoRun ticket trace).answer with
  | error error => exact Nat.le_refl _
  | ok found => exact (advanceAutoRun_ok answered).2.1

theorem statements_runPacedFrom (pacer : Pacer) (turns : Nat) (run : PacedRun) (s : Session)
    (ticket : Ticket) (trace : Trace) :
    (runPacedFrom pacer turns run s ticket trace).trace.statements ≤
      trace.statements + ticket.remaining := by
  induction turns generalizing run s ticket trace with
  | zero => exact Nat.le_add_right ..
  | succ turns ih =>
    have spent := statements_advanceAutoRun s ticket trace
    rw [runPacedFrom]
    split
    all_goals
      rename_i answered
      rw [answered] at spent
    · exact Nat.le_trans (Nat.le_add_right ..) spent
    · exact Nat.le_trans (Nat.le_add_right ..) spent
    · split
      · exact Nat.le_trans (Nat.le_add_right ..) spent
      · split
        · exact Nat.le_trans (Nat.le_add_right ..) spent
        · exact Nat.le_trans (ih ..) spent

def Busy (s : Session) : Prop :=
  ∃ stepper, s.stepper = some stepper ∧ stepper.program.statements ≠ []

theorem Busy.compiled {s : Session} (busy : s.Busy) : s.isCompiled = true := by
  obtain ⟨stepper, installed, -⟩ := busy
  simp [isCompiled, installed]

theorem Sound.stepTraced_busy {s : Session} (sound : s.Sound) (busy : s.Busy) (trace : Trace) :
    (s.stepTraced trace).session.Busy ∧
      ∃ step, (s.stepTraced trace).answer = .ok step ∧ step.outcome ≠ .idle := by
  obtain ⟨stepper, installed, filled⟩ := busy
  obtain ⟨outcome, answered, idle, -, program⟩ := (sound stepper installed).step
  have stepped : stepper.step = (.ok outcome, stepper.step.2) := Prod.ext answered rfl
  rw [stepTraced_of_some installed stepped]
  exact ⟨⟨_, rfl, program ▸ filled⟩, _, rfl, mt idle.mp filled⟩

theorem Sound.advanceAutoRun_busy {s : Session} (sound : s.Sound) (busy : s.Busy) {ticket : Ticket}
    (live : ticket.generation = s.generation) (unfinished : ticket.remaining ≠ 0) (trace : Trace) :
    let done := s.advanceAutoRun ticket trace
    (∃ step, done.answer = .ok (some step, { ticket with remaining := ticket.remaining - 1 })) ∧
      done.session.Busy ∧ done.trace.statements = trace.statements + 1 := by
  obtain ⟨next, step, answered, executed⟩ := sound.stepTraced_busy busy trace
  have counted := (s.stepTraced_trace trace).1 step answered
  rw [if_neg executed] at counted
  have going : ¬ticket.isFinished = true := by simpa [Ticket.isFinished] using unfinished
  rw [Session.advanceAutoRun, if_neg (not_not_intro live), if_neg going]
  split
  · rename_i failed
    rw [failed] at answered
    cases answered
  · rename_i taken
    rw [taken] at answered counted next
    cases answered
    rw [if_neg executed]
    exact ⟨⟨_, rfl⟩, next, counted⟩

/-- A paced run that nothing stops executes every step that its ticket permits. -/
theorem Sound.runPacedFrom_busy {turns : Nat} (run : PacedRun) {s : Session} (sound : s.Sound)
    (busy : s.Busy) (ticket : Ticket) (live : ticket.generation = s.generation) (trace : Trace)
    (enough : ticket.remaining < turns) :
    let done := Session.runPacedFrom .unhurried turns run s ticket trace
    done.session.Busy ∧ done.session.generation = s.generation ∧
      done.trace.statements = trace.statements + ticket.remaining := by
  induction turns generalizing run s ticket trace with
  | zero => exact absurd enough (Nat.not_lt_zero _)
  | succ turns ih =>
    by_cases finished : ticket.remaining = 0
    · have closed : ticket.isFinished = true := by simpa [Ticket.isFinished] using finished
      rw [Session.runPacedFrom, Session.advanceAutoRun, if_neg (not_not_intro live), if_pos closed]
      exact ⟨busy, rfl, by rw [finished]; rfl⟩
    · obtain ⟨⟨step, answered⟩, next, counted⟩ := sound.advanceAutoRun_busy busy live finished trace
      have continues := continues_advanceAutoRun s ticket trace
      have safe := sound.advanceAutoRun ticket trace
      rw [Session.runPacedFrom]
      split
      · rename_i failed
        rw [failed] at answered
        cases answered
      · rename_i ended
        rw [ended] at answered
        cases answered
      · rename_i found rest last events advanced
        rw [advanced] at answered next counted continues safe
        cases answered
        split
        · rename_i closed
          have last : ticket.remaining - 1 = 0 := by simpa [Ticket.isFinished] using closed
          refine ⟨next, continues.generation, counted.trans ?_⟩
          omega
        · have fewer : ticket.remaining - 1 < turns := by omega
          have onward := ih ⟨run.executed + 1, run.pauses + 1⟩ safe.sound next
            { ticket with remaining := ticket.remaining - 1 }
            (live.trans continues.generation.symm) events fewer
          refine ⟨onward.1, onward.2.1.trans continues.generation, onward.2.2.trans ?_⟩
          change events.statements + (ticket.remaining - 1) = trace.statements + ticket.remaining
          have more : events.statements = trace.statements + 1 := counted
          omega

end Session

/-- What happens while someone holds tickets of a run. They are numbered, and a copy comes first. A
ticket that is presented in what is asked apart from them belongs to another run. -/
inductive Use where
  | ask (operation : Session.Operation)
  | copy (place : Nat)
  | advance (place : Nat)
  | handOver (place : Nat) (pacer : Pacer)

def Use.isCopy : Use → Bool
  | copy _ => true
  | _ => false

structure Holder where
  session : Session
  trace : Trace
  tickets : List Ticket
  executed : Nat

namespace Holder

def receive {α : Type} (h : Holder) (done : Traced α) (tickets : List Ticket) : Holder :=
  ⟨done.session, done.trace, tickets, h.executed + (done.trace.statements - h.trace.statements)⟩

def use (h : Holder) : Use → Holder
  | .ask operation =>
    let done := h.session.perform operation h.trace
    { h with session := done.session, trace := done.trace }
  | .copy place =>
    match h.tickets[place]? with
    | none => h
    | some ticket => { h with tickets := ticket :: h.tickets }
  | .advance place =>
    match h.tickets[place]? with
    | none => h
    | some ticket =>
      let done := h.session.advanceAutoRun ticket h.trace
      h.receive done (h.tickets.set place (ticket.after done.answer))
  | .handOver place pacer =>
    match h.tickets[place]? with
    | none => h
    | some ticket =>
      h.receive (h.session.runPaced ticket pacer h.trace) (h.tickets.eraseIdx place)

def after (h : Holder) (uses : List Use) : Holder := uses.foldl use h

def left (h : Holder) : Nat := (h.tickets.map Ticket.remaining).sum

theorem sum_set {tickets : List Ticket} {place : Nat} {ticket : Ticket}
    (found : tickets[place]? = some ticket) (next : Ticket) :
    ((tickets.set place next).map Ticket.remaining).sum + ticket.remaining =
      (tickets.map Ticket.remaining).sum + next.remaining := by
  induction tickets generalizing place with
  | nil => cases found
  | cons first tickets ih =>
    cases place with
    | zero =>
      cases found
      simp only [List.set_cons_zero, List.map_cons, List.sum_cons]
      omega
    | succ place =>
      have rest := ih (by simpa using found)
      simp only [List.set_cons_succ, List.map_cons, List.sum_cons]
      omega

theorem sum_eraseIdx {tickets : List Ticket} {place : Nat} {ticket : Ticket}
    (found : tickets[place]? = some ticket) :
    ((tickets.eraseIdx place).map Ticket.remaining).sum + ticket.remaining =
      (tickets.map Ticket.remaining).sum := by
  induction tickets generalizing place with
  | nil => cases found
  | cons first tickets ih =>
    cases place with
    | zero =>
      cases found
      simp only [List.eraseIdx_cons_zero, List.map_cons, List.sum_cons]
      omega
    | succ place =>
      have rest := ih (by simpa using found)
      simp only [List.eraseIdx_cons_succ, List.map_cons, List.sum_cons]
      omega

/-- No ticket permits more than `steps`, and neither do all of them with what was executed permit
more than that for each of `copies` and for the first one. -/
structure Within (steps copies : Nat) (h : Holder) : Prop where
  each : ∀ ticket ∈ h.tickets, ticket.remaining ≤ steps
  all : h.executed + h.left ≤ steps * (copies + 1)

theorem Within.use {steps copies : Nat} {h : Holder} (within : h.Within steps copies) (u : Use) :
    (h.use u).Within steps (copies + u.isCopy.toNat) := by
  obtain ⟨each, all⟩ := within
  cases u with
  | ask operation => exact ⟨each, all⟩
  | copy place =>
    have more : steps * (copies + 1 + 1) = steps * (copies + 1) + steps := Nat.mul_succ ..
    simp only [Holder.use]
    split
    · exact ⟨each, Nat.le_trans all (by simp [Use.isCopy, more])⟩
    · rename_i ticket found
      have member := List.mem_of_getElem? found
      have worth := each ticket member
      refine ⟨?_, ?_⟩
      · intro other inside
        rcases List.mem_cons.mp inside with rfl | held
        · exact worth
        · exact each other held
      · simp only [left, List.map_cons, List.sum_cons, Use.isCopy, Bool.toNat_true] at all ⊢
        omega
  | advance place =>
    simp only [Holder.use]
    split
    · exact ⟨each, all⟩
    · rename_i ticket found
      have spent := Session.statements_advanceAutoRun h.session ticket h.trace
      have less := Session.after_remaining_le h.session ticket h.trace
      have sums := sum_set found (ticket.after (h.session.advanceAutoRun ticket h.trace).answer)
      refine ⟨?_, ?_⟩
      · intro other inside
        rcases List.mem_or_eq_of_mem_set inside with held | rfl
        · exact each other held
        · exact Nat.le_trans less (each ticket (List.mem_of_getElem? found))
      · simp only [left, receive, Use.isCopy, Bool.toNat_false, Nat.add_zero] at spent all ⊢
        omega
  | handOver place pacer =>
    simp only [Holder.use]
    split
    · exact ⟨each, all⟩
    · rename_i ticket found
      have spent := Session.statements_runPacedFrom pacer (ticket.remaining + 1) {} h.session ticket
        h.trace
      have sums := sum_eraseIdx found
      refine ⟨fun other inside => each other (List.mem_of_mem_eraseIdx inside), ?_⟩
      simp only [left, receive, Session.runPaced, Use.isCopy, Bool.toNat_false,
        Nat.add_zero] at all ⊢
      omega

theorem Within.after {steps copies : Nat} {h : Holder} (within : h.Within steps copies)
    (uses : List Use) : (h.after uses).Within steps (copies + uses.countP Use.isCopy) := by
  induction uses generalizing h copies with
  | nil => exact within
  | cons u uses ih =>
    have rest := ih (within.use u)
    have count : copies + u.isCopy.toNat + uses.countP Use.isCopy =
        copies + (u :: uses).countP Use.isCopy := by
      rw [List.countP_cons]
      cases u.isCopy
      · simp only [Bool.toNat_false, Bool.false_eq_true, if_false, Nat.add_zero]
      · simp only [Bool.toNat_true, if_true, Nat.add_assoc, Nat.add_comm 1]
    rwa [count] at rest

theorem after_copies {h : Holder} {ticket : Ticket} (rest : List Ticket)
    (held : h.tickets = ticket :: rest) (k : Nat) :
    h.after (List.replicate k (.copy 0)) =
      { h with tickets := List.replicate k ticket ++ h.tickets } := by
  induction k generalizing h rest with
  | zero => rfl
  | succ k ih =>
    have copied : h.use (.copy 0) = { h with tickets := ticket :: h.tickets } := by
      simp [use, held]
    have more := ih (h := h.use (.copy 0)) h.tickets (by rw [copied])
    rw [List.replicate_succ]
    change (h.use (.copy 0)).after (List.replicate k (.copy 0)) = _
    rw [more, copied]
    simp [List.replicate_succ', List.append_assoc]

/-- As long as the tickets are live, each one that is handed over is run to its end. -/
theorem executed_after_handOvers {h : Holder} (ticket : Ticket) (sound : h.session.Sound)
    (busy : h.session.Busy) (live : ticket.generation = h.session.generation) (n : Nat)
    (held : h.tickets = List.replicate n ticket) :
    (h.after (List.replicate n (.handOver 0 .unhurried))).executed =
      h.executed + ticket.remaining * n := by
  induction n generalizing h with
  | zero => rfl
  | succ n ih =>
    let done := h.session.runPaced ticket .unhurried h.trace
    have handed : h.use (.handOver 0 .unhurried) = h.receive done (List.replicate n ticket) := by
      simp [use, held, List.replicate_succ, done]
    obtain ⟨next, same, count⟩ := sound.runPacedFrom_busy {} busy ticket live h.trace
      (Nat.lt_succ_self ticket.remaining)
    have total : done.trace.statements = h.trace.statements + ticket.remaining := count
    have rest := ih (h := h.receive done (List.replicate n ticket))
      (sound.runPacedFrom .unhurried _ {} ticket h.trace).sound next (live.trans same.symm) rfl
    rw [List.replicate_succ]
    change ((h.use (.handOver 0 .unhurried)).after (List.replicate n _)).executed = _
    rw [handed, rest, Nat.mul_succ]
    simp only [receive]
    omega

end Holder

open Session Holder

/-- A ticket with all copies of it is worth its steps once for itself and once for each copy, and a
program that has statements can be run for as many. -/
theorem ticket_worth_its_steps_per_copy (geometry : Geometry) (seed : UInt64) (trace : Trace)
    (past : List Session.Operation) (steps : Nat) (ticket : Ticket)
    (issued : (((Session.start geometry seed).after trace past).1.beginAutoRun steps).1 =
      .ok ticket) :
    let now := (Session.start geometry seed).after trace past
    let holder : Holder := ⟨(now.1.beginAutoRun steps).2, now.2, [ticket], 0⟩
    (∀ uses, (holder.after uses).executed ≤ steps * (uses.countP Use.isCopy + 1)) ∧
    (∀ uses, uses.countP Use.isCopy = 0 → (holder.after uses).executed ≤ steps) ∧
    (now.1.Busy → ∀ copies, ∃ uses, uses.countP Use.isCopy = copies ∧
      (holder.after uses).executed = steps * (copies + 1)) := by
  intro now holder
  obtain ⟨compiled, same, begun⟩ := beginAutoRun_ok issued
  have first : holder.Within steps 0 := by
    refine ⟨?_, ?_⟩
    · intro other held
      have only := List.mem_singleton.mp held
      exact Nat.le_of_eq (by rw [only, same])
    · simp [holder, left, same]
  have bound (uses : List Use) :
      (holder.after uses).executed ≤ steps * (uses.countP Use.isCopy + 1) := by
    have all := (first.after uses).all
    rw [Nat.zero_add] at all
    exact Nat.le_trans (Nat.le_add_right _ _) all
  refine ⟨bound, ?_, ?_⟩
  · intro uses none
    have once := bound uses
    rwa [none, Nat.zero_add, Nat.mul_one] at once
  · intro busy copies
    have sound : holder.session.Sound :=
      (((sound_start geometry seed).after trace past).beginAutoRun steps).1
    have opened : holder.session = now.1.supersede := congrArg Prod.snd begun
    have ready : holder.session.Busy := by
      rw [opened]
      exact busy
    have live : ticket.generation = holder.session.generation := by
      rw [opened, same]
      rfl
    refine ⟨List.replicate copies (.copy 0) ++ List.replicate (copies + 1) (.handOver 0 .unhurried),
      by simp [List.countP_append, List.countP_replicate, Use.isCopy], ?_⟩
    have doubled := after_copies (h := holder) [] rfl copies
    have run := executed_after_handOvers (h := holder.after (List.replicate copies (.copy 0))) ticket
      (by rwa [doubled]) (by rwa [doubled]) (by rwa [doubled]) (copies + 1)
      (by rw [doubled, List.replicate_succ'])
    rw [Holder.after, List.foldl_append]
    refine run.trans ?_
    rw [doubled, same]
    exact Nat.zero_add _

/-- A copy that is handed over after the ticket itself still runs, so more is executed than was
permitted. -/
theorem ticket_outlives_its_steps :
    let origin := Session.start .default 0
    let now := origin.after Array.empty [.compile ⟨[.bind "a" (.number 1) ⟨1, 1⟩]⟩]
    let ticket : Ticket := ⟨2, 1⟩
    let holder : Holder := ⟨(now.1.beginAutoRun 1).2, now.2, [ticket], 0⟩
    (now.1.beginAutoRun 1).1 = .ok ticket ∧
      ¬(holder.after [.copy 0, .handOver 0 .unhurried, .handOver 0 .unhurried]).executed ≤ 1 := by
  intro origin now ticket holder
  exact ⟨rfl, by decide +kernel⟩

theorem ticket_worth_its_steps_per_copy_twice :
    let origin := Session.start .default 0
    let now := origin.after Array.empty [.compile ⟨[.bind "a" (.number 1) ⟨1, 1⟩]⟩]
    let holder : Holder := ⟨(now.1.beginAutoRun 3).2, now.2, [⟨2, 3⟩], 0⟩
    (now.1.beginAutoRun 3).1 = .ok ⟨2, 3⟩ ∧
      (holder.after [.advance 0, .handOver 0 .unhurried]).executed ≤ 3 ∧
      ∃ uses, uses.countP Use.isCopy = 1 ∧ (holder.after uses).executed = 6 := by
  intro origin now holder
  have issued : (now.1.beginAutoRun 3).1 = .ok ⟨2, 3⟩ := rfl
  have busy : now.1.Busy := ⟨_, rfl, by simp⟩
  obtain ⟨-, single, copied⟩ := ticket_worth_its_steps_per_copy .default 0 Array.empty _ 3 ⟨2, 3⟩
    issued
  exact ⟨issued, single _ rfl, copied busy 1⟩

end BranchLab
