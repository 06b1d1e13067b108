import BranchLab.Proofs.Workbench.Operations

/-! The live run of a workbench. Its ticket is of the generation of the session, which holds a program,
so the session never refuses it. What an operation does to a live run is stated once; all that
holds of a history follows by induction from its last operation. -/

namespace BranchLab

namespace Session

variable (s : Session) (trace : Trace)

theorem stepTraced_program :
    (s.stepTraced trace).session.stepper.map Stepper.program = s.stepper.map Stepper.program := by
  obtain ⟨slot, bank, ledger, generation, seeds⟩ := s
  cases slot with
  | none => rfl
  | some stepper =>
    have same := stepper.step_program
    simp only [stepTraced]
    split
    · rename_i error next failed
      rw [failed] at same
      exact congrArg some same
    · rename_i outcome next stepped
      rw [stepped] at same
      split <;> exact congrArg some same

theorem advanceAutoRun_some {ticket next : Ticket} {step : SessionStep}
    (advanced : (s.advanceAutoRun ticket trace).answer = .ok (some step, next)) :
    (s.stepTraced trace).answer = .ok step ∧ step.outcome ≠ .idle ∧
      (s.advanceAutoRun ticket trace).session = (s.stepTraced trace).session := by
  rw [advanceAutoRun] at advanced ⊢
  split at advanced
  · cases advanced
  split at advanced
  · cases advanced
  rename_i live unfinished
  rw [if_neg live, if_neg unfinished]
  split at advanced
  · cases advanced
  · rename_i taken
    split at advanced
    · cases advanced
    · rename_i executed
      cases advanced
      rw [taken]
      simp only [if_neg executed]
      exact ⟨trivial, executed, trivial⟩

theorem advanceAutoRun_program (ticket : Ticket) :
    (s.advanceAutoRun ticket trace).session.stepper.map Stepper.program =
      s.stepper.map Stepper.program := by
  have stepped := s.stepTraced_program trace
  rw [advanceAutoRun]
  split
  · rfl
  split
  · rfl
  split
  · rename_i failed
    rwa [failed] at stepped
  · rename_i taken
    rw [taken] at stepped
    split <;> exact stepped

variable {s}

theorem busy_iff : s.Busy ↔
    ∃ program, s.stepper.map Stepper.program = some program ∧ program.statements ≠ [] := by
  simp [Busy]

theorem Sound.busy_of_executed (sound : s.Sound) {step : SessionStep}
    (answered : (s.stepTraced trace).answer = .ok step) (executed : step.outcome ≠ .idle) :
    s.Busy := by
  cases installed : s.stepper with
  | none =>
    rw [stepTraced_of_none installed] at answered
    cases answered
  | some stepper =>
    cases sound.single installed trace with
    | rests empty taken =>
      rw [taken] at answered
      cases answered
      exact absurd rfl executed
    | executes filled => exact ⟨stepper, installed, filled⟩

end Session

namespace Workbench

/-- The operation ends the run that was live before it, as the user means it to. -/
def Operation.ends : Operation → Except WorkbenchError Reply → Bool
  | .compile _, .ok _ | .restart, .ok _ | .beginAutoRun _, .ok _ => true
  | .edit, _ | .stop, _ => true
  | _, _ => false

def Operation.unscoped : Operation → Except WorkbenchError Reply → Bool
  | .compile _, .error (.session _) => true
  | _, _ => false

def Operation.shows (number : UInt32) : Operation → Except WorkbenchError Reply → Bool
  | .autoStep asked, .ok (.shown (some _)) => asked = number
  | _, _ => false

/-- The live run, if there is one, has a ticket of the present generation, and there is a program. -/
structure Current (w : Workbench) : Prop where
  sound : w.session.Sound
  compiled : ∀ run, w.live = some run → w.session.isCompiled = true
  generation : ∀ run, w.live = some run → run.ticket.generation = w.session.generation

/-- Where a live run comes from: it has been begun, or it was live before and has lost what it has
shown. -/
inductive Arises (w : Workbench) (operation : Operation) (run : LiveRun) : Prop
  | begun {steps : Nat} (asked : operation = .beginAutoRun steps)
      (issued : (w.beginAutoRun steps).1 = .ok run.number)
      (ticket : run.ticket = ⟨w.session.generation + 1, steps⟩)
      (compiled : w.session.isCompiled = true)
      (superseded : (w.perform operation).2.session = w.session.supersede)
  | kept {before : LiveRun} (live : w.live = some before) (number : run.number = before.number)
      (generation : run.ticket.generation = before.ticket.generation)
      (quiet : operation.ends (w.perform operation).1 = false)
      (verified : operation.unscoped (w.perform operation).1 = false)
      (spent : (operation.shows run.number (w.perform operation).1).toNat + run.ticket.remaining =
        before.ticket.remaining)
      (continues : w.session.Continues (w.perform operation).2.session)

section Steps

variable {w : Workbench} {run : LiveRun}

/-- The session never refuses the ticket of the live run. -/
theorem Current.advances (current : w.Current) (live : w.live = some run) (trace : Trace) :
    ∃ step next, (w.session.advanceAutoRun run.ticket trace).answer = .ok (step, next) :=
  current.sound.advanceAutoRun_answers trace (current.compiled run live)
    (current.generation run live)

theorem autoStep_of_answered {step : Option SessionStep} {next : Ticket} (live : w.live = some run)
    (answered : (w.session.advanceAutoRun run.ticket Array.empty).answer = .ok (step, next)) :
    let session := (w.session.advanceAutoRun run.ticket Array.empty).session
    w.autoStep run.number = (.ok (step.map (report session)), { w with
      session
      live := if step.isNone ∨ next.isFinished then none else some { run with ticket := next } }) := by
  simp only [autoStep, live, ne_eq, not_true_eq_false, if_false]
  cases advanced : w.session.advanceAutoRun run.ticket Array.empty with
  | mk answer session seen =>
    rw [advanced] at answered
    subst answered
    cases step <;> simp

/-- What the live run shows is what a single step would have shown. -/
theorem step_of_autoStep {number : UInt32} {shown : StepReport}
    (answered : (w.autoStep number).1 = .ok (some shown)) :
    (∃ run, w.live = some run ∧ run.number = number) ∧ w.step.1 = .ok shown ∧
      (w.autoStep number).2.session = w.step.2.session ∧
      ∃ step, (w.session.stepTraced Array.empty).answer = .ok step ∧ step.outcome ≠ .idle := by
  rcases w.live_or_silent number with ⟨run, live, rfl⟩ | ⟨other, silent⟩
  · rw [session_autoStep_of_live live]
    simp only [autoStep, live, ne_eq, not_true_eq_false, if_false] at answered
    split at answered
    · rename_i step next session seen advanced
      obtain ⟨taken, executed, same⟩ :=
        Session.advanceAutoRun_some _ _ (congrArg Traced.answer advanced)
      have moved : session = (w.session.stepTraced Array.empty).session := by
        rw [← same, advanced]
      cases answered
      refine ⟨⟨run, live, rfl⟩, ?_, same, step, taken, executed⟩
      simp only [Workbench.step, Session.step, settle, taken, moved]
      rfl
    · cases answered
    · cases answered
    · cases answered
  · rw [silent] at answered
    cases answered

theorem Current.autoStep_answers (current : w.Current) (number : UInt32) :
    ∃ shown, (w.autoStep number).1 = .ok shown := by
  rcases w.live_or_silent number with ⟨run, live, rfl⟩ | ⟨other, silent⟩
  · obtain ⟨step, next, answered⟩ := current.advances live Array.empty
    rw [autoStep_of_answered live answered]
    exact ⟨_, rfl⟩
  · rw [silent]
    exact ⟨none, rfl⟩

/-- A step is shown exactly for the number of a live run with steps left, if there is one to execute. -/
theorem Current.shows_iff (current : w.Current) (number : UInt32) :
    (∃ report, (w.autoStep number).1 = .ok (some report)) ↔
      w.session.Busy ∧ ∃ ticket, w.live = some ⟨number, ticket⟩ ∧ ticket.remaining ≠ 0 := by
  constructor
  · rintro ⟨report, answered⟩
    obtain ⟨⟨run, live, rfl⟩, -, -, step, taken, executed⟩ := step_of_autoStep answered
    refine ⟨current.sound.busy_of_executed _ taken executed, run.ticket, live, fun finished => ?_⟩
    have ended := Session.advanceAutoRun_of_finished Array.empty (current.generation run live) finished
    rw [autoStep_of_answered live (congrArg Traced.answer ended)] at answered
    cases answered
  · rintro ⟨busy, ticket, live, left⟩
    obtain ⟨⟨step, answered⟩, -⟩ := current.sound.advanceAutoRun_busy busy
      (current.generation _ live) left Array.empty
    have shown := autoStep_of_answered live answered
    exact ⟨_, congrArg Prod.fst shown⟩

theorem Current.silent_iff (current : w.Current) (number : UInt32) :
    (w.autoStep number).1 = .ok none ↔ ¬w.session.Busy ∨
      ∀ ticket, w.live = some ⟨number, ticket⟩ → ticket.remaining = 0 := by
  have shows := current.shows_iff number
  obtain ⟨shown, answered⟩ := current.autoStep_answers number
  rw [answered] at shows ⊢
  cases shown with
  | none =>
    refine iff_of_true rfl (Classical.or_iff_not_imp_left.mpr fun busy ticket live => ?_)
    by_contra left
    obtain ⟨report, same⟩ := shows.mpr ⟨not_not.mp busy, ticket, live, left⟩
    cases same
  | some report =>
    obtain ⟨busy, ticket, live, left⟩ := shows.mp ⟨report, rfl⟩
    refine iff_of_false (by simp) ?_
    rintro (rests | spent)
    · exact rests busy
    · exact left (spent ticket live)

theorem Arises.of_same {operation : Operation} {answer : Except WorkbenchError Reply}
    (live : (w.perform operation).2.live = some run) (performed : w.perform operation = (answer, w))
    (quiet : operation.ends answer = false) (verified : operation.unscoped answer = false)
    (silent : operation.shows run.number answer = false) : w.Arises operation run := by
  rw [performed] at live
  refine .kept live rfl rfl ?_ ?_ ?_ ?_ <;> rw [performed]
  · exact quiet
  · exact verified
  · rw [silent]
    exact Nat.zero_add _
  · exact .refl _

theorem Current.arises_autoStep {before : LiveRun} (current : w.Current)
    (found : w.live = some before)
    (live : (w.perform (.autoStep before.number)).2.live = some run) :
    w.Arises (.autoStep before.number) run := by
  obtain ⟨step, next, answered⟩ := current.advances found Array.empty
  have continues := Session.continues_advanceAutoRun w.session before.ticket Array.empty
  obtain ⟨generation, -, spent⟩ := Session.advanceAutoRun_ok answered
  have performed : w.perform (.autoStep before.number) = replying .shown _ :=
    congrArg (replying Reply.shown) (autoStep_of_answered found answered)
  rw [performed] at live
  dsimp only [replying] at live
  -- Only a step that does not finish the ticket leaves the run live.
  split at live
  · cases live
  rename_i goesOn
  cases live
  cases step with
  | none => exact absurd (.inl rfl) goesOn
  | some step =>
    refine .kept found rfl generation ?_ ?_ ?_ ?_ <;> rw [performed]
    · rfl
    · rfl
    · simp only [replying, Operation.shows, Except.map, Option.map_some, decide_true, Bool.toNat_true]
      exact (Nat.add_comm ..).trans (spent (by simp))
    · exact continues

theorem Current.arises (current : w.Current) {operation : Operation}
    (live : (w.perform operation).2.live = some run) : w.Arises operation run := by
  cases operation with
  | compile text =>
    rcases w.compile_cases text with ⟨error, -, same⟩ | ⟨program, error, -, -, same⟩ | ⟨next, same, idle⟩
    · exact .of_same live (congrArg (replying fun _ => .done) same) rfl rfl rfl
    · rw [perform, same] at live
      cases live
    · rw [perform, same] at live
      cases idle.symm.trans live
  | edit | restart | stop => cases live
  | step =>
    exact .kept live rfl rfl rfl rfl (Nat.zero_add _) (Session.continues_stepTraced w.session _)
  | configure tableSize mode historyBits =>
    refine .kept live rfl rfl rfl rfl (Nat.zero_add _) ?_
    simp only [perform, replying, configure, settle, Session.configure]
    split
    · exact ⟨rfl, rfl⟩
    · exact .refl _
  | resetAccuracy => exact .kept live rfl rfl rfl rfl (Nat.zero_add _) ⟨rfl, rfl⟩
  | beginAutoRun steps =>
    by_cases compiled : w.session.isCompiled = true
    · have begun := beginAutoRun_of_compiled compiled steps
      rw [perform, begun] at live
      cases live
      refine .begun rfl (by rw [begun]) rfl compiled ?_
      rw [perform, begun]
      rfl
    · have same := beginAutoRun_of_absent compiled steps
      exact .of_same live (congrArg (replying .begun) same) rfl rfl rfl
  | autoStep number =>
    rcases w.live_or_silent number with ⟨before, found, rfl⟩ | ⟨other, same⟩
    · exact current.arises_autoStep found live
    · exact .of_same live (congrArg (replying .shown) same) rfl rfl rfl

theorem Current.perform (current : w.Current) (operation : Operation) :
    (w.perform operation).2.Current := by
  refine ⟨?_, fun run live => ?_, fun run live => ?_⟩
  · rw [session_perform]
    cases w.asks operation with
    | none => exact current.sound
    | some asked => exact (current.sound.perform asked Array.empty).sound
  · cases current.arises live with
    | begun asked issued ticket compiled superseded =>
      rw [superseded]
      exact compiled
    | kept found number generation quiet verified spent continues =>
      exact continues.compiled.trans (current.compiled _ found)
  · cases current.arises live with
    | begun asked issued ticket compiled superseded =>
      rw [superseded, ticket]
      rfl
    | kept found number generation quiet verified spent continues =>
      rw [generation, continues.generation]
      exact current.generation _ found

theorem Current.after (current : w.Current) (operations : List Operation) :
    (w.after operations).Current := by
  induction operations generalizing w with
  | nil => exact current
  | cons operation operations ih => exact ih (current.perform operation)

theorem current_start (seed : UInt64) : (start seed).Current :=
  ⟨Session.sound_start .default seed, by simp [start], by simp [start]⟩

/-- An operation that does not end the live run leaves the program as it is. -/
theorem busy_of_quiet {operation : Operation}
    (quiet : operation.ends (w.perform operation).1 = false)
    (busy : (w.perform operation).2.session.Busy) : w.session.Busy := by
  have kept (same : (w.perform operation).2.session.stepper.map Stepper.program =
      w.session.stepper.map Stepper.program) : w.session.Busy := by
    rw [Session.busy_iff] at busy ⊢
    rwa [same] at busy
  cases operation with
  | compile text =>
    rcases w.compile_cases text with ⟨error, -, same⟩ | ⟨program, error, -, -, same⟩ | ⟨next, same, -⟩
    · rwa [Workbench.perform, same] at busy
    · rw [Workbench.perform, same] at busy
      exact busy
    · rw [Workbench.perform, same] at quiet
      cases quiet
  | edit | stop => cases quiet
  | restart =>
    rcases w.session.none_or_compiled with absent | compiled
    · rw [Workbench.perform, restart_of_absent absent] at busy
      exact busy
    · obtain ⟨next, same, -⟩ := restart_of_compiled compiled
      rw [Workbench.perform, same] at quiet
      cases quiet
  | beginAutoRun steps =>
    by_cases compiled : w.session.isCompiled = true
    · rw [Workbench.perform, beginAutoRun_of_compiled compiled] at quiet
      cases quiet
    · rwa [Workbench.perform, beginAutoRun_of_absent compiled] at busy
  | step => exact kept (w.session.stepTraced_program _)
  | autoStep number =>
    rcases w.live_or_silent number with ⟨run, live, rfl⟩ | ⟨other, same⟩
    · refine kept ?_
      rw [Workbench.perform, replying, session_autoStep_of_live live]
      exact w.session.advanceAutoRun_program _ run.ticket
    · rwa [Workbench.perform, same] at busy
  | configure tableSize mode historyBits =>
    refine kept ?_
    simp only [Workbench.perform, replying, configure, settle, Session.configure]
    split <;> rfl
  | resetAccuracy => exact busy

def Spends (w : Workbench) (operation : Operation) (run : LiveRun) : Prop :=
  let shown := (operation.shows run.number (w.perform operation).1).toNat
  run.ticket.remaining = shown ∨ ∃ ticket,
    (w.perform operation).2.live = some ⟨run.number, ticket⟩ ∧
      shown + ticket.remaining = run.ticket.remaining

theorem spends_of_silent {operation : Operation} (live : (w.perform operation).2.live = some run)
    (silent : operation.shows run.number (w.perform operation).1 = false) :
    w.Spends operation run := by
  rw [Spends, silent]
  exact .inr ⟨run.ticket, live, Nat.zero_add _⟩

theorem Current.spends_autoStep (current : w.Current) (live : w.live = some run)
    (left : run.ticket.remaining ≠ 0) (busy : w.session.Busy) :
    w.Spends (.autoStep run.number) run := by
  obtain ⟨⟨step, answered⟩, -⟩ := current.sound.advanceAutoRun_busy busy
    (current.generation run live) left Array.empty
  have performed : w.perform (.autoStep run.number) = replying .shown _ :=
    congrArg (replying Reply.shown) (autoStep_of_answered live answered)
  have shows : Operation.shows run.number (.autoStep run.number)
      (w.perform (.autoStep run.number)).1 = true := by
    rw [performed]
    simp [replying, Operation.shows, Except.map]
  rw [Spends, shows]
  by_cases last : run.ticket.remaining = 1
  · exact .inl last
  · have going : ¬run.ticket.remaining - 1 = 0 := by omega
    refine .inr ⟨{ run.ticket with remaining := run.ticket.remaining - 1 }, ?_, ?_⟩
    · rw [performed]
      simp [replying, Ticket.isFinished, going]
    · simp only [Bool.toNat_true]
      omega

theorem Current.spends (current : w.Current) {operation : Operation} (live : w.live = some run)
    (left : run.ticket.remaining ≠ 0) (busy : w.session.Busy)
    (quiet : operation.ends (w.perform operation).1 = false)
    (verified : operation.unscoped (w.perform operation).1 = false) :
    w.Spends operation run := by
  cases operation with
  | compile text =>
    rcases w.compile_cases text with ⟨error, -, same⟩ | ⟨program, error, -, -, same⟩ | ⟨next, same, -⟩
    · refine spends_of_silent ?_ rfl
      rw [Workbench.perform, same]
      exact live
    · rw [Workbench.perform, same] at verified
      cases verified
    · rw [Workbench.perform, same] at quiet
      cases quiet
  | edit | stop => cases quiet
  | restart =>
    obtain ⟨next, same, -⟩ := restart_of_compiled busy.compiled
    rw [Workbench.perform, same] at quiet
    cases quiet
  | beginAutoRun steps =>
    rw [Workbench.perform, beginAutoRun_of_compiled busy.compiled] at quiet
    cases quiet
  | step | configure | resetAccuracy => exact spends_of_silent live rfl
  | autoStep number =>
    rcases w.live_or_silent number with ⟨found, holds, rfl⟩ | ⟨other, same⟩
    · obtain rfl : run = found := Option.some.inj (live.symm.trans holds)
      exact current.spends_autoStep live left busy
    · refine spends_of_silent ?_ ?_ <;> rw [Workbench.perform, same]
      · exact live
      · rfl

end Steps

end Workbench
end BranchLab
