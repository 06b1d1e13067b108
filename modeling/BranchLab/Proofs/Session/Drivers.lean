import BranchLab.Proofs.Session.Course

/-! The ways to execute `n` statements: one step after another, a batch, a ticket that is handed to a
paced run, and a ticket that is presented until no step comes back. They end in the same session
with the same trace, up to the generation that the ticket began. -/

namespace BranchLab

namespace Session

/-- A ticket is presented, each time the one that came back, until no step is answered. The steps that
were answered are listed. -/
inductive Drains : Session → Ticket → Trace → List SessionStep → Session → Trace → Prop
  | ends {s last : Session} {ticket rest : Ticket} {trace seen : Trace}
      (ended : s.advanceAutoRun ticket trace = ⟨.ok (none, rest), last, seen⟩) :
      Drains s ticket trace [] last seen
  | goesOn {s next last : Session} {ticket rest : Ticket} {trace seen final : Trace}
      {step : SessionStep} {steps : List SessionStep}
      (advanced : s.advanceAutoRun ticket trace = ⟨.ok (some step, rest), next, seen⟩)
      (others : Drains next rest seen steps last final) :
      Drains s ticket trace (step :: steps) last final

section Agreement

variable {s : Session} {stepper : Stepper} {ticket : Ticket}

theorem generation_stepped (s : Session) (trace : Trace) (n : Nat) :
    (s.stepped trace n).1.generation = s.generation := by
  induction n generalizing s trace with
  | zero => rfl
  | succ n ih =>
    exact (ih _ _).trans (continues_stepTraced s trace).generation

/-- A step does the same in every generation. -/
theorem stepTraced_supersede (s : Session) (trace : Trace) :
    s.supersede.stepTraced trace =
      ⟨(s.stepTraced trace).answer, (s.stepTraced trace).session.supersede,
        (s.stepTraced trace).trace⟩ := by
  obtain ⟨slot, bank, ledger, generation, seeds⟩ := s
  cases slot with
  | none => rfl
  | some stepper =>
    simp only [stepTraced, supersede]
    split
    · rfl
    · split <;> rfl

theorem stepped_supersede (s : Session) (trace : Trace) (n : Nat) :
    s.supersede.stepped trace n =
      ((s.stepped trace n).1.supersede, (s.stepped trace n).2) := by
  induction n generalizing s trace with
  | zero => rfl
  | succ n ih =>
    rw [stepped_succ (stepTraced_supersede s trace)]
    exact ih _ _

/-- A ticket drains, after as many steps as it permits if there is something to execute. -/
theorem Sound.drains (sound : s.Sound) (installed : s.stepper = some stepper) (ticket : Ticket)
    (live : ticket.generation = s.generation) (trace : Trace) :
    ∃ steps, s.Drains ticket trace steps (s.stepped trace steps.length).1
        (s.stepped trace steps.length).2 ∧
      (stepper.program.statements = [] → steps.length = 0) ∧
      (stepper.program.statements ≠ [] → steps.length = ticket.remaining) := by
  obtain ⟨left, remaining⟩ : ∃ left, ticket.remaining = left := ⟨_, rfl⟩
  induction left generalizing s stepper ticket trace with
  | zero =>
    exact ⟨[], .ends (advanceAutoRun_of_finished trace live remaining), fun _ => rfl,
      fun _ => remaining.symm⟩
  | succ left ih =>
    have unfinished : ticket.remaining ≠ 0 := by omega
    cases sound.single installed trace with
    | rests empty taken =>
      exact ⟨[], .ends (advanceAutoRun_of_idle live unfinished taken), fun _ => rfl,
        fun filled => absurd empty filled⟩
    | @executes step next seen filled taken executed sound moved same generation =>
      obtain ⟨steps, drains, -, all⟩ :=
        ih sound moved { ticket with remaining := ticket.remaining - 1 }
          (live.trans generation.symm) seen (by simp only; omega)
      refine ⟨step :: steps, ?_, fun empty => absurd empty filled, fun _ => ?_⟩
      · rw [List.length_cons, stepped_succ taken]
        exact .goesOn (advanceAutoRun_of_executed live unfinished taken executed) drains
      · rw [same] at all
        rw [List.length_cons, all filled]
        simp only
        omega

end Agreement
end Session

theorem Traced.eq_mk {α : Type} {done : Traced α} {answer : Except SessionError α} {s : Session}
    {trace : Trace} (answered : done.answer = answer) (ended : (done.session, done.trace) = (s, trace)) :
    done = ⟨answer, s, trace⟩ := by
  obtain ⟨given, session, seen⟩ := done
  subst answered
  cases ended
  rfl

/-- A run without a cancelled pause ends where as many single steps end. -/
theorem Session.Sound.runPaced_unhurried {s : Session} {stepper : Stepper} (sound : s.Sound)
    (installed : s.stepper = some stepper) (ticket : Ticket)
    (live : ticket.generation = s.generation) (trace : Trace) :
    let ended := s.stepped trace ticket.remaining
    ∃ run, s.runPaced ticket .unhurried trace = ⟨.ok run, ended.1, ended.2⟩ ∧
      run.executed = if stepper.program.statements = [] then 0 else ticket.remaining := by
  intro ended
  obtain ⟨n, run, answered, count, rests, ends⟩ :=
    sound.runPacedFrom_takes .unhurried _ {} ticket installed live (Nat.lt_succ_self _) trace
  rcases ends with ⟨reached, all⟩ | ⟨-, pause, cancelled⟩
  · by_cases empty : stepper.program.statements = []
    · obtain rfl := rests empty
      -- Nothing is executed in an empty program, and single steps leave it where it is.
      have still := (sound stepper installed).current?_eq_none.mpr empty
      have same : s.stepped trace 0 = ended := (Session.stepped_of_empty installed still trace _).symm
      exact ⟨run, Traced.eq_mk answered (reached.trans same), count.trans (if_pos empty).symm⟩
    · obtain rfl := all empty
      exact ⟨run, Traced.eq_mk answered reached, by rw [count, if_neg empty, Nat.zero_add]⟩
  · cases cancelled

open Session in
/-- In a session that has a program, a batch of `n` steps, a paced run of a ticket for `n` steps and
that ticket presented to its end leave what `n` single steps leave, and report the same number of
executed statements. The ticket's generation is the only difference. -/
theorem step_drivers_agree (geometry : Geometry) (seed : UInt64) (before : Trace)
    (history : List Session.Operation) (stepper : Stepper)
    (installed : ((Session.start geometry seed).after before history).1.stepper = some stepper)
    (n : Nat) (pacer : Pacer) (granted : ∀ pause, pacer pause = .goOn) (trace : Trace) :
    let s := ((Session.start geometry seed).after before history).1
    let single := s.after trace (List.replicate n .stepTraced)
    let executed := if stepper.program.statements = [] then 0 else n
    single.1.generation = s.generation ∧
    (∃ summary, s.run .steps n trace = ⟨.ok summary, single.1, single.2⟩ ∧
      summary.steps = executed) ∧
    ∃ ticket begun, s.beginAutoRun n = (.ok ticket, begun) ∧
      (∃ run, begun.runPaced ticket pacer trace = ⟨.ok run, single.1.supersede, single.2⟩ ∧
        run.executed = executed) ∧
      ∃ steps, begun.Drains ticket trace steps single.1.supersede single.2 ∧
        steps.length = executed := by
  intro s single executed
  have sound : s.Sound := (sound_start geometry seed).after before history
  have compiled : s.isCompiled = true := by rw [isCompiled, installed]; rfl
  -- As many steps as are counted end where `n` steps end: idle steps change nothing.
  have reached {k : Nat} (rests : stepper.program.statements = [] → k = 0)
      (all : stepper.program.statements ≠ [] → k = n) :
      k = executed ∧ s.stepped trace k = single := by
    by_cases empty : stepper.program.statements = []
    · rw [rests empty]
      have rest := (sound stepper installed).current?_eq_none.mpr empty
      exact ⟨(if_pos empty).symm, (stepped_of_empty installed rest trace n).symm⟩
    · rw [all empty]
      exact ⟨(if_neg empty).symm, rfl⟩
  refine ⟨generation_stepped s trace n, ?_, ⟨s.generation + 1, n⟩, s.supersede,
    if_pos compiled, ?_, ?_⟩
  · obtain ⟨k, summary, answered, count, ended, rests, all⟩ :=
      sound.runFrom_takes .steps n {} installed trace
    obtain ⟨counted, same⟩ := reached rests fun filled => (all filled).resolve_right nofun
    exact ⟨summary, Traced.eq_mk answered (ended.trans same), by rw [count, counted, Nat.zero_add]⟩
  · obtain ⟨k, run, answered, count, rests, ends⟩ :=
      Sound.runPacedFrom_takes pacer _ {} ⟨s.generation + 1, n⟩ sound.supersede installed rfl
        (Nat.lt_succ_self n) trace
    rcases ends with ⟨ended, all⟩ | ⟨-, pause, cancelled⟩
    · obtain ⟨counted, same⟩ := reached rests all
      rw [stepped_supersede, same] at ended
      exact ⟨run, Traced.eq_mk answered ended, by rw [count, counted, Nat.zero_add]⟩
    · rw [granted pause] at cancelled
      cases cancelled
  · obtain ⟨steps, drains, rests, all⟩ :=
      sound.supersede.drains installed ⟨s.generation + 1, n⟩ rfl trace
    obtain ⟨counted, same⟩ := reached rests all
    rw [stepped_supersede, same] at drains
    exact ⟨steps, drains, counted⟩

/-- The steps begin inside a block and go on into the next iterations. -/
theorem step_drivers_agree_inside_block :
    let program : Program :=
      ⟨[.bind "a" (.ident "i") ⟨1, 1⟩,
        .guarded (.number 1) [.bind "b" (.ident "a") ⟨3, 3⟩, .bind "c" (.ident "b") ⟨4, 4⟩] ⟨2, 5⟩]⟩
    let history : List Session.Operation := [.compile program, .run .steps 3]
    let s := ((Session.start .default 0).after Array.empty history).1
    let single := s.after Array.empty (List.replicate 6 .stepTraced)
    (∃ stepper, s.stepper = some stepper ∧ stepper.below.length = 1) ∧
      (∀ pause, Pacer.unhurried pause = .goOn) ∧
      (∃ summary, s.run .steps 6 Array.empty = ⟨.ok summary, single.1, single.2⟩ ∧
        summary.steps = 6) ∧
      ∃ ticket begun, s.beginAutoRun 6 = (.ok ticket, begun) ∧
        (∃ run, begun.runPaced ticket .unhurried Array.empty =
          ⟨.ok run, single.1.supersede, single.2⟩ ∧ run.executed = 6) ∧
        ∃ steps, begun.Drains ticket Array.empty steps single.1.supersede single.2 ∧
          steps.length = 6 := by
  intro program history s single
  have granted (pause : Nat) : Pacer.unhurried pause = .goOn := rfl
  obtain ⟨stepper, installed, nested, filled⟩ : ∃ stepper, s.stepper = some stepper ∧
      stepper.below.length = 1 ∧ stepper.program.statements ≠ [] := ⟨_, rfl, rfl, nofun⟩
  obtain ⟨-, batch, begun⟩ := step_drivers_agree .default 0 Array.empty history stepper installed 6
    .unhurried granted Array.empty
  rw [if_neg filled] at batch begun
  exact ⟨⟨stepper, installed, nested⟩, granted, batch, begun⟩

end BranchLab
