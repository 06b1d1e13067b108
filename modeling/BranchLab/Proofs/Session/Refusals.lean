import BranchLab.Proofs.Session.Course
import BranchLab.Proofs.Session.Spending

/-! Refusals. Why an operation is refused can be read off what is asked and the session before it,
and nothing has been done by then that shows: the program in execution, the predictor, the account,
the generation, the trace and the tickets are as they were. Only a refused program takes a seed. -/

namespace BranchLab
namespace Session

/-- The operation executes the program or starts it over. A batch of no steps does not, and neither
does a ticket that is used up. -/
def Operation.NeedsProgram (s : Session) : Operation → Prop
  | .resetExecution | .step | .stepTraced | .beginAutoRun _ => True
  | .run _ most => most ≠ 0
  | .advanceAutoRun ticket | .runPaced ticket _ =>
    ticket.generation = s.generation ∧ ticket.remaining ≠ 0
  | _ => False

def Operation.ticket? : Operation → Option Ticket
  | .advanceAutoRun ticket | .runPaced ticket _ => some ticket
  | _ => none

inductive Refuses (s : Session) : Operation → SessionError → Prop
  | unscoped {program : Program} {error : ScopeError}
      (rejected : program.check (.ofIteration 0) = .error error) :
      Refuses s (.compile program) (.scope error)
  | shapeless {tableSize historyBits : Int} {mode : String} {error : GeometryError}
      (rejected : Geometry.ofInput tableSize mode historyBits = .error error) :
      Refuses s (.configure tableSize mode historyBits) (.geometry error)
  | absent {operation : Operation} (absent : s.stepper = none) (needs : operation.NeedsProgram s) :
      Refuses s operation .notVerified
  | stale {operation : Operation} {ticket : Ticket} (presented : operation.ticket? = some ticket)
      (old : ticket.generation ≠ s.generation) : Refuses s operation .staleRun

/-- The session after a refusal. A program takes a seed to be checked. -/
def afterRefusal (s : Session) : Operation → Session
  | .compile _ => { s with seeds := s.seeds.next.2 }
  | _ => s

section Refusing

variable {s : Session} {operation : Operation} {error : SessionError}

/-- A program that fails the check takes the seed that it would have been installed with. -/
theorem compile_of_rejected (s : Session) {program : Program} {error : ScopeError}
    (rejected : program.check (.ofIteration 0) = .error error) :
    s.compile program = (.error (.scope error), { s with seeds := s.seeds.next.2 }) := by
  simp only [compile, Stepper.ofProgram, rejected]
  rfl

/-- With a reason to refuse it, an operation ends before it has done anything that shows. -/
theorem Refuses.perform (refuses : s.Refuses operation error) (trace : Trace) :
    s.perform operation trace = ⟨.error error, s.afterRefusal operation, trace⟩ := by
  cases refuses with
  | unscoped rejected =>
    simp only [Session.perform, untraced, compile_of_rejected s rejected]
    rfl
  | shapeless rejected =>
    simp only [Session.perform, untraced, configure, rejected]
    rfl
  | absent absent needs =>
    have refused := stepTraced_of_none absent
    cases operation with
    | resetExecution =>
      simp only [Session.perform, untraced, resetExecution, absent]
      rfl
    | step =>
      simp only [Session.perform, untraced, step, refused]
      rfl
    | stepTraced =>
      simp only [Session.perform, refused]
      rfl
    | run boundary most =>
      obtain ⟨most, rfl⟩ := Nat.exists_eq_succ_of_ne_zero needs
      simp only [Session.perform, run, runFrom, refused]
      rfl
    | beginAutoRun steps =>
      simp only [Session.perform, untraced, beginAutoRun, isCompiled, absent]
      rfl
    | advanceAutoRun ticket =>
      have unfinished : ¬ticket.isFinished = true := by simpa [Ticket.isFinished] using needs.2
      simp only [Session.perform, advanceAutoRun, if_neg (not_not_intro needs.1),
        if_neg unfinished, refused]
      rfl
    | runPaced ticket pacer =>
      have unfinished : ¬ticket.isFinished = true := by simpa [Ticket.isFinished] using needs.2
      simp only [Session.perform, runPaced, runPacedFrom, advanceAutoRun,
        if_neg (not_not_intro needs.1), if_neg unfinished, refused]
      rfl
    | compile | edit | configure | reconfigure | resetAccuracy | cancelAutoRun => exact needs.elim
  | stale presented old =>
    cases operation with
    | advanceAutoRun ticket =>
      cases presented
      simp only [Session.perform, advanceAutoRun_of_stale trace old]
      rfl
    | runPaced ticket pacer =>
      cases presented
      simp only [Session.perform, runPaced_of_stale trace pacer old]
      rfl
    | compile | edit | resetExecution | configure | reconfigure | resetAccuracy | step
    | stepTraced | run | beginAutoRun | cancelAutoRun => cases presented

theorem none_or_compiled (s : Session) : s.stepper = none ∨ s.isCompiled = true := by
  rw [isCompiled]
  cases s.stepper with
  | none => exact .inl rfl
  | some stepper => exact .inr rfl

theorem answered_map {α β : Type} {answer : Except SessionError α} (f : α → β)
    (answered : ∃ found, answer = .ok found) : ∃ reply, answer.map f = .ok reply := by
  obtain ⟨found, rfl⟩ := answered
  exact ⟨f found, rfl⟩

theorem Sound.presented (sound : s.Sound) {ticket : Ticket}
    (live : ticket.generation = s.generation)
    (ready : ticket.remaining = 0 ∨ s.isCompiled = true) (trace : Trace) (pacer : Pacer) :
    (∃ found, (s.advanceAutoRun ticket trace).answer = .ok found) ∧
      ∃ run, (s.runPaced ticket pacer trace).answer = .ok run := by
  rcases ready with finished | compiled
  · have advanced := advanceAutoRun_of_finished trace live finished
    rw [Session.runPaced, Session.runPacedFrom, advanced]
    exact ⟨⟨_, rfl⟩, ⟨_, rfl⟩⟩
  · obtain ⟨step, next, answered⟩ := sound.advanceAutoRun_answers trace compiled live
    exact ⟨⟨_, answered⟩, sound.runPaced_answers trace compiled live pacer⟩

/-- Without a reason to refuse it, an operation is answered: no evaluation fails on the way. -/
theorem Sound.refuses_or_answers (sound : s.Sound) (operation : Operation) (trace : Trace) :
    (∃ error, s.Refuses operation error) ∨
      ∃ reply, (s.perform operation trace).answer = .ok reply := by
  have ready := s.none_or_compiled
  cases operation with
  | compile program =>
    cases checked : program.check (.ofIteration 0) with
    | error error => exact .inl ⟨_, .unscoped checked⟩
    | ok done =>
      have built := (Stepper.ofProgram_eq_ok program s.seeds.next.1 _).mpr ⟨checked, rfl⟩
      refine .inr ⟨.done, ?_⟩
      simp only [Session.perform, untraced, Session.compile, built]
      rfl
  | resetExecution =>
    cases installed : s.stepper with
    | none => exact .inl ⟨_, .absent installed trivial⟩
    | some stepper =>
      refine .inr ⟨.done, ?_⟩
      simp only [Session.perform, untraced, Session.resetExecution, installed]
      rfl
  | configure tableSize mode historyBits =>
    cases read : Geometry.ofInput tableSize mode historyBits with
    | error error => exact .inl ⟨_, .shapeless read⟩
    | ok geometry =>
      refine .inr ⟨.done, ?_⟩
      simp only [Session.perform, untraced, Session.configure, read]
      rfl
  | edit | reconfigure | resetAccuracy | cancelAutoRun => exact .inr ⟨.done, rfl⟩
  | step =>
    refine ready.imp (fun absent => ⟨_, .absent absent trivial⟩) fun compiled => ?_
    exact answered_map _ (sound.stepTraced_answers Array.empty compiled)
  | stepTraced =>
    refine ready.imp (fun absent => ⟨_, .absent absent trivial⟩) fun compiled => ?_
    exact answered_map _ (sound.stepTraced_answers trace compiled)
  | run boundary most =>
    cases most with
    | zero => exact .inr ⟨_, rfl⟩
    | succ most =>
      cases installed : s.stepper with
      | none => exact .inl ⟨_, .absent installed (Nat.succ_ne_zero most)⟩
      | some stepper =>
        -- A batch that has begun is not broken off: every step of it is answered.
        obtain ⟨n, summary, answered, -⟩ :=
          sound.runFrom_takes boundary (most + 1) {} installed trace
        exact .inr (answered_map _ ⟨summary, answered⟩)
  | beginAutoRun steps =>
    refine ready.imp (fun absent => ⟨_, .absent absent trivial⟩) fun compiled => ?_
    refine answered_map _ ⟨⟨s.supersede.generation, steps⟩, ?_⟩
    rw [Session.beginAutoRun, if_pos compiled]
  | advanceAutoRun ticket =>
    by_cases live : ticket.generation = s.generation
    · by_cases finished : ticket.remaining = 0
      · exact .inr (answered_map _ (sound.presented live (.inl finished) trace .unhurried).1)
      · refine ready.imp (fun absent => ⟨_, .absent absent ⟨live, finished⟩⟩) fun compiled => ?_
        exact answered_map _ (sound.presented live (.inr compiled) trace .unhurried).1
    · exact .inl ⟨_, .stale rfl live⟩
  | runPaced ticket pacer =>
    by_cases live : ticket.generation = s.generation
    · by_cases finished : ticket.remaining = 0
      · exact .inr (answered_map _ (sound.presented live (.inl finished) trace pacer).2)
      · refine ready.imp (fun absent => ⟨_, .absent absent ⟨live, finished⟩⟩) fun compiled => ?_
        exact answered_map _ (sound.presented live (.inr compiled) trace pacer).2
    · exact .inl ⟨_, .stale rfl live⟩

theorem Sound.refused_iff (sound : s.Sound) (trace : Trace) :
    (s.perform operation trace).answer = .error error ↔ s.Refuses operation error := by
  constructor
  · intro refused
    rcases sound.refuses_or_answers operation trace with ⟨cause, refuses⟩ | ⟨reply, answered⟩
    · have same := congrArg Traced.answer (refuses.perform trace)
      cases refused.symm.trans same
      exact refuses
    · cases refused.symm.trans answered
  · intro refuses
    rw [refuses.perform trace]

theorem afterRefusal_same (s : Session) (operation : Operation) :
    (s.afterRefusal operation).stepper = s.stepper ∧ (s.afterRefusal operation).bank = s.bank ∧
      (s.afterRefusal operation).ledger = s.ledger ∧
      (s.afterRefusal operation).generation = s.generation := by
  cases operation <;> exact ⟨rfl, rfl, rfl, rfl⟩

theorem Refuses.congr {t : Session} (stepper : t.stepper = s.stepper)
    (generation : t.generation = s.generation) (refuses : s.Refuses operation error) :
    t.Refuses operation error := by
  cases refuses with
  | unscoped rejected => exact .unscoped rejected
  | shapeless rejected => exact .shapeless rejected
  | absent absent needs =>
    refine .absent (stepper.trans absent) ?_
    cases operation <;> first | exact needs | exact ⟨needs.1.trans generation.symm, needs.2⟩
  | stale presented old => exact .stale presented (generation ▸ old)

end Refusing
end Session

theorem Traced.eq_of_map_error {α β : Type} {done : Traced α} {f : α → β} {error : SessionError}
    {s : Session} {trace : Trace} (failed : done.map f = ⟨.error error, s, trace⟩) :
    done = ⟨.error error, s, trace⟩ := by
  obtain ⟨answer, session, seen⟩ := done
  cases answer with
  | error cause =>
    cases failed
    rfl
  | ok found => cases congrArg Traced.answer failed

theorem Holder.use_of_refused (h : Holder) {place : Nat} {ticket : Ticket} {error : SessionError}
    (held : h.tickets[place]? = some ticket)
    (refused : h.session.advanceAutoRun ticket h.trace = ⟨.error error, h.session, h.trace⟩) :
    h.use (.advance place) = h := by
  obtain ⟨inside, rfl⟩ := List.getElem?_eq_some_iff.mp held
  simp only [Holder.use, held, refused, Ticket.after, List.set_getElem_self, Holder.receive,
    Nat.sub_self, Nat.add_zero]

open Session

/-- In a session that is reached, an operation is refused for the reasons given and for no other,
never because an evaluation fails. A refusal leaves the program in execution, the predictor, the
account, the generation and the trace as they are, and the whole session if it is not a program that
is refused. A ticket that was presented is kept as it is, and every operation, with whatever ticket,
is refused afterwards exactly when it was refused before. -/
theorem refusals_change_nothing (geometry : Geometry) (seed : UInt64) (before trace : Trace)
    (history : List Operation) (operation : Operation) (error : SessionError) :
    let now := ((Session.start geometry seed).after before history).1
    let done := now.perform operation trace
    (done.answer = .error error ↔ now.Refuses operation error) ∧
    (done.answer = .error error →
      done.session.stepper = now.stepper ∧ done.session.bank = now.bank ∧
      done.session.ledger = now.ledger ∧ done.session.generation = now.generation ∧
      done.trace = trace ∧
      ((∀ program, operation ≠ .compile program) → done.session = now) ∧
      (∀ (h : Holder) place ticket, h.session = now → h.trace = trace →
        h.tickets[place]? = some ticket → operation = .advanceAutoRun ticket →
        h.use (.advance place) = h) ∧
      ∀ later seen cause, ((done.session.perform later seen).answer = .error cause ↔
        (now.perform later seen).answer = .error cause)) := by
  intro now done
  have sound : now.Sound := (sound_start geometry seed).after before history
  refine ⟨sound.refused_iff trace, fun refused => ?_⟩
  have refuses := (sound.refused_iff trace).mp refused
  have whole : done = ⟨.error error, now.afterRefusal operation, trace⟩ := refuses.perform trace
  obtain ⟨stepper, bank, ledger, generation⟩ := now.afterRefusal_same operation
  have next : done.session.Sound := (sound.perform operation trace).sound
  rw [whole] at next ⊢
  refine ⟨stepper, bank, ledger, generation, rfl, fun other => ?_, ?_, fun later seen cause => ?_⟩
  · cases operation with
    | compile program => exact absurd rfl (other program)
    | _ => rfl
  · intro h place ticket current seen held presented
    subst presented
    have kept : now.advanceAutoRun ticket trace = ⟨.error error, now, trace⟩ :=
      Traced.eq_of_map_error whole
    rw [← current, ← seen] at kept
    exact h.use_of_refused held kept
  · rw [next.refused_iff seen, sound.refused_iff seen]
    exact ⟨.congr stepper.symm generation.symm, .congr stepper generation⟩

/-- A program that is refused in the middle of an automatic run leaves its ticket valid. -/
theorem refusals_change_nothing_unscoped :
    let program : Program := ⟨[.bind "x" (.ident "i") ⟨1, 1⟩, .bind "y" (.ident "x") ⟨2, 2⟩]⟩
    let unbound : Program := ⟨[.bind "x" (.ident "z") ⟨1, 1⟩]⟩
    let history : List Operation :=
      [.compile program, .beginAutoRun 4, .advanceAutoRun ⟨2, 4⟩]
    let now := ((Session.start .default 0).after Array.empty history).1
    let done := now.perform (.compile unbound) Array.empty
    let error : SessionError := .scope ⟨"z", 1⟩
    done.answer = .error error ∧ now.Refuses (.compile unbound) error ∧
      done.session.stepper = now.stepper ∧ done.session.generation = now.generation ∧
      (done.session.perform (.advanceAutoRun ⟨2, 3⟩) Array.empty).answer ≠ .error .staleRun := by
  intro program unbound history now done error
  have refused : done.answer = .error error := by rfl
  obtain ⟨reasons, same⟩ :=
    refusals_change_nothing .default 0 Array.empty Array.empty history (.compile unbound) error
  obtain ⟨stepper, -, -, generation, -, -, -, later⟩ := same refused
  refine ⟨refused, reasons.mp refused, stepper, generation, fun stale => ?_⟩
  have before := (later _ Array.empty .staleRun).mp stale
  obtain ⟨reasons, -⟩ := refusals_change_nothing .default 0 Array.empty Array.empty history
    (.advanceAutoRun ⟨2, 3⟩) .staleRun
  cases reasons.mp before with
  | stale presented old =>
    cases presented
    exact old rfl

end BranchLab
