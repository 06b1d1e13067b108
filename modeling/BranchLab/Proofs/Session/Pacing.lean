import BranchLab.Proofs.Session.Batches
import BranchLab.Proofs.Session.Drivers

/-! What a paced run makes of its pauses. It is a batch of all steps of its ticket that stops where the
pacer cancels, but there is no pause behind the last step, so nothing that the pacer would answer
there matters. What it is asked can be read off what the run does with other answers. -/

namespace BranchLab

namespace StopsAfter

variable {pacer other : Pacer} {most k : Nat}

/-- Another pacer stops after as many steps just if it gives the same answers between them. -/
theorem iff_agree (stops : StopsAfter pacer.Cancels most k) :
    StopsAfter other.Cancels most k ↔ ∀ pause < min k (most - 1), other pause = pacer pause := by
  constructor
  · intro again pause asked
    rcases Nat.lt_or_ge (pause + 1) k with before | last
    · rw [Pacer.not_cancels.mp (stops.goesOn pause before),
        Pacer.not_cancels.mp (again.goesOn pause before)]
    · have early : k < most := by omega
      obtain ⟨n, rfl, cancelled⟩ := stops.stopped early
      obtain ⟨m, same, cancels⟩ := again.stopped early
      obtain rfl : pause = n := by omega
      obtain rfl : pause = m := by omega
      exact cancels.trans cancelled.symm
  · intro agree
    refine ⟨stops.within, fun n before => ?_, fun early => ?_⟩
    · have room := stops.within
      rw [Pacer.Cancels, agree n (by omega)]
      exact stops.goesOn n before
    · obtain ⟨n, rfl, cancelled⟩ := stops.stopped early
      exact ⟨n, rfl, (agree n (by omega)).trans cancelled⟩

end StopsAfter

namespace Session

/-- The pacer is asked so often: its first answers, as many as that, decide what the run does, and no
others. -/
def Asks (s : Session) (ticket : Ticket) (pacer : Pacer) (trace : Trace) (n : Nat) : Prop :=
  ∀ other, s.runPaced ticket other trace = s.runPaced ticket pacer trace ↔
    ∀ pause < n, other pause = pacer pause

variable {s : Session} {stepper : Stepper} {ticket : Ticket} {pacer : Pacer} {trace : Trace}

theorem Asks.le {m n : Nat} (asks : s.Asks ticket pacer trace m)
    (again : s.Asks ticket pacer trace n) : n ≤ m := by
  by_contra fewer
  -- An answer that would be asked for in one count and not in the other is turned round.
  let turned : Pacer := fun pause =>
    if pause = m then (if pacer m = .cancel then .goOn else .cancel) else pacer pause
  have same := (asks turned).mpr fun pause before => if_neg (Nat.ne_of_lt before)
  have kept : turned m = pacer m := (again turned).mp same m (Nat.lt_of_not_le fewer)
  rw [show turned m = if pacer m = .cancel then .goOn else .cancel from if_pos rfl] at kept
  cases answer : pacer m <;> simp [answer] at kept

theorem Asks.iff_eq {m n : Nat} (asks : s.Asks ticket pacer trace m) :
    s.Asks ticket pacer trace n ↔ n = m := by
  refine ⟨fun again => Nat.le_antisymm (asks.le again) (again.le asks), ?_⟩
  rintro rfl
  exact asks

theorem Sound.runPaced_stops (pacer : Pacer) (sound : s.Sound) (installed : s.stepper = some stepper)
    (filled : stepper.program.statements ≠ []) (live : ticket.generation = s.generation)
    (trace : Trace) :
    ∃ k, StopsAfter pacer.Cancels ticket.remaining k ∧
      s.runPaced ticket pacer trace =
        ⟨.ok ⟨k, k - 1⟩,
          if k < ticket.remaining then (s.stepped trace k).1.supersede else (s.stepped trace k).1,
          (s.stepped trace k).2⟩ := by
  obtain ⟨k, stops, ran⟩ := sound.runPacedFrom_stops pacer (ticket.remaining + 1) {} ticket installed
    filled live (Nat.lt_succ_self _) trace
  simp only [Nat.zero_add] at stops ran
  exact ⟨k, stops, ran⟩

/-- A paced run asks after each of its steps but the last one of the ticket. -/
theorem Sound.asks {k : Nat} (sound : s.Sound) (installed : s.stepper = some stepper)
    (filled : stepper.program.statements ≠ []) (live : ticket.generation = s.generation)
    (stops : StopsAfter pacer.Cancels ticket.remaining k) (trace : Trace) :
    s.Asks ticket pacer trace (min k (ticket.remaining - 1)) := by
  intro other
  obtain ⟨i, first, ran⟩ := sound.runPaced_stops pacer installed filled live trace
  obtain ⟨j, second, ranOther⟩ := sound.runPaced_stops other installed filled live trace
  obtain rfl : k = i := stops.unique first
  rw [← stops.iff_agree, ran, ranOther]
  constructor
  · intro same
    have executed : j = k := congrArg PacedRun.executed (Except.ok.inj (congrArg Traced.answer same))
    exact executed ▸ second
  · intro again
    rw [second.unique again]

theorem generation_supersede_ne (s : Session) : s.generation ≠ s.supersede.generation :=
  fun same => Nat.one_ne_zero ((self_eq_add_ofNat s.generation (by decide)).mp same)

end Session

/-- A paced run of a ticket that is not stale, over a program with statements. If the first answer that
cancels is given behind a step that is not the last of the ticket, the run ends there: it has asked
after each of its steps, a new generation is begun and all copies of the ticket are stale, however
many steps they still permit. Otherwise it executes all steps of the ticket, asks between each two of
them and leaves the generation as it is. Without statements it executes nothing and does not ask. -/
theorem paced_run_accounts_for_pauses (geometry : Geometry) (seed : UInt64)
    (before : List Session.Operation) (stepper : Stepper)
    (installed :
      ((Session.start geometry seed).after Array.empty before).1.stepper = some stepper)
    (ticket : Ticket)
    (live : ticket.generation =
      ((Session.start geometry seed).after Array.empty before).1.generation)
    (pacer : Pacer) (trace : Trace) :
    let s := ((Session.start geometry seed).after Array.empty before).1
    let done := s.runPaced ticket pacer trace
    let r := ticket.remaining
    (stepper.program.statements ≠ [] →
      (∀ n, (stepper.course n).length = n) ∧
      (∀ pause, IsFirst pacer.Cancels pause → pause + 1 < r →
        let j := pause + 1
        let now := s.stepped trace j
        done = ⟨.ok ⟨j, pause⟩, now.1.supersede, now.2⟩ ∧
        (∀ n, s.Asks ticket pacer trace n ↔ n = j) ∧
        done.session.generation = s.generation + 1 ∧
        ∀ left other seen,
          done.session.advanceAutoRun ⟨ticket.generation, left⟩ seen =
            ⟨.error .staleRun, done.session, seen⟩ ∧
          done.session.runPaced ⟨ticket.generation, left⟩ other seen =
            ⟨.error .staleRun, done.session, seen⟩) ∧
      ((¬∃ pause, IsFirst pacer.Cancels pause ∧ pause + 1 < r) →
        let now := s.stepped trace r
        done = ⟨.ok ⟨r, r - 1⟩, now.1, now.2⟩ ∧
        (∀ n, s.Asks ticket pacer trace n ↔ n = r - 1) ∧
        done.session.generation = s.generation)) ∧
    (stepper.program.statements = [] →
      done = ⟨.ok ⟨0, 0⟩, s, trace⟩ ∧ ∀ n, s.Asks ticket pacer trace n ↔ n = 0) := by
  intro s done r
  have sound : s.Sound := (Session.sound_start geometry seed).after Array.empty before
  have stands := sound stepper installed
  have steady (k : Nat) : (s.stepped trace k).1.generation = s.generation :=
    Session.generation_stepped s trace k
  refine ⟨fun filled => ?_, fun empty => ?_⟩
  · obtain ⟨k, stops, ran⟩ := sound.runPaced_stops pacer installed filled live trace
    have asks := sound.asks installed filled live stops trace
    refine ⟨fun n => (stands.length_course n).trans (if_neg filled), fun pause first early => ?_,
      fun never => ?_⟩
    · obtain rfl : k = pause + 1 := (stops.eq_min first).trans (Nat.min_eq_right early.le)
      rw [Nat.min_eq_left (by omega)] at asks
      rw [if_pos early] at ran
      have raised : done.session.generation = s.generation + 1 :=
        (congrArg (·.session.generation) ran).trans (congrArg (· + 1) (steady _))
      have stale : ticket.generation ≠ done.session.generation := by
        rw [live, raised]
        exact s.generation_supersede_ne
      exact ⟨ran, fun n => asks.iff_eq, raised, fun left other seen =>
        ⟨Session.advanceAutoRun_of_stale seen stale, Session.runPaced_of_stale seen other stale⟩⟩
    · obtain rfl : k = r := (Nat.lt_or_eq_of_le stops.within).resolve_left fun early => by
        obtain ⟨pause, rfl, first⟩ := stops.first early
        exact never ⟨pause, first, early⟩
      rw [Nat.min_eq_right (Nat.sub_le ..)] at asks
      rw [if_neg (Nat.lt_irrefl _)] at ran
      exact ⟨ran, fun n => asks.iff_eq, (congrArg (·.session.generation) ran).trans (steady _)⟩
  · have still (other : Pacer) : s.runPaced ticket other trace = ⟨.ok ⟨0, 0⟩, s, trace⟩ :=
      Session.runPacedFrom_of_empty installed (stands.current?_eq_none.mpr empty) live other _ _ trace
    have asks : s.Asks ticket pacer trace 0 := fun other =>
      iff_of_true ((still other).trans (still pacer).symm) (by simp)
    exact ⟨still pacer, fun n => asks.iff_eq⟩

/-- The second of two pauses cancels a ticket of three steps. -/
theorem paced_run_accounts_for_pauses_cancelled :
    let program : Program := ⟨[.guarded (.ident "i") [.bind "a" (.number 7) ⟨2, 2⟩] ⟨1, 3⟩]⟩
    let before : List Session.Operation := [.compile program, .beginAutoRun 3]
    let s := ((Session.start .default 0).after Array.empty before).1
    let stepper := Stepper.atStart program 0 (.ofSeed (Chance.Generator.ofSeed 0).next.1)
    let ticket : Ticket := ⟨2, 3⟩
    let done := s.runPaced ticket (.granting 1) Array.empty
    s.stepper = some stepper ∧ ticket.generation = s.generation ∧
      IsFirst (Pacer.granting 1).Cancels 1 ∧ done.answer = .ok ⟨2, 1⟩ ∧
      (∀ n, s.Asks ticket (.granting 1) Array.empty n ↔ n = 2) ∧
      done.session.generation = s.generation + 1 ∧
      (done.session.advanceAutoRun ticket done.trace).answer = .error .staleRun := by
  intro program before s stepper ticket done
  have installed : s.stepper = some stepper := rfl
  have live : ticket.generation = s.generation := rfl
  have cancels : Pacer.granting 1 1 = .cancel ∧ ∀ earlier < 1, Pacer.granting 1 earlier ≠ .cancel := by
    decide
  have filled : stepper.program.statements ≠ [] := by decide +kernel
  obtain ⟨paced, -⟩ := paced_run_accounts_for_pauses .default 0 before stepper installed ticket live
    (.granting 1) Array.empty
  obtain ⟨-, cancelled, -⟩ := paced filled
  obtain ⟨ran, asks, raised, stale⟩ := cancelled 1 cancels (by decide)
  exact ⟨installed, live, cancels, congrArg Traced.answer ran, asks, raised,
    congrArg Traced.answer (stale 3 .unhurried done.trace).1⟩

end BranchLab
