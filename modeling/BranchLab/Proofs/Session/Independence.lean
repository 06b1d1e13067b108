import BranchLab.Proofs.Session.Replay

/-! Execution and prediction do not meddle with each other. What a session executes and answers is the
same whatever its predictor is and whatever is done to it, apart from the predictions themselves;
and the predictor knows of the program only the branches that it resolved. -/

namespace BranchLab

/-- The sessions differ in nothing but the predictor and the account. -/
structure Session.Alike (s t : Session) : Prop where
  stepper : s.stepper = t.stepper
  generation : s.generation = t.generation
  seeds : s.seeds = t.seeds

inductive Traced.Alike {α β : Type} (view : α → β) : Traced α → Traced α → Prop
  | refused {s t : Session} {trace seen : Trace} (error : SessionError) (alike : s.Alike t) :
      Alike view ⟨.error error, s, trace⟩ ⟨.error error, t, seen⟩
  | answered {x y : α} {s t : Session} {trace seen : Trace} (same : view x = view y)
      (alike : s.Alike t) : Alike view ⟨.ok x, s, trace⟩ ⟨.ok y, t, seen⟩

namespace Traced.Alike

variable {α β γ δ : Type} {view : α → β} {done other : Traced α}

theorem session (alike : done.Alike view other) : done.session.Alike other.session := by
  cases alike with
  | refused _ alike => exact alike
  | answered _ alike => exact alike

theorem answer (alike : done.Alike view other) : done.answer.map view = other.answer.map view := by
  cases alike with
  | refused => rfl
  | answered same => exact congrArg Except.ok same

theorem map (alike : done.Alike view other) {f : α → γ} {seen : γ → δ}
    (kept : ∀ x y, view x = view y → seen (f x) = seen (f y)) :
    (done.map f).Alike seen (other.map f) := by
  cases alike with
  | refused error alike => exact .refused error alike
  | answered same alike => exact .answered (kept _ _ same) alike

/-- The events themselves are not compared. -/
theorem off (alike : done.Alike view other) (trace seen : Trace) :
    Alike view ⟨done.answer, done.session, trace⟩ ⟨other.answer, other.session, seen⟩ := by
  cases alike with
  | refused error alike => exact .refused error alike
  | answered same alike => exact .answered same alike

end Traced.Alike

def SessionStep.unscored (step : SessionStep) : SessionStep := { step with prediction := none }

/-- What a step shows when its prediction is covered up: the outcome, and that there is one. -/
def SessionStep.shown (step : SessionStep) : StepOutcome × Bool :=
  (step.outcome, step.prediction.isSome)

namespace Session

def Reply.unscored : Reply → Reply
  | stepped step => stepped step.unscored
  | advanced step ticket => advanced (step.map SessionStep.unscored) ticket
  | reply => reply

namespace Alike

variable {s t : Session}

theorem refl (s : Session) : s.Alike s := ⟨rfl, rfl, rfl⟩

theorem trans {last : Session} (first : s.Alike t) (second : t.Alike last) : s.Alike last :=
  ⟨first.stepper.trans second.stepper, first.generation.trans second.generation,
    first.seeds.trans second.seeds⟩

theorem supersede (alike : s.Alike t) : s.supersede.Alike t.supersede :=
  ⟨alike.stepper, congrArg (· + 1) alike.generation, alike.seeds⟩

theorem stepTraced (alike : s.Alike t) (trace seen : Trace) :
    (s.stepTraced trace).Alike SessionStep.shown (t.stepTraced seen) := by
  obtain ⟨slot, bank, ledger, generation, seeds⟩ := s
  obtain ⟨slot, bank, ledger, generation, seeds⟩ := t
  obtain ⟨rfl, rfl, rfl⟩ := alike
  cases slot with
  | none => exact .refused _ ⟨rfl, rfl, rfl⟩
  | some stepper =>
    simp only [Session.stepTraced]
    split
    · exact .refused _ ⟨rfl, rfl, rfl⟩
    · split
      · exact .answered rfl ⟨rfl, rfl, rfl⟩
      · exact .answered rfl ⟨rfl, rfl, rfl⟩

theorem runFrom (alike : s.Alike t) (boundary : RunBoundary) (left : Nat) (sum : RunSummary)
    (trace seen : Trace) :
    (runFrom boundary left sum s trace).Alike id (runFrom boundary left sum t seen) := by
  induction left generalizing s t sum trace seen with
  | zero => exact .answered rfl alike
  | succ left ih =>
    have stepped := alike.stepTraced trace seen
    rw [Session.runFrom, Session.runFrom]
    generalize s.stepTraced trace = done at stepped
    generalize t.stepTraced seen = other at stepped
    cases stepped with
    | refused error alike => exact .refused error alike
    | @answered x y _ _ _ _ same alike =>
      obtain ⟨outcome, scored⟩ := Prod.mk.inj same
      dsimp only
      rw [outcome, scored]
      split
      · exact .answered rfl alike
      · split
        · exact .answered rfl alike
        · exact ih alike _ _ _

theorem advanceAutoRun (alike : s.Alike t) (ticket : Ticket) (trace seen : Trace) :
    (s.advanceAutoRun ticket trace).Alike (fun found => (found.1.map SessionStep.shown, found.2))
      (t.advanceAutoRun ticket seen) := by
  have stepped := alike.stepTraced trace seen
  rw [Session.advanceAutoRun, Session.advanceAutoRun, alike.generation]
  split
  · exact .refused _ alike
  · split
    · exact .answered rfl alike
    · generalize s.stepTraced trace = done at stepped
      generalize t.stepTraced seen = other at stepped
      cases stepped with
      | refused error alike => exact .refused error alike
      | @answered x y _ _ _ _ same alike =>
        have outcome : x.outcome = y.outcome := congrArg Prod.fst same
        dsimp only
        rw [outcome]
        split
        · exact .answered rfl alike
        · exact .answered (by simp only [Option.map, same]) alike

theorem runPacedFrom (alike : s.Alike t) (pacer : Pacer) (turns : Nat) (run : PacedRun)
    (ticket : Ticket) (trace seen : Trace) :
    (runPacedFrom pacer turns run s ticket trace).Alike id
      (runPacedFrom pacer turns run t ticket seen) := by
  induction turns generalizing s t run ticket trace seen with
  | zero => exact .answered rfl alike
  | succ turns ih =>
    have advanced := alike.advanceAutoRun ticket trace seen
    rw [Session.runPacedFrom, Session.runPacedFrom]
    generalize s.advanceAutoRun ticket trace = done at advanced
    generalize t.advanceAutoRun ticket seen = other at advanced
    cases advanced with
    | refused error alike => exact .refused error alike
    | @answered x y _ _ _ _ same alike =>
      obtain ⟨step, rest⟩ := x
      obtain ⟨other, next⟩ := y
      obtain ⟨both, rfl⟩ := Prod.mk.inj same
      cases step with
      | none =>
        cases other with
        | none => exact .answered rfl alike
        | some => cases both
      | some step =>
        cases other with
        | none => cases both
        | some other =>
          dsimp only
          split
          · exact .answered rfl alike
          · split
            · exact .answered rfl alike.supersede
            · exact ih alike _ _ _ _

theorem unscored_stepped {x y : SessionStep} (same : x.shown = y.shown) :
    (Reply.stepped x).unscored = (Reply.stepped y).unscored := by
  have outcome : x.outcome = y.outcome := congrArg Prod.fst same
  simp only [Reply.unscored, SessionStep.unscored, outcome]

theorem unscored_advanced {x y : Option SessionStep × Ticket}
    (same : (x.1.map SessionStep.shown, x.2) = (y.1.map SessionStep.shown, y.2)) :
    (Reply.advanced x.1 x.2).unscored = (Reply.advanced y.1 y.2).unscored := by
  have covered (step : Option SessionStep) : step.map SessionStep.unscored =
      (step.map SessionStep.shown).map fun shown => ⟨shown.1, none⟩ := by
    rw [Option.map_map]
    rfl
  obtain ⟨step, ticket⟩ := Prod.mk.inj same
  rw [Reply.unscored, Reply.unscored, covered, covered, step, ticket]

theorem perform (alike : s.Alike t) (operation : Operation) (trace seen : Trace) :
    (s.perform operation trace).Alike Reply.unscored (t.perform operation seen) := by
  cases operation with
  | compile program =>
    simp only [Session.perform, untraced, Session.compile, alike.seeds]
    split
    · exact .answered rfl ⟨rfl, congrArg (· + 1) alike.generation, rfl⟩
    · exact .refused _ ⟨alike.stepper, alike.generation, rfl⟩
  | edit => exact .answered rfl ⟨rfl, congrArg (· + 1) alike.generation, alike.seeds⟩
  | resetExecution =>
    simp only [Session.perform, untraced, Session.resetExecution, alike.stepper]
    split
    · exact .refused _ alike
    · exact .answered rfl ⟨rfl, congrArg (· + 1) alike.generation, alike.seeds⟩
  | configure tableSize mode historyBits =>
    simp only [Session.perform, untraced, Session.configure]
    split
    · exact .answered rfl ⟨alike.stepper, alike.generation, alike.seeds⟩
    · exact .refused _ alike
  | reconfigure geometry => exact .answered rfl ⟨alike.stepper, alike.generation, alike.seeds⟩
  | resetAccuracy => exact .answered rfl ⟨alike.stepper, alike.generation, alike.seeds⟩
  | step =>
    exact ((alike.stepTraced Array.empty Array.empty).map fun _ _ => unscored_stepped).off trace seen
  | stepTraced => exact (alike.stepTraced trace seen).map fun _ _ => unscored_stepped
  | run boundary most =>
    exact (alike.runFrom boundary most {} trace seen).map fun _ _ => congrArg _
  | beginAutoRun steps =>
    have compiled : s.isCompiled = t.isCompiled := congrArg Option.isSome alike.stepper
    have next : s.supersede.generation = t.supersede.generation := alike.supersede.generation
    simp only [Session.perform, untraced, Session.beginAutoRun, compiled, next]
    split
    · exact .answered rfl alike.supersede
    · exact .refused _ alike
  | cancelAutoRun => exact .answered rfl alike.supersede
  | advanceAutoRun ticket =>
    exact (alike.advanceAutoRun ticket trace seen).map fun _ _ => unscored_advanced
  | runPaced ticket pacer =>
    exact (alike.runPacedFrom pacer _ {} ticket trace seen).map fun _ _ => congrArg _

theorem of_setting (s : Session) (operation : Operation) (trace : Trace)
    (setting : operation.isSetting = true) : (s.perform operation trace).session.Alike s := by
  cases operation with
  | configure tableSize mode historyBits =>
    simp only [Session.perform, untraced, Session.configure]
    split <;> exact ⟨rfl, rfl, rfl⟩
  | reconfigure | resetAccuracy => exact ⟨rfl, rfl, rfl⟩
  | compile | edit | resetExecution | step | stepTraced | run | beginAutoRun | cancelAutoRun
  | advanceAutoRun | runPaced => cases setting

end Alike

/-- What shows of an operation besides predictions: its answer, and then the program in execution and
the generation. -/
structure View where
  answer : Except SessionError Reply
  stepper : Option Stepper
  generation : UInt64

def views (s : Session) (trace : Trace) : List Operation → List View
  | [] => []
  | operation :: rest =>
    let done := s.perform operation trace
    let others := views done.session done.trace rest
    if operation.isSetting then others
    else ⟨done.answer.map Reply.unscored, done.session.stepper, done.session.generation⟩ :: others

/-- The views do not change when the predictor is left alone. -/
theorem Alike.views {s t : Session} (alike : s.Alike t) (trace seen : Trace)
    (operations : List Operation) :
    s.views trace operations = t.views seen (operations.filter (!·.isSetting)) := by
  induction operations generalizing s t trace seen with
  | nil => rfl
  | cons operation rest ih =>
    rw [Session.views]
    cases setting : operation.isSetting with
    | true =>
      -- Only the first session is asked, and it stays alike to the other.
      rw [List.filter_cons_of_neg (by simp [setting])]
      exact ih ((Alike.of_setting s operation trace setting).trans alike) _ _
    | false =>
      have both := alike.perform operation trace seen
      rw [List.filter_cons_of_pos (by simp [setting]), Session.views, setting,
        both.answer, both.session.stepper, both.session.generation, ih both.session _ _]

/-- What reaches the predictor: a configuration, the order to forget the account, or a branch. -/
inductive Influence where
  | configured (geometry : Geometry)
  | forgotten
  | resolved (event : BranchEvent)

def Influence.apply : Bank × Ledger → Influence → Bank × Ledger
  | (_, ledger), configured geometry => (.fresh geometry, ledger)
  | (bank, _), forgotten => (bank, .empty)
  | (bank, ledger), resolved event => (bank.predictAndUpdate event ledger).2

def Operation.influences (executed : List Execution) : Operation → List Influence
  | .configure tableSize mode historyBits =>
    (Geometry.ofInput tableSize mode historyBits).toOption.toList.map .configured
  | .reconfigure geometry => [.configured geometry]
  | .resetAccuracy => [.forgotten]
  | _ => (executed.filterMap Execution.branch).map .resolved

def influences (s : Session) (trace : Trace) : List Operation → List Influence
  | [] => []
  | operation :: rest =>
    let done := s.perform operation trace
    operation.influences (s.executed done.answer) ++ influences done.session done.trace rest

/-- Branches, as influences, train the bank one after another. -/
theorem foldl_resolved (bank : Bank) (ledger : Ledger) (events : List BranchEvent) :
    (events.map Influence.resolved).foldl Influence.apply (bank, ledger) = bank.after ledger events :=
  List.foldl_map

/-- Operations on the program train the bank with the branches that they resolve, if they execute
anything. -/
theorem Sound.trained_perform {s : Session} (sound : s.Sound) (operation : Operation)
    (trace : Trace) (active : operation.drives = true ∨ operation.manages = true) :
    let done := s.perform operation trace
    s.bank.after s.ledger ((s.executed done.answer).filterMap Execution.branch) =
      (done.session.bank, done.session.ledger) := by
  rcases active with drives | manages
  · obtain ⟨generation, moved⟩ := sound.moves_perform operation trace drives
    obtain ⟨events, -, tells⟩ := sound.tells_driven operation trace drives
    dsimp only
    rw [moved, ← tells.branches]
    exact tells.replayed
  · obtain ⟨nothing, -, bank, ledger⟩ := s.perform_of_manages operation trace manages
    dsimp only
    rw [executed_of_nothing nothing, bank, ledger]
    rfl

/-- What an operation does to the predictor and the account is done by its influences. -/
theorem Sound.influenced_perform {s : Session} (sound : s.Sound) (operation : Operation)
    (trace : Trace) :
    let done := s.perform operation trace
    (operation.influences (s.executed done.answer)).foldl Influence.apply (s.bank, s.ledger) =
      (done.session.bank, done.session.ledger) := by
  cases operation with
  | configure tableSize mode historyBits =>
    simp only [Session.perform, untraced, Session.configure, Operation.influences]
    split
    · rename_i geometry read
      rw [read]
      rfl
    · rename_i error read
      rw [read]
      rfl
  | reconfigure | resetAccuracy => rfl
  | step | stepTraced | run | advanceAutoRun | runPaced =>
    exact (foldl_resolved ..).trans (sound.trained_perform _ trace (.inl rfl))
  | compile | edit | resetExecution | beginAutoRun | cancelAutoRun =>
    exact (foldl_resolved ..).trans (sound.trained_perform _ trace (.inr rfl))

theorem Sound.influenced_after {s : Session} (sound : s.Sound) (trace : Trace)
    (operations : List Operation) :
    let now := s.after trace operations
    (s.influences trace operations).foldl Influence.apply (s.bank, s.ledger) =
      (now.1.bank, now.1.ledger) := by
  induction operations generalizing s trace with
  | nil => rfl
  | cons operation rest ih =>
    rw [influences, List.foldl_append, sound.influenced_perform operation trace, after_cons]
    exact ih (sound.perform operation trace).sound _

end Session

/-- Two sessions of the same seed, whatever their predictors, and two histories that differ in nothing
but what is done to the predictor: each operation gives the same answer, apart from predictions,
and leaves the same program in the same state and generation. Operations on the program leave the
predictor and the account as they are, and what these become is decided by the configurations, the
orders to forget and the branches alone. -/
theorem execution_and_prediction_independent (geometry other : Geometry) (seed : UInt64)
    (trace seen : Trace) (operations others : List Session.Operation)
    (same : operations.filter (!·.isSetting) = others.filter (!·.isSetting)) :
    let origin := Session.start geometry seed
    let now := origin.after trace operations
    origin.views trace operations = (Session.start other seed).views seen others ∧
      (∀ (s : Session) operation before, operation.manages = true →
        let done := s.perform operation before
        done.session.bank = s.bank ∧ done.session.ledger = s.ledger) ∧
      (origin.influences trace operations).foldl Session.Influence.apply (.fresh geometry, .empty) =
        (now.1.bank, now.1.ledger) := by
  intro origin now
  have alike : origin.Alike (Session.start other seed) := ⟨rfl, rfl, rfl⟩
  have views := alike.views trace seen operations
  refine ⟨?_, fun s operation before manages => ?_, ?_⟩
  · rw [views, same, ← (Session.Alike.refl _).views seen seen others]
  · exact (s.perform_of_manages operation before manages).2.2
  · exact (Session.sound_start geometry seed).influenced_after trace operations

/-- The accounts come apart, and nothing else does. -/
theorem execution_and_prediction_independent_reconfigured :
    let program : Program := ⟨[.guarded (.number 1) [.bind "a" (.ident "i") ⟨2, 2⟩] ⟨1, 3⟩]⟩
    let quick : Geometry := ⟨1, .oneBit, 0, by decide, by decide⟩
    let operations : List Session.Operation :=
      [.compile program, .run .nextBranch 5, .beginAutoRun 2, .advanceAutoRun ⟨2, 2⟩, .stepTraced]
    let others : List Session.Operation :=
      [.reconfigure quick, .compile program, .run .nextBranch 5, .configure 0 "2-bit" 0,
        .beginAutoRun 2, .resetAccuracy, .advanceAutoRun ⟨2, 2⟩, .stepTraced]
    let origin := Session.start .default 0
    operations.filter (!·.isSetting) = others.filter (!·.isSetting) ∧
      origin.views Array.empty operations = origin.views Array.empty others ∧
      (origin.after Array.empty operations).1.ledger.overall = ⟨2, 0⟩ ∧
      (origin.after Array.empty others).1.ledger.overall = ⟨1, 1⟩ := by
  intro program quick operations others origin
  have same : operations.filter (!·.isSetting) = others.filter (!·.isSetting) := rfl
  obtain ⟨views, -⟩ :=
    execution_and_prediction_independent .default .default 0 Array.empty Array.empty operations others same
  exact ⟨same, views, by decide +kernel, by decide +kernel⟩

end BranchLab
