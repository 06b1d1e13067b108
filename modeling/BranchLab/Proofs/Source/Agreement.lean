import BranchLab.Proofs.Source.Derivation

/-! The reader and the grammar agree on programs. Statements are read back and derived like
expressions; a block takes a turn for each of its statements, and every statement has a token to
take that does not close the block. -/

namespace BranchLab.Source

theorem Spells.head {tokens : Tokens} {statement : Statement} (spelled : Spells tokens statement) :
    ∃ word rest, tokens = ⟨.letWord, word⟩ :: rest ∨ tokens = ⟨.ifWord, word⟩ :: rest := by
  cases spelled with
  | bind word => exact ⟨word, _, .inl rfl⟩
  | guarded word => exact ⟨word, _, .inr rfl⟩

def EndsBlock (stop : Token → Bool) (tokens : Tokens) : Prop :=
  ∀ head rest, tokens = head :: rest → stop head.token = true

theorem readMany_of_ends {α : Type} (part : Tokens → Reading (α × Tokens)) {stop : Token → Bool}
    (turns : Nat) (found : List α) {tokens : Tokens} (ends : EndsBlock stop tokens) :
    readMany part stop turns found tokens = .ok (found.reverse, tokens) := by
  unfold readMany
  split
  · rename_i turns head rest
    rw [if_pos (ends head rest rfl)]
  · rfl

theorem readMany_next {α : Type} (part : Tokens → Reading (α × Tokens)) {stop : Token → Bool}
    (turns : Nat) (found : List α) {tokens : Tokens} (goes : ¬EndsBlock stop tokens) :
    readMany part stop (turns + 1) found tokens = (do
      let (next, rest) ← part tokens
      readMany part stop turns (next :: found) rest) := by
  obtain ⟨head, rest, rfl, on⟩ : ∃ head rest, tokens = head :: rest ∧ stop head.token = false := by
    simpa [EndsBlock] using goes
  rw [readMany, on]
  rfl

def Stops (stop : Token → Bool) : Prop := stop .letWord = false ∧ stop .ifWord = false

theorem Spells.goes {stop : Token → Bool} (stops : Stops stop) {tokens : Tokens}
    {statement : Statement} (spelled : Spells tokens statement) (rest : Tokens) :
    ¬EndsBlock stop (tokens ++ rest) := by
  intro ends
  obtain ⟨word, others, rfl | rfl⟩ := spelled.head
  · have stopped := ends ⟨.letWord, word⟩ (others ++ rest) rfl
    rw [stops.1] at stopped
    cases stopped
  · have stopped := ends ⟨.ifWord, word⟩ (others ++ rest) rfl
    rw [stops.2] at stopped
    cases stopped

section Completeness

variable {finish : Location}

/-- A statement is read back in front of any tokens, with `need` levels of room. -/
def StatementReadsBack (finish : Location) (tokens : Tokens) (statement : Statement)
    (need : Nat) : Prop :=
  ∀ room rest,
    Within need room (readStatement finish room (tokens ++ rest)) (.ok (statement, rest))

/-- A block reads its statements one after another as long as it has a turn for each. -/
theorem readMany_within (stop : Token → Bool) (stops : Stops stop)
    (parts : List (Tokens × Statement)) (spelled : ∀ part ∈ parts, Spells part.1 part.2)
    (reads : ∀ part ∈ parts, ∃ need, StatementReadsBack finish part.1 part.2 need) :
    ∃ need, ∀ room turns found rest, EndsBlock stop rest → parts.length ≤ turns →
      Within need room
        (readMany (readStatement finish room) stop turns found (parts.flatMap Prod.fst ++ rest))
        (.ok (found.reverse ++ parts.map Prod.snd, rest)) := by
  induction parts with
  | nil =>
    refine ⟨0, fun room turns found rest ends enough => ?_⟩
    have stopped := readMany_of_ends (readStatement finish room) turns found ends
    simp only [List.flatMap_nil, List.nil_append, List.map_nil, List.append_nil, stopped]
    exact Within.exact _
  | cons part parts ih =>
    obtain ⟨others, tail⟩ := ih (fun other inside => spelled other (by simp [inside]))
      (fun other inside => reads other (by simp [inside]))
    obtain ⟨first, head⟩ := reads part (by simp)
    refine ⟨max first others, fun room turns found rest ends enough => ?_⟩
    cases turns with
    | zero => simp at enough
    | succ turns =>
      rw [List.flatMap_cons, List.append_assoc]
      rw [readMany_next (readStatement finish room) turns found
        ((spelled part (by simp)).goes stops _)]
      have others := tail room turns (part.2 :: found) rest ends (by simpa using enough)
      have whole : found.reverse ++ (part :: parts).map Prod.snd =
          (part.2 :: found).reverse ++ parts.map Prod.snd := by simp
      rw [whole]
      exact (head room _).bind others

theorem length_le_of_spelled {parts : List (Tokens × Statement)}
    (spelled : ∀ part ∈ parts, Spells part.1 part.2) :
    parts.length ≤ (parts.flatMap Prod.fst).length := by
  induction parts with
  | nil => simp
  | cons part parts ih =>
    have others := ih fun other inside => spelled other (by simp [inside])
    obtain ⟨word, rest, same | same⟩ := (spelled part (by simp)).head <;>
      simp only [List.length_cons, List.flatMap_cons, List.length_append, same] <;> omega

theorem StatementReadsBack.bind {tokens : Tokens} {value : Expr} {need used : Nat}
    (word named assign last : Location) (name : String)
    (reads : ReadsBack finish .or tokens value need used) :
    StatementReadsBack finish
      (⟨.letWord, word⟩ :: ⟨.name name, named⟩ :: ⟨.assign, assign⟩ :: tokens ++
        [⟨.semicolon, last⟩])
      (.bind name value ⟨word.line, last.line⟩) need := by
  intro room rest
  simp only [List.cons_append, List.append_assoc, List.nil_append]
  rw [readStatement_bind, (takeName_ok finish).mpr ⟨named, rfl⟩, ok_bind]
  dsimp only
  rw [expect_cons, ok_bind]
  have ends : EndsChain BinaryOp.loosest (⟨.semicolon, last⟩ :: rest) :=
    endsChain_cons (by simp) last rest
  have read := (reads.alone room (Nat.le_refl 1) ends).andThen fun found =>
    expect finish .semicolon found.2 >>= fun after =>
      .ok (Statement.bind name found.1 ⟨word.line, after.1.line⟩, after.2)
  rw [expect_cons, ok_bind] at read
  exact read

theorem StatementReadsBack.guarded {tokens : Tokens} {cond : Expr}
    {body : List (Tokens × Statement)} (word opening closing brace last : Location)
    (guard : Derives .or tokens cond) (spelled : ∀ part ∈ body, Spells part.1 part.2)
    (reads : ∀ part ∈ body, ∃ need, StatementReadsBack finish part.1 part.2 need) :
    ∃ need, StatementReadsBack finish
      (⟨.ifWord, word⟩ :: ⟨.openParen, opening⟩ :: tokens ++ ⟨.closeParen, closing⟩ ::
        ⟨.openBrace, brace⟩ :: body.flatMap Prod.fst ++ [⟨.closeBrace, last⟩])
      (.guarded cond (body.map Prod.snd) ⟨word.line, last.line⟩) need := by
  obtain ⟨first, used, condition⟩ := guard.readsBack finish
  obtain ⟨others, block⟩ := readMany_within (· = .closeBrace) ⟨rfl, rfl⟩ body spelled reads
  refine ⟨max first others + 1, fun room rest => ?_⟩
  simp only [List.cons_append, List.append_assoc, List.nil_append]
  cases room with
  | zero =>
    rw [readStatement_tooDeep]
    exact Within.outside word _
  | succ room =>
    rw [readStatement_guarded, expect_cons, ok_bind]
    have ends : EndsChain BinaryOp.loosest (⟨.closeParen, closing⟩ :: ⟨.openBrace, brace⟩ ::
        (body.flatMap Prod.fst ++ ⟨.closeBrace, last⟩ :: rest)) :=
      endsChain_cons (by simp) closing _
    refine ((condition.alone room (Nat.le_refl 1) ends).bind ?_).deeper
    dsimp only
    rw [expect_cons, ok_bind]
    dsimp only
    rw [expect_cons, ok_bind]
    have closed : EndsBlock (· = .closeBrace) (⟨.closeBrace, last⟩ :: rest) := by
      intro head after same
      cases same
      rfl
    have enough : body.length ≤
        (body.flatMap Prod.fst ++ ⟨.closeBrace, last⟩ :: rest).length := by
      have length := length_le_of_spelled spelled
      simp only [List.length_append]
      omega
    have read := (block room _ [] _ closed enough).andThen fun found =>
      expect finish .closeBrace found.2 >>= fun after =>
        .ok (Statement.guarded cond found.1 ⟨word.line, after.1.line⟩, after.2)
    rw [expect_cons, ok_bind] at read
    exact read

theorem Spells.readsBack (finish : Location) {tokens : Tokens} {statement : Statement}
    (spelled : Spells tokens statement) : ∃ need, StatementReadsBack finish tokens statement need := by
  induction spelled with
  | bind word named assign last name valued =>
    obtain ⟨need, used, reads⟩ := valued.readsBack finish
    exact ⟨need, .bind word named assign last name reads⟩
  | guarded word opening closing brace last guard inside ih =>
    exact StatementReadsBack.guarded word opening closing brace last guard inside ih

end Completeness

section Soundness

variable {finish : Location} {room : Nat} {tokens rest : Tokens}

def StatementsSpell (finish : Location) (room : Nat) : Prop :=
  ∀ tokens statement rest, readStatement finish room tokens = .ok (statement, rest) →
    ∃ front, tokens = front ++ rest ∧ Spells front statement

theorem readMany_spells (statements : StatementsSpell finish room) {stop : Token → Bool}
    {turns : Nat} {found block : List Statement} (enough : tokens.length ≤ turns)
    (read : readMany (readStatement finish room) stop turns found tokens = .ok (block, rest)) :
    ∃ parts : List (Tokens × Statement), (∀ part ∈ parts, Spells part.1 part.2) ∧
      tokens = parts.flatMap Prod.fst ++ rest ∧ block = found.reverse ++ parts.map Prod.snd ∧
      EndsBlock stop rest := by
  induction turns generalizing found tokens with
  | zero =>
    have empty : tokens = [] := List.length_eq_zero_iff.mp (Nat.le_zero.mp enough)
    subst empty
    cases read
    exact ⟨[], by simp, rfl, by simp, fun head rest same => nomatch same⟩
  | succ turns ih =>
    by_cases ends : EndsBlock stop tokens
    · rw [readMany_of_ends _ (turns + 1) found ends] at read
      cases read
      exact ⟨[], by simp, rfl, by simp, ends⟩
    · rw [readMany_next _ turns found ends] at read
      obtain ⟨⟨statement, after⟩, first, others⟩ := bind_ok.mp read
      obtain ⟨front, rfl, spelled⟩ := statements _ _ _ first
      have shorter : after.length ≤ turns := by
        obtain ⟨word, tail, rfl | rfl⟩ := spelled.head
        all_goals
          simp only [List.cons_append, List.length_cons, List.length_append] at enough
          omega
      obtain ⟨parts, all, rfl, same, last⟩ := ih shorter others
      refine ⟨(front, statement) :: parts, ?_, by simp, by simpa using same, last⟩
      intro part member
      rcases List.mem_cons.mp member with rfl | inside
      · exact spelled
      · exact all part inside

/-- A guard leaves one level less for what it opens. -/
theorem statementsSpell (finish : Location) (room : Nat) : StatementsSpell finish room := by
  induction room using Nat.strongRecOn with
  | ind room below =>
    intro tokens statement rest read
    cases statementReads read with
    | bind word named assign last name valued =>
      obtain ⟨front, rfl, ends, derived⟩ := derives_of_readInfix (by decide) valued
      exact ⟨_, by simp, .bind word named assign last name derived⟩
    | @guarded word opening closing brace last less _ _ _ _ _ guard block =>
      obtain ⟨front, rfl, ends, derived⟩ := derives_of_readInfix (by decide) guard
      obtain ⟨parts, spelled, rfl, rfl, stopped⟩ :=
        readMany_spells (below less (Nat.lt_succ_self less)) (Nat.le_refl _) block
      exact ⟨_, by simp, .guarded word opening closing brace last derived spelled⟩

theorem readProgram_spells {program : Program}
    (read : readProgram finish tokens = .ok program) : SpellsProgram tokens program := by
  obtain ⟨⟨statements, after⟩, block, same⟩ := bind_ok.mp read
  cases same
  obtain ⟨parts, spelled, whole, same, ends⟩ :=
    readMany_spells (statementsSpell finish maxNesting) (Nat.le_refl _) block
  cases after with
  | nil => exact ⟨parts, spelled, by simpa using whole, same⟩
  | cons head after => exact nomatch ends head after rfl

end Soundness

def readProgramWithin (finish : Location) (room : Nat) (tokens : Tokens) : Reading Program := do
  let (statements, _) ←
    readMany (readStatement finish room) (fun _ => false) tokens.length [] tokens
  return ⟨statements⟩

theorem readProgram_eq (finish : Location) (tokens : Tokens) :
    readProgram finish tokens = readProgramWithin finish maxNesting tokens := rfl

/-- A program of one statement takes as much room as the statement. -/
theorem readProgramWithin_single {finish : Location} {tokens : Tokens} {statement : Statement}
    {need : Nat} (begins : tokens ≠ []) (reads : StatementReadsBack finish tokens statement need)
    (room : Nat) : Within need room (readProgramWithin finish room tokens) (.ok ⟨[statement]⟩) := by
  obtain ⟨head, tail, rfl⟩ := List.exists_cons_of_ne_nil begins
  have goes : ¬EndsBlock (fun _ => false) (head :: tail) := fun ends => nomatch ends head tail rfl
  have ends : EndsBlock (fun _ => false) [] := fun head rest same => nomatch same
  have read := reads room []
  rw [List.append_nil] at read
  have block := read.andThen fun found =>
    readMany (readStatement finish room) (fun _ => false) tail.length [found.1] found.2
  rw [readMany_of_ends (readStatement finish room) tail.length [statement] ends] at block
  rw [readProgramWithin, List.length_cons,
    readMany_next (readStatement finish room) tail.length [] goes]
  exact block.andThen _

theorem readProgram_of_spells (finish : Location) {tokens : Tokens} {program : Program}
    (spelled : SpellsProgram tokens program) : ∃ need, ∀ room,
      Within need room (readProgramWithin finish room tokens) (.ok program) := by
  obtain ⟨parts, all, rfl, same⟩ := spelled
  obtain ⟨need, read⟩ := readMany_within (fun _ => false) ⟨rfl, rfl⟩ parts all
    fun part member => (all part member).readsBack finish
  refine ⟨need, fun room => ?_⟩
  have block := read room (parts.flatMap Prod.fst).length [] []
    (fun head rest same => nomatch same) (length_le_of_spelled all)
  rw [List.append_nil, List.reverse_nil, List.nil_append, ← same] at block
  exact block.andThen _

/-- With enough room for two derivations the reader gives the trees of both. -/
theorem SpellsProgram.unique {tokens : Tokens} {program other : Program}
    (spelled : SpellsProgram tokens program) (again : SpellsProgram tokens other) :
    program = other := by
  obtain ⟨need, read⟩ := readProgram_of_spells .start spelled
  obtain ⟨more, reread⟩ := readProgram_of_spells .start again
  have first := (read (max need more)).1 (by omega)
  have second := (reread (max need more)).1 (by omega)
  exact Except.ok.inj (first.symm.trans second)

theorem readInfix_of_derives (finish : Location) {layer inner : Layer} {signs : List BinaryOp}
    (joined : layer.production = some (signs, inner)) {op : BinaryOp} (signed : op ∈ signs)
    {front rest : Tokens} {e : Expr} (derived : Derives layer front e)
    (ends : EndsChain op.precedence rest) : ∃ need, ∀ room,
      Within need room (readInfix finish room op.precedence (front ++ rest)) (.ok (e, rest)) := by
  obtain ⟨need, used, reads⟩ := derived.readsBack finish
  have precedence := (Layer.mem_signs joined op).mp signed
  exact ⟨need, fun room => reads.alone room (Nat.le_of_eq precedence) ends⟩

theorem derives_of_climbing {finish : Location} {layer inner : Layer} {signs : List BinaryOp}
    (joined : layer.production = some (signs, inner)) {op : BinaryOp} (signed : op ∈ signs)
    {room : Nat} {tokens rest : Tokens} {e : Expr}
    (read : readInfix finish room op.precedence tokens = .ok (e, rest)) :
    ∃ front, tokens = front ++ rest ∧ Derives layer front e ∧ EndsChain op.precedence rest := by
  have bound : op.precedence ≤ 11 := by cases op <;> decide
  obtain ⟨front, split, ends, derived⟩ := derives_of_readInfix bound read
  rw [(Layer.mem_signs joined op).mp signed, Layer.ofLevel_of_production joined] at derived
  exact ⟨front, split, derived, ends⟩

theorem Derives.unique {layer : Layer} {tokens : Tokens} {e other : Expr}
    (derived : Derives layer tokens e) (again : Derives layer tokens other) : e = other := by
  obtain ⟨need, used, reads⟩ := derived.readsBack .start
  obtain ⟨more, spent, rereads⟩ := again.readsBack .start
  have first := (reads.alone (max need more) (Nat.le_refl _) (endsChain_nil _)).1 (by omega)
  have second := (rereads.alone (max need more) (Nat.le_refl _) (endsChain_nil _)).1 (by omega)
  have same := Except.ok.inj (first.symm.trans second)
  exact congrArg Prod.fst same

/-- The reader takes exactly what the grammar derives and gives the tree of the derivation, as far
as the room for nesting allows, and no tokens have two trees. Climbing by the precedence of an
operator takes the expressions of the layer whose signs it is among, each to the end of its chain. -/
theorem reader_agrees_with_grammar (finish : Location) (tokens : Tokens) :
    (∀ program, SpellsProgram tokens program →
      (readProgram finish tokens = .ok program ∨
        ∃ place, readProgram finish tokens = .error ⟨place, .nestingTooDeep⟩) ∧
      ∃ need, ∀ room, Within need room (readProgramWithin finish room tokens) (.ok program)) ∧
    (∀ program, readProgram finish tokens = .ok program → SpellsProgram tokens program) ∧
    (∀ program other, SpellsProgram tokens program → SpellsProgram tokens other →
      program = other) ∧
    (∀ layer e other, Derives layer tokens e → Derives layer tokens other → e = other) ∧
    ∀ layer inner signs, layer.production = some (signs, inner) → ∀ op ∈ signs, ∀ e rest,
      (∀ front, tokens = front ++ rest → Derives layer front e → EndsChain op.precedence rest →
        ∃ need, ∀ room,
          Within need room (readInfix finish room op.precedence tokens) (.ok (e, rest))) ∧
      ∀ room, readInfix finish room op.precedence tokens = .ok (e, rest) →
        ∃ front, tokens = front ++ rest ∧ Derives layer front e ∧
          EndsChain op.precedence rest := by
  refine ⟨?_, fun program read => readProgram_spells read,
    fun program other spelled again => spelled.unique again,
    fun layer e other derived again => derived.unique again, ?_⟩
  · intro program spelled
    obtain ⟨need, read⟩ := readProgram_of_spells finish spelled
    refine ⟨?_, need, read⟩
    rw [readProgram_eq]
    by_cases enough : need ≤ maxNesting
    · exact .inl ((read maxNesting).1 enough)
    · exact .inr ((read maxNesting).2 (Nat.lt_of_not_le enough))
  · intro layer inner signs joined op signed e rest
    refine ⟨?_, fun room read => derives_of_climbing joined signed read⟩
    intro front split derived ends
    rw [split]
    exact readInfix_of_derives finish joined signed derived ends

theorem reader_agrees_with_grammar_difference :
    let tree : Expr :=
      .binary .sub (.binary .sub (.number 9) (.binary .mul (.number 2) (.number 3))) (.number 1)
    let operation : Tokens := [.number 9, .op .sub, .number 2, .op .mul, .number 3, .op .sub,
      .number 1].map fun token => ⟨token, .start⟩
    let tokens : Tokens := [.letWord, .name "r", .assign].map (fun token => ⟨token, .start⟩) ++
      operation ++ [⟨.semicolon, .start⟩]
    let program : Program := ⟨[.bind "r" tree ⟨1, 1⟩]⟩
    SpellsProgram tokens program ∧ readProgram .start tokens = .ok program ∧
      (∀ other, SpellsProgram tokens other → program = other) ∧
      Derives .additive operation tree ∧ (∀ other, Derives .additive operation other → tree = other) ∧
      ∃ need, ∀ room, Within need room
        (readInfix .start room BinaryOp.sub.precedence operation) (.ok (tree, [])) := by
  intro tree operation tokens program
  have nine : Derives .additive [⟨.number 9, .start⟩] (.number 9) :=
    .single rfl (.single rfl (.plain (.number .start (by decide))))
  have two : Derives .term [⟨.number 2, .start⟩] (.number 2) :=
    .single rfl (.plain (.number .start (by decide)))
  have one : Derives .term [⟨.number 1, .start⟩] (.number 1) :=
    .single rfl (.plain (.number .start (by decide)))
  have product := two.fold .start rfl (by decide : BinaryOp.mul ∈ [.mul, .div, .rem])
    (.plain (.number .start (by decide : 3 ≤ 2 ^ 63 - 1)))
  have first := nine.fold .start rfl (by decide : BinaryOp.sub ∈ [.add, .sub]) product
  have derived : Derives .additive operation tree :=
    first.fold .start rfl (by decide : BinaryOp.sub ∈ [.add, .sub]) one
  have whole : Derives .or operation tree := Derives.loosen (by decide : 1 ≤ 9) derived
  have spelled : SpellsProgram tokens program := by
    refine ⟨[(tokens, .bind "r" tree ⟨1, 1⟩)], ?_, (List.append_nil tokens).symm, rfl⟩
    intro part member
    rw [List.mem_singleton.mp member]
    exact .bind .start .start .start .start "r" whole
  obtain ⟨given, taken, single, alike, climbing⟩ := reader_agrees_with_grammar .start tokens
  have read : readProgram .start tokens = .ok program := by
    rcases (given program spelled).1 with read | ⟨place, failed⟩
    · exact read
    · have computed : readProgram .start tokens = .ok program := by decide +kernel
      rw [failed] at computed
      cases computed
  refine ⟨taken program read, read, fun other again => single program other spelled again, derived,
    ?_, ?_⟩
  · exact fun other again =>
      (reader_agrees_with_grammar .start operation).2.2.2.1 _ tree other derived again
  · exact ((reader_agrees_with_grammar .start operation).2.2.2.2 _ _ _ rfl .sub (by decide) tree
      []).1 operation (List.append_nil operation).symm derived (endsChain_nil _)

end BranchLab.Source
