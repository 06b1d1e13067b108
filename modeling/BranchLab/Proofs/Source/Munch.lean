import BranchLab.Proofs.Source.Lexemes

/-! What is read at a character is as long as it can be: no token is read from a lexeme together with
the character behind it. Reading looks at no more than that one character, so what has been read stays
the same when the text is cut off behind it. -/

namespace BranchLab.Source

open Text (isBlank)

def IsLexeme (text : List Char) : Prop :=
  ∃ token : Token, token.ReadFrom text ∧ ∀ name, token = .name name → IsName name

section Forms

variable {first : Char} {more : List Char}

theorem IsLexeme.form (lexeme : IsLexeme (first :: more)) :
    (∀ c ∈ first :: more, c.isDigit) ∨ IsWord (first :: more) ∨
      (∃ token, more = [] ∧ Token.ofChar first = some token) ∨
      ∃ second token, more = [second] ∧ Token.ofPair first second = some token := by
  obtain ⟨token, read, named⟩ := lexeme
  have spelled {keyword : List Char} (same : first :: more = keyword) (word : IsWord keyword) :
      IsWord (first :: more) := same ▸ word
  cases token with
  | number value => exact .inl read.2.1
  | name text =>
    obtain ⟨word, -⟩ := named text rfl
    exact .inr (.inl (spelled read word))
  | letWord | ifWord | randWord => exact .inr (.inl (spelled read ⟨rfl, rfl⟩))
  | op sign =>
    cases sign with
    | eq | ne | le | ge | shl | shr | and | or =>
      obtain ⟨rfl, rfl⟩ := List.cons.inj read
      exact .inr (.inr (.inr ⟨_, _, rfl, rfl⟩))
    | mul | div | rem | add | sub | lt | gt | bitAnd | bitXor | bitOr =>
      obtain ⟨rfl, rfl⟩ := List.cons.inj read
      exact .inr (.inr (.inl ⟨_, rfl, rfl⟩))
  | assign | not | bitNot | openParen | closeParen | openBrace | closeBrace | semicolon =>
    obtain ⟨rfl, rfl⟩ := List.cons.inj read
    exact .inr (.inr (.inl ⟨_, rfl, rfl⟩))

/-- The first character tells whether it can begin a token at all. -/
theorem IsLexeme.begins (lexeme : IsLexeme (first :: more)) :
    first.isDigit ∨ startsWord first ∨ ∃ token, Token.ofChar first = some token := by
  rcases lexeme.form with digits | word | ⟨token, -, single⟩ | ⟨second, token, -, pair⟩
  · exact .inl (digits first List.mem_cons_self)
  · exact .inr (.inl word.1)
  · exact .inr (.inr ⟨token, single⟩)
  · obtain ⟨shorter, single, -⟩ := Token.of_ofPair pair
    exact .inr (.inr ⟨shorter, single⟩)

/-- The last character of a lexeme belongs to it with what stands before it. -/
theorem IsLexeme.joined {c : Char} (lexeme : IsLexeme (first :: more ++ [c])) :
    (first.isDigit ∧ c.isDigit) ∨ (startsWord first ∧ continuesWord c) ∨
      more = [] ∧ ∃ token, Token.ofPair first c = some token := by
  have last : c ∈ more ++ [c] := List.mem_append_right more List.mem_cons_self
  rcases lexeme.form with digits | word | ⟨token, none, -⟩ | ⟨second, token, same, pair⟩
  · exact .inl ⟨digits first List.mem_cons_self, digits c (List.mem_cons_of_mem first last)⟩
  · exact .inr (.inl ⟨word.1, List.all_eq_true.mp word.2 c last⟩)
  · exact absurd none (List.append_ne_nil_of_right_ne_nil more (List.cons_ne_nil c []))
  · obtain ⟨rfl, rfl⟩ : more = [] ∧ c = second := by
      simpa [List.append_eq_singleton_iff] using same
    exact .inr (.inr ⟨rfl, token, pair⟩)

end Forms

section Reading

variable {first c : Char} {rest : List Char} {token : Token} {more : Nat}

theorem next_of_takeWhile {p : Char → Bool}
    (next : c ∈ (rest.drop (rest.takeWhile p).length).head?) : p c = false := by
  induction rest with
  | nil => cases next
  | cons other rest ih =>
    rw [List.takeWhile_cons] at next
    split at next
    · exact ih next
    · rename_i stops
      cases next
      simpa using stops

/-- A symbol of two characters begins with no digit and no letter. -/
theorem not_startsWord_of_ofPair (pair : Token.ofPair first c = some token) :
    ¬first.isDigit ∧ ¬startsWord first := by
  obtain ⟨shorter, single, -⟩ := Token.of_ofPair pair
  obtain ⟨-, digit, letter⟩ := Token.of_ofChar single
  simp [digit, letter]

/-- A token takes up as many characters as it can. -/
theorem not_isLexeme_of_read (read : Lexeme.read first rest = .token token more)
    (next : c ∈ (rest.drop more).head?) : ¬IsLexeme (first :: rest.take more ++ [c]) := by
  intro lexeme
  have joined := lexeme.joined
  have begins := begins_read first rest
  rw [read] at begins
  cases begins with
  | number digit fits =>
    have stops := next_of_takeWhile next
    rcases joined with ⟨-, joins⟩ | ⟨starts, -⟩ | ⟨-, pair, same⟩
    · exact absurd joins (by simp [stops])
    · exact absurd digit (by simp [isDigit_of_startsWord starts])
    · exact (not_startsWord_of_ofPair same).1 digit
  | word starts =>
    have stops := next_of_takeWhile next
    rcases joined with ⟨digit, -⟩ | ⟨-, joins⟩ | ⟨-, pair, same⟩
    · exact absurd digit (by simp [isDigit_of_startsWord starts])
    · exact absurd joins (by simp [stops])
    · exact (not_startsWord_of_ofPair same).2 starts
  | pair there pair =>
    rcases joined with ⟨digit, -⟩ | ⟨starts, -⟩ | ⟨none, -⟩
    · exact (not_startsWord_of_ofPair pair).1 digit
    · exact (not_startsWord_of_ofPair pair).2 starts
    · cases rest with
      | nil => cases there
      | cons second rest => cases none
  | single single alone =>
    obtain ⟨-, digit, letter⟩ := Token.of_ofChar single
    rcases joined with ⟨begins, -⟩ | ⟨begins, -⟩ | ⟨-, pair, same⟩
    · exact absurd begins (by simp [digit])
    · exact absurd begins (by simp [letter])
    · cases (alone c next).symm.trans same

/-- A scan breaks off at a character that begins no token, or at a number out of range. -/
theorem fault_cases {cause : Cause} (read : Lexeme.read first rest = .fault cause) :
    (cause = .unexpectedCharacter first ∧ isBlank first = false ∧
      ∀ more, ¬IsLexeme (first :: more)) ∨
    ∃ digits after, first :: rest = digits ++ after ∧ (∀ c ∈ digits, c.isDigit) ∧
      (∀ c ∈ after.head?, c.isDigit = false) ∧ numberLimit < Text.digitsValue digits ∧
      cause = .integerOutOfRange (String.ofList digits) := by
  have begins := begins_read first rest
  rw [read] at begins
  cases begins with
  | unknown visible digit letter unknown =>
    refine .inl ⟨rfl, visible, fun more lexeme => ?_⟩
    rcases lexeme.begins with begins | begins | ⟨token, begins⟩
    · exact absurd begins (by simp [digit])
    · exact absurd begins (by simp [letter])
    · cases unknown.symm.trans begins
  | tooLarge digit large =>
    refine .inr ⟨_, rest.drop (rest.takeWhile Char.isDigit).length, ?_, digits_of_first digit rest,
      fun c next => next_of_takeWhile next, Nat.lt_of_not_le large, rfl⟩
    conv_lhs => rw [cut_lexeme first rest (rest.takeWhile Char.isDigit).length]
    rw [take_length_takeWhile]

/-- What stands between tokens is a blank, or a comment up to the end of its line. -/
theorem read_trivia (read : Lexeme.read first rest = .trivia more) :
    (isBlank first ∧ more = 0) ∨ ∃ line, first :: rest.take more = '/' :: '/' :: line ∧ '\n' ∉ line ∧
      ∀ c ∈ (rest.drop more).head?, c = '\n' := by
  have begins := begins_read first rest
  rw [read] at begins
  cases begins with
  | blank blank => exact .inl ⟨blank, rfl⟩
  | comment slash next =>
    subst slash
    refine .inr ?_
    cases rest with
    | nil => cases next
    | cons second rest =>
      cases next
      refine ⟨rest.takeWhile (· ≠ '\n'), ?_, fun feed => ?_, fun c next => ?_⟩
      · rw [take_length_takeWhile]
        simp
      · exact absurd (List.all_eq_true.mp List.all_takeWhile '\n' feed) (by simp)
      · simpa using next_of_takeWhile next

end Reading

section Cutting

variable {kept cut : List Char}

theorem takeWhile_cut {p : Char → Bool} (fits : ((kept ++ cut).takeWhile p).length ≤ kept.length) :
    kept.takeWhile p = (kept ++ cut).takeWhile p := by
  induction kept with
  | nil => exact (List.eq_nil_of_length_eq_zero (Nat.le_zero.mp fits)).symm
  | cons c kept ih =>
    rw [List.cons_append, List.takeWhile_cons] at fits ⊢
    rw [List.takeWhile_cons]
    split
    · rename_i holds
      rw [if_pos holds] at fits
      rw [ih (Nat.le_of_succ_le_succ fits)]
    · rfl

/-- What begins at a character is read as well in a text that is cut off behind it. -/
theorem read_cut {first : Char} {lexeme : Lexeme} (read : Lexeme.read first (kept ++ cut) = lexeme)
    (fits : lexeme.Inside kept.length) (unbroken : ∀ cause, lexeme ≠ .fault cause) :
    Lexeme.read first kept = lexeme := by
  have head {c : Char} (next : kept.head? = some c) : (kept ++ cut).head? = some c := by
    rw [List.head?_append, next]
    rfl
  have begins := begins_read first (kept ++ cut)
  rw [read] at begins
  apply Lexeme.Begins.read
  cases begins with
  | blank blank => exact .blank blank
  | comment slash next =>
    have line := takeWhile_cut fits
    rw [← line]
    refine .comment slash ?_
    cases kept with
    | cons second kept => exact next
    | nil =>
      rw [List.nil_append] at next line
      cases cut with
      | nil => cases next
      | cons second cut =>
        cases next
        cases line
  | number digit small =>
    rw [← takeWhile_cut fits] at small ⊢
    exact .number digit small
  | word starts =>
    rw [← takeWhile_cut fits]
    exact .word starts
  | pair next pair =>
    cases kept with
    | nil => exact absurd fits (Nat.not_succ_le_zero 0)
    | cons second kept => exact .pair next pair
  | single single alone code =>
    exact .single single (fun c next => alone c (head next)) fun slash next => code slash (head next)
  | tooLarge | unknown => exact absurd rfl (unbroken _)

end Cutting

end BranchLab.Source
