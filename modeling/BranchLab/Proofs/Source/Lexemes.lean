import BranchLab.Proofs.Source.Joining

/-! A text cut into what its tokens are read from and what stands between them. Scanning goes through
a text lexeme by lexeme, and each token, as well as the fault that ends a scan, is reported at the
place of the first character of its own. -/

namespace BranchLab.Source

/-- The characters from which a token is read: digits of its value, or its spelling. -/
def Token.ReadFrom (text : List Char) : Token → Prop
  | number value => text ≠ [] ∧ (∀ c ∈ text, c.isDigit) ∧ Text.digitsValue text = value
  | token => text = token.spelling.toList

/-- The characters at which no token can be read: one that begins none, or the digits of a number out
of range. -/
inductive Cause.ReadFrom : List Char → Cause → Prop
  | character (c : Char) : ReadFrom [c] (.unexpectedCharacter c)
  | digits {text : List Char} (nonempty : text ≠ []) (digits : ∀ c ∈ text, c.isDigit) :
      ReadFrom text (.integerOutOfRange (String.ofList text))

section Reading

variable {first : Char} {rest : List Char} {token : Token} {more : Nat}

theorem take_length_takeWhile (p : Char → Bool) (text : List Char) :
    text.take (text.takeWhile p).length = text.takeWhile p :=
  (List.prefix_iff_eq_take.mp (List.takeWhile_prefix p)).symm

theorem ofWord_written {text : List Char} (word : IsWord text) :
    (Token.ofWord (String.ofList text)).Written ∧
      (Token.ofWord (String.ofList text)).ReadFrom text := by
  have spelled {keyword : String} (same : String.ofList text = keyword) : text = keyword.toList := by
    rw [← same, String.toList_ofList]
  unfold Token.ofWord
  split
  · exact ⟨trivial, spelled ‹_›⟩
  split
  · exact ⟨trivial, spelled ‹_›⟩
  split
  · exact ⟨trivial, spelled ‹_›⟩
  · rename_i bind guard draw
    refine ⟨⟨?_, by simp [keywords, bind, guard, draw]⟩, String.toList_ofList.symm⟩
    rw [String.toList_ofList]
    exact word

theorem digits_of_first (digit : first.isDigit) (rest : List Char) :
    ∀ c ∈ first :: rest.takeWhile Char.isDigit, c.isDigit := by
  intro c member
  rcases List.mem_cons.mp member with rfl | inside
  · exact digit
  · exact List.all_eq_true.mp List.all_takeWhile c inside

theorem token_of_read (read : Lexeme.read first rest = .token token more) :
    token.Written ∧ token.ReadFrom (first :: rest.take more) := by
  have begins := begins_read first rest
  rw [read] at begins
  cases begins with
  | number digit fits =>
    rw [take_length_takeWhile]
    exact ⟨fits, List.cons_ne_nil _ _, digits_of_first digit rest, rfl⟩
  | word starts =>
    rw [take_length_takeWhile]
    exact ofWord_written ⟨starts, List.all_takeWhile⟩
  | @pair second _ next pair =>
    cases rest with
    | nil => cases next
    | cons second rest =>
      cases next
      unfold Token.ofPair at pair
      split at pair <;> cases pair <;> exact ⟨trivial, rfl⟩
  | single single =>
    unfold Token.ofChar at single
    split at single <;> cases single <;> exact ⟨trivial, rfl⟩

theorem fault_of_read {cause : Cause} (read : Lexeme.read first rest = .fault cause) :
    ∃ part back, first :: rest = part ++ back ∧ cause.ReadFrom part ∧ part ≠ [] ∧ '\n' ∉ part := by
  have begins := begins_read first rest
  rw [read] at begins
  cases begins with
  | unknown visible =>
    refine ⟨[first], rest, rfl, .character first, List.cons_ne_nil _ _, fun feed => ?_⟩
    obtain rfl := List.mem_singleton.mp feed
    exact absurd visible (by decide)
  | tooLarge digit =>
    have digits := digits_of_first digit rest
    refine ⟨first :: rest.takeWhile Char.isDigit, rest.dropWhile Char.isDigit, ?_,
      .digits (List.cons_ne_nil _ _) digits, List.cons_ne_nil _ _, fun feed => ?_⟩
    · rw [List.cons_append, List.takeWhile_append_dropWhile]
    · exact absurd (digits '\n' feed) (by decide)

theorem Token.ReadFrom.nonempty {text : List Char} (written : token.Written)
    (read : token.ReadFrom text) : text ≠ [] := by
  cases token with
  | number value => exact read.1
  | _ =>
    obtain ⟨first, more, spelled, -⟩ := read_spelling written (apart_nil _)
    obtain rfl : text = _ := read
    rw [spelled]
    exact List.cons_ne_nil first more

theorem Token.ReadFrom.feedless {text : List Char} (written : token.Written)
    (read : token.ReadFrom text) : '\n' ∉ text := by
  cases token with
  | number value => exact fun feed => absurd (read.2.1 '\n' feed) (by decide)
  | _ =>
    obtain rfl : text = _ := read
    exact feed_not_mem_spelling written

end Reading

inductive Scans : Location → List Char → Except SyntaxError Tokens → Prop
  | done (place : Location) : Scans place [] (.ok [])
  | trivia {place : Location} {first : Char} {rest : List Char} {more : Nat}
      {answer : Except SyntaxError Tokens} (read : Lexeme.read first rest = .trivia more)
      (others : Scans (place.across (first :: rest.take more)) (rest.drop more) answer) :
      Scans place (first :: rest) answer
  | token {place : Location} {first : Char} {rest : List Char} {token : Token} {more : Nat}
      {answer : Except SyntaxError Tokens} (read : Lexeme.read first rest = .token token more)
      (others : Scans (place.across (first :: rest.take more)) (rest.drop more) answer) :
      Scans place (first :: rest) (answer.map fun tokens => ⟨token, place⟩ :: tokens)
  | fault {place : Location} {first : Char} {rest : List Char} {cause : Cause}
      (read : Lexeme.read first rest = .fault cause) :
      Scans place (first :: rest) (.error ⟨place, cause⟩)

theorem exists_scans (place : Location) (found : List Located) (text : List Char) :
    ∃ answer, Scans place text answer ∧ scanFrom Lexeme.read place 0 found text =
      answer.map fun tokens => found.reverse ++ tokens := by
  induction size : text.length using Nat.strongRecOn generalizing place found text with
  | ind size ih =>
    subst size
    cases text with
    | nil => exact ⟨.ok [], .done place, by simp [scanFrom, Except.map]⟩
    | cons first rest =>
      have shorter (more : Nat) : (rest.drop more).length < (first :: rest).length := by
        rw [List.length_drop, List.length_cons]
        omega
      rw [scanFrom]
      cases read : Lexeme.read first rest with
      | trivia more =>
        dsimp only
        rw [scanFrom_pending]
        obtain ⟨answer, scans, same⟩ := ih _ (shorter more) _ found _ rfl
        exact ⟨answer, .trivia read scans, same⟩
      | token token more =>
        dsimp only
        rw [scanFrom_pending]
        obtain ⟨answer, scans, same⟩ := ih _ (shorter more) _ (⟨token, place⟩ :: found) _ rfl
        refine ⟨_, .token read scans, same.trans ?_⟩
        cases answer <;> simp [Except.map]
      | fault cause => exact ⟨_, .fault read, rfl⟩

theorem scans_scan (text : List Char) : Scans .start text (scan text) := by
  obtain ⟨answer, scans, same⟩ := exists_scans .start [] text
  have whole : scan text = answer := by
    rw [scan, same]
    cases answer <;> simp [Except.map]
  exact whole ▸ scans

/-- The characters stand in a text that begins at `start`, the first of them at `place`. -/
def StandsIn (start : Location) (text part : List Char) (place : Location) : Prop :=
  ∃ front back, text = front ++ (part ++ back) ∧ start.across front = place

section Standing

variable {start place : Location} {text part : List Char}

theorem StandsIn.behind {front : List Char} (stands : StandsIn (start.across front) text part place) :
    StandsIn start (front ++ text) part place := by
  obtain ⟨before, back, rfl, rfl⟩ := stands
  exact ⟨front ++ before, back, by simp, Location.across_append ..⟩

theorem cut_lexeme (first : Char) (rest : List Char) (more : Nat) :
    first :: rest = (first :: rest.take more) ++ rest.drop more := by
  rw [List.cons_append, List.take_append_drop]

/-- Every token is read from characters that stand at its place. -/
theorem Scans.token_stands {answer : Except SyntaxError Tokens} (scans : Scans start text answer)
    {tokens : Tokens} (scanned : answer = .ok tokens) {located : Located}
    (member : located ∈ tokens) : ∃ part, StandsIn start text part located.place ∧
      located.token.ReadFrom part ∧ part ≠ [] ∧ '\n' ∉ part := by
  induction scans generalizing tokens with
  | done place =>
    cases scanned
    cases member
  | trivia read others ih =>
    obtain ⟨part, stands, found⟩ := ih scanned member
    rw [cut_lexeme]
    exact ⟨part, stands.behind, found⟩
  | @token place first rest token more answer read others ih =>
    cases answer with
    | error error => cases scanned
    | ok tokens =>
      cases scanned
      rcases List.mem_cons.mp member with rfl | inside
      · obtain ⟨written, found⟩ := token_of_read read
        exact ⟨_, ⟨[], rest.drop more, cut_lexeme .., rfl⟩, found, List.cons_ne_nil _ _,
          found.feedless written⟩
      · obtain ⟨part, stands, found⟩ := ih rfl inside
        rw [cut_lexeme first rest more]
        exact ⟨part, stands.behind, found⟩
  | fault read => cases scanned

theorem Scans.fault_stands {answer : Except SyntaxError Tokens} (scans : Scans start text answer)
    {error : SyntaxError} (failed : answer = .error error) :
    ∃ part, StandsIn start text part error.place ∧ error.cause.ReadFrom part ∧ part ≠ [] ∧
      '\n' ∉ part := by
  induction scans with
  | done place => cases failed
  | trivia read others ih =>
    obtain ⟨part, stands, found⟩ := ih failed
    rw [cut_lexeme]
    exact ⟨part, stands.behind, found⟩
  | @token place first rest token more answer read others ih =>
    cases answer with
    | error cause =>
      cases failed
      obtain ⟨part, stands, found⟩ := ih rfl
      rw [cut_lexeme first rest more]
      exact ⟨part, stands.behind, found⟩
    | ok tokens => cases failed
  | fault read =>
    cases failed
    obtain ⟨part, back, same, found⟩ := fault_of_read read
    exact ⟨part, ⟨[], back, same, rfl⟩, found⟩

end Standing

end BranchLab.Source
