import Mathlib.Logic.Relation
import BranchLab.Proofs.Source.Munch

/-! A text as a row of tiles: gaps of blanks and comments, and between them the lexemes of its tokens.
A scanned text has one tiling that carries its tokens at their places, every lexeme of it is as long
as it can be, and where a scan breaks off, the text before is scanned. -/

namespace BranchLab.Source

open Text (isBlank)

namespace Location

def Before (place other : Location) : Prop :=
  place.line < other.line ∨ (place.line = other.line ∧ place.column < other.column)

theorem Before.trans {place other third : Location} (first : place.Before other)
    (second : other.Before third) : place.Before third := by
  simp only [Before] at *
  omega

theorem before_irrefl (place : Location) : ¬place.Before place := by simp [Before]

theorem before_after (place : Location) (c : Char) : place.Before (place.after c) := by
  unfold after
  split <;> simp [Before]

theorem before_across (place : Location) {text : List Char} (nonempty : text ≠ []) :
    place.Before (place.across text) := by
  induction text generalizing place with
  | nil => contradiction
  | cons c text ih =>
    cases text with
    | nil => exact before_after place c
    | cons next text =>
      exact (before_after place c).trans (ih (place.after c) (List.cons_ne_nil next text))

theorem endOf_append (front back : List Char) : endOf (front ++ back) = (endOf front).across back := by
  rw [← across_start, across_append, across_start]

theorem endOf_before (front : List Char) {back : List Char} (nonempty : back ≠ []) :
    (endOf front).Before (endOf (front ++ back)) := by
  rw [endOf_append]
  exact before_across _ nonempty

/-- A place stands for one cut of a text. -/
theorem front_unique {front back other rest : List Char} (text : front ++ back = other ++ rest)
    (place : endOf front = endOf other) : front = other := by
  have same (front between : List Char) (place : endOf front = endOf (front ++ between)) :
      between = [] := by
    by_contra nonempty
    have earlier := endOf_before front nonempty
    rw [← place] at earlier
    exact before_irrefl _ earlier
  rcases List.append_eq_append_iff.mp text with ⟨between, rfl, -⟩ | ⟨between, rfl, -⟩
  · rw [same front between place, List.append_nil]
  · rw [same other between place.symm, List.append_nil]

end Location

/-- A text cut into lexemes, each with the gap before it, and a last gap. -/
inductive Tiling where
  | last (gap : List Char)
  | tile (gap lexeme : List Char) (others : Tiling)

namespace Tiling

def text : Tiling → List Char
  | last gap => gap
  | tile gap lexeme others => gap ++ lexeme ++ others.text

/-- The tokens, at their places, of the lexemes of a tiling that stands behind `front`. The end of the
text ends a comment as a line feed does. -/
inductive Carries : List Char → Tiling → Tokens → Prop
  | last {front gap : List Char} (trivia : Trivia (gap ++ ['\n'])) : Carries front (.last gap) []
  | tile {front gap lexeme : List Char} {token : Token} {others : Tiling} {tokens : Tokens}
      (trivia : Trivia gap) (written : token.Written) (read : token.ReadFrom lexeme)
      (rest : Carries (front ++ gap ++ lexeme) others tokens) :
      Carries front (.tile gap lexeme others) (⟨token, Location.endOf (front ++ gap)⟩ :: tokens)

/-- No lexeme and the character behind it are together a longer one. -/
def Maximal : Tiling → Prop
  | last _ => True
  | tile _ lexeme others => (∀ c ∈ others.text.head?, ¬IsLexeme (lexeme ++ [c])) ∧ others.Maximal

/-- What stands before the first lexeme, with a line feed for the end of the text. -/
def opening : Tiling → List Char
  | last gap => gap ++ ['\n']
  | tile gap _ _ => gap

def widen (piece : List Char) : Tiling → Tiling
  | last gap => last (piece ++ gap)
  | tile gap lexeme others => tile (piece ++ gap) lexeme others

theorem text_widen (piece : List Char) (tiling : Tiling) :
    (tiling.widen piece).text = piece ++ tiling.text := by
  cases tiling <;> simp [widen, text]

theorem maximal_widen (piece : List Char) (tiling : Tiling) :
    (tiling.widen piece).Maximal ↔ tiling.Maximal := by
  cases tiling <;> rfl

section Carrying

variable {front piece : List Char} {tiling : Tiling} {tokens : Tokens}

theorem Carries.trivia_opening (carries : tiling.Carries front tokens) : Trivia tiling.opening := by
  cases carries with
  | last trivia => exact trivia
  | tile trivia => exact trivia

theorem Carries.widen (carries : tiling.Carries (front ++ piece) tokens)
    (trivia : Trivia (piece ++ tiling.opening)) : (tiling.widen piece).Carries front tokens := by
  cases carries with
  | last =>
    refine .last ?_
    rw [List.append_assoc]
    exact trivia
  | tile _ written read rest =>
    rw [List.append_assoc front piece] at rest ⊢
    exact .tile trivia written read rest

/-- A gap that begins with a line feed, or with the end of the text, goes on as a gap behind it. -/
theorem Carries.opens_line (carries : tiling.Carries front tokens)
    (feed : ∀ c ∈ tiling.text.head?, c = '\n') : ∃ gap, tiling.opening = '\n' :: gap ∧ Trivia gap := by
  have opens {gap : List Char} (trivia : Trivia gap) (first : gap.head? = some '\n') :
      ∃ others, gap = '\n' :: others ∧ Trivia others := by
    cases trivia with
    | nil => cases first
    | comment => cases first
    | blank _ others =>
      cases first
      exact ⟨_, rfl, others⟩
  apply opens carries.trivia_opening
  cases carries with
  | @last _ gap =>
    cases gap with
    | nil => rfl
    | cons c gap => exact congrArg some (feed c rfl)
  | @tile _ gap lexeme token others _ _ written read =>
    cases gap with
    | cons c gap => exact congrArg some (feed c rfl)
    | nil =>
      cases lexeme with
      | nil => exact absurd rfl (read.nonempty written)
      | cons c more =>
        obtain rfl := feed c rfl
        exact absurd List.mem_cons_self (read.feedless written)

end Carrying

/-- The tokens that a scan finds are carried by a tiling of the text, all of its lexemes maximal. -/
theorem of_scans {place : Location} {text : List Char} {answer : Except SyntaxError Tokens}
    (scans : Scans place text answer) (front : List Char) (here : place = Location.endOf front)
    {tokens : Tokens} (scanned : answer = .ok tokens) :
    ∃ tiling : Tiling, tiling.text = text ∧ tiling.Carries front tokens ∧ tiling.Maximal := by
  induction scans generalizing front tokens with
  | done place =>
    cases scanned
    exact ⟨.last [], rfl, .last (.blank (by decide) .nil), trivial⟩
  | @trivia place first rest more answer read others ih =>
    obtain ⟨tiling, same, carries, maximal⟩ :=
      ih (front ++ (first :: rest.take more)) (by rw [Location.endOf_append, here]) scanned
    refine ⟨tiling.widen (first :: rest.take more), ?_, carries.widen ?_,
      (maximal_widen ..).mpr maximal⟩
    · rw [text_widen, same, ← cut_lexeme]
    · rcases read_trivia read with ⟨blank, rfl⟩ | ⟨line, comment, within, ends⟩
      · exact .blank blank carries.trivia_opening
      · -- A comment stops before its line feed, with which the gap behind it begins.
        obtain ⟨gap, opening, trivia⟩ := carries.opens_line (same ▸ ends)
        rw [comment, opening]
        exact .comment within trivia
  | @token place first rest token more answer read others ih =>
    cases answer with
    | error error => cases scanned
    | ok tokens =>
      cases scanned
      obtain ⟨tiling, same, carries, maximal⟩ :=
        ih (front ++ (first :: rest.take more)) (by rw [Location.endOf_append, here]) rfl
      obtain ⟨written, found⟩ := token_of_read read
      refine ⟨.tile [] (first :: rest.take more) tiling, ?_, ?_, ?_, maximal⟩
      · rw [Tiling.text, same, List.nil_append, ← cut_lexeme]
      · rw [here]
        rw [← List.append_nil front] at carries
        have carried := Carries.tile .nil written found carries
        rwa [List.append_nil] at carried
      · rw [same]
        exact fun c next => not_isLexeme_of_read read next
  | fault read => cases scanned

section Uniqueness

variable {front : List Char} {tiling other : Tiling} {tokens : Tokens} {located : Located}

theorem Carries.of_cons (carries : tiling.Carries front (located :: tokens)) :
    ∃ gap lexeme others, tiling = .tile gap lexeme others ∧
      located.place = Location.endOf (front ++ gap) ∧ located.token.ReadFrom lexeme ∧
      others.Carries (front ++ gap ++ lexeme) tokens := by
  cases carries with
  | tile trivia written read rest => exact ⟨_, _, _, rfl, rfl, read, rest⟩

theorem digit_not_first {gap : List Char} (trivia : Trivia gap) {c : Char} (first : c ∈ gap.head?) :
    c.isDigit = false := by
  rw [Bool.eq_false_iff]
  intro digit
  have code := code_of_isDigit digit
  cases trivia with
  | nil => cases first
  | blank blank others =>
    cases first
    exact absurd blank (by simp [isBlank_eq_false (c := c) (by omega)])
  | comment =>
    cases first
    exact absurd digit (by decide)

/-- No gap has a digit, so a tiling that begins with one has its first token there. -/
theorem Carries.digit_first {c : Char} (carries : tiling.Carries front tokens)
    (next : c ∈ tiling.text.head?) (digit : c.isDigit) :
    ∃ located others, tokens = located :: others ∧ located.place = Location.endOf front := by
  cases carries with
  | @last _ gap trivia =>
    have first : c ∈ (gap ++ ['\n']).head? := by
      rw [List.head?_append, show gap.head? = some c from next]
      rfl
    exact absurd digit (by simp [digit_not_first trivia first])
  | @tile _ gap _ _ _ _ trivia =>
    cases gap with
    | nil => exact ⟨_, _, rfl, by rw [List.append_nil]⟩
    | cons first gap => exact absurd digit (by simp [digit_not_first trivia next])

/-- The tokens behind a number tell where its digits end. -/
theorem Carries.no_digits_between {between : List Char} (short : tiling.Carries front tokens)
    (long : other.Carries (front ++ between) tokens) (digits : ∀ c ∈ between, c.isDigit)
    (same : tiling.text = between ++ other.text) : between = [] := by
  cases between with
  | nil => rfl
  | cons c between =>
    obtain ⟨located, others, rfl, here⟩ :=
      short.digit_first (c := c) (by rw [same]; rfl) (digits c List.mem_cons_self)
    obtain ⟨gap, -, -, -, place, -⟩ := long.of_cons
    have earlier := Location.endOf_before front (List.cons_ne_nil c (between ++ gap))
    rw [← List.cons_append, ← List.append_assoc, ← here, ← place] at earlier
    exact absurd earlier (Location.before_irrefl _)

theorem Carries.lexeme_unique {token : Token} {lexeme digits : List Char}
    (read : token.ReadFrom lexeme) (found : token.ReadFrom digits)
    (first : tiling.Carries (front ++ lexeme) tokens)
    (second : other.Carries (front ++ digits) tokens)
    (same : lexeme ++ tiling.text = digits ++ other.text) : lexeme = digits := by
  cases token with
  | number value =>
    -- Only leading zeros and the next token leave it open which digits a value is read from.
    rcases List.append_eq_append_iff.mp same with ⟨between, rfl, rest⟩ | ⟨between, rfl, rest⟩
    · rw [← List.append_assoc] at second
      have inside : ∀ c ∈ between, c.isDigit :=
        fun c member => found.2.1 c (List.mem_append_right lexeme member)
      rw [first.no_digits_between second inside rest, List.append_nil]
    · rw [← List.append_assoc] at first
      have inside : ∀ c ∈ between, c.isDigit :=
        fun c member => read.2.1 c (List.mem_append_right digits member)
      rw [second.no_digits_between first inside rest, List.append_nil]
  | _ => exact Eq.trans read (Eq.symm found)

/-- A text has one tiling that carries given tokens. -/
theorem Carries.unique (first : tiling.Carries front tokens) (second : other.Carries front tokens)
    (same : tiling.text = other.text) : tiling = other := by
  induction first generalizing other with
  | last =>
    cases second with
    | last => exact congrArg Tiling.last same
  | @tile front gap lexeme token others tokens trivia written read rest ih =>
    -- The place of its token tells where a gap ends, and the token where its lexeme does.
    obtain ⟨space, word, behind, rfl, place, found, carries⟩ := second.of_cons
    rw [text, text, List.append_assoc, List.append_assoc] at same
    have gaps : front ++ gap = front ++ space :=
      Location.front_unique (by rw [List.append_assoc, List.append_assoc, same]) place
    obtain rfl := List.append_cancel_left gaps
    have texts := List.append_cancel_left same
    obtain rfl := Carries.lexeme_unique read found rest carries texts
    rw [ih carries (List.append_cancel_left texts)]

end Uniqueness

section Order

variable {front : List Char} {tiling : Tiling} {tokens : Tokens}

theorem Carries.place_of_mem (carries : tiling.Carries front tokens) {located : Located}
    (member : located ∈ tokens) : ∃ between, located.place = Location.endOf (front ++ between) := by
  induction carries with
  | last => cases member
  | @tile front gap lexeme token others tokens trivia written read rest ih =>
    rcases List.mem_cons.mp member with rfl | inside
    · exact ⟨gap, rfl⟩
    · obtain ⟨between, place⟩ := ih inside
      exact ⟨gap ++ lexeme ++ between, by rw [place]; simp only [List.append_assoc]⟩

theorem Carries.ordered (carries : tiling.Carries front tokens) :
    (tokens.map Located.place).Pairwise Location.Before := by
  induction carries with
  | last => exact List.Pairwise.nil
  | @tile front gap lexeme token others tokens trivia written read rest ih =>
    rw [List.map_cons, List.pairwise_cons]
    refine ⟨fun place member => ?_, ih⟩
    obtain ⟨located, inside, rfl⟩ := List.mem_map.mp member
    obtain ⟨between, place⟩ := rest.place_of_mem inside
    have nonempty : lexeme ++ between ≠ [] :=
      List.append_ne_nil_of_left_ne_nil (read.nonempty written) between
    rw [place, List.append_assoc]
    exact Location.endOf_before (front ++ gap) nonempty

end Order

end Tiling

section Cutting

variable {place : Location} {text : List Char}

theorem Scans.unique {answer other : Except SyntaxError Tokens} (scans : Scans place text answer)
    (again : Scans place text other) : answer = other := by
  induction scans generalizing other with
  | done => cases again; rfl
  | trivia read others ih =>
    cases again with
    | trivia same rest =>
      cases read.symm.trans same
      exact ih rest
    | token same => cases read.symm.trans same
    | fault same => cases read.symm.trans same
  | token read others ih =>
    cases again with
    | trivia same => cases read.symm.trans same
    | token same rest =>
      cases read.symm.trans same
      rw [ih rest]
    | fault same => cases read.symm.trans same
  | fault read =>
    cases again with
    | trivia same => cases read.symm.trans same
    | token same => cases read.symm.trans same
    | fault same =>
      cases read.symm.trans same
      rfl

theorem Scans.scan {answer : Except SyntaxError Tokens} (scans : Scans .start text answer) :
    Source.scan text = answer := (scans_scan text).unique scans

/-- A lexeme with what is kept of the text behind it is read as in the whole text. -/
theorem read_kept {first : Char} {rest front back : List Char} {lexeme : Lexeme} {more : Nat}
    (read : Lexeme.read first rest = lexeme)
    (begun : lexeme = .trivia more ∨ ∃ token, lexeme = .token token more)
    (same : rest.drop more = front ++ back) :
    ∃ kept, rest = kept ++ back ∧ Lexeme.read first kept = lexeme ∧
      kept.take more = rest.take more ∧ kept.drop more = front := by
  have inside : more ≤ rest.length := by
    have inside := read_inside first rest
    rw [read] at inside
    rcases begun with rfl | ⟨token, rfl⟩ <;> exact inside
  have taken : (rest.take more).length = more := List.length_take_of_le inside
  have whole : rest = (rest.take more ++ front) ++ back := by
    rw [List.append_assoc, ← same, List.take_append_drop]
  have fits : more ≤ (rest.take more ++ front).length := by
    rw [List.length_append, taken]
    exact Nat.le_add_right more front.length
  have again : Lexeme.read first ((rest.take more ++ front) ++ back) = lexeme := whole ▸ read
  refine ⟨rest.take more ++ front, whole, ?_, List.take_left' taken, List.drop_left' taken⟩
  rcases begun with rfl | ⟨token, rfl⟩
  · exact read_cut again fits (by simp)
  · exact read_cut again fits (by simp)

/-- The text before the place of a fault is scanned. -/
theorem Scans.fault_front {error : SyntaxError} {answer : Except SyntaxError Tokens}
    (scans : Scans place text answer) (failed : answer = .error error) :
    ∃ front first rest tokens, text = front ++ first :: rest ∧ error.place = place.across front ∧
      Lexeme.read first rest = .fault error.cause ∧ Scans place front (.ok tokens) := by
  induction scans with
  | done => cases failed
  | @trivia place first rest more answer read others ih =>
    obtain ⟨front, c, back, tokens, same, there, fault, before⟩ := ih failed
    obtain ⟨kept, whole, short, taken, dropped⟩ := read_kept read (.inl rfl) same
    rw [← taken] at there before
    rw [← dropped] at there before
    refine ⟨first :: kept, c, back, tokens, by rw [whole, List.cons_append], ?_, fault,
      .trivia short before⟩
    rw [there, ← Location.across_append, ← cut_lexeme]
  | @token place first rest token more answer read others ih =>
    cases answer with
    | ok tokens => cases failed
    | error fault =>
      cases failed
      obtain ⟨front, c, back, tokens, same, there, fault, before⟩ := ih rfl
      obtain ⟨kept, whole, short, taken, dropped⟩ := read_kept read (.inr ⟨token, rfl⟩) same
      rw [← taken] at there before
      rw [← dropped] at there before
      refine ⟨first :: kept, c, back, ⟨token, place⟩ :: tokens, by rw [whole, List.cons_append], ?_,
        fault, .token short before⟩
      rw [there, ← Location.across_append, ← cut_lexeme]
  | @fault place first rest cause read =>
    cases failed
    exact ⟨[], first, rest, [], rfl, rfl, read, .done place⟩

end Cutting

structure Cursor where
  place : Location
  pending : Nat
  found : List Located
  rest : List Char

namespace Cursor

def start (text : List Char) : Cursor := ⟨.start, 0, [], text⟩

def answer (cursor : Cursor) : Except SyntaxError Tokens :=
  scanFrom Lexeme.read cursor.place cursor.pending cursor.found cursor.rest

inductive Moves : Cursor → Cursor → Prop
  | pending {place : Location} {pending : Nat} {found : List Located} {c : Char} {rest : List Char} :
      Moves ⟨place, pending + 1, found, c :: rest⟩ ⟨place.after c, pending, found, rest⟩
  | trivia {place : Location} {found : List Located} {c : Char} {rest : List Char} {more : Nat}
      (read : Lexeme.read c rest = .trivia more) :
      Moves ⟨place, 0, found, c :: rest⟩ ⟨place.after c, more, found, rest⟩
  | token {place : Location} {found : List Located} {c : Char} {rest : List Char} {token : Token}
      {more : Nat} (read : Lexeme.read c rest = .token token more) :
      Moves ⟨place, 0, found, c :: rest⟩ ⟨place.after c, more, ⟨token, place⟩ :: found, rest⟩

def Reached (text : List Char) : Cursor → Prop := Relation.ReflTransGen Moves (start text)

theorem Moves.answer {cursor next : Cursor} (moves : cursor.Moves next) :
    next.answer = cursor.answer := by
  cases moves with
  | pending => rfl
  | trivia read | token read => simp only [Cursor.answer, scanFrom, read]

theorem Moves.passes {cursor next : Cursor} (moves : cursor.Moves next) :
    ∃ c, cursor.rest = c :: next.rest ∧ next.place = cursor.place.after c := by
  cases moves <;> exact ⟨_, rfl, rfl⟩

section Reaching

variable {text : List Char} {cursor : Cursor}

theorem Reached.answer (reached : Reached text cursor) : cursor.answer = Source.scan text := by
  induction reached with
  | refl => rfl
  | tail _ moves ih => exact moves.answer.trans ih

/-- A cursor stands at the end of what it has passed. -/
theorem Reached.place (reached : Reached text cursor) :
    ∃ front, text = front ++ cursor.rest ∧ cursor.place = Location.endOf front := by
  induction reached with
  | refl => exact ⟨[], rfl, rfl⟩
  | tail _ moves ih =>
    obtain ⟨front, same, here⟩ := ih
    obtain ⟨c, rest, there⟩ := moves.passes
    refine ⟨front ++ [c], by rw [same, rest, List.append_assoc]; rfl, ?_⟩
    rw [there, here, Location.endOf_append]
    rfl

/-- A scan that finds tokens passes every character. -/
theorem reaches_end {tokens : Tokens} (scanned : cursor.answer = .ok tokens) :
    ∃ last, Relation.ReflTransGen Moves cursor last ∧ last.rest = [] := by
  obtain ⟨place, pending, found, rest⟩ := cursor
  induction rest generalizing place pending found with
  | nil => exact ⟨_, .refl, rfl⟩
  | cons c rest ih =>
    have step {next : Cursor} (moves : Moves ⟨place, pending, found, c :: rest⟩ next)
        (same : next.rest = rest) : ∃ last, Relation.ReflTransGen Moves
          ⟨place, pending, found, c :: rest⟩ last ∧ last.rest = [] := by
      obtain ⟨there, ahead, others, _⟩ := next
      cases same
      obtain ⟨last, reached, ended⟩ := ih there ahead others (moves.answer.trans scanned)
      exact ⟨last, .head moves reached, ended⟩
    cases pending with
    | succ pending => exact step .pending rfl
    | zero =>
      cases read : Lexeme.read c rest with
      | trivia more => exact step (.trivia read) rfl
      | token token more => exact step (.token read) rfl
      | fault cause => simp [Cursor.answer, scanFrom, read] at scanned

end Reaching

end Cursor

/-- A text whose tokens are found has one tiling by gaps and the lexemes of its tokens, each token at
the line and column that the characters before its lexeme lead to. The places increase, no lexeme is
lengthened to another one by the character behind it, and the scan ends at the end of the text, at the
place that is counted from the text itself. Where no tokens are found, the text before the place of
the error is scanned, and at that place stands a character that begins no token, or a whole run of
digits whose value has more than 64 bits. -/
theorem tokens_tile_text (text : List Char) :
    (∀ tokens, scan text = .ok tokens →
      (∃ tiling : Tiling, tiling.text = text ∧ tiling.Carries [] tokens ∧ tiling.Maximal ∧
        ∀ other : Tiling, other.text = text → other.Carries [] tokens → other = tiling) ∧
      (tokens.map Located.place).Pairwise Location.Before ∧
      ∃ cursor, Cursor.Reached text cursor ∧ cursor.rest = [] ∧ cursor.found.reverse = tokens ∧
        cursor.place = Location.endOf text) ∧
    (∀ cursor, Cursor.Reached text cursor →
      ∃ front, text = front ++ cursor.rest ∧ cursor.place = Location.endOf front) ∧
    ∀ error, scan text = .error error → ∃ front first rest tokens, text = front ++ first :: rest ∧
      error.place = Location.endOf front ∧ scan front = .ok tokens ∧
      ((error.cause = .unexpectedCharacter first ∧ isBlank first = false ∧
          ∀ more, ¬IsLexeme (first :: more)) ∨
        ∃ digits after, first :: rest = digits ++ after ∧ (∀ c ∈ digits, c.isDigit) ∧
          (∀ c ∈ after.head?, c.isDigit = false) ∧ 2 ^ 64 ≤ Text.digitsValue digits ∧
          error.cause = .integerOutOfRange (String.ofList digits)) := by
  refine ⟨fun tokens scanned => ?_, fun cursor reached => reached.place, fun error failed => ?_⟩
  · obtain ⟨tiling, same, carries, maximal⟩ := Tiling.of_scans (scans_scan text) [] rfl scanned
    have answered : (Cursor.start text).answer = .ok tokens := scanned
    obtain ⟨last, reached, ended⟩ := Cursor.reaches_end answered
    refine ⟨⟨tiling, same, carries, maximal, fun other cut found => ?_⟩, carries.ordered, last, reached,
      ended, ?_, ?_⟩
    · exact found.unique carries (cut.trans same.symm)
    · have found := Cursor.Reached.answer reached
      rw [scanned, Cursor.answer, ended, scanFrom] at found
      exact Except.ok.inj found
    · obtain ⟨front, whole, here⟩ := Cursor.Reached.place reached
      rw [here, whole, ended, List.append_nil]
  · obtain ⟨front, first, rest, tokens, same, there, fault, before⟩ :=
      (scans_scan text).fault_front failed
    rw [Location.across_start] at there
    refine ⟨front, first, rest, tokens, same, there, before.scan, ?_⟩
    have limit : numberLimit + 1 = 2 ^ 64 := by decide
    exact limit ▸ fault_cases fault

/-- Leading zeros belong to the number, a no-break space and a comment at the end of the text to
gaps, and a shift ends where an assignment begins. -/
theorem tokens_tile_text_shift :
    let text := "x\u00a0<<=\n007// \u00e9".toList
    let tokens : Tokens := [⟨.name "x", ⟨1, 1⟩⟩, ⟨.op .shl, ⟨1, 3⟩⟩, ⟨.assign, ⟨1, 5⟩⟩,
      ⟨.number 7, ⟨2, 1⟩⟩]
    let tiling : Tiling := .tile [] ['x'] (.tile ['\u00a0'] ['<', '<'] (.tile [] ['='] (.tile ['\n']
      ['0', '0', '7'] (.last "// \u00e9".toList))))
    let large := "x <=\n18446744073709551616;".toList
    scan text = .ok tokens ∧ tiling.text = text ∧ tiling.Carries [] tokens ∧ tiling.Maximal ∧
      scan large = .error ⟨⟨2, 1⟩, .integerOutOfRange "18446744073709551616"⟩ ∧
      ∃ front rest tokens, large = front ++ rest ∧ Location.endOf front = ⟨2, 1⟩ ∧
        scan front = .ok tokens := by
  intro text tokens tiling large
  have scanned : scan text = .ok tokens := by decide +kernel
  have same : tiling.text = text := by decide +kernel
  have carries : tiling.Carries [] tokens := by
    refine .tile .nil ⟨⟨rfl, rfl⟩, by decide⟩ rfl (.tile (.blank rfl .nil) trivial rfl
      (.tile .nil trivial rfl (.tile (.blank rfl .nil) ?_ ?_ (.last ?_))))
    · show 7 ≤ numberLimit
      decide +kernel
    · exact ⟨List.cons_ne_nil _ _, by simp, rfl⟩
    · have line : '\n' ∉ [' ', '\u00e9'] := by decide
      exact .comment line .nil
  have failed : scan large = .error ⟨⟨2, 1⟩, .integerOutOfRange "18446744073709551616"⟩ := by
    decide +kernel
  obtain ⟨⟨found, -, -, maximal, unique⟩, -⟩ := (tokens_tile_text text).1 tokens scanned
  obtain ⟨front, first, rest, before, whole, place, read, -⟩ := (tokens_tile_text large).2.2 _ failed
  exact ⟨scanned, same, carries, unique tiling same carries ▸ maximal, failed, front, first :: rest,
    before, whole, place.symm, read⟩

end BranchLab.Source
