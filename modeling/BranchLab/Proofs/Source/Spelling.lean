import BranchLab.Source.Scan

/-! Scanning undoes spelling. A token is read from its spelling in front of anything that does not
lengthen it, and a layout, which is tokens with blanks and comments between them, is scanned as its
tokens at the places where they stand. -/

namespace BranchLab.Source

open Text (isBlank)

/-- The character codes of the letters, in which no blank and no digit is. -/
theorem code_of_startsWord {c : Char} (starts : startsWord c) :
    (65 ≤ c.toNat ∧ c.toNat ≤ 90) ∨ (97 ≤ c.toNat ∧ c.toNat ≤ 122) ∨ c.toNat = 95 := by
  have cases : ((c.isUpper || c.isLower) || c == '_') = true := starts
  simp only [Bool.or_eq_true, beq_iff_eq] at cases
  rcases cases with (upper | lower) | rfl
  · have range : 'A'.val ≤ c.val ∧ c.val ≤ 'Z'.val := of_decide_eq_true upper
    exact .inl range
  · have range : (decide ('a'.val ≤ c.val) && decide (c.val ≤ 'z'.val)) = true := lower
    simp only [Bool.and_eq_true, decide_eq_true_eq] at range
    exact .inr (.inl range)
  · exact .inr (.inr rfl)

theorem code_of_isDigit {c : Char} (digit : c.isDigit) : 48 ≤ c.toNat ∧ c.toNat ≤ 57 := by
  simp only [Char.isDigit, Bool.and_eq_true, decide_eq_true_eq, ge_iff_le,
    UInt32.le_iff_toNat_le] at digit
  exact digit

theorem isBlank_eq_false {c : Char} (visible : 33 ≤ c.toNat ∧ c.toNat < 127) :
    isBlank c = false := by
  simp only [isBlank]
  grind

theorem isDigit_of_startsWord {c : Char} (starts : startsWord c) : c.isDigit = false := by
  rw [Bool.eq_false_iff]
  intro digit
  have letter := code_of_startsWord starts
  have code := code_of_isDigit digit
  omega

theorem ne_slash {c : Char} (code : c.toNat ≠ 47) : c ≠ '/' := by
  rintro rfl
  exact code rfl

theorem continuesWord_of_startsWord {c : Char} (starts : startsWord c) : continuesWord c := by
  simp only [startsWord, continuesWord, Char.isAlphanum, Bool.or_eq_true] at starts ⊢
  exact starts.imp_left .inl

theorem continuesWord_of_isDigit {c : Char} (digit : c.isDigit) : continuesWord c := by
  simp [continuesWord, Char.isAlphanum, digit]

/-- A letter or underscore, and after it letters, digits and underscores. -/
def IsWord : List Char → Prop
  | [] => False
  | first :: more => startsWord first ∧ more.all continuesWord

def EndsWord (rest : List Char) : Prop := ∀ c ∈ rest.head?, continuesWord c = false

theorem endsWord_cons {c : Char} (other : continuesWord c = false) (rest : List Char) :
    EndsWord (c :: rest) := by
  intro first same
  cases same
  exact other

def keywords : List String := ["let", "if", "rand"]

/-- The text of a name is a word that is not taken by the language. -/
structure IsName (text : String) : Prop where
  word : IsWord text.toList
  free : text ∉ keywords

theorem IsWord.continues {text : List Char} (word : IsWord text) : ∀ c ∈ text, continuesWord c := by
  cases text with
  | nil => exact word.elim
  | cons first more =>
    intro c member
    rcases List.mem_cons.mp member with rfl | inside
    · exact continuesWord_of_startsWord word.1
    · exact List.all_eq_true.mp word.2 c inside

theorem IsName.ofWord {text : String} (named : IsName text) : Token.ofWord text = .name text := by
  have free := named.free
  simp only [keywords, List.mem_cons, List.not_mem_nil, or_false, not_or] at free
  simp [Token.ofWord, free]

namespace Token

/-- What a token of its kind can hold: a number of 64 bits, or the text of a name. -/
def Written : Token → Prop
  | number value => value ≤ numberLimit
  | name text => IsName text
  | _ => True

/-- The characters that are read together with a token right before them. -/
def joins : Token → Char → Bool
  | number _, c => c.isDigit
  | name _, c | letWord, c | ifWord, c | randWord, c => continuesWord c
  | assign, c | not, c => c == '='
  | op .lt, c => c == '=' || c == '<'
  | op .gt, c => c == '=' || c == '>'
  | op .bitAnd, c => c == '&'
  | op .bitOr, c => c == '|'
  | op .div, c => c == '/'
  | _, _ => false

def Apart (token : Token) (rest : List Char) : Prop := ∀ c ∈ rest.head?, token.joins c = false

theorem apart_nil (token : Token) : token.Apart [] := fun c next => by cases next

theorem number_apart {rest : List Char} (ends : EndsWord rest) (n : Nat) : (number n).Apart rest := by
  intro c next
  rw [joins, Bool.eq_false_iff]
  intro digit
  exact absurd (continuesWord_of_isDigit digit) (by simp [ends c next])

/-- A character that begins a symbol begins nothing else. -/
theorem of_ofChar {first : Char} {token : Token} (single : ofChar first = some token) :
    isBlank first = false ∧ first.isDigit = false ∧ startsWord first = false := by
  unfold ofChar at single
  split at single
  case h_19 => cases single
  all_goals decide

/-- A symbol of two characters begins like one of a single character, and not like a comment. -/
theorem of_ofPair {first second : Char} {token : Token} (pair : ofPair first second = some token) :
    ∃ single, ofChar first = some single ∧ first ≠ '/' := by
  unfold ofPair at pair
  split at pair
  case h_9 => cases pair
  all_goals exact ⟨_, rfl, by decide⟩

theorem ofPair_eq_none {first c : Char} {token : Token} (single : ofChar first = some token)
    (apart : token.joins c = false) : ofPair first c = none := by
  unfold ofPair
  split
  case h_9 => rfl
  all_goals
    cases single
    simp [joins] at apart

end Token

theorem takeWhile_append_of_stops {p : Char → Bool} {more rest : List Char} (all : ∀ c ∈ more, p c)
    (stops : ∀ c ∈ rest.head?, p c = false) : (more ++ rest).takeWhile p = more := by
  rw [List.takeWhile_append_of_pos all]
  cases rest with
  | nil => simp
  | cons c rest => simp [stops c rfl]

/-- What begins at a character, by what tells it from everything else that could begin there. -/
inductive Lexeme.Begins (first : Char) (rest : List Char) : Lexeme → Prop
  | blank (blank : isBlank first) : Begins first rest (.trivia 0)
  | comment (slash : first = '/') (next : rest.head? = some '/') :
      Begins first rest (.trivia (rest.takeWhile (· ≠ '\n')).length)
  | number (digit : first.isDigit)
      (fits : Text.digitsValue (first :: rest.takeWhile Char.isDigit) ≤ numberLimit) :
      Begins first rest (.token (.number (Text.digitsValue (first :: rest.takeWhile Char.isDigit)))
        (rest.takeWhile Char.isDigit).length)
  | tooLarge (digit : first.isDigit)
      (large : ¬Text.digitsValue (first :: rest.takeWhile Char.isDigit) ≤ numberLimit) :
      Begins first rest
        (.fault (.integerOutOfRange (String.ofList (first :: rest.takeWhile Char.isDigit))))
  | word (starts : startsWord first) :
      Begins first rest (.token (.ofWord (String.ofList (first :: rest.takeWhile continuesWord)))
        (rest.takeWhile continuesWord).length)
  | pair {second : Char} {token : Token} (next : rest.head? = some second)
      (pair : Token.ofPair first second = some token) : Begins first rest (.token token 1)
  | single {token : Token} (single : Token.ofChar first = some token)
      (alone : ∀ c ∈ rest.head?, Token.ofPair first c = none)
      (code : first = '/' → rest.head? ≠ some '/') : Begins first rest (.token token 0)
  | unknown (visible : isBlank first = false) (digit : first.isDigit = false)
      (letter : startsWord first = false) (unknown : Token.ofChar first = none) :
      Begins first rest (.fault (.unexpectedCharacter first))

section Reading

variable {first : Char} {more rest : List Char} {token : Token}

theorem begins_read (first : Char) (rest : List Char) :
    Lexeme.Begins first rest (Lexeme.read first rest) := by
  unfold Lexeme.read
  split
  · exact .blank ‹_›
  split
  · rename_i comment
    exact .comment comment.1 comment.2
  split
  · unfold Lexeme.number
    dsimp only
    split
    · exact .number ‹_› ‹_›
    · exact .tooLarge ‹_› ‹_›
  split
  · exact .word ‹_›
  rename_i visible comment digit letter
  have lone (alone : ∀ c ∈ rest.head?, Token.ofPair first c = none) :
      Lexeme.Begins first rest (Lexeme.single first) := by
    unfold Lexeme.single
    split
    · exact .single ‹_› alone fun slash next => comment ⟨slash, next⟩
    · exact .unknown (by simpa using visible) (by simpa using digit) (by simpa using letter) ‹_›
  cases rest with
  | nil => exact lone fun c next => by cases next
  | cons second rest =>
    cases same : Token.ofPair first second with
    | some symbol =>
      rw [Lexeme.symbol, same]
      exact .pair rfl same
    | none =>
      rw [Lexeme.symbol, same]
      refine lone fun c next => ?_
      cases next
      exact same

/-- A character that begins a symbol begins nothing else but a comment. -/
theorem read_eq_symbol (single : Token.ofChar first = some token)
    (code : first = '/' → rest.head? ≠ some '/') :
    Lexeme.read first rest = Lexeme.symbol first rest := by
  have comment : ¬(first = '/' ∧ rest.head? = some '/') := fun both => code both.1 both.2
  simp [Lexeme.read, comment, Token.of_ofChar single]

theorem symbol_of_alone (alone : ∀ c ∈ rest.head?, Token.ofPair first c = none) :
    Lexeme.symbol first rest = Lexeme.single first := by
  cases rest with
  | nil => rfl
  | cons c rest => rw [Lexeme.symbol, alone c rfl]

theorem Lexeme.Begins.read {lexeme : Lexeme} (begins : Lexeme.Begins first rest lexeme) :
    Lexeme.read first rest = lexeme := by
  cases begins with
  | blank blank => simp [Lexeme.read, blank]
  | comment slash next =>
    have visible : isBlank '/' = false := by decide
    simp [Lexeme.read, slash, visible, next]
  | number digit fits =>
    have code := code_of_isDigit digit
    have visible := isBlank_eq_false (c := first) (by omega)
    have other := ne_slash (c := first) (by omega)
    simp [Lexeme.read, Lexeme.number, visible, other, digit, fits]
  | tooLarge digit large =>
    have code := code_of_isDigit digit
    have visible := isBlank_eq_false (c := first) (by omega)
    have other := ne_slash (c := first) (by omega)
    simp [Lexeme.read, Lexeme.number, visible, other, digit, large]
  | word starts =>
    have letter := code_of_startsWord starts
    have visible := isBlank_eq_false (c := first) (by omega)
    have other := ne_slash (c := first) (by omega)
    have digit := isDigit_of_startsWord starts
    simp [Lexeme.read, Lexeme.word, visible, other, digit, starts]
  | @pair second symbol next pair =>
    obtain ⟨single, shorter, other⟩ := Token.of_ofPair pair
    rw [read_eq_symbol shorter fun slash => absurd slash other]
    cases rest with
    | nil => cases next
    | cons c rest =>
      cases next
      rw [Lexeme.symbol, pair]
  | single single alone code =>
    rw [read_eq_symbol single code, symbol_of_alone alone, Lexeme.single, single]
  | unknown visible digit letter unknown =>
    have other : first ≠ '/' := by
      rintro rfl
      cases unknown
    have alone : ∀ c ∈ rest.head?, Token.ofPair first c = none := by
      intro c next
      cases same : Token.ofPair first c with
      | none => rfl
      | some symbol =>
        obtain ⟨single, shorter, -⟩ := Token.of_ofPair same
        cases unknown.symm.trans shorter
    have lone : Lexeme.single first = .fault (.unexpectedCharacter first) := by
      rw [Lexeme.single, unknown]
    simp [Lexeme.read, visible, other, digit, letter, symbol_of_alone alone, lone]

theorem read_blank (blank : isBlank first) : Lexeme.read first rest = .trivia 0 :=
  (Lexeme.Begins.blank blank).read

theorem read_comment {line : List Char} (within : '\n' ∉ line) :
    Lexeme.read '/' ('/' :: line ++ '\n' :: rest) = .trivia (line.length + 1) := by
  have text : ('/' :: line ++ '\n' :: rest).takeWhile (· ≠ '\n') = '/' :: line := by
    apply takeWhile_append_of_stops
    · intro c member
      rcases List.mem_cons.mp member with rfl | inside
      · decide
      · simpa using fun feed : c = '\n' => within (feed ▸ inside)
    · simp
  have begins : Lexeme.Begins '/' ('/' :: line ++ '\n' :: rest) _ := .comment rfl rfl
  rw [text] at begins
  exact begins.read

theorem read_word (word : IsWord (first :: more)) (ends : EndsWord rest) :
    Lexeme.read first (more ++ rest) =
      .token (.ofWord (String.ofList (first :: more))) more.length := by
  have begins : Lexeme.Begins first (more ++ rest) _ := .word word.1
  rw [takeWhile_append_of_stops (List.all_eq_true.mp word.2) ends] at begins
  exact begins.read

theorem read_digits (digits : ∀ c ∈ first :: more, c.isDigit)
    (fits : Text.digitsValue (first :: more) ≤ numberLimit)
    (apart : ∀ c ∈ rest.head?, c.isDigit = false) :
    Lexeme.read first (more ++ rest) =
      .token (.number (Text.digitsValue (first :: more))) more.length := by
  have others : ∀ c ∈ more, c.isDigit := fun c inside => digits c (by simp [inside])
  have whole := takeWhile_append_of_stops others apart
  have begins : Lexeme.Begins first (more ++ rest) _ :=
    .number (digits first List.mem_cons_self) (whole.symm ▸ fits)
  rw [whole] at begins
  exact begins.read

theorem read_single (single : Token.ofChar first = some token) (apart : token.Apart rest) :
    Lexeme.read first rest = .token token 0 := by
  have alone : ∀ c ∈ rest.head?, Token.ofPair first c = none :=
    fun c next => Token.ofPair_eq_none single (apart c next)
  refine (Lexeme.Begins.single single alone ?_).read
  rintro rfl next
  cases single
  exact absurd (apart '/' next) (by decide)

theorem read_pair {second : Char} (pair : Token.ofPair first second = some token) :
    Lexeme.read first (second :: rest) = .token token 1 := (Lexeme.Begins.pair rfl pair).read

end Reading

/-- A number is spelled with one or more digits, which have its value. -/
theorem exists_digits (n : Nat) : ∃ first more, (Token.number n).spelling.toList = first :: more ∧
    (∀ c ∈ first :: more, c.isDigit) ∧ Text.digitsValue (first :: more) = n := by
  have digits : (Token.number n).spelling.toList = Nat.toDigits 10 n := Nat.toList_repr
  have value : Nat.ofDigitChars 10 (Nat.toDigits 10 n) 0 = n := Nat.ofDigitChars_ten_toDigits
  have all : ∀ c ∈ Nat.toDigits 10 n, c.isDigit :=
    fun c member => Nat.isDigit_of_mem_toDigits (by decide) (by decide) member
  obtain ⟨first, more, same⟩ : ∃ first more, Nat.toDigits 10 n = first :: more :=
    List.exists_cons_of_ne_nil Nat.toDigits_ne_nil
  rw [Nat.ofDigitChars_eq_foldl] at value
  rw [same] at digits value all
  exact ⟨first, more, digits, all, value⟩

theorem IsName.exists_chars {text : String} (named : IsName text) :
    ∃ first more, text.toList = first :: more ∧ IsWord (first :: more) := by
  have word := named.word
  cases chars : text.toList with
  | nil => exact absurd word (by simp [chars, IsWord])
  | cons first more => exact ⟨first, more, rfl, chars ▸ word⟩

/-- The characters of a spelling are read as the token, from the first one on. -/
theorem read_spelling {token : Token} (written : token.Written) {rest : List Char}
    (apart : token.Apart rest) :
    ∃ first more, token.spelling.toList = first :: more ∧
      Lexeme.read first (more ++ rest) = .token token more.length := by
  cases token with
  | number value =>
    obtain ⟨first, more, spelled, digits, same⟩ := exists_digits value
    refine ⟨first, more, spelled, ?_⟩
    rw [read_digits digits (same ▸ written) apart, same]
  | name text =>
    obtain ⟨first, more, spelled, word⟩ := IsName.exists_chars written
    refine ⟨first, more, spelled, ?_⟩
    rw [read_word word apart, ← spelled, String.ofList_toList, IsName.ofWord written]
  | letWord => exact ⟨'l', ['e', 't'], rfl, read_word ⟨rfl, rfl⟩ apart⟩
  | ifWord => exact ⟨'i', ['f'], rfl, read_word ⟨rfl, rfl⟩ apart⟩
  | randWord => exact ⟨'r', ['a', 'n', 'd'], rfl, read_word ⟨rfl, rfl⟩ apart⟩
  | op sign =>
    cases sign with
    | eq | ne | le | ge | shl | shr | and | or => exact ⟨_, _, rfl, read_pair rfl⟩
    | mul | div | rem | add | sub | lt | gt | bitAnd | bitXor | bitOr =>
      exact ⟨_, _, rfl, read_single rfl apart⟩
  | assign | not | bitNot | openParen | closeParen | openBrace | closeBrace | semicolon =>
    exact ⟨_, _, rfl, read_single rfl apart⟩

theorem feed_not_mem_spelling {token : Token} (written : token.Written) :
    '\n' ∉ token.spelling.toList := by
  intro feed
  cases token with
  | number value =>
    obtain ⟨first, more, spelled, digits, same⟩ := exists_digits value
    exact absurd (digits '\n' (spelled ▸ feed)) (by decide)
  | name text => exact absurd (written.word.continues '\n' feed) (by decide)
  | op sign =>
    cases sign
    all_goals exact absurd feed (by decide)
  | letWord | ifWord | randWord | assign | not | bitNot | openParen | closeParen | openBrace
  | closeBrace | semicolon => exact absurd feed (by decide)

/-- The text between tokens: blanks, and comments each with the end of its line. -/
inductive Trivia : List Char → Prop where
  | nil : Trivia []
  | blank {c : Char} {rest : List Char} (blank : isBlank c) (others : Trivia rest) :
      Trivia (c :: rest)
  | comment {line rest : List Char} (within : '\n' ∉ line) (others : Trivia rest) :
      Trivia ('/' :: '/' :: line ++ '\n' :: rest)

inductive Piece where
  | token (token : Token)
  | gap (text : List Char)

def Piece.text : Piece → List Char
  | token part => part.spelling.toList
  | gap text => text

abbrev Layout := List Piece

namespace Layout

def text (layout : Layout) : List Char := layout.flatMap Piece.text

def located (place : Location) : Layout → List Located
  | [] => []
  | .token token :: rest => ⟨token, place⟩ :: located (place.across token.spelling.toList) rest
  | .gap text :: rest => located (place.across text) rest

/-- In front of `after`, no token is lengthened by what stands behind it. -/
def Fits (after : List Char) : Layout → Prop
  | [] => True
  | .token token :: rest => token.Written ∧ token.Apart (text rest ++ after) ∧ Fits after rest
  | .gap text :: rest => Trivia text ∧ Fits after rest

@[simp] theorem text_nil : text [] = [] := rfl

@[simp] theorem text_cons (piece : Piece) (layout : Layout) :
    text (piece :: layout) = piece.text ++ text layout := rfl

@[simp] theorem text_append (front back : Layout) :
    text (front ++ back) = text front ++ text back := List.flatMap_append

theorem located_append (place : Location) (front back : Layout) :
    located place (front ++ back) = located place front ++ located (place.across front.text) back := by
  induction front generalizing place with
  | nil => rfl
  | cons piece front ih =>
    cases piece <;> simp [located, ih, Piece.text, Location.across_append]

theorem fits_append {after : List Char} {front back : Layout} :
    Fits after (front ++ back) ↔ Fits (back.text ++ after) front ∧ Fits after back := by
  induction front with
  | nil => simp [Fits]
  | cons piece front ih => cases piece <;> simp [Fits, ih, and_assoc]

theorem feed_not_mem_text {layout : Layout} {after : List Char} (fits : layout.Fits after)
    (gaps : ∀ gap, .gap gap ∈ layout → '\n' ∉ gap) : '\n' ∉ layout.text := by
  induction layout with
  | nil => simp
  | cons piece layout ih =>
    have inside : ∀ gap, .gap gap ∈ layout → '\n' ∉ gap :=
      fun gap member => gaps gap (List.mem_cons_of_mem piece member)
    rw [text_cons, List.mem_append, not_or]
    cases piece with
    | token token => exact ⟨feed_not_mem_spelling fits.1, ih fits.2.2 inside⟩
    | gap text => exact ⟨gaps text List.mem_cons_self, ih fits.2 inside⟩

end Layout

section Scanning

variable (place : Location) (found : List Located)

theorem scanFrom_trivia {gap : List Char} (trivia : Trivia gap) (after : List Char) :
    scanFrom Lexeme.read place 0 found (gap ++ after) =
      scanFrom Lexeme.read (place.across gap) 0 found after := by
  induction trivia generalizing place with
  | nil => rfl
  | blank blank others ih =>
    rw [List.cons_append, scanFrom, read_blank blank]
    exact ih (place.after _)
  | @comment line rest within others ih =>
    have text : ('/' :: '/' :: line ++ '\n' :: rest) ++ after =
        '/' :: ('/' :: line ++ '\n' :: (rest ++ after)) := by simp
    have feed : isBlank '\n' := by decide
    rw [text, scanFrom, read_comment within]
    dsimp only
    rw [scanFrom_pending, ← List.length_cons (a := '/'), List.take_left, List.drop_left, scanFrom,
      read_blank feed]
    dsimp only
    rw [ih]
    simp only [List.cons_append, Location.across_cons, Location.across_append]

theorem scanFrom_spelling {token : Token} (written : token.Written) {after : List Char}
    (apart : token.Apart after) :
    scanFrom Lexeme.read place 0 found (token.spelling.toList ++ after) =
      scanFrom Lexeme.read (place.across token.spelling.toList) 0 (⟨token, place⟩ :: found)
        after := by
  obtain ⟨first, more, spelled, read⟩ := read_spelling written apart
  rw [spelled, List.cons_append, scanFrom, read]
  dsimp only
  rw [scanFrom_pending, List.take_left, List.drop_left, Location.across_cons]

/-- Each piece is passed, and the tokens are found one after another. -/
theorem scanFrom_layout {layout : Layout} {after : List Char} (fits : layout.Fits after) :
    scanFrom Lexeme.read place 0 found (layout.text ++ after) =
      scanFrom Lexeme.read (place.across layout.text) 0
        ((layout.located place).reverse ++ found) after := by
  induction layout generalizing place found with
  | nil => rfl
  | cons piece layout ih =>
    rw [Layout.text_cons, List.append_assoc, Location.across_append]
    cases piece with
    | token token =>
      obtain ⟨written, apart, others⟩ := fits
      rw [Piece.text, scanFrom_spelling place found written apart, ih _ _ others, Layout.located,
        List.reverse_cons, List.append_assoc, List.singleton_append]
    | gap text =>
      obtain ⟨trivia, others⟩ := fits
      rw [Piece.text, scanFrom_trivia place found trivia, ih _ _ others, Layout.located]

end Scanning

theorem scan_layout {layout : Layout} (fits : layout.Fits []) :
    scan layout.text = .ok (layout.located .start) := by
  have scanned := scanFrom_layout .start [] fits
  rw [List.append_nil, List.append_nil] at scanned
  rw [scan, scanned, scanFrom, List.reverse_reverse]

end BranchLab.Source
