import BranchLab.Source.Load

/-! Texts of lines divided at their code fences. A fence with one of some tags opens a block, and the
next fence that is no shorter closes it; every text is divided in one way. Program text is cut out
as if nothing but its own fences opened a block. That is the division at all fences as long as no
block with another tag holds a fence of program text. -/

namespace BranchLab.Source

/-- A line that begins, beyond its blanks, with three or more marks. The rest of it is the tag. -/
def IsFence (marks : Nat) (tag line : List Char) : Prop :=
  3 ≤ marks ∧ ∃ indent info, line = indent ++ (List.replicate marks fenceMark ++ info) ∧
    (∀ c ∈ indent, Text.isBlank c) ∧ info.head? ≠ some fenceMark ∧ Text.trim info = tag

theorem isFence_iff {marks : Nat} {tag line : List Char} :
    IsFence marks tag line ↔ fenceLength? line = some marks ∧ tagOf line = tag := by
  constructor
  · rintro ⟨enough, indent, info, rfl, blank, ends, rfl⟩
    have visible : Text.isBlank fenceMark = false := by decide
    have start : Text.trimStart (indent ++ (List.replicate marks fenceMark ++ info)) =
        List.replicate marks fenceMark ++ info := by
      rw [Text.trimStart, List.dropWhile_append_of_pos blank]
      obtain ⟨more, rfl⟩ : ∃ more, marks = more + 1 := ⟨marks - 1, by omega⟩
      simp [List.replicate_succ, visible]
    have stops : info.takeWhile (· = fenceMark) = [] ∧ info.dropWhile (· = fenceMark) = info := by
      cases info with
      | nil => exact ⟨rfl, rfl⟩
      | cons c info =>
        have other : c ≠ fenceMark := fun same => ends (congrArg some same)
        simp [other]
    have marked : ∀ c ∈ List.replicate marks fenceMark, (decide (c = fenceMark)) = true := by
      intro c member
      simp [List.eq_of_mem_replicate member]
    rw [fenceLength?, tagOf, start, List.takeWhile_append_of_pos marked,
      List.dropWhile_append_of_pos marked, stops.1, stops.2]
    simp [enough]
  · rintro ⟨length, rfl⟩
    have marked : ((Text.trimStart line).takeWhile (· = fenceMark)) =
        List.replicate ((Text.trimStart line).takeWhile (· = fenceMark)).length fenceMark := by
      refine List.eq_replicate_iff.mpr ⟨rfl, fun c member => ?_⟩
      simpa using List.all_eq_true.mp List.all_takeWhile c member
    simp only [fenceLength?, Option.ite_none_right_eq_some, Option.some.injEq] at length
    obtain ⟨enough, rfl⟩ := length
    refine ⟨enough, line.takeWhile Text.isBlank, (Text.trimStart line).dropWhile (· = fenceMark),
      ?_, List.all_eq_true.mp List.all_takeWhile, ?_, rfl⟩
    · rw [← marked, List.takeWhile_append_dropWhile]
      exact List.takeWhile_append_dropWhile.symm
    · intro next
      have marks := List.head?_dropWhile_not (· = fenceMark) (Text.trimStart line)
      rw [next] at marks
      simp at marks

def Shorter (marks : Nat) (lines : List (List Char)) : Prop :=
  ∀ line ∈ lines, ∀ fewer tag, IsFence fewer tag line → fewer < marks

/-- A line between blocks, or a block with its tag, its fences and the lines between them. The fence
that closes a block may be missing at the end of a text. -/
inductive Segment where
  | prose (line : List Char)
  | block (tag opening : List Char) (content : List (List Char)) (closing : Option (List Char))

/-- The lines are divided into segments, where a fence opens a block if it has one of some tags. -/
inductive Divides (opens : List Char → Prop) : List (List Char) → List Segment → Prop
  | done : Divides opens [] []
  | prose {line : List Char} {rest : List (List Char)} {segments : List Segment}
      (plain : ∀ marks tag, IsFence marks tag line → ¬opens tag)
      (others : Divides opens rest segments) : Divides opens (line :: rest) (.prose line :: segments)
  | block {marks most : Nat} {tag other opening closing : List Char}
      {content rest : List (List Char)} {segments : List Segment}
      (begins : IsFence marks tag opening) (opened : opens tag) (inside : Shorter marks content)
      (ends : IsFence most other closing) (enough : marks ≤ most)
      (others : Divides opens rest segments) :
      Divides opens (opening :: (content ++ closing :: rest))
        (.block tag opening content (some closing) :: segments)
  | unclosed {marks : Nat} {tag opening : List Char} {content : List (List Char)}
      (begins : IsFence marks tag opening) (opened : opens tag) (inside : Shorter marks content) :
      Divides opens (opening :: content) [.block tag opening content none]

section Division

variable {opens : List Char → Prop} {marks more : Nat} {tag other line : List Char}
  {lines content rest : List (List Char)}

theorem IsFence.unique (fence : IsFence marks tag line) (again : IsFence more other line) :
    marks = more ∧ tag = other := by
  obtain ⟨length, rfl⟩ := isFence_iff.mp fence
  obtain ⟨relength, rfl⟩ := isFence_iff.mp again
  exact ⟨Option.some.inj (length.symm.trans relength), rfl⟩

theorem shorter_nil (marks : Nat) : Shorter marks [] := by simp [Shorter]

theorem shorter_cons : Shorter marks (line :: rest) ↔
    (∀ fewer tag, IsFence fewer tag line → fewer < marks) ∧ Shorter marks rest := by
  simp [Shorter]

theorem exists_closing (long : ¬Shorter marks lines) : ∃ content closing rest most other,
    lines = content ++ closing :: rest ∧ Shorter marks content ∧ IsFence most other closing ∧
      marks ≤ most := by
  induction lines with
  | nil => exact absurd (shorter_nil marks) long
  | cons line rest ih =>
    by_cases closes : ∃ most other, IsFence most other line ∧ marks ≤ most
    · obtain ⟨most, other, fence, enough⟩ := closes
      exact ⟨[], line, rest, most, other, rfl, shorter_nil marks, fence, enough⟩
    · have short : ∀ fewer tag, IsFence fewer tag line → fewer < marks := by
        intro fewer tag fence
        exact Nat.lt_of_not_le fun enough => closes ⟨fewer, tag, fence, enough⟩
      have behind : ¬Shorter marks rest := fun shorter => long (shorter_cons.mpr ⟨short, shorter⟩)
      obtain ⟨content, closing, others, most, other, rfl, shorter, fence, enough⟩ := ih behind
      exact ⟨line :: content, closing, others, most, other, rfl, shorter_cons.mpr ⟨short, shorter⟩,
        fence, enough⟩

theorem closing_unique {closing last : List Char} {others behind : List (List Char)}
    {most least : Nat} (inside : Shorter marks content) (ends : IsFence most tag closing)
    (enough : marks ≤ most) (within : Shorter marks others) (stops : IsFence least other last)
    (long : marks ≤ least) (same : content ++ closing :: rest = others ++ last :: behind) :
    content = others ∧ closing = last ∧ rest = behind := by
  induction content generalizing others with
  | nil =>
    cases others with
    | nil =>
      obtain ⟨rfl, rfl⟩ := List.cons.inj same
      exact ⟨rfl, rfl, rfl⟩
    | cons first others =>
      obtain ⟨rfl, -⟩ := List.cons.inj same
      exact absurd ((shorter_cons.mp within).1 most tag ends) (by omega)
  | cons line content ih =>
    cases others with
    | nil =>
      obtain ⟨rfl, -⟩ := List.cons.inj same
      exact absurd ((shorter_cons.mp inside).1 least other stops) (by omega)
    | cons first others =>
      obtain ⟨rfl, tail⟩ := List.cons.inj same
      obtain ⟨rfl, rfl, rfl⟩ := ih (shorter_cons.mp inside).2 (shorter_cons.mp within).2 tail
      exact ⟨rfl, rfl, rfl⟩

theorem exists_divides (opens : List Char → Prop) (lines : List (List Char)) :
    ∃ segments, Divides opens lines segments := by
  induction size : lines.length using Nat.strongRecOn generalizing lines with
  | ind size ih =>
    subst size
    cases lines with
    | nil => exact ⟨[], .done⟩
    | cons line rest =>
      by_cases begins : ∃ marks tag, IsFence marks tag line ∧ opens tag
      · obtain ⟨marks, tag, fence, opened⟩ := begins
        by_cases shorter : Shorter marks rest
        · exact ⟨_, .unclosed fence opened shorter⟩
        · obtain ⟨content, closing, others, most, other, rfl, inside, ends, enough⟩ :=
            exists_closing shorter
          obtain ⟨segments, divided⟩ := ih others.length (by simp; omega) others rfl
          exact ⟨_, .block fence opened inside ends enough divided⟩
      · obtain ⟨segments, divided⟩ := ih rest.length (Nat.lt_succ_self _) rest rfl
        exact ⟨_, .prose (fun marks tag fence opened => begins ⟨marks, tag, fence, opened⟩) divided⟩

theorem Divides.unique {segments again : List Segment} (divided : Divides opens lines segments)
    (redivided : Divides opens lines again) : segments = again := by
  induction divided generalizing again with
  | done =>
    cases redivided
    rfl
  | prose plain others ih =>
    cases redivided with
    | prose _ remain => rw [ih remain]
    | block begins opened => exact absurd opened (plain _ _ begins)
    | unclosed begins opened => exact absurd opened (plain _ _ begins)
  | block begins opened inside ends enough others ih =>
    generalize whole : _ :: (_ ++ _) = all at redivided
    cases redivided with
    | done => cases whole
    | prose plain =>
      obtain ⟨rfl, -⟩ := List.cons.inj whole
      exact absurd opened (plain _ _ begins)
    | block rebegins _ within stops long remain =>
      obtain ⟨rfl, tail⟩ := List.cons.inj whole
      obtain ⟨rfl, rfl⟩ := begins.unique rebegins
      obtain ⟨rfl, rfl, rfl⟩ := closing_unique inside ends enough within stops long tail
      rw [ih remain]
    | unclosed rebegins _ within =>
      obtain ⟨rfl, rfl⟩ := List.cons.inj whole
      obtain ⟨rfl, rfl⟩ := begins.unique rebegins
      exact absurd (within _ (by simp) _ _ ends) (by omega)
  | unclosed begins opened inside =>
    cases redivided with
    | prose plain => exact absurd opened (plain _ _ begins)
    | block rebegins _ _ ends enough =>
      obtain ⟨rfl, rfl⟩ := begins.unique rebegins
      exact absurd (inside _ (by simp) _ _ ends) (by omega)
    | unclosed rebegins =>
      obtain ⟨rfl, rfl⟩ := begins.unique rebegins
      rfl

end Division

namespace Segment

def lines : Segment → List (List Char)
  | prose line => [line]
  | block _ opening content closing => opening :: (content ++ closing.toList)

/-- The lines of a segment with all left empty but the content of a block of program text. -/
def kept : Segment → List (List Char)
  | prose _ => [[]]
  | block tag _ content closing =>
    [] :: ((if tag = fenceTag then content else content.map fun _ => []) ++
      closing.toList.map fun _ => [])

def dissolved : Segment → List Segment
  | prose line => [prose line]
  | block tag opening content closing =>
    if tag = fenceTag then [block tag opening content closing]
    else (opening :: (content ++ closing.toList)).map prose

/-- A block with another tag in which some line, be it the last one, is a fence of program text. -/
def Misleads : Segment → Prop
  | prose _ => False
  | block tag _ content closing => tag ≠ fenceTag ∧
    ∃ line ∈ content ++ closing.toList, ∃ marks, IsFence marks fenceTag line

def EndsMisleading : Segment → Prop
  | prose _ => False
  | block tag _ _ closing => tag ≠ fenceTag ∧ ∃ line ∈ closing, ∃ marks, IsFence marks fenceTag line

def shown : Segment → List (List Char)
  | prose _ => [[]]
  | block tag _ content closing =>
    [] :: ((if tag = fenceTag then content else keepPrograms none [] content) ++
      closing.toList.map fun _ => [])

end Segment

section Extraction

variable {opened : Option Nat} {marks most : Nat} {tag other line : List Char}
  {lines content rest : List (List Char)} {segments : List Segment}

theorem readLine_opening (fence : IsFence marks tag line) :
    readLine none line = (if tag = fenceTag then some marks else none, false) := by
  obtain ⟨length, rfl⟩ := isFence_iff.mp fence
  simp [readLine, length]

theorem readLine_prose (plain : ∀ marks tag, IsFence marks tag line → tag ≠ fenceTag) :
    readLine none line = (none, false) := by
  cases length : fenceLength? line with
  | none => simp [readLine, length]
  | some marks => simp [readLine, length, plain marks _ (isFence_iff.mpr ⟨length, rfl⟩)]

theorem readLine_inside (short : ∀ fewer tag, IsFence fewer tag line → fewer < marks) :
    readLine (some marks) line = (some marks, true) := by
  cases length : fenceLength? line with
  | none => simp [readLine, length]
  | some fewer =>
    have less := short fewer _ (isFence_iff.mpr ⟨length, rfl⟩)
    simp [readLine, length, Nat.not_le_of_lt less]

theorem readLine_closing (fence : IsFence most other line) (enough : marks ≤ most) :
    readLine (some marks) line = (none, false) := by
  obtain ⟨length, rfl⟩ := isFence_iff.mp fence
  simp [readLine, length, enough]

def openedAfter (opened : Option Nat) (lines : List (List Char)) : Option Nat :=
  lines.foldl (fun opened line => (readLine opened line).1) opened

theorem keepPrograms_found (opened : Option Nat) (found lines : List (List Char)) :
    keepPrograms opened found lines = found.reverse ++ keepPrograms opened [] lines := by
  induction lines generalizing opened found with
  | nil => simp [keepPrograms]
  | cons line lines ih =>
    rw [keepPrograms, keepPrograms]
    dsimp only
    rw [ih, ih _ [_]]
    simp

theorem keepPrograms_cons (opened : Option Nat) (line : List Char) (lines : List (List Char)) :
    keepPrograms opened [] (line :: lines) = (if (readLine opened line).2 then line else []) ::
      keepPrograms (readLine opened line).1 [] lines := by
  rw [keepPrograms]
  dsimp only
  rw [keepPrograms_found]
  rfl

theorem keepPrograms_append (opened : Option Nat) (front back : List (List Char)) :
    keepPrograms opened [] (front ++ back) =
      keepPrograms opened [] front ++ keepPrograms (openedAfter opened front) [] back := by
  induction front generalizing opened with
  | nil => rfl
  | cons line front ih =>
    rw [List.cons_append, keepPrograms_cons, keepPrograms_cons, ih]
    rfl

theorem openedAfter_inside (shorter : Shorter marks content) :
    openedAfter (some marks) content = some marks := by
  induction content with
  | nil => rfl
  | cons line content ih =>
    obtain ⟨short, others⟩ := shorter_cons.mp shorter
    rw [openedAfter, List.foldl_cons, readLine_inside short]
    exact ih others

theorem keepPrograms_inside (shorter : Shorter marks content) :
    keepPrograms (some marks) [] content = content := by
  induction content with
  | nil => rfl
  | cons line content ih =>
    obtain ⟨short, others⟩ := shorter_cons.mp shorter
    rw [keepPrograms_cons, readLine_inside short, ih others]
    rfl

theorem keepPrograms_block {opening closing : List Char} (begins : IsFence marks fenceTag opening)
    (inside : Shorter marks content) (ends : IsFence most other closing) (enough : marks ≤ most)
    (rest : List (List Char)) :
    keepPrograms none [] (opening :: (content ++ closing :: rest)) =
      [] :: (content ++ [] :: keepPrograms none [] rest) := by
  rw [keepPrograms_cons, readLine_opening begins]
  dsimp only
  rw [if_pos rfl, keepPrograms_append, keepPrograms_inside inside, openedAfter_inside inside,
    keepPrograms_cons, readLine_closing ends enough]
  rfl

theorem keepPrograms_unclosed {opening : List Char} (begins : IsFence marks fenceTag opening)
    (inside : Shorter marks content) :
    keepPrograms none [] (opening :: content) = [] :: content := by
  rw [keepPrograms_cons, readLine_opening begins]
  dsimp only
  rw [if_pos rfl, keepPrograms_inside inside]
  rfl

/-- Program text is what stands in the blocks that only its own fences open. -/
theorem Divides.kept (divided : Divides (· = fenceTag) lines segments) :
    keepPrograms none [] lines = segments.flatMap Segment.kept := by
  induction divided with
  | done => rfl
  | prose plain others ih =>
    rw [keepPrograms_cons, readLine_prose plain, ih]
    rfl
  | block begins opened inside ends enough others ih =>
    subst opened
    rw [keepPrograms_block begins inside ends enough, ih]
    simp [Segment.kept]
  | unclosed begins opened inside =>
    subst opened
    rw [keepPrograms_unclosed begins inside]
    simp [Segment.kept]

theorem dissolved_kept (segment : Segment) :
    segment.dissolved.flatMap Segment.kept = segment.kept := by
  cases segment with
  | prose line => rfl
  | block tag opening content closing =>
    by_cases program : tag = fenceTag
    · simp [Segment.dissolved, program]
    · simp only [Segment.dissolved, if_neg program, List.flatMap_map, Segment.kept]
      exact (List.map_eq_flatMap (f := fun _ => [])).symm.trans (by simp)

theorem Divides.prose_plain {opens : List Char → Prop} (divided : Divides opens lines segments)
    (member : .prose line ∈ segments) (fence : IsFence marks tag line) : ¬opens tag := by
  induction divided with
  | done => cases member
  | prose plain others ih =>
    rcases List.mem_cons.mp member with same | inside
    · cases same
      exact plain marks tag fence
    · exact ih inside
  | block begins opened inside ends enough others ih =>
    rcases List.mem_cons.mp member with same | within
    · cases same
    · exact ih within
  | unclosed => simp at member

theorem Divides.prose_append {opens : List Char → Prop} (divided : Divides opens rest segments)
    (plain : ∀ line ∈ lines, ∀ marks tag, IsFence marks tag line → ¬opens tag) :
    Divides opens (lines ++ rest) (lines.map Segment.prose ++ segments) := by
  induction lines with
  | nil => exact divided
  | cons line lines ih =>
    exact .prose (plain line List.mem_cons_self)
      (ih fun other inside => plain other (List.mem_cons_of_mem line inside))

theorem plain_of_honest {opening : List Char} {closing : Option (List Char)}
    (begins : IsFence marks tag opening) (foreign : tag ≠ fenceTag)
    (honest : ¬(Segment.block tag opening content closing).Misleads) :
    ∀ line ∈ opening :: (content ++ closing.toList), ∀ marks tag, IsFence marks tag line →
      ¬tag = fenceTag := by
  rintro line member more other fence rfl
  rcases List.mem_cons.mp member with rfl | inside
  · exact foreign (begins.unique fence).2
  · exact honest ⟨foreign, line, inside, more, fence⟩

/-- With the other blocks cut up, a division at all fences is the one at fences of program text,
unless such a fence is found among what was cut up. -/
theorem Divides.dissolved_iff (divided : Divides (fun _ => True) lines segments) :
    Divides (· = fenceTag) lines (segments.flatMap Segment.dissolved) ↔
      ∀ segment ∈ segments, ¬segment.Misleads := by
  constructor
  · intro redivided segment member misleads
    cases segment with
    | prose line => exact misleads
    | block tag opening content closing =>
      obtain ⟨foreign, line, inside, marks, fence⟩ := misleads
      refine redivided.prose_plain ?_ fence rfl
      refine List.mem_flatMap.mpr ⟨_, member, ?_⟩
      rw [Segment.dissolved, if_neg foreign]
      exact List.mem_map_of_mem (List.mem_cons_of_mem opening inside)
  · intro honest
    induction divided with
    | done => exact .done
    | prose plain others ih =>
      exact .prose (fun marks tag fence => absurd trivial (plain marks tag fence))
        (ih fun segment inside => honest segment (List.mem_cons_of_mem _ inside))
    | @block marks most tag other opening closing content rest segments begins opened inside ends
        enough others ih =>
      have behind := ih fun segment inside => honest segment (List.mem_cons_of_mem _ inside)
      rw [List.flatMap_cons, Segment.dissolved]
      by_cases program : tag = fenceTag
      · rw [if_pos program]
        exact .block begins program inside ends enough behind
      · rw [if_neg program]
        have whole := behind.prose_append
          (plain_of_honest begins program (honest _ List.mem_cons_self))
        simpa using whole
    | @unclosed marks tag opening content begins opened inside =>
      rw [List.flatMap_singleton, Segment.dissolved]
      by_cases program : tag = fenceTag
      · rw [if_pos program]
        exact .unclosed begins program inside
      · rw [if_neg program]
        have whole := Divides.done.prose_append
          (plain_of_honest begins program (honest _ List.mem_cons_self))
        simpa using whole

theorem readLine_shorter (bounded : ∀ least ∈ opened, least < marks)
    (short : ∀ fewer tag, IsFence fewer tag line → fewer < marks) :
    ∀ least ∈ (readLine opened line).1, least < marks := by
  cases opened with
  | none =>
    by_cases fence : ∃ count tag, IsFence count tag line
    · obtain ⟨count, tag, fence⟩ := fence
      rw [readLine_opening fence]
      split
      · intro least same
        cases same
        exact short count tag fence
      · simp
    · rw [readLine_prose fun count tag found => absurd ⟨count, tag, found⟩ fence]
      simp
  | some least =>
    by_cases closes : ∃ count tag, IsFence count tag line ∧ least ≤ count
    · obtain ⟨count, tag, fence, enough⟩ := closes
      rw [readLine_closing fence enough]
      simp
    · rw [readLine_inside fun count tag fence =>
        Nat.lt_of_not_le fun enough => closes ⟨count, tag, fence, enough⟩]
      exact bounded

theorem openedAfter_shorter (bounded : ∀ least ∈ opened, least < marks)
    (shorter : Shorter marks content) : ∀ least ∈ openedAfter opened content, least < marks := by
  induction content generalizing opened with
  | nil => exact bounded
  | cons line content ih =>
    obtain ⟨short, others⟩ := shorter_cons.mp shorter
    exact ih (readLine_shorter bounded short) others

theorem readLine_behind (bounded : ∀ least ∈ opened, least < marks)
    (fence : IsFence most other line) (enough : marks ≤ most) (foreign : other ≠ fenceTag) :
    readLine opened line = (none, false) := by
  cases opened with
  | none => rw [readLine_opening fence, if_neg foreign]
  | some least =>
    have less := Nat.lt_of_lt_of_le (bounded least rfl) enough
    exact readLine_closing fence (Nat.le_of_lt less)

/-- What is kept of a block with another tag is what is kept of its content alone, unless a fence of
program text closes it. -/
theorem Divides.shown (divided : Divides (fun _ => True) lines segments)
    (honest : ∀ segment ∈ segments, ¬segment.EndsMisleading) :
    keepPrograms none [] lines = segments.flatMap Segment.shown := by
  induction divided with
  | done => rfl
  | prose plain others ih =>
    rw [keepPrograms_cons, readLine_prose fun marks tag fence => absurd trivial (plain marks tag fence),
      ih fun segment inside => honest segment (List.mem_cons_of_mem _ inside)]
    rfl
  | @block marks most tag other opening closing content rest segments begins opened inside ends
      enough others ih =>
    have behind := ih fun segment inside => honest segment (List.mem_cons_of_mem _ inside)
    by_cases program : tag = fenceTag
    · subst program
      rw [keepPrograms_block begins inside ends enough, behind]
      simp [Segment.shown]
    -- What the content begins has a fence shorter than the closing one, which so ends that as well.
    · have last : other ≠ fenceTag := by
        rintro rfl
        exact honest _ List.mem_cons_self ⟨program, closing, rfl, most, ends⟩
      have bounded : ∀ least ∈ openedAfter none content, least < marks :=
        openedAfter_shorter (by simp) inside
      rw [keepPrograms_cons, readLine_opening begins]
      dsimp only
      rw [if_neg program, keepPrograms_append, keepPrograms_cons,
        readLine_behind bounded ends enough last, behind]
      simp [Segment.shown, program]
  | @unclosed marks tag opening content begins opened inside =>
    by_cases program : tag = fenceTag
    · subst program
      rw [keepPrograms_unclosed begins inside]
      simp [Segment.shown]
    · rw [keepPrograms_cons, readLine_opening begins]
      dsimp only
      rw [if_neg program]
      simp [Segment.shown, program]

end Extraction

def textOf (lines : List (List Char)) : List Char := lines.flatMap fun line => line ++ ['\n']

theorem toList_programText {path : String} (literate : isLiterate path = true) (content : String) :
    (programText path content).toList = textOf (keepPrograms none [] (Text.lines content.toList)) := by
  rw [programText, if_pos literate, String.toList_ofList]
  rfl

/-- Whatever fences open a block, a literate text is divided in one way. The program text in it is
the content of the blocks that are opened by fences of program text alone. Those are the blocks with
its tag in the division at all fences, with the others cut up, exactly if in none of the others there
is a fence of program text, and then nothing is kept of the others. If none of them is closed by such
a fence, then of each of them just so much is kept as would be of its content alone. -/
theorem program_text_is_between_its_own_fences (path content : String)
    (literate : isLiterate path = true) :
    let lines := Text.lines content.toList
    (∀ opens, ∃ segments, Divides opens lines segments ∧
      ∀ other, Divides opens lines other → other = segments) ∧
    ∀ found segments, Divides (· = fenceTag) lines found → Divides (fun _ => True) lines segments →
      (programText path content).toList = textOf (found.flatMap Segment.kept) ∧
      (found = segments.flatMap Segment.dissolved ↔ ∀ segment ∈ segments, ¬segment.Misleads) ∧
      ((∀ segment ∈ segments, ¬segment.Misleads) →
        (programText path content).toList = textOf (segments.flatMap Segment.kept)) ∧
      ((∀ segment ∈ segments, ¬segment.EndsMisleading) →
        (programText path content).toList = textOf (segments.flatMap Segment.shown)) := by
  intro lines
  have text := toList_programText literate content
  refine ⟨fun opens => ?_, fun found segments divided whole => ?_⟩
  · obtain ⟨segments, divided⟩ := exists_divides opens lines
    exact ⟨segments, divided, fun other again => again.unique divided⟩
  have same : found = segments.flatMap Segment.dissolved ↔
      ∀ segment ∈ segments, ¬segment.Misleads := by
    rw [← whole.dissolved_iff]
    exact ⟨fun equal => equal ▸ divided, divided.unique⟩
  refine ⟨text.trans (congrArg textOf divided.kept), same, fun honest => ?_, fun honest => ?_⟩
  · have kept : found.flatMap Segment.kept = segments.flatMap Segment.kept := by
      rw [same.mpr honest, List.flatMap_assoc]
      simp only [dissolved_kept]
    exact text.trans (congrArg textOf (divided.kept.trans kept))
  · exact text.trans (congrArg textOf (whole.shown honest))

theorem isLiterate_md : isLiterate "a.md" = true := by
  have parts : "a.md".splitOn "/" = ["a.md"] := by
    rw [String.splitOn, if_neg (by decide +kernel)]
    iterate 4
      rw [String.splitOnAux, if_neg (by decide +kernel)]
      simp only []
      rw [if_neg (by decide +kernel)]
    rw [String.splitOnAux, if_pos (by decide +kernel)]
    decide +kernel
  rw [isLiterate, pathParts, parts]
  decide +kernel

theorem shorter_of_fenceLength {marks : Nat} {lines : List (List Char)}
    (short : ∀ line ∈ lines, ∀ fewer ∈ fenceLength? line, fewer < marks) : Shorter marks lines :=
  fun line member fewer _ fence => short line member fewer (isFence_iff.mp fence).1

/-- A longer fence closes the block with another tag, and no program is shown in it. -/
theorem program_text_is_between_its_own_fences_foreign :
    let content := "```rust\nlet x;\n````\n\n ```` ibp\nlet a = 1;\n```\n"
    let segments : List Segment :=
      [.block ['r', 'u', 's', 't'] "```rust".toList ["let x;".toList] (some "````".toList),
        .prose [], .block fenceTag " ```` ibp".toList ["let a = 1;".toList, "```".toList] none]
    isLiterate "a.md" = true ∧ Divides (fun _ => True) (Text.lines content.toList) segments ∧
      (∀ segment ∈ segments, ¬segment.Misleads) ∧
      (programText "a.md" content).toList = "\n\n\n\n\nlet a = 1;\n```\n".toList := by
  intro content segments
  have lines : Text.lines content.toList = "```rust".toList :: (["let x;".toList] ++
      "````".toList :: ([] :: " ```` ibp".toList :: ["let a = 1;".toList, "```".toList])) := by
    decide +kernel
  have rust : IsFence 3 ['r', 'u', 's', 't'] "```rust".toList :=
    isFence_iff.mpr ⟨by decide +kernel, by decide +kernel⟩
  have longer : IsFence 4 [] "````".toList := isFence_iff.mpr ⟨by decide +kernel, by decide +kernel⟩
  have program : IsFence 4 fenceTag " ```` ibp".toList :=
    isFence_iff.mpr ⟨by decide +kernel, by decide +kernel⟩
  have whole : Divides (fun _ => True) (Text.lines content.toList) segments := by
    rw [lines]
    refine .block rust trivial (shorter_of_fenceLength (by decide +kernel)) longer (by decide)
      (.prose (fun marks tag fence => ?_)
        (.unclosed program trivial (shorter_of_fenceLength (by decide +kernel))))
    cases (isFence_iff.mp fence).1
  have honest : ∀ segment ∈ segments, ¬segment.Misleads := by
    intro segment member misleads
    simp only [segments, List.mem_cons, List.not_mem_nil, or_false] at member
    rcases member with rfl | rfl | rfl
    · obtain ⟨-, line, inside, marks, fence⟩ := misleads
      have tags : ∀ line ∈ ["let x;".toList] ++ (some "````".toList).toList, tagOf line ≠ fenceTag := by
        decide +kernel
      exact tags line inside (isFence_iff.mp fence).2
    · exact misleads
    · exact misleads.1 rfl
  obtain ⟨divided, compared⟩ :=
    program_text_is_between_its_own_fences "a.md" content isLiterate_md
  obtain ⟨found, cut, -⟩ := divided (· = fenceTag)
  obtain ⟨-, -, kept, -⟩ := compared found segments cut whole
  refine ⟨isLiterate_md, whole, honest, (kept honest).trans ?_⟩
  decide +kernel

/-- The program that a block of prose shows, in fences shorter than its own, is taken for program
text. -/
theorem shown_program_is_program_text :
    let content := "````md\n```ibp\nlet a = 1;\n```\n````\n"
    let segments : List Segment := [.block ['m', 'd'] "````md".toList
      ["```ibp".toList, "let a = 1;".toList, "```".toList] (some "````".toList)]
    Divides (fun _ => True) (Text.lines content.toList) segments ∧
      (programText "a.md" content).toList = "\n\nlet a = 1;\n\n\n".toList ∧
      (programText "a.md" content).toList ≠ textOf (segments.flatMap Segment.kept) := by
  intro content segments
  have lines : Text.lines content.toList = "````md".toList ::
      (["```ibp".toList, "let a = 1;".toList, "```".toList] ++ "````".toList :: []) := by
    decide +kernel
  have whole : Divides (fun _ => True) (Text.lines content.toList) segments := by
    rw [lines]
    exact .block (isFence_iff.mpr ⟨by decide +kernel, by decide +kernel⟩) trivial
      (show Shorter 4 _ from shorter_of_fenceLength (by decide +kernel))
      (isFence_iff.mpr ⟨by decide +kernel, rfl⟩) (by decide : 4 ≤ 4) .done
  rw [toList_programText isLiterate_md]
  exact ⟨whole, by decide +kernel, by decide +kernel⟩

end BranchLab.Source
