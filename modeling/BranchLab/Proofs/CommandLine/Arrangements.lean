import BranchLab.CommandLine.Arguments
import BranchLab.Proofs.Text.Numerals

/-! The arguments of a run in any order. They come in groups: an input, the wish for a trace, or an
option with its value behind it. Every group is read as a whole, so no value is taken for an option
or an input, whatever it looks like; and groups of different options set different things. -/

namespace BranchLab.CommandLine

def Flag.text : Flag → String
  | steps => "--steps"
  | tableSize => "--table-size"
  | counter => "--counter"
  | history => "--history"
  | seed => "--seed"
  | delay => "--delay-ms"

namespace Flag

theorem ofText_text (flag : Flag) : ofText flag.text = some flag := by
  cases flag <;> rfl

theorem text_injective {flag other : Flag} (same : flag.text = other.text) : flag = other := by
  have read : ofText flag.text = some other := by rw [same, ofText_text]
  exact Option.some.inj ((ofText_text flag).symm.trans read)

theorem text_apart (flag : Flag) : asksHelp flag.text = false ∧ flag.text ≠ "--trace" := by
  cases flag <;> decide

end Flag

inductive Setting where
  | steps (count : Nat)
  | tableSize (size : Int)
  | counter (text : String)
  | history (bits : Int)
  | seed (word : UInt64)
  | delay (milliseconds : Nat)
deriving DecidableEq

namespace Setting

def flag : Setting → Flag
  | steps _ => .steps
  | tableSize _ => .tableSize
  | counter _ => .counter
  | history _ => .history
  | seed _ => .seed
  | delay _ => .delay

def text : Setting → String
  | steps count => toString count
  | tableSize size => toString size
  | counter text => text
  | history bits => toString bits
  | seed word => toString word.toNat
  | delay milliseconds => toString milliseconds

/-- Numbers are in the range of their option, and a text has no blanks around it. -/
def Fits : Setting → Prop
  | steps count => count < 2 ^ 32
  | tableSize size => -2 ^ 63 ≤ size ∧ size < 2 ^ 63
  | counter text => Text.Solid text.toList
  | history bits => -2 ^ 63 ≤ bits ∧ bits < 2 ^ 63
  | seed _ => True
  | delay milliseconds => milliseconds < 2 ^ 64

def onto (options : RunOptions) : Setting → RunOptions
  | steps count => { options with steps := count }
  | tableSize size => { options with tableSize := some size }
  | counter text => { options with counter := some text }
  | history bits => { options with history := some bits }
  | seed word => { options with seed := word }
  | delay milliseconds => { options with delay := milliseconds }

theorem onto_comm {setting other : Setting} (apart : setting.flag ≠ other.flag)
    (options : RunOptions) :
    other.onto (setting.onto options) = setting.onto (other.onto options) := by
  cases setting <;> cases other <;> first | rfl | exact absurd rfl apart

theorem onto_again {setting other : Setting} (same : setting.flag = other.flag)
    (options : RunOptions) : other.onto (setting.onto options) = other.onto options := by
  cases setting <;> cases other <;> first | rfl | cases same

theorem Fits.solid {setting : Setting} (fits : setting.Fits) : Text.Solid setting.text.toList := by
  cases setting with
  | steps n | delay n => exact Text.solid_of_forall (Text.isBlank_toString n)
  | tableSize n | history n => exact Text.solid_of_forall (Text.isBlank_toString_int n)
  | counter text => exact fits
  | seed word => exact Text.solid_of_forall (Text.isBlank_toString word.toNat)

theorem signedWord?_toString {n : Int} (fits : -2 ^ 63 ≤ n ∧ n < 2 ^ 63) :
    signedWord? (toString n).toList = some n :=
  Text.signed?_toString ⟨fits.1, Int.le_sub_one_of_lt fits.2⟩

theorem Fits.set? {setting : Setting} (fits : setting.Fits) (options : RunOptions) :
    setting.flag.set? setting.text options = some (setting.onto options) := by
  unfold Flag.set?
  rw [fits.solid.trim]
  cases setting with
  | steps n | delay n =>
    have bound := Nat.le_sub_one_of_lt fits
    simp only [flag, text, Text.unsigned?_toString n bound, Option.map_some, onto]
  | tableSize n | history n =>
    simp only [flag, text, signedWord?_toString fits, Option.map_some, onto]
  | counter text => simp only [flag, Setting.text, String.ofList_toList, onto]
  | seed word =>
    have bound := Nat.le_sub_one_of_lt word.toNat_lt
    simp only [flag, text, Text.unsigned?_toString word.toNat bound, Option.map_some,
      UInt64.ofNat_toNat, onto]

end Setting

inductive Group where
  | input (path : String)
  | trace
  | option (setting : Setting)
deriving DecidableEq

namespace Group

def arguments : Group → List String
  | input path => [path]
  | trace => ["--trace"]
  | option setting => [setting.flag.text, setting.text]

/-- An input does not look like an option, and the value of an option is one that it can have. -/
def Fits : Group → Prop
  | input path => ¬path.startsWith "-"
  | trace => True
  | option setting => setting.Fits

def flag? : Group → Option String
  | input _ => none
  | trace => some "--trace"
  | option setting => some setting.flag.text

def input? : Group → Option String
  | input path => some path
  | _ => none

def onto (options : RunOptions) : Group → RunOptions
  | input _ => options
  | trace => { options with trace := true }
  | option setting => setting.onto options

/-- The groups without those whose option comes again later. -/
def latest : List Group → List Group
  | [] => []
  | group :: later =>
    if ∃ flag ∈ group.flag?, flag ∈ later.filterMap flag? then latest later
    else group :: latest later

end Group

def RunOptions.settings (options : RunOptions) : List Setting :=
  .steps options.steps :: options.tableSize.toList.map .tableSize ++
    options.counter.toList.map .counter ++ options.history.toList.map .history ++
    [.seed options.seed, .delay options.delay]

/-- The groups that spell an input with options; an option without a value is left out. -/
def groups (input : String) (options : RunOptions) : List Group :=
  .input input :: (if options.trace then [.trace] else []) ++ options.settings.map .option

section Reading

variable (input : Option String) (options : RunOptions) (rest : List String)

theorem runArguments_input {path : String} (plain : ¬path.startsWith "-") :
    runArguments input options (path :: rest) =
      if input.isSome then .error .manyInputs else runArguments (some path) options rest := by
  have wanted : asksHelp path = false := by
    rw [asksHelp, decide_eq_false_iff_not]
    rintro (rfl | rfl) <;> exact plain (by decide +kernel)
  have traced : path ≠ "--trace" := by
    rintro rfl
    exact plain (by decide +kernel)
  have unflagged : Flag.ofText path = none := by
    unfold Flag.ofText
    split
    case h_7 => rfl
    all_goals exact absurd (by decide +kernel) plain
  rw [runArguments, unflagged]
  simp [wanted, traced, plain]

theorem runArguments_trace : runArguments input options ("--trace" :: rest) =
    runArguments input { options with trace := true } rest := by
  rw [runArguments]
  rfl

theorem runArguments_option {setting : Setting} (fits : setting.Fits) :
    runArguments input options (setting.flag.text :: setting.text :: rest) =
      runArguments input (setting.onto options) rest := by
  obtain ⟨wanted, traced⟩ := setting.flag.text_apart
  rw [runArguments, Flag.ofText_text]
  simp only [wanted, traced, fits.set?, Bool.false_eq_true, if_false]

end Reading

def answer (options : RunOptions) : List String → Except UsageError (String × RunOptions)
  | [] => .error .missingInput
  | [path] => .ok (path, options)
  | _ :: _ :: _ => .error .manyInputs

/-- The groups are read one after another, and the inputs among them make the answer. -/
theorem runArguments_groups {given : List Group} (fits : ∀ group ∈ given, group.Fits)
    (input : Option String) (options : RunOptions) :
    runArguments input options (given.flatMap Group.arguments) =
      answer (given.foldl Group.onto options) (input.toList ++ given.filterMap Group.input?) := by
  induction given generalizing input options with
  | nil => cases input <;> rfl
  | cons group given ih =>
    obtain ⟨first, others⟩ := List.forall_mem_cons.mp fits
    cases group with
    | input path =>
      refine (runArguments_input input options _ first).trans ?_
      cases input with
      | none => exact ih others (some path) options
      | some earlier => rfl
    | trace => exact (runArguments_trace input options _).trans (ih others input _)
    | option setting => exact (runArguments_option input options _ first).trans (ih others input _)

namespace Group

def Apart (group other : Group) : Prop := ∀ flag ∈ group.flag?, flag ∉ other.flag?

theorem onto_comm {group other : Group} (apart : group.Apart other) (options : RunOptions) :
    other.onto (group.onto options) = group.onto (other.onto options) := by
  cases group with
  | input path => rfl
  | trace =>
    cases other with
    | input path => rfl
    | trace => exact absurd rfl (apart "--trace" rfl)
    | option setting => cases setting <;> rfl
  | option setting =>
    cases other with
    | input path => rfl
    | trace => cases setting <;> rfl
    | option other =>
      refine Setting.onto_comm (fun same => apart setting.flag.text rfl ?_) options
      rw [flag?, same]
      rfl

theorem onto_again {group other : Group} {flag : String} (sets : group.flag? = some flag)
    (again : other.flag? = some flag) (options : RunOptions) :
    other.onto (group.onto options) = other.onto options := by
  cases group with
  | input path => cases sets
  | trace =>
    cases other with
    | input path => cases again
    | trace => rfl
    | option setting =>
      exact absurd (Option.some.inj (again.trans sets.symm)) setting.flag.text_apart.2
  | option setting =>
    cases other with
    | input path => cases again
    | trace => exact absurd (Option.some.inj (sets.trans again.symm)) setting.flag.text_apart.2
    | option other =>
      have same := Flag.text_injective (Option.some.inj (sets.trans again.symm))
      exact Setting.onto_again same options

/-- An option that comes again later may as well have been left out. -/
theorem foldl_onto_again {group : Group} {flag : String} {later : List Group}
    (sets : group.flag? = some flag) (again : flag ∈ later.filterMap flag?) (options : RunOptions) :
    later.foldl onto (group.onto options) = later.foldl onto options := by
  induction later generalizing options with
  | nil => simp at again
  | cons next later ih =>
    rw [List.foldl_cons, List.foldl_cons]
    by_cases same : next.flag? = some flag
    · rw [onto_again sets same]
    · have apart : group.Apart next := by
        intro other begins
        cases sets.symm.trans begins
        exact same
      have others : flag ∈ later.filterMap flag? := by
        simpa [List.mem_filterMap, same] using again
      rw [onto_comm apart, ih others]

theorem foldl_latest (given : List Group) (options : RunOptions) :
    (latest given).foldl onto options = given.foldl onto options := by
  induction given generalizing options with
  | nil => rfl
  | cons group later ih =>
    rw [latest]
    split
    · rename_i repeated
      obtain ⟨flag, sets, again⟩ := repeated
      rw [ih, List.foldl_cons, foldl_onto_again sets again]
    · rw [List.foldl_cons, List.foldl_cons, ih]

theorem filterMap_input_latest (given : List Group) :
    (latest given).filterMap input? = given.filterMap input? := by
  induction given with
  | nil => rfl
  | cons group later ih =>
    rw [latest]
    split
    · rename_i repeated
      obtain ⟨flag, sets, again⟩ := repeated
      cases group with
      | input path => cases sets
      | trace | option setting => exact ih
    · rw [List.filterMap_cons, List.filterMap_cons, ih]

theorem latest_sublist (given : List Group) : (latest given).Sublist given := by
  induction given with
  | nil => exact .slnil
  | cons group later ih =>
    rw [latest]
    split
    · exact ih.cons group
    · exact ih.cons_cons group

end Group

section Spelling

variable (input : String) (options : RunOptions)

theorem foldl_groups : (groups input options).foldl Group.onto {} = options := by
  rcases options with ⟨steps, _ | size, _ | text, _ | bits, seed, delay, _ | _⟩ <;> rfl

theorem filterMap_groups : (groups input options).filterMap Group.input? = [input] := by
  rcases options with ⟨steps, _ | size, _ | text, _ | bits, seed, delay, _ | _⟩ <;> rfl

theorem flags_groups_sublist : ((groups input options).filterMap Group.flag?).Sublist
    ["--trace", "--steps", "--table-size", "--counter", "--history", "--seed", "--delay-ms"] := by
  rcases options with ⟨steps, _ | size, _ | text, _ | bits, seed, delay, _ | _⟩ <;>
    exact of_decide_eq_true rfl

theorem pairwise_groups : (groups input options).Pairwise Group.Apart := by
  have nodup := (flags_groups_sublist input options).nodup (by decide)
  refine (List.pairwise_filterMap.mp nodup).imp fun different flag begins again => ?_
  exact different flag begins flag again rfl

/-- No two groups get in each other's way. -/
theorem onto_comm_of_mem_groups (group : Group) (member : group ∈ groups input options)
    (other : Group) (among : other ∈ groups input options) (given : RunOptions) :
    other.onto (group.onto given) = group.onto (other.onto given) := by
  have forward := (pairwise_groups input options).imp fun apart => Group.onto_comm apart
  have backward := forward.imp fun same given => (same given).symm
  have alike := List.Pairwise.forall_of_forall_of_flip (fun _ _ _ => rfl) forward backward
  exact alike member among given

end Spelling

/-- However the groups that spell an input with options are arranged, the two are read from them. Of
several groups with the same option only the last one counts, and no second input is accepted
anywhere. -/
theorem arguments_stand_in_any_order :
    (∀ input options, ∀ arrangement : List Group, (∀ group ∈ groups input options, group.Fits) →
      arrangement.Perm (groups input options) →
      runArguments none {} (arrangement.flatMap Group.arguments) = .ok (input, options)) ∧
    ∀ given : List Group, (∀ group ∈ given, group.Fits) →
      runArguments none {} (given.flatMap Group.arguments) =
        runArguments none {} ((Group.latest given).flatMap Group.arguments) ∧
      (2 ≤ (given.filterMap Group.input?).length →
        runArguments none {} (given.flatMap Group.arguments) = .error .manyInputs) := by
  constructor
  · intro input options arrangement fits arranged
    have inputs : arrangement.filterMap Group.input? = [input] := by
      have same := arranged.filterMap Group.input?
      rw [filterMap_groups] at same
      exact List.perm_singleton.mp same
    have assigned : arrangement.foldl Group.onto {} = options := by
      rw [← arranged.symm.foldl_eq' (onto_comm_of_mem_groups input options) {}, foldl_groups]
    have arrangedFits : ∀ group ∈ arrangement, group.Fits :=
      fun group member => fits group (arranged.mem_iff.mp member)
    rw [runArguments_groups arrangedFits, inputs, assigned]
    rfl
  · intro given fits
    have kept : ∀ group ∈ Group.latest given, group.Fits :=
      fun group member => fits group ((Group.latest_sublist given).subset member)
    rw [runArguments_groups fits, runArguments_groups kept, Group.foldl_latest,
      Group.filterMap_input_latest]
    refine ⟨rfl, fun several => ?_⟩
    generalize given.filterMap Group.input? = inputs at several
    rcases inputs with _ | ⟨first, _ | ⟨second, others⟩⟩
    · simp at several
    · simp at several
    · rfl

theorem arguments_stand_in_any_order_lookalikes :
    let options : RunOptions := { tableSize := some (-4), counter := some "--trace", trace := true }
    let arrangement : List Group := [.option (.counter "--trace"), .option (.delay 0),
      .option (.tableSize (-4)), .trace, .input "lesson.md", .option (.seed 0),
      .option (.steps 100)]
    let repeated : List Group := [.option (.history (-1)), .input "a",
      .option (.counter "--history"), .option (.history 3)]
    let crowded : List Group := [.input "a", .option (.steps 7), .trace, .input "b"]
    arrangement.flatMap Group.arguments = ["--counter", "--trace", "--delay-ms", "0",
      "--table-size", "-4", "--trace", "lesson.md", "--seed", "0", "--steps", "100"] ∧
    runArguments none {} (arrangement.flatMap Group.arguments) = .ok ("lesson.md", options) ∧
    runArguments none {} (repeated.flatMap Group.arguments) =
      runArguments none {} (repeated.tail.flatMap Group.arguments) ∧
    runArguments none {} (crowded.flatMap Group.arguments) = .error .manyInputs := by
  intro options arrangement repeated crowded
  obtain ⟨read, settled⟩ := arguments_stand_in_any_order
  refine ⟨by decide +kernel, ?_, ?_, ?_⟩
  · refine read "lesson.md" options arrangement ?_ (by decide)
    simp [groups, RunOptions.settings, options, Group.Fits, Setting.Fits, Text.Solid, Text.isBlank]
  · refine (settled repeated ?_).1
    simp [repeated, Group.Fits, Setting.Fits, Text.Solid, Text.isBlank]
  · refine (settled crowded ?_).2 (by decide)
    simp [crowded, Group.Fits, Setting.Fits]

end BranchLab.CommandLine
