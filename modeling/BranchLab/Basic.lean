/-! What everything else is built on. Powers of numbers are the built-in ones wherever this is
imported, also next to Mathlib, where they would be read as powers in a monoid. Of two steps that
may fail the second one happens only after the first succeeded. Finite maps are kept as entries in
ascending key order; insertion overwrites the value at a key that is there, and the laws of `get?`
hold of every list of entries, ascending or not. -/

attribute [default_instance 20000] instPowNat

namespace BranchLab

section Failing

variable {ε α β : Type}

@[simp] theorem ok_bind (value : α) (next : α → Except ε β) :
    (Except.ok value >>= next) = next value := rfl

theorem bind_ok {first : Except ε α} {next : α → Except ε β} {result : β} :
    (first >>= next) = .ok result ↔ ∃ value, first = .ok value ∧ next value = .ok result := by
  cases first <;> simp [bind, Except.bind]

theorem bind_error {first : Except ε α} {next : α → Except ε β} {cause : ε} :
    (first >>= next) = .error cause ↔
      first = .error cause ∨ ∃ value, first = .ok value ∧ next value = .error cause := by
  cases first <;> simp [bind, Except.bind]

end Failing

structure Catalog (κ ν : Type) where
  entries : List (κ × ν)
deriving DecidableEq

namespace Catalog

variable {κ ν : Type} [DecidableEq κ] [LT κ] [DecidableLT κ]

def empty : Catalog κ ν := ⟨[]⟩

def find? (key : κ) : List (κ × ν) → Option ν
  | [] => none
  | (other, value) :: rest => if key = other then some value else find? key rest

def place (key : κ) (value : ν) : List (κ × ν) → List (κ × ν)
  | [] => [(key, value)]
  | (other, previous) :: rest =>
    if key = other then (key, value) :: rest
    else if key < other then (key, value) :: (other, previous) :: rest
    else (other, previous) :: place key value rest

def get? (catalog : Catalog κ ν) (key : κ) : Option ν := find? key catalog.entries

def put (catalog : Catalog κ ν) (key : κ) (value : ν) : Catalog κ ν :=
  ⟨place key value catalog.entries⟩

def contains (catalog : Catalog κ ν) (key : κ) : Bool := (catalog.get? key).isSome

def keys (catalog : Catalog κ ν) : List κ := catalog.entries.map Prod.fst

def size (catalog : Catalog κ ν) : Nat := catalog.entries.length

def isEmpty (catalog : Catalog κ ν) : Bool := catalog.entries.isEmpty

/-- The catalog of a list of pairs, a later pair overwriting an earlier one. -/
def ofList (pairs : List (κ × ν)) : Catalog κ ν :=
  pairs.foldl (fun catalog pair => catalog.put pair.1 pair.2) empty

omit [LT κ] [DecidableLT κ] in
@[simp] theorem get?_empty (key : κ) : (empty : Catalog κ ν).get? key = none := rfl

theorem find?_place (key other : κ) (value : ν) (entries : List (κ × ν)) :
    find? other (place key value entries) =
      if other = key then some value else find? other entries := by
  induction entries with
  | nil => simp [place, find?]
  | cons entry rest ih =>
    obtain ⟨head, previous⟩ := entry
    by_cases same : key = head
    · subst same
      by_cases found : other = key <;> simp [place, find?, found]
    · by_cases less : key < head
      · simp [place, find?, same, less]
      · by_cases found : other = key
        · subst found
          simp [place, find?, same, less, ih]
        · simp [place, find?, same, less, ih, found]

/-- Placing a value changes what one key shows and nothing else. -/
theorem get?_put (catalog : Catalog κ ν) (key other : κ) (value : ν) :
    (catalog.put key value).get? other = if other = key then some value else catalog.get? other :=
  find?_place key other value catalog.entries

@[simp] theorem get?_put_self (catalog : Catalog κ ν) (key : κ) (value : ν) :
    (catalog.put key value).get? key = some value := by simp [get?_put]

omit [LT κ] [DecidableLT κ] in
theorem find?_isSome (key : κ) (entries : List (κ × ν)) :
    (find? key entries).isSome = true ↔ key ∈ entries.map Prod.fst := by
  induction entries with
  | nil => simp [find?]
  | cons entry rest ih =>
    obtain ⟨head, previous⟩ := entry
    by_cases same : key = head <;> simp [find?, same, ih]

omit [LT κ] [DecidableLT κ] in
theorem contains_iff_mem_keys (catalog : Catalog κ ν) (key : κ) :
    catalog.contains key = true ↔ key ∈ catalog.keys := find?_isSome key catalog.entries

theorem mem_keys_put (catalog : Catalog κ ν) (key other : κ) (value : ν) :
    other ∈ (catalog.put key value).keys ↔ other = key ∨ other ∈ catalog.keys := by
  rw [← contains_iff_mem_keys, ← contains_iff_mem_keys]
  by_cases same : other = key <;> simp [contains, get?_put, same]

end Catalog
end BranchLab
