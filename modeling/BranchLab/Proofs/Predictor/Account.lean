import Mathlib.Algebra.BigOperators.Group.Finset.Basic
import Mathlib.Algebra.GroupWithZero.Nat
import Mathlib.Data.List.Basic
import BranchLab.Proofs.Predictor.Training

/-! What the account says. Its counts are those of the records since it was last wiped, up to the
greatest count, over all branches and for each branch by itself, and the branches that it lists are
the ones recorded, in ascending order. Below the greatest count the branches add up to the whole. -/

namespace BranchLab

namespace Catalog

variable {ν : Type}

theorem ascending_place (key : Nat) (value : ν) {entries : List (Nat × ν)}
    (ascending : (entries.map Prod.fst).Pairwise (· < ·)) :
    ((place key value entries).map Prod.fst).Pairwise (· < ·) := by
  induction entries with
  | nil => exact List.pairwise_singleton _ _
  | cons entry entries ih =>
    obtain ⟨head, previous⟩ := entry
    rw [List.map_cons, List.pairwise_cons] at ascending
    obtain ⟨below, rest⟩ := ascending
    rw [place]
    split
    · rename_i same
      subst same
      exact List.pairwise_cons.mpr ⟨below, rest⟩
    split
    · rename_i less
      refine List.pairwise_cons.mpr ⟨fun other member => ?_, List.pairwise_cons.mpr ⟨below, rest⟩⟩
      rcases List.mem_cons.mp member with rfl | later
      · exact less
      · exact Nat.lt_trans less (below other later)
    · refine List.pairwise_cons.mpr ⟨fun other member => ?_, ih rest⟩
      rcases (mem_keys_put ⟨entries⟩ key other value).mp member with rfl | later
      · omega
      · exact below other later

/-- Among different keys, an entry is what is found at its key. -/
theorem find?_of_mem {key : Nat} {value : ν} {entries : List (Nat × ν)}
    (distinct : (entries.map Prod.fst).Nodup) (member : (key, value) ∈ entries) :
    find? key entries = some value := by
  induction entries with
  | nil => cases member
  | cons entry entries ih =>
    obtain ⟨head, first⟩ := entry
    obtain ⟨fresh, rest⟩ := List.nodup_cons.mp distinct
    rcases List.mem_cons.mp member with same | later
    · cases same
      exact if_pos rfl
    · have listed : key ∈ entries.map Prod.fst := List.mem_map_of_mem later
      have other : key ≠ head := fun same => fresh (same ▸ listed)
      exact (if_neg other).trans (ih rest later)

end Catalog

/-- A list of branches is made up of the occurrences of each. -/
theorem sum_count_eq_length {branches pcs : List Nat} (distinct : branches.Nodup)
    (inside : ∀ pc ∈ pcs, pc ∈ branches) :
    (branches.map fun pc => pcs.count pc).sum = pcs.length := by
  have counted : ∀ pc ∈ (pcs : Multiset Nat), pc ∈ branches.toFinset := fun pc member =>
    List.mem_toFinset.mpr (inside pc member)
  rw [← List.sum_toFinset _ distinct]
  simpa using Multiset.sum_count_eq_card counted

/-- Below the limit nothing is cut off. -/
theorem sum_min_count_eq {branches pcs : List Nat} {limit : Nat} (distinct : branches.Nodup)
    (inside : ∀ pc ∈ pcs, pc ∈ branches) (few : pcs.length ≤ limit) :
    (branches.map fun pc => min (pcs.count pc) limit).sum = min pcs.length limit := by
  have uncut (pc : Nat) : min (pcs.count pc) limit = pcs.count pc :=
    Nat.min_eq_left (List.count_le_length.trans few)
  simp only [uncut, Nat.min_eq_left few]
  exact sum_count_eq_length distinct inside

namespace Tally

theorem countUp_min (count : Nat) : countUp (min count countLimit) = min (count + 1) countLimit := by
  rw [countUp]
  omega

theorem record_min (total correct : Nat) (hit : Bool) :
    (mk (min total countLimit) (min correct countLimit)).record hit =
      ⟨min (total + 1) countLimit, min (correct + hit.toNat) countLimit⟩ := by
  cases hit
  · exact congrArg (mk · _) (countUp_min total)
  · exact congr (congrArg mk (countUp_min total)) (countUp_min correct)

end Tally

namespace Ledger

inductive Entry where
  | record (pc : Nat) (correct : Bool)
  | reset

def enter (ledger : Ledger) : Entry → Ledger
  | .record pc correct => ledger.record pc correct
  | .reset => .empty

def after (ledger : Ledger) (entries : List Entry) : Ledger := entries.foldl enter ledger

/-- The records that no reset has wiped, in order. -/
def standing (entries : List Entry) : List (Nat × Bool) :=
  entries.foldl (fun records entry =>
    match entry with
    | .record pc correct => records ++ [(pc, correct)]
    | .reset => []) []

def resolved (records : List (Nat × Bool)) : List Nat := records.map Prod.fst

def hits (records : List (Nat × Bool)) : List Nat := resolved (records.filter Prod.snd)

structure Counts (ledger : Ledger) (records : List (Nat × Bool)) : Prop where
  overall : ledger.overall =
    ⟨min (resolved records).length countLimit, min (hits records).length countLimit⟩
  site : ∀ pc, ledger.site pc =
    ⟨min ((resolved records).count pc) countLimit, min ((hits records).count pc) countLimit⟩
  keys : ∀ pc, pc ∈ ledger.sites.keys ↔ pc ∈ resolved records
  ascending : ledger.sites.keys.Pairwise (· < ·)

theorem resolved_snoc (records : List (Nat × Bool)) (pc : Nat) (correct : Bool) :
    resolved (records ++ [(pc, correct)]) = resolved records ++ [pc] := by simp [resolved]

theorem hits_snoc (records : List (Nat × Bool)) (pc : Nat) (correct : Bool) :
    hits (records ++ [(pc, correct)]) = hits records ++ if correct then [pc] else [] := by
  cases correct <;> simp [hits, resolved]

theorem counts_empty : Counts empty [] where
  overall := rfl
  site _ := rfl
  keys _ := Iff.rfl
  ascending := .nil

variable {ledger : Ledger} {records : List (Nat × Bool)}

theorem Counts.record (counts : Counts ledger records) (pc : Nat) (correct : Bool) :
    Counts (ledger.record pc correct) (records ++ [(pc, correct)]) where
  overall := by
    refine (congrArg (Tally.record · correct) counts.overall).trans ?_
    rw [Tally.record_min, resolved_snoc, hits_snoc]
    cases correct <;> simp
  site other := by
    rw [site_record, resolved_snoc, hits_snoc]
    by_cases same : other = pc
    · subst same
      rw [if_pos rfl, counts.site, Tally.record_min]
      cases correct <;> simp
    · rw [if_neg same, counts.site]
      have different : pc ≠ other := Ne.symm same
      cases correct <;> simp [different]
  keys other := by
    rw [resolved_snoc, List.mem_append, List.mem_singleton, ← counts.keys other, or_comm]
    exact Catalog.mem_keys_put ..
  ascending := Catalog.ascending_place pc _ counts.ascending

theorem counts_after (entries : List Entry) : Counts (empty.after entries) (standing entries) := by
  induction entries using List.reverseRecOn with
  | nil => exact counts_empty
  | append_singleton entries entry ih =>
    rw [Ledger.after, standing, List.foldl_append, List.foldl_append]
    cases entry with
    | record pc correct => exact ih.record pc correct
    | reset => exact counts_empty

/-- Each branch is listed once, with its tally. -/
theorem Counts.entries (counts : Counts ledger records) :
    ledger.sites.entries = ledger.sites.keys.map fun pc => (pc, ledger.site pc) := by
  have distinct : ledger.sites.keys.Nodup := counts.ascending.imp Nat.ne_of_lt
  rw [Catalog.keys, List.map_map]
  refine (List.map_id'' (fun entry => rfl) _).symm.trans (List.map_congr_left fun entry member => ?_)
  have found : ledger.sites.get? entry.1 = some entry.2 := Catalog.find?_of_mem distinct member
  have shown : ledger.site entry.1 = entry.2 := by
    rw [Ledger.site, found, Option.getD_some]
  exact Prod.ext rfl shown.symm

theorem hits_sublist (records : List (Nat × Bool)) :
    (hits records).Sublist (resolved records) := List.filter_sublist.map Prod.fst

theorem Counts.correct_le (counts : Counts ledger records) :
    ledger.overall.correct ≤ ledger.overall.total ∧
      ∀ pc, (ledger.site pc).correct ≤ (ledger.site pc).total := by
  have fewer := hits_sublist records
  refine ⟨?_, fun pc => ?_⟩
  · rw [counts.overall]
    exact min_le_min_right countLimit fewer.length_le
  · rw [counts.site]
    exact min_le_min_right countLimit (fewer.count_le pc)

theorem Counts.sums (counts : Counts ledger records) (few : records.length < 2 ^ 64) :
    (ledger.sites.entries.map fun entry => entry.2.total).sum = ledger.overall.total ∧
      (ledger.sites.entries.map fun entry => entry.2.correct).sum = ledger.overall.correct := by
  have distinct : ledger.sites.keys.Nodup := counts.ascending.imp Nat.ne_of_lt
  have limit : (resolved records).length ≤ countLimit := by
    rw [resolved, List.length_map]
    exact Nat.le_sub_one_of_lt few
  have fewer := hits_sublist records
  rw [counts.entries, List.map_map, List.map_map, counts.overall]
  constructor
  · have each := fun pc => congrArg Tally.total (counts.site pc)
    refine (congrArg List.sum (List.map_congr_left fun pc _ => each pc)).trans ?_
    exact sum_min_count_eq distinct (fun pc member => (counts.keys pc).mpr member) limit
  · have each := fun pc => congrArg Tally.correct (counts.site pc)
    refine (congrArg List.sum (List.map_congr_left fun pc _ => each pc)).trans ?_
    exact sum_min_count_eq distinct (fun pc member => (counts.keys pc).mpr (fewer.subset member))
      (fewer.length_le.trans limit)

theorem length_resolved (records : List (Nat × Bool)) : (resolved records).length = records.length :=
  List.length_map Prod.fst

theorem length_hits (records : List (Nat × Bool)) : (hits records).length = records.countP Prod.snd :=
  (List.length_map Prod.fst).trans List.countP_eq_length_filter.symm

theorem count_resolved (records : List (Nat × Bool)) (pc : Nat) :
    (resolved records).count pc = records.countP (·.1 == pc) := List.countP_map

theorem count_hits (records : List (Nat × Bool)) (pc : Nat) :
    (hits records).count pc = records.countP fun r => r.1 == pc && r.2 :=
  (count_resolved _ pc).trans List.countP_filter

end Ledger

namespace Bank

variable (bank : Bank) (ledger : Ledger) (events : List BranchEvent)

def scored : List (Nat × Bool) :=
  List.zipWith (fun event prediction => (event.pc, prediction.correct)) events
    (bank.predictions ledger events)

theorem resolved_scored :
    Ledger.resolved (bank.scored ledger events) = events.map BranchEvent.pc := by
  induction events generalizing bank ledger with
  | nil => rfl
  | cons event events ih => exact congrArg (event.pc :: ·) (ih _ _)

theorem countP_scored : (bank.scored ledger events).countP Prod.snd =
    (bank.predictions ledger events).countP Prediction.correct := by
  induction events generalizing bank ledger with
  | nil => rfl
  | cons event events ih =>
    refine (List.countP_cons ..).trans (Eq.trans ?_ (List.countP_cons ..).symm)
    exact congrArg (· + _) (ih _ _)

/-- The predictions of a bank are recorded one after another. -/
theorem account_after : (bank.after ledger events).2 =
    ledger.after (List.zipWith (fun event prediction => .record event.pc prediction.correct) events
      (bank.predictions ledger events)) := by
  induction events generalizing bank ledger with
  | nil => rfl
  | cons event events ih => exact ih _ _

variable {ledger} in
theorem counts_scored {records : List (Nat × Bool)} (counts : ledger.Counts records) :
    (bank.after ledger events).2.Counts (records ++ bank.scored ledger events) := by
  induction events generalizing bank ledger records with
  | nil => simpa [after, scored, predictions] using counts
  | cons event events ih =>
    have next := ih (bank.predictAndUpdate event ledger).2.1
      (counts.record event.pc (bank.predictAndUpdate event ledger).1.correct)
    rw [List.append_assoc] at next
    exact next

end Bank

namespace Ledger

/-- After any records and resets of an account that was empty, its counts are those of the records
since the last reset, and it lists just their branches, once each and in ascending order. No count of
correct predictions is above the count of all, and below the greatest count the branches add up to the
whole. A bank that predicts branches makes one record for each, of whether its prediction was
correct. -/
theorem account_counts_exactly :
    (∀ entries : List Entry,
      let ledger := empty.after entries
      let records := standing entries
      ledger.overall =
        ⟨min records.length (2 ^ 64 - 1), min (records.countP Prod.snd) (2 ^ 64 - 1)⟩ ∧
      (∀ pc, ledger.site pc =
        ⟨min (records.countP (·.1 == pc)) (2 ^ 64 - 1),
          min (records.countP fun r => r.1 == pc && r.2) (2 ^ 64 - 1)⟩) ∧
      ledger.sites.entries = ledger.sites.keys.map (fun pc => (pc, ledger.site pc)) ∧
      ledger.sites.keys.Pairwise (· < ·) ∧
      (∀ pc, pc ∈ ledger.sites.keys ↔ ∃ correct, (pc, correct) ∈ records) ∧
      (ledger.overall.correct ≤ ledger.overall.total ∧
        ∀ pc, (ledger.site pc).correct ≤ (ledger.site pc).total) ∧
      (records.length < 2 ^ 64 →
        (ledger.sites.entries.map fun entry => entry.2.total).sum = ledger.overall.total ∧
        (ledger.sites.entries.map fun entry => entry.2.correct).sum = ledger.overall.correct)) ∧
    ∀ (bank : Bank) (events : List BranchEvent),
      (∀ entries : List Entry,
        let predictions := bank.predictions (empty.after entries) events
        (bank.after (empty.after entries) events).2 = empty.after (entries ++
          List.zipWith (fun event prediction => .record event.pc prediction.correct) events
            predictions)) ∧
      let ledger := (bank.after empty events).2
      let predictions := bank.predictions empty events
      predictions.length = events.length ∧
        ledger.overall = ⟨min events.length (2 ^ 64 - 1),
          min (predictions.countP Prediction.correct) (2 ^ 64 - 1)⟩ := by
  refine ⟨fun entries => ?_, fun bank events => ⟨fun entries => ?_,
    bank.length_predictions empty events, ?_⟩⟩
  · have counts := counts_after entries
    have overall := counts.overall
    rw [length_resolved, length_hits] at overall
    refine ⟨overall, fun pc => ?_, counts.entries, counts.ascending, fun pc => ?_, counts.correct_le,
      counts.sums⟩
    · have site := counts.site pc
      rw [count_resolved, count_hits] at site
      exact site
    · simpa [resolved] using counts.keys pc
  · exact (bank.account_after (empty.after entries) events).trans List.foldl_append.symm
  · have overall := (bank.counts_scored events counts_empty).overall
    rw [List.nil_append, length_hits, Bank.resolved_scored, Bank.countP_scored,
      List.length_map] at overall
    exact overall

/-- Two records are wiped by a reset, and of the three that come later two are of one branch. -/
theorem account_counts_exactly_reset :
    let entries : List Entry :=
      [.record 9 true, .record 4 false, .reset, .record 7 true, .record 4 true, .record 7 false]
    let ledger := empty.after entries
    (standing entries).length < 2 ^ 64 ∧ ledger.overall = ⟨3, 2⟩ ∧
      ledger.sites.entries = [(4, ⟨1, 1⟩), (7, ⟨2, 1⟩)] ∧
      (ledger.sites.entries.map fun entry => entry.2.total).sum = ledger.overall.total := by
  intro entries ledger
  obtain ⟨overall, -, -, -, -, -, sums⟩ := account_counts_exactly.1 entries
  have few : (standing entries).length < 2 ^ 64 := by decide
  exact ⟨few, overall, by decide, (sums few).1⟩

end Ledger
end BranchLab
