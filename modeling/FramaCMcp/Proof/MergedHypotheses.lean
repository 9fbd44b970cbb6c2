/-
This file shows what the merge of the attempts' hypotheses keeps.
-/

import Mathlib.Data.List.Induction
import FramaCMcp.Construction.MemoryHypotheses

namespace FramaCMcp.MemoryModel

open LargestRows

section Collector

variable [AlphanumericTable]

/-- An entry of the collector names its function and counts no unread warning. -/
def Read (entry : MemoryHypothesis) : Prop :=
  entry.function.isSome = true ∧ entry.unparsedWarningCount = none

theorem addBlock_read {source : Json} {matchedBy : String} {found : List MemoryHypothesis}
    (read : ∀ entry ∈ found, Read entry) (block : String × Line) :
    ∀ entry ∈ addBlock source matchedBy found block, Read entry := by
  rw [addBlock]
  split_ifs
  · exact read
  · intro entry member
    rcases List.mem_append.mp member with earlier | last
    · exact read entry earlier
    · rw [List.mem_singleton.mp last]
      exact ⟨rfl, rfl⟩

theorem addBlocks_read {source : Json} {matchedBy : String} {found : List MemoryHypothesis}
    (read : ∀ entry ∈ found, Read entry) (blocks : List (String × Line)) :
    ∀ entry ∈ blocks.foldl (addBlock source matchedBy) found, Read entry := by
  induction blocks generalizing found with
  | nil => exact read
  | cons block rest ih => exact ih (addBlock_read read block)

theorem collectMessage_read {collection : Collection}
    (read : ∀ entry ∈ collection.found, Read entry) (message : Json) :
    ∀ entry ∈ (collectMessage collection message).found, Read entry := by
  unfold collectMessage
  dsimp only
  split_ifs <;> first | exact read | exact addBlocks_read read _

theorem collected_read (messages : List Json) (collection : Collection)
    (read : ∀ entry ∈ collection.found, Read entry) :
    ∀ entry ∈ (messages.foldl collectMessage collection).found, Read entry := by
  induction messages generalizing collection with
  | nil => exact read
  | cons message rest ih => exact ih _ (collectMessage_read read message)

theorem unparsed_of_named {messages : List Json} {entry : MemoryHypothesis}
    (member : entry ∈ collectMemoryModelHypotheses messages) (name : named entry = true) :
    entry.unparsedWarningCount = none := by
  have read := collected_read messages {} fun _ member => absurd member List.not_mem_nil
  rw [collectMemoryModelHypotheses] at member
  have sorted (held : entry ∈ StableSort.sortByKey hypothesisFunctionName
      (messages.foldl collectMessage {}).found) : entry.unparsedWarningCount = none :=
    (read entry ((StableSort.sortByKey_perm _ _).mem_iff.mp held)).2
  split_ifs at member
  · rcases List.mem_append.mp member with held | last
    · exact sorted held
    · rw [List.mem_singleton.mp last] at name
      cases name
  · exact sorted member

end Collector

/-- The unread warnings are counted at the end. -/
def unreadTail (unparsed : Nat) : List MemoryHypothesis :=
  if 0 < unparsed then [unreadEntry unparsed .null "log_category"] else []

/-- These are the named entries of some readings. -/
def namedRows (readings : List (List MemoryHypothesis)) : Set MemoryHypothesis :=
  Set.ofPred fun entry => (∃ reading ∈ readings, entry ∈ reading) ∧ named entry = true

/-- This is the largest count of unread warnings in one reading. -/
def Counted (readings : List (List MemoryHypothesis)) (unparsed : Nat) : Prop :=
  (∀ reading ∈ readings, unparsedOf reading ≤ unparsed) ∧
    (unparsed = 0 ∨ ∃ reading ∈ readings, unparsedOf reading = unparsed)

/-- Each function has one whole entry, and no reading has a longer one. -/
structure MergesLargest (readings : List (List MemoryHypothesis))
    (merged : List MemoryHypothesis) : Prop where
  whole : ∀ entry ∈ merged, named entry = true → ∃ reading ∈ readings, entry ∈ reading
  largest : ∀ entry ∈ merged, named entry = true → ∀ reading ∈ readings, ∀ other ∈ reading,
    other.function = entry.function → other.hypothesisCount ≤ entry.hypothesisCount
  covers : ∀ reading ∈ readings, ∀ entry ∈ reading, named entry = true →
    ∃ kept ∈ merged, kept.function = entry.function
  ordered : (merged.filterMap MemoryHypothesis.function).Pairwise (· < ·)
  unread : Counted readings (unparsedOf merged)
  last : merged = merged.filter named ++ unreadTail (unparsedOf merged)
  again : ∀ reading ∈ readings, mergeMemoryModelHypotheses merged reading = merged

/-- The largest entries come first in the order of their names. -/
structure Merged (rows : Set MemoryHypothesis) (unparsed : Nat)
    (chosen merged : List MemoryHypothesis) : Prop where
  names : ∀ entry ∈ rows, named entry = true
  silent : ∀ entry ∈ rows, entry.unparsedWarningCount = none
  chooses : Chooses MemoryHypothesis.function MemoryHypothesis.hypothesisCount rows chosen
  sorted : chosen.Pairwise fun left right =>
    hypothesisFunctionName left ≤ hypothesisFunctionName right
  shape : merged = chosen ++ unreadTail unparsed

theorem unparsedOf_unreadTail (unparsed : Nat) : unparsedOf (unreadTail unparsed) = unparsed := by
  rw [unreadTail]
  split_ifs with some
  · rfl
  · exact (Nat.eq_zero_of_not_pos some).symm

theorem mergeMemoryModelHypotheses_eq (into reading : List MemoryHypothesis) :
    mergeMemoryModelHypotheses into reading =
      StableSort.sortByKey hypothesisFunctionName
        ((reading.filter named).foldl (fun kept entry => placeEntry entry kept)
          (into.filter named)) ++ unreadTail (max (unparsedOf into) (unparsedOf reading)) := by
  rw [mergeMemoryModelHypotheses, unreadTail]
  split_ifs
  · rfl
  · exact (List.append_nil _).symm

namespace Merged

variable {rows : Set MemoryHypothesis} {unparsed count : Nat}
  {chosen merged others other reading : List MemoryHypothesis}

theorem filter_named (kept : Merged rows unparsed chosen merged) :
    merged.filter named = chosen := by
  have tail : (unreadTail unparsed).filter named = [] := by
    rw [unreadTail]
    split_ifs <;> rfl
  rw [kept.shape, List.filter_append, tail, List.append_nil]
  exact List.filter_eq_self.mpr fun entry member =>
    kept.names entry (kept.chooses.given entry member)

theorem unparsedOf_eq (kept : Merged rows unparsed chosen merged) : unparsedOf merged = unparsed := by
  have none : chosen.filterMap MemoryHypothesis.unparsedWarningCount = [] :=
    List.filterMap_eq_nil_iff.mpr fun entry member =>
      kept.silent entry (kept.chooses.given entry member)
  rw [kept.shape, unparsedOf, List.filterMap_append, none, List.nil_append]
  exact unparsedOf_unreadTail unparsed

theorem empty : Merged ∅ 0 [] [] :=
  ⟨fun _ member => member.elim, fun _ member => member.elim, Chooses.nil, List.Pairwise.nil, rfl⟩

theorem merge (kept : Merged rows unparsed chosen merged)
    (silent : ∀ entry ∈ reading, named entry = true → entry.unparsedWarningCount = none) :
    ∃ next, Merged (rows ∪ Set.ofPred (· ∈ reading.filter named))
      (max unparsed (unparsedOf reading)) next (mergeMemoryModelHypotheses merged reading) := by
  refine ⟨_, ⟨fun entry member => ?_, fun entry member => ?_,
    (kept.chooses.placeAll (reading.filter named)).of_perm
      (StableSort.sortByKey_perm _ _), StableSort.sortByKey_sorted _ _, ?_⟩⟩
  · exact member.elim (kept.names entry) fun new => (List.mem_filter.mp new).2
  · refine member.elim (kept.silent entry) fun new => ?_
    exact silent entry (List.mem_filter.mp new).1 (List.mem_filter.mp new).2
  · rw [mergeMemoryModelHypotheses_eq, kept.filter_named, kept.unparsedOf_eq]
    rfl

/-- A reading whose entries are known changes nothing. -/
theorem merge_eq_self (kept : Merged rows unparsed chosen merged)
    (known : ∀ entry ∈ reading, named entry = true → entry ∈ rows)
    (counted : unparsedOf reading ≤ unparsed) :
    mergeMemoryModelHypotheses merged reading = merged := by
  have same : (reading.filter named).foldl (fun kept entry => placeEntry entry kept)
      chosen = chosen := kept.chooses.placeAll_eq_self fun entry member =>
    known entry (List.mem_filter.mp member).1 (List.mem_filter.mp member).2
  rw [mergeMemoryModelHypotheses_eq, kept.filter_named, kept.unparsedOf_eq, same,
    StableSort.sortByKey_eq_self _ kept.sorted, max_eq_left counted, ← kept.shape]

/-- The entries of different functions have different names. -/
theorem separates (kept : Merged rows unparsed chosen merged) :
    ∀ left ∈ chosen, ∀ right ∈ chosen,
      hypothesisFunctionName left = hypothesisFunctionName right → left = right := by
  intro left inLeft right inRight same
  obtain ⟨leftName, isLeft⟩ :=
    Option.isSome_iff_exists.mp (kept.names left (kept.chooses.given left inLeft))
  obtain ⟨rightName, isRight⟩ :=
    Option.isSome_iff_exists.mp (kept.names right (kept.chooses.given right inRight))
  rw [hypothesisFunctionName, hypothesisFunctionName, isLeft, isRight] at same
  exact List.inj_on_of_nodup_map kept.chooses.distinct inLeft inRight
    (isLeft.trans ((congrArg some same).trans isRight.symm))

theorem ordered (kept : Merged rows unparsed chosen merged) :
    (merged.filterMap MemoryHypothesis.function).Pairwise (· < ·) := by
  have tail : (unreadTail unparsed).filterMap MemoryHypothesis.function = [] := by
    rw [unreadTail]
    split_ifs <;> rfl
  have distinct := List.pairwise_map.mp kept.chooses.distinct
  rw [kept.shape, List.filterMap_append, tail, List.append_nil, List.pairwise_filterMap]
  refine (kept.sorted.and distinct).imp fun ⟨below, different⟩ name isLeft other isRight => ?_
  rw [hypothesisFunctionName, hypothesisFunctionName, isLeft, isRight] at below
  refine lt_of_le_of_ne below fun same => different ?_
  rw [isLeft, isRight, same]

theorem unique (kept : Merged rows unparsed chosen merged) (second : Merged rows unparsed others other)
    (settled : Settled MemoryHypothesis.function MemoryHypothesis.hypothesisCount rows) :
    other = merged := by
  have same := StableSort.sortByKey_eq_of_perm hypothesisFunctionName chosen others kept.separates
    (kept.chooses.perm_of_settled second.chooses settled)
  rw [StableSort.sortByKey_eq_self _ kept.sorted,
    StableSort.sortByKey_eq_self _ second.sorted] at same
  rw [second.shape, same, ← kept.shape]

end Merged

section Run

variable {readings others : List (List MemoryHypothesis)}

theorem Counted.snoc {unparsed : Nat} (counted : Counted readings unparsed)
    (reading : List MemoryHypothesis) :
    Counted (readings ++ [reading]) (max unparsed (unparsedOf reading)) := by
  refine ⟨fun other member => ?_, ?_⟩
  · rcases List.mem_append.mp member with earlier | last
    · exact (counted.1 other earlier).trans (le_max_left _ _)
    · rw [List.mem_singleton.mp last]
      exact le_max_right _ _
  · rcases le_total (unparsedOf reading) unparsed with small | large
    · rw [max_eq_left small]
      refine counted.2.imp id fun ⟨other, member, same⟩ => ?_
      exact ⟨other, List.mem_append_left _ member, same⟩
    · rw [max_eq_right large]
      exact Or.inr ⟨reading, List.mem_append_right _ (List.mem_singleton_self _), rfl⟩

theorem Counted.unique {first second : Nat} (counted : Counted readings first)
    (again : Counted others second) (same : ∀ reading, reading ∈ others ↔ reading ∈ readings) :
    second = first := by
  have below {small large : Nat} {left right : List (List MemoryHypothesis)}
      (one : Counted left small) (other : Counted right large)
      (inside : ∀ reading ∈ left, reading ∈ right) : small ≤ large := by
    rcases one.2 with rfl | ⟨reading, member, rfl⟩
    · exact Nat.zero_le _
    · exact other.1 reading (inside reading member)
  exact le_antisymm (below again counted fun reading => (same reading).mp)
    (below counted again fun reading => (same reading).mpr)

theorem namedRows_snoc (readings : List (List MemoryHypothesis)) (reading : List MemoryHypothesis) :
    namedRows (readings ++ [reading]) =
      namedRows readings ∪ Set.ofPred (· ∈ reading.filter named) := by
  ext entry
  simp only [namedRows, Set.mem_union, Set.mem_ofPred_eq, List.mem_append, List.mem_singleton,
    List.mem_filter]
  constructor
  · rintro ⟨⟨other, earlier | rfl, member⟩, name⟩
    · exact Or.inl ⟨⟨other, earlier, member⟩, name⟩
    · exact Or.inr ⟨member, name⟩
  · rintro (⟨⟨other, earlier, member⟩, name⟩ | ⟨member, name⟩)
    · exact ⟨⟨other, Or.inl earlier, member⟩, name⟩
    · exact ⟨⟨reading, Or.inr rfl, member⟩, name⟩

/-- After each attempt the merge holds the largest entries of the attempts so far. -/
theorem merged_mergeAttempts (silent : ∀ reading ∈ readings, ∀ entry ∈ reading,
    named entry = true → entry.unparsedWarningCount = none) :
    ∃ chosen unparsed, Counted readings unparsed ∧
      Merged (namedRows readings) unparsed chosen (mergeAttempts readings) := by
  induction readings using List.reverseRec with
  | nil =>
      have nothing : namedRows [] = ∅ := by
        ext entry
        simp [namedRows]
      exact ⟨[], 0, ⟨fun _ member => absurd member List.not_mem_nil, Or.inl rfl⟩,
        nothing ▸ Merged.empty⟩
  | append_singleton readings reading ih =>
      obtain ⟨chosen, unparsed, counted, kept⟩ := ih fun other member =>
        silent other (List.mem_append_left _ member)
      obtain ⟨next, merged⟩ := kept.merge
        (silent reading (List.mem_append_right _ (List.mem_singleton_self _)))
      refine ⟨next, _, counted.snoc reading, ?_⟩
      rw [namedRows_snoc, mergeAttempts, List.foldl_append]
      exact merged

theorem Merged.mergesLargest {unparsed : Nat} {chosen merged : List MemoryHypothesis}
    (counted : Counted readings unparsed)
    (kept : Merged (namedRows readings) unparsed chosen merged) : MergesLargest readings merged := by
  have inside {entry : MemoryHypothesis} (member : entry ∈ merged) (name : named entry = true) :
      entry ∈ chosen := kept.filter_named ▸ List.mem_filter.mpr ⟨member, name⟩
  refine ⟨fun entry member name => (kept.chooses.given entry (inside member name)).1,
    fun entry member name reading listed other held same => ?_,
    fun reading listed entry held name => ?_, ?_, kept.unparsedOf_eq ▸ counted, ?_,
    fun reading listed => ?_⟩
  · refine kept.chooses.largest (inside member name) other ⟨⟨reading, listed, held⟩, ?_⟩ same
    rwa [named, same]
  · obtain ⟨best, member, same, -⟩ := kept.chooses.covers entry ⟨⟨reading, listed, held⟩, name⟩
    exact ⟨best, kept.shape ▸ List.mem_append_left _ member, same⟩
  · exact kept.ordered
  · rw [kept.filter_named, kept.unparsedOf_eq]
    exact kept.shape
  · exact kept.merge_eq_self (fun entry member name => ⟨⟨reading, listed, member⟩, name⟩)
      (counted.1 reading listed)

end Run

section Attempts

variable [AlphanumericTable]

/-- The merge keeps for each function one whole entry of largest count, and a second merge of an
attempt changes nothing. Where the largest entries of each function are the same, the order and the
repetition of the attempts do not matter. -/
theorem mergeAttempts_keepsLargest (attempts others : List (List Json)) :
    MergesLargest (attempts.map collectMemoryModelHypotheses)
        (mergeAttempts (attempts.map collectMemoryModelHypotheses)) ∧
      ((∀ attempt, attempt ∈ others ↔ attempt ∈ attempts) →
        Settled MemoryHypothesis.function MemoryHypothesis.hypothesisCount
          (namedRows (attempts.map collectMemoryModelHypotheses)) →
        mergeAttempts (others.map collectMemoryModelHypotheses) =
          mergeAttempts (attempts.map collectMemoryModelHypotheses)) := by
  have silent (attempts : List (List Json)) :
      ∀ reading ∈ attempts.map collectMemoryModelHypotheses, ∀ entry ∈ reading,
        named entry = true → entry.unparsedWarningCount = none := by
    intro reading member entry held name
    obtain ⟨messages, -, rfl⟩ := List.mem_map.mp member
    exact unparsed_of_named held name
  obtain ⟨chosen, unparsed, counted, kept⟩ := merged_mergeAttempts (silent attempts)
  refine ⟨kept.mergesLargest counted, fun same settled => ?_⟩
  have members (reading : List MemoryHypothesis) :
      reading ∈ others.map collectMemoryModelHypotheses ↔
        reading ∈ attempts.map collectMemoryModelHypotheses := by
    simp only [List.mem_map, same]
  obtain ⟨second, again, recounted, other⟩ := merged_mergeAttempts (silent others)
  have rows : namedRows (others.map collectMemoryModelHypotheses) =
      namedRows (attempts.map collectMemoryModelHypotheses) := by
    simp only [namedRows, members]
  rw [rows, counted.unique recounted members] at other
  exact kept.unique other settled

end Attempts

/-- This is the log of an attempt that ended after these clauses. -/
def attemptLog (clauses : String) : List Json :=
  [.obj [("kind", .str "WARNING"), ("plugin", .str "wp"),
    ("message", .str ("Memory model hypotheses for function 'f':" ++ clauses ++ "*/"))]]

/-- Two different entries of one length depend on the order, and the clauses of a shorter entry
disappear. -/
theorem mergeAttempts_not_union :
    (¬ ∀ [AlphanumericTable] (attempts others : List (List Json)), others.Perm attempts →
      mergeAttempts (others.map collectMemoryModelHypotheses) =
        mergeAttempts (attempts.map collectMemoryModelHypotheses)) ∧
    ¬ ∀ [AlphanumericTable] (attempts : List (List Json)), ∀ attempt ∈ attempts,
      ∀ entry ∈ collectMemoryModelHypotheses attempt, ∀ clause ∈ entry.hypotheses,
        ∃ kept ∈ mergeAttempts (attempts.map collectMemoryModelHypotheses),
          kept.function = entry.function ∧ clause ∈ kept.hypotheses := by
  let _ : AlphanumericTable := AlphanumericTable.ascii
  refine ⟨fun holds => ?_, fun holds => ?_⟩
  · have same := congrArg (List.map MemoryHypothesis.hypotheses)
      (holds [attemptLog "requires a;", attemptLog "requires b;"]
        [attemptLog "requires b;", attemptLog "requires a;"] (List.Perm.swap _ _ _))
    exact absurd same (by decide +kernel)
  · let attempts := [attemptLog "requires a;", attemptLog "requires b; requires c;"]
    have kept : (collectMemoryModelHypotheses (attemptLog "requires a;")).all fun entry =>
        entry.hypotheses.all fun clause =>
          (mergeAttempts (attempts.map collectMemoryModelHypotheses)).any fun kept =>
            kept.hypotheses.contains clause := by
      refine List.all_eq_true.mpr fun entry member => List.all_eq_true.mpr fun clause listed => ?_
      obtain ⟨kept, held, -, found⟩ :=
        holds attempts (attemptLog "requires a;") List.mem_cons_self entry member clause listed
      exact List.any_eq_true.mpr ⟨kept, held, List.contains_iff_mem.mpr found⟩
    exact absurd kept (by decide +kernel)

end FramaCMcp.MemoryModel
