/-
This file shows where the actions of a line come from.
-/

import FramaCMcp.Construction.Actions
import FramaCMcp.Construction.LockReport

namespace FramaCMcp.Concurrency

variable {entry : Nat × Action}

/-- A call creates or joins a thread, takes its lock from the table, or is a call of the program. -/
theorem mem_callActions {defined : OrderedSet String} {call : Call}
    (member : entry ∈ callActions defined call) :
    entry.2 = .join ∨ (∃ started, entry.2 = .create started) ∨
      (∃ api lock, lockApi call.name = some api ∧ entry.2 = .lock api lock) ∨
      ∃ called, entry.2 = .call called := by
  unfold callActions callAction at member
  rcases List.mem_append.mp member with first | second
  · split_ifs at first
    · rw [List.mem_singleton.mp first]
      exact .inl rfl
    · obtain ⟨name, _, rfl⟩ := Option.map_eq_some_iff.mp (Option.mem_toList.mp first)
      exact .inr (.inl ⟨name, rfl⟩)
    · obtain ⟨api, known, rfl⟩ := Option.map_eq_some_iff.mp (Option.mem_toList.mp first)
      exact .inr (.inr (.inl ⟨api, _, known, rfl⟩))
  · split_ifs at second
    · rw [List.mem_singleton.mp second]
      exact .inr (.inr (.inr ⟨_, rfl⟩))
    · exact nomatch second

theorem mem_tokenAction {line : Line} {zones : Zones} {covered : List (Nat × Nat)}
    {targets : OrderedMap Nat EventKind} {token : Token} {found : List (Nat × Action)}
    (read : tokenAction line zones covered targets token = some found) (member : entry ∈ found) :
    entry.2 = .returns ∨ ∃ kind zone, entry.2 = .access kind zone := by
  unfold tokenAction at read
  split_ifs at read
  · obtain rfl := Option.some.inj read
    rw [List.mem_singleton.mp member]
    exact .inl rfl
  · obtain rfl := Option.some.inj read
    exact nomatch member
  · cases zone : zones token.name with
    | none =>
        rw [zone] at read
        obtain rfl := Option.some.inj read
        exact nomatch member
    | some place =>
        rw [zone] at read
        obtain ⟨kind, _, rfl⟩ := Option.map_eq_some_iff.mp read
        rw [List.mem_singleton.mp member]
        exact .inr ⟨kind, place.1, rfl⟩

theorem mem_braceActions {offset : Nat} {line : Line} (member : entry ∈ braceActions offset line) :
    offset ≤ entry.1 ∧ (entry.2 = .openBlock ∨ entry.2 = .closeBlock) := by
  induction line generalizing offset with
  | nil => exact nomatch member
  | cons c rest ih =>
      have later (inside : entry ∈ braceActions (offset + 1) rest) :
          offset ≤ entry.1 ∧ (entry.2 = .openBlock ∨ entry.2 = .closeBlock) :=
        ⟨(Nat.le_succ offset).trans (ih inside).1, (ih inside).2⟩
      unfold braceActions at member
      split_ifs at member
      · rcases List.mem_cons.mp member with rfl | inside
        · exact ⟨le_rfl, .inl rfl⟩
        · exact later inside
      · rcases List.mem_cons.mp member with rfl | inside
        · exact ⟨le_rfl, .inr rfl⟩
        · exact later inside
      · exact later member

theorem braceActions_sorted (offset : Nat) (line : Line) :
    (braceActions offset line).Pairwise fun left right => left.1 ≤ right.1 := by
  induction line generalizing offset with
  | nil => exact .nil
  | cons c rest ih =>
      have first (entry : Nat × Action) (inside : entry ∈ braceActions (offset + 1) rest) :
          offset ≤ entry.1 := (Nat.le_succ offset).trans (mem_braceActions inside).1
      unfold braceActions
      split_ifs
      · exact .cons first (ih _)
      · exact .cons first (ih _)
      · exact ih _

theorem exists_of_mem_mapM {Item Value : Type} {step : Item → Option Value} {items : List Item}
    {values : List Value} (ended : items.mapM step = some values) {value : Value}
    (member : value ∈ values) : ∃ item, step item = some value := by
  induction items generalizing values with
  | nil =>
      obtain rfl := Option.some.inj ended
      exact nomatch member
  | cons item rest ih =>
      rw [List.mapM_cons] at ended
      obtain ⟨first, here, later⟩ := Option.bind_eq_some_iff.mp ended
      obtain ⟨others, read, same⟩ := Option.bind_eq_some_iff.mp later
      obtain rfl := Option.some.inj same
      rcases List.mem_cons.mp member with rfl | member
      · exact ⟨item, here⟩
      · exact ih read member

theorem mem_accesses {line : Line} {zones : Zones} {covered : List (Nat × Nat)}
    {targets : OrderedMap Nat EventKind} {tokens : List Token}
    {accesses : List (List (Nat × Action))}
    (read : tokens.mapM (tokenAction line zones covered targets) = some accesses)
    (member : entry ∈ accesses.flatten) :
    entry.2 = .returns ∨ ∃ kind zone, entry.2 = .access kind zone := by
  obtain ⟨found, inside, here⟩ := List.mem_flatten.mp member
  obtain ⟨token, step⟩ := exists_of_mem_mapM read inside
  exact mem_tokenAction step here

end FramaCMcp.Concurrency
