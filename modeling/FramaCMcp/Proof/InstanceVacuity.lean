/-
This file shows which instances the ordered pass marks and that neither the order of the rows nor
a second pass changes them.
-/

import FramaCMcp.Construction.Goals

namespace FramaCMcp.InstanceVacuity

open Status Goals

/-- A lower row of the property did not prove. -/
def FollowsFailure (rows : List Json) (row : Json) : Prop :=
  ∃ line key, propertySourceLine row = some line ∧ instanceVacuityKey row = some key ∧
    statusCountsAsProgress (rowStatus row) = true ∧
      ∃ earlier ∈ rows, ∃ before, propertySourceLine earlier = some before ∧ before < line ∧
        instanceVacuityKey earlier = some key ∧ statusCountsAsProgress (rowStatus earlier) = false

/-- The failure is one of the unproved rows of the property with the smallest line. -/
def IsFirstFailure (rows : List Json) (row : Json) (failure : Failure) : Prop :=
  ∃ earlier ∈ rows, instanceVacuityKey earlier = instanceVacuityKey row ∧
    statusCountsAsProgress (rowStatus earlier) = false ∧
    propertySourceLine earlier = some failure.line ∧
    failure.marker = (valueMarker earlier).getD "" ∧ failure.status = rowStatus earlier ∧
    ∀ other ∈ rows, instanceVacuityKey other = instanceVacuityKey row →
      statusCountsAsProgress (rowStatus other) = false →
      ∀ line, propertySourceLine other = some line → failure.line ≤ line

def changes (pass : List Json → List Json) (rows : List Json) : List (Json × Prop) :=
  List.zipWith (fun before after => (before, after ≠ before)) rows (pass rows)

/-- The pass marks the proved instances below a failure, whatever the order of the rows, and a
second pass changes nothing. -/
structure MarksExactly (pass : List Json → List Json) : Prop where
  length : ∀ rows, (pass rows).length = rows.length
  marked : ∀ (rows : List Json) (place : Nat) (row : Json), rows[place]? = some row →
    FollowsFailure rows row → ∃ failure, IsFirstFailure rows row failure ∧
      (pass rows)[place]? = some (markVacuous failure row) ∧ markVacuous failure row ≠ row
  unchanged : ∀ (rows : List Json) (place : Nat) (row : Json), rows[place]? = some row →
    ¬ FollowsFailure rows row → (pass rows)[place]? = some row
  orderFree : ∀ rows other : List Json, rows.Perm other →
    (changes pass rows).Perm (changes pass other)
  settled : ∀ rows, pass (pass rows) = pass rows

section Entries

variable {properties : List Json} {index : Nat} {property : Json} {entry : Entry}

theorem entryOf_eq_some_iff : entryOf index property = some entry ↔
    propertySourceLine property = some entry.line ∧
      instanceVacuityKey property = some entry.key ∧
      entry.index = index ∧ entry.status = rowStatus property := by
  unfold entryOf
  constructor
  · intro found
    obtain ⟨line, lineRead, found⟩ := Option.bind_eq_some_iff.mp found
    obtain ⟨key, keyRead, rfl⟩ := Option.map_eq_some_iff.mp found
    exact ⟨lineRead, keyRead, rfl, rfl⟩
  · rintro ⟨lineRead, keyRead, rfl, status⟩
    rw [lineRead, keyRead, ← status]
    rfl

/-- The entries are the instances with a source line, each with its place. -/
theorem mem_entries : entry ∈ entries properties ↔
    ∃ property, properties[entry.index]? = some property ∧
      entryOf entry.index property = some entry := by
  unfold entries
  rw [List.mem_filterMap]
  constructor
  · rintro ⟨row, member, found⟩
    have place := (entryOf_eq_some_iff.mp found).2.2.1
    refine ⟨row.1, ?_, place ▸ found⟩
    rw [place]
    exact List.mem_zipIdx_iff_getElem?.mp member
  · rintro ⟨property, present, found⟩
    exact ⟨(property, entry.index), List.mem_zipIdx_iff_getElem?.mpr present, found⟩

theorem nodup_entries (properties : List Json) :
    ((entries properties).map Entry.index).Nodup := by
  have places : ((entries properties).map Entry.index).Sublist
      (properties.zipIdx.map Prod.snd) := by
    unfold entries
    induction properties.zipIdx with
    | nil => exact .slnil
    | cons row rest ih =>
        rw [List.filterMap_cons]
        cases found : entryOf row.2 row.1 with
        | none => exact ih.cons row.2
        | some entry =>
            have place := (entryOf_eq_some_iff.mp found).2.2.1
            rw [List.map_cons, List.map_cons, place]
            exact ih.cons_cons row.2
  refine places.nodup ?_
  rw [List.zipIdx_map_snd]
  exact List.nodup_range'

end Entries

/-- The entry is an unproved instance of the property. -/
def fails (key : Key) (entry : Entry) : Bool :=
  !statusCountsAsProgress entry.status && entry.key == key

theorem fails_eq_true_iff {key : Key} {entry : Entry} :
    fails key entry = true ↔ statusCountsAsProgress entry.status = false ∧ entry.key = key := by
  simp [fails]

/-- This is what the pass remembers of an unproved instance. -/
def failureOf (rows : List Json) (entry : Entry) : Failure :=
  ⟨entry.line, (rows[entry.index]?.bind valueMarker).getD "", entry.status⟩

/-- A proved instance depends on the first failure of its property where that stands above it. -/
def dependency (rows : List Json) (visits : List Entry) (entry : Entry) : Option Failure :=
  if statusCountsAsProgress entry.status then
    ((visits.find? (fails entry.key)).filter fun failed => failed.line < entry.line).map
      (failureOf rows)
  else none

def markIf (found : Option Failure) (row : Json) : Json :=
  found.elim row fun failure => markVacuous failure row

theorem map_markIf_none (row : Option Json) : row.map (markIf none) = row := by
  cases row <;> rfl

/-- The visits so far have settled their own rows and remembered their own failures. -/
structure Visited (rows : List Json) (visits done : List Entry) (state : State) : Prop where
  failed : ∀ key, state.firstFailed.lookup key = (done.find? (fails key)).map (failureOf rows)
  settled : ∀ entry ∈ done, state.properties[entry.index]? =
    rows[entry.index]?.map (markIf (dependency rows visits entry))
  waiting : ∀ place, (∀ entry ∈ done, entry.index ≠ place) →
    state.properties[place]? = rows[place]?

section Visits

variable {rows : List Json} {visits done rest : List Entry} {entry : Entry} {state : State}

/-- The visits go down the lines and come to no row twice. -/
structure Ordered (visits : List Entry) : Prop where
  sorted : visits.Pairwise fun above below => above.line ≤ below.line
  distinct : (visits.map Entry.index).Nodup

theorem Ordered.index_ne (ordered : Ordered (done ++ entry :: rest)) :
    ∀ other ∈ done, other.index ≠ entry.index := by
  intro other member same
  have distinct := ordered.distinct
  rw [List.map_append, List.map_cons] at distinct
  have apart := (List.nodup_append.mp distinct).2.2
  exact apart other.index (List.mem_map_of_mem member) entry.index List.mem_cons_self same

theorem Ordered.line_le (ordered : Ordered (done ++ entry :: rest)) {other : Entry}
    (member : other ∈ rest) : entry.line ≤ other.line := by
  have below := (List.pairwise_append.mp ordered.sorted).2.1
  exact (List.pairwise_cons.mp below).1 other member

/-- The first failure among the earlier visits decides. -/
theorem dependency_eq (rows : List Json) (ordered : Ordered (done ++ entry :: rest))
    (progress : statusCountsAsProgress entry.status = true) :
    dependency rows (done ++ entry :: rest) entry =
      ((done.find? (fails entry.key)).filter fun failed => failed.line < entry.line).map
        (failureOf rows) := by
  have passes : fails entry.key entry = false := by simp [fails, progress]
  rw [dependency, if_pos progress, List.find?_append, List.find?_cons_of_neg (by simp [passes])]
  cases done.find? (fails entry.key) with
  | some failed => rfl
  | none =>
      rw [Option.none_or]
      cases later : rest.find? (fails entry.key) with
      | none => rfl
      | some failed =>
          have below := ordered.line_le (List.mem_of_find?_eq_some later)
          rw [Option.filter_some, if_neg (by simpa using below)]
          rfl

theorem Visited.start (rows : List Json) (visits : List Entry) :
    Visited rows visits [] ⟨rows, []⟩ where
  failed := fun _ => rfl
  settled := fun _ member => absurd member List.not_mem_nil
  waiting := fun _ _ => rfl

/-- A visit that leaves the rows settles a row that depends on nothing. -/
theorem Visited.keep (visited : Visited rows visits done state)
    (fresh : ∀ other ∈ done, other.index ≠ entry.index)
    (alone : dependency rows visits entry = none) (failures : List (Key × Failure))
    (failed : ∀ key, failures.lookup key =
      ((done ++ [entry]).find? (fails key)).map (failureOf rows)) :
    Visited rows visits (done ++ [entry]) ⟨state.properties, failures⟩ where
  failed := failed
  settled := by
    intro other member
    rcases List.mem_append.mp member with older | new
    · exact visited.settled other older
    · rw [List.mem_singleton.mp new, alone, map_markIf_none]
      exact visited.waiting entry.index fresh
  waiting := by
    intro place apart
    exact visited.waiting place fun other member => apart other (List.mem_append_left _ member)

theorem Visited.remember (visited : Visited rows visits done state)
    (fresh : ∀ other ∈ done, other.index ≠ entry.index)
    (failing : statusCountsAsProgress entry.status = false) :
    Visited rows visits (done ++ [entry]) (remember state entry) := by
  have alone : dependency rows visits entry = none := by
    rw [dependency, failing]
    rfl
  have own : fails entry.key entry = true := fails_eq_true_iff.mpr ⟨failing, rfl⟩
  unfold InstanceVacuity.remember
  have before := visited.failed entry.key
  by_cases known : (state.firstFailed.lookup entry.key).isSome
  · rw [if_pos known]
    refine visited.keep fresh alone state.firstFailed fun key => ?_
    rw [visited.failed key, List.find?_append]
    by_cases same : key = entry.key
    · subst same
      rw [before, Option.isSome_map] at known
      obtain ⟨failed, found⟩ := Option.isSome_iff_exists.mp known
      rw [found, Option.some_or]
    · have other : fails key entry = false := by simp [fails, Ne.symm same]
      rw [List.find?_cons_of_neg (by simp [other]), List.find?_nil, Option.or_none]
  · rw [if_neg known]
    refine visited.keep fresh alone _ fun key => ?_
    rw [List.lookup_cons, List.find?_append]
    by_cases same : key = entry.key
    · subst same
      rw [Option.not_isSome_iff_eq_none, before, Option.map_eq_none_iff] at known
      rw [beq_self_eq_true, known, Option.none_or, List.find?_cons_of_pos own,
        visited.waiting entry.index fresh]
      rfl
    · have other : fails key entry = false := by simp [fails, Ne.symm same]
      rw [beq_eq_false_iff_ne.mpr same, List.find?_cons_of_neg (by simp [other]), List.find?_nil,
        Option.or_none]
      exact visited.failed key

theorem Visited.visit (visited : Visited rows (done ++ entry :: rest) done state)
    (ordered : Ordered (done ++ entry :: rest)) :
    Visited rows (done ++ entry :: rest) (done ++ [entry]) (visit state entry) := by
  have fresh := ordered.index_ne
  unfold InstanceVacuity.visit
  by_cases progress : statusCountsAsProgress entry.status = true
  swap
  · rw [if_neg progress]
    exact visited.remember fresh (Bool.not_eq_true _ ▸ progress)
  have same : ∀ key, state.firstFailed.lookup key =
      ((done ++ [entry]).find? (fails key)).map (failureOf rows) := by
    intro key
    have passes : fails key entry = false := by simp [fails, progress]
    rw [visited.failed key, List.find?_append, List.find?_cons_of_neg (by simp [passes]),
      List.find?_nil, Option.or_none]
  have depends := dependency_eq rows ordered progress
  rw [if_pos progress, visited.failed entry.key]
  cases found : done.find? (fails entry.key) with
  | none =>
      rw [found] at depends
      exact visited.keep fresh depends state.firstFailed same
  | some failed =>
      rw [found] at depends
      have line : (failureOf rows failed).line = failed.line := rfl
      rw [Option.map_some]
      dsimp only
      rw [line]
      by_cases above : entry.line ≤ failed.line
      · rw [if_pos above]
        rw [Option.filter_some, if_neg (by simpa using above)] at depends
        exact visited.keep fresh depends state.firstFailed same
      · rw [if_neg above]
        rw [Option.filter_some, if_pos (by simpa using above), Option.map_some] at depends
        refine ⟨same, fun other member => ?_, fun place apart => ?_⟩
        · rcases List.mem_append.mp member with older | new
          · have apart := fresh other older
            rw [List.getElem?_modify_ne _ _ (Ne.symm apart)]
            exact visited.settled other older
          · obtain rfl := List.mem_singleton.mp new
            rw [List.getElem?_modify_eq, visited.waiting other.index fresh, depends]
            rfl
        · have apart' := apart entry (List.mem_append_right _ List.mem_cons_self)
          rw [List.getElem?_modify_ne _ _ apart']
          exact visited.waiting place fun other member =>
            apart other (List.mem_append_left _ member)

theorem Visited.run (rest : List Entry) {done : List Entry} {state : State}
    (ordered : Ordered (done ++ rest)) (visited : Visited rows (done ++ rest) done state) :
    Visited rows (done ++ rest) (done ++ rest) (rest.foldl InstanceVacuity.visit state) := by
  induction rest generalizing done state with
  | nil => simpa using visited
  | cons entry rest ih =>
      have next := visited.visit ordered
      rw [List.append_cons] at ordered next ⊢
      exact ih ordered next

end Visits

section Pass

variable {rows : List Json} {place : Nat} {row : Json} {entry : Entry}

def visits (rows : List Json) : List Entry := StableSort.sortByKey Entry.line (entries rows)

theorem ordered_visits (rows : List Json) : Ordered (visits rows) where
  sorted := StableSort.sortByKey_sorted Entry.line (entries rows)
  distinct := by
    have same := (StableSort.sortByKey_perm Entry.line (entries rows)).map Entry.index
    exact same.nodup_iff.mpr (nodup_entries rows)

theorem mem_visits : entry ∈ visits rows ↔
    ∃ property, rows[entry.index]? = some property ∧
      entryOf entry.index property = some entry :=
  (StableSort.sortByKey_perm Entry.line (entries rows)).mem_iff.trans mem_entries

theorem visited_pass (rows : List Json) : Visited rows (visits rows) (visits rows)
    ((visits rows).foldl visit ⟨rows, []⟩) :=
  @Visited.run rows (visits rows) [] ⟨rows, []⟩ (ordered_visits rows)
    (Visited.start rows (visits rows))

/-- The pass works on each row by itself. -/
theorem pass_getElem? (present : rows[place]? = some row) :
    (addOrderedInstanceVacuityWarnings rows)[place]? =
      some (markIf ((entryOf place row).bind (dependency rows (visits rows))) row) := by
  have visited := visited_pass rows
  change ((visits rows).foldl visit ⟨rows, []⟩).properties[place]? = _
  cases found : entryOf place row with
  | some entry =>
      obtain rfl := (entryOf_eq_some_iff.mp found).2.2.1
      rw [visited.settled entry (mem_visits.mpr ⟨row, present, found⟩), present]
      rfl
  | none =>
      rw [visited.waiting place ?_, present]
      · rfl
      · rintro entry member rfl
        obtain ⟨property, known, read⟩ := mem_visits.mp member
        obtain rfl : property = row := Option.some.inj (known.symm.trans present)
        rw [found] at read
        cases read

theorem pass_length (rows : List Json) :
    (addOrderedInstanceVacuityWarnings rows).length = rows.length := by
  have step : ∀ (state : State) (entry : Entry),
      (visit state entry).properties.length = state.properties.length := by
    intro state entry
    unfold visit remember
    split_ifs
    · split
      · rfl
      · split_ifs
        · rfl
        · exact List.length_modify _ _ _
    · rfl
    · rfl
  have run : ∀ (visits : List Entry) (state : State),
      (visits.foldl visit state).properties.length = state.properties.length := by
    intro visits
    induction visits with
    | nil => exact fun _ => rfl
    | cons entry rest ih => exact fun state => (ih (visit state entry)).trans (step state entry)
  exact run _ _

/-- The first failure of a property stands on the smallest line. -/
theorem line_le_of_find? {visits : List Entry} (ordered : Ordered visits) {test : Entry → Bool}
    {first other : Entry} (found : visits.find? test = some first) (member : other ∈ visits)
    (holds : test other = true) : first.line ≤ other.line := by
  obtain ⟨-, above, below, rfl, none⟩ := List.find?_eq_some_iff_append.mp found
  have sorted := (List.pairwise_append.mp ordered.sorted).2.1
  rcases List.mem_append.mp member with before | after
  · have stopped := none other before
    rw [holds] at stopped
    cases stopped
  · rcases List.mem_cons.mp after with rfl | later
    · exact Nat.le_refl _
    · exact (List.pairwise_cons.mp sorted).1 other later

theorem exists_visit {failed : Json} {line : Nat} {key : Key} (member : failed ∈ rows)
    (lineRead : propertySourceLine failed = some line)
    (keyRead : instanceVacuityKey failed = some key)
    (failing : statusCountsAsProgress (rowStatus failed) = false) :
    ∃ entry ∈ visits rows, fails key entry = true ∧ entry.line = line := by
  obtain ⟨place, present⟩ := List.mem_iff_getElem?.mp member
  have read : entryOf place failed = some ⟨place, line, key, rowStatus failed⟩ :=
    entryOf_eq_some_iff.mpr ⟨lineRead, keyRead, rfl, rfl⟩
  exact ⟨⟨place, line, key, rowStatus failed⟩, mem_visits.mpr ⟨failed, present, read⟩,
    fails_eq_true_iff.mpr ⟨failing, rfl⟩, rfl⟩

/-- A dependency comes from the first failure of the property, on a smaller line. -/
theorem of_dependency (read : entryOf place row = some entry) {failure : Failure}
    (depends : dependency rows (visits rows) entry = some failure) :
    FollowsFailure rows row ∧ IsFirstFailure rows row failure := by
  obtain ⟨lineRead, keyRead, -, status⟩ := entryOf_eq_some_iff.mp read
  unfold dependency at depends
  split_ifs at depends with progress
  obtain ⟨failed, chosen, rfl⟩ := Option.map_eq_some_iff.mp depends
  obtain ⟨found, above⟩ := Option.filter_eq_some_iff.mp chosen
  obtain ⟨failing, sameKey⟩ := fails_eq_true_iff.mp (List.find?_some found)
  obtain ⟨earlier, present, known⟩ := mem_visits.mp (List.mem_of_find?_eq_some found)
  obtain ⟨failedLine, failedKey, -, failedStatus⟩ := entryOf_eq_some_iff.mp known
  rw [sameKey] at failedKey
  rw [failedStatus] at failing
  have member := List.mem_of_getElem? present
  refine ⟨⟨entry.line, entry.key, lineRead, keyRead, status ▸ progress, earlier, member,
    failed.line, failedLine, by simpa using above, failedKey, failing⟩, ?_⟩
  refine ⟨earlier, member, failedKey.trans keyRead.symm, failing, failedLine, ?_, failedStatus, ?_⟩
  · change (rows[failed.index]?.bind valueMarker).getD "" = _
    rw [present]
    rfl
  · intro other otherMember otherKey otherFails line otherLine
    obtain ⟨visit, visitMember, visitFails, rfl⟩ :=
      exists_visit otherMember otherLine (otherKey.trans keyRead) otherFails
    exact line_le_of_find? (ordered_visits rows) found visitMember visitFails

/-- An instance above a proved one gives it a dependency. -/
theorem exists_dependency (place : Nat) (follows : FollowsFailure rows row) :
    ∃ entry, entryOf place row = some entry ∧
      ∃ failure, dependency rows (visits rows) entry = some failure := by
  obtain ⟨line, key, lineRead, keyRead, progress, earlier, member, before, failedLine, above,
    failedKey, failing⟩ := follows
  obtain ⟨other, visited, otherFails, rfl⟩ := exists_visit member failedLine failedKey failing
  refine ⟨⟨place, line, key, rowStatus row⟩,
    entryOf_eq_some_iff.mpr ⟨lineRead, keyRead, rfl, rfl⟩, ?_⟩
  cases found : (visits rows).find? (fails key) with
  | none => exact absurd otherFails (by simpa using List.find?_eq_none.mp found other visited)
  | some first =>
      have below := line_le_of_find? (ordered_visits rows) found visited otherFails
      refine ⟨failureOf rows first, ?_⟩
      rw [dependency, if_pos progress, found, Option.filter_some,
        if_pos (by simpa using Nat.lt_of_le_of_lt below above), Option.map_some]

theorem pass_marked (present : rows[place]? = some row) (follows : FollowsFailure rows row) :
    ∃ failure, IsFirstFailure rows row failure ∧
      (addOrderedInstanceVacuityWarnings rows)[place]? = some (markVacuous failure row) := by
  obtain ⟨entry, read, failure, depends⟩ := exists_dependency place follows
  refine ⟨failure, (of_dependency read depends).2, ?_⟩
  rw [pass_getElem? present, read, Option.bind_some, depends]
  rfl

theorem pass_unchanged (present : rows[place]? = some row) (free : ¬ FollowsFailure rows row) :
    (addOrderedInstanceVacuityWarnings rows)[place]? = some row := by
  rw [pass_getElem? present]
  cases read : entryOf place row with
  | none => rfl
  | some entry =>
      rw [Option.bind_some]
      cases depends : dependency rows (visits rows) entry with
      | none => rfl
      | some failure => exact absurd (of_dependency read depends).1 free

end Pass

section Marked

variable (failure : Failure) (row : Json)

/-- The mark leaves every field that it does not write. -/
theorem get_markVacuous {name : String}
    (other : name ∉ ["vacuous", "counts_as_progress", "requires_hypotheses", "normalized_status",
      "vacuity_reason", "vacuity_dependency"]) :
    (markVacuous failure row).get name = row.get name := by
  simp only [List.mem_cons, List.not_mem_nil, or_false, not_or] at other
  obtain ⟨first, second, third, fourth, fifth, sixth⟩ := other
  unfold markVacuous
  rw [Json.get_insert_of_ne _ _ _ _ sixth, Json.get_insert_of_ne _ _ _ _ fifth,
    Json.get_insert_of_ne _ _ _ _ fourth, Json.get_insert_of_ne _ _ _ _ third,
    Json.get_insert_of_ne _ _ _ _ second, Json.get_insert_of_ne _ _ _ _ first]

theorem propertySourceLine_markVacuous :
    propertySourceLine (markVacuous failure row) = propertySourceLine row := by
  rw [propertySourceLine, get_markVacuous failure row (by decide), propertySourceLine]

theorem instanceVacuityKey_markVacuous :
    instanceVacuityKey (markVacuous failure row) = instanceVacuityKey row := by
  rw [instanceVacuityKey, get_markVacuous failure row (by decide),
    get_markVacuous failure row (by decide), get_markVacuous failure row (by decide),
    instanceVacuityKey]

variable {row}

theorem rowStatus_markVacuous {line : Nat} (lineRead : propertySourceLine row = some line) :
    rowStatus (markVacuous failure row) = "valid_under_false_hypothesis" := by
  cases row with
  | obj fields =>
      unfold rowStatus markVacuous
      rw [Json.get_insert_of_ne _ _ _ _ (by decide), Json.get_insert_of_ne _ _ _ _ (by decide)]
      simp only [Json.insert, Json.get_obj, Json.lookup_insertField_self]
      rfl
  | _ => cases lineRead

theorem not_progress_markVacuous {line : Nat} (lineRead : propertySourceLine row = some line) :
    statusCountsAsProgress (rowStatus (markVacuous failure row)) = false := by
  rw [rowStatus_markVacuous failure lineRead]
  rfl

theorem markVacuous_ne {rows : List Json} (follows : FollowsFailure rows row) :
    markVacuous failure row ≠ row := by
  obtain ⟨line, key, lineRead, keyRead, progress, -⟩ := follows
  intro same
  have stopped := not_progress_markVacuous failure lineRead
  rw [same, progress] at stopped
  cases stopped

end Marked

section Orders

variable {rows other : List Json} {row : Json}

theorem FollowsFailure.perm (follows : FollowsFailure rows row) (same : rows.Perm other) :
    FollowsFailure other row := by
  obtain ⟨line, key, lineRead, keyRead, progress, earlier, member, failed⟩ := follows
  exact ⟨line, key, lineRead, keyRead, progress, earlier, same.mem_iff.mp member, failed⟩

theorem changes_pass (rows : List Json) : changes addOrderedInstanceVacuityWarnings rows =
    rows.map fun row => (row, FollowsFailure rows row) := by
  apply List.ext_getElem?
  intro place
  rw [changes, List.getElem?_zipWith, List.getElem?_map]
  cases present : rows[place]? with
  | none => rfl
  | some row =>
      by_cases follows : FollowsFailure rows row
      · obtain ⟨failure, -, marked⟩ := pass_marked present follows
        have changed := markVacuous_ne failure follows
        simp only [marked, Option.map_some, follows, ne_eq, changed, not_false_eq_true]
      · have kept := pass_unchanged present follows
        simp only [kept, Option.map_some, follows, ne_eq, not_true_eq_false]

theorem changes_perm (same : rows.Perm other) :
    (changes addOrderedInstanceVacuityWarnings rows).Perm
      (changes addOrderedInstanceVacuityWarnings other) := by
  have verdicts : (fun row => (row, FollowsFailure rows row)) =
      fun row => (row, FollowsFailure other row) := by
    funext row
    have agree : FollowsFailure rows row = FollowsFailure other row :=
      propext ⟨fun follows => follows.perm same, fun follows => follows.perm same.symm⟩
    rw [agree]
  rw [changes_pass, changes_pass, verdicts]
  exact same.map _

theorem origin_of_mem_pass (member : row ∈ addOrderedInstanceVacuityWarnings rows) :
    (row ∈ rows ∧ ¬ FollowsFailure rows row) ∨
      ∃ before failure, FollowsFailure rows before ∧ row = markVacuous failure before := by
  obtain ⟨place, present⟩ := List.mem_iff_getElem?.mp member
  have inside : place < rows.length := by
    rw [← pass_length rows]
    exact (List.getElem?_eq_some_iff.mp present).1
  have before := List.getElem?_eq_getElem inside
  by_cases follows : FollowsFailure rows rows[place]
  · obtain ⟨failure, -, marked⟩ := pass_marked before follows
    exact .inr ⟨_, failure, follows, Option.some.inj (present.symm.trans marked)⟩
  · obtain rfl := Option.some.inj (present.symm.trans (pass_unchanged before follows))
    exact .inl ⟨List.getElem_mem inside, follows⟩

/-- After the pass no proved instance stands below a failure. A marked row that counts as a failure
itself follows one of the first rows. -/
theorem not_followsFailure_pass (member : row ∈ addOrderedInstanceVacuityWarnings rows) :
    ¬ FollowsFailure (addOrderedInstanceVacuityWarnings rows) row := by
  rintro ⟨line, key, lineRead, keyRead, progress, earlier, earlierMember, before, failedLine, above,
    failedKey, failing⟩
  rcases origin_of_mem_pass member with ⟨known, free⟩ | ⟨original, failure, follows, rfl⟩
  · refine free ⟨line, key, lineRead, keyRead, progress, ?_⟩
    rcases origin_of_mem_pass earlierMember with ⟨old, -⟩ | ⟨original, failure, follows, rfl⟩
    · exact ⟨earlier, old, before, failedLine, above, failedKey, failing⟩
    · rw [propertySourceLine_markVacuous] at failedLine
      rw [instanceVacuityKey_markVacuous] at failedKey
      obtain ⟨ownLine, ownKey, ownLineRead, ownKeyRead, -, first, firstMember, lowest, lowestRead,
        lower, firstKey, firstFails⟩ := follows
      obtain rfl := Option.some.inj (ownLineRead.symm.trans failedLine)
      obtain rfl := Option.some.inj (ownKeyRead.symm.trans failedKey)
      exact ⟨first, firstMember, lowest, lowestRead, Nat.lt_trans lower above, firstKey,
        firstFails⟩
  · rw [propertySourceLine_markVacuous] at lineRead
    have stopped := not_progress_markVacuous failure lineRead
    rw [progress] at stopped
    cases stopped

/-- A second pass finds nothing to mark. -/
theorem pass_pass (rows : List Json) :
    addOrderedInstanceVacuityWarnings (addOrderedInstanceVacuityWarnings rows) =
      addOrderedInstanceVacuityWarnings rows := by
  apply List.ext_getElem?
  intro place
  cases present : (addOrderedInstanceVacuityWarnings rows)[place]? with
  | none =>
      rw [List.getElem?_eq_none_iff, pass_length]
      exact List.getElem?_eq_none_iff.mp present
  | some row =>
      exact pass_unchanged present (not_followsFailure_pass (List.mem_of_getElem? present))

end Orders

/-- The ordered pass marks exactly the proved instances that stand below an unproved instance of
their property. -/
theorem addOrderedInstanceVacuityWarnings_exact :
    MarksExactly addOrderedInstanceVacuityWarnings where
  length := pass_length
  marked := by
    intro rows place row present follows
    obtain ⟨failure, first, marked⟩ := pass_marked present follows
    exact ⟨failure, first, marked, markVacuous_ne failure follows⟩
  unchanged := fun _ _ _ present free => pass_unchanged present free
  orderFree := fun _ _ same => changes_perm same
  settled := pass_pass

end FramaCMcp.InstanceVacuity
