/-
This file shows that the answer of one verification step fits its byte limit and states its size.
-/

import FramaCMcp.Foundation.Fixpoint
import FramaCMcp.Construction.ResponseBudget

namespace FramaCMcp.ResponseBudget

open Fixpoint

section Record

/-- The budget of this object states a size. -/
structure Budgeted (response : Json) where
  budget : List (String × Json)
  stated : Nat
  isBudget : response.get "payload_budget" = some (.obj budget)
  isStated : (Json.obj budget).get "bytes" = some (.num stated)

def withBytes (response : Json) (count : Nat) : Json :=
  response.insert "payload_budget" ((response.index "payload_budget").insert "bytes" (.num count))

variable {response : Json} (budgeted : Budgeted response)

include budgeted

theorem index_budget : response.index "payload_budget" = .obj budgeted.budget := by
  rw [Json.index, budgeted.isBudget, Option.getD_some]

theorem get_withBytes (count : Nat) : (withBytes response count).get "payload_budget" =
    some (.obj (Json.insertField "bytes" (.num count) budgeted.budget)) := by
  rw [withBytes, index_budget budgeted]
  exact Json.get_insert_of_get _ _ budgeted.isBudget

theorem withBytes_withBytes (first second : Nat) :
    withBytes (withBytes response first) second = withBytes response second := by
  have found := get_withBytes budgeted first
  rw [withBytes, Json.index, found, Option.getD_some, withBytes, Json.insert_insert,
    withBytes, index_budget budgeted]
  exact congrArg _ (Json.insert_insert (.obj budgeted.budget) "bytes" _ _)

def Budgeted.withBytes (count : Nat) : Budgeted (withBytes response count) where
  budget := Json.insertField "bytes" (.num count) budgeted.budget
  stated := count
  isBudget := get_withBytes budgeted count
  isStated := Json.get_insert_self _ _ _

def Budgeted.congr {next : Json}
    (same : next.get "payload_budget" = response.get "payload_budget") : Budgeted next where
  budget := budgeted.budget
  stated := budgeted.stated
  isBudget := same.trans budgeted.isBudget
  isStated := budgeted.isStated

theorem pointer_withBytes (count : Nat) :
    (withBytes response count).pointer ["payload_budget", "bytes"] = some (.num count) := by
  rw [Json.pointer, get_withBytes budgeted, Option.bind_some, Json.pointer, Json.get_obj,
    Json.lookup_insertField_self]
  rfl

/-- Only the digits of the stated size change the measured one. -/
theorem prettySize_withBytes (count : Nat) :
    (withBytes response count).prettySize 0 + budgeted.stated.repr.length =
      response.prettySize 0 + count.repr.length := by
  have outer := Json.prettySize_insert 0
    ((Json.obj budgeted.budget).insert "bytes" (.num count)) budgeted.isBudget
  have inner := Json.prettySize_insert 1 (.num count) budgeted.isStated
  rw [Json.prettySize_num, Json.prettySize_num] at inner
  rw [Nat.zero_add] at outer
  rw [withBytes, index_budget budgeted]
  omega

theorem monotone_prettySize : Monotone fun count => (withBytes response count).prettySize 0 := by
  intro small large below
  have fewer : small.repr.length ≤ large.repr.length := Json.length_repr_mono below
  have before := prettySize_withBytes budgeted small
  have after := prettySize_withBytes budgeted large
  dsimp only
  omega

theorem recordAgain_withBytes (steps stated : Nat) :
    recordAgain steps stated (withBytes response stated) =
      (settle (fun count => (withBytes response count).prettySize 0) steps stated).map
        fun last => ⟨withBytes response last, last⟩ := by
  induction steps generalizing stated with
  | zero => rfl
  | succ steps ih =>
      rw [recordAgain, settle, get_withBytes budgeted]
      dsimp only
      split_ifs with same
      · rw [Option.map_some, same]
      · have again := withBytes_withBytes budgeted stated
          ((withBytes response stated).prettySize 0)
        rw [withBytes, Json.index, get_withBytes budgeted, Option.getD_some] at again
        rw [← ih, ← again]

/-- The loop ends with a response that states its own size. -/
theorem exists_recorded (bound : Nat) (below : response.prettySize 0 ≤ bound)
    (kept : (withBytes response bound).prettySize 0 ≤ bound) :
    ∃ last ≤ bound, (withBytes response last).prettySize 0 = last ∧
      Ends (fun steps => recordPayloadBytes steps response) ⟨withBytes response last, last⟩ := by
  obtain ⟨last, small, fixed, ends⟩ := exists_settlesAt (monotone_prettySize budgeted) below kept
  refine ⟨last, small, fixed, Ends.succ ?_⟩
  have positive : response.prettySize 0 ≠ 0 :=
    (Json.prettySize_pos_of_get budgeted.isBudget).ne'
  have first (steps : Nat) : recordPayloadBytes (steps + 1) response =
      (settle (fun count => (withBytes response count).prettySize 0) steps
        (response.prettySize 0)).bind fun last => some ⟨withBytes response last, last⟩ := by
    rw [recordPayloadBytes, recordAgain, if_neg positive, budgeted.isBudget]
    have loop := recordAgain_withBytes budgeted steps (response.prettySize 0)
    rw [Option.map_eq_bind, withBytes, index_budget budgeted] at loop
    exact loop
  simp only [first]
  exact ends.bind (Ends.pure _)

theorem exists_recorded_always :
    ∃ last, (withBytes response last).prettySize 0 = last ∧
      Ends (fun steps => recordPayloadBytes steps response) ⟨withBytes response last, last⟩ := by
  obtain ⟨bound, below, kept⟩ := Json.exists_length_repr_le (response.prettySize 0)
    (response.prettySize 0)
  have sizes := prettySize_withBytes budgeted bound
  obtain ⟨last, -, recorded⟩ := exists_recorded budgeted bound below (by omega)
  exact ⟨last, recorded⟩

end Record

section Rows

variable {original current : Json} {field omitted : String}

def rowsOmitted (object : Json) (omitted : String) : Nat :=
  ((object.get omitted).bind Json.asU64).getD 0

/-- The current list is a beginning of the original one, and the two counts sum to its rows. The
count beside it is cumulative, so it starts with the rows that were omitted before. -/
def RowsKept (original current : Json) (field omitted : String) : Prop :=
  (current.get field = original.get field ∧ current.get omitted = original.get omitted) ∨
    ∃ items keep count, original.get field = some (.arr items) ∧
      current.get field = some (.arr (items.take keep)) ∧
      current.get omitted = some (.num (count : Nat)) ∧
      (items.length + rowsOmitted original omitted < 2 ^ 64 →
        (items.take keep).length + count = items.length + rowsOmitted original omitted)

theorem RowsKept.congr {next : Json} (kept : RowsKept original current field omitted)
    (list : next.get field = current.get field)
    (count : next.get omitted = current.get omitted) : RowsKept original next field omitted := by
  rw [RowsKept, list, count]
  exact kept

theorem omitPreviewRows_get {keep : Nat} {key : String} (list : key ≠ field)
    (count : key ≠ omitted) :
    (omitPreviewRows current field omitted keep).1.get key = current.get key := by
  rw [omitPreviewRows]
  split
  · rw [Json.get_insert_of_ne _ _ _ _ count, Json.get_insert_of_ne _ _ _ _ list]
  · rfl

/-- A list that is shortened again is still a beginning of the original one. -/
theorem RowsKept.omit (different : field ≠ omitted) (keep : Nat)
    (kept : RowsKept original current field omitted) :
    RowsKept original (omitPreviewRows current field omitted keep).1 field omitted := by
  rw [omitPreviewRows]
  split
  case h_2 => exact kept
  case h_1 rows found =>
    have list (new : Json) (count : Json) :
        ((current.insert field new).insert omitted count).get field = some new := by
      rw [Json.get_insert_of_ne _ _ _ _ different]
      exact Json.get_insert_of_get _ new found
    have counted (new : Json) (count : Json) :
        ((current.insert field new).insert omitted count).get omitted = some count :=
      Json.get_insert_of_get _ count (Json.get_insert_of_get _ new found)
    rcases kept with ⟨sameList, sameCount⟩ | ⟨items, before, count, start, shorter, stated, sums⟩
    · refine .inr ⟨rows, keep, _, sameList ▸ found, list _ _, counted _ _, fun fits => ?_⟩
      have omittedBefore : ((current.get omitted).bind Json.asU64).getD 0 =
          rowsOmitted original omitted := by rw [sameCount, rowsOmitted]
      have short : (rows.take keep).length ≤ rows.length := List.length_take_le' _ _
      rw [omittedBefore, Nat.mod_eq_of_lt fits]
      omega
    · obtain rfl : items.take before = rows := Json.arr.inj (Option.some.inj (shorter.symm.trans found))
      refine .inr ⟨items, min keep before, _, start, ?_, counted _ _, fun fits => ?_⟩
      · rw [list, List.take_take]
      · have total := sums fits
        have small : (count : Int) < 2 ^ 64 := by omega
        have read : ((current.get omitted).bind Json.asU64).getD 0 = count := by
          rw [stated, Option.bind_some, Json.asU64, if_pos ⟨Int.natCast_nonneg count, small⟩,
            Int.toNat_natCast, Option.getD_some]
        have short : ((items.take before).take keep).length ≤ (items.take before).length :=
          List.length_take_le' _ _
        rw [read, total, Nat.mod_eq_of_lt fits, ← List.take_take]
        omega

end Rows

section Stages

variable {original current next : Json}

/-- The action stands as it was, but for rows of its blocked list. -/
def ActionKept (original current : Json) : Prop :=
  current.get "next_action" = original.get "next_action" ∨
    ∃ action shorter, original.get "next_action" = some (.obj action) ∧
      current.get "next_action" = some shorter ∧
      (∀ key, key ≠ "blocked_functions" → key ≠ "blocked_functions_omitted" →
        shorter.get key = (Json.obj action).get key) ∧
      RowsKept (.obj action) shorter "blocked_functions" "blocked_functions_omitted"

def listFields : List String :=
  ["ready_functions", "ready_functions_omitted", "frontier", "frontier_omitted"]

def changedFields : List String := ["payload_budget", "next_action"] ++ listFields

/-- The current response says what the original one says, with shorter lists. -/
structure Follows (original current : Json) : Prop where
  ready : RowsKept original current "ready_functions" "ready_functions_omitted"
  frontier : RowsKept original current "frontier" "frontier_omitted"
  action : current.get "next_action" = some oversizedName ∨ ActionKept original current
  others : ∀ key ∉ changedFields, current.get key = original.get key

theorem Follows.refl (response : Json) : Follows response response :=
  ⟨.inl ⟨rfl, rfl⟩, .inl ⟨rfl, rfl⟩, .inr (.inl rfl), fun _ _ => rfl⟩

/-- An equal action is kept as well. -/
theorem action_congr
    (action : current.get "next_action" = some oversizedName ∨ ActionKept original current)
    (same : next.get "next_action" = current.get "next_action") :
    next.get "next_action" = some oversizedName ∨ ActionKept original next := by
  rw [ActionKept, same]
  exact action

theorem Follows.others_of_frame {touched : List String} (follows : Follows original current)
    (inside : touched ⊆ changedFields)
    (frame : ∀ key ∉ touched, next.get key = current.get key) :
    ∀ key ∉ changedFields, next.get key = original.get key := by
  intro key outside
  rw [frame key fun member => outside (inside member), follows.others key outside]

/-- An update of a field that is no list leaves the lists. -/
theorem Follows.insert {key : String} (value : Json) (follows : Follows original current)
    (inside : key ∈ changedFields) (noList : key ∉ listFields)
    (action : (current.insert key value).get "next_action" = some oversizedName ∨
      ActionKept original (current.insert key value)) :
    Follows original (current.insert key value) := by
  have frame (name : String) (other : name ≠ key) :
      (current.insert key value).get name = current.get name :=
    Json.get_insert_of_ne current key name value other
  have list (name : String) (member : name ∈ listFields) :
      (current.insert key value).get name = current.get name :=
    frame name fun same => noList (same ▸ member)
  constructor
  case ready => exact follows.ready.congr (list _ (by decide)) (list _ (by decide))
  case frontier => exact follows.frontier.congr (list _ (by decide)) (list _ (by decide))
  case action => exact action
  case others =>
    exact follows.others_of_frame (fun _ member => List.mem_singleton.mp member ▸ inside)
      fun name outside => frame name fun same => outside (List.mem_singleton.mpr same)

theorem omitPreviewRows_frame (current : Json) (field omitted : String) (keep : Nat) :
    ∀ key ∉ [field, omitted],
      (omitPreviewRows current field omitted keep).1.get key = current.get key := by
  intro key outside
  rw [List.mem_cons, List.mem_singleton, not_or] at outside
  exact omitPreviewRows_get outside.1 outside.2

theorem Follows.omit_ready (follows : Follows original current) (keep : Nat) :
    Follows original
      (omitPreviewRows current "ready_functions" "ready_functions_omitted" keep).1 := by
  have frame := omitPreviewRows_frame current "ready_functions" "ready_functions_omitted" keep
  constructor
  case ready => exact follows.ready.omit (by decide) keep
  case frontier => exact follows.frontier.congr (frame _ (by decide)) (frame _ (by decide))
  case action => exact action_congr follows.action (frame _ (by decide))
  case others => exact follows.others_of_frame (by decide) frame

theorem Follows.omit_frontier (follows : Follows original current) (keep : Nat) :
    Follows original (omitPreviewRows current "frontier" "frontier_omitted" keep).1 := by
  have frame := omitPreviewRows_frame current "frontier" "frontier_omitted" keep
  constructor
  case ready => exact follows.ready.congr (frame _ (by decide)) (frame _ (by decide))
  case frontier => exact follows.frontier.omit (by decide) keep
  case action => exact action_congr follows.action (frame _ (by decide))
  case others => exact follows.others_of_frame (by decide) frame

/-- The change leaves the budget and follows the original response. -/
def Keeps (original : Json) (change : Measured → Json × Bool) : Prop :=
  ∀ measured, Follows original measured.response →
    Follows original (change measured).1 ∧
      (change measured).1.get "payload_budget" = measured.response.get "payload_budget"

theorem keeps_omitPreviews (original : Json) (keep : Nat) : Keeps original (omitPreviews keep) := by
  intro measured follows
  refine ⟨(follows.omit_ready keep).omit_frontier keep, ?_⟩
  rw [omitPreviews, omitPreviewRows_get (by decide) (by decide),
    omitPreviewRows_get (by decide) (by decide)]

theorem keeps_omitBlocked (original : Json) : Keeps original omitBlocked := by
  intro measured follows
  rw [omitBlocked]
  split
  case h_2 => exact ⟨follows, rfl⟩
  case h_1 action found =>
    refine ⟨follows.insert _ (by decide) (by decide) ?_,
      Json.get_insert_of_ne _ _ _ _ (by decide)⟩
    have written := Json.get_insert_of_get "next_action"
      (omitPreviewRows (.obj action) "blocked_functions" "blocked_functions_omitted" 0).1 found
    rcases follows.action with dropped | same | ⟨first, shorter, start, now, others, rows⟩
    · rw [found] at dropped
      rw [written, Option.some.inj dropped]
      exact .inl rfl
    · refine .inr (.inr ⟨action, _, same ▸ found, written, fun key list count => ?_, ?_⟩)
      · exact omitPreviewRows_get list count
      · exact RowsKept.omit (by decide) 0 (.inl ⟨rfl, rfl⟩)
    · obtain rfl : shorter = .obj action := Option.some.inj (now.symm.trans found)
      refine .inr (.inr ⟨first, _, start, written, fun key list count => ?_, ?_⟩)
      · rw [omitPreviewRows_get list count, others key list count]
      · exact rows.omit (by decide) 0

theorem keeps_dropAction (original : Json) : Keeps original dropAction := by
  intro measured follows
  rw [dropAction]
  split_ifs with large
  case neg => exact ⟨follows, rfl⟩
  case pos =>
    refine ⟨follows.insert _ (by decide) (by decide) (.inl ?_),
      Json.get_insert_of_ne _ _ _ _ (by decide)⟩
    cases found : measured.response.get "next_action" with
    | some action => exact Json.get_insert_of_get _ oversizedName found
    | none =>
        rw [Json.pointer, found] at large
        exact absurd large.1 (Nat.lt_irrefl 0)

/-- The last measured size is the size of the response, or it is still over the limit. -/
structure Held (original : Json) (measured : Measured) : Prop where
  budgeted : Nonempty (Budgeted measured.response)
  follows : Follows original measured.response
  fits : measured.bytes ≤ capBytes → measured.response.prettySize 0 = measured.bytes ∧
    measured.response.pointer ["payload_budget", "bytes"] = some (.num measured.bytes)

theorem exists_held (budgeted : Budgeted current) (follows : Follows original current) :
    ∃ measured, Ends (fun steps => recordPayloadBytes steps current) measured ∧
      Held original measured := by
  obtain ⟨last, fixed, ends⟩ := exists_recorded_always budgeted
  refine ⟨_, ends, ⟨budgeted.withBytes last⟩, ?_, fun _ => ⟨fixed, pointer_withBytes budgeted last⟩⟩
  exact follows.insert _ (by decide) (by decide)
    (action_congr follows.action (Json.get_insert_of_ne _ _ _ _ (by decide)))

theorem exists_held_ifOverCap {change : Measured → Json × Bool} (keeps : Keeps original change)
    {measured : Measured} (held : Held original measured) :
    ∃ next, Ends (fun steps => ifOverCap steps change measured) next ∧ Held original next := by
  by_cases small : measured.bytes ≤ capBytes
  · refine ⟨measured, ?_, held⟩
    simp only [ifOverCap, if_pos small]
    exact Ends.pure measured
  · obtain ⟨follows, budget⟩ := keeps measured held.follows
    obtain ⟨budgeted⟩ := held.budgeted
    have still := budgeted.congr budget
    simp only [ifOverCap, if_neg small]
    by_cases shed : (change measured).2 = true
    · simp only [if_pos shed]
      exact exists_held still follows
    · simp only [if_neg shed]
      exact ⟨_, Ends.pure _, ⟨still⟩, follows, fun fits => absurd fits small⟩

end Stages

section Whole

def budgetedTruncated : Budgeted truncatedPayload where
  budget :=
    [("cap_bytes", .num capBytes), ("bytes", .num 0), ("omitted_fields", texts ["response"])]
  stated := 0
  isBudget := rfl
  isStated := rfl

/-- The fixed answer is far below the limit, whatever size it states. -/
theorem exists_truncated : ∃ last ≤ capBytes,
    (withBytes truncatedPayload last).prettySize 0 = last ∧
      Ends (fun steps => recordPayloadBytes steps truncatedPayload)
        ⟨withBytes truncatedPayload last, last⟩ :=
  exists_recorded budgetedTruncated capBytes (by decide +kernel) (by decide +kernel)

theorem tool_truncated (count : Nat) :
    (withBytes truncatedPayload count).pointer ["next_action", "tool"] = some .null := rfl

/-- This says what a finished response keeps of the original one. -/
structure Finished (original final : Json) : Prop where
  fits : final.prettySize 0 ≤ capBytes
  bytes : final.pointer ["payload_budget", "bytes"] = some (.num (final.prettySize 0))
  action : final.pointer ["next_action", "tool"] = some .null ∨ ActionKept original final
  rest : final = withBytes truncatedPayload (final.prettySize 0) ∨ Follows original final

theorem Held.finished {original : Json} {measured : Measured} (held : Held original measured)
    (small : measured.bytes ≤ capBytes) : Finished original measured.response := by
  obtain ⟨size, bytes⟩ := held.fits small
  rw [← size] at small bytes
  refine ⟨small, bytes, ?_, .inr held.follows⟩
  rcases held.follows.action with dropped | kept
  · left
    rw [Json.pointer, dropped]
    rfl
  · exact .inr kept

theorem exists_finished {original : Json} {measured : Measured} (held : Held original measured) :
    ∃ last, Ends (fun steps => ifOverCap steps (fun _ => (truncatedPayload, true)) measured) last ∧
      Finished original last.response := by
  by_cases small : measured.bytes ≤ capBytes
  · refine ⟨measured, ?_, held.finished small⟩
    simp only [ifOverCap, if_pos small]
    exact Ends.pure measured
  · obtain ⟨last, fits, fixed, ends⟩ := exists_truncated
    refine ⟨⟨withBytes truncatedPayload last, last⟩, ?_, ?_⟩
    · simp only [ifOverCap, if_neg small, if_true]
      exact ends
    · constructor
      case fits => rw [fixed]; exact fits
      case bytes => rw [fixed]; exact pointer_withBytes budgetedTruncated last
      case action => exact .inl (tool_truncated last)
      case rest => rw [fixed]; exact .inl rfl

/-- Every response object is finished with a response that fits the limit and states its size. -/
theorem finishResponse_finished (fields : List (String × Json)) :
    ∃ final, Ends (fun steps => finishResponse steps (.obj fields)) final ∧
      Finished (.obj fields) final := by
  have budgeted : Budgeted ((Json.obj fields).insert "payload_budget" (payloadBudget
      ["order", "verification_order", "scc_groups", "conclusions", "project_state"])) :=
    { budget := _, stated := 0, isBudget := Json.get_insert_self _ _ _, isStated := rfl }
  have follows : Follows (.obj fields) ((Json.obj fields).insert "payload_budget" (payloadBudget
      ["order", "verification_order", "scc_groups", "conclusions", "project_state"])) :=
    (Follows.refl _).insert _ (by decide) (by decide)
      (.inr (.inl (Json.get_insert_of_ne _ _ _ _ (by decide))))
  obtain ⟨measured, recorded, held⟩ := exists_held budgeted follows
  obtain ⟨one, oneRow, held⟩ := exists_held_ifOverCap (keeps_omitPreviews _ 1) held
  obtain ⟨none, noRow, held⟩ := exists_held_ifOverCap (keeps_omitPreviews _ 0) held
  obtain ⟨blocked, noBlocked, held⟩ := exists_held_ifOverCap (keeps_omitBlocked _) held
  obtain ⟨dropped, noAction, held⟩ := exists_held_ifOverCap (keeps_dropAction _) held
  obtain ⟨last, ends, finished⟩ := exists_finished held
  refine ⟨last.response, ?_, finished⟩
  obtain ⟨enough, found⟩ :=
    ((((recorded.bind oneRow).bind noRow).bind noBlocked).bind noAction).bind ends
  exact ⟨enough, fun steps more => congrArg (Option.map Measured.response) (found steps more)⟩

end Whole

section Crowded

/-- One row of this list was omitted before. -/
def crowdedFields : List (String × Json) :=
  [("ready_functions", .arr (List.replicate 16384 .null)), ("ready_functions_omitted", .num 1)]

def statedBudget (stated : Nat) : List (String × Json) :=
  [("cap_bytes", .num capBytes), ("bytes", .num stated), ("omitted_fields",
    texts ["order", "verification_order", "scc_groups", "conclusions", "project_state"])]

def withList (rows : List Json) (omitted stated : Nat) : Json :=
  .obj [("ready_functions", .arr rows), ("ready_functions_omitted", .num omitted),
    ("payload_budget", .obj (statedBudget stated))]

def budgetedList (rows : List Json) (omitted stated : Nat) :
    Budgeted (withList rows omitted stated) where
  budget := statedBudget stated
  stated := stated
  isBudget := rfl
  isStated := rfl

theorem withBytes_withList (rows : List Json) (omitted first second : Nat) :
    withBytes (withList rows omitted first) second = withList rows omitted second := rfl

/-- A list of so many rows does not fit. -/
theorem prettySize_crowded : (withList (List.replicate 16384 .null) 1 0).prettySize 0 = 164104 := by
  have found : (withList (List.replicate 16384 .null) 1 0).get "ready_functions" =
      some (.arr (List.replicate 16384 .null)) := rfl
  have replaced := Json.prettySize_insert 0 .null found
  have rows : (Json.arr (List.replicate 16384 .null)).prettySize 1 = _ :=
    Json.prettySize_replicate 1 16383 .null
  have small : ((withList (List.replicate 16384 .null) 1 0).insert "ready_functions" .null).prettySize
      0 = 264 := by decide +kernel
  have null (level : Nat) : Json.null.prettySize level = 4 := rfl
  rw [null] at rows
  rw [null, Nat.zero_add] at replaced
  omega

/-- The stated size has six digits. -/
theorem exists_recorded_crowded : ∃ last, capBytes < last ∧ last.repr.length ≤ 6 ∧
    Ends (fun steps => recordPayloadBytes steps (withList (List.replicate 16384 .null) 1 0))
      ⟨withList (List.replicate 16384 .null) 1 last, last⟩ := by
  have digits (count : Nat) :=
    prettySize_withBytes (budgetedList (List.replicate 16384 .null) 1 0) count
  have zero : (Nat.repr 0).length = 1 := by decide
  have large : (Nat.repr 200000).length = 6 := by decide
  have atBound := digits 200000
  rw [prettySize_crowded, large] at atBound
  obtain ⟨last, small, fixed, ends⟩ :=
    exists_recorded (budgetedList (List.replicate 16384 .null) 1 0) 200000
      (by rw [prettySize_crowded]; decide) (by omega)
  have atLast := digits last
  have fewer : last.repr.length ≤ (Nat.repr 200000).length := Json.length_repr_mono small
  rw [prettySize_crowded, fixed, budgetedList, zero] at atLast
  refine ⟨last, ?_, by omega, ends⟩
  rw [capBytes]
  omega

/-- One row of the list stays, and the count takes the others to the row omitted before. -/
theorem omitPreviews_crowded (stated : Nat) :
    omitPreviews 1 ⟨withList (List.replicate 16384 .null) 1 stated, stated⟩ =
      (withList [.null] 16384 stated, true) := by
  have rows : (withList (List.replicate 16384 .null) 1 stated).get "ready_functions" =
      some (.arr (List.replicate 16384 .null)) := rfl
  have before : (((withList (List.replicate 16384 .null) 1 stated).get
      "ready_functions_omitted").bind Json.asU64).getD 0 = 1 := rfl
  have start : (List.replicate 16384 Json.null).take 1 = [.null] := by
    rw [List.take_replicate]
    rfl
  have total : (16384 + 1) % 2 ^ 64 - [Json.null].length = 16384 := by decide
  have ready : omitPreviewRows (withList (List.replicate 16384 .null) 1 stated) "ready_functions"
      "ready_functions_omitted" 1 = (withList [.null] 16384 stated, true) := by
    rw [omitPreviewRows, rows, before]
    dsimp only
    rw [List.length_replicate, start, total]
    rfl
  rw [omitPreviews, ready]
  rfl

theorem finishResponse_crowded : ∃ stated,
    Ends (fun steps => finishResponse steps (.obj crowdedFields))
      (withList [.null] 16384 stated) := by
  obtain ⟨first, above, digits, recorded⟩ := exists_recorded_crowded
  have size : (withList [.null] 16384 0).prettySize 0 = 278 := by decide +kernel
  have zero : (Nat.repr 0).length = 1 := by decide
  have sizes := prettySize_withBytes (budgetedList [.null] 16384 0) first
  obtain ⟨last, small, fixed, again⟩ := exists_recorded (budgetedList [.null] 16384 first)
    capBytes
    (by rw [size, withBytes_withList, budgetedList, zero] at sizes; rw [capBytes]; omega)
    (by rw [withBytes_withList]; decide +kernel)
  have shed : Ends (fun steps => ifOverCap steps (omitPreviews 1)
      ⟨withList (List.replicate 16384 .null) 1 first, first⟩) ⟨withList [.null] 16384 last, last⟩ := by
    simp only [ifOverCap, if_neg (Nat.not_le.mpr above), omitPreviews_crowded, if_true]
    exact again
  have stays (change : Measured → Json × Bool) : Ends (fun steps => ifOverCap steps change
      ⟨withList [.null] 16384 last, last⟩) ⟨withList [.null] 16384 last, last⟩ := by
    simp only [ifOverCap, if_pos small]
    exact Ends.pure _
  obtain ⟨enough, found⟩ :=
    ((((recorded.bind shed).bind (stays _)).bind (stays _)).bind (stays _)).bind (stays _)
  exact ⟨last, enough,
    fun steps more => congrArg (Option.map Measured.response) (found steps more)⟩

/-- The counts sum to more than the length where some rows were omitted before. -/
theorem finishResponse_not_length :
    ¬ ∀ fields final items retained, Ends (fun steps => finishResponse steps (.obj fields)) final →
      final.get "status" ≠ some (.str "payload_truncated") →
      fields.lookup "ready_functions" = some (.arr items) →
      final.get "ready_functions" = some (.arr retained) → retained ≠ items →
      ∃ count : Nat, final.get "ready_functions_omitted" = some (.num count) ∧
        retained.length + count = items.length := by
  intro claim
  obtain ⟨stated, ends⟩ := finishResponse_crowded
  have shorter : [Json.null] ≠ List.replicate 16384 .null := by
    intro same
    have lengths := congrArg List.length same
    rw [List.length_replicate] at lengths
    exact absurd lengths (by decide)
  have running : (withList [.null] 16384 stated).get "status" = none := rfl
  obtain ⟨count, read, sums⟩ := claim crowdedFields _ _ _ ends
    (by rw [running]; exact (Option.some_ne_none _).symm) rfl rfl shorter
  have counted : (16384 : Int) = count := Json.num.inj (Option.some.inj read)
  rw [List.length_replicate, List.length_singleton] at sums
  omega

end Crowded

end FramaCMcp.ResponseBudget
