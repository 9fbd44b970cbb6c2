/-
This file shows when each hypothesis block is reported under its own name.
-/

import Mathlib.Data.List.Induction
import FramaCMcp.Construction.MemoryHypotheses

namespace FramaCMcp.MemoryModel

section Search

variable {needle text : Line} {start stop : Nat}

theorem findChars_fits (found : Text.findChars needle text = some start) :
    start + needle.length ≤ text.length := by
  induction text generalizing start with
  | nil =>
      rw [Text.findChars] at found
      split_ifs at found with empty
      cases found
      simp [empty]
  | cons head rest ih =>
      rw [Text.findChars] at found
      split_ifs at found with here
      · cases found
        simpa using (List.isPrefixOf_iff_prefix.mp here).length_le
      · obtain ⟨offset, later, rfl⟩ := Option.map_eq_some_iff.mp found
        have fits := ih later
        rw [List.length_cons]
        omega

/-- A search in the first part of a text finds what the search in the whole text finds. -/
theorem findChars_of_take (found : Text.findChars needle (text.take stop) = some start) :
    Text.findChars needle text = some start := by
  induction text generalizing start stop with
  | nil => simpa using found
  | cons head rest ih =>
      cases stop with
      | zero =>
          rw [List.take_zero, Text.findChars] at found
          split_ifs at found with empty
          cases found
          simp [Text.findChars, empty]
      | succ stop =>
          rw [List.take_succ_cons, Text.findChars] at found
          rw [Text.findChars]
          split_ifs at found with here
          · have whole : needle.isPrefixOf (head :: rest) = true := by
              rw [List.isPrefixOf_iff_prefix] at here ⊢
              exact here.trans (List.take_succ_cons ▸ List.take_prefix (stop + 1) (head :: rest))
            rwa [if_pos whole]
          · obtain ⟨offset, later, rfl⟩ := Option.map_eq_some_iff.mp found
            -- An earlier match would end before the match that was found.
            have none : ¬ needle.isPrefixOf (head :: rest) = true := by
              intro whole
              have fits := findChars_fits later
              rw [List.length_take] at fits
              refine here (List.isPrefixOf_iff_prefix.mpr ?_)
              rw [← List.take_succ_cons]
              exact List.prefix_take_iff.mpr ⟨List.isPrefixOf_iff_prefix.mp whole, by omega⟩
            rw [if_neg none, ih later, Option.map_some]

/-- A search that starts before the first match finds this match. -/
theorem findChars_drop (before : ∀ offset, Text.findChars needle text = some offset → stop ≤ offset)
    (inside : stop ≤ text.length) :
    Text.findChars needle (text.drop stop) = (Text.findChars needle text).map (· - stop) := by
  induction stop generalizing text with
  | zero => simp
  | succ stop ih =>
      cases text with
      | nil => simp at inside
      | cons head rest =>
          rw [List.drop_succ_cons]
          rw [Text.findChars] at before ⊢
          split_ifs at before ⊢ with here
          · exact absurd (before 0 rfl) (Nat.not_succ_le_zero _)
          · rw [ih (fun offset found => ?_) (Nat.le_of_succ_le_succ inside), Option.map_map]
            · congr 1
              funext offset
              simp
            · have later := before (offset + 1) (by rw [found, Option.map_some])
              omega

theorem quotedName_of_take {name : String} (quoted : quotedName (text.take stop) = some name) :
    quotedName text = some name := by
  obtain ⟨opening, opens, rest⟩ := Option.bind_eq_some_iff.mp quoted
  obtain ⟨close, closes, shown⟩ := Option.bind_eq_some_iff.mp rest
  rw [List.drop_take] at closes shown
  have fits := findChars_fits closes
  rw [List.length_take, List.length_singleton] at fits
  rw [List.take_take, min_eq_left (by omega)] at shown
  rw [quotedName, findChars_of_take opens, Option.bind_some, findChars_of_take closes,
    Option.bind_some]
  exact shown

end Search

section Blocks

variable {marker text after rest : Line} {steps : Nat}

/-- These are the texts behind the markers. -/
def afterMarkersFrom (marker : Line) : Nat → Line → List Line
  | 0, _ => []
  | steps + 1, rest =>
      match Text.findChars marker rest with
      | none => []
      | some start =>
          rest.drop (start + marker.length) ::
            afterMarkersFrom marker steps (rest.drop (start + marker.length))

def afterMarkers (text : Line) : List Line := afterMarkersFrom hypothesisMarker (text.length + 1) text

/-- A block stands between its marker and its end. -/
def ownBlock (after : Line) : Line := after.take (blockStop hypothesisMarker after)

/-- These blocks have a quoted name inside. -/
def ownNames (afters : List Line) : List (String × Line) :=
  afters.filterMap fun after =>
    (quotedName (ownBlock after)).map fun name => (name, ownBlock after)

def ownBlocks (text : Line) : List (String × Line) := ownNames (afterMarkers text)

theorem blockStop_le_length : blockStop marker after ≤ after.length := by
  rw [blockStop]
  split
  · rename_i close next closes _
    have fits := findChars_fits closes
    omega
  · rename_i close closes _
    have fits := findChars_fits closes
    omega
  · rename_i next _ found
    have fits := findChars_fits found
    omega
  · exact le_rfl

theorem blockStop_le_marker {next : Nat} (found : Text.findChars marker after = some next) :
    blockStop marker after ≤ next := by
  rw [blockStop, found]
  split
  · rename_i same
    cases same
    exact min_le_right _ _
  · rename_i none
    cases none
  · rename_i same
    cases same
    exact le_rfl
  · rename_i none
    cases none

theorem afterMarkersFrom_drop_blockStop :
    afterMarkersFrom marker steps (after.drop (blockStop marker after)) =
      afterMarkersFrom marker steps after := by
  cases steps with
  | zero => rfl
  | succ steps =>
      rw [afterMarkersFrom, afterMarkersFrom,
        findChars_drop (fun _ => blockStop_le_marker) blockStop_le_length]
      cases found : Text.findChars marker after with
      | none => rfl
      | some next =>
          have before := blockStop_le_marker found
          have same : blockStop marker after + (next - blockStop marker after + marker.length) =
              next + marker.length := by omega
          rw [Option.map_some]
          simp only [List.drop_drop, same]

/-- The scan gives each text behind a marker the first name that follows. -/
theorem hypothesisBlocksFrom_eq : hypothesisBlocksFrom marker steps rest =
    (afterMarkersFrom marker steps rest).filterMap fun after =>
      (quotedName after).map fun name => (name, after.take (blockStop marker after)) := by
  induction steps generalizing rest with
  | zero => rfl
  | succ steps ih =>
      rw [hypothesisBlocksFrom, afterMarkersFrom]
      cases found : Text.findChars marker rest with
      | none => rfl
      | some start =>
          rw [List.filterMap_cons]
          cases quoted : quotedName (rest.drop (start + marker.length)) with
          | none =>
              simp only [quoted, Option.map_none]
              exact ih
          | some name =>
              simp only [quoted, Option.map_some]
              rw [ih, afterMarkersFrom_drop_blockStop]

end Blocks

section FirstBlocks

variable {Block : Type} {blocks : List (String × Block)} {block : String × Block}

/-- Only the first block of a function stays. -/
def keepFirst (kept : List (String × Block)) (block : String × Block) : List (String × Block) :=
  if kept.any fun other => other.1 == block.1 then kept else kept ++ [block]

def firstBlocks (blocks : List (String × Block)) : List (String × Block) :=
  blocks.foldl keepFirst []

theorem firstBlocks_snoc (blocks : List (String × Block)) (block : String × Block) :
    firstBlocks (blocks ++ [block]) = keepFirst (firstBlocks blocks) block := by
  rw [firstBlocks, List.foldl_append]
  rfl

theorem keepFirst_of_mem {kept : List (String × Block)} (known : block.1 ∈ kept.map Prod.fst) :
    keepFirst kept block = kept := by
  obtain ⟨other, member, same⟩ := List.mem_map.mp known
  have found : (kept.any fun other => other.1 == block.1) = true :=
    List.any_eq_true.mpr ⟨other, member, beq_iff_eq.mpr same⟩
  rw [keepFirst, if_pos found]

theorem keepFirst_of_not_mem {kept : List (String × Block)}
    (new : block.1 ∉ kept.map Prod.fst) : keepFirst kept block = kept ++ [block] := by
  rw [keepFirst, if_neg]
  intro known
  obtain ⟨other, member, same⟩ := List.any_eq_true.mp known
  exact new (List.mem_map.mpr ⟨other, member, beq_iff_eq.mp same⟩)

theorem mem_of_mem_firstBlocks (member : block ∈ firstBlocks blocks) : block ∈ blocks := by
  induction blocks using List.reverseRec with
  | nil => exact member
  | append_singleton blocks last ih =>
      rw [firstBlocks_snoc] at member
      by_cases known : last.1 ∈ (firstBlocks blocks).map Prod.fst
      · rw [keepFirst_of_mem known] at member
        exact List.mem_append_left _ (ih member)
      · rw [keepFirst_of_not_mem known] at member
        rcases List.mem_append.mp member with earlier | here
        · exact List.mem_append_left _ (ih earlier)
        · exact List.mem_append_right _ here

/-- Each function keeps a block. -/
theorem mem_map_firstBlocks {name : String} :
    name ∈ (firstBlocks blocks).map Prod.fst ↔ name ∈ blocks.map Prod.fst := by
  induction blocks using List.reverseRec with
  | nil => rfl
  | append_singleton blocks last ih =>
      rw [firstBlocks_snoc, List.map_append, List.mem_append, List.map_singleton,
        List.mem_singleton, ← ih]
      by_cases known : last.1 ∈ (firstBlocks blocks).map Prod.fst
      · rw [keepFirst_of_mem known]
        exact ⟨Or.inl, fun either => either.elim id fun same => same ▸ known⟩
      · rw [keepFirst_of_not_mem known, List.map_append, List.mem_append, List.map_singleton,
          List.mem_singleton]

theorem firstBlocks_subset_append (blocks later : List (String × Block)) :
    firstBlocks blocks ⊆ firstBlocks (blocks ++ later) := by
  induction later using List.reverseRec with
  | nil => simp
  | append_singleton later last ih =>
      rw [← List.append_assoc, firstBlocks_snoc, keepFirst]
      split_ifs
      · exact ih
      · exact fun block member => List.mem_append_left _ (ih member)

theorem nodup_map_firstBlocks (blocks : List (String × Block)) :
    ((firstBlocks blocks).map Prod.fst).Nodup := by
  induction blocks using List.reverseRec with
  | nil => exact List.nodup_nil
  | append_singleton blocks last ih =>
      rw [firstBlocks_snoc]
      by_cases known : last.1 ∈ (firstBlocks blocks).map Prod.fst
      · rwa [keepFirst_of_mem known]
      · rw [keepFirst_of_not_mem known, List.map_append, List.map_singleton]
        exact List.nodup_append.mpr ⟨ih, List.nodup_singleton _, fun name member other last => by
          rw [List.mem_singleton.mp last]
          exact fun same => known (same ▸ member)⟩

end FirstBlocks

section Names

/-- A block without a name inside takes the next name only where an earlier block has this name. -/
def NoNewNameTaken (text : Line) : Prop :=
  ∀ earlier after later, afterMarkers text = earlier ++ after :: later →
    quotedName (ownBlock after) = none → ∀ name, quotedName after = some name →
      ∃ other ∈ earlier, quotedName (ownBlock other) = some name

def nextNames (afters : List Line) : List (String × Line) :=
  afters.filterMap fun after => (quotedName after).map fun name => (name, ownBlock after)

theorem nextNames_append (first second : List Line) :
    nextNames (first ++ second) = nextNames first ++ nextNames second := List.filterMap_append

theorem ownNames_append (first second : List Line) :
    ownNames (first ++ second) = ownNames first ++ ownNames second := List.filterMap_append

theorem mem_map_ownNames {afters : List Line} {name : String} :
    name ∈ (ownNames afters).map Prod.fst ↔
      ∃ other ∈ afters, quotedName (ownBlock other) = some name := by
  rw [List.mem_map]
  constructor
  · rintro ⟨block, member, rfl⟩
    obtain ⟨other, listed, shown⟩ := List.mem_filterMap.mp member
    obtain ⟨name, quoted, rfl⟩ := Option.map_eq_some_iff.mp shown
    exact ⟨other, listed, quoted⟩
  · rintro ⟨other, listed, quoted⟩
    exact ⟨(name, ownBlock other),
      List.mem_filterMap.mpr ⟨other, listed, by rw [quoted, Option.map_some]⟩, rfl⟩

/-- The name of a block in this list stands inside the block. -/
theorem quotedName_of_mem_ownNames {afters : List Line} {block : String × Line}
    (member : block ∈ ownNames afters) : quotedName block.2 = some block.1 := by
  obtain ⟨other, -, shown⟩ := List.mem_filterMap.mp member
  obtain ⟨name, quoted, rfl⟩ := Option.map_eq_some_iff.mp shown
  exact quoted

/-- Where every name is its own or known, both readings keep the same blocks. -/
theorem firstBlocks_eq_of_known {afters : List Line}
    (known : ∀ earlier after later, afters = earlier ++ after :: later →
      quotedName (ownBlock after) = none → ∀ name, quotedName after = some name →
        ∃ other ∈ earlier, quotedName (ownBlock other) = some name) :
    firstBlocks (nextNames afters) = firstBlocks (ownNames afters) := by
  induction afters using List.reverseRec with
  | nil => rfl
  | append_singleton afters after ih =>
      have before := ih fun earlier other later same => known earlier other (later ++ [after]) (by
        rw [same, List.append_assoc, List.cons_append])
      rw [nextNames_append, ownNames_append]
      cases own : quotedName (ownBlock after) with
      | some name =>
          have next : quotedName after = some name := quotedName_of_take own
          have left : nextNames [after] = [(name, ownBlock after)] := by simp [nextNames, next]
          have right : ownNames [after] = [(name, ownBlock after)] := by simp [ownNames, own]
          rw [left, right, firstBlocks_snoc, firstBlocks_snoc, before]
      | none =>
          have right : ownNames [after] = [] := by simp [ownNames, own]
          rw [right, List.append_nil]
          cases next : quotedName after with
          | none =>
              have left : nextNames [after] = [] := by simp [nextNames, next]
              rw [left, List.append_nil, before]
          | some name =>
              have left : nextNames [after] = [(name, ownBlock after)] := by simp [nextNames, next]
              have listed : name ∈ (firstBlocks (nextNames afters)).map Prod.fst := by
                rw [before, mem_map_firstBlocks, mem_map_ownNames]
                exact known afters after [] rfl own name next
              rw [left, firstBlocks_snoc, keepFirst_of_mem listed, before]

/-- A block that takes a new name is kept, and its name stands elsewhere. -/
theorem known_of_firstBlocks_eq {afters earlier later : List Line} {after : Line} {name : String}
    (same : firstBlocks (nextNames afters) = firstBlocks (ownNames afters))
    (split : afters = earlier ++ after :: later) (own : quotedName (ownBlock after) = none)
    (next : quotedName after = some name) :
    ∃ other ∈ earlier, quotedName (ownBlock other) = some name := by
  have inside {block : String × Line} {part : List Line} (rest : List Line)
      (whole : afters = part ++ rest) (member : block ∈ firstBlocks (nextNames part)) :
      quotedName block.2 = some block.1 := by
    have held : block ∈ firstBlocks (nextNames afters) := by
      rw [whole, nextNames_append]
      exact firstBlocks_subset_append _ _ member
    exact quotedName_of_mem_ownNames (mem_of_mem_firstBlocks (same ▸ held))
  by_contra unknown
  have new : name ∉ (firstBlocks (nextNames earlier)).map Prod.fst := by
    intro listed
    obtain ⟨block, member, rfl⟩ := List.mem_map.mp listed
    have quoted := inside (after :: later) split member
    obtain ⟨other, held, shown⟩ := List.mem_filterMap.mp (mem_of_mem_firstBlocks member)
    obtain ⟨_, _, rfl⟩ := Option.map_eq_some_iff.mp shown
    exact unknown ⟨other, held, quoted⟩
  have last : nextNames (earlier ++ [after]) = nextNames earlier ++ [(name, ownBlock after)] := by
    rw [nextNames_append]
    simp [nextNames, next]
  have kept : (name, ownBlock after) ∈ firstBlocks (nextNames (earlier ++ [after])) := by
    rw [last, firstBlocks_snoc, keepFirst_of_not_mem new]
    exact List.mem_append_right _ (List.mem_singleton_self _)
  have quoted := inside later (by rw [split, List.append_assoc]; rfl) kept
  rw [own] at quoted
  cases quoted

theorem hypothesisBlocks_eq (text : Line) :
    hypothesisBlocks text hypothesisMarker = nextNames (afterMarkers text) :=
  hypothesisBlocksFrom_eq

end Names

section Entries

variable [AlphanumericTable]

def entryOf (block : String × Line) : MemoryHypothesis :=
  blockEntry .null "message_text" block.1 block.2

theorem addBlock_map (kept : List (String × Line)) (block : String × Line) :
    addBlock .null "message_text" (kept.map entryOf) block = (keepFirst kept block).map entryOf := by
  have tests : ((kept.map entryOf).any fun entry => entry.function == some block.1) =
      kept.any fun other => other.1 == block.1 := by
    rw [List.any_map]
    rfl
  rw [addBlock, keepFirst, tests]
  split_ifs
  · rfl
  · rw [List.map_append]
    rfl

theorem addBlocks_eq (blocks : List (String × Line)) :
    blocks.foldl (addBlock .null "message_text") [] = (firstBlocks blocks).map entryOf := by
  induction blocks using List.reverseRec with
  | nil => rfl
  | append_singleton blocks last ih =>
      rw [List.foldl_append, ih, firstBlocks_snoc, ← addBlock_map]
      rfl

/-- A text is read as one message of the prover. -/
theorem wpMemoryModelHypothesesInText_eq (text : String) :
    wpMemoryModelHypothesesInText text = StableSort.sortByKey hypothesisFunctionName
      ((firstBlocks (hypothesisBlocks text.toList hypothesisMarker)).map entryOf) := by
  have found : (collectMessage {} (.obj [("kind", .str "WARNING"), ("plugin", .str "wp"),
      ("message", .str text)])) =
      { found := (hypothesisBlocks text.toList hypothesisMarker).foldl
          (addBlock .null "message_text") [] } := by
    change (if !false && (hypothesisBlocks text.toList hypothesisMarker).isEmpty then _ else
      if (hypothesisBlocks text.toList hypothesisMarker).isEmpty then _ else _) = _
    cases blocks : hypothesisBlocks text.toList hypothesisMarker with
    | nil => rfl
    | cons block rest =>
        exact congrArg (fun blocks : List (String × Line) =>
          ({ found := blocks.foldl (addBlock .null "message_text") [] } : Collection)) blocks
  rw [wpMemoryModelHypothesesInText, collectMemoryModelHypotheses, List.foldl_cons, List.foldl_nil,
    found, addBlocks_eq]
  rfl

theorem names_ordered (blocks : List (String × Line)) :
    ((StableSort.sortByKey hypothesisFunctionName ((firstBlocks blocks).map entryOf)).map
      hypothesisFunctionName).Pairwise (· < ·) := by
  have names : ((firstBlocks blocks).map entryOf).map hypothesisFunctionName =
      (firstBlocks blocks).map Prod.fst := by
    rw [List.map_map]
    rfl
  have sorted := StableSort.sortByKey_sorted hypothesisFunctionName
    ((firstBlocks blocks).map entryOf)
  have distinct : ((StableSort.sortByKey hypothesisFunctionName
      ((firstBlocks blocks).map entryOf)).map hypothesisFunctionName).Nodup := by
    rw [((StableSort.sortByKey_perm _ _).map hypothesisFunctionName).nodup_iff, names]
    exact nodup_map_firstBlocks blocks
  exact (List.pairwise_map.mpr sorted).and distinct |>.imp fun ⟨below, other⟩ =>
    lt_of_le_of_ne below other

/-- Each function of the text has one entry, and the entries carry the first block that names the
function exactly where no block takes a new name from behind its end. -/
theorem namesOwnBlocks_iff (text : String) :
    wpMemoryModelHypothesesInText text = StableSort.sortByKey hypothesisFunctionName
        ((firstBlocks (hypothesisBlocks text.toList hypothesisMarker)).map entryOf) ∧
      ((wpMemoryModelHypothesesInText text).map hypothesisFunctionName).Pairwise (· < ·) ∧
      (firstBlocks (hypothesisBlocks text.toList hypothesisMarker) =
        firstBlocks (ownBlocks text.toList) ↔ NoNewNameTaken text.toList) := by
  refine ⟨wpMemoryModelHypothesesInText_eq text, ?_, ?_⟩
  · rw [wpMemoryModelHypothesesInText_eq]
    exact names_ordered _
  · rw [hypothesisBlocks_eq]
    exact ⟨fun same earlier after later split own name next =>
      known_of_firstBlocks_eq same split own next, firstBlocks_eq_of_known⟩

end Entries

/-- The first marker takes the name of the next one, and the clause is lost. -/
theorem not_namesOwnBlocks : ¬ ∀ [AlphanumericTable] (text : String),
    wpMemoryModelHypothesesInText text = StableSort.sortByKey hypothesisFunctionName
      ((firstBlocks (ownBlocks text.toList)).map entryOf) := by
  intro holds
  let _ : AlphanumericTable := AlphanumericTable.ascii
  have same := congrArg (List.map MemoryHypothesis.hypotheses)
    (holds ("Memory model hypotheses for function\n" ++
      "Memory model hypotheses for function 'bar':\n requires b; */"))
  exact absurd same (by decide +kernel)

end FramaCMcp.MemoryModel
