/-
This file proves that exactly the recursive definitions are listed, each with its cycle.
-/

import FramaCMcp.Construction.RecursiveLogic
import FramaCMcp.Foundation.Tarjan
import Mathlib.Data.Finset.Range

namespace FramaCMcp.RecursiveLogic

section Arrays

variable {Value : Type} {values : Array Value} {place : Nat} {value : Value}

theorem read_of_getElem? (found : values[place]? = some value) :
    read values (place : Int) = .ok value := by
  rw [read, if_pos (Int.natCast_nonneg place), Int.toNat_natCast, found]

theorem write_of_lt (inside : place < values.size) (value : Value) :
    write values (place : Int) value = .ok (values.setIfInBounds place value) := by
  rw [write, Int.toNat_natCast, if_pos ⟨Int.natCast_nonneg place, inside⟩]

/-- The array holds the values of the function at the places below `n`. -/
structure Holds (n : Nat) (values : Array Value) (value : Nat → Value) : Prop where
  size : values.size = n
  get : ∀ place < n, values[place]? = some (value place)

variable {n : Nat} {function : Nat → Value}

theorem Holds.read (holds : Holds n values function) (inside : place < n) :
    read values (place : Int) = .ok (function place) :=
  read_of_getElem? (holds.get place inside)

/-- A write inside the array changes one value. -/
theorem Holds.write (holds : Holds n values function) (inside : place < n) (value : Value) :
    ∃ after, write values (place : Int) value = .ok after ∧
      Holds n after (Function.update function place value) := by
  refine ⟨_, write_of_lt (holds.size ▸ inside) value, ?_, fun other below => ?_⟩
  · rw [Array.size_setIfInBounds, holds.size]
  · rw [Array.getElem?_setIfInBounds]
    by_cases same : place = other
    · subst same
      rw [if_pos rfl, if_pos (holds.size ▸ inside), Function.update_self]
    · rw [if_neg same, Function.update_of_ne (Ne.symm same), holds.get other below]

theorem holds_replicate (n : Nat) (value : Value) :
    Holds n (Array.replicate n value) fun _ => value :=
  ⟨Array.size_replicate, fun place below => by simp [below]⟩

theorem Holds.congr {other : Nat → Value} (holds : Holds n values function)
    (same : ∀ place < n, function place = other place) : Holds n values other :=
  ⟨holds.size, fun place below => by rw [holds.get place below, same place below]⟩

end Arrays

section Simulation

variable {n : Nat} {search : Search} {st after : Tarjan.State Nat} {v w : Nat}

/-- The arrays hold what the search has found. -/
structure Matches (n : Nat) (search : Search) (st : Tarjan.State Nat) : Prop where
  index : Holds n search.index st.index
  low : Holds n search.low st.low
  comp : Holds n search.comp st.comp
  onStack : Holds n search.onStack fun v => decide (v ∈ st.stack)
  stack : search.stack = st.stack
  counter : search.counter = st.counter
  ncomp : search.ncomp = st.ncomp
  nodup : st.stack.Nodup
  inside : ∀ v ∈ st.stack, v < n
  seen : ∀ v ∈ st.stack, 0 ≤ st.index v
  counted : 0 ≤ st.counter

theorem matches_start (n : Nat) : Matches n (.start n) Tarjan.start := by
  constructor
  · exact holds_replicate n _
  · exact holds_replicate n _
  · exact holds_replicate n _
  · exact holds_replicate n _
  all_goals simp [Tarjan.start, Search.start]

theorem Matches.lower (matching : Matches n search st) (inside : v < n) (bound : Int) :
    ∃ low, write search.low (v : Int) (min (st.low v) bound) = .ok low ∧
      Matches n { search with low := low } (Tarjan.lower v bound st) := by
  obtain ⟨low, written, holds⟩ := matching.low.write inside (min (st.low v) bound)
  exact ⟨low, written, matching.index, holds, matching.comp, matching.onStack, matching.stack,
    matching.counter, matching.ncomp, matching.nodup, matching.inside, matching.seen,
    matching.counted⟩

theorem Matches.pop (matching : Matches n search st) (v : Nat) :
    ∃ popped, pop v search.stack search = .ok popped ∧
      Matches n popped (Tarjan.pop v st.stack st) := by
  have same := matching.stack
  generalize shape : search.stack = stack
  rw [← same, shape]
  induction stack generalizing search st with
  | nil => exact ⟨search, rfl, matching⟩
  | cons w rest ih =>
      have stack : st.stack = w :: rest := by rw [← matching.stack, shape]
      have inside : w < n := matching.inside w (stack ▸ List.mem_cons_self)
      obtain ⟨absent, nodup⟩ := List.nodup_cons.mp (stack ▸ matching.nodup)
      obtain ⟨onStack, offStack, stackHolds⟩ := matching.onStack.write inside false
      obtain ⟨comp, assigned, compHolds⟩ := matching.comp.write inside search.ncomp
      have next : Matches n { search with stack := rest, onStack := onStack, comp := comp }
          { st with stack := rest, comp := Function.update st.comp w st.ncomp } := by
        refine ⟨matching.index, matching.low, ?_, ?_, rfl, matching.counter, matching.ncomp, nodup,
          fun v later => ?_, fun v later => ?_, matching.counted⟩
        · rw [← matching.ncomp]
          exact compHolds
        · apply stackHolds.congr
          intro place _
          rw [Function.update_apply, stack]
          by_cases same : place = w
          · subst same
            simp [absent]
          · simp [same]
        · exact matching.inside v (stack ▸ List.mem_cons_of_mem _ later)
        · exact matching.seen v (stack ▸ List.mem_cons_of_mem _ later)
      rw [RecursiveLogic.pop, offStack, assigned, Tarjan.pop]
      by_cases same : w = v
      · exact ⟨_, by simp [same]; rfl, by rwa [if_pos same]⟩
      · obtain ⟨popped, run, final⟩ := ih next rfl rfl
        refine ⟨popped, ?_, ?_⟩
        · simp only [ne_eq, same, not_false_iff, if_true]
          exact run
        · rwa [if_neg same]

/-- The arrays follow the search over one row of edges. -/
theorem Matches.follow {visit : Nat → Search → Except Fault Search}
    {visited : Nat → Tarjan.State Nat → Option (Tarjan.State Nat)}
    (visits : ∀ w search st after, w < n → Matches n search st → st.index w < 0 →
      visited w st = some after →
      ∃ next, visit w search = .ok next ∧ Matches n next after)
    (inside : v < n) (rest : List Nat) (below : ∀ w ∈ rest, w < n)
    (matching : Matches n search st) (scanned : Tarjan.scan visited v rest st = some after) :
    ∃ next, follow visit v rest search = .ok next ∧ Matches n next after := by
  induction rest generalizing search st with
  | nil =>
      rw [Tarjan.scan, Option.some.injEq] at scanned
      exact ⟨search, rfl, scanned ▸ matching⟩
  | cons w rest ih =>
      obtain ⟨wInside, below⟩ := List.forall_mem_cons.mp below
      have index := matching.index.read wInside
      rw [Tarjan.scan] at scanned
      split_ifs at scanned with white onStack
      · obtain ⟨child, found, scanned⟩ := Option.bind_eq_some_iff.mp scanned
        obtain ⟨next, ran, nextMatches⟩ := visits w search st child wInside matching white found
        obtain ⟨low, written, lowered⟩ := nextMatches.lower inside (child.low w)
        obtain ⟨final, run, finalMatches⟩ := ih below lowered scanned
        refine ⟨final, ?_, finalMatches⟩
        rw [RecursiveLogic.follow, index]
        simp only [bind, Except.bind, white, if_true, ran, nextMatches.low.read inside,
          nextMatches.low.read wInside, written]
        exact run
      · obtain ⟨low, written, lowered⟩ := matching.lower inside (st.index w)
        obtain ⟨final, run, finalMatches⟩ := ih below lowered scanned
        refine ⟨final, ?_, finalMatches⟩
        rw [RecursiveLogic.follow, index]
        simp only [bind, Except.bind, white, if_false, matching.onStack.read wInside, onStack,
          decide_true, if_true, matching.low.read inside, written]
        exact run
      · obtain ⟨final, run, finalMatches⟩ := ih below matching scanned
        refine ⟨final, ?_, finalMatches⟩
        rw [RecursiveLogic.follow, index]
        simp only [bind, Except.bind, white, if_false, matching.onStack.read wInside, onStack,
          decide_false, Bool.false_eq_true]
        exact run

/-- A new node is written into the arrays. -/
theorem Matches.enter (matching : Matches n search st) (inside : v < n) (white : st.index v < 0) :
    ∃ index low onStack, write search.index (v : Int) search.counter = .ok index ∧
      write search.low (v : Int) search.counter = .ok low ∧
      write search.onStack (v : Int) true = .ok onStack ∧
      Matches n { search with
        index := index, low := low, counter := search.counter + 1, stack := v :: search.stack
        onStack := onStack } (Tarjan.enter v st) := by
  obtain ⟨index, indexed, indexHolds⟩ := matching.index.write inside search.counter
  obtain ⟨low, lowered, lowHolds⟩ := matching.low.write inside search.counter
  obtain ⟨onStack, stacked, stackHolds⟩ := matching.onStack.write inside true
  have absent : v ∉ st.stack := fun member => absurd (matching.seen v member) (by omega)
  have counted := matching.counted
  rw [matching.counter] at indexHolds lowHolds
  refine ⟨index, low, onStack, indexed, lowered, stacked, indexHolds, lowHolds, matching.comp,
    ?_, ?_, ?_, matching.ncomp, List.nodup_cons.mpr ⟨absent, matching.nodup⟩,
    fun x member => ?_, fun x member => ?_, ?_⟩
  · apply stackHolds.congr
    intro place _
    rw [Function.update_apply, Tarjan.enter]
    by_cases same : place = v
    · simp [same]
    · simp [same]
  · rw [Tarjan.enter, matching.stack]
  · rw [Tarjan.enter, matching.counter]
  · exact (List.mem_cons.mp member).elim (fun same => same ▸ inside) (matching.inside x)
  · rw [Tarjan.index_enter]
    split
    · exact counted
    · rename_i differ
      exact matching.seen x ((List.mem_cons.mp member).resolve_left differ)
  · simp only [Tarjan.enter]
    omega

variable {succs : Nat → List Nat} {edges : Array (List Nat)}

/-- The arrays follow the visit of one vertex. -/
theorem Matches.visit (holds : Holds n edges succs) (below : ∀ v < n, ∀ w ∈ succs v, w < n)
    (fuel : Nat) : ∀ v search st after, v < n → Matches n search st → st.index v < 0 →
      Tarjan.visit succs fuel v st = some after →
      ∃ next, visit edges fuel v search = .ok next ∧ Matches n next after := by
  induction fuel with
  | zero =>
      intro v search st after inside matching white visited
      cases visited
  | succ fuel ih =>
      intro v search st after inside matching white visited
      obtain ⟨scanned, found, closed⟩ := Option.map_eq_some_iff.mp visited
      obtain ⟨index, low, onStack, indexed, lowered, stacked, entered⟩ :=
        matching.enter inside white
      obtain ⟨followed, ran, followMatches⟩ :=
        Matches.follow ih inside (succs v) (below v inside) entered found
      rw [RecursiveLogic.visit, indexed, lowered, stacked]
      simp only [bind, Except.bind, holds.read inside]
      rw [ran]
      simp only [followMatches.low.read inside, followMatches.index.read inside]
      rw [← closed, Tarjan.close]
      split_ifs with root
      · obtain ⟨popped, run, final⟩ := followMatches.pop v
        rw [run]
        exact ⟨_, rfl, final.index, final.low, final.comp, final.onStack, final.stack,
          final.counter, congrArg (· + 1) final.ncomp, final.nodup, final.inside, final.seen,
          final.counted⟩
      · exact ⟨followed, rfl, followMatches⟩

end Simulation

section Runs

variable {Entry Value : Type}

theorem filterM_ok {test : Entry → Except Fault Bool} {holds : Entry → Bool} (entries : List Entry)
    (ok : ∀ entry ∈ entries, test entry = .ok (holds entry)) :
    entries.filterM test = .ok (entries.filter holds) := by
  have run (acc : List Entry) : entries.filterAuxM test acc =
      .ok ((entries.filter holds).reverse ++ acc) := by
    induction entries generalizing acc with
    | nil => rfl
    | cons entry rest ih =>
        obtain ⟨here, others⟩ := List.forall_mem_cons.mp ok
        rw [List.filterAuxM, here]
        simp only [bind, Except.bind]
        rw [ih others]
        cases shape : holds entry <;> simp [shape]
  rw [List.filterM, run]
  simp [bind, Except.bind, pure, Except.pure]

theorem mapM_ok {compute : Entry → Except Fault Value} {value : Entry → Value}
    (entries : List Entry) (ok : ∀ entry ∈ entries, compute entry = .ok (value entry)) :
    entries.mapM compute = .ok (entries.map value) := by
  induction entries with
  | nil => rfl
  | cons entry rest ih =>
      obtain ⟨here, others⟩ := List.forall_mem_cons.mp ok
      rw [List.mapM_cons, here, ih others]
      rfl

variable {n : Nat} {search : Search} {st after : Tarjan.State Nat} {succs : Nat → List Nat}
  {edges : Array (List Nat)}

/-- The arrays follow the whole search. -/
theorem Matches.visitAll (holds : Holds n edges succs) (below : ∀ v < n, ∀ w ∈ succs v, w < n)
    {fuel : Nat} (rest : List Nat) (inside : ∀ v ∈ rest, v < n) (matching : Matches n search st)
    (visited : Tarjan.visitAll succs fuel rest st = some after) :
    ∃ next, visitAll edges fuel rest search = .ok next ∧ Matches n next after := by
  induction rest generalizing search st with
  | nil =>
      rw [Tarjan.visitAll, Option.some.injEq] at visited
      exact ⟨search, rfl, visited ▸ matching⟩
  | cons v rest ih =>
      obtain ⟨here, others⟩ := List.forall_mem_cons.mp inside
      rw [Tarjan.visitAll] at visited
      rw [RecursiveLogic.visitAll, matching.index.read here]
      simp only [bind, Except.bind]
      split_ifs at visited ⊢ with white
      · obtain ⟨child, found, final⟩ := Option.bind_eq_some_iff.mp visited
        obtain ⟨next, ran, nextMatches⟩ :=
          Matches.visit holds below fuel v search st child here matching white found
        rw [ran]
        exact ih others nextMatches final
      · exact ih others matching visited

/-- Each bucket gets the nodes of its component in order. -/
theorem fillBuckets_ok {comp : Array Int} {compOf : Nat → Int} {size : Nat}
    (holds : Holds n comp compOf) (rest : List Nat)
    (inside : ∀ i ∈ rest, i < n ∧ 0 ≤ compOf i ∧ (compOf i).toNat < size)
    {buckets : Array (List Nat)} {old : Nat → List Nat} (bucketHolds : Holds size buckets old) :
    ∃ filled, fillBuckets comp rest buckets = .ok filled ∧
      Holds size filled fun c => (rest.reverse.filter fun i => compOf i == (c : Int)) ++ old c := by
  induction rest generalizing buckets old with
  | nil => exact ⟨buckets, rfl, bucketHolds⟩
  | cons i rest ih =>
      obtain ⟨⟨below, assigned, fits⟩, others⟩ := List.forall_mem_cons.mp inside
      obtain ⟨place, same⟩ := Int.eq_ofNat_of_zero_le assigned
      rw [same, Int.toNat_natCast] at fits
      obtain ⟨next, written, nextHolds⟩ := bucketHolds.write fits (i :: old place)
      obtain ⟨filled, run, final⟩ := ih others nextHolds
      refine ⟨filled, ?_, final.congr fun c _ => ?_⟩
      · rw [fillBuckets, holds.read below, same]
        simp only [bind, Except.bind]
        rw [bucketHolds.read fits]
        dsimp only
        rw [written]
        exact run
      · rw [List.reverse_cons, List.filter_append, List.append_assoc]
        congr 1
        rw [Function.update_apply, List.filter_singleton]
        by_cases here : c = place
        · subst here
          simp [same]
        · have differ : ¬compOf i = (c : Int) := by
            rw [same]
            exact fun equal => here (Int.ofNat.inj equal).symm
          simp [here, beq_eq_false_iff_ne.mpr differ]

end Runs

section Definitions

open Relation

mutual

/-- The definitions with a body as they stand, those in blocks and modules included. -/
def entries : GlobalAnnot → List Definition
  | .dfunOrPred li loc =>
      match li.lBody with
      | .term _ | .pred _ => [(li, loc)]
      | .unread => []
  | .daxiomatic inner => entriesAll inner
  | .dmodule inner => entriesAll inner
  | .unread => []

def entriesAll : List GlobalAnnot → List Definition
  | [] => []
  | ga :: rest => entries ga ++ entriesAll rest

end

def Mentions (defs : List Definition) (definition other : Definition) : Prop :=
  definition ∈ defs ∧ other ∈ defs ∧ other.1.lvId ∈ usesOf definition.1

/-- A definition leads to another one through one or more mentions. -/
def Reaches (defs : List Definition) : Definition → Definition → Prop := TransGen (Mentions defs)

def keep (state : Collected) (definition : Definition) : Collected :=
  if state.seen.contains definition.1.lvId then state
  else { seen := definition.1.lvId :: state.seen, defs := definition :: state.defs }

theorem collectDefinition_eq_foldl (state : Collected) (li : LogicInfo) (loc : Location) :
    collectDefinition state li loc = (entries (.dfunOrPred li loc)).foldl keep state := by
  rw [collectDefinition, entries]
  cases li.lBody <;> rfl

mutual

/-- The definitions are kept in the order of the source. -/
theorem collect_eq_foldl (state : Collected) :
    ∀ ga, collect state ga = (entries ga).foldl keep state
  | .dfunOrPred li loc => by rw [collect, collectDefinition_eq_foldl]
  | .daxiomatic inner => by rw [collect, entries, collectAll_eq_foldl]
  | .dmodule inner => by rw [collect, entries, collectAll_eq_foldl]
  | .unread => by rw [collect, entries, List.foldl_nil]

theorem collectAll_eq_foldl (state : Collected) :
    ∀ globals, collectAll state globals = (entriesAll globals).foldl keep state
  | [] => by rw [collectAll, entriesAll, List.foldl_nil]
  | ga :: rest => by
      rw [collectAll, entriesAll, List.foldl_append, collectAll_eq_foldl, collect_eq_foldl]

end

def ids (defs : List Definition) : List Int := defs.map fun definition => definition.1.lvId

structure Collected.Once (state : Collected) : Prop where
  seen : state.seen = ids state.defs
  nodup : (ids state.defs).Nodup

theorem Collected.Once.keep {state : Collected} (once : state.Once) (definition : Definition) :
    (keep state definition).Once := by
  rw [RecursiveLogic.keep]
  split_ifs with known
  · exact once
  · rw [List.contains_iff_mem, once.seen] at known
    exact ⟨congrArg (definition.1.lvId :: ·) once.seen, List.nodup_cons.mpr ⟨known, once.nodup⟩⟩

theorem Collected.Once.foldl {state : Collected} (once : state.Once) (rest : List Definition) :
    (rest.foldl RecursiveLogic.keep state).Once := by
  induction rest generalizing state with
  | nil => exact once
  | cons definition rest ih => exact ih (once.keep definition)

/-- The first entry of an id is kept. -/
theorem Collected.Once.mem_foldl_iff {state : Collected} (once : state.Once)
    (rest : List Definition) (definition : Definition) :
    definition ∈ (rest.foldl RecursiveLogic.keep state).defs ↔
      definition ∈ state.defs ∨ definition.1.lvId ∉ ids state.defs ∧
        rest.find? (fun other => other.1.lvId == definition.1.lvId) = some definition := by
  induction rest generalizing state with
  | nil => simp
  | cons first rest ih =>
      rw [List.foldl_cons, ih (once.keep first), RecursiveLogic.keep, List.find?_cons, once.seen]
      by_cases known : first.1.lvId ∈ ids state.defs
      · rw [if_pos (List.contains_iff_mem.mpr known)]
        by_cases same : first.1.lvId = definition.1.lvId
        · rw [same] at known
          simp [known]
        · rw [beq_eq_false_iff_ne.mpr same]
      · rw [if_neg (mt List.contains_iff_mem.mp known)]
        by_cases same : first.1.lvId = definition.1.lvId
        · rw [same] at known
          grind [ids]
        · rw [beq_eq_false_iff_ne.mpr same]
          grind [ids]

/-- The first definition of each symbol is kept. -/
theorem mem_collectAll_iff (globals : List GlobalAnnot) (definition : Definition) :
    definition ∈ (collectAll ⟨[], []⟩ globals).defs ↔
      (entriesAll globals).find? (fun other => other.1.lvId == definition.1.lvId) =
        some definition := by
  have once : Collected.Once ⟨[], []⟩ := ⟨rfl, List.nodup_nil⟩
  rw [collectAll_eq_foldl, once.mem_foldl_iff]
  simp [ids]

end Definitions

section Indexes

open Relation

variable {defs : List Definition} {i j : Nat}

abbrev definitionAt (defs : List Definition) (i : Nat) : Definition := defs.getD i default

theorem getElem?_definitionAt (inside : i < defs.length) :
    defs[i]? = some (definitionAt defs i) := by
  rw [definitionAt, List.getD_eq_getElem?_getD, List.getElem?_eq_getElem inside, Option.getD_some]

theorem definitionAt_mem (inside : i < defs.length) : definitionAt defs i ∈ defs :=
  List.mem_of_getElem? (getElem?_definitionAt inside)

theorem exists_definitionAt {definition : Definition} (member : definition ∈ defs) :
    ∃ i < defs.length, definitionAt defs i = definition := by
  obtain ⟨i, found⟩ := List.mem_iff_getElem?.mp member
  obtain ⟨inside, -⟩ := List.getElem?_eq_some_iff.mp found
  exact ⟨i, inside, Option.some.inj ((getElem?_definitionAt inside).symm.trans found)⟩

theorem eq_of_lvId_eq (nodup : (ids defs).Nodup) (iInside : i < defs.length)
    (jInside : j < defs.length)
    (same : (definitionAt defs i).1.lvId = (definitionAt defs j).1.lvId) : i = j := by
  have fits : i < (ids defs).length := by rwa [ids, List.length_map]
  apply (List.getElem?_inj fits nodup).mp
  rw [ids, List.getElem?_map, List.getElem?_map, getElem?_definitionAt iInside,
    getElem?_definitionAt jInside, Option.map_some, Option.map_some, same]

theorem indexOf_eq_some_iff (nodup : (ids defs).Nodup) (id : Int) :
    indexOf defs id = some j ↔ j < defs.length ∧ (definitionAt defs j).1.lvId = id := by
  have found (entry : Definition × Nat)
      (last : (defs.zipIdx.reverse.find? fun entry => entry.1.1.lvId == id) = some entry) :
      entry.2 < defs.length ∧ (definitionAt defs entry.2).1.lvId = id := by
    have member := List.mem_reverse.mp (List.mem_of_find?_eq_some last)
    have same := List.find?_some last
    have here := List.mem_zipIdx_iff_getElem?.mp member
    obtain ⟨inside, -⟩ := List.getElem?_eq_some_iff.mp here
    rw [Option.some.inj ((getElem?_definitionAt inside).symm.trans here)]
    exact ⟨inside, beq_iff_eq.mp same⟩
  rw [indexOf, Option.map_eq_some_iff]
  constructor
  · rintro ⟨entry, last, rfl⟩
    exact found entry last
  · rintro ⟨inside, same⟩
    have member : (definitionAt defs j, j) ∈ defs.zipIdx.reverse := by
      rw [List.mem_reverse, List.mem_zipIdx_iff_getElem?, getElem?_definitionAt inside]
    cases last : defs.zipIdx.reverse.find? fun entry => entry.1.1.lvId == id with
    | none => exact absurd (beq_iff_eq.mpr same) (List.find?_eq_none.mp last _ member)
    | some entry =>
        obtain ⟨below, other⟩ := found entry last
        exact ⟨entry, rfl, eq_of_lvId_eq nodup below inside (other.trans same.symm)⟩

/-- The edges are the mentions among the kept definitions. -/
theorem mem_succsOf_iff (nodup : (ids defs).Nodup) (inside : i < defs.length) :
    j ∈ succsOf defs (definitionAt defs i) ↔
      j < defs.length ∧ Mentions defs (definitionAt defs i) (definitionAt defs j) := by
  rw [succsOf, sortUniq, List.mem_mergeSort, List.mem_dedup, List.mem_filterMap]
  constructor
  · rintro ⟨id, used, found⟩
    obtain ⟨below, same⟩ := (indexOf_eq_some_iff nodup id).mp found
    exact ⟨below, definitionAt_mem inside, definitionAt_mem below, same ▸ used⟩
  · rintro ⟨below, -, -, used⟩
    exact ⟨_, used, (indexOf_eq_some_iff nodup _).mpr ⟨below, rfl⟩⟩

abbrev succsAt (defs : List Definition) (i : Nat) : List Nat := succsOf defs (definitionAt defs i)

theorem below_of_reaches (nodup : (ids defs).Nodup) (inside : i < defs.length)
    (path : Tarjan.Reaches (succsAt defs) i j) : j < defs.length := by
  induction path with
  | refl => exact inside
  | tail _ step ih => exact ((mem_succsOf_iff nodup ih).mp step).1

/-- The places lead to each other where the definitions do. -/
theorem reaches_iff (nodup : (ids defs).Nodup) (iInside : i < defs.length)
    (jInside : j < defs.length) :
    Tarjan.Reaches (succsAt defs) i j ↔
      ReflTransGen (Mentions defs) (definitionAt defs i) (definitionAt defs j) := by
  constructor
  · intro path
    clear jInside
    induction path with
    | refl => exact .refl
    | tail path step ih =>
        have below := below_of_reaches nodup iInside path
        exact ih.tail ((mem_succsOf_iff nodup below).mp step).2
  · intro path
    generalize shape : definitionAt defs j = target at path
    induction path generalizing j with
    | refl =>
        have same := eq_of_lvId_eq nodup jInside iInside (congrArg (·.1.lvId) shape)
        subst same
        exact .refl
    | tail _ step ih =>
        obtain ⟨k, below, here⟩ := exists_definitionAt step.1
        refine (ih below here).tail ((mem_succsOf_iff nodup below).mpr ⟨jInside, ?_⟩)
        rwa [here, shape]

end Indexes

section Recursion

open Relation

variable {defs : List Definition} {compOf : Nat → Int} {v i : Nat}

theorem one_lt_length_iff {Entry : Type} [DecidableEq Entry] {values : List Entry} {entry : Entry}
    (nodup : values.Nodup) (member : entry ∈ values) :
    1 < values.length ↔ ∃ other ∈ values, other ≠ entry := by
  have length := List.length_erase_of_mem member
  have rest : 0 < (values.erase entry).length ↔ ∃ other, other ∈ values.erase entry :=
    List.length_pos_iff_exists_mem
  simp only [nodup.mem_erase_iff] at rest
  have : 0 < values.length := List.length_pos_of_mem member
  rw [length] at rest
  constructor
  · intro more
    obtain ⟨other, differ, found⟩ := rest.mp (by omega)
    exact ⟨other, found, differ⟩
  · rintro ⟨other, found, differ⟩
    have := rest.mpr ⟨other, differ, found⟩
    omega

/-- A definition reaches itself where it mentions itself or shares its component. -/
theorem reaches_self_iff (nodup : (ids defs).Nodup)
    (strong : ∀ x < defs.length, ∀ y, compOf y = compOf x ↔
      Tarjan.Reaches (succsAt defs) x y ∧ Tarjan.Reaches (succsAt defs) y x)
    (inside : v < defs.length) :
    Reaches defs (definitionAt defs v) (definitionAt defs v) ↔
      v ∈ succsAt defs v ∨
        1 < ((List.range defs.length).filter fun i => compOf i == compOf v).length := by
  have self : v ∈ (List.range defs.length).filter fun i => compOf i == compOf v := by
    simp [inside]
  rw [one_lt_length_iff (List.nodup_range.filter _) self]
  constructor
  · intro path
    obtain ⟨other, step, back⟩ := TransGen.head'_iff.mp path
    obtain ⟨w, below, rfl⟩ := exists_definitionAt step.2.1
    have edge := (mem_succsOf_iff nodup inside).mpr ⟨below, step⟩
    by_cases same : w = v
    · exact .inl (same ▸ edge)
    · right
      refine ⟨w, List.mem_filter.mpr ⟨List.mem_range.mpr below, beq_iff_eq.mpr ?_⟩, same⟩
      exact (strong v inside w).mpr ⟨.single edge, (reaches_iff nodup below inside).mpr back⟩
  · rintro (edge | ⟨w, member, differ⟩)
    · exact .single ((mem_succsOf_iff nodup inside).mp edge).2
    · obtain ⟨below, shared⟩ := List.mem_filter.mp member
      obtain ⟨there, back⟩ := (strong v inside w).mp (beq_iff_eq.mp shared)
      have path := (reaches_iff nodup inside (List.mem_range.mp below)).mp there
      rcases reflTransGen_iff_eq_or_transGen.mp path with same | path
      · exact absurd (eq_of_lvId_eq nodup (List.mem_range.mp below) inside
          (congrArg (·.1.lvId) same)) differ
      · exact path.trans_left ((reaches_iff nodup (List.mem_range.mp below) inside).mp back)

theorem comp_eq_iff (nodup : (ids defs).Nodup)
    (strong : ∀ x < defs.length, ∀ y, compOf y = compOf x ↔
      Tarjan.Reaches (succsAt defs) x y ∧ Tarjan.Reaches (succsAt defs) y x)
    (vInside : v < defs.length) (iInside : i < defs.length)
    (cyclic : Reaches defs (definitionAt defs v) (definitionAt defs v)) :
    compOf i = compOf v ↔ Reaches defs (definitionAt defs v) (definitionAt defs i) ∧
      Reaches defs (definitionAt defs i) (definitionAt defs v) := by
  rw [strong v vInside i, reaches_iff nodup vInside iInside, reaches_iff nodup iInside vInside]
  constructor
  · rintro ⟨there, back⟩
    exact ⟨cyclic.trans_left there, .trans_right back cyclic⟩
  · rintro ⟨there, back⟩
    exact ⟨there.to_reflTransGen, back.to_reflTransGen⟩

end Recursion

section Report

variable {defs : List Definition} {comp : Array Int} {buckets succs : Array (List Nat)}
  {compOf : Nat → Int} {v : Nat}

theorem holds_toArray (defs : List Definition) :
    Holds defs.length defs.toArray (definitionAt defs) :=
  ⟨List.size_toArray, fun place below => by rw [List.getElem?_toArray, getElem?_definitionAt below]⟩

theorem holds_succs (defs : List Definition) :
    Holds defs.length (defs.map (succsOf defs)).toArray (succsAt defs) := by
  refine ⟨by simp, fun place below => ?_⟩
  rw [List.getElem?_toArray, List.getElem?_map, getElem?_definitionAt below, Option.map_some]

theorem map_definitionAt_range (defs : List Definition) :
    (List.range defs.length).map (definitionAt defs) = defs := by
  apply List.ext_getElem?
  intro i
  rw [List.getElem?_map]
  by_cases inside : i < defs.length
  · rw [List.getElem?_range inside, getElem?_definitionAt inside, Option.map_some]
  · rw [List.getElem?_eq_none (by simpa using inside), List.getElem?_eq_none (by omega),
      Option.map_none]

theorem filter_eq_map (defs : List Definition) (test : Definition → Bool) :
    defs.filter test =
      ((List.range defs.length).filter fun i => test (definitionAt defs i)).map
        (definitionAt defs) := by
  conv_lhs => rw [← map_definitionAt_range defs]
  rw [List.filter_map]
  rfl

/-- The buckets hold the components of a search. -/
structure Bucketed (defs : List Definition) (comp : Array Int) (buckets : Array (List Nat))
    (compOf : Nat → Int) : Prop where
  comp : Holds defs.length comp compOf
  buckets : ∃ size, Holds size buckets
      (fun c => (List.range defs.length).filter fun i => compOf i == (c : Int)) ∧
    ∀ v < defs.length, 0 ≤ compOf v ∧ (compOf v).toNat < size
  strong : ∀ x < defs.length, ∀ y, compOf y = compOf x ↔
    Tarjan.Reaches (succsAt defs) x y ∧ Tarjan.Reaches (succsAt defs) y x

/-- A bucket lists its component in the order of the source. -/
theorem Bucketed.members_ok (bucketed : Bucketed defs comp buckets compOf)
    (inside : v < defs.length) : members comp buckets v =
      .ok ((List.range defs.length).filter fun i => compOf i == compOf v) := by
  obtain ⟨size, bucketHolds, assigned⟩ := bucketed.buckets
  obtain ⟨place, same⟩ := Int.eq_ofNat_of_zero_le (assigned v inside).1
  have fits := (assigned v inside).2
  rw [same, Int.toNat_natCast] at fits
  rw [members, bucketed.comp.read inside]
  simp only [bind, Except.bind]
  rw [same, bucketHolds.read fits]

open scoped Classical in
theorem Bucketed.recursive_ok (bucketed : Bucketed defs comp buckets compOf)
    (nodup : (ids defs).Nodup) (inside : v < defs.length) :
    recursive (defs.map (succsOf defs)).toArray comp buckets v =
      .ok (decide (Reaches defs (definitionAt defs v) (definitionAt defs v))) := by
  have iff := reaches_self_iff nodup bucketed.strong inside
  rw [recursive, (holds_succs defs).read inside, bucketed.members_ok inside]
  simp only [bind, Except.bind]
  split_ifs with mentioned
  · rw [decide_eq_true (iff.mpr (.inl (List.contains_iff_mem.mp mentioned)))]
  · rw [List.contains_iff_mem] at mentioned
    congr 1
    exact decide_eq_decide.mpr ((or_iff_right mentioned).symm.trans iff.symm)

open scoped Classical in
theorem Bucketed.report_ok (bucketed : Bucketed defs comp buckets compOf)
    (nodup : (ids defs).Nodup) (inside : v < defs.length)
    (cyclic : Reaches defs (definitionAt defs v) (definitionAt defs v)) :
    report defs.toArray comp buckets v = .ok (row (definitionAt defs v)
      ((defs.filter fun other => Reaches defs (definitionAt defs v) other ∧
        Reaches defs other (definitionAt defs v)).map (·.1.lvName))) := by
  have named : ∀ i ∈ (List.range defs.length).filter fun i => compOf i == compOf v,
      nameOf defs.toArray i = .ok (definitionAt defs i).1.lvName := by
    intro i member
    have below := List.mem_range.mp (List.mem_of_mem_filter member)
    rw [nameOf, (holds_toArray defs).read below]
    rfl
  have same : ((List.range defs.length).filter fun i => compOf i == compOf v) =
      (List.range defs.length).filter fun i => decide
        (Reaches defs (definitionAt defs v) (definitionAt defs i) ∧
          Reaches defs (definitionAt defs i) (definitionAt defs v)) := by
    apply List.filter_congr
    intro i member
    have iff := comp_eq_iff nodup bucketed.strong inside (List.mem_range.mp member) cyclic
    rw [Bool.eq_iff_iff, beq_iff_eq, decide_eq_true_iff]
    exact iff
  rw [report, (holds_toArray defs).read inside, bucketed.members_ok inside]
  simp only [bind, Except.bind]
  rw [mapM_ok _ named, same, filter_eq_map defs, List.map_map]
  rfl

/-- The search ends with every access in range. -/
theorem exists_bucketed (nodup : (ids defs).Nodup) :
    ∃ search buckets compOf,
      visitAll (defs.map (succsOf defs)).toArray defs.length (List.range defs.length)
        (.start defs.length) = .ok search ∧
      fillBuckets search.comp (List.range defs.length).reverse
        (Array.replicate (max 1 search.ncomp).toNat []) = .ok buckets ∧
      Bucketed defs search.comp buckets compOf := by
  have below : ∀ v < defs.length, ∀ w ∈ succsAt defs v, w < defs.length := fun v inside w member =>
    ((mem_succsOf_iff nodup inside).mp member).1
  have bound : ∀ v ∈ Finset.range defs.length, ∀ w ∈ succsAt defs v,
      w ∈ Finset.range defs.length := by
    simpa only [Finset.mem_range] using below
  have enough : (Finset.range defs.length).card ≤ defs.length := (Finset.card_range _).le
  have lists : ∀ v, v ∈ List.range defs.length ↔ v ∈ Finset.range defs.length := fun v => by
    rw [List.mem_range, Finset.mem_range]
  obtain ⟨after, visited, components⟩ := Tarjan.visitAll_components bound enough lists
  obtain ⟨search, ran, matching⟩ := Matches.visitAll (holds_succs defs) below
    (List.range defs.length) (fun v => List.mem_range.mp) (matches_start defs.length) visited
  have assigned : ∀ v < defs.length,
      0 ≤ after.comp v ∧ (after.comp v).toNat < (max 1 search.ncomp).toNat := by
    intro v inside
    obtain ⟨⟨low, high⟩, -⟩ := components v (Finset.mem_range.mpr inside)
    rw [← matching.ncomp] at high
    omega
  obtain ⟨buckets, filled, bucketHolds⟩ := fillBuckets_ok matching.comp
    (List.range defs.length).reverse
    (fun i member => ⟨List.mem_range.mp (List.mem_reverse.mp member),
      assigned i (List.mem_range.mp (List.mem_reverse.mp member))⟩)
    (holds_replicate (max 1 search.ncomp).toNat [])
  simp only [List.reverse_reverse, List.append_nil] at bucketHolds
  exact ⟨search, buckets, after.comp, ran, filled, matching.comp, ⟨_, bucketHolds, assigned⟩,
    fun v inside => (components v (Finset.mem_range.mpr inside)).2⟩

open scoped Classical in
/-- The first definition of each id stands in source order, and exactly those that reach themselves
are reported, each with those that it reaches and that reach it. -/
theorem getRecursiveLogic_exact (globals : List GlobalAnnot) :
    ∃ defs : List Definition, defs.Pairwise (fun left right => position left ≤ position right) ∧
      (ids defs).Nodup ∧
      (∀ definition, definition ∈ defs ↔ (entriesAll globals).find?
        (fun other => other.1.lvId == definition.1.lvId) = some definition) ∧
      getRecursiveLogic globals = .ok (.obj [("definitions", .arr
        ((defs.filter fun definition => Reaches defs definition definition).map fun definition =>
          row definition ((defs.filter fun other =>
            Reaches defs definition other ∧ Reaches defs other definition).map (·.1.lvName))))]) := by
  have perm := StableSort.sortByKey_perm position (collectAll ⟨[], []⟩ globals).defs
  have once : Collected.Once ⟨[], []⟩ := ⟨rfl, List.nodup_nil⟩
  have kept : (ids (collectAll ⟨[], []⟩ globals).defs).Nodup := by
    rw [collectAll_eq_foldl]
    exact (once.foldl _).nodup
  refine ⟨StableSort.sortByKey position (collectAll ⟨[], []⟩ globals).defs,
    StableSort.sortByKey_sorted _ _, (perm.map _).nodup_iff.mpr kept, fun definition => ?_, ?_⟩
  · rw [perm.mem_iff, mem_collectAll_iff]
  · rw [getRecursiveLogic]
    have nodup := (perm.map fun definition : Definition => definition.1.lvId).nodup_iff.mpr kept
    generalize StableSort.sortByKey position (collectAll ⟨[], []⟩ globals).defs = defs at nodup ⊢
    obtain ⟨search, buckets, compOf, ran, filled, bucketed⟩ := exists_bucketed nodup
    have found := filterM_ok (List.range defs.length)
      fun v member => bucketed.recursive_ok nodup (List.mem_range.mp member)
    have rows := mapM_ok ((List.range defs.length).filter fun v =>
        decide (Reaches defs (definitionAt defs v) (definitionAt defs v)))
      fun v member => bucketed.report_ok nodup
        (List.mem_range.mp (List.mem_of_mem_filter member))
        (of_decide_eq_true (List.mem_filter.mp member).2)
    simp only [bind, Except.bind, ran, filled, found, rows]
    rw [filter_eq_map defs fun definition => decide (Reaches defs definition definition),
      List.map_map]
    rfl

end Report

end FramaCMcp.RecursiveLogic
