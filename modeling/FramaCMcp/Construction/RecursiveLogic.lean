/-
This file lists the recursive definitions of logic functions and predicates.
-/

import FramaCMcp.Foundation.Json
import FramaCMcp.Foundation.StableSort
import Mathlib.Data.List.Dedup
import Mathlib.Data.Prod.Lex
import Mathlib.Data.String.Basic

namespace FramaCMcp.RecursiveLogic

section Annotations

structure Location where
  file : String
  line : Int
  deriving DecidableEq, Inhabited

/-- The uses are the ids of the logic functions and predicates that a visit of the body meets. -/
inductive LogicBody where
  | term (uses : List Int)
  | pred (uses : List Int)
  | unread
  deriving DecidableEq, Inhabited

/-- The type is missing for a predicate. -/
structure LogicInfo where
  lvId : Int
  lvName : String
  lType : Option String
  lBody : LogicBody
  deriving DecidableEq, Inhabited

inductive GlobalAnnot where
  | dfunOrPred (li : LogicInfo) (loc : Location)
  | daxiomatic (inner : List GlobalAnnot)
  | dmodule (inner : List GlobalAnnot)
  | unread

abbrev Definition := LogicInfo × Location

structure Collected where
  seen : List Int
  defs : List Definition

/-- The newest definition is in front. -/
def collectDefinition (state : Collected) (li : LogicInfo) (loc : Location) : Collected :=
  match li.lBody with
  | .term _ | .pred _ =>
      if state.seen.contains li.lvId then state
      else { seen := li.lvId :: state.seen, defs := (li, loc) :: state.defs }
  | .unread => state

mutual

def collect (state : Collected) : GlobalAnnot → Collected
  | .dfunOrPred li loc => collectDefinition state li loc
  | .daxiomatic inner => collectAll state inner
  | .dmodule inner => collectAll state inner
  | .unread => state

def collectAll (state : Collected) : List GlobalAnnot → Collected
  | [] => state
  | ga :: rest => collectAll (collect state ga) rest

end

def position (definition : Definition) : String ×ₗ Int ×ₗ String :=
  toLex (definition.2.file, toLex (definition.2.line, definition.1.lvName))

/-- The last definition of an id would win. -/
def indexOf (defs : List Definition) (id : Int) : Option Nat :=
  (defs.zipIdx.reverse.find? fun entry => entry.1.1.lvId == id).map Prod.snd

def sortUniq (indexes : List Nat) : List Nat := indexes.dedup.mergeSort (· ≤ ·)

def usesOf (li : LogicInfo) : List Int :=
  match li.lBody with
  | .term uses | .pred uses => uses.dedup
  | .unread => []

def succsOf (defs : List Definition) (definition : Definition) : List Nat :=
  sortUniq ((usesOf definition.1).filterMap (indexOf defs))

end Annotations

section Arrays

/-- An access out of range is an exception, and the search has a depth. -/
inductive Fault where
  | outOfRange
  | outOfFuel
  deriving DecidableEq, Inhabited

def read {Value : Type} (values : Array Value) (place : Int) : Except Fault Value :=
  if 0 ≤ place then
    match values[place.toNat]? with
    | some value => .ok value
    | none => .error .outOfRange
  else .error .outOfRange

def write {Value : Type} (values : Array Value) (place : Int) (value : Value) :
    Except Fault (Array Value) :=
  if 0 ≤ place ∧ place.toNat < values.size then .ok (values.setIfInBounds place.toNat value)
  else .error .outOfRange

end Arrays

section Components

structure Search where
  index : Array Int
  low : Array Int
  onStack : Array Bool
  stack : List Nat
  counter : Int
  comp : Array Int
  ncomp : Int

def Search.start (n : Nat) : Search where
  index := Array.replicate n (-1)
  low := Array.replicate n 0
  onStack := Array.replicate n false
  stack := []
  counter := 0
  comp := Array.replicate n (-1)
  ncomp := 0

def pop (v : Nat) : List Nat → Search → Except Fault Search
  | [], search => .ok search
  | w :: rest, search => do
      let onStack ← write search.onStack w false
      let comp ← write search.comp w search.ncomp
      let search := { search with stack := rest, onStack := onStack, comp := comp }
      if w ≠ v then pop v rest search else .ok search

def follow (visit : Nat → Search → Except Fault Search) (v : Nat) :
    List Nat → Search → Except Fault Search
  | [], search => .ok search
  | w :: rest, search => do
      if (← read search.index w) < 0 then
        let search ← visit w search
        let low ← write search.low v (min (← read search.low v) (← read search.low w))
        follow visit v rest { search with low := low }
      else if ← read search.onStack w then
        let low ← write search.low v (min (← read search.low v) (← read search.index w))
        follow visit v rest { search with low := low }
      else follow visit v rest search

def visit (succs : Array (List Nat)) : Nat → Nat → Search → Except Fault Search
  | 0, _, _ => .error .outOfFuel
  | fuel + 1, v, search => do
      let index ← write search.index v search.counter
      let low ← write search.low v search.counter
      let onStack ← write search.onStack v true
      let search := { search with
        index := index, low := low, counter := search.counter + 1, stack := v :: search.stack
        onStack := onStack }
      let search ← follow (visit succs fuel) v (← read succs v) search
      if (← read search.low v) = (← read search.index v) then
        let search ← pop v search.stack search
        .ok { search with ncomp := search.ncomp + 1 }
      else .ok search

def visitAll (succs : Array (List Nat)) (fuel : Nat) : List Nat → Search → Except Fault Search
  | [], search => .ok search
  | v :: rest, search => do
      if (← read search.index v) < 0 then visitAll succs fuel rest (← visit succs fuel v search)
      else visitAll succs fuel rest search

/-- The nodes come from the last one. -/
def fillBuckets (comp : Array Int) : List Nat → Array (List Nat) → Except Fault (Array (List Nat))
  | [], buckets => .ok buckets
  | i :: rest, buckets => do
      let place ← read comp i
      let buckets ← write buckets place (i :: (← read buckets place))
      fillBuckets comp rest buckets

end Components

section Report

def members (comp : Array Int) (buckets : Array (List Nat)) (i : Nat) : Except Fault (List Nat) := do
  read buckets (← read comp i)

def recursive (succs : Array (List Nat)) (comp : Array Int) (buckets : Array (List Nat)) (v : Nat) :
    Except Fault Bool := do
  if (← read succs v).contains v then .ok true
  else .ok (decide (1 < (← members comp buckets v).length))

def nameOf (defs : Array Definition) (i : Nat) : Except Fault String := do
  .ok (← read defs i).1.lvName

def row (definition : Definition) (cycle : List String) : Json :=
  .obj [("name", .str definition.1.lvName),
    ("kind", .str (if definition.1.lType.isNone then "predicate" else "function")),
    ("file", .str definition.2.file), ("line", .num definition.2.line),
    ("cycle", .arr (cycle.map .str))]

def report (defs : Array Definition) (comp : Array Int) (buckets : Array (List Nat)) (i : Nat) :
    Except Fault Json := do
  .ok (row (← read defs i) (← (← members comp buckets i).mapM (nameOf defs)))

def getRecursiveLogic (globals : List GlobalAnnot) : Except Fault Json := do
  let defs := StableSort.sortByKey position (collectAll ⟨[], []⟩ globals).defs
  let n := defs.length
  let succs := (defs.map (succsOf defs)).toArray
  let search ← visitAll succs n (List.range n) (.start n)
  let buckets ← fillBuckets search.comp (List.range n).reverse
    (Array.replicate (max 1 search.ncomp).toNat [])
  let found ← (List.range n).filterM (recursive succs search.comp buckets)
  .ok (.obj [("definitions", .arr (← found.mapM (report defs.toArray search.comp buckets)))])

end Report

end FramaCMcp.RecursiveLogic
