/-
This file pairs the accesses of a scan that may race.
-/

import FramaCMcp.Construction.Events

namespace FramaCMcp.Concurrency

def pairsPerCandidate : Nat := 1024

/-- The total counts every candidate, and only the first ones are built. -/
structure Candidates where
  emitted : List Json
  total : Nat
  cap : Nat
  budget : Nat
  exhausted : Bool
  timedOut : Bool

def Candidates.push (out : Candidates) (candidate : Json) : Candidates :=
  { out with
    total := out.total + 1
    emitted := if out.emitted.length < out.cap then out.emitted ++ [candidate] else out.emitted }

/-- One comparison is charged, or the scan has to stop. -/
def Candidates.spend (out : Candidates) : Candidates × Bool :=
  if out.budget = 0 then ({ out with exhausted := true }, false)
  else ({ out with budget := out.budget - 1 }, true)

def mayRunConcurrently (left right : Event) (repeating : Finset String) : Bool :=
  threadsConcurrent left.threads right.threads repeating

/-- A lock that both events hold in shared mode does not exclude them. -/
def commonLocks (left right : Event) : List String :=
  (left.lockset.filter fun lock => right.lockset.contains lock).filter fun lock =>
    !(left.readLocks.contains lock && right.readLocks.contains lock)

def exclusiveLocks (access : Event) : List String :=
  access.lockset.filter fun lock => !access.readLocks.contains lock

def texts (names : List String) : Json := .arr (names.map .str)

def lockNote (shared : List String) : Json :=
  if shared = [] then .null
  else .obj [("common_lexical_locks", texts shared),
    ("note", .str ("Both accesses lexically hold these names. That is evidence, not protection: " ++
      "acquisition is not path sensitive here and two spellings are not proof of one mutex."))]

def pairCandidate (left right : Event) : Json :=
  .obj [("status", .str "potential"),
    ("accesses", texts [left.id, right.id]),
    ("memory_zone", .ofText? left.zone),
    ("kinds", texts [left.kind.text, right.kind.text]),
    ("threads", texts (Coverage.sortDedup (left.threads ++ right.threads))),
    ("lock_evidence", lockNote (commonLocks left right)),
    ("reason", .str (if isAtomic left.kind || isAtomic right.kind then
      "an atomic access against a plain one, which its atomicity does not order"
    else "conflicting accesses that this pass cannot order")),
    ("provenance", .str "syntax"),
    ("next_analysis", .str "alias_and_happens_before")]

def selfCandidate (access : Event) : Json :=
  .obj [("status", .str "potential"),
    ("accesses", texts [access.id, access.id]),
    ("memory_zone", .ofText? access.zone),
    ("kinds", texts [access.kind.text, access.kind.text]),
    ("threads", texts access.threads),
    ("lock_evidence", lockNote (exclusiveLocks access)),
    ("reason", .str "the same write may execute in more than one instance of its thread"),
    ("provenance", .str "syntax"),
    ("next_analysis", .str "alias_and_happens_before")]

/-- A scan carries the number of the checks of the deadline, and stops or goes on. -/
structure Scan where
  out : Candidates
  checks : Nat
  goesOn : Bool

section Scans

variable (deadline : Deadline) (repeating : Finset String)

def pairRow (left : Event) : List Event → Candidates → Nat → Scan
  | [], out, checks => ⟨out, checks, true⟩
  | right :: rest, out, checks =>
      if deadline.passed checks then ⟨{ out with timedOut := true }, checks + 1, false⟩
      else
        match out.spend with
        | (stopped, false) => ⟨stopped, checks + 1, false⟩
        | (charged, true) =>
            pairRow left rest
              (if conflicting left.kind right.kind && mayRunConcurrently left right repeating then
                charged.push (pairCandidate left right)
              else charged)
              (checks + 1)

def zoneCandidates : List Event → Candidates → Nat → Scan
  | [], out, checks => ⟨out, checks, true⟩
  | left :: rest, out, checks =>
      match pairRow deadline repeating left rest out checks with
      | ⟨stopped, count, false⟩ => ⟨stopped, count, false⟩
      | ⟨paired, count, true⟩ => zoneCandidates rest paired count

/-- The accesses are collected under their zones. -/
def groupByZone : List Event → OrderedMap String (List Event) → Nat →
    Option (OrderedMap String (List Event)) × Nat
  | [], groups, checks => (some groups, checks)
  | event :: rest, groups, checks =>
      if isAccess event.kind then
        if deadline.passed checks then (none, checks + 1)
        else
          match event.zone with
          | none => groupByZone rest groups (checks + 1)
          | some zone => groupByZone rest (groups.modify zone [] (· ++ [event])) (checks + 1)
      else groupByZone rest groups checks

/-- A plain write that may repeat is a candidate against itself. -/
def selfCandidates : List Event → Candidates → Nat → Scan
  | [], out, checks => ⟨out, checks, true⟩
  | event :: rest, out, checks =>
      if event.kind = .write && event.mayRepeat then
        if deadline.passed checks then ⟨{ out with timedOut := true }, checks + 1, false⟩
        else selfCandidates rest (out.push (selfCandidate event)) (checks + 1)
      else selfCandidates rest out checks

def allZones : List (List Event) → Candidates → Nat → Candidates × Nat
  | [], out, checks => (out, checks)
  | group :: rest, out, checks =>
      if out.exhausted || out.timedOut then (out, checks)
      else
        let scan := zoneCandidates deadline repeating group out checks
        allZones rest scan.out scan.checks

/-- The budget of comparisons is a machine word. -/
def startCandidates (cap : Nat) : Candidates where
  emitted := []
  total := 0
  cap
  budget := max (min (cap * pairsPerCandidate) (2 ^ 64 - 1)) pairsPerCandidate
  exhausted := false
  timedOut := false

def candidateList (events : List Event) (cap : Nat) : Candidates :=
  match groupByZone deadline events OrderedMap.empty 0 with
  | (none, _) =>
      { emitted := [], total := 0, cap, budget := 0, exhausted := false, timedOut := true }
  | (some groups, checks) =>
      match selfCandidates deadline events (startCandidates cap) checks with
      | ⟨stopped, _, false⟩ => stopped
      | ⟨repeated, count, true⟩ =>
          let (out, final) := allZones deadline repeating groups.values repeated count
          { out with timedOut := out.timedOut || deadline.passed final }

end Scans

end FramaCMcp.Concurrency
