/-
This file follows the held locks through the blocks of a function, applies the lock calls, records
the order of the locks and reports its cycles and self edges.
-/

import Mathlib.Data.List.Lex
import Mathlib.Data.Prod.Lex
import Mathlib.Data.String.Basic
import FramaCMcp.Foundation.Digraph
import FramaCMcp.Construction.Tokens

namespace FramaCMcp.Concurrency

/-- The body of a branch without a brace stands on the next line or beside its head. -/
inductive Branch where
  | none
  | nextLine
  | sameLine
  deriving DecidableEq, Repr

def opensLoop (line : Line) : Bool :=
  ["for", "while", "do"].any (startsWithWord (Line.trimStart line))

/-- The branch heads `else` are stepped over. The flag tells whether there was one. -/
def dropElse : Nat → Bool → Line → Bool × Line
  | 0, saw, head => (saw, head)
  | fuel + 1, saw, head =>
      if startsWithWord head "else" then dropElse fuel true (Line.trimStart (head.drop 4))
      else (saw, head)

/-- A condition whose bracket wraps puts the body on a later line. -/
def branchOn (line : Line) : Branch :=
  if line.contains '\x7b' then .none
  else
    let (sawElse, head) := dropElse line.length false (Line.trimStart line)
    if ["if", "for", "while"].any (startsWithWord head) then
      match (Line.find head "(").bind (Line.matching head) with
      | none => .nextLine
      | some closing => if Line.isBlank (head.drop (closing + 1)) then .nextLine else .sameLine
    else if sawElse then (if head = [] then .nextLine else .sameLine)
    else .none

/-- A shared lock excludes only writers. -/
structure Held where
  name : String
  shared : Bool
  deriving DecidableEq, Repr

/-- This is what a block is the body of. -/
inductive Body where
  | plain
  | loop
  | switch
  deriving DecidableEq, Repr

/-- The exits are the locksets of the paths that left the block by a break or a continue. -/
structure Frame where
  held : List Held
  body : Body
  exits : List (List Held)
  deriving DecidableEq, Repr

def Frame.empty : Frame := { held := [], body := .plain, exits := [] }

/-- The last statement of a block leaves it in one of these ways. -/
inductive Exit where
  | fallThrough
  | leaves
  | breaks
  | continues
  | jumps
  deriving DecidableEq, Repr

def noReturn : List String :=
  ["exit", "_exit", "_Exit", "abort", "pthread_exit", "longjmp", "siglongjmp", "__assert_fail"]

/-- The last statement starts after the last separator at depth zero. -/
def lastStart : Int → Nat → Nat → Line → Nat
  | _, _, start, [] => start
  | depth, offset, start, c :: rest =>
      let next := Line.depthStep ['('] [')'] depth c
      lastStart next (offset + 1)
        (if next = 0 ∧ [';', '\x7b', '\x7d'].contains c then offset + 1 else start) rest

def lastStatement (text : Line) : Line := Line.trim (text.drop (lastStart 0 0 0 text))

/-- A text that does not end with a jump falls through. -/
def blockExit (text : Line) : Exit :=
  let trimmed := Line.trimEnd text
  if trimmed.getLast? = some ';' then
    let statement := lastStatement trimmed.dropLast
    if startsWithWord statement "return" then .leaves
    else if startsWithWord statement "goto" then .jumps
    else if startsWithWord statement "break" then .breaks
    else if startsWithWord statement "continue" then .continues
    else if noReturn.any fun name => startsWithWord statement name &&
        Line.startsWith (Line.trimStart (statement.drop name.length)) "(" then .leaves
    else .fallThrough
  else .fallThrough

def openedBody (head : Line) : Body :=
  let statement := lastStatement head
  let inner := if Line.startsWith statement "else" then Line.trimStart (statement.drop 4)
    else statement
  if opensLoop inner then .loop
  else if startsWithWord inner "switch" then .switch
  else .plain

/-- A path that leaves in this way lands at a block of this body. -/
def landsAt (exit : Exit) (body : Body) : Bool :=
  match exit with
  | .breaks => body != .plain
  | .continues => body == .loop
  | _ => false

/-- The line opens with a label, and not with one of a switch. -/
def isLabel (line : Line) : Bool :=
  let text := Line.trimStart line
  let name := text.takeWhile isTail
  let rest := Line.trimStart (text.drop name.length)
  isIdentifier name && !(["default", "case"].contains (String.ofList name)) &&
    Line.startsWith rest ":" && !Line.startsWith rest "::"

/-- Only the locks that the path holds as well are kept. -/
def intersect (outer path : List Held) : List Held := outer.filter fun lock => path.contains lock

/-- The walk is in the top block, and the other open blocks are below it. There is always one
block. -/
structure Walk where
  top : Frame
  below : List Frame
  locals : Finset String
  gotos : List (List Held)
  previous : Line
  previousConditional : Bool

namespace Walk

def new : Walk where
  top := .empty
  below := []
  locals := ∅
  gotos := []
  previous := []
  previousConditional := false

/-- The number of the open blocks. -/
def depth (walk : Walk) : Nat := walk.below.length + 1

def setHeld (walk : Walk) (held : List Held) : Walk :=
  { walk with top := { walk.top with held } }

/-- A block starts with the locks of the block around it. -/
def enter (walk : Walk) (body : Body) : Walk :=
  { walk with
    top := { held := walk.top.held, body, exits := [] }
    below := walk.top :: walk.below }

/-- The head of a block stands before its brace or on the line before. -/
def openBlock (walk : Walk) (before : Line) : Walk :=
  walk.enter (openedBody (if Line.isBlank before then walk.previous else before))

/-- The path lands at the innermost block that takes it. -/
def pushExit (exit : Exit) (path : List Held) : List Frame → Option (List Frame)
  | [] => none
  | frame :: rest =>
      if landsAt exit frame.body then some ({ frame with exits := frame.exits ++ [path] } :: rest)
      else (pushExit exit path rest).map (frame :: ·)

/-- A path that falls through is merged into the block around. -/
def mergeTop (path : List Held) : List Frame → List Frame
  | [] => []
  | frame :: rest => { frame with held := intersect frame.held path } :: rest

/-- These are the blocks around the left one, with its path merged where it lands. -/
def landing (exit : Exit) (path : List Held) (frames : List Frame) : List Frame :=
  match exit with
  | .leaves => frames
  | .jumps => frames
  | .fallThrough => mergeTop path frames
  | .breaks => (pushExit exit path frames).getD (mergeTop path frames)
  | .continues => (pushExit exit path frames).getD (mergeTop path frames)

/-- The outermost block is never left. The paths that landed at the left block are merged after
it. -/
def leave (walk : Walk) (exit : Exit) : Walk × Option (List Held) :=
  let inner := walk.top
  let taken := if landsAt exit inner.body then .fallThrough else exit
  match walk.below with
  | [] => (walk, none)
  | outer :: rest =>
      match landing taken inner.held (outer :: rest) with
      | [] => (walk, none)
      | merged :: others =>
          ({ walk with
              top := { merged with held := inner.exits.foldl intersect merged.held }
              below := others
              gotos := if taken = .jumps then walk.gotos ++ [inner.held] else walk.gotos },
            some inner.held)

/-- The block is left by the statement before its brace. -/
def closeBlock (walk : Walk) (before : Line) : Walk × Option (List Held) :=
  walk.leave
    (if Line.isBlank before then
      (if walk.previousConditional then .fallThrough else blockExit walk.previous)
    else blockExit before)

/-- Every path that jumped is merged at a label. -/
def land (walk : Walk) : Walk := walk.setHeld (walk.gotos.foldl intersect walk.top.held)

/-- These are the names of the held locks and of the shared ones. -/
def lockset (walk : Walk) (atomicFunction : Bool) : List String × List String :=
  let names := walk.top.held.map Held.name
  let shared := (walk.top.held.filter Held.shared).map Held.name
  (if atomicFunction && !names.contains atomicSection then atomicSection :: names else names,
    shared)

end Walk

/-- This is where a lock operation happened, and in which threads. -/
structure Site where
  file : String
  line : Nat
  threads : List String

def sitesPerEdge : Nat := 16

/-- The count of an edge is whole, and only its first sites are listed. -/
structure EdgeSites where
  sites : List (String × Nat)
  count : Nat
  threads : OrderedSet String
  exclusive : Bool

def EdgeSites.empty : EdgeSites where
  sites := []
  count := 0
  threads := OrderedMap.empty
  exclusive := false

/-- The graph has one edge for each ordered pair of locks, up to its cap. -/
structure LockGraph where
  edges : OrderedMap (Lex (String × String)) EdgeSites
  cap : Nat
  sitesDropped : Nat
  writers : OrderedSet String

namespace LockGraph

def empty (cap : Nat) : LockGraph where
  edges := OrderedMap.empty
  cap
  sitesDropped := 0
  writers := OrderedMap.empty

/-- A graph without room keeps no writers. -/
def take (graph : LockGraph) (lock : String) (shared : Bool) : LockGraph :=
  if graph.cap = 0 then graph
  else if !shared && !OrderedMap.contains graph.writers lock then
    { graph with writers := graph.writers.add lock }
  else graph

/-- The first lock is held while the second one is taken. -/
def record (graph : LockGraph) (first second : String) (shared : Bool) (site : Site) : LockGraph :=
  let key := toLex (first, second)
  if graph.cap ≤ graph.edges.entries.length ∧ graph.edges.contains key = false then
    { graph with sitesDropped := graph.sitesDropped + 1 }
  else
    { graph with
      edges := graph.edges.modify key .empty fun edge =>
        { sites := if edge.sites.length < sitesPerEdge then edge.sites ++ [(site.file, site.line)]
            else edge.sites
          count := edge.count + 1
          threads := edge.threads.addAll site.threads
          exclusive := edge.exclusive || !shared } }

end LockGraph

/-- The innermost hold of the lock is removed. The flag tells whether there was one. -/
def release (held : List Held) (lock : String) : List Held × Bool :=
  ((held.reverse.eraseP fun other => other.name == lock).reverse,
    held.any fun other => other.name == lock)

/-- The locks that are held record an edge into the taken one, except the inherited ones. -/
def recordHeld (graph : LockGraph) (held : List Held) (lock : String) (shared : Held → Bool)
    (site : Site) : LockGraph :=
  held.foldl (fun graph outer => graph.record outer.name lock (shared outer) site) graph

/-- The flag tells whether a lock was released that is not held. -/
def applyLock (entry : LockApi) (lock : String) (held : List Held) (inherited : List String)
    (site : Site) (graph : LockGraph) : List Held × LockGraph × Bool :=
  let shared := decide (entry.mode = .shared)
  let ordered := held.filter fun outer => !inherited.contains outer.name
  match entry.op with
  | .release => ((release held lock).1, graph, !(release held lock).2)
  | .attempt => (held, graph.take lock shared, false)
  | .acquire =>
      (held ++ [⟨lock, shared⟩],
        recordHeld (graph.take lock shared) ordered lock (fun outer => outer.shared && shared) site,
        false)
  | .wait =>
      if held.any fun other => other.name == lock then
        (held, recordHeld (graph.take lock false) (ordered.filter fun outer => outer.name != lock)
          lock (fun _ => false) site, false)
      else (held, graph.take lock false, false)

end FramaCMcp.Concurrency

namespace FramaCMcp.Concurrency

open Digraph

/-- The graph keeps no repeat of a set. -/
def addTarget (adjacent : OrderedMap String (OrderedSet String)) (key : String × String) :
    OrderedMap String (OrderedSet String) :=
  if key.1 = key.2 then adjacent
  else adjacent.modify key.1 OrderedMap.empty fun targets => targets.add key.2

def pairsOf (graph : LockGraph) : List ((String × String) × EdgeSites) :=
  graph.edges.entries.map fun entry => (ofLex entry.1, entry.2)

/-- A self edge joins no two locks. -/
def adjacency (graph : LockGraph) : OrderedMap String (OrderedSet String) :=
  ((pairsOf graph).map Prod.fst).foldl addTarget OrderedMap.empty

/-- These are the edges of an adjacency, row by row. -/
def arcsOf (adjacent : OrderedMap String (OrderedSet String)) : List (String × String) :=
  adjacent.entries.flatMap fun row => (OrderedMap.keys row.2).map fun target => (row.1, target)

/-- The names at both ends of the edges are the nodes. -/
def arcNames (arcs : List (String × String)) : List String :=
  OrderedMap.keys (OrderedSet.addAll OrderedMap.empty (arcs.flatMap fun arc => [arc.1, arc.2]))

theorem mem_arcNames {arcs : List (String × String)} {name : String} :
    name ∈ arcNames arcs ↔ ∃ arc ∈ arcs, name = arc.1 ∨ name = arc.2 := by
  unfold arcNames
  rw [OrderedSet.mem_keys_addAll]
  simp [OrderedMap.keys, OrderedMap.empty]

/-- Each name is the node at its place. -/
def directedGraph (arcs : List (String × String)) : DiGraph String where
  nodes := arcNames arcs
  edges := arcs.map fun arc => ((arcNames arcs).idxOf arc.1, (arcNames arcs).idxOf arc.2)
  within := by
    intro edge member
    obtain ⟨arc, inside, rfl⟩ := List.mem_map.mp member
    exact ⟨List.idxOf_lt_length_of_mem (mem_arcNames.mpr ⟨arc, inside, .inl rfl⟩),
      List.idxOf_lt_length_of_mem (mem_arcNames.mpr ⟨arc, inside, .inr rfl⟩)⟩

def targetsOf (adjacent : OrderedMap String (OrderedSet String)) (name : String) : List String :=
  OrderedMap.keys ((adjacent.lookup name).getD OrderedMap.empty)

theorem mem_arcsOf (adjacent : OrderedMap String (OrderedSet String)) (first second : String) :
    (first, second) ∈ arcsOf adjacent ↔ second ∈ targetsOf adjacent first := by
  unfold arcsOf targetsOf
  rw [List.mem_flatMap]
  constructor
  · rintro ⟨⟨name, targets⟩, row, member⟩
    obtain ⟨target, inside, same⟩ := List.mem_map.mp member
    obtain ⟨rfl, rfl⟩ := Prod.mk.inj same
    rw [(OrderedMap.mem_entries_iff ..).mp row]
    exact inside
  · intro inside
    cases found : adjacent.lookup first with
    | none =>
        rw [found] at inside
        exact nomatch inside
    | some targets =>
        rw [found] at inside
        exact ⟨(first, targets), (OrderedMap.mem_entries_iff ..).mpr found,
          List.mem_map.mpr ⟨second, inside, rfl⟩⟩

theorem arcNames_nodup (arcs : List (String × String)) : (arcNames arcs).Nodup :=
  (OrderedMap.keys_sorted _).imp fun less => less.ne

/-- The nodes of the directed graph are the names, and its edges lead to the targets. -/
theorem directedGraph_represents (adjacent : OrderedMap String (OrderedSet String)) :
    Represents (directedGraph (arcsOf adjacent))
      fun source target => target ∈ targetsOf adjacent source where
  distinct := arcNames_nodup _
  edge := by
    intro source target left right first second
    have distinct := arcNames_nodup (arcsOf adjacent)
    have place {index : Nat} {name : String}
        (here : (arcNames (arcsOf adjacent))[index]? = some name) :
        (arcNames (arcsOf adjacent)).idxOf name = index := by
      obtain ⟨bound, rfl⟩ := List.getElem?_eq_some_iff.mp here
      exact distinct.idxOf_getElem index bound
    have named {index : Nat} {name other : String}
        (here : (arcNames (arcsOf adjacent))[index]? = some name)
        (listed : other ∈ arcNames (arcsOf adjacent))
        (same : (arcNames (arcsOf adjacent)).idxOf other = index) : other = name := by
      rw [← same, List.getElem?_idxOf listed] at here
      exact Option.some.inj here
    rw [← mem_arcsOf]
    constructor
    · intro edge
      obtain ⟨⟨first_, second_⟩, member, same⟩ := List.mem_map.mp edge
      obtain ⟨start, stop⟩ := Prod.mk.inj same
      rw [← named first (mem_arcNames.mpr ⟨_, member, .inl rfl⟩) start,
        ← named second (mem_arcNames.mpr ⟨_, member, .inr rfl⟩) stop]
      exact member
    · intro arc
      exact List.mem_map.mpr ⟨(left, right), arc, by
        rw [place first, place second]⟩
  declared := by
    intro left right arc
    have member := (mem_arcsOf ..).mpr arc
    exact ⟨mem_arcNames.mpr ⟨_, member, .inl rfl⟩, mem_arcNames.mpr ⟨_, member, .inr rfl⟩⟩

def sitesJson (edge : EdgeSites) : List Json :=
  edge.sites.map fun site => .obj [("file", .str site.1), ("line", .num site.2)]

def textsJson (texts : List String) : Json := .arr (texts.map .str)

def threadsOfEdge (edge : EdgeSites) : List String := OrderedMap.keys edge.threads

/-- The source of an edge is its first site. -/
def edgeJson (source target : String) (edge : EdgeSites) : Json :=
  .obj [("from", .str source),
    ("to", .str target),
    ("source", (sitesJson edge).head?.getD .null),
    ("sites", .arr (sitesJson edge)),
    ("site_count", .num edge.count),
    ("threads", textsJson (threadsOfEdge edge))]

def doubleLockJson (lock : String) (edge : EdgeSites) : Json :=
  .obj [("status", .str "potential"),
    ("lock", .str lock),
    ("sites", .arr (sitesJson edge)),
    ("site_count", .num edge.count),
    ("threads", textsJson (threadsOfEdge edge)),
    ("reason", .str ("acquired while lexically already held: a self-deadlock for a default mutex; " ++
      "harmless for a recursive mutex, and for a second read lock unless a writer is queued; a " ++
      "second wait on a semaphore blocks unless its count covers both; this pass sees neither " ++
      "attributes nor counts")),
    ("provenance", .str "syntax")]

/-- The threads of the first edge are compared with those of each edge. -/
def concurrentCycle (edges : List ((String × String) × EdgeSites)) (repeating : Finset String) :
    Bool :=
  match edges.head? with
  | none => false
  | some first => edges.any fun edge =>
      threadsConcurrent (threadsOfEdge first.2) (threadsOfEdge edge.2) repeating

/-- A cycle is reported only when two of its edges may be taken by threads running at once. -/
def cycleJson (members : List String) (edges : List ((String × String) × EdgeSites))
    (repeating : Finset String) : Option Json :=
  if concurrentCycle edges repeating then
    some (.obj [("status", .str "potential"),
      ("locks", textsJson members),
      ("edges", .arr (edges.map fun edge => edgeJson edge.1.1 edge.1.2 edge.2)),
      ("threads", textsJson (OrderedMap.keys (OrderedSet.addAll OrderedMap.empty
        (edges.flatMap fun edge => threadsOfEdge edge.2)))),
      ("reason", .str
        "these locks are acquired in a cyclic order by code that may run concurrently"),
      ("provenance", .str "syntax"),
      ("next_analysis", .str "alias_and_happens_before")])
  else none

/-- Two read locks never block each other, unless a writer may wait between them. -/
def readersOnly (members : List String) (edges : List ((String × String) × EdgeSites))
    (writers : OrderedSet String) : Bool :=
  (edges.all fun edge => !edge.2.exclusive) &&
    !members.any fun lock => OrderedMap.contains writers lock

structure LockReport where
  order : List Json
  doubleLock : List Json
  deadlocks : List Json

section Components

-- The strong components of a graph are computed elsewhere.
variable (kosarajuScc : DiGraph String → List (List Nat))

/-- The members of a component and the components are sorted. -/
def components (adjacent : OrderedMap String (OrderedSet String)) : List (List String) :=
  let directed := directedGraph (arcsOf adjacent)
  StableSort.sortByKey id ((kosarajuScc directed).map fun members =>
    StableSort.sortByKey id (members.filterMap fun node => directed.nodes[node]?))

/-- The component of a lock is the last one that lists it. -/
def componentOf (cycles : List (List String)) : OrderedMap String Nat :=
  cycles.zipIdx.foldl
    (fun known cycle => cycle.1.foldl (fun known name => known.insert name cycle.2) known)
    OrderedMap.empty

/-- An edge is inside a component that has both of its ends. -/
def insideOf (graph : LockGraph) (cycles : List (List String)) (position : Nat) :
    List ((String × String) × EdgeSites) :=
  (pairsOf graph).filter fun edge =>
    (componentOf cycles).lookup edge.1.1 == some position &&
      (componentOf cycles).lookup edge.1.2 == some position

/-- Without a second thread, no order can deadlock against another. -/
def lockReport (graph : LockGraph) (repeating : Finset String) (threadsDetected : Bool) :
    LockReport :=
  let cycles := (components kosarajuScc (adjacency graph)).filter fun members =>
    decide (1 < members.length)
  { order := (pairsOf graph).map fun edge => edgeJson edge.1.1 edge.1.2 edge.2
    doubleLock := ((pairsOf graph).filter fun edge => edge.1.1 == edge.1.2).map fun edge =>
      doubleLockJson edge.1.1 edge.2
    deadlocks := if threadsDetected then
        cycles.zipIdx.flatMap fun cycle =>
          if readersOnly cycle.1 (insideOf graph cycles cycle.2) graph.writers then []
          else (cycleJson cycle.1 (insideOf graph cycles cycle.2) repeating).toList
      else [] }

end Components

end FramaCMcp.Concurrency
