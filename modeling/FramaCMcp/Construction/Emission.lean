/-
This file gathers the facts of all files, walks over their lines and emits the events of each line,
and computes the lock summaries and the entry locksets of a program by repeated walks.
-/

import FramaCMcp.Construction.Actions
import FramaCMcp.Construction.LockReport

namespace FramaCMcp.Concurrency

/-- A parameter without a name is the empty text. -/
structure Function where
  name : String
  params : List String
  deriving DecidableEq, Repr

/-- Each line belongs to a function of the file or to none. -/
structure FileScan where
  path : String
  lines : List Line
  functions : List Function
  owner : List (Option (Fin functions.length))
  sameLength : owner.length = lines.length
  globals : OrderedSet String
  atomics : OrderedSet String

namespace FileScan

def ownerOf (file : FileScan) (index : Nat) : Option (Fin file.functions.length) :=
  (file.owner[index]?).join

def functionOf (file : FileScan) (index : Nat) : Option String :=
  (file.ownerOf index).map fun place => (file.functions.get place).name

def lineOf (file : FileScan) (index : Nat) : Line := file.lines.getD index []

end FileScan

/-- These are the facts of all files that the walks read. The entries start threads, and the
indirect functions are named other than by a call. -/
structure Program where
  entries : OrderedSet String
  defined : OrderedSet String
  globals : OrderedSet String
  atomics : OrderedSet String
  params : OrderedMap String (List String)
  indirect : OrderedSet String
  lockCalls : Nat

def paramsOf (program : Program) (function : String) : List String :=
  (program.params.lookup function).getD []

/-- A lock is named, is a parameter, is reached through a parameter or is not known. -/
inductive LockRef where
  | name (name : String)
  | param (place : Nat)
  | opaque_
  | unknown
  deriving DecidableEq, Repr

/-- A call acquires a must-set of locks and releases a may-set of them. -/
structure Summary where
  acquired : List (LockRef × Bool)
  released : List LockRef
  deriving DecidableEq, Repr

def Summary.empty : Summary := { acquired := [], released := [] }

/-- The entries are the locks held at every call of a function. -/
structure Interproc where
  summaries : OrderedMap String Summary
  entries : OrderedMap String (List Held)
  deriving DecidableEq

/-- This is what one walk saw at the returns, the releases and the calls. -/
structure Facts where
  returns : OrderedMap String (List Held)
  released : OrderedMap String (OrderedSet String)
  releasesUnknown : OrderedSet String
  sites : OrderedMap String (List Held)
  unresolvedArguments : Nat

def Facts.empty : Facts where
  returns := OrderedMap.empty
  released := OrderedMap.empty
  releasesUnknown := OrderedMap.empty
  sites := OrderedMap.empty
  unresolvedArguments := 0

/-- One path is folded into the intersection of a function. -/
def meet (slot : OrderedMap String (List Held)) (key : String) (path : List Held) :
    OrderedMap String (List Held) :=
  match slot.lookup key with
  | some sofar => slot.insert key (intersect sofar path)
  | none => slot.insert key path

def Facts.release (facts : Facts) (function lock : String) : Facts :=
  { facts with released := facts.released.modify function OrderedMap.empty fun set => set.add lock }

/-- The events up to the limit are kept, and all of them are counted. -/
structure Sink where
  events : List Event
  total : Nat
  limit : Nat

def Sink.push (sink : Sink) (event : Event) : Sink :=
  { sink with
    total := sink.total + 1
    events := if sink.events.length < sink.limit then
        sink.events ++ [{ event with id := "E" ++ toString (sink.total + 1) }]
      else sink.events }

structure Context where
  program : Program
  sets : OrderedMap String (List String)
  repeating : Finset String
  includeUnshared : Bool
  interproc : Interproc

/-- A walk that gathers facts only has no sink. -/
structure Emission where
  sink : Option Sink
  graph : LockGraph
  unreleased : List Json
  facts : Facts

/-- The state of the walk and of what it emits. -/
structure Pass where
  walk : Walk
  out : Emission

/-- Only a thread entry is reported for the locks that it still holds. -/
def reportUnreleased (ctx : Context) (function : Option String) (held : Option (List Held))
    (site : Site) (unreleased : List Json) : List Json :=
  match function, held with
  | some entry, some held =>
      if held = [] || !OrderedMap.contains ctx.program.entries entry then unreleased
      else unreleased ++ [.obj [("status", .str "potential"),
        ("entry", .str entry),
        ("locks", .arr (held.map fun lock => .str lock.name)),
        ("source", .obj [("file", .str site.file), ("line", .num site.line)]),
        ("reason", .str
          "the thread entry's closing brace is reached with these locks lexically held"),
        ("provenance", .str "syntax")]]
  | _, _ => unreleased

/-- Two acquisitions record no edge from the locks held at the entry: of an own parameter and of a
lock that the function returns holding. -/
def lockAction (ctx : Context) (function : String) (entry : LockApi) (lock : String) (site : Site)
    (pass : Pass) : Pass :=
  let ownParam := (paramsOf ctx.program function).contains lock
  let wrapped := (ctx.interproc.summaries.lookup function).any fun summary =>
    summary.acquired.any fun named => named.1 == .name lock
  let inherited := if ownParam || wrapped then
      ((ctx.interproc.entries.lookup function).getD []).map Held.name
    else []
  let (held, graph, unheld) :=
    applyLock entry lock pass.walk.top.held inherited site pass.out.graph
  { walk := pass.walk.setHeld held
    out := { pass.out with
      graph
      facts := if unheld then pass.out.facts.release function lock else pass.out.facts } }

def argumentLock (line : Line) (call : CallAt) (place : Nat) (locals : Finset String) :
    Option String :=
  ((Line.splitTopLevel (Line.slice line (call.opening + 1) call.closing))[place]?).bind fun arg =>
    let name := lockExpression arg
    if isIdentifier name.toList ∧ name ∉ locals then some name else none

def resolveLock (line : Line) (call : CallAt) (locals : Finset String) : LockRef → Option String
  | .name name => some name
  | .param place => argumentLock line call place locals
  | .opaque_ => none
  | .unknown => none

/-- A release without a name drops every lock. It is counted unless it was counted before. -/
def applyReleased (caller : String) (line : Line) (call : CallAt) (pass : Pass)
    (named : LockRef) : Pass :=
  match resolveLock line call pass.walk.locals named with
  | some name =>
      let (held, found) := release pass.walk.top.held name
      { walk := pass.walk.setHeld held
        out := if found then pass.out
          else { pass.out with facts := pass.out.facts.release caller name } }
  | none =>
      { walk := pass.walk.setHeld []
        out := { pass.out with
          facts := { pass.out.facts with
            releasesUnknown := pass.out.facts.releasesUnknown.add caller
            unresolvedArguments := pass.out.facts.unresolvedArguments +
              if named = .unknown then 0 else 1 } } }

def applyAcquired (line : Line) (call : CallAt) (site : Site) (pass : Pass)
    (named : LockRef × Bool) : Pass :=
  match resolveLock line call pass.walk.locals named.1 with
  | none =>
      { pass with out := { pass.out with
          facts := { pass.out.facts with
            unresolvedArguments := pass.out.facts.unresolvedArguments + 1 } } }
  | some name =>
      { walk := pass.walk.setHeld (pass.walk.top.held ++ [⟨name, named.2⟩])
        out := { pass.out with
          graph := recordHeld (pass.out.graph.take name named.2) pass.walk.top.held name
            (fun outer => outer.shared && named.2) site } }

/-- A call records the locks of the caller for the callee and applies the summary of the callee. -/
def callSite (ctx : Context) (caller : String) (call : CallAt) (line : Line) (site : Site)
    (pass : Pass) : Pass :=
  let params := paramsOf ctx.program caller
  let carried := pass.walk.top.held.filter fun lock => !params.contains lock.name
  let met := { pass with out := { pass.out with
      facts := { pass.out.facts with sites := meet pass.out.facts.sites call.name carried } } }
  match ctx.interproc.summaries.lookup call.name with
  | none => met
  | some summary =>
      summary.acquired.foldl (applyAcquired line call site)
        (summary.released.foldl (applyReleased caller line call) met)

/-- The name of the function in its own header is no call. -/
def namesItsOwnDefinition (file : FileScan) (index : Nat) (line : Line) (name : String)
    (start : Nat) : Bool :=
  match file.ownerOf index with
  | none => false
  | some owner =>
      (index == 0 || file.ownerOf (index - 1) != some owner) &&
        !(line.take start).contains '\x7b' && name == (file.functions.get owner).name

def zoneOf (ctx : Context) (function : String) (locals : Finset String) : Zones := fun name =>
  if OrderedMap.contains ctx.program.globals name then
    some (name, OrderedMap.contains ctx.program.atomics name)
  else if ctx.includeUnshared ∧ name ∈ locals then some (function ++ "::" ++ name, false)
  else none

/-- The sites of one line have its number and the threads of its function. -/
def lineSite (file : FileScan) (ctx : Context) (index : Nat) : Site where
  file := file.path
  line := index + 1
  threads := ((file.functionOf index).map (threadsOf ctx.sets)).getD []

/-- An event carries the locks that are held when it happens. -/
def emitEvent (file : FileScan) (ctx : Context) (index : Nat) (kind : EventKind)
    (zone lockMode : Option String) (pass : Pass) : Pass :=
  match pass.out.sink, file.functionOf index with
  | some sink, some function =>
      let threads := (lineSite file ctx index).threads
      let locks := pass.walk.lockset (Text.startsWith function atomicFunctionPrefix)
      { pass with out := { pass.out with
          sink := some (sink.push
            { id := "", threads, mayRepeat := repeats ctx.repeating threads, kind
              file := file.path, line := index + 1, function, zone, lockset := locks.1
              readLocks := locks.2, lockMode }) } }
  | _, _ => pass

/-- A function body starts with what every caller holds. -/
def emitOpen (file : FileScan) (ctx : Context) (index offset : Nat) (pass : Pass) : Pass :=
  let opened := pass.walk.openBlock ((file.lineOf index).take offset)
  let entry := if opened.depth = 2 then
      (file.functionOf index).bind ctx.interproc.entries.lookup
    else none
  { pass with walk := opened.setHeld (opened.top.held ++ entry.getD []) }

/-- The closing brace of a function is one of its returns. -/
def emitClose (file : FileScan) (ctx : Context) (index offset : Nat) (pass : Pass) : Pass :=
  let closed := pass.walk.closeBlock ((file.lineOf index).take offset)
  let function := if closed.1.depth = 1 then file.functionOf index else none
  { walk := closed.1
    out := { pass.out with
      facts := match function, closed.2 with
        | some name, some path =>
            { pass.out.facts with returns := meet pass.out.facts.returns name path }
        | _, _ => pass.out.facts
      unreleased := reportUnreleased ctx function closed.2 (lineSite file ctx index)
        pass.out.unreleased } }

def emitAction (file : FileScan) (ctx : Context) (index : Nat) (pass : Pass)
    (action : Nat × Action) : Pass :=
  let line := file.lineOf index
  let named := (file.functionOf index).getD ""
  match action.2 with
  | .openBlock => emitOpen file ctx index action.1 pass
  | .closeBlock => emitClose file ctx index action.1 pass
  | .returns =>
      { pass with out := { pass.out with
          facts := { pass.out.facts with
            returns := meet pass.out.facts.returns named pass.walk.top.held } } }
  | .call call =>
      if (file.functionOf index).isSome &&
          !namesItsOwnDefinition file index line call.name call.start then
        callSite ctx named call line (lineSite file ctx index) pass
      else pass
  | .lock entry lock =>
      emitEvent file ctx index (lockKind entry.op) (some lock) (some entry.mode.text)
        (lockAction ctx named entry lock (lineSite file ctx index) pass)
  | .create entry => emitEvent file ctx index .threadCreate (some entry) none pass
  | .join => emitEvent file ctx index .threadJoin none none pass
  | .access kind zone => emitEvent file ctx index kind (some zone) none pass

/-- The paths that jumped are merged before the actions of a label. -/
def emitLine (file : FileScan) (ctx : Context) (index : Nat) (pass : Pass) : Option Pass :=
  let line := file.lineOf index
  let named := (file.functionOf index).getD ""
  (actionsOnLine line (zoneOf ctx named pass.walk.locals) ctx.program.defined).map fun actions =>
    let landed := if (file.functionOf index).isSome && isLabel line then
        { pass with walk := pass.walk.land }
      else pass
    actions.foldl (emitAction file ctx index) landed

/-- The loop over the lines carries whether the last line was the head of a branch. -/
structure LineState where
  pass : Pass
  pendingBranch : Bool

/-- The locals of a line are known before its actions. -/
def declareLocals (file : FileScan) (ctx : Context) (index : Nat) (line : Line) (walk : Walk) :
    Walk :=
  if (file.ownerOf index).isSome then
    { walk with locals := walk.locals ∪ ((declarators line).filter fun name =>
        !OrderedMap.contains ctx.program.globals name).toFinset }
  else walk

/-- A line that ends at file scope forgets the locals and the jumps of its function. -/
def endLine (line : Line) (pending : Bool) (walk : Walk) : Walk :=
  let noted := if line = [] then walk
    else { walk with previous := line, previousConditional := pending }
  if noted.depth = 1 then { noted with locals := ∅, gotos := [] } else noted

/-- The body of a branch without a brace is one statement of its own. -/
def emitStep (file : FileScan) (ctx : Context) (index : Nat) (state : LineState) :
    Option LineState :=
  let line := Line.trim (file.lineOf index)
  let walk := declareLocals file ctx index line state.pass.walk
  let branch := branchOn line
  let wrapped := (state.pendingBranch || branch == .sameLine) &&
    line.count '\x7b' == line.count '\x7d'
  let entered := { state.pass with walk := if wrapped then walk.enter .plain else walk }
  (emitLine file ctx index entered).map fun emitted =>
    let left := if wrapped then (emitted.walk.leave .fallThrough).1 else emitted.walk
    { pass := { emitted with walk := endLine line state.pendingBranch left }
      pendingBranch := branch == .nextLine }

/-- The deadline is checked before each line. A line that is never finished ends the walk, as the
deadline does. -/
def emitLines (deadline : Deadline) (file : FileScan) (ctx : Context) :
    List Nat → LineState → Nat → Option Emission × Nat
  | [], state, checks => (some state.pass.out, checks)
  | index :: rest, state, checks =>
      if deadline.passed checks then (none, checks + 1)
      else
        match emitStep file ctx index state with
        | none => (none, checks + 1)
        | some next => emitLines deadline file ctx rest next (checks + 1)

def emitFile (deadline : Deadline) (file : FileScan) (ctx : Context) (out : Emission)
    (checks : Nat) : Option Emission × Nat :=
  emitLines deadline file ctx (List.range file.lines.length)
    { pass := { walk := .new, out }, pendingBranch := false } checks

end FramaCMcp.Concurrency

namespace FramaCMcp.Concurrency

def Program.empty : Program where
  entries := OrderedMap.empty
  defined := OrderedMap.empty
  globals := OrderedMap.empty
  atomics := OrderedMap.empty
  params := OrderedMap.empty
  indirect := OrderedMap.empty
  lockCalls := 0

def declareFile (program : Program) (file : FileScan) : Program :=
  { program with
    globals := program.globals.addAll file.globals.keys
    atomics := program.atomics.addAll file.atomics.keys
    defined := program.defined.addAll (file.functions.map Function.name)
    params := file.functions.foldl (fun params function => params.insert function.name function.params)
      program.params }

/-- A call counts where it is in the lock table, and a spawn names the entry of its thread. -/
def surveyCall (program : Program) (call : Call) : Program :=
  { program with
    lockCalls := program.lockCalls + if (lockApi call.name).isSome then 1 else 0
    entries :=
      if call.name = "pthread_create" then
        program.entries.addAll (call.args[2]?.bind entryFunction).toList
      else program.entries }

/-- A defined function that is named and not called is indirect. -/
def surveyLine (program : Program) (line : Line) : Program :=
  let tokens := identifiers line
  let found := callsAmong line tokens
  let named := tokens.filter fun token =>
    !(found.map Call.start).contains token.start &&
      OrderedMap.contains program.defined token.name
  found.foldl surveyCall
    { program with indirect := program.indirect.addAll (named.map Token.name) }

/-- The definitions of all files are known before the first line. -/
def survey (files : List FileScan) : Program :=
  (files.flatMap FileScan.lines).foldl surveyLine (files.foldl declareFile .empty)

def lockSummaryRounds : Nat := 16

/-- A lock of a function is one of its parameters, is reached through one or has its own name. -/
def lockRef (name : String) (params : List String) : LockRef :=
  match params.findIdx? fun param => param != "" && param == name with
  | some place => .param place
  | none =>
      match identifiers name.toList with
      | [] => .name name
      | lead :: _ => if lead.name ≠ "" ∧ lead.name ∈ params then .opaque_ else .name name

/-- An opaque lock is kept once for each lock that it stands for. -/
def addAcquired (params : List String) (acquired : List (LockRef × Bool)) (held : Held) :
    List (LockRef × Bool) :=
  let named := lockRef held.name params
  let fresh := named = .opaque_ ∨ ∀ other ∈ acquired, other.1 ≠ named
  if held.name ≠ "<unknown>" ∧ fresh then acquired ++ [(named, held.shared)] else acquired

def addReleased (params : List String) (released : List LockRef) (name : String) : List LockRef :=
  let named := lockRef name params
  if named = .opaque_ ∨ named ∉ released then released ++ [named] else released

def summaryFrom (facts : Facts) (program : Program) (function : String) : Summary :=
  let params := paramsOf program function
  let released := (((facts.released.lookup function).map OrderedMap.keys).getD []).foldl
    (addReleased params) []
  { acquired := ((facts.returns.lookup function).getD []).foldl (addAcquired params) []
    released := if OrderedMap.contains facts.releasesUnknown function ∧ .unknown ∉ released then
        released ++ [.unknown]
      else released }

/-- A function without an effect has no summary. -/
def insertSummary (found : OrderedMap String Summary) (function : String) (summary : Summary) :
    OrderedMap String Summary :=
  if summary = .empty then found else found.insert function summary

/-- The walk ran with no lock held at any entry, so a lock held at a return was taken by the
function. -/
def summariesFrom (facts : Facts) (program : Program) : OrderedMap String Summary :=
  (OrderedMap.keys program.defined).foldl
    (fun found function => insertSummary found function (summaryFrom facts program function))
    OrderedMap.empty

/-- A thread entry, `main` and an indirect function start with nothing. -/
def entriesFrom (facts : Facts) (program : Program) : OrderedMap String (List Held) :=
  facts.sites.filter fun callee held =>
    !held.isEmpty && callee != "main" && !OrderedMap.contains program.entries callee &&
      !OrderedMap.contains program.indirect callee

/-- One walk over every file keeps the facts only. -/
def walkFiles (deadline : Deadline) (ctx : Context) :
    List FileScan → Emission → Nat → Option Emission × Nat
  | [], out, checks => (some out, checks)
  | file :: rest, out, checks =>
      match emitFile deadline file ctx out checks with
      | (none, count) => (none, count)
      | (some next, count) => walkFiles deadline ctx rest next count

def walkForFacts (deadline : Deadline) (scans : List FileScan) (ctx : Context) (checks : Nat) :
    Option Facts × Nat :=
  let (out, count) := walkFiles deadline ctx scans
    { sink := none, graph := .empty 0, unreleased := [], facts := .empty } checks
  (out.map Emission.facts, count)

/-- An acquisition survives only if the previous round had it, and a release once seen stays. -/
def widenSummary (before after : Summary) : Summary where
  acquired := after.acquired.filter fun held => before.acquired.contains held
  released := after.released.foldl
    (fun released named => if named ∈ released then released else released ++ [named])
    before.released

def summaryOf (summaries : OrderedMap String Summary) (name : String) : Summary :=
  (summaries.lookup name).getD .empty

def widen (previous next : OrderedMap String Summary) : OrderedMap String Summary :=
  (previous.keys ++ next.keys).foldl
    (fun widened name =>
      insertSummary widened name (widenSummary (summaryOf previous name) (summaryOf next name)))
    OrderedMap.empty

section Rounds

variable (deadline : Deadline) (scans : List FileScan) (base : Context)

/-- A walk for the facts includes no unshared variables. -/
def factsContext (interproc : Interproc) : Context :=
  { base with includeUnshared := false, interproc }

def summaryRound (summaries : OrderedMap String Summary) (checks : Nat) :
    Option (OrderedMap String Summary) × Nat :=
  let (facts, count) := walkForFacts deadline scans
    (factsContext base { summaries, entries := OrderedMap.empty }) checks
  (facts.map fun facts => summariesFrom facts base.program, count)

/-- The second half of the rounds is widened. The flag tells whether the summaries settled. -/
def summaryRounds : Nat → OrderedMap String Summary → Nat →
    Option (OrderedMap String Summary × Bool) × Nat
  | 0, summaries, checks => (some (summaries, false), checks)
  | left + 1, summaries, checks =>
      match summaryRound deadline scans base summaries checks with
      | (none, count) => (none, count)
      | (some plain, count) =>
          let next := if left + 1 ≤ lockSummaryRounds / 2 then widen summaries plain else plain
          if next = summaries then (some (summaries, true), count)
          else summaryRounds left next count

/-- Every function acquires nothing and releases anything. -/
def unknownSummaries (program : Program) : OrderedMap String Summary :=
  (OrderedMap.keys program.defined).foldl
    (fun found function => found.insert function { acquired := [], released := [.unknown] })
    OrderedMap.empty

def entryRound (interproc : Interproc) (checks : Nat) :
    Option (OrderedMap String (List Held)) × Nat :=
  let (facts, count) := walkForFacts deadline scans (factsContext base interproc) checks
  (facts.map fun facts => entriesFrom facts base.program, count)

def entryRounds : Nat → Interproc → Nat → Option Interproc × Nat
  | 0, interproc, checks => (some interproc, checks)
  | left + 1, interproc, checks =>
      match entryRound deadline scans base interproc checks with
      | (none, count) => (none, count)
      | (some next, count) =>
          if next = interproc.entries then (some interproc, count)
          else entryRounds left { interproc with entries := next } count

/-- The summaries come first and then the entry locksets. A program without a lock call needs no
walk. -/
def interprocedural (checks : Nat) : Option (Interproc × Bool) × Nat :=
  if base.program.lockCalls = 0 then
    (some ({ summaries := OrderedMap.empty, entries := OrderedMap.empty }, true), checks)
  else
    match summaryRounds deadline scans base lockSummaryRounds OrderedMap.empty checks with
    | (none, count) => (none, count)
    | (some (settled, converged), count) =>
        let summaries := if converged then settled else unknownSummaries base.program
        match entryRounds deadline scans base lockSummaryRounds
            { summaries, entries := OrderedMap.empty } count with
        | (none, final) => (none, final)
        | (some interproc, final) => (some (interproc, converged), final)

end Rounds

end FramaCMcp.Concurrency
