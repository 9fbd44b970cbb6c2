/-
This file gives the events of a concurrency scan, the tests on their kinds and threads, and the
synchronisation calls that the scan models.
-/

import FramaCMcp.Construction.Coverage

namespace FramaCMcp.Concurrency

/-- These are the kinds that the scan gives to its events. -/
inductive EventKind where
  | read
  | write
  | atomicRead
  | atomicWrite
  | atomicRmw
  | lock
  | tryLock
  | unlock
  | condWait
  | threadCreate
  | threadJoin
  deriving DecidableEq, Repr

def EventKind.text : EventKind → String
  | .read => "READ"
  | .write => "WRITE"
  | .atomicRead => "ATOMIC_READ"
  | .atomicWrite => "ATOMIC_WRITE"
  | .atomicRmw => "ATOMIC_RMW"
  | .lock => "LOCK"
  | .tryLock => "TRYLOCK"
  | .unlock => "UNLOCK"
  | .condWait => "COND_WAIT"
  | .threadCreate => "THREAD_CREATE"
  | .threadJoin => "THREAD_JOIN"

/-- This is one event of the scan. A lock of `readLocks` is held in shared mode. -/
structure Event where
  id : String
  threads : List String
  mayRepeat : Bool
  kind : EventKind
  file : String
  line : Nat
  function : String
  zone : Option String
  lockset : List String
  readLocks : List String
  lockMode : Option String
  deriving DecidableEq, Repr

def isAccess (kind : EventKind) : Bool :=
  ["READ", "WRITE", "ATOMIC_READ", "ATOMIC_WRITE", "ATOMIC_RMW"].contains kind.text

def isAtomic (kind : EventKind) : Bool := Text.startsWith kind.text "ATOMIC_"

def writes (kind : EventKind) : Bool :=
  ["WRITE", "ATOMIC_WRITE", "ATOMIC_RMW"].contains kind.text

/-- Two accesses conflict when one writes, unless both are atomic. -/
def conflicting (left right : EventKind) : Bool :=
  (writes left || writes right) && !(isAtomic left && isAtomic right)

/-- This is the thread of the code that no thread entry reaches. -/
def unattributed : String := "<unattributed>"

/-- The clock answers each check of the deadline in turn. -/
structure Deadline where
  passed : Nat → Bool

/-- Two sets of threads may run at the same time unless both are one thread that runs once. The
unattributed code is not one thread. -/
def threadsConcurrent (left right : List String) (repeating : Finset String) : Bool :=
  match left, right with
  | [], _ => false
  | _, [] => false
  | [one], [other] =>
      if one = other then decide (one ∈ repeating) || decide (one = unattributed) else true
  | _, _ => true

/-- The threads of a function that no entry reaches are unattributed. -/
def threadsOf (sets : OrderedMap String (List String)) (function : String) : List String :=
  match sets.lookup function with
  | some (first :: rest) => first :: rest
  | _ => [unattributed]

def repeats (repeating : Finset String) (threads : List String) : Bool :=
  threads.any fun thread => decide (thread ∈ repeating)

end FramaCMcp.Concurrency

namespace FramaCMcp.Concurrency

/-- An attempt may return without the lock. A wait gives the lock back and takes it again. -/
inductive LockOp where
  | acquire
  | attempt
  | release
  | wait
  deriving DecidableEq, Repr

inductive LockMode where
  | exclusive
  | shared
  deriving DecidableEq, Repr

/-- The argument names the lock. The atomic section has none. -/
structure LockApi where
  name : String
  arg : Option Nat
  op : LockOp
  mode : LockMode
  deriving DecidableEq, Repr

def api (name : String) (arg : Nat) (op : LockOp) (mode : LockMode) : LockApi where
  name
  arg := some arg
  op
  mode

def lockApis : List LockApi :=
  [api "pthread_mutex_lock" 0 .acquire .exclusive,
    api "pthread_mutex_trylock" 0 .attempt .exclusive,
    api "pthread_mutex_timedlock" 0 .attempt .exclusive,
    api "pthread_mutex_unlock" 0 .release .exclusive,
    api "pthread_spin_lock" 0 .acquire .exclusive,
    api "pthread_spin_trylock" 0 .attempt .exclusive,
    api "pthread_spin_unlock" 0 .release .exclusive,
    api "pthread_rwlock_rdlock" 0 .acquire .shared,
    api "pthread_rwlock_wrlock" 0 .acquire .exclusive,
    api "pthread_rwlock_tryrdlock" 0 .attempt .shared,
    api "pthread_rwlock_trywrlock" 0 .attempt .exclusive,
    api "pthread_rwlock_timedrdlock" 0 .attempt .shared,
    api "pthread_rwlock_timedwrlock" 0 .attempt .exclusive,
    api "pthread_rwlock_unlock" 0 .release .exclusive,
    api "sem_wait" 0 .acquire .exclusive,
    api "sem_trywait" 0 .attempt .exclusive,
    api "sem_timedwait" 0 .attempt .exclusive,
    api "sem_post" 0 .release .exclusive,
    api "pthread_cond_wait" 1 .wait .exclusive,
    api "pthread_cond_timedwait" 1 .wait .exclusive,
    { name := "__VERIFIER_atomic_begin", arg := none, op := .acquire, mode := .exclusive },
    { name := "__VERIFIER_atomic_end", arg := none, op := .release, mode := .exclusive }]

def atomicSection : String := "<atomic>"

def atomicFunctionPrefix : String := "__VERIFIER_atomic"

def lockApi (name : String) : Option LockApi := lockApis.find? fun entry => entry.name == name

def lockKind : LockOp → EventKind
  | .acquire => .lock
  | .attempt => .tryLock
  | .release => .unlock
  | .wait => .condWait

def LockMode.text : LockMode → String
  | .exclusive => "exclusive"
  | .shared => "shared"

/-- This is the kind of access of an atomic builtin to the object of its address argument. -/
def atomicAccess (name : String) : Option EventKind :=
  let family := ["__atomic_", "__sync_", "atomic_"].any (Text.startsWith name)
  if !family || ["fence", "lock_free", "synchronize"].any (Text.contains name) then none
  else if name = "atomic_init" then some .write
  else if Text.contains name "load" then some .atomicRead
  else if Text.contains name "store" || Text.contains name "clear" ||
      name == "__sync_lock_release" then some .atomicWrite
  else some .atomicRmw

/-- A failed exchange stores the value that it found in its second argument. -/
def writesExpected (name : String) : Bool :=
  Text.startsWith name "atomic_compare_exchange_" || name == "__atomic_compare_exchange" ||
    name == "__atomic_compare_exchange_n"

def readsArguments (name : String) : Bool :=
  Text.startsWith name "pthread_" || (lockApi name).isSome || (atomicAccess name).isSome

/-- The arguments of a modelled call are handles and no memory accesses. -/
def isModelled (name : String) : Bool :=
  Text.startsWith name "pthread_" || (lockApi name).isSome

end FramaCMcp.Concurrency
