import Mathlib.Data.Finset.Basic
import Mathlib.Data.Finset.Filter
import Mathlib.Logic.Function.Basic
import Evok.Library.Run

/-!
# The lock of a bus with the sessions of its units

`SessionLock` of `modbus/transport.py` with the tasks that use it. Every function below is
one step of the loop: what runs between two awaits. A step is labelled by the request it
granted the bus, if any, so that a run is the list of its events and grants.

The future of a waiter is known by its task, a task waits in one `acquire()` at a time. The
scheduled callbacks are only counted and a task whose future is done may run at any time:
the FIFO order of the loop gives some of these runs, the theorems hold for all of them.

## Main definitions

* `SessionLock.acquire`, `release`, `wake`, `beginSession`, `endSession` : the methods.
* `SessionLock.leave` : the `finally` block of `acquire()`.
* `SessionLock.resume`, `cancel` : a waiting task runs again, or is cancelled.
* `SessionLock.Step` : the labelled transitions of a bus.
-/

namespace Evok.Bus

/-- An entry of `_waiters`: the task which awaits the future, the unit id of its request and
whether it runs in the session of the unit. -/
structure Waiter where
  task : Nat
  unit : Option Nat
  inSession : Bool
  deriving DecidableEq, Repr

/-- The future of a waiting task. -/
inductive Future where
  | pending
  | cancelled
  /-- `set_result(True)`: the lock was handed to the task. -/
  | handed
  /-- The task was cancelled after the lock was handed to it, it did not run yet. -/
  | handedCancelled
  deriving DecidableEq, Repr

/-- A task as the lock sees it. -/
inductive TaskState where
  | outside
  | waiting (future : Future)
  | holding
  deriving DecidableEq, Repr

structure SessionLock where
  locked : Bool := false
  waiters : List Waiter := []
  /-- The running and waiting sessions of a unit. -/
  sessions : Nat → Nat := fun _ => 0
  /-- The units whose other request goes first after their session. -/
  turns : Finset Nat := ∅
  /-- An other request of another unit goes first after a session. -/
  otherTurn : Bool := false
  tasks : Nat → TaskState := fun _ => .outside
  /-- The scheduled `_wake` callbacks. -/
  wakes : Nat := 0

namespace SessionLock

def setTask (s : SessionLock) (t : Nat) (state : TaskState) : SessionLock :=
  { s with tasks := Function.update s.tasks t state }

/-- `_pending`: the waiters whose future is not done. -/
def pending (s : SessionLock) : List Waiter :=
  s.waiters.filter (fun w => s.tasks w.task = .waiting .pending)

/-- The units of the pending requests outside the sessions. -/
def others (s : SessionLock) : List (Option Nat) :=
  (s.pending.filter (!·.inSession)).map (·.unit)

def hasSession (s : SessionLock) (unit : Option Nat) : Bool :=
  unit.any (fun u => 0 < s.sessions u)

def hasTurn (s : SessionLock) (unit : Option Nat) : Bool :=
  unit.any (fun u => u ∈ s.turns)

def blocked (s : SessionLock) (unit : Option Nat) (inSession : Bool) : Bool :=
  !inSession && s.hasSession unit && !s.hasTurn unit

def scheduleWake (s : SessionLock) : SessionLock :=
  if s.pending.isEmpty then s else { s with wakes := s.wakes + 1 }

/-- `_prune_turns`: drop the turns of the cancelled requests. -/
def pruneTurns (s : SessionLock) : SessionLock :=
  { s with
    turns := s.turns.filter (fun u => some u ∈ s.others)
    otherTurn := s.otherTurn && !s.others.isEmpty }

/-- The waiter the lock is handed to, a chain of `next(...) or next(...)` of `_wake`. -/
def choose (s : SessionLock) : Option Waiter :=
  let waiting := s.pending
  waiting.find? (fun w => !w.inSession && s.hasTurn w.unit) <|>
  (if s.otherTurn then waiting.find? (fun w => !s.blocked w.unit w.inSession) else none) <|>
  waiting.find? (·.inSession) <|>
  waiting.find? (fun w => !s.blocked w.unit w.inSession)

/-- A granted other request uses up its turn. -/
def useTurn (s : SessionLock) (w : Waiter) : SessionLock :=
  if w.inSession then s
  else if s.hasTurn w.unit then { s with turns := s.turns.filter (some · ≠ w.unit) }
  else { s with otherTurn := false }

/-- Remove the waiter and set the result of its future. -/
def handOver (s : SessionLock) (w : Waiter) : SessionLock :=
  { (s.useTurn w) with
    waiters := s.waiters.erase w
    locked := true
    tasks := Function.update s.tasks w.task (.waiting .handed) }

/-- `_wake`. -/
def wake (s : SessionLock) : SessionLock × Option Waiter :=
  if s.locked || s.pending.isEmpty then (s, none)
  else match s.choose with
    | none => (s, none)
    | some w => (s.handOver w, some w)

/-- `release`, `none` is the RuntimeError of a lock which is not acquired. -/
def release (s : SessionLock) : Option SessionLock :=
  if s.locked then some { s with locked := false }.scheduleWake else none

/-- Append the waiter with a new future. -/
def enqueue (s : SessionLock) (w : Waiter) : SessionLock :=
  { s with waiters := s.waiters ++ [w] }.setTask w.task (.waiting .pending)

/-- The `finally` block of `acquire()`. -/
def leave (s : SessionLock) (t : Nat) : SessionLock :=
  { s with waiters := s.waiters.filter (·.task ≠ t) }.pruneTurns

/-- The waiter of a task: `unit` is `_REQUEST_UNIT` and `session` is `_SESSION_UNIT` of its
context, which a task created in a session inherits. -/
def request (s : SessionLock) (t : Nat) (unit session : Option Nat) : Waiter :=
  ⟨t, unit, unit.isSome && session == unit && s.hasSession unit⟩

/-- `acquire()` up to its await, which does not suspend the task if its future is done. -/
def acquire (s : SessionLock) (t : Nat) (unit session : Option Nat) :
    SessionLock × Option Waiter :=
  let waiter := s.request t unit session
  if !s.locked && s.pending.isEmpty && !s.blocked unit waiter.inSession then
    ({ s with locked := true }.setTask t .holding, some waiter)
  else
    let queued := s.enqueue waiter
    let (s, grant) := if s.locked then (queued, none) else queued.wake
    if s.tasks t = .waiting .handed then ((s.leave t).setTask t .holding, grant) else (s, grant)

/-- The task runs after its future is done: it holds the lock, or `CancelledError` is raised;
the lock handed to a cancelled task goes on to the next waiter. -/
def resume (s : SessionLock) (t : Nat) : Option SessionLock :=
  match s.tasks t with
  | .waiting .handed => some ((s.leave t).setTask t .holding)
  | .waiting .cancelled => some ((s.leave t).setTask t .outside)
  | .waiting .handedCancelled => s.release.map fun s => (s.leave t).setTask t .outside
  | _ => none

/-- `cancel()` of a waiting task: its future is cancelled, or the error waits for the task
whose future is done. -/
def cancel (s : SessionLock) (t : Nat) : Option SessionLock :=
  match s.tasks t with
  | .waiting .pending => some (s.setTask t (.waiting .cancelled))
  | .waiting .handed => some (s.setTask t (.waiting .handedCancelled))
  | .waiting _ => some s
  | _ => none

def beginSession (s : SessionLock) (u : Nat) : SessionLock :=
  { s with sessions := Function.update s.sessions u (s.sessions u + 1) }

/-- The `finally` block of `session()`. -/
def endSession (s : SessionLock) (u : Nat) : SessionLock :=
  { s with
    sessions := Function.update s.sessions u (s.sessions u - 1)
    turns := if some u ∈ s.others then insert u s.turns else s.turns
    otherTurn := s.otherTurn || s.others.any (· ≠ some u) }.scheduleWake

/-- A scheduled callback runs. -/
def runWake (s : SessionLock) : SessionLock × Option Waiter :=
  { s with wakes := s.wakes - 1 }.wake

/-- What happens on a bus, by any number of tasks. -/
inductive Event where
  | acquire (t : Nat) (unit session : Option Nat)
  | resume (t : Nat)
  | cancel (t : Nat)
  | release (t : Nat)
  | beginSession (u : Nat)
  | endSession (u : Nat)
  | wake
  deriving DecidableEq, Repr

/-- The steps of the loop, labelled by the event and the request it granted the bus. -/
inductive Step : SessionLock → Event × Option Waiter → SessionLock → Prop
  | acquire {s : SessionLock} {t : Nat} (unit session : Option Nat)
      (idle : s.tasks t = .outside) :
      Step s (.acquire t unit session, (s.acquire t unit session).2) (s.acquire t unit session).1
  | resume {s s' : SessionLock} {t : Nat} (done : s.resume t = some s') :
      Step s (.resume t, none) s'
  | cancel {s s' : SessionLock} {t : Nat} (waits : s.cancel t = some s') :
      Step s (.cancel t, none) s'
  | release {s s' : SessionLock} {t : Nat} (holds : s.tasks t = .holding)
      (released : s.release = some s') : Step s (.release t, none) (s'.setTask t .outside)
  | beginSession {s : SessionLock} (u : Nat) : Step s (.beginSession u, none) (s.beginSession u)
  | endSession {s : SessionLock} {u : Nat} (running : 0 < s.sessions u) :
      Step s (.endSession u, none) (s.endSession u)
  | wake {s : SessionLock} (scheduled : 0 < s.wakes) :
      Step s (.wake, s.runWake.2) s.runWake.1

/-- A new lock. -/
def init : SessionLock := {}

/-- The reachable states of a bus. -/
abbrev Reachable (s : SessionLock) : Prop := Transition.Reachable Step (· = init) s

end SessionLock

end Evok.Bus
