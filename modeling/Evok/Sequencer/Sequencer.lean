import Mathlib.Data.List.Basic
import Mathlib.Logic.Function.Basic
import Evok.Library.Run

/-!
# The sequencer of the outputs

`Sequencer` of `blocks/sequencer.py` with the tasks of its sequences, the changes of
`set_devices()` of `modbus/base.py` and `finish_all()`. The devices are on Modbus units, a change
of a unit runs under its lock. A step of the model is what runs between two awaits, so any order of
the tasks is a run.

The delays are not modelled: a sleeping task may go on at any time. The outcome of each
`device.set()` is arbitrary. A read after a change raises nothing.

## Main definitions

* `Sequence`, `Task` : a sequence and its task with its entry of `_running`.
* `Sequencer.start`, `cancel`, `stop`, `endSequence`, `finishAll` : the methods.
* `Task.afterSet`, `Task.afterRead` : the branches of `_run`, `_apply_step` and `_apply`.
* `Sequencer.Step` : the labelled transitions.
-/

namespace Evok

/-- An error of `device.set()`: its kind is in `STEP_RETRIED`, its root cause in `STEP_REFUSED` and
in `STEP_TRANSIENT`. -/
structure SetError where
  communication : Bool
  refused : Bool
  transient : Bool
  deriving DecidableEq, Repr

/-- `_retried`: an error of the communication, not a request refused by the unit. -/
def SetError.retried (e : SetError) : Bool := e.communication && (!e.refused || e.transient)

/-- The end of a `device.set()`. -/
inductive Outcome where
  | success
  | failed (e : SetError)
  deriving DecidableEq, Repr

/-- The steps of a sequence by the params of `set()`, without their delays. `pulse()` and
`SequencerDevice._sequence` make no sequence without a step. -/
structure Sequence (P : Type*) where
  steps : List P
  final : Option P
  nonempty : steps ≠ []

/-- `pulse`: the rest of a pulse after its value has been set, the opposite value. -/
def Sequence.pulse {P : Type*} (off : P) : Sequence P := ⟨[off], some off, by simp⟩

/-- What the task of a sequence writes: its step `i`, or its final state after the error of its
step `i`. -/
inductive Work where
  | step (i : Nat)
  | final (i : Nat)
  deriving DecidableEq, Repr

/-- The params of the `set()` of a task. -/
def Sequence.params {P : Type*} (q : Sequence P) : Work → Option P
  | .step i => q.steps[i]?
  | .final _ => q.final

/-- `step_number` of a successful write, the number of the done steps after it. -/
def Work.number : Work → Nat
  | .step i => i + 1
  | .final i => i

/-- The work is the last one of its sequence. -/
def Sequence.last {P : Type*} (q : Sequence P) : Work → Bool
  | .step i => i + 1 = q.steps.length
  | .final _ => true

/-- The change of a step before its read: `set()` ended, or the sequence was removed before it. -/
inductive Result where
  | applied
  | skipped
  | failed (e : SetError)
  deriving DecidableEq, Repr

/-- Where the task of a sequence awaits. -/
inductive Phase where
  /-- The delay of a step, or the delay before it is written again. -/
  | sleeping (w : Work)
  /-- The lock of the unit. -/
  | waiting (w : Work)
  /-- `device.set()`: the task is in `_writing` and holds the lock. -/
  | writing (w : Work)
  /-- The read at the end of the change, under the lock. -/
  | reading (w : Work) (r : Result)
  | ended
  deriving DecidableEq, Repr

/-- The task is in `_writing`. -/
def Phase.isWriting : Phase → Bool
  | .writing _ => true
  | _ => false

/-- A task of a sequence with its `Running` entry. -/
structure Task (D P : Type*) where
  device : D
  sequence : Sequence P
  /-- The number of the done steps. -/
  step : Nat := 0
  /-- The last step was written, the sequence ended by it. -/
  finished : Bool := false
  phase : Phase := .sleeping (.step 0)
  /-- `task.cancel()` was called, the task runs next with `CancelledError`. -/
  cancelled : Bool := false
  /-- History: `start()`, `cancel()` or `finish_all()` took the sequence out of `_running`. -/
  removed : Bool := false

namespace Task

variable {D P : Type*}

/-- `_stop`: a task writing its step is not cancelled. -/
def stop (t : Task D P) : Task D P :=
  match t.phase with
  | .writing _ => { t with removed := true }
  | _ => { t with cancelled := true, removed := true }

/-- `_apply` after `device.set()`: after a success the step is done. -/
def afterSet (t : Task D P) (w : Work) : Outcome → Task D P
  | .failed e => { t with phase := .reading w (.failed e) }
  | .success =>
    { t with
      step := w.number
      finished := t.finished || t.sequence.last w
      phase := .reading w .applied }

/-- `_run` and `_apply_step` after the change of a step. -/
def afterRead [DecidableEq P] (t : Task D P) (current : Bool) (w : Work) (r : Result) : Task D P :=
  let go (p : Phase) : Task D P := { t with phase := p }
  match w, r with
  | _, .skipped => go .ended
  | .final _, .applied => go .ended
  | .step i, .applied =>
    -- the loop of `_run`: the next step, if the sequence was not removed meanwhile
    if t.sequence.last w then go .ended
    else if current then go (.sleeping (.step (i + 1))) else go .ended
  | w, .failed e =>
    if e.retried then
      if current then go (.sleeping w) else go .ended
    else match w with
      | .final _ => go .ended
      | .step i =>
        if t.sequence.final.isSome && t.sequence.final ≠ t.sequence.steps[i]? && current then
          go (.waiting (.final i))
        else go .ended

end Task

/-- An assignment of `set_devices()`. -/
structure Item (D P : Type*) where
  device : D
  /-- No param other than alias. -/
  aliasOnly : Bool
  /-- The sequence of the device in `sequences`. -/
  sequence : Option (Sequence P)

/-- Where a change of `set_devices()` is. -/
inductive CallPhase where
  | waiting
  /-- The availability of the unit is checked, under its lock. -/
  | checking
  /-- The assignment `i` is reached, no await before its check. -/
  | reached (i : Nat)
  /-- `device.set()` of the assignment `i`. -/
  | setting (i : Nat)
  | reading
  | ended
  deriving DecidableEq, Repr

/-- The assignments of a unit in a `set_devices()`, one `Client.change()`. -/
structure Call (D U P : Type*) where
  unit : U
  items : List (Item D P)
  phase : CallPhase := .waiting

/-- `_finish` of a device, for the sequence of a task. -/
inductive FinalPhase where
  | none
  | waiting (k : Nat)
  | writing (k : Nat)
  | reading (k : Nat)
  | ended (k : Nat)
  deriving DecidableEq, Repr

/-- Where `finish_all()` is. -/
inductive FinishPhase (D : Type*) where
  | idle
  /-- It awaits the tasks of `_writing` at the call; the candidates have a final state. -/
  | awaiting (candidates : D → Option Nat) (writing : List Nat)
  /-- It awaits the final writes. -/
  | finals
  | returned

/-- Who holds the lock of a unit. -/
inductive Holder (D : Type*) where
  | task (k : Nat)
  | call (j : Nat)
  | final (d : D)

/-- Who calls `device.set()`. -/
inductive Writer where
  | task (k : Nat) (w : Work)
  /-- The assignment `i` of a change. -/
  | call (j i : Nat)
  /-- The assignment `i` of a change, its device is in `sequences`. -/
  | pulse (j i : Nat)
  /-- `_finish` of the sequence of a task. -/
  | final (k : Nat)
  deriving DecidableEq, Repr

/-- Who sets the assignment `i` of the change `j`. -/
def Item.writer {D P : Type*} (x : Item D P) (j i : Nat) : Writer :=
  if x.sequence.isSome then .pulse j i else .call j i

/-- An ended `device.set()`. -/
structure Write (D : Type*) where
  writer : Writer
  device : D
  outcome : Outcome

/-- The sequencer with the tasks and changes started so far, known by their number. -/
structure Sequencer (D U P : Type*) where
  running : D → Option Nat := fun _ => none
  tasks : List (Task D P) := []
  calls : List (Call D U P) := []
  finals : D → FinalPhase := fun _ => .none
  finish : FinishPhase D := .idle
  lock : U → Option (Holder D) := fun _ => none
  /-- History: the ended `device.set()`, the newest last. -/
  log : List (Write D) := []

namespace Sequencer

variable {D U P : Type*} [DecidableEq D] [DecidableEq U] [DecidableEq P]

@[simp] def setTask (s : Sequencer D U P) (k : Nat) (t : Task D P) : Sequencer D U P :=
  { s with tasks := s.tasks.set k t }

@[simp] def setCall (s : Sequencer D U P) (j : Nat) (c : Call D U P) : Sequencer D U P :=
  { s with calls := s.calls.set j c }

@[simp] def setRunning (s : Sequencer D U P) (d : D) (k : Option Nat) : Sequencer D U P :=
  { s with running := Function.update s.running d k }

@[simp] def setFinal (s : Sequencer D U P) (d : D) (f : FinalPhase) : Sequencer D U P :=
  { s with finals := Function.update s.finals d f }

@[simp] def setLock (s : Sequencer D U P) (u : U) (h : Option (Holder D)) : Sequencer D U P :=
  { s with lock := Function.update s.lock u h }

@[simp] def record (s : Sequencer D U P) (w : Write D) : Sequencer D U P :=
  { s with log := s.log ++ [w] }

/-- Take the sequence of the device out of `_running` and stop its task. -/
def pop (s : Sequencer D U P) (d : D) : Sequencer D U P :=
  match s.running d with
  | none => s
  | some k => { s.setRunning d none with tasks := s.tasks.modify k Task.stop }

/-- `start`: the new sequence replaces the running one. -/
def start (s : Sequencer D U P) (d : D) (q : Sequence P) : Sequencer D U P :=
  let s := s.pop d
  { s.setRunning d (some s.tasks.length) with tasks := s.tasks ++ [{ device := d, sequence := q }] }

/-- `cancel`: the sequence ends without its final state. -/
def cancel (s : Sequencer D U P) (d : D) : Sequencer D U P := s.pop d

/-- `_current`. -/
def current (s : Sequencer D U P) (d : D) (k : Nat) : Bool := s.running d = some k

/-- `_end`: remove the sequence of the task if it is still the running one. -/
def endSequence (s : Sequencer D U P) (d : D) (k : Nat) : Sequencer D U P :=
  if s.current d k then s.setRunning d none else s

/-- The task goes on: its sequence ends with its last write, or by the `finally` block of `_run`. -/
def advance (s : Sequencer D U P) (k : Nat) (t : Task D P) : Sequencer D U P :=
  if t.finished || t.phase = .ended then (s.setTask k t).endSequence t.device k else s.setTask k t

/-- The change of a device by `set_devices()` is refused by `SequenceRunning`. -/
def refuses (s : Sequencer D U P) (x : Item D P) : Bool :=
  !x.aliasOnly && (s.running x.device).isSome && x.sequence.isNone

/-- An assignment is set: its sequence starts. -/
def startItem (s : Sequencer D U P) (x : Item D P) : Sequencer D U P :=
  match x.sequence with
  | none => s
  | some q => s.start x.device q

/-- `finish_all` up to its first await. -/
def finishAll (s : Sequencer D U P) : Sequencer D U P :=
  let candidates d := (s.running d).filter fun k => s.tasks[k]?.any (·.sequence.final.isSome)
  let writing := (List.range s.tasks.length).filter fun k => s.tasks[k]?.any (·.phase.isWriting)
  { s with
    running := fun _ => none
    tasks := s.tasks.mapIdx fun k t => if s.running t.device = some k then t.stop else t
    finish := .awaiting candidates writing }

/-- The final states to write: a sequence whose last step was written ended by it. -/
def startFinals (s : Sequencer D U P) (candidates : D → Option Nat) : Sequencer D U P :=
  { s with
    finish := .finals
    finals := fun d =>
      match (candidates d).filter fun k => s.tasks[k]?.any (!·.finished) with
      | none => .none
      | some k => .waiting k }

/-- What happens in the sequencer. -/
inductive Event (D : Type*) where
  | start (d : D)
  | cancel (d : D)
  /-- `device.set()` begins. -/
  | begins (x : Writer) (d : D)
  /-- `device.set()` returned or raised. -/
  | ends (x : Writer) (d : D) (o : Outcome)
  /-- Another step of the task of a sequence. -/
  | task (k : Nat)
  | request (j : Nat)
  /-- Another step of a change. -/
  | call (j : Nat)
  | finishAll
  /-- Another step of `finish_all()`. -/
  | finish

/-- The steps of the loop. -/
inductive Step (unit : D → U) : Sequencer D U P → Event D → Sequencer D U P → Prop
  | start {s} (d : D) (q : Sequence P) : Step unit s (.start d) (s.start d q)
  | cancel {s} (d : D) : Step unit s (.cancel d) (s.cancel d)
  -- the task of a sequence
  | wakeUp {s k t w} (task : s.tasks[k]? = some t) (live : t.cancelled = false)
      (phase : t.phase = .sleeping w) :
      Step unit s (.task k) (s.setTask k { t with phase := .waiting w })
  | begins {s k t w} (task : s.tasks[k]? = some t) (live : t.cancelled = false)
      (phase : t.phase = .waiting w) (free : s.lock (unit t.device) = none)
      (current : s.current t.device k = true) :
      Step unit s (.begins (.task k w) t.device)
        ((s.setLock (unit t.device) (some (.task k))).setTask k { t with phase := .writing w })
  | skips {s k t w} (task : s.tasks[k]? = some t) (live : t.cancelled = false)
      (phase : t.phase = .waiting w) (free : s.lock (unit t.device) = none)
      (removed : s.current t.device k = false) :
      Step unit s (.task k)
        ((s.setLock (unit t.device) (some (.task k))).setTask k
          { t with phase := .reading w .skipped })
  | ends {s k t w} (task : s.tasks[k]? = some t) (phase : t.phase = .writing w) (o : Outcome) :
      Step unit s (.ends (.task k w) t.device o)
        ((s.record ⟨.task k w, t.device, o⟩).advance k (t.afterSet w o))
  | reads {s k t w r} (task : s.tasks[k]? = some t) (live : t.cancelled = false)
      (phase : t.phase = .reading w r) :
      Step unit s (.task k) ((s.setLock (unit t.device) none).advance k
        (t.afterRead (s.current t.device k) w r))
  | stopped {s k t} (task : s.tasks[k]? = some t) (cancelled : t.cancelled = true)
      (phase : (∃ w, t.phase = .sleeping w) ∨ ∃ w, t.phase = .waiting w) :
      Step unit s (.task k) (s.advance k { t with phase := .ended })
  | stoppedRead {s k t w r} (task : s.tasks[k]? = some t) (cancelled : t.cancelled = true)
      (phase : t.phase = .reading w r) :
      Step unit s (.task k) ((s.setLock (unit t.device) none).advance k { t with phase := .ended })
  -- a change of `set_devices()`, it may end at an await by its own cancellation
  | request {s} (u : U) (items : List (Item D P)) (ofUnit : ∀ x ∈ items, unit x.device = u) :
      Step unit s (.request s.calls.length) { s with calls := s.calls ++ [⟨u, items, .waiting⟩] }
  | locks {s j c} (call : s.calls[j]? = some c) (phase : c.phase = .waiting)
      (free : s.lock c.unit = none) :
      Step unit s (.call j)
        ((s.setLock c.unit (some (.call j))).setCall j { c with phase := .checking })
  | available {s j c} (call : s.calls[j]? = some c) (phase : c.phase = .checking) :
      Step unit s (.call j) (s.setCall j { c with phase := .reached 0 })
  | sets {s j c i x} (call : s.calls[j]? = some c) (phase : c.phase = .reached i)
      (item : c.items[i]? = some x) (accepted : s.refuses x = false) :
      Step unit s (.begins (x.writer j i) x.device) (s.setCall j { c with phase := .setting i })
  | refused {s j c i x} (call : s.calls[j]? = some c) (phase : c.phase = .reached i)
      (item : c.items[i]? = some x) (refused : s.refuses x = true) :
      Step unit s (.call j) (s.setCall j { c with phase := .reading })
  | done {s j c i} (call : s.calls[j]? = some c) (phase : c.phase = .reached i)
      (item : c.items[i]? = none) :
      Step unit s (.call j) (s.setCall j { c with phase := .reading })
  | isSet {s j c i x} (call : s.calls[j]? = some c) (phase : c.phase = .setting i)
      (item : c.items[i]? = some x) :
      Step unit s (.ends (x.writer j i) x.device .success)
        (((s.record ⟨x.writer j i, x.device, .success⟩).setCall j
          { c with phase := .reached (i + 1) }).startItem x)
  | raises {s j c i x} (call : s.calls[j]? = some c) (phase : c.phase = .setting i)
      (item : c.items[i]? = some x) (e : SetError) :
      Step unit s (.ends (x.writer j i) x.device (.failed e))
        ((s.record ⟨x.writer j i, x.device, .failed e⟩).setCall j { c with phase := .reading })
  | leaves {s j c} (call : s.calls[j]? = some c) (phase : c.phase = .waiting) :
      Step unit s (.call j) (s.setCall j { c with phase := .ended })
  | releases {s j c} (call : s.calls[j]? = some c)
      (phase : c.phase = .checking ∨ c.phase = .reading) :
      Step unit s (.call j) ((s.setLock c.unit none).setCall j { c with phase := .ended })
  -- `finish_all()`
  | finishAll {s} (idle : s.finish = .idle) : Step unit s .finishAll s.finishAll
  | finals {s candidates writing} (phase : s.finish = .awaiting candidates writing)
      (ended : ∀ k ∈ writing, ∃ t, s.tasks[k]? = some t ∧ t.phase = .ended) :
      Step unit s .finish (s.startFinals candidates)
  | finalBegins {s d k} (phase : s.finals d = .waiting k) (free : s.lock (unit d) = none) :
      Step unit s (.begins (.final k) d)
        ((s.setLock (unit d) (some (.final d))).setFinal d (.writing k))
  | finalEnds {s d k} (phase : s.finals d = .writing k) (o : Outcome) :
      Step unit s (.ends (.final k) d o)
        ((s.record ⟨.final k, d, o⟩).setFinal d (.reading k))
  | finalReads {s d k} (phase : s.finals d = .reading k) :
      Step unit s .finish ((s.setLock (unit d) none).setFinal d (.ended k))
  | returns {s} (phase : s.finish = .finals)
      (ended : ∀ d, s.finals d = .none ∨ ∃ k, s.finals d = .ended k) :
      Step unit s .finish { s with finish := .returned }

/-- The sequencer before its first sequence. -/
def init : Sequencer D U P := {}

/-- The reachable states of a sequencer. -/
abbrev Reachable (unit : D → U) (s : Sequencer D U P) : Prop :=
  Transition.Reachable (Step unit) (· = init) s

end Sequencer

end Evok
