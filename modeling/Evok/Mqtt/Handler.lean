import Evok.Devices.FullState
import Evok.Library.Dict
import Mathlib.Logic.Relation

/-!
# The publisher of the MQTT API

`MqttHandler` of `mqtt_handler.py`: `on_event` queues the last state of each changed device, and the
publisher sends the states one after another while the handler is connected. The steps are those of
the loop of the publisher, they are finer than its awaits. A queued state is a new dict, so that it
has a serial number here. The configs of Home Assistant are given by `discovery`, which also reads
the registered devices.

## Main definitions

* `Item`: a queued state of a device.
* `MqttHandler`: the state of the handler, with the log of the connection.
* `Step`: the steps of the events, of the connection and of the publisher.
-/

namespace Evok

namespace Mqtt

open Devices (devtypeOf FullState Registered)

variable {β γ δ : Type}

/-- A type and a circuit. -/
abbrev Key := String × String

/-- A queued state. -/
structure Item (β : Type) where
  serial : ℕ
  state : FullState β
  deriving DecidableEq

/-- What happens in a connection: `publish` is the call of the client, `refused` its `MqttError` or
the one of a config before it, `failed` another error. -/
inductive Entry (β γ : Type)
  | queued (key : Key) (item : Item β)
  | config (topic : String) (config : γ)
  | publish (key : Key) (item : Item β)
  | published (key : Key) (item : Item β)
  | refused (key : Key) (item : Item β)
  | dropped (key : Key) (item : Item β)
  | failed (key : Key) (item : Item β)

/-- The place of the publisher in its loop. -/
inductive Publisher (β γ : Type)
  | waiting
  | looping
  | announcing (key : Key) (item : Item β) (configs : List (String × γ))
  | configuring (key : Key) (item : Item β) (topic : String) (config : γ)
      (configs : List (String × γ))
  | publishing (key : Key) (item : Item β)
  | delaying

/-- The state which the publisher announces or publishes. -/
def Publisher.current : Publisher β γ → Option (Key × Item β)
  | .announcing key item _ | .configuring key item _ _ _ | .publishing key item => some (key, item)
  | .waiting | .looping | .delaying => none

/-- The state for which the publisher waits for the client. -/
def Publisher.awaited : Publisher β γ → Option (Key × Item β)
  | .configuring key item _ _ _ | .publishing key item => some (key, item)
  | .waiting | .looping | .announcing .. | .delaying => none

/-- The connection to the broker, `connecting` is the start of `_connected`. -/
inductive Connection (β γ : Type)
  | lost
  | connecting
  | connected (publisher : Publisher β γ)

/-- `PUBLISH_ATTEMPTS`. -/
def publishAttempts : ℕ := 3

/-- The handler; `devices` are those of the start of the connection. -/
structure MqttHandler (β γ : Type) where
  pending : Dict Key (Item β) := ∅
  announced : Dict String γ := ∅
  wakeup : Bool := false
  publishFailures : Dict Key ℕ := ∅
  connection : Connection β γ := .lost
  created : ℕ := 0
  devices : List (Registered β) := []
  log : List (Entry β γ) := []

/-- The options of the API. -/
structure MqttSettings where
  deviceMask : List String
  haDiscovery : Bool := false

variable (settings : MqttSettings)

namespace MqttHandler

/-- Queue one state. -/
def queueState (handler : MqttHandler β γ) (state : FullState β) : MqttHandler β γ :=
  let devtype := devtypeOf state.dev
  match state.circuit with
  | some circuit =>
    if devtype ∈ settings.deviceMask then
      let item := { serial := handler.created, state := state }
      { handler with
        pending := handler.pending.set (devtype, circuit) item
        created := handler.created + 1
        log := handler.log ++ [.queued (devtype, circuit) item] }
    else handler
  | none => handler

/-- `_queue`. -/
def queue (handler : MqttHandler β γ) (states : List (FullState β)) : MqttHandler β γ :=
  let handler := states.foldl (queueState settings) handler
  { handler with wakeup := handler.wakeup || !handler.pending.items.isEmpty }

/-- `_queue_all`. -/
def queueAll (handler : MqttHandler β γ) (devices : List (Registered β)) : MqttHandler β γ :=
  handler.queue settings
    ((devices.filter (·.devtype ∈ settings.deviceMask)).map Registered.state)

/-- The start of the publisher in `_connected`. -/
def start (handler : MqttHandler β γ) (devices : List (Registered β)) : MqttHandler β γ :=
  let cleared := { handler with
    pending := ∅
    announced := ∅
    publishFailures := ∅
    devices := devices
    log := [] }
  { cleared.queueAll settings devices with connection := .connected .waiting }

/-- The publisher goes on to a place. -/
def goTo (handler : MqttHandler β γ) (publisher : Publisher β γ) : MqttHandler β γ :=
  { handler with connection := .connected publisher }

/-- Add an entry to the log. -/
def record (handler : MqttHandler β γ) (entry : Entry β γ) : MqttHandler β γ :=
  { handler with log := handler.log ++ [entry] }

/-- Pop a state and start its announcement. -/
def take (discovery : Key → FullState β → Except Unit (List (String × γ)))
    (handler : MqttHandler β γ) (key : Key) (item : Item β) : MqttHandler β γ :=
  let handler := { handler with pending := handler.pending.erase key }
  if settings.haDiscovery then
    match discovery key item.state with
    | .ok configs => handler.goTo (.announcing key item configs)
    | .error _ => (handler.record (.failed key item)).goTo .looping
  else handler.goTo (.announcing key item [])

/-- An `MqttError`: the state is published again after the other pending ones, or it is dropped. -/
def refused (handler : MqttHandler β γ) (key : Key) (item : Item β) : MqttHandler β γ :=
  let failures := (handler.publishFailures.lookup key).getD 0 + 1
  let handler := handler.record (.refused key item)
  if failures < publishAttempts then
    { handler with
      publishFailures := handler.publishFailures.set key failures
      pending :=
        if key ∈ handler.pending then handler.pending else handler.pending.set key item }.goTo
      .delaying
  else
    ({ handler with
      publishFailures := handler.publishFailures.erase key }.record (.dropped key item)).goTo
      .looping

end MqttHandler

variable (discovery : δ → Key → FullState β → Except Unit (List (String × γ)))

/-- The steps of `on_event`, of the connection and of `_publish`. -/
inductive Step (handler : MqttHandler β γ) : MqttHandler β γ → Prop
  | event (states : List (FullState β)) : Step handler (handler.queue settings states)
  | connect (lost : handler.connection = .lost) :
    Step handler { handler with connection := .connecting }
  | start (connecting : handler.connection = .connecting) (devices : List (Registered β)) :
    Step handler (handler.start settings devices)
  | lose : Step handler { handler with connection := .lost }
  | wake (waiting : handler.connection = .connected .waiting) (wakeup : handler.wakeup = true) :
    Step handler ({ handler with wakeup := false }.goTo .looping)
  | wait (looping : handler.connection = .connected .looping) (empty : handler.pending.items = []) :
    Step handler (handler.goTo .waiting)
  | take {key : Key} {item : Item β} {rest : List (Key × Item β)}
      (looping : handler.connection = .connected .looping)
      (first : handler.pending.items = (key, item) :: rest) (registry : δ) :
    Step handler (handler.take settings (discovery registry) key item)
  | known {key : Key} {item : Item β} {topic : String} {config : γ} {configs : List (String × γ)}
      (announcing : handler.connection =
        .connected (.announcing key item ((topic, config) :: configs)))
      (same : handler.announced.lookup topic = some config) :
    Step handler (handler.goTo (.announcing key item configs))
  | config {key : Key} {item : Item β} {topic : String} {config : γ} {configs : List (String × γ)}
      (announcing : handler.connection =
        .connected (.announcing key item ((topic, config) :: configs)))
      (changed : handler.announced.lookup topic ≠ some config) :
    Step handler (handler.goTo (.configuring key item topic config configs))
  | announced {key : Key} {item : Item β} {topic : String} {config : γ}
      {configs : List (String × γ)}
      (configuring : handler.connection =
        .connected (.configuring key item topic config configs)) :
    Step handler (({ handler with
      announced := handler.announced.set topic config }.record (.config topic config)).goTo
      (.announcing key item configs))
  | publish {key : Key} {item : Item β}
      (announcing : handler.connection = .connected (.announcing key item [])) :
    Step handler ((handler.record (.publish key item)).goTo (.publishing key item))
  | published {key : Key} {item : Item β}
      (publishing : handler.connection = .connected (.publishing key item)) :
    Step handler (({ handler with
      publishFailures := handler.publishFailures.erase key }.record (.published key item)).goTo
      .looping)
  | refused {key : Key} {item : Item β} {publisher : Publisher β γ}
      (connected : handler.connection = .connected publisher)
      (awaited : publisher.awaited = some (key, item)) :
    Step handler (handler.refused key item)
  | failed {key : Key} {item : Item β} {publisher : Publisher β γ}
      (connected : handler.connection = .connected publisher)
      (awaited : publisher.awaited = some (key, item)) :
    Step handler ((handler.record (.failed key item)).goTo .looping)
  | retry (delaying : handler.connection = .connected .delaying) :
    Step handler (handler.goTo .looping)

/-- The states of the handler in its runs. -/
def Reachable (handler : MqttHandler β γ) : Prop :=
  Relation.ReflTransGen (Step settings discovery) {} handler

end Mqtt

end Evok
