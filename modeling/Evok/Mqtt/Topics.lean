import Evok.Devices.Aliases
import Evok.Library.Topic
import Evok.Mqtt.Handler

/-!
# The topics of the MQTT API

A state is published to `prefix/devtype/circuit`, a command to this topic with `/set`. The circuit
is not escaped: the names of the configuration may have a separator.

## Main definitions

* `TopicSettings`: the accepted options of the topics.
* `TopicSettings.topic`, `TopicSettings.subscription`: the topics of the handler.
* `TopicSettings.parseCommand`, `TopicSettings.command`: the device of the topic of a command.
* `Published`: a registered device of the mask with its state.

## Main results

* `routes_iff`: the devices which receive the commands on their topics; all topics are different.
-/

namespace Evok

namespace Mqtt

open Devices (devtypeOf devtypes devtypeAltnames FullState Registry AliasError)

/-- The check of a prefix: a topic without the wildcards and the leading or trailing separator. -/
def isTopic (value : String) : Bool :=
  value ≠ "" && value.toList.all (fun c => c ≠ '+' && c ≠ '#') &&
    value.toList.head? ≠ some '/' && value.toList.getLast? ≠ some '/'

/-- `DEFAULT_DEVICE_MASK`. -/
def defaultDeviceMask : List String :=
  devtypes.filter fun devtype => devtype ≠ "run" ∧ devtype ≠ "board"

/-- The accepted options of the topics and of the commands. -/
structure TopicSettings extends MqttSettings where
  topicPrefix : String := "evok"
  readOnly : Bool := false
  valid : isTopic topicPrefix
  known : ∀ devtype ∈ deviceMask, devtype ∈ defaultDeviceMask

/-- An error of a command before its params are read. -/
inductive CommandError
  | value (message : String)
  | device (e : AliasError)
  deriving DecidableEq

namespace TopicSettings

variable (settings : TopicSettings)

/-- `MqttHandler.topic`. -/
def topic (devtype : String) (circuit : Option String) : String :=
  Topic.join settings.topicPrefix devtype ++
    match circuit with
    | some circuit => "/" ++ circuit
    | none => ""

/-- The subscription of the commands. -/
def subscription : String :=
  settings.topicPrefix ++ "/+/+/set"

/-- The topic to which a state is published. -/
def stateTopic {β : Type} (state : FullState β) : String :=
  settings.topic (devtypeOf state.dev) state.circuit

/-- The type and the circuit of the topic of a command. -/
def parseCommand (topic : String) : Except CommandError (String × String) :=
  let rest := String.ofList (topic.toList.drop (settings.topicPrefix.toList.length + 1))
  let start := decide ((settings.topicPrefix ++ "/").toList <+: topic.toList)
  match start, Topic.levels rest with
  | true, [devtype, circuit, "set"] => .ok (devtype, circuit)
  | _, _ => .error (.value s!"Invalid topic {topic}")

/-- The device of a command. -/
def command {ι : Type} (dev : ι → Devices.Device) (r : Registry ι) (topic : String) :
    Except CommandError ι := do
  let (devtype, circuit) ← settings.parseCommand topic
  if settings.readOnly then throw (.value "The MQTT API is read-only")
  (r.byName dev devtype circuit).mapError .device

end TopicSettings

section

variable {ι β : Type} (settings : TopicSettings) (dev : ι → Devices.Device) (r : Registry ι)
  (full : ι → FullState β)

/-- A registered device whose state is published: its `full()` is of its type and circuit. -/
structure Published (d : ι) : Prop where
  registered : r.devices.lookup ((dev d).devtype, (dev d).circuit) = some d
  devtype : devtypeOf (full d).dev = (dev d).devtype
  circuit : (full d).circuit = some (dev d).circuit
  masked : devtypeOf (full d).dev ∈ settings.deviceMask

/-- A message to the topic of a state with `/set` is received and found to be for the device. -/
structure Routes (state : FullState β) (d : ι) : Prop where
  subscribed :
    Topic.matchesFilter settings.subscription (Topic.join (settings.stateTopic state) "set")
  parsed : ∃ devtype circuit,
    settings.parseCommand (Topic.join (settings.stateTopic state) "set") = .ok (devtype, circuit) ∧
      r.byName dev devtype circuit = .ok d
  commanded : settings.readOnly = false →
    settings.command dev r (Topic.join (settings.stateTopic state) "set") = .ok d

end

/-! ## The levels of the topics -/

/-- The types in the mask have no separator and are no altnames. -/
theorem mem_defaultDeviceMask {devtype : String} (h : devtype ∈ defaultDeviceMask) :
    '/' ∉ devtype.toList ∧ devtypeAltnames.lookup devtype = none ∧ devtype ∈ devtypes := by
  have hall : ∀ devtype ∈ defaultDeviceMask, '/' ∉ devtype.toList ∧
      devtypeAltnames.lookup devtype = none ∧ devtype ∈ devtypes := by
    decide +kernel
  exact hall devtype h

namespace TopicSettings

variable {settings : TopicSettings}

theorem topic_eq (devtype circuit : String) :
    settings.topic devtype (some circuit) =
      Topic.join settings.topicPrefix (Topic.join devtype circuit) := by
  simp [topic, Topic.join, String.append_assoc]

theorem topic_none (name : String) :
    settings.topic name none = Topic.join settings.topicPrefix name := by
  simp [topic]

theorem topicPrefix_chars :
    settings.topicPrefix ≠ "" ∧ ∀ c ∈ settings.topicPrefix.toList, c ≠ '+' ∧ c ≠ '#' := by
  have := settings.valid
  simp only [isTopic, Bool.and_eq_true, List.all_eq_true, decide_eq_true_eq] at this
  exact this.1.1

/-- The levels of the prefix are no wildcards. -/
theorem levels_topicPrefix (level : String) (h : level ∈ Topic.levels settings.topicPrefix) :
    level ≠ "+" ∧ level ≠ "#" := by
  constructor
  · rintro rfl
    exact (settings.topicPrefix_chars.2 '+' (Topic.mem_of_mem_levels h (by decide))).1 rfl
  · rintro rfl
    exact (settings.topicPrefix_chars.2 '#' (Topic.mem_of_mem_levels h (by decide))).2 rfl

/-- A topic of the handler is one of the subscription if its levels are. -/
theorem matchesFilter_subscription (rest : String) :
    Topic.matchesFilter settings.subscription (Topic.join settings.topicPrefix rest) =
      Topic.matchesLevels ["+", "+", "set"] (Topic.levels rest) := by
  have hsub : settings.subscription = Topic.join settings.topicPrefix "+/+/set" := by
    rw [subscription, Topic.join, String.append_assoc]
    rfl
  have hhead : settings.subscription.toList.head? ≠ some '+' ∧
      settings.subscription.toList.head? ≠ some '#' := by
    obtain ⟨hne, hchars⟩ := settings.topicPrefix_chars
    rw [subscription, String.toList_append]
    cases hlist : settings.topicPrefix.toList with
    | nil => exact absurd (String.toList_eq_nil_iff.mp hlist) hne
    | cons c cs =>
      rw [hlist] at hchars
      simpa using hchars c List.mem_cons_self
  have hset : Topic.levels "+/+/set" = ["+", "+", "set"] := by decide +kernel
  rw [Topic.matchesFilter, hsub, Topic.levels_join, Topic.levels_join, hset,
    Topic.matchesLevels_append settings.levels_topicPrefix]
  rw [hsub] at hhead
  simp [hhead]

/-- The parts of a topic below the prefix. -/
theorem parseCommand_join (rest : String) :
    settings.parseCommand (Topic.join settings.topicPrefix rest) =
      match Topic.levels rest with
      | [devtype, circuit, "set"] => .ok (devtype, circuit)
      | _ => .error (.value s!"Invalid topic {Topic.join settings.topicPrefix rest}") := by
  have hstart : decide ((settings.topicPrefix ++ "/").toList <+:
      (Topic.join settings.topicPrefix rest).toList) = true := by
    rw [decide_eq_true_eq, String.toList_append, Topic.toList_join]
    exact ⟨rest.toList, by simp⟩
  have hrest : String.ofList ((Topic.join settings.topicPrefix rest).toList.drop
      (settings.topicPrefix.toList.length + 1)) = rest := by
    rw [Topic.toList_join, ← List.drop_drop, List.drop_left, List.drop_succ_cons, List.drop_zero,
      String.ofList_toList]
  rw [parseCommand, hstart, hrest]
  split
  · next hlevels => simp [hlevels]
  · next hother =>
    split
    · next hlevels => exact absurd hlevels (hother _ _ rfl)
    · rfl

end TopicSettings

/-! ## The routes -/

section

variable {ι β : Type} {settings : TopicSettings} {dev : ι → Devices.Device} {r : Registry ι}
  {full : ι → FullState β} {d : ι}

/-- The state of a published device is published to the topic of its type and circuit. -/
theorem Published.stateTopic (h : Published settings dev r full d) :
    settings.stateTopic (full d) =
      Topic.join settings.topicPrefix (Topic.join (dev d).devtype (dev d).circuit) := by
  rw [TopicSettings.stateTopic, h.devtype, h.circuit, settings.topic_eq]

theorem Published.mem_mask (h : Published settings dev r full d) :
    (dev d).devtype ∈ defaultDeviceMask := by
  rw [← h.devtype]
  exact settings.known _ h.masked

/-- The levels of the topic of a command. -/
theorem Published.levels (h : Published settings dev r full d) :
    Topic.join (settings.stateTopic (full d)) "set" = Topic.join settings.topicPrefix
        (Topic.join (dev d).devtype (Topic.join (dev d).circuit "set")) ∧
      Topic.levels (Topic.join (dev d).devtype (Topic.join (dev d).circuit "set")) =
        (dev d).devtype :: (Topic.levels (dev d).circuit ++ ["set"]) := by
  constructor
  · rw [h.stateTopic]
    simp only [Topic.join, String.append_assoc]
  · rw [Topic.levels_join, Topic.levels_join,
      Topic.levels_of_notMem (mem_defaultDeviceMask h.mem_mask).1]
    rfl

/-- A registered device is found by its type and circuit. -/
theorem Published.byName (h : Published settings dev r full d) :
    r.byName dev (dev d).devtype (dev d).circuit = .ok d := by
  obtain ⟨-, halt, htype⟩ := mem_defaultDeviceMask h.mem_mask
  unfold Registry.byName
  rw [halt]
  simp only [Option.getD_none, htype, not_true, if_false, h.registered]

/-- The commands on the topic of a device reach it if and only if its circuit has no separator. -/
theorem Published.delivered_iff (h : Published settings dev r full d) :
    Routes settings dev r (full d) d ↔ '/' ∉ (dev d).circuit.toList := by
  obtain ⟨htopic, hlevels⟩ := h.levels
  constructor
  · rintro ⟨hmatch, -, -⟩
    rw [htopic, settings.matchesFilter_subscription, hlevels] at hmatch
    rw [← Topic.length_levels_eq_one_iff]
    match hparts : Topic.levels (dev d).circuit with
    | [] => simp [hparts, Topic.matchesLevels] at hmatch
    | [_] => rfl
    | _ :: _ :: rest => cases rest <;> simp [hparts, Topic.matchesLevels] at hmatch
  · intro hcircuit
    rw [Topic.levels_of_notMem hcircuit] at hlevels
    have hparse : settings.parseCommand (Topic.join (settings.stateTopic (full d)) "set") =
        .ok ((dev d).devtype, (dev d).circuit) := by
      rw [htopic, settings.parseCommand_join, hlevels]
      rfl
    constructor
    · rw [htopic, settings.matchesFilter_subscription, hlevels]
      simp [Topic.matchesLevels]
    · exact ⟨(dev d).devtype, (dev d).circuit, hparse, h.byName⟩
    · intro hwrite
      rw [TopicSettings.command, hparse]
      simp only [bind, Except.bind, hwrite, Bool.false_eq_true, if_false, h.byName]
      rfl

/-- Every published device receives the commands on its topic, unless its circuit has a separator;
the topics of the states are different, also from those of the status and of the errors. -/
theorem routes_iff (settings : TopicSettings) (dev : ι → Devices.Device) (r : Registry ι)
    (full : ι → FullState β) :
    (∀ d, Published settings dev r full d →
      (Routes settings dev r (full d) d ↔ '/' ∉ (dev d).circuit.toList)) ∧
    (∀ d d', Published settings dev r full d → Published settings dev r full d' → d ≠ d' →
      settings.stateTopic (full d) ≠ settings.stateTopic (full d')) ∧
    ∀ d, Published settings dev r full d →
      settings.stateTopic (full d) ≠ settings.topic "status" none ∧
        settings.stateTopic (full d) ≠ settings.topic "error" none := by
  refine ⟨fun d h => h.delivered_iff, ?_, ?_⟩
  · intro d d' h h' hne heq
    rw [h.stateTopic, h'.stateTopic, Topic.join_right_inj,
      Topic.join_inj (mem_defaultDeviceMask h.mem_mask).1
        (mem_defaultDeviceMask h'.mem_mask).1] at heq
    obtain ⟨htype, hcircuit⟩ := heq
    have hregistered := h.registered
    rw [htype, hcircuit, h'.registered] at hregistered
    exact hne (Option.some.inj hregistered).symm
  · intro d h
    -- a topic of a state has a separator after the prefix
    have hsep : ∀ name : String, '/' ∉ name.toList →
        settings.stateTopic (full d) ≠ settings.topic name none := by
      intro name hname heq
      rw [h.stateTopic, settings.topic_none, Topic.join_right_inj] at heq
      rw [← heq, Topic.toList_join] at hname
      simp at hname
    exact ⟨hsep "status" (by decide), hsep "error" (by decide)⟩

end

/-- The topics below a prefix of two levels. -/
def homeSettings : TopicSettings where
  deviceMask := ["di"]
  topicPrefix := "home/evok"
  valid := by decide +kernel
  known := by decide +kernel

/-- The input of a unit, with the name of the unit. -/
def inputOf (unit : String) (_ : Unit) : Devices.Device :=
  { devtype := "di", circuit := unit ++ "_01" }

/-- The registry with this input. -/
def inputRegistry (unit : String) : Registry Unit :=
  { devices := Dict.set ∅ ("di", unit ++ "_01") () }

def inputState (unit : String) (_ : Unit) : FullState Unit :=
  { dev := "di", circuit := some (unit ++ "_01"), body := () }

theorem published_input (unit : String) :
    Published homeSettings (inputOf unit) (inputRegistry unit) (inputState unit) () := by
  constructor
  · simp [inputRegistry, inputOf]
  · rfl
  · rfl
  · change devtypeOf "di" ∈ ["di"]
    decide

/-- The input of a unit without a separator in its name. -/
theorem routes_plc :
    Routes homeSettings (inputOf "plc") (inputRegistry "plc") (inputState "plc" ()) () :=
  ((routes_iff homeSettings (inputOf "plc") (inputRegistry "plc") (inputState "plc")).1 ()
    (published_input "plc")).mpr (by decide +kernel)

/-- The commands of the input of a unit `plc/1` are not received. -/
theorem not_routes :
    Published homeSettings (inputOf "plc/1") (inputRegistry "plc/1") (inputState "plc/1") () ∧
      Topic.matchesFilter homeSettings.subscription
        (Topic.join (homeSettings.stateTopic (inputState "plc/1" ())) "set") = false ∧
      ¬Routes homeSettings (inputOf "plc/1") (inputRegistry "plc/1") (inputState "plc/1" ()) () := by
  have hmatch : Topic.matchesFilter homeSettings.subscription
      (Topic.join (homeSettings.stateTopic (inputState "plc/1" ())) "set") = false := by
    decide +kernel
  refine ⟨published_input "plc/1", hmatch, fun routes => ?_⟩
  rw [routes.subscribed] at hmatch
  cases hmatch

end Mqtt

end Evok
