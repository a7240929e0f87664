import Evok.Library.Topic
import Evok.Modbus.Values

/-!
# The announcement of the devices to Home Assistant

`mqtt_ha.py`: the config messages of the entities of a device. An id is made of the type and of the
circuit, its other characters are replaced.

## Main definitions

* `haId`: an id of Home Assistant.
* `entities`: the entities of a device by its type and state.
* `discovery`: the config messages of a device.
-/

namespace Evok

namespace Mqtt

open Modbus (Value Full)

/-- A letter, a digit, `_` or `-`, another character is replaced by `_`. -/
def haChar (c : Char) : Char :=
  if c.isAlphanum || c = '_' || c = '-' then c else '_'

/-- `ha_id`. -/
def haId (text : String) : String :=
  String.ofList (text.toList.map haChar)

/-- A device with the attributes `bus` (the circuit of its 1-Wire bus) and `major_group`. -/
structure HaDevice where
  devtype : String
  circuit : String
  bus : Option String := none
  majorGroup : Option String := none

/-- The values of a state used by the announcement. -/
structure HaState where
  dev : String
  type : Option String := none
  aliasName : Option String := none
  name : Option String := none
  unit : Option String := none
  range : Option (ℚ × ℚ) := none
  writable : Bool := false
  comm : Option String := none

/-- `_group`: the Modbus unit or the 1-Wire bus of the device. -/
def HaDevice.group (device : HaDevice) : Option String :=
  if device.devtype = "modbus_slave" then some device.circuit
  else if device.devtype = "sensor" then device.bus
  else device.majorGroup.filter (· ≠ "")

/-- `_ha_device`, with the models of `Devices[DEVICE_INFO]` which are known. -/
def haDevice (model : String → Option String) (node group : String) : Value :=
  .dict <| [("identifiers", .list [.str (node ++ "_" ++ haId group)]),
    ("name", .str (node ++ " " ++ group)), ("manufacturer", .str "Unipi")] ++
    match model group with
    | some model => [("model", .str model)]
    | none => []

/-- The template of a field of the state. -/
def fieldTemplate (field : String) : Value :=
  .str ("\x7b\x7b value_json." ++ field ++ " \x7d\x7d")

/-- `DS2438_FIELDS`: the field of the state, its name, unit and device class. -/
def ds2438Fields : List (String × String × String × String) :=
  [("temp", "temperature", "°C", "temperature"), ("humidity", "humidity", "%", "humidity"),
    ("vdd", "VDD", "V", "voltage"), ("vad", "VAD", "V", "voltage")]

/-- An entity; a `null` of its config is left out. -/
structure Entity where
  component : String
  suffix : String := ""
  config : Full
  command : Bool := false
  nameSuffix : Option String := none

def binarySensor : Entity :=
  { component := "binary_sensor"
    config := [("value_template", fieldTemplate "value"), ("payload_on", .str "1"),
      ("payload_off", .str "0")] }

def switch : Entity :=
  { component := "switch"
    config := [("value_template", fieldTemplate "value"), ("state_on", .str "1"),
      ("state_off", .str "0"), ("payload_on", .str "1"), ("payload_off", .str "0")]
    command := true }

/-- `_entities`. -/
def entities (devtype : String) (state : HaState) (readOnly : Bool) : List Entity :=
  let value := ("value_template", fieldTemplate "value")
  let unit := ("unit_of_measurement", Value.ofString state.unit)
  let measurement := ("state_class", .str "measurement")
  if devtype = "di" then [binarySensor]
  else if devtype = "ro" ∨ devtype = "do" ∨ devtype = "led" then
    if readOnly then [binarySensor] else [switch]
  else if devtype = "ai" then
    [{ component := "sensor", config := [value, unit, measurement] }]
  else if devtype = "ao" then
    if readOnly then [{ component := "sensor", config := [value, unit] }]
    else
      let (low, high) := state.range.getD (0, 10)
      [{ component := "number"
         config := [value, unit, ("min", .number low), ("max", .number high),
          ("step", .number (1 / 100)), ("mode", .str "box")]
         command := true }]
  else if devtype = "data_point" then
    if state.writable && !readOnly then
      [{ component := "number"
         config := [value, unit, ("min", .number (-1000000000)), ("max", .number 1000000000),
          ("step", .number (1 / 1000)), ("mode", .str "box")]
         command := true }]
    else [{ component := "sensor", config := [value, unit, measurement] }]
  else if devtype = "sensor" ∧ state.dev = "temp" then
    [{ component := "sensor"
       config := [value, ("unit_of_measurement", .str "°C"), ("device_class", .str "temperature"),
        measurement] }]
  else if devtype = "sensor" ∧ state.type = some "DS2438" then
    ds2438Fields.map fun (field, name, unit, deviceClass) =>
      { component := "sensor"
        suffix := "_" ++ field
        config := [("value_template", fieldTemplate field), ("unit_of_measurement", .str unit),
          ("device_class", .str deviceClass), measurement]
        nameSuffix := some name }
  else if devtype = "modbus_slave" then
    [{ component := "binary_sensor"
       config := [("value_template", .str
          "\x7b\x7b 'ON' if value_json.scan_error is none else 'OFF' \x7d\x7d"),
        ("device_class", .str "connectivity")]
       nameSuffix := some "communication" }]
  else []

/-- `_availability`. -/
def availability (topicPrefix devtype stateTopic : String) (state : HaState) : Full :=
  let status := Value.dict [("topic", .str (Topic.join topicPrefix "status")),
    ("payload_available", .str "online"), ("payload_not_available", .str "offline")]
  if state.comm.isNone ∨ devtype = "modbus_slave" then [("availability", .list [status])]
  else
    let comm := Value.dict [("topic", .str stateTopic),
      ("value_template", .str
        "\x7b\x7b 'online' if value_json.comm == 'ok' else 'offline' \x7d\x7d"),
      ("payload_available", .str "online"), ("payload_not_available", .str "offline")]
    [("availability", .list [status, comm]), ("availability_mode", .str "all")]

def Value.isNull : Value → Bool
  | .null => true
  | _ => false

/-- The object id of an entity. -/
def objectId (device : HaDevice) (suffix : String) : String :=
  haId (device.devtype ++ "_" ++ device.circuit ++ suffix)

/-- The name of a device: its alias, its name, or its type and circuit. -/
def deviceName (device : HaDevice) (state : HaState) : String :=
  ((state.aliasName.filter (· ≠ "")).or (state.name.filter (· ≠ ""))).getD
    (device.devtype.toUpper ++ " " ++ device.circuit)

section

variable (topicPrefix haPrefix : String) (model : String → Option String) (readOnly : Bool)

/-- The config message of an entity. -/
def configMessage (device : HaDevice) (state : HaState) (group : String) (entity : Entity) :
    String × Full :=
  let node := haId topicPrefix
  let stateTopic := Topic.join (Topic.join topicPrefix device.devtype) device.circuit
  let name := deviceName device state
  let oid := objectId device entity.suffix
  (Topic.join (Topic.join (Topic.join (Topic.join haPrefix entity.component) node) oid) "config",
    [("name", .str (match entity.nameSuffix with
      | some suffix => name ++ " " ++ suffix
      | none => name)),
      ("unique_id", .str (node ++ "_" ++ oid)), ("state_topic", .str stateTopic)] ++
    availability topicPrefix device.devtype stateTopic state ++
    [("device", haDevice model node group)] ++
    (if entity.command then [("command_topic", .str (Topic.join stateTopic "set"))] else []) ++
    entity.config.filter fun (_, value) => !Value.isNull value)

/-- The config messages of a device, none for a device without a group. -/
def discovery (device : HaDevice) (state : HaState) : List (String × Full) :=
  match device.group with
  | some group =>
    (entities device.devtype state readOnly).map
      (configMessage topicPrefix haPrefix model device state group)
  | none => []

end

end Mqtt

end Evok
