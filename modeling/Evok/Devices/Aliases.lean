import Evok.Library.Dict
import Mathlib.Data.Finset.Insert
import Mathlib.Logic.Function.Basic

/-!
# Devices and their aliases

The registry has the devices of each type by their circuits, the aliases of the devices and the
aliases loaded from the file, whose devices are not registered yet. Its operations change two
dictionaries and the attribute `alias` of the devices one after another, each operation returns
the registry as it is also when it raises.

## Main definitions

* `Registry`: `Devices` with `Devices.aliases` and the aliases of the devices.
* `Registry.registerDevice`, `Registry.setAlias`, `Registry.remove`: the operations.
* `Registry.byName`: the device of a circuit or of an alias.
* `Registry.getDictToSave`, `loadAliases`: the content of the alias file.
-/

namespace Evok

namespace Devices

/-! ## Device types -/

/-- `num_to_devtype_name`. -/
def numToDevtypeName : List (ℕ × String) :=
  [(0, "ro"), (17, "do"), (1, "di"), (2, "ai"), (3, "ao"), (5, "sensor"), (8, "owbus"),
    (12, "ds2408"), (15, "modbus_slave"), (16, "board"), (18, "led"), (19, "watchdog"),
    (20, "register"), (24, "data_point"), (26, "tcp_bus"), (27, "serial_bus"),
    (28, "device_info"), (29, "owpower"), (30, "run"), (31, "nv_save"), (32, "sequencer")]

/-- The types with a dictionary of devices. -/
def devtypes : List String :=
  numToDevtypeName.map (·.2)

/-- `devtype_altnames`. -/
def devtypeAltnames : List (String × String) :=
  [("digitalinput", "di"), ("input", "di"), ("digitaloutput", "do"), ("output", "do"),
    ("relay", "ro"), ("analoginput", "ai"), ("analogoutput", "ao"), ("wd", "watchdog"),
    ("temp", "sensor"), ("1wdevice", "sensor")]

/-- The type of the dictionary `Devices[name]`. -/
def dictOf (name : String) : Option String :=
  if name ∈ devtypes then some name
  else (devtypeAltnames.lookup name).filter (· ∈ devtypes)

/-! ## Values and errors -/

/-- A value of a record of the alias file. -/
inductive Scalar
  | null
  | bool (b : Bool)
  | int (n : ℤ)
  | str (s : String)
  | other (text : String)
  deriving DecidableEq

instance : ToString Scalar where
  toString
    | .null => "None"
    | .bool b => if b then "True" else "False"
    | .int n => toString n
    | .str s => s
    | .other text => text

/-- A record of an alias, a missing key is `null`. -/
structure Record where
  devtype : Scalar := .null
  circuit : Scalar := .null
  deriving DecidableEq

/-- The parameter `alias` of a request; `other` is not a string, with its `repr`. -/
inductive AliasValue
  | null
  | str (s : String)
  | other (repr : String)
  deriving DecidableEq

inductive AliasError
  | value (message : String)
  | key (name : String)
  /-- The device has no attribute `alias`, e.g. a bus. -/
  | attribute
  | notFound (message : String)
  deriving DecidableEq

/-- A device with its `str(circuit)`; a bus or a device info has no attribute `alias`. -/
structure Device where
  devtype : String
  circuit : String
  hasAlias : Bool := true
  deriving DecidableEq

/-! ## Names -/

/-- `MAX_ALIAS_LENGTH`. -/
def maxAliasLength : ℕ := 64

/-- The full match of `[A-Za-z0-9._-]+`. -/
def matchesPattern (name : String) : Bool :=
  name ≠ "" && name.toList.all fun c => c.isAlphanum || c = '.' || c = '_' || c = '-'

/-- The names an alias can have. -/
def ValidName (name : String) : Prop :=
  matchesPattern name ∧ name.length ≤ maxAliasLength ∧ name ≠ "all"

instance : DecidablePred ValidName := fun _ =>
  inferInstanceAs (Decidable (_ ∧ _ ∧ _))

/-! ## The registry -/

/-- The devices of a system, `ι` are their identities. -/
structure Registry (ι : Type) where
  /-- The registered devices by their type and circuit. -/
  devices : Dict (String × String) ι := ∅
  aliasDict : Dict String ι := ∅
  /-- The aliases loaded from the file. -/
  initialDict : Dict String Record := ∅
  /-- The attribute `alias` of the devices. -/
  aliasOf : ι → String := fun _ => ""
  /-- `set_dirty()` was called. -/
  dirty : Bool := false

namespace Registry

section

variable {ι : Type} [DecidableEq ι] (dev : ι → Device)

/-- The record belongs to the device. -/
def belongs (record : Record) (devtype circuit : String) : Bool :=
  record.devtype = .str devtype && record.circuit = .str circuit

/-- Raise for an invalid alias; `free` are the aliases released by the change before it. -/
def validate (r : Registry ι) (name : String) (d : ι) (free : Finset String := ∅) :
    Except AliasError Unit :=
  if name ∈ r.aliasDict ∧ name ∉ free then .error (.value s!"Duplicate alias {name}")
  else if let some record := (r.initialDict.lookup name).filter fun record =>
      ¬belongs record (dev d).devtype (dev d).circuit then
    .error (.value s!"Alias {name} belongs to {record.devtype} {record.circuit}")
  else if ¬matchesPattern name ∨ maxAliasLength < name.length then
    .error (.value s!"Invalid alias {name}")
  else if name = "all" then .error (.value "Alias all is reserved")
  else .ok ()

/-- Delete the alias from both dictionaries. -/
def delete (r : Registry ι) (name : String) : Registry ι :=
  { r with
    aliasDict := r.aliasDict.erase name
    initialDict := r.initialDict.erase name
    dirty := r.dirty || name ∈ r.aliasDict || name ∈ r.initialDict }

/-- Delete the alias of the device. -/
def deleteOwn (r : Registry ι) (d : ι) : Registry ι :=
  if r.aliasOf d ≠ "" then r.delete (r.aliasOf d) else r

/-- Add the alias of the device, its attribute is set by the caller. -/
def add (r : Registry ι) (name : String) (d : ι) : Registry ι × Except AliasError Unit :=
  if (dev d).hasAlias then
    match if name ≠ r.aliasOf d then validate dev r name d else .ok () with
    | .error e => (r, .error e)
    | .ok () =>
      let r := r.deleteOwn d
      let r := if name ≠ "" then r.delete name else r
      ({ r with aliasDict := r.aliasDict.set name d, dirty := true }, .ok ())
  else (r, .error .attribute)

def setAttr (r : Registry ι) (d : ι) (name : String) : Registry ι :=
  { r with aliasOf := Function.update r.aliasOf d name }

/-- Delete an alias of a registered device or an alias loaded from the file. -/
def remove (r : Registry ι) (name : String) : Registry ι × Except AliasError Unit :=
  if name ∉ r.aliasDict ∧ name ∉ r.initialDict then
    (r, .error (.value s!"Unknown alias {name}"))
  else
    let r := match r.aliasDict.lookup name with
      | some d => r.setAttr d ""
      | none => r
    (r.delete name, .ok ())

/-- The loaded aliases of the circuit, in the order of the file. -/
def getAliasesByCircuit (r : Registry ι) (devtype circuit : String) : List String :=
  (r.initialDict.items.filter fun item => belongs item.2 devtype circuit).map (·.1)

/-- Assign the saved alias to a registered device, an error is logged. -/
def assignSaved (d : ι) (r : Registry ι) (name : String) : Registry ι :=
  match r.add dev name d with
  | (r, .ok ()) => r.setAttr d name
  | (r, .error _) => r

/-- Register the device and assign its saved aliases. -/
def registerDevice (r : Registry ι) (devtypeName : String) (d : ι) :
    Registry ι × Except AliasError Unit :=
  match dictOf devtypeName with
  | none => (r, .error (.key devtypeName))
  | some key =>
    let r := { r with devices := r.devices.set (key, (dev d).circuit) d }
    ((r.getAliasesByCircuit devtypeName (dev d).circuit).foldl (assignSaved dev d) r, .ok ())

/-- Raise if `set_alias()` would refuse the alias, before any change. -/
def checkAlias (r : Registry ι) (value : AliasValue) (d : ι) (free : Finset String := ∅) :
    Except AliasError Unit :=
  if value = .null ∨ value = .str "" then .ok ()
  else if ¬(dev d).hasAlias then .error .attribute
  else
    match value with
    | .null => .ok ()
    | .other repr => .error (.value s!"Invalid alias {repr}")
    | .str name =>
      if name = r.aliasOf d then .ok ()
      else
        match dictOf (dev d).devtype with
        | none => .error (.key (dev d).devtype)
        | some key =>
          if (key, name) ∈ r.devices then
            .error (.value s!"Alias {name} is a circuit of {(dev d).devtype}")
          else validate dev r name d free

/-- Set or reset (`""` or `None`) the alias of the device. -/
def setAlias (r : Registry ι) (value : AliasValue) (d : ι) : Registry ι × Except AliasError Unit :=
  if ¬(dev d).hasAlias then (r, .error .attribute)
  else if value = .str (r.aliasOf d) then (r, .ok ())
  else if value = .null ∨ value = .str "" then ((r.deleteOwn d).setAttr d "", .ok ())
  else
    match checkAlias dev r value d, value with
    | .error e, _ => (r, .error e)
    | .ok (), .str name =>
      match r.add dev name d with
      | (r, .error e) => (r, .error e)
      | (r, .ok ()) => (r.setAttr d name, .ok ())
    -- the check refuses a value which is not a string
    | .ok (), _ => (r, .ok ())

/-- The device of a type, or of its altname, with a circuit or an alias. -/
def byName (r : Registry ι) (devtype circuit : String) : Except AliasError ι :=
  let key := (devtypeAltnames.lookup devtype).getD devtype
  if key ∉ devtypes then .error (.notFound s!"Invalid device type '{devtype}'")
  else
    match r.devices.lookup (key, circuit) with
    | some d => .ok d
    | none =>
      match r.aliasDict.lookup circuit with
      | some d =>
        if (dev d).devtype = devtype ∨ devtypeAltnames.lookup devtype = some (dev d).devtype then
          .ok d
        else
          .error (.notFound s!"Circuit or alias '{circuit}' with devtype '{devtype}' not found")
      | none =>
        .error (.notFound s!"Circuit or alias '{circuit}' with devtype '{devtype}' not found")

/-- The records of the alias file: the loaded ones, updated by the ones of the devices. -/
def getDictToSave (r : Registry ι) : Dict String Record :=
  r.initialDict.update <| r.aliasDict.filterMapValues fun _ d =>
    some ⟨.str (dev d).devtype, .str (dev d).circuit⟩

end

end Registry

/-! ## The alias file -/

/-- The old number of a device type. -/
def oldNumber : Scalar → Option ℤ
  | .bool b => some (if b then 1 else 0)
  | .int n => some n
  | .str s => if s ≠ "" ∧ s.toList.all (·.isDigit) then s.toInt? else none
  | _ => none

/-- The record with a device type as a number gets its name. -/
def upgrade (record : Record) : Record :=
  match (oldNumber record.devtype).bind fun n =>
      if 0 ≤ n then numToDevtypeName.lookup n.toNat else none with
  | some name => { record with devtype := .str name }
  | none => record

/-- A record of the version 1.0. -/
structure OldRecord where
  name : Option String
  circuit : Scalar := .null
  devType : Scalar := .null
  deriving DecidableEq

/-- `aliases` of the file; a record which is not a dictionary is `none`. -/
inductive AliasNode
  | absent
  | list (records : List OldRecord)
  | dict (records : Dict String (Option Record))

/-- The alias file which is a mapping. -/
structure AliasFile where
  version : Scalar := .null
  aliases : AliasNode := .absent

/-- `Aliases(initial_dict)`, an invalid record is skipped. -/
def Registry.ofRecords {ι : Type} (records : Dict String (Option Record)) : Registry ι :=
  { initialDict := records.filterMapValues fun _ record => record.map upgrade }

/-- The records of the version 1.0. -/
def oldRecords (records : List OldRecord) : Dict String (Option Record) :=
  records.foldl (fun d record =>
    match record.name with
    | some name => d.set name (some ⟨record.devType, record.circuit⟩)
    | none => d) ∅

/-- `load_aliases` of a file, `none` is a missing file or one which is not a mapping; it raises for
records in the form of the other version. -/
def loadAliases {ι : Type} (file : Option AliasFile) : Option (Registry ι) :=
  let file := file.getD {}
  let version := match file.version, file.aliases with
    | .null, .list _ => "1.0"
    | .null, _ => "2.0"
    | version, _ => toString version
  if version = "1" ∨ version = "1.0" then
    match file.aliases with
    | .absent => some {}
    | .list records => some (.ofRecords (oldRecords records))
    | .dict records => if records.entries = [] then some {} else none
  else if version = "2" ∨ version = "2.0" then
    match file.aliases with
    | .absent => some {}
    | .list records => if records = [] then some {} else none
    | .dict records => some (.ofRecords records)
  else some {}

/-- `save_aliases`: the file of the records. -/
def savedFile (records : Dict String Record) : AliasFile :=
  ⟨.str "2.0", .dict (records.filterMapValues fun _ record => some (some record))⟩

end Devices

end Evok
