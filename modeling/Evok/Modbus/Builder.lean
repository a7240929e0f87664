import Evok.Devices.Invariant
import Evok.Modbus.Device

/-!
# The devices of a unit

`IOParser` of `modbus/builder.py` creates the devices of a unit by the features of its HW definition.
A feature which raises keeps the devices created before its error, the other features are created.

## Main definitions

* `Feature` : a feature of a HW definition.
* `Entry` : a registered device, with its client.
* `System` : the registered devices and the devices of the units.
* `IOParser.populate` : create the devices of a unit.
-/

namespace Evok

namespace Modbus

deriving instance DecidableEq for Transformation, ModeData, IOMode, BinaryOutput, DigitalOutput,
  DigitalInput, AnalogIO, DataPoint, OwPower, NvSave, Watchdog, Device

open Devices (Registry)

/-! ## HW definitions -/

/-- A mode of an analog feature. -/
structure ModeSource where
  value : Option ℤ := none
  unit : Option String := none
  range : Option (ℚ × ℚ) := none
  datatype : Option String := none
  ratio : ℚ := 1
  offset : ℚ := 0
  decimals : Option (Option ℤ) := none

/-- A feature of a HW definition, a missing key is `none`. -/
structure Feature where
  type : Option String := none
  count : ℕ := 1
  startIndex : ℕ := 0
  valReg : Option ℕ := none
  valCoil : Option ℕ := none
  debounReg : Option ℕ := none
  counterReg : Option ℕ := none
  directReg : Option ℕ := none
  polarReg : Option ℕ := none
  toggleReg : Option ℕ := none
  /-- `modes` of a digital feature. -/
  modes : Option (List String) := none
  dsModes : Option (List String) := none
  pwmReg : Option ℕ := none
  pwmPsReg : Option ℕ := none
  pwmCReg : Option ℕ := none
  pwmPresetReg : Option ℕ := none
  pwmCpresReg : Option ℕ := none
  /-- `modes` of an analog feature. -/
  ioModes : Option (List (String × ModeSource)) := none
  modeReg : Option ℕ := none
  resValReg : Option ℕ := none
  startReg : Option ℕ := none
  regType : Option String := none
  valueReg : Option ℕ := none
  datatype : Option String := none
  offset : ℚ := 0
  factor : ℚ := 1
  unit : Option String := none
  name : Option String := none
  writable : Bool := false
  validMaskReg : Option ℕ := none
  timeoutReg : Option ℕ := none
  resetCoil : Option ℤ := none

/-- An exception of a feature. -/
inductive FeatureError
  | key (name : String)
  | value (message : String)
  deriving DecidableEq

/-- `m_feature[key]`. -/
def item {α : Type} (key : String) : Option α → Except FeatureError α
  | some value => .ok value
  | none => .error (.key key)

/-- `AccessorFactory.accessor_classes` with the word order of the 32-bit ones. -/
def accessorClass (order : WordOrder) (datatype : String) : Option DataType :=
  [("uint16", .uint16), ("int16", .int16), ("signed16", .int16), ("uint32", .uint32 order),
    ("int32", .int32 order), ("float32", DataType.float32 order)].lookup datatype

/-! ## Registered devices -/

namespace Device

def devtype : Device → String
  | binaryOutput d => d.devtype
  | digitalOutput _ => "do"
  | digitalInput _ => "di"
  | analog d => d.devtype
  | dataPoint d =>
    match d.kind with
    | .register => "register"
    | _ => "data_point"
  | owPower _ => "owpower"
  | nvSave _ => "nv_save"
  | watchdog _ => "watchdog"

def circuit : Device → String
  | binaryOutput d => d.circuit
  | digitalOutput d => d.circuit
  | digitalInput d => d.circuit
  | analog d => d.circuit
  | dataPoint d => d.circuit
  | owPower d => d.circuit
  | nvSave d => d.circuit
  | watchdog d => d.circuit

/-- The circuit of the sequencer device of an output. -/
def sequencerCircuit (d : Device) : String :=
  s!"{d.devtype}_{d.circuit}"

end Device

/-- A registered device: an IO of the client of a unit, the sequencer device of an output, or a device
of another module. -/
inductive Entry
  | io (client : ℕ) (d : Device)
  | sequencer (client : ℕ) (output : Device)
  | other (object : ℕ) (d : Devices.Device)
  deriving DecidableEq

/-- The type and the circuit of the device. -/
def Entry.device : Entry → Devices.Device
  | io _ d => { devtype := d.devtype, circuit := d.circuit }
  | sequencer _ output => { devtype := "sequencer", circuit := output.sequencerCircuit }
  | other _ d => d

/-- The registered devices, and the devices of the clients. -/
structure System where
  registry : Registry Entry := {}
  devices : ℕ → List Device := fun _ => []
  eventableDevices : ℕ → List Device := fun _ => []
  /-- The outputs with a sequencer device. -/
  attached : List (ℕ × Device) := []
  /-- The PWM frequencies of a client, an output has one by its index. -/
  frequencies : ℕ → List PwmFrequency := fun _ => []

namespace System

/-- `Devices.register_device` of a device with its own type. -/
def registerDevice (s : System) (e : Entry) : System :=
  { s with registry := (s.registry.registerDevice Entry.device e.device.devtype e).1 }

/-- Add the device to its client and register it. -/
def add (s : System) (client : ℕ) (device : Device) : System :=
  let s := if device.checks then
      { s with
        eventableDevices := Function.update s.eventableDevices client
          (s.eventableDevices client ++ [device]) }
    else s
  let s :=
    { s with devices := Function.update s.devices client (s.devices client ++ [device]) }
  s.registerDevice (.io client device)

/-- `attach`: create and register the sequencer device of the output. -/
def attach (s : System) (client : ℕ) (output : Device) : System :=
  let s := s.registerDevice (.sequencer client output)
  { s with attached := s.attached ++ [(client, output)] }

end System

/-! ## The parser -/

/-- The parser of the features of a unit. -/
structure IOParser where
  client : ℕ
  hwFeatures : List Feature
  circuit : String

namespace IOParser

/-- Register the device, a duplicate circuit raises `ValueError`. -/
def register (p : IOParser) (device : Device) (s : System) : System × Except FeatureError Unit :=
  if (device.devtype, device.circuit) ∈ s.registry.devices then
    (s, .error (.value (s!"Duplicate circuit {device.devtype} {device.circuit}, " ++
      "use start_index of the feature")))
  else (s.add p.client device, .ok ())

/-- An output with its sequencer device. -/
def registerOutput (p : IOParser) (device : Device) (s : System) :
    System × Except FeatureError Unit :=
  match p.register device s with
  | (s, .error e) => (s, .error e)
  | (s, .ok ()) => (s.attach p.client device, .ok ())

/-- `{n:02d}`. -/
def twoDigits (n : ℕ) : String :=
  if n < 10 then s!"0{n}" else toString n

/-- Circuit of the IO, `start_index` numbers the IOs of a feature following another one. -/
def ioCircuit (p : IOParser) (i : ℕ) (f : Feature) : String :=
  s!"{p.circuit}_{twoDigits (i + 1 + f.startIndex)}"

/-- The IOs 17-32 are in the next register. -/
def bitReg (reg i : ℕ) : ℕ :=
  reg + i / 16

/-- The bit of the IO in its register. -/
def bitMask (i : ℕ) : Word :=
  1 <<< (i % 16)

/-- Create and register the IOs in turn, up to the first one which raises. -/
def createEach (create : ℕ → Except FeatureError Device)
    (register : Device → System → System × Except FeatureError Unit) :
    List ℕ → System → System × Except FeatureError Unit
  | [], s => (s, .ok ())
  | i :: is, s =>
    match create i with
    | .error e => (s, .error e)
    | .ok d =>
      match register d s with
      | (s, .error e) => (s, .error e)
      | (s, .ok ()) => createEach create register is s

/-- The registers of the DirectSwitch mode, only all of them. -/
def directSwitch (f : Feature) (i : ℕ) (d : DigitalInput) : DigitalInput :=
  match f.dsModes, f.directReg, f.polarReg, f.toggleReg with
  | some dsModes, some directReg, some polarReg, some toggleReg =>
    { d with
      dsModes
      regmode := some (bitReg directReg i)
      regtoggle := some (bitReg toggleReg i)
      regpolarity := some (bitReg polarReg i) }
  | _, _, _, _ => d

def digitalInput (p : IOParser) (f : Feature) (i : ℕ) : Except FeatureError Device := do
  let valReg ← item "val_reg" f.valReg
  let debounReg ← item "deboun_reg" f.debounReg
  let counterReg ← item "counter_reg" f.counterReg
  let modes ← item "modes" f.modes
  return .digitalInput <| directSwitch f i
    { circuit := p.ioCircuit i f
      reg := bitReg valReg i
      mask := bitMask i
      regdebounce := some (debounReg + i)
      regcounter := some (counterReg + 2 * i)
      modes }

def parseFeatureDi (p : IOParser) (maxCount : ℕ) (f : Feature) :
    System → System × Except FeatureError Unit :=
  createEach (p.digitalInput f) p.register (List.range maxCount)

/-- Coil of the output, an output without a coil writes its bit. -/
def outputCoil (f : Feature) (i : ℕ) : Option ℕ :=
  f.valCoil.map (· + i)

/-- `Relay` and `ULED`. -/
def binaryOutput (p : IOParser) (devtype : String) (f : Feature) (i : ℕ) :
    Except FeatureError Device := do
  let valReg ← item "val_reg" f.valReg
  return .binaryOutput
    { devtype
      circuit := p.ioCircuit i f
      coil := outputCoil f i
      reg := bitReg valReg i
      mask := bitMask i }

def parseFeatureRo (p : IOParser) (maxCount : ℕ) (f : Feature) :
    System → System × Except FeatureError Unit :=
  createEach (p.binaryOutput "ro" f) p.registerOutput (List.range maxCount)

def parseFeatureLed (p : IOParser) (maxCount : ℕ) (f : Feature) :
    System → System × Except FeatureError Unit :=
  createEach (p.binaryOutput "led" f) p.registerOutput (List.range maxCount)

/-- A register which counts as given, the register 0 does not. -/
def nonzero (reg : Option ℕ) : Option ℕ :=
  reg.filter (· ≠ 0)

/-- The PWM frequency of a feature, `none` for simple outputs. -/
def pwmFrequency (f : Feature) : Except FeatureError (Option PwmFrequency) :=
  match nonzero f.pwmReg, nonzero f.pwmPsReg, nonzero f.pwmCReg, nonzero f.pwmPresetReg,
    nonzero f.pwmCpresReg with
  | some _, some pwmPsReg, some pwmCReg, _, _ => .ok (some (.hard pwmCReg pwmPsReg))
  | some _, _, _, some pwmPresetReg, some pwmCpresReg =>
    .ok (some (.soft pwmPresetReg pwmCpresReg))
  | _, _, _, _, _ =>
    if f.pwmReg.isSome ∨ f.pwmPsReg.isSome ∨ f.pwmCReg.isSome ∨ f.pwmPresetReg.isSome ∨
        f.pwmCpresReg.isSome ∨ "PWM" ∈ f.modes.getD [] then
      .error (.value ("Incomplete PWM registers of feature " ++ f.type.getD ""))
    else .ok none

def digitalOutput (p : IOParser) (pwm : Option (ℕ × PwmFrequency)) (f : Feature) (i : ℕ) :
    Except FeatureError Device := do
  let valReg ← item "val_reg" f.valReg
  return .digitalOutput
    { devtype := "do"
      circuit := p.ioCircuit i f
      coil := outputCoil f i
      reg := bitReg valReg i
      mask := bitMask i
      modes := f.modes.getD ["Simple"]
      pwm
      pwmDutyReg := if pwm.isSome then f.pwmReg.getD 0 + i else 0 }

/-- A DO without the PWM registers is a simple output. -/
def parseFeatureDo (p : IOParser) (maxCount : ℕ) (f : Feature) (s : System) :
    System × Except FeatureError Unit :=
  match pwmFrequency f with
  | .error e => (s, .error e)
  | .ok none =>
    createEach (p.digitalOutput none f) p.registerOutput (List.range maxCount) s
  | .ok (some pwm) =>
    let frequencies := s.frequencies p.client
    let s := { s with
      frequencies := Function.update s.frequencies p.client (frequencies ++ [pwm]) }
    createEach (p.digitalOutput (some (frequencies.length, pwm)) f) p.registerOutput
      (List.range maxCount) s

/-- One device by its constructor. -/
def parseSingle (p : IOParser) (create : Except FeatureError Device) (s : System) :
    System × Except FeatureError Unit :=
  createEach (fun _ => create) p.register (List.range 1) s

def parseFeatureOwpower (p : IOParser) (f : Feature) : System → System × Except FeatureError Unit :=
  p.parseSingle do
    let valCoil ← item "val_coil" f.valCoil
    return .owPower { circuit := p.circuit, coil := valCoil }

def parseFeatureNvSave (p : IOParser) (f : Feature) : System → System × Except FeatureError Unit :=
  p.parseSingle do
    let valCoil ← item "val_coil" f.valCoil
    return .nvSave { circuit := p.circuit, coil := valCoil }

def parseFeatureWd (p : IOParser) (f : Feature) : System → System × Except FeatureError Unit :=
  p.parseSingle do
    let valReg ← item "val_reg" f.valReg
    let timeoutReg ← item "timeout_reg" f.timeoutReg
    let resetCoil ← item "reset_coil" f.resetCoil
    return .watchdog
      { circuit := p.circuit, majorGroup := p.circuit, reg := valReg, timeoutReg, resetCoil }

/-! ### Analog features -/

/-- The mode with the datatype of its transformation, an unknown one raises `ValueError`. -/
def modeData (name : String) (mode : String × ModeSource) :
    Except FeatureError (String × ModeData) :=
  let datatype := mode.2.datatype.getD "float32"
  match accessorClass .little datatype with
  | none => .error (.value s!"{name}: unknown datatype \"{datatype}\" of mode \"{mode.1}\"")
  | some type => .ok (mode.1,
      { value := mode.2.value
        unit := mode.2.unit
        range := mode.2.range
        transformation :=
          { datatype := type
            ratio := mode.2.ratio
            offset := mode.2.offset
            decimals := mode.2.decimals } })

/-- The values of the mode register, a duplicate one raises `ValueError`. -/
def checkModes (name : String) : List (ℤ × String) → List (String × ModeData) →
    Except FeatureError Unit
  | _, [] => .ok ()
  | values, (mode, data) :: modes =>
    match data.value with
    | none => checkModes name values modes
    | some value =>
      match values.lookup value with
      | some first => .error (.value
          s!"{name}: modes \"{first}\" and \"{mode}\" have the same value {value}")
      | none => checkModes name (values ++ [(value, mode)]) modes

/-- The modes of `AnalogInput` and `AnalogOutput`, checked with a mode register. -/
def analogModes (name : String) (f : Feature) (regmode : Option ℕ) :
    Except FeatureError (List (String × ModeData)) := do
  let modes ← (← item "modes" f.ioModes).mapM (modeData name)
  if regmode.isSome then checkModes name [] modes
  return modes

/-- The circuit of an analog IO, without `start_index`. -/
def analogCircuit (p : IOParser) (i : ℕ) : String :=
  s!"{p.circuit}_{twoDigits (i + 1)}"

def analogOutput (p : IOParser) (f : Feature) (i : ℕ) : Except FeatureError Device := do
  let valReg ← item "val_reg" f.valReg
  let circuit := p.analogCircuit i
  let modes ← analogModes s!"AO {circuit}" f f.modeReg
  return .analog (.analogOutput circuit (valReg + i) f.modeReg modes)

def parseFeatureAo (p : IOParser) (maxCount : ℕ) (f : Feature) :
    System → System × Except FeatureError Unit :=
  createEach (p.analogOutput f) p.register (List.range maxCount)

/-- The Brain AO is a single output. -/
def parseFeatureBao (p : IOParser) (maxCount : ℕ) (f : Feature) (s : System) :
    System × Except FeatureError Unit :=
  if 1 < maxCount then
    (s, .error (.value s!"BAO can have only one output, count is {maxCount}"))
  else if maxCount < 1 then (s, .ok ())
  else
    p.parseSingle (do
      let valReg ← item "val_reg" f.valReg
      return .analog (.analogOutputBrain s!"{p.circuit}_01" valReg f.modeReg f.resValReg)) s

def analogInput (p : IOParser) (f : Feature) (i : ℕ) : Except FeatureError Device := do
  let valReg ← item "val_reg" f.valReg
  let circuit := p.analogCircuit i
  let regmode := f.modeReg.map (· + i)
  let modes ← analogModes s!"AI {circuit}" f regmode
  return .analog (.analogInput circuit (valReg + i * 2) regmode modes)

def parseFeatureAi (p : IOParser) (maxCount : ℕ) (f : Feature) :
    System → System × Except FeatureError Unit :=
  createEach (p.analogInput f) p.register (List.range maxCount)

/-! ### Registers and data points -/

def registerPoint (p : IOParser) (f : Feature) (i : ℕ) : Except FeatureError Device := do
  let startReg ← item "start_reg" f.startReg
  if f.regType = some "input" then
    return .dataPoint (.register s!"{p.circuit}_{startReg + i}_inp" (startReg + i) true)
  else
    return .dataPoint (.register s!"{p.circuit}_{startReg + i}" (startReg + i) false)

/-- Deprecated, a data point of `uint16` is the same register. -/
def parseFeatureRegister (p : IOParser) (maxCount : ℕ) (f : Feature) :
    System → System × Except FeatureError Unit :=
  createEach (p.registerPoint f) p.register (List.range maxCount)

/-- A feature with `valid_mask_reg` has `OwTemperature`. -/
def pointKind (f : Feature) (i : ℕ) : DataPointKind :=
  match f.validMaskReg with
  | some validMaskReg => .owTemperature validMaskReg (1 <<< i)
  | none => .dataPoint

/-- 16-bit datatypes are signed by default. -/
def pointDatatype (f : Feature) : String :=
  (f.datatype.filter (· ≠ "")).getD "signed16"

/-- The constructor of `DataPoint` and `OwTemperature`, 32-bit values are high word first; the
accessor cannot have the factor 0. -/
def dataPoint (p : IOParser) (f : Feature) (reg i : ℕ) : Except FeatureError DataPoint :=
  let circuit := s!"{p.circuit}_{reg}"
  let datatype := pointDatatype f
  if f.writable ∧ f.regType = some "input" then
    .error (.value s!"Data point {circuit}: an input register cannot be writable")
  else
    match accessorClass .big datatype with
    | none => .error (.value s!"Data point {circuit}: unknown datatype \"{datatype}\"")
    | some type =>
      let point : DataPoint :=
        { kind := pointKind f i
          circuit
          reg
          isInput := f.regType = some "input"
          datatype := type
          unit := f.unit
          offset := f.offset
          factor := f.factor
          name := f.name
          writable := f.writable }
      (point.accessor.make.map fun _ => point).mapError .value

/-- The data points follow each other, a 32-bit one takes two registers. -/
def createDataPoints (p : IOParser) (f : Feature) :
    List ℕ → ℕ → System → System × Except FeatureError Unit
  | [], _, s => (s, .ok ())
  | i :: is, reg, s =>
    match p.dataPoint f reg i with
    | .error e => (s, .error e)
    | .ok d =>
      match p.register (.dataPoint d) s with
      | (s, .error e) => (s, .error e)
      | (s, .ok ()) => createDataPoints p f is (reg + d.accessor.type.count) s

def parseFeatureDataPoint (p : IOParser) (maxCount : ℕ) (f : Feature) (s : System) :
    System × Except FeatureError Unit :=
  match item "value_reg" f.valueReg with
  | .error e => (s, .error e)
  | .ok reg => p.createDataPoints f (List.range maxCount) reg s

def parseFeature (p : IOParser) (f : Feature) (s : System) : System × Except FeatureError Unit :=
  match f.type with
  | none => (s, .error (.key "type"))
  | some "DI" => p.parseFeatureDi f.count f s
  | some "RO" => p.parseFeatureRo f.count f s
  | some "DO" => p.parseFeatureDo f.count f s
  | some "LED" => p.parseFeatureLed f.count f s
  | some "AO" => p.parseFeatureAo f.count f s
  | some "BAO" => p.parseFeatureBao f.count f s
  | some "AI" => p.parseFeatureAi f.count f s
  | some "REGISTER" => p.parseFeatureRegister f.count f s
  | some "DATA_POINT" => p.parseFeatureDataPoint f.count f s
  | some "WD" => p.parseFeatureWd f s
  | some "OWPOWER" => p.parseFeatureOwpower f s
  | some "NV_SAVE" => p.parseFeatureNvSave f s
  -- an unknown feature is logged
  | some _ => (s, .ok ())

/-- An invalid feature is skipped, the other devices of the unit are created. -/
def populate (p : IOParser) (s : System) : System :=
  p.hwFeatures.foldl (fun s f => (p.parseFeature f s).1) s

end IOParser

end Modbus

end Evok
