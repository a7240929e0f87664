import Evok.Library.Fold
import Evok.Modbus.Builder

/-!
# What a feature creates

A feature creates its IOs in turn. Each of them has its own circuit and for each of its uses its own
coils, bits and registers, so only a device of an earlier feature or of another unit can refuse one of
them. The mode register of the analog outputs and the registers of the PWM frequency are the same for
all devices of a feature.

## Main definitions

* `Plan` : the devices of a feature, before it is known which ones are registered.
* `IOParser.plan` : the plan of a feature.
* `Device.cells` : the own registers, bits and coils of a device, by what it uses them for.
* `Device.shared` : the registers it shares with the other devices of its feature.

## Main results

* `IOParser.parseFeature_eq` : a feature creates the devices of its plan in turn.
* `IOParser.plan_sound` : the devices of a plan have different circuits and cells, and the same shared
  registers.
-/

namespace Evok

namespace Modbus

/-! ## Cells -/

/-- A part of the memory of a unit: a coil, a register, or the bits of a register. -/
inductive Cell
  | coil (index : ℕ)
  | word (index : ℕ) (isInput : Bool)
  | bits (index : ℕ) (mask : Word) (isInput : Bool)
  deriving DecidableEq

/-- What a device uses a part of the memory for. -/
inductive Use
  | coil
  | value
  | duty
  | counter
  | debounce
  | mode
  | directSwitch
  | polarity
  | toggle
  | valid
  | resistance
  | timeout
  deriving DecidableEq

namespace Device

/-- The outputs have a sequencer device. -/
def isOutput : Device → Bool
  | binaryOutput _ | digitalOutput _ => true
  | _ => false

/-- The PWM frequency of an output. -/
def pwm : Device → Option (ℕ × PwmFrequency)
  | digitalOutput d => d.pwm
  | _ => none

/-- The registers of a value. -/
def wordCells (reg count : ℕ) (isInput : Bool) : List Cell :=
  (List.range count).map fun k => .word (reg + k) isInput

/-- A holding register, if it is given. -/
def optional (reg : Option ℕ) : List Cell :=
  reg.toList.map (.word · false)

/-- Bits of a holding register, if it is given. -/
def optionalBits (mask : Word) (reg : Option ℕ) : List Cell :=
  reg.toList.map (.bits · mask false)

def outputCells (d : BinaryOutput) : Use → List Cell
  | .coil => d.coil.toList.map .coil
  | .value => [.bits d.reg d.mask false]
  | _ => []

/-- The cells which a device has for itself, by their use. -/
def cells : Device → Use → List Cell
  | binaryOutput d, use => outputCells d use
  | digitalOutput d, .duty => if d.pwm.isSome then [.word d.pwmDutyReg false] else []
  | digitalOutput d, use => outputCells d.toBinaryOutput use
  | digitalInput d, .value => [.bits d.reg d.mask false]
  | digitalInput d, .counter => d.regcounter.toList.flatMap (wordCells · 2 false)
  | digitalInput d, .debounce => optional d.regdebounce
  | digitalInput d, .directSwitch => optionalBits d.mask d.regmode
  | digitalInput d, .polarity => optionalBits d.mask d.regpolarity
  | digitalInput d, .toggle => optionalBits d.mask d.regtoggle
  | analog d, .value => wordCells d.reg (if d.kind = .output then 1 else 2) false
  | analog d, .mode => if d.kind = .input then optional d.iomode.index else []
  | analog d, .resistance =>
    match d.kind with
    | .brain regRes => regRes.toList.flatMap (wordCells · 2 false)
    | _ => []
  | dataPoint d, .value => wordCells d.reg d.datatype.count d.isInput
  | dataPoint d, .valid =>
    match d.kind with
    -- a mask over the 16 bits has no bit
    | .owTemperature validMaskReg mask =>
      if mask = 0 then [] else [.bits validMaskReg mask d.isInput]
    | _ => []
  | owPower d, .coil => [.coil d.coil]
  | nvSave d, .coil => [.coil d.coil]
  | watchdog d, .value => [.word d.reg false]
  | watchdog d, .timeout => [.word d.timeoutReg false]
  | watchdog d, .coil => if 0 ≤ d.resetCoil then [.coil d.resetCoil.toNat] else []
  | _, _ => []

/-- The registers of a PWM frequency, if there is one. -/
def frequencyCells : Option PwmFrequency → List Cell
  | some (.hard regcycle regprescale) => [.word regcycle false, .word regprescale false]
  | some (.soft regpreset regprescale) => [.word regpreset false, .word regprescale false]
  | none => []

/-- The registers of the PWM frequency of an output, the mode register of an analog output. -/
def shared : Device → List Cell
  | digitalOutput d => frequencyCells (d.pwm.map (·.2))
  | analog d => if d.kind = .input then [] else optional d.iomode.index
  | _ => []

/-- Two devices with different circuits, and different cells for each use. -/
structure Apart (d e : Device) : Prop where
  circuit : d.circuit ≠ e.circuit
  cells : ∀ use, List.Disjoint (d.cells use) (e.cells use)

end Device

/-! ## Plans -/

/-- The devices of a feature. -/
structure Plan where
  create : ℕ → Except FeatureError Device
  count : ℕ
  /-- A new frequency of the client. -/
  frequency : Option PwmFrequency := none

namespace IOParser

/-- The registers of a data point. -/
def pointSize (f : Feature) : ℕ :=
  ((accessorClass .big (pointDatatype f)).map DataType.count).getD 0

/-- The plan of a feature, `id` is the index of the next frequency of the client. -/
def plan (p : IOParser) (id : ℕ) (f : Feature) : Except FeatureError Plan :=
  match f.type with
  | none => .error (.key "type")
  | some "DI" => .ok ⟨p.digitalInput f, f.count, none⟩
  | some "RO" => .ok ⟨p.binaryOutput "ro" f, f.count, none⟩
  | some "DO" => (pwmFrequency f).map fun frequency =>
    ⟨p.digitalOutput (frequency.map (id, ·)) f, f.count, frequency⟩
  | some "LED" => .ok ⟨p.binaryOutput "led" f, f.count, none⟩
  | some "AO" => .ok ⟨p.analogOutput f, f.count, none⟩
  | some "BAO" =>
    if 1 < f.count then .error (.value s!"BAO can have only one output, count is {f.count}")
    else .ok ⟨fun _ => do
      let valReg ← item "val_reg" f.valReg
      return .analog (.analogOutputBrain s!"{p.circuit}_01" valReg f.modeReg f.resValReg),
      f.count, none⟩
  | some "AI" => .ok ⟨p.analogInput f, f.count, none⟩
  | some "REGISTER" => .ok ⟨p.registerPoint f, f.count, none⟩
  | some "DATA_POINT" => (item "value_reg" f.valueReg).map fun reg =>
    ⟨fun i => (p.dataPoint f (reg + i * pointSize f) i).map .dataPoint, f.count, none⟩
  | some "WD" => .ok ⟨fun _ => do
      let valReg ← item "val_reg" f.valReg
      let timeoutReg ← item "timeout_reg" f.timeoutReg
      let resetCoil ← item "reset_coil" f.resetCoil
      return .watchdog
        { circuit := p.circuit, majorGroup := p.circuit, reg := valReg, timeoutReg, resetCoil },
    1, none⟩
  | some "OWPOWER" => .ok ⟨fun _ => do
      let valCoil ← item "val_coil" f.valCoil
      return .owPower { circuit := p.circuit, coil := valCoil }, 1, none⟩
  | some "NV_SAVE" => .ok ⟨fun _ => do
      let valCoil ← item "val_coil" f.valCoil
      return .nvSave { circuit := p.circuit, coil := valCoil }, 1, none⟩
  | some _ => .ok ⟨fun _ => .error (.key ""), 0, none⟩

/-- Register a device, an output with its sequencer device. -/
def registerAny (p : IOParser) (d : Device) (s : System) : System × Except FeatureError Unit :=
  if d.isOutput then p.registerOutput d s else p.register d s

variable {p : IOParser} {f : Feature}

theorem createEach_congr {create : ℕ → Except FeatureError Device}
    {register register' : Device → System → System × Except FeatureError Unit} {is : List ℕ}
    (same : ∀ i d, create i = .ok d → register d = register' d) (s : System) :
    createEach create register is s = createEach create register' is s := by
  induction is generalizing s with
  | nil => rfl
  | cons i is ih =>
    rw [createEach, createEach]
    cases hcreate : create i with
    | error e => rfl
    | ok d =>
      dsimp only
      rw [same i d hcreate]
      obtain ⟨s', result⟩ := register' d s
      cases result with
      | error e => rfl
      | ok _ => exact ih s'

/-- A feature whose devices are all outputs, or none of them. -/
theorem createEach_registerAny {create : ℕ → Except FeatureError Device} {is : List ℕ} {o : Bool}
    (outputs : ∀ i d, create i = .ok d → d.isOutput = o) (s : System) :
    createEach create (if o then p.registerOutput else p.register) is s =
      createEach create p.registerAny is s := by
  refine createEach_congr (fun i d hd => ?_) s
  funext s
  rw [registerAny, outputs i d hd]
  cases o <;> rfl

/-! ## The constructors -/

theorem item_ok {α : Type} {key : String} {x : Option α} {a : α} :
    item key x = .ok a ↔ x = some a := by
  cases x <;> simp [item]

theorem pure_ok {α : Type} {a b : α} : (pure a : Except FeatureError α) = .ok b ↔ a = b := by
  simp [pure, Except.pure]

theorem mapError_ok {α ε ε' : Type} {g : ε → ε'} {x : Except ε α} {a : α} :
    x.mapError g = .ok a ↔ x = .ok a := by
  cases x <;> simp [Except.mapError]

theorem digitalInput_ok {i : ℕ} {d : Device} (h : p.digitalInput f i = .ok d) :
    ∃ valReg debounReg counterReg modes, f.valReg = some valReg ∧ f.debounReg = some debounReg ∧
      f.counterReg = some counterReg ∧ d = .digitalInput (directSwitch f i
        { circuit := p.ioCircuit i f
          reg := bitReg valReg i
          mask := bitMask i
          regdebounce := some (debounReg + i)
          regcounter := some (counterReg + 2 * i)
          modes }) := by
  simp only [digitalInput, Fold.bind_eq_ok, item_ok, pure_ok] at h
  obtain ⟨valReg, hval, debounReg, hdeboun, counterReg, hcounter, modes, -, rfl⟩ := h
  exact ⟨valReg, debounReg, counterReg, modes, hval, hdeboun, hcounter, rfl⟩

theorem binaryOutput_ok {devtype : String} {i : ℕ} {d : Device}
    (h : p.binaryOutput devtype f i = .ok d) :
    ∃ valReg, f.valReg = some valReg ∧ d = .binaryOutput
      { devtype
        circuit := p.ioCircuit i f
        coil := outputCoil f i
        reg := bitReg valReg i
        mask := bitMask i } := by
  simp only [binaryOutput, Fold.bind_eq_ok, item_ok, pure_ok] at h
  obtain ⟨valReg, hval, rfl⟩ := h
  exact ⟨valReg, hval, rfl⟩

theorem digitalOutput_ok {pwm : Option (ℕ × PwmFrequency)} {i : ℕ} {d : Device}
    (h : p.digitalOutput pwm f i = .ok d) :
    ∃ valReg, f.valReg = some valReg ∧ d = .digitalOutput
      { devtype := "do"
        circuit := p.ioCircuit i f
        coil := outputCoil f i
        reg := bitReg valReg i
        mask := bitMask i
        modes := f.modes.getD ["Simple"]
        pwm
        pwmDutyReg := if pwm.isSome then f.pwmReg.getD 0 + i else 0 } := by
  simp only [digitalOutput, Fold.bind_eq_ok, item_ok, pure_ok] at h
  obtain ⟨valReg, hval, rfl⟩ := h
  exact ⟨valReg, hval, rfl⟩

theorem analogOutput_ok {i : ℕ} {d : Device} (h : p.analogOutput f i = .ok d) :
    ∃ valReg modes, f.valReg = some valReg ∧
      d = .analog (.analogOutput (p.analogCircuit i) (valReg + i) f.modeReg modes) := by
  simp only [analogOutput, Fold.bind_eq_ok, item_ok, pure_ok] at h
  obtain ⟨valReg, hval, modes, -, rfl⟩ := h
  exact ⟨valReg, modes, hval, rfl⟩

theorem analogInput_ok {i : ℕ} {d : Device} (h : p.analogInput f i = .ok d) :
    ∃ valReg modes, f.valReg = some valReg ∧
      d = .analog (.analogInput (p.analogCircuit i) (valReg + i * 2) (f.modeReg.map (· + i))
        modes) := by
  simp only [analogInput, Fold.bind_eq_ok, item_ok, pure_ok] at h
  obtain ⟨valReg, hval, modes, -, rfl⟩ := h
  exact ⟨valReg, modes, hval, rfl⟩

/-- The end of the circuit of a register. -/
def registerSuffix (f : Feature) : String :=
  if f.regType = some "input" then "_inp" else ""

theorem registerPoint_ok {i : ℕ} {d : Device} (h : p.registerPoint f i = .ok d) :
    ∃ startReg, f.startReg = some startReg ∧ d = .dataPoint (.register
      (s!"{p.circuit}_{startReg + i}" ++ registerSuffix f) (startReg + i)
      (f.regType = some "input")) := by
  simp only [registerPoint, Fold.bind_eq_ok, item_ok] at h
  obtain ⟨startReg, hstart, h⟩ := h
  refine ⟨startReg, hstart, ?_⟩
  split at h
  · next hinput =>
    obtain rfl := pure_ok.mp h
    simp only [registerSuffix, hinput, if_true, decide_true]
    rfl
  · next hinput =>
    obtain rfl := pure_ok.mp h
    simp only [registerSuffix, hinput, if_false, decide_false, String.append_empty]

theorem dataPoint_ok {reg i : ℕ} {d : DataPoint} (h : p.dataPoint f reg i = .ok d) :
    ∃ type, accessorClass .big (pointDatatype f) = some type ∧
      d.circuit = s!"{p.circuit}_{reg}" ∧ d.reg = reg ∧ d.datatype = type ∧
      d.isInput = decide (f.regType = some "input") ∧
      d.kind = pointKind f i := by
  unfold dataPoint at h
  dsimp only at h
  split at h
  · cases h
  · split at h
    · cases h
    · next type htype =>
      obtain ⟨_, -, rfl⟩ := Fold.map_eq_ok.mp (mapError_ok.mp h)
      exact ⟨type, htype, rfl, rfl, rfl, rfl, rfl⟩

theorem dataPoint_count {reg i : ℕ} {d : DataPoint} (h : p.dataPoint f reg i = .ok d) :
    d.datatype.count = pointSize f := by
  obtain ⟨type, htype, -, -, hdatatype, -⟩ := dataPoint_ok h
  rw [pointSize, htype, hdatatype]
  rfl

/-- The data points follow each other by their size. -/
theorem createDataPoints_eq (reg k n : ℕ) (s : System) :
    p.createDataPoints f (List.range' k n) (reg + k * pointSize f) s =
      createEach (fun i => (p.dataPoint f (reg + i * pointSize f) i).map .dataPoint) p.register
        (List.range' k n) s := by
  induction n generalizing k s with
  | zero => rfl
  | succ n ih =>
    rw [List.range'_succ, createDataPoints, createEach]
    cases hd : p.dataPoint f (reg + k * pointSize f) k with
    | error e => rfl
    | ok d =>
      have hnext : reg + k * pointSize f + d.accessor.type.count =
          reg + (k + 1) * pointSize f := by
        rw [DataPoint.accessor, dataPoint_count hd]
        ring
      simp only [Except.map, hnext]
      obtain ⟨s', result⟩ := p.register (.dataPoint d) s
      cases result with
      | error e => rfl
      | ok _ => exact ih (k + 1) s'

/-! ## Circuits and cells -/

theorem ofDigitChars_toString (n : ℕ) : Nat.ofDigitChars 10 (toString n).toList 0 = n := by
  show Nat.ofDigitChars 10 (Nat.repr n).toList 0 = n
  simp [Nat.repr]

theorem ofDigitChars_twoDigits (n : ℕ) : Nat.ofDigitChars 10 (twoDigits n).toList 0 = n := by
  unfold twoDigits
  split
  · next h =>
    have hall : ∀ n < 10, Nat.ofDigitChars 10 ("0" ++ Nat.repr n).toList 0 = n := by decide
    exact hall n h
  · exact ofDigitChars_toString n

theorem twoDigits_inj {m n : ℕ} (h : twoDigits m = twoDigits n) : m = n := by
  rw [← ofDigitChars_twoDigits m, h, ofDigitChars_twoDigits]

/-- A text follows the name of the unit. -/
theorem append_inj_right {a b c : String} (h : a ++ b = a ++ c) : b = c := by
  have hlist : a.toList ++ b.toList = a.toList ++ c.toList := by
    rw [← String.toList_append, ← String.toList_append, h]
  exact String.toList_inj.mp (List.append_cancel_left hlist)

theorem append_inj_left {a b c : String} (h : b ++ a = c ++ a) : b = c := by
  have hlist : b.toList ++ a.toList = c.toList ++ a.toList := by
    rw [← String.toList_append, ← String.toList_append, h]
  exact String.toList_inj.mp (List.append_cancel_right hlist)

theorem ioCircuit_inj {i j : ℕ} (h : p.ioCircuit i f = p.ioCircuit j f) : i = j := by
  have := twoDigits_inj (append_inj_right h)
  omega

theorem analogCircuit_inj {i j : ℕ} (h : p.analogCircuit i = p.analogCircuit j) : i = j := by
  have := twoDigits_inj (append_inj_right h)
  omega

theorem regCircuit_inj {m n : ℕ} (h : s!"{p.circuit}_{m}" = s!"{p.circuit}_{n}") : m = n := by
  have heq : toString m = toString n := append_inj_right h
  rw [← ofDigitChars_toString m, heq, ofDigitChars_toString]

theorem bitMask_inj {i j : ℕ} (h : bitMask i = bitMask j) : i % 16 = j % 16 := by
  have hall : ∀ a < 16, ∀ b < 16, ((1 <<< a : ℕ) : Word) = ((1 <<< b : ℕ) : Word) → a = b := by
    decide
  exact hall _ (Nat.mod_lt _ (by decide)) _ (Nat.mod_lt _ (by decide)) h

/-- Two IOs of a feature do not have the same bit. -/
theorem bit_inj {reg i j : ℕ} (hreg : bitReg reg i = bitReg reg j)
    (hmask : bitMask i = bitMask j) : i = j := by
  have hmod := bitMask_inj hmask
  unfold bitReg at hreg
  omega

/-- The validity bits of the first 16 data points. -/
theorem validMask_inj {i j : ℕ} (h : ((1 <<< i : ℕ) : Word) = ((1 <<< j : ℕ) : Word))
    (hne : ((1 <<< i : ℕ) : Word) ≠ 0) : i = j := by
  have hzero : ∀ k, 16 ≤ k → ((1 <<< k : ℕ) : Word) = 0 := by
    intro k hk
    obtain ⟨m, rfl⟩ := Nat.exists_eq_add_of_le hk
    rw [Nat.one_shiftLeft, pow_add]
    exact BitVec.eq_of_toNat_eq (by simp)
  have hi : i < 16 := by
    by_contra hi
    exact hne (hzero i (by omega))
  have hj : j < 16 := by
    by_contra hj
    exact hne (h.trans (hzero j (by omega)))
  have hall : ∀ a < 16, ∀ b < 16, ((1 <<< a : ℕ) : Word) = ((1 <<< b : ℕ) : Word) → a = b := by
    decide
  exact hall i hi j hj h

variable {i j : ℕ} {d e : Device}

@[simp] theorem directSwitch_circuit (d : DigitalInput) :
    (directSwitch f i d).circuit = d.circuit := by
  unfold directSwitch
  split <;> rfl

theorem disjoint_wordCells {reg reg' count : ℕ} (isInput : Bool)
    (h : reg + count ≤ reg' ∨ reg' + count ≤ reg) :
    List.Disjoint (Device.wordCells reg count isInput) (Device.wordCells reg' count isInput) := by
  simp only [List.Disjoint, Device.wordCells, List.mem_map, List.mem_range]
  rintro _ ⟨k, hk, rfl⟩ ⟨l, hl, heq⟩
  injection heq with heq
  omega

/-- Registers of two IOs. -/
theorem disjoint_word (hne : i ≠ j) (reg : ℕ) (isInput : Bool) :
    List.Disjoint [Cell.word (reg + i) isInput] [.word (reg + j) isInput] := by
  simp [Ne.symm hne]

/-- Bits of two IOs in the registers of their feature. -/
theorem disjoint_bits (hne : i ≠ j) (reg : ℕ) (isInput : Bool) :
    List.Disjoint [Cell.bits (bitReg reg i) (bitMask i) isInput]
      [.bits (bitReg reg j) (bitMask j) isInput] := by
  simpa using fun hreg hmask => hne (bit_inj hreg hmask).symm

theorem apart_digitalInput (hne : i ≠ j) (hd : p.digitalInput f i = .ok d)
    (he : p.digitalInput f j = .ok e) : d.Apart e := by
  obtain ⟨valReg, debounReg, counterReg, modes, hval, hdeboun, hcounter, rfl⟩ := digitalInput_ok hd
  obtain ⟨valReg', debounReg', counterReg', modes', hval', hdeboun', hcounter', rfl⟩ :=
    digitalInput_ok he
  obtain rfl := Option.some.inj (hval.symm.trans hval')
  obtain rfl := Option.some.inj (hdeboun.symm.trans hdeboun')
  obtain rfl := Option.some.inj (hcounter.symm.trans hcounter')
  refine ⟨fun h => ?_, fun use => ?_⟩
  · rw [Device.circuit, Device.circuit, directSwitch_circuit, directSwitch_circuit] at h
    exact hne (ioCircuit_inj h)
  have hbits := @disjoint_bits i j hne
  have hcount : List.Disjoint (Device.wordCells (counterReg + 2 * i) 2 false)
      (Device.wordCells (counterReg + 2 * j) 2 false) := disjoint_wordCells _ (by omega)
  have hdebounce := disjoint_word hne debounReg false
  unfold directSwitch
  split
  · cases use with
    | value | directSwitch | polarity | toggle => exact hbits _ false
    | counter => simpa [Device.cells] using hcount
    | debounce => exact hdebounce
    | _ => exact List.disjoint_nil_left _
  · cases use with
    | value => exact hbits _ false
    | counter => simpa [Device.cells] using hcount
    | debounce => exact hdebounce
    | _ => exact List.disjoint_nil_left _

theorem disjoint_outputCells (f : Feature) (devtype : String) (valReg : ℕ)
    {circuit circuit' : String} (hne : i ≠ j) (use : Use) : List.Disjoint
      (Device.outputCells ⟨devtype, circuit, outputCoil f i, bitReg valReg i, bitMask i⟩ use)
      (Device.outputCells ⟨devtype, circuit', outputCoil f j, bitReg valReg j, bitMask j⟩ use) := by
  cases use with
  | coil =>
    unfold outputCoil
    cases f.valCoil with
    | none => exact List.disjoint_nil_left _
    | some coil => simpa [Device.outputCells] using hne.symm
  | value => exact disjoint_bits hne valReg false
  | _ => exact List.disjoint_nil_left _

theorem apart_binaryOutput {devtype : String} (hne : i ≠ j)
    (hd : p.binaryOutput devtype f i = .ok d) (he : p.binaryOutput devtype f j = .ok e) :
    d.Apart e := by
  obtain ⟨valReg, hval, rfl⟩ := binaryOutput_ok hd
  obtain ⟨valReg', hval', rfl⟩ := binaryOutput_ok he
  obtain rfl := Option.some.inj (hval.symm.trans hval')
  exact ⟨fun h => hne (ioCircuit_inj h), disjoint_outputCells f _ _ hne⟩

theorem apart_digitalOutput {pwm : Option (ℕ × PwmFrequency)} (hne : i ≠ j)
    (hd : p.digitalOutput pwm f i = .ok d) (he : p.digitalOutput pwm f j = .ok e) :
    d.Apart e := by
  obtain ⟨valReg, hval, rfl⟩ := digitalOutput_ok hd
  obtain ⟨valReg', hval', rfl⟩ := digitalOutput_ok he
  obtain rfl := Option.some.inj (hval.symm.trans hval')
  refine ⟨fun h => hne (ioCircuit_inj h), fun use => ?_⟩
  cases use with
  | duty =>
    cases pwm with
    | none => exact List.disjoint_nil_left _
    | some pwm =>
      exact disjoint_word hne (f.pwmReg.getD 0) false
  | coil => exact disjoint_outputCells f "do" valReg hne .coil
  | value => exact disjoint_outputCells f "do" valReg hne .value
  | _ => exact List.disjoint_nil_left _

theorem apart_analogOutput (hne : i ≠ j) (hd : p.analogOutput f i = .ok d)
    (he : p.analogOutput f j = .ok e) : d.Apart e := by
  obtain ⟨valReg, modes, hval, rfl⟩ := analogOutput_ok hd
  obtain ⟨valReg', modes', hval', rfl⟩ := analogOutput_ok he
  obtain rfl := Option.some.inj (hval.symm.trans hval')
  refine ⟨fun h => hne (analogCircuit_inj h), fun use => ?_⟩
  cases use with
  | value =>
    show List.Disjoint (Device.wordCells (valReg + i) 1 false) (Device.wordCells (valReg + j) 1 false)
    exact disjoint_wordCells _ (by omega)
  | _ => exact List.disjoint_nil_left _

theorem apart_analogInput (hne : i ≠ j) (hd : p.analogInput f i = .ok d)
    (he : p.analogInput f j = .ok e) : d.Apart e := by
  obtain ⟨valReg, modes, hval, rfl⟩ := analogInput_ok hd
  obtain ⟨valReg', modes', hval', rfl⟩ := analogInput_ok he
  obtain rfl := Option.some.inj (hval.symm.trans hval')
  refine ⟨fun h => hne (analogCircuit_inj h), fun use => ?_⟩
  cases use with
  | value =>
    show List.Disjoint (Device.wordCells (valReg + i * 2) 2 false)
      (Device.wordCells (valReg + j * 2) 2 false)
    exact disjoint_wordCells _ (by omega)
  | mode =>
    show List.Disjoint (Device.optional (f.modeReg.map (· + i)))
      (Device.optional (f.modeReg.map (· + j)))
    cases f.modeReg with
    | none => exact List.disjoint_nil_left _
    | some modeReg =>
      exact disjoint_word hne modeReg false
  | _ => exact List.disjoint_nil_left _

theorem apart_registerPoint (hne : i ≠ j) (hd : p.registerPoint f i = .ok d)
    (he : p.registerPoint f j = .ok e) : d.Apart e := by
  obtain ⟨startReg, hstart, rfl⟩ := registerPoint_ok hd
  obtain ⟨startReg', hstart', rfl⟩ := registerPoint_ok he
  obtain rfl := Option.some.inj (hstart.symm.trans hstart')
  refine ⟨fun h => ?_, fun use => ?_⟩
  · have := regCircuit_inj (append_inj_left h)
    omega
  · cases use with
    | value =>
      show List.Disjoint (Device.wordCells (startReg + i) 1 (f.regType = some "input"))
        (Device.wordCells (startReg + j) 1 (f.regType = some "input"))
      exact disjoint_wordCells _ (by omega)
    | _ => exact List.disjoint_nil_left _

theorem apart_dataPoint {reg : ℕ} {d e : DataPoint} (hne : i ≠ j)
    (hd : p.dataPoint f (reg + i * pointSize f) i = .ok d)
    (he : p.dataPoint f (reg + j * pointSize f) j = .ok e) :
    (Device.dataPoint d).Apart (.dataPoint e) := by
  have hcount := dataPoint_count hd
  have hcount' := dataPoint_count he
  obtain ⟨type, htype, hcircuit, hreg, hdatatype, hinput, hkind⟩ := dataPoint_ok hd
  obtain ⟨type', htype', hcircuit', hreg', hdatatype', hinput', hkind'⟩ := dataPoint_ok he
  have hpos : 0 < pointSize f := by
    rw [← hcount]
    cases d.datatype <;> exact Nat.succ_pos _
  -- the registers of an earlier point are before the ones of a later point
  have hsep : ∀ {i j : ℕ}, i < j → reg + i * pointSize f + pointSize f ≤ reg + j * pointSize f := by
    intro i j hlt
    have := Nat.mul_le_mul_right (pointSize f) (Nat.succ_le_of_lt hlt)
    rw [Nat.succ_mul] at this
    omega
  have hwords : List.Disjoint
      (Device.wordCells (reg + i * pointSize f) (pointSize f) (f.regType = some "input"))
      (Device.wordCells (reg + j * pointSize f) (pointSize f) (f.regType = some "input")) := by
    refine disjoint_wordCells _ ?_
    rcases Nat.lt_or_gt_of_ne hne with hlt | hlt
    · exact .inl (hsep hlt)
    · exact .inr (hsep hlt)
  refine ⟨fun h => ?_, fun use => ?_⟩
  · have heq := regCircuit_inj (hcircuit.symm.trans (h.trans hcircuit'))
    have := Nat.eq_of_mul_eq_mul_right hpos (Nat.add_left_cancel heq)
    exact hne this
  · cases use with
    | value =>
      rw [Device.cells, Device.cells, hreg, hreg', hcount, hcount', hinput, hinput']
      exact hwords
    | valid =>
      simp only [Device.cells, hkind, hkind', pointKind]
      cases f.validMaskReg with
      | none => exact List.disjoint_nil_left _
      | some validMaskReg =>
        dsimp only
        split
        · exact List.disjoint_nil_left _
        · next hmask =>
          split
          · exact List.disjoint_nil_right _
          · rw [List.disjoint_singleton, List.mem_singleton, Cell.bits.injEq]
            exact fun heq => hne (validMask_inj heq.2.1.symm hmask)
    | _ => exact List.disjoint_nil_left _

end IOParser

/-! ## Plans of the features -/

/-- The device types of the parser. -/
def ioTypes : List String :=
  ["di", "ro", "do", "led", "ao", "ai", "register", "data_point", "owpower", "nv_save", "watchdog"]

/-- The device types of the outputs. -/
def outputTypes : List String :=
  ["ro", "do", "led"]

/-- A device of the parser. -/
structure Typed (d : Device) : Prop where
  type : d.devtype ∈ ioTypes
  output : d.isOutput = true → d.devtype ∈ outputTypes

/-- What the devices of a feature have in common, and what not. -/
structure Plan.Sound (P : Plan) (id : ℕ) : Prop where
  typed : ∀ i d, P.create i = .ok d → Typed d
  devtype : ∀ i j d e, P.create i = .ok d → P.create j = .ok e → d.devtype = e.devtype
  pwm : ∀ i d, P.create i = .ok d → d.pwm = P.frequency.map (id, ·)
  shared : ∀ i j d e, P.create i = .ok d → P.create j = .ok e → d.shared = e.shared
  apart : ∀ i j d e, i < P.count → j < P.count → i ≠ j → P.create i = .ok d →
    P.create j = .ok e → d.Apart e

/-- A new PWM frequency of a client. -/
def System.addFrequency (s : System) (client : ℕ) (pwm : PwmFrequency) : System :=
  { s with frequencies := Function.update s.frequencies client (s.frequencies client ++ [pwm]) }

/-- A feature with a single device. -/
theorem sound_single {create : Except FeatureError Device} {count id : ℕ} (devtype : String)
    (hcount : count ≤ 1) (hdevtype : devtype ∈ ioTypes)
    (h : ∀ d, create = .ok d → d.devtype = devtype ∧ d.isOutput = false ∧ d.pwm = none) :
    Plan.Sound ⟨fun _ => create, count, none⟩ id where
  typed i d hd := by
    obtain ⟨htype, houtput, -⟩ := h d hd
    exact ⟨htype ▸ hdevtype, fun ho => by simp [houtput] at ho⟩
  devtype i j d e hd he := (h d hd).1.trans (h e he).1.symm
  pwm i d hd := (h d hd).2.2
  shared i j d e hd he := by
    obtain rfl := Except.ok.inj (hd.symm.trans he)
    rfl
  apart i j d e hi hj hne := by
    simp only at hi hj
    omega

/-- A feature of IOs of one class. -/
theorem sound_each {create : ℕ → Except FeatureError Device} {count id : ℕ} (devtype : String)
    (shared : List Cell) {frequency : Option PwmFrequency} (hdevtype : devtype ∈ ioTypes)
    (h : ∀ i d, create i = .ok d → d.devtype = devtype ∧
      (d.isOutput = true → devtype ∈ outputTypes) ∧ d.pwm = frequency.map (id, ·) ∧
      d.shared = shared)
    (hapart : ∀ i j d e, i ≠ j → create i = .ok d → create j = .ok e → d.Apart e) :
    Plan.Sound ⟨create, count, frequency⟩ id where
  typed i d hd := ⟨(h i d hd).1 ▸ hdevtype, fun ho => (h i d hd).1 ▸ (h i d hd).2.1 ho⟩
  devtype i j d e hd he := (h i d hd).1.trans (h j e he).1.symm
  pwm i d hd := (h i d hd).2.2.1
  shared i j d e hd he := (h i d hd).2.2.2.trans (h j e he).2.2.2.symm
  apart i j d e _ _ hne hd he := hapart i j d e hne hd he

namespace IOParser

variable {p : IOParser} {f : Feature}

/-- The devices of a feature have one type, different circuits and cells, and shared registers. -/
theorem plan_sound {id : ℕ} {P : Plan} (h : p.plan id f = .ok P) : P.Sound id := by
  unfold plan at h
  split at h
  · cases h
  · obtain rfl := Except.ok.inj h
    refine sound_each "di" [] (by decide) (fun i d hd => ?_)
      fun i j d e hne => apart_digitalInput hne
    obtain ⟨_, _, _, _, -, -, -, rfl⟩ := digitalInput_ok hd
    exact ⟨rfl, fun ho => (by cases ho), rfl, rfl⟩
  · obtain rfl := Except.ok.inj h
    refine sound_each "ro" [] (by decide) (fun i d hd => ?_)
      fun i j d e hne => apart_binaryOutput hne
    obtain ⟨_, -, rfl⟩ := binaryOutput_ok hd
    exact ⟨rfl, fun _ => by decide, rfl, rfl⟩
  · obtain ⟨frequency, -, rfl⟩ := Fold.map_eq_ok.mp h
    refine sound_each "do" (Device.frequencyCells frequency) (by decide) (fun i d hd => ?_)
      fun i j d e hne => apart_digitalOutput hne
    obtain ⟨_, -, rfl⟩ := digitalOutput_ok hd
    exact ⟨rfl, fun _ => by decide, rfl, by cases frequency <;> rfl⟩
  · obtain rfl := Except.ok.inj h
    refine sound_each "led" [] (by decide) (fun i d hd => ?_)
      fun i j d e hne => apart_binaryOutput hne
    obtain ⟨_, -, rfl⟩ := binaryOutput_ok hd
    exact ⟨rfl, fun _ => by decide, rfl, rfl⟩
  · obtain rfl := Except.ok.inj h
    refine sound_each "ao" (Device.optional f.modeReg) (by decide) (fun i d hd => ?_)
      fun i j d e hne => apart_analogOutput hne
    obtain ⟨_, _, -, rfl⟩ := analogOutput_ok hd
    exact ⟨rfl, fun ho => (by cases ho), rfl, rfl⟩
  · split at h
    · cases h
    · obtain rfl := Except.ok.inj h
      refine sound_single "ao" (by omega) (by decide) fun d hd => ?_
      obtain ⟨_, -, hd⟩ := Fold.bind_eq_ok.mp hd
      obtain rfl := pure_ok.mp hd
      exact ⟨rfl, rfl, rfl⟩
  · obtain rfl := Except.ok.inj h
    refine sound_each "ai" [] (by decide) (fun i d hd => ?_)
      fun i j d e hne => apart_analogInput hne
    obtain ⟨_, _, -, rfl⟩ := analogInput_ok hd
    exact ⟨rfl, fun ho => (by cases ho), rfl, rfl⟩
  · obtain rfl := Except.ok.inj h
    refine sound_each "register" [] (by decide) (fun i d hd => ?_)
      fun i j d e hne => apart_registerPoint hne
    obtain ⟨_, -, rfl⟩ := registerPoint_ok hd
    exact ⟨rfl, fun ho => (by cases ho), rfl, rfl⟩
  · obtain ⟨reg, -, rfl⟩ := Fold.map_eq_ok.mp h
    refine sound_each "data_point" [] (by decide) (fun i d hd => ?_)
      fun i j d e hne hd he => ?_
    · obtain ⟨d', hd', rfl⟩ := Fold.map_eq_ok.mp hd
      obtain ⟨_, -, -, -, -, -, hkind⟩ := dataPoint_ok hd'
      refine ⟨?_, fun ho => (by cases ho), rfl, rfl⟩
      rw [Device.devtype, hkind, pointKind]
      cases f.validMaskReg <;> rfl
    · obtain ⟨d', hd', rfl⟩ := Fold.map_eq_ok.mp hd
      obtain ⟨e', he', rfl⟩ := Fold.map_eq_ok.mp he
      exact apart_dataPoint hne hd' he'
  · obtain rfl := Except.ok.inj h
    refine sound_single "watchdog" le_rfl (by decide) fun d hd => ?_
    simp only [Fold.bind_eq_ok, pure_ok] at hd
    obtain ⟨_, -, _, -, _, -, rfl⟩ := hd
    exact ⟨rfl, rfl, rfl⟩
  · obtain rfl := Except.ok.inj h
    refine sound_single "owpower" le_rfl (by decide) fun d hd => ?_
    simp only [Fold.bind_eq_ok, pure_ok] at hd
    obtain ⟨_, -, rfl⟩ := hd
    exact ⟨rfl, rfl, rfl⟩
  · obtain rfl := Except.ok.inj h
    refine sound_single "nv_save" le_rfl (by decide) fun d hd => ?_
    simp only [Fold.bind_eq_ok, pure_ok] at hd
    obtain ⟨_, -, rfl⟩ := hd
    exact ⟨rfl, rfl, rfl⟩
  · obtain rfl := Except.ok.inj h
    refine sound_single "di" (Nat.zero_le 1) (by decide) fun d hd => ?_
    cases hd

/-! ## A feature creates its plan -/

/-- The devices of the feature, in turn. -/
def execute (p : IOParser) (P : Plan) (s : System) : System × Except FeatureError Unit :=
  createEach P.create p.registerAny (List.range P.count)
    (P.frequency.elim s (s.addFrequency p.client))

theorem execute_each {create : ℕ → Except FeatureError Device} (count : ℕ) {o : Bool}
    (outputs : ∀ i d, create i = .ok d → d.isOutput = o) (s : System) :
    createEach create (if o then p.registerOutput else p.register) (List.range count) s =
      p.execute ⟨create, count, none⟩ s :=
  createEach_registerAny outputs s

theorem parseFeatureBao_eq (p : IOParser) {f : Feature} (hcount : ¬1 < f.count) (s : System) :
    p.parseFeatureBao f.count f s = createEach (fun _ => do
      let valReg ← item "val_reg" f.valReg
      return .analog (.analogOutputBrain s!"{p.circuit}_01" valReg f.modeReg f.resValReg))
      p.register (List.range f.count) s := by
  unfold parseFeatureBao
  rw [if_neg hcount]
  rcases Nat.lt_or_ge f.count 1 with hzero | hone
  · rw [if_pos hzero, Nat.lt_one_iff.mp hzero]
    rfl
  · rw [if_neg (Nat.not_lt.mpr hone), Nat.le_antisymm (Nat.not_lt.mp hcount) hone]
    rfl

/-- A feature raises, or creates the devices of its plan in turn. -/
theorem parseFeature_eq (p : IOParser) (f : Feature) (s : System) :
    (∃ e, p.plan (s.frequencies p.client).length f = .error e ∧
      p.parseFeature f s = (s, .error e)) ∨
    ∃ P, p.plan (s.frequencies p.client).length f = .ok P ∧ p.parseFeature f s = p.execute P s := by
  unfold plan
  generalize htype : f.type = type
  split <;> rw [parseFeature, htype]
  · exact .inl ⟨_, rfl, rfl⟩
  · refine .inr ⟨_, rfl, execute_each _ (o := false) (fun i d hd => ?_) s⟩
    obtain ⟨_, _, _, _, -, -, -, rfl⟩ := digitalInput_ok hd
    rfl
  · refine .inr ⟨_, rfl, execute_each _ (o := true) (fun i d hd => ?_) s⟩
    obtain ⟨_, -, rfl⟩ := binaryOutput_ok hd
    rfl
  · unfold parseFeatureDo
    cases pwmFrequency f with
    | error e => exact .inl ⟨e, rfl, rfl⟩
    | ok frequency =>
      refine .inr ⟨_, rfl, ?_⟩
      cases frequency with
      | none =>
        refine execute_each _ (o := true) (fun i d hd => ?_) s
        obtain ⟨_, -, rfl⟩ := digitalOutput_ok hd
        rfl
      | some pwm =>
        refine createEach_registerAny (o := true) (fun i d hd => ?_) _
        obtain ⟨_, -, rfl⟩ := digitalOutput_ok hd
        rfl
  · refine .inr ⟨_, rfl, execute_each _ (o := true) (fun i d hd => ?_) s⟩
    obtain ⟨_, -, rfl⟩ := binaryOutput_ok hd
    rfl
  · refine .inr ⟨_, rfl, execute_each _ (o := false) (fun i d hd => ?_) s⟩
    obtain ⟨_, _, -, rfl⟩ := analogOutput_ok hd
    rfl
  · by_cases hcount : 1 < f.count
    · simp only [parseFeatureBao, if_pos hcount]
      exact .inl ⟨_, rfl, rfl⟩
    · simp only [if_neg hcount]
      refine .inr ⟨_, rfl, (p.parseFeatureBao_eq hcount s).trans ?_⟩
      refine execute_each _ (o := false) (fun i d hd => ?_) s
      obtain ⟨_, -, hd⟩ := Fold.bind_eq_ok.mp hd
      obtain rfl := pure_ok.mp hd
      rfl
  · refine .inr ⟨_, rfl, execute_each _ (o := false) (fun i d hd => ?_) s⟩
    obtain ⟨_, _, -, rfl⟩ := analogInput_ok hd
    rfl
  · refine .inr ⟨_, rfl, execute_each _ (o := false) (fun i d hd => ?_) s⟩
    obtain ⟨_, -, rfl⟩ := registerPoint_ok hd
    rfl
  · unfold parseFeatureDataPoint
    cases item "value_reg" f.valueReg with
    | error e => exact .inl ⟨e, rfl, rfl⟩
    | ok reg =>
      refine .inr ⟨_, rfl, ?_⟩
      have heq := p.createDataPoints_eq (f := f) reg 0 f.count s
      rw [Nat.zero_mul, Nat.add_zero, ← List.range_eq_range'] at heq
      refine heq.trans (execute_each _ (o := false) (fun i d hd => ?_) s)
      obtain ⟨d', -, rfl⟩ := Fold.map_eq_ok.mp hd
      rfl
  · dsimp only [parseFeatureWd, parseSingle]
    refine .inr ⟨_, rfl, execute_each 1 (o := false) (fun i d hd => ?_) s⟩
    simp only [Fold.bind_eq_ok, pure_ok] at hd
    obtain ⟨_, -, _, -, _, -, rfl⟩ := hd
    rfl
  · dsimp only [parseFeatureOwpower, parseSingle]
    refine .inr ⟨_, rfl, execute_each 1 (o := false) (fun i d hd => ?_) s⟩
    simp only [Fold.bind_eq_ok, pure_ok] at hd
    obtain ⟨_, -, rfl⟩ := hd
    rfl
  · dsimp only [parseFeatureNvSave, parseSingle]
    refine .inr ⟨_, rfl, execute_each 1 (o := false) (fun i d hd => ?_) s⟩
    simp only [Fold.bind_eq_ok, pure_ok] at hd
    obtain ⟨_, -, rfl⟩ := hd
    rfl
  · next name hdi hro hdo hled hao hbao hai hregister hpoint hwd how hnv =>
    refine .inr ⟨_, rfl, ?_⟩
    split <;> first | rfl | simp_all

end IOParser

end Modbus

end Evok
