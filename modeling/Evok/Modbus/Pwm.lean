import Evok.Modbus.Accessor
import Evok.Modbus.Client
import Mathlib.Data.List.Sort

/-!
# PWM frequency of a group of outputs

## Main definitions

* `PwmFrequency`: the registers of a hardware or of a firmware PWM.
* `PwmFrequency.update`, `PwmFrequency.set`: the frequency in the cache and its setting.
* `PwmFrequency.duty`, `PwmFrequency.dutyRaw`: the duty cycle and its register.
-/

namespace Evok

namespace Modbus

/-- The frequency for the API. -/
def roundFreq (freq : ℚ) : ℚ :=
  roundDecimals freq (if 1 ≤ freq then 1 else 4)

namespace HardPwm

def baseFreq : ℚ := 48000000

/-- `MAX_FREQ`, in Hz. -/
def maxFreq : ℚ := 50000

/-- `MAX_REGISTER`: the bound of cycle and prescale. -/
def maxRegister : ℕ := 65536

def frequency (cycle prescale : ℕ) : ℚ :=
  roundFreq (baseFreq / (cycle * prescale))

/-- The cycle and the smallest prescale for the frequency. -/
def divide (freq : ℚ) : Except SetError (ℕ × ℕ) :=
  let minFreq := baseFreq / maxRegister ^ 2
  if minFreq ≤ freq ∧ freq ≤ maxFreq then
    let delay := baseFreq / freq
    let prescale := ⌈delay / maxRegister⌉
    let cycle := min (roundHalfEven (delay / prescale)) maxRegister
    .ok (cycle.toNat, prescale.toNat)
  else
    .error (.value s!"Frequency {freq} Hz out of range <{minFreq}..{maxFreq}> Hz")

end HardPwm

namespace SoftPwm

def baseFreq : ℚ := 1000

/-- `PRESETS`: the preset with its frequency. -/
def presets : List (ℕ × ℚ) := [(0, 1000), (1, 100)]

/-- The preset of a computed frequency. -/
def custom : ℕ := 2

end SoftPwm

inductive PwmFrequency
  | hard (regcycle regprescale : ℕ)
  | soft (regpreset regprescale : ℕ)
  deriving DecidableEq

namespace PwmFrequency

/-- The value of a register of the frequency. -/
def readRegister (read : Reader) (index : ℕ) : Except CacheError ℕ :=
  (fun registers => (registers.getD 0 0).toNat) <$> read index 1 false

/-- Read the frequency from the cache. -/
def update (pwm : PwmFrequency) (read : Reader) (s : PwmState) :
    PwmState × Except CacheError Bool :=
  match pwm with
  | hard regcycle regprescale =>
    match readRegister read regcycle with
    | .error e => (s, .error e)
    | .ok cycle =>
      let s := { s with cycle := some (cycle + 1) }
      match readRegister read regprescale with
      | .error e => (s, .error e)
      | .ok prescale =>
        let freq := HardPwm.frequency (cycle + 1) (prescale + 1)
        ({ s with prescale := some (prescale + 1), freq := some freq }, .ok (s.freq != some freq))
  | soft regpreset regprescale =>
    match readRegister read regpreset with
    | .error e => (s, .error e)
    | .ok preset =>
      match SoftPwm.presets.lookup preset with
      | some freq => ({ s with freq := some freq }, .ok (s.freq != some freq))
      | none =>
        match readRegister read regprescale with
        | .error e => (s, .error e)
        | .ok prescale =>
          let freq := roundFreq (SoftPwm.baseFreq / (1 + prescale))
          ({ s with freq := some freq }, .ok (s.freq != some freq))

/-- The duty cycle in percent of the value of its register. -/
def duty (pwm : PwmFrequency) (s : PwmState) (raw : ℤ) : ℚ :=
  match pwm with
  | hard _ _ => roundDecimals (raw / s.cycle.getD 0 * 100) 1
  | soft _ _ => raw

/-- The value of the register of the duty cycle in percent. -/
def dutyRaw (pwm : PwmFrequency) (s : PwmState) (duty : ℚ) : Except SetError ℤ :=
  match pwm with
  | hard _ _ =>
    match s.cycle with
    | some cycle => .ok (roundHalfEven (cycle * duty / 100))
    | none => .error (.type "unsupported operand type(s) for *: 'NoneType' and 'float'")
  | soft _ _ => .ok (roundHalfEven duty)

/-- Write the registers of a setting, then the cache. -/
def write {ι : Type} (values : List (ℕ × ℕ)) : SetScript ι Unit :=
  let sorted := values.insertionSort fun a b => a.1 < b.1 ∨ a.1 = b.1 ∧ a.2 ≤ b.2
  let registers := sorted.map fun (index, value) => (index, BitVec.ofNat 16 value)
  ⟨(runs registers).map (fun (index, run) => .writeRegisters index run false true) ++
    registers.map (fun (index, value) => .setRegister index [value]), .ok ()⟩

/-- Write a new frequency, return the new attributes. -/
def set {ι : Type} (pwm : PwmFrequency) (id : ℕ) (s : PwmState) (freq : ℚ) :
    SetScript ι PwmState := do
  match pwm with
  | hard regcycle regprescale =>
    let (cycle, prescale) ← SetScript.ofExcept (HardPwm.divide freq)
    write [(regcycle, cycle - 1), (regprescale, prescale - 1)]
    let s : PwmState :=
      ⟨some (HardPwm.frequency cycle prescale), some cycle, some prescale⟩
    Script.emit (.assignPwm id s)
    return s
  | soft regpreset regprescale =>
    match SoftPwm.presets.find? (·.2 = freq) with
    | some (preset, presetFreq) =>
      write [(regpreset, preset)]
      let s := { s with freq := some presetFreq }
      Script.emit (.assignPwm id s)
      return s
    | none =>
      let prescale := roundHalfEven (SoftPwm.baseFreq / freq - 1)
      if ¬(0 ≤ prescale ∧ prescale ≤ 65535) then throw (.value "Frequency out of range!")
      write [(regpreset, SoftPwm.custom), (regprescale, prescale.toNat)]
      let s := { s with freq := some (roundFreq (SoftPwm.baseFreq / (1 + prescale))) }
      Script.emit (.assignPwm id s)
      return s

end PwmFrequency

end Modbus

end Evok
