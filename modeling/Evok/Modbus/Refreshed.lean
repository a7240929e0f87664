import Evok.Modbus.Assigned

/-!
# Attributes after a check

After a check by the registers of the unit every change decides by them. The attributes which no
check reads are kept by the checks.

## Main definitions

* `Device.Consistent` : what the attributes satisfy in every run.
* `Device.Fresh` : the attributes are the ones of the registers.

## Main results

* `Device.fresh_check` : a check refreshes the attributes.
* `Device.Fresh.current` : every change of a checked device decides by the registers.
-/

namespace Evok

namespace Modbus

variable {ι : Type} {m : Memory} {inputs : ℕ → Word}

/-! ## Reads of the registers -/

theorem Accessor.readInt_reader {a : Accessor} (holding : a.isInput = false) (m : Memory)
    (inputs : ℕ → Word) : a.readInt (m.reader inputs) = a.readInt m.holding := by
  unfold readInt read readRaw
  rw [holding]
  rfl

theorem Accessor.readInt_ok (a : Accessor) (m : Memory) (inputs : ℕ → Word) :
    ∃ value, a.readInt (m.reader inputs) = .ok value := by
  obtain ⟨index, type, isInput, ratio, offset, decimals, pin⟩ := a
  cases index <;> cases type <;> exact ⟨_, rfl⟩

namespace PwmFrequency

theorem update_reader (pwm : PwmFrequency) (m : Memory) (inputs : ℕ → Word) (p : PwmState) :
    pwm.update (m.reader inputs) p = pwm.update m.holding p := by
  cases pwm <;> rfl

/-- A check reads the frequency whatever was read before. -/
theorem update_holding (pwm : PwmFrequency) (m : Memory) (p q : PwmState) :
    (∃ changed, (pwm.update m.holding p).2 = .ok changed) ∧
      (∀ raw, pwm.duty (pwm.update m.holding p).1 raw = pwm.duty (pwm.update m.holding q).1 raw) ∧
      ∀ duty, pwm.dutyRaw (pwm.update m.holding p).1 duty =
        pwm.dutyRaw (pwm.update m.holding q).1 duty := by
  cases pwm with
  | hard regcycle regprescale => exact ⟨⟨_, rfl⟩, fun _ => rfl, fun _ => rfl⟩
  | soft regpreset regprescale =>
    refine ⟨?_, fun _ => rfl, fun _ => rfl⟩
    have hread : ∀ index, ∃ value, readRegister m.holding index = .ok value := fun _ => ⟨_, rfl⟩
    obtain ⟨preset, hpreset⟩ := hread regpreset
    obtain ⟨prescale, hprescale⟩ := hread regprescale
    simp only [update, hpreset, hprescale]
    split <;> exact ⟨_, rfl⟩

end PwmFrequency

namespace DigitalOutput

/-- What the checks keep of the attributes. -/
def Consistent (d : DigitalOutput) (s : State) : Prop :=
  d.pwm = none → s.pwmDuty = none

/-- The attributes are the ones of the registers. -/
structure Fresh (d : DigitalOutput) (m : Memory) (p : PwmState) (s : State) : Prop where
  value : s.value = (d.byRegisters m).2.value
  duty : s.pwmDuty = (d.byRegisters m).2.pwmDuty
  val : d.pwm.isSome → s.pwmDutyVal = (d.byRegisters m).2.pwmDutyVal
  cycle : ∀ id pwm, d.pwm = some (id, pwm) → ∀ duty,
    pwm.dutyRaw p duty = pwm.dutyRaw (d.byRegisters m).1 duty

/-- A check keeps the attributes consistent. -/
theorem consistent_check {d : DigitalOutput} {s : State} (h : d.Consistent s) (read : Reader)
    (p : PwmState) : d.Consistent (d.checkNewData read p s).1.2 := by
  intro hpwm
  simp only [checkNewData, checkPwm, hpwm]
  split <;> exact h hpwm

/-- The attributes after a check, without a PWM. -/
theorem check_simple {d : DigitalOutput} {reader : Reader} {value : Option ℤ}
    (hvalue : d.toBinaryOutput.accessor.readInt reader = .ok value) (hpwm : d.pwm = none)
    (p : PwmState) (s : State) :
    (d.checkNewData reader p s).1 =
      (p, { s with mode := some s.dutyMode, value := value }) := by
  simp only [checkNewData, checkPwm, hpwm, BinaryOutput.checkNewData, hvalue]

/-- The attributes after a check, with a PWM. -/
theorem check_pwm {d : DigitalOutput} {reader : Reader} {value raw : Option ℤ} {id : ℕ}
    {pwm : PwmFrequency} (hvalue : d.toBinaryOutput.accessor.readInt reader = .ok value)
    (hraw : d.accessorPwmDuty.readInt reader = .ok raw) (hpwm : d.pwm = some (id, pwm))
    {p p' : PwmState} {changed : Bool} (hupdate : pwm.update reader p = (p', .ok changed))
    (s : State) :
    ∃ mode, (d.checkNewData reader p s).1 =
      (p', { s with
        pwmFreq := p'.freq
        pwmDutyVal := raw
        pwmDuty := raw.map (pwm.duty p')
        mode := mode
        value := value }) := by
  simp only [checkNewData, checkPwm, hpwm, hupdate, hraw, BinaryOutput.checkNewData, hvalue]
  exact ⟨_, rfl⟩

/-- A check by the registers refreshes the attributes. -/
theorem fresh_check {d : DigitalOutput} {s : State} (consistent : d.Consistent s) (m : Memory)
    (inputs : ℕ → Word) (p : PwmState) :
    d.Fresh m (d.checkNewData (m.reader inputs) p s).1.1
      (d.checkNewData (m.reader inputs) p s).1.2 := by
  obtain ⟨value, hvalue⟩ := d.toBinaryOutput.accessor.readInt_ok m fun _ => 0
  have hvalue' : d.toBinaryOutput.accessor.readInt (m.reader inputs) = .ok value :=
    (Accessor.readInt_reader rfl m inputs).trans hvalue
  cases hpwm : d.pwm with
  | none =>
    rw [check_simple hvalue' hpwm]
    refine ⟨?_, ?_, by simp [hpwm], by simp [hpwm]⟩
    · rw [byRegisters, check_simple hvalue hpwm]
    · rw [byRegisters, check_simple hvalue hpwm]
      exact consistent hpwm
  | some pwm =>
    obtain ⟨id, pwm⟩ := pwm
    obtain ⟨raw, hraw⟩ := d.accessorPwmDuty.readInt_ok m fun _ => 0
    have holding : d.accessorPwmDuty.isInput = false := by
      simp only [accessorPwmDuty, hpwm]
      rfl
    have hraw' : d.accessorPwmDuty.readInt (m.reader inputs) = .ok raw :=
      (Accessor.readInt_reader holding m inputs).trans hraw
    obtain ⟨⟨changed, hchanged⟩, hduty, hcycle⟩ := pwm.update_holding m p {}
    obtain ⟨⟨changed', hchanged'⟩, -, -⟩ := pwm.update_holding m {} {}
    obtain ⟨mode, hcheck⟩ := check_pwm hvalue' hraw' hpwm
      ((pwm.update_reader m inputs p).trans (Prod.ext rfl hchanged)) s
    obtain ⟨mode', hnew⟩ := check_pwm hvalue hraw hpwm (Prod.ext rfl hchanged') {}
    rw [hcheck]
    refine ⟨?_, ?_, fun _ => ?_, ?_⟩
    · rw [byRegisters, hnew]
    · rw [byRegisters, hnew]
      exact congrArg (raw.map ·) (funext hduty)
    · rw [byRegisters, hnew]
    · rw [byRegisters, hnew, hpwm]
      rintro _ _ ⟨⟩ duty
      exact hcycle duty

/-- The frequency by the registers is the one of the group. -/
theorem byRegisters_pwm {d : DigitalOutput} {id : ℕ} {pwm : PwmFrequency}
    (hpwm : d.pwm = some (id, pwm)) (m : Memory) :
    (d.byRegisters m).1 = (pwm.update m.holding {}).1 := by
  obtain ⟨value, hvalue⟩ := d.toBinaryOutput.accessor.readInt_ok m fun _ => 0
  obtain ⟨raw, hraw⟩ := d.accessorPwmDuty.readInt_ok m fun _ => 0
  obtain ⟨⟨changed, hchanged⟩, -, -⟩ := pwm.update_holding m {} {}
  obtain ⟨mode, hcheck⟩ := check_pwm hvalue hraw hpwm (Prod.ext rfl hchanged) {}
  rw [byRegisters, hcheck]

/-- A checked output decides by the registers. -/
theorem Fresh.current [DecidableEq ι] {d : DigitalOutput} {device : ι} {s : State} {p : PwmState}
    {outputs : List (Entry ι)} (fresh : d.Fresh m p s)
    (others : ∀ e ∈ outputs, ∃ q, e.2.1.Fresh m q e.2.2) (parsed : Parsed) :
    d.Current m device s p outputs parsed where
  value _ := .inl (by rw [State.pwmOn, State.pwmOn, fresh.duty])
  duty _ _ := .inl (by rw [fresh.value])
  cycle _ _ id pwm hpwm duty _ := fresh.cycle id pwm hpwm duty
  freq id pwm hpwm freq mem p' _ e he group := by
    obtain ⟨q, hfresh⟩ := others e he
    have hval : e.2.1.pwm.isSome := by
      obtain ⟨other, d', s'⟩ := e
      simp only [inGroup, Bool.and_eq_true] at group
      exact Option.isSome_of_any group.1
    unfold pending State.pwmOn
    rw [hfresh.duty, hfresh.val hval]

end DigitalOutput

/-! ## Digital inputs -/

/-- A mode without a register is kept by every read. -/
theorem DIMode.update_mode {d : DIMode} (h : d.hasDirectSwitch = false) (read : Reader)
    (s : State) : d.update read s = (s, .ok false) := by
  simp [update, h]

/-- The mode is read whatever was read before. -/
theorem DIMode.update_holding (d : DIMode) (m : Memory) (inputs : ℕ → Word) {s t : State}
    (h : d.hasDirectSwitch = false → s.mode = t.mode) :
    (∃ changed, (d.update (m.reader inputs) s).2 = .ok changed) ∧
      (d.update (m.reader inputs) s).1.mode = (d.update m.holding t).1.mode := by
  have hflag : ∀ a : Accessor, a.isInput = false → ∃ flag,
      readFlag a (m.reader inputs) = .ok flag ∧ readFlag a m.holding = .ok flag := by
    intro a holding
    obtain ⟨value, hvalue⟩ := a.readInt_ok m inputs
    refine ⟨value.getD 0 ≠ 0, ?_, ?_⟩
    · rw [readFlag, hvalue]
      rfl
    · rw [readFlag, ← Accessor.readInt_reader holding m inputs, hvalue]
      rfl
  have hregister : ∀ register : Option ℕ,
      (Accessor.ofRegister (.bit d.bitmask) register).isInput = false := by
    rintro (_ | _) <;> rfl
  cases hswitch : d.hasDirectSwitch with
  | false =>
    rw [update_mode hswitch, update_mode hswitch]
    exact ⟨⟨_, rfl⟩, h hswitch⟩
  | true =>
    obtain ⟨mode, hmode, hmode'⟩ := hflag d.accessorMode (hregister _)
    obtain ⟨polarity, hpolarity, hpolarity'⟩ := hflag d.accessorPolarity (hregister _)
    obtain ⟨toggle, htoggle, htoggle'⟩ := hflag d.accessorToggle (hregister _)
    simp only [update, hswitch, if_true, hmode, hmode']
    cases mode with
    | false => exact ⟨⟨_, rfl⟩, rfl⟩
    | true =>
      have hds : ∃ dsMode, d.readDsMode (m.reader inputs) = .ok dsMode ∧
          d.readDsMode m.holding = .ok dsMode := by
        unfold readDsMode
        rw [hpolarity, hpolarity', htoggle, htoggle']
        cases polarity <;> cases toggle <;> exact ⟨_, rfl, rfl⟩
      obtain ⟨dsMode, hds, hds'⟩ := hds
      simp only [hds, hds']
      exact ⟨⟨_, rfl⟩, trivial⟩

namespace DigitalInput

/-- The attributes which no check reads. -/
def Lasting (d : DigitalInput) (s t : Attrs) : Prop :=
  s.counterMode = t.counterMode ∧
    (d.dimode.hasDirectSwitch = false → s.dimode.mode = t.dimode.mode)

/-- The mode is the one of the registers. -/
def Fresh (d : DigitalInput) (m : Memory) (s : Attrs) : Prop :=
  s.dimode.mode = (d.byRegisters m s).dimode.mode

/-- The attributes by the registers do not depend on the ones read before. -/
theorem Lasting.byRegisters {d : DigitalInput} {s t : Attrs} (h : d.Lasting s t) (m : Memory) :
    d.byRegisters m s = d.byRegisters m t := by
  unfold DigitalInput.byRegisters
  rw [h.1, (d.dimode.update_holding m (fun _ => 0) h.2).2]

theorem Fresh.current {d : DigitalInput} {s : Attrs} (h : d.Fresh m s) (params : Params) :
    d.Current m s params :=
  fun _ _ _ _ => by rw [← h]

/-- A check reads the mode, the mode of the counter is kept. -/
theorem check_attrs (d : DigitalInput) (read : Reader) (s : State) :
    (d.checkNewData read s).1.dimode = (d.dimode.update read s.dimode).1 ∧
      (d.checkNewData read s).1.counterMode = s.counterMode := by
  have hread : (d.readAttrs read s.toAttrs).1.dimode = (d.dimode.update read s.dimode).1 ∧
      (d.readAttrs read s.toAttrs).1.counterMode = s.counterMode := by
    unfold readAttrs
    split
    · next dimode e hupdate => exact ⟨by rw [hupdate], rfl⟩
    · next dimode changed hupdate =>
      rw [hupdate]
      dsimp only
      split
      · exact ⟨rfl, rfl⟩
      · split
        · exact ⟨rfl, rfl⟩
        · split <;> exact ⟨rfl, rfl⟩
  unfold checkNewData
  split
  · next attrs e hattrs => rwa [hattrs] at hread
  · next attrs hattrs => rwa [hattrs] at hread

/-- A check keeps what it does not read. -/
theorem lasting_check (d : DigitalInput) (read : Reader) (s : State) :
    d.Lasting s.toAttrs (d.checkNewData read s).1.toAttrs := by
  obtain ⟨hdimode, hcounter⟩ := d.check_attrs read s
  refine ⟨hcounter.symm, fun h => ?_⟩
  rw [hdimode, DIMode.update_mode h]

/-- A check by the registers refreshes the mode. -/
theorem fresh_check (d : DigitalInput) (m : Memory) (inputs : ℕ → Word) (s : State) :
    d.Fresh m (d.checkNewData (m.reader inputs) s).1.toAttrs := by
  have hlasting := (d.lasting_check (m.reader inputs) s).2
  obtain ⟨hdimode, -⟩ := d.check_attrs (m.reader inputs) s
  unfold Fresh
  rw [hdimode, (d.dimode.update_holding m inputs hlasting).2]
  rfl

end DigitalInput

/-! ## Analog devices -/

/-- A fixed mode is kept by every read. -/
theorem IOMode.update_fixed {d : IOMode} (h : d.index = none) (read : Reader) :
    d.update read d.init = (d.init, .ok false) := by
  unfold update IOMode.accessor
  rw [h]
  rfl

/-- The mode is the one of the register which was read. -/
theorem IOMode.update_known {d : IOMode} {s : State}
    (known : s.mode = s.modeValue.bind d.find) (read : Reader) :
    (d.update read s).1.mode = (d.update read s).1.modeValue.bind d.find := by
  unfold update
  split
  · exact known
  · split
    · exact known
    · rfl

/-- The mode is read whatever was read before. -/
theorem IOMode.update_mode {d : IOMode} {index : ℕ} (h : d.index = some index) (m : Memory)
    (inputs : ℕ → Word) {s : State} (known : s.mode = s.modeValue.bind d.find) :
    (d.update (m.reader inputs) s).1.mode = d.find (m.registers index).toNat := by
  have hread : d.accessor.readInt (m.reader inputs) =
      .ok (some ((m.registers index).toNat : ℤ)) := by
    have hfloor : ⌊((m.registers index).toNat : ℚ)⌋ = ((m.registers index).toNat : ℤ) :=
      Int.floor_natCast _
    rw [IOMode.accessor, h, ← hfloor]
    rfl
  simp only [update, hread]
  split
  · next same =>
    rw [known, ← same]
    rfl
  · rfl

namespace AnalogIO

/-- The mode is the one of the registers. -/
def Fresh (d : AnalogIO) (m : Memory) (s : State) : Prop :=
  s.iomode.mode = (d.byRegisters m).iomode.mode

theorem Fresh.current {d : AnalogIO} {s : State} (h : d.Fresh m s) (params : Params) :
    d.Current m s params where
  value _ _ _ _ := by rw [h]
  mode _ _ _ _ _ _ := .inl (by rw [h])

/-- The mode after a check, and the accessor of an output. -/
theorem check_attrs (d : AnalogIO) (read : Reader) (s : State) :
    (d.checkNewData read s).1.iomode = (d.iomode.update read s.iomode).1 ∧
      ((d.checkNewData read s).1.accessor = s.accessor ∨
        ∃ iomode, d.makeAccessor { s with iomode } = .ok (d.checkNewData read s).1.accessor) := by
  have hmode : (d.updateMode read s).1.iomode = (d.iomode.update read s.iomode).1 ∧
      ((d.updateMode read s).1.accessor = s.accessor ∨
        ∃ iomode, d.makeAccessor { s with iomode } = .ok (d.updateMode read s).1.accessor) := by
    rcases d.updateMode_cases read s with ⟨e, hupdate, hraise⟩ | ⟨iomode, changed, hupdate, -, h⟩
    · rw [hupdate, hraise]
      exact ⟨rfl, .inl rfl⟩
    · rw [hupdate]
      generalize d.updateMode read s = result at h
      cases h with
      | raised => exact ⟨rfl, .inl rfl⟩
      | made _ _ new => exact ⟨rfl, .inr ⟨iomode, new⟩⟩
      | kept same => exact ⟨same.symm, .inl rfl⟩
  unfold checkNewData
  split
  · next t e ht => rwa [ht] at hmode
  · next t changed ht =>
    rw [ht] at hmode
    split <;> exact hmode

/-- A check keeps the attributes consistent. -/
theorem consistent_check {d : AnalogIO} {s : State} (h : d.Consistent s) (read : Reader) :
    d.Consistent (d.checkNewData read s).1 := by
  obtain ⟨hmode, haccessor⟩ := d.check_attrs read s
  constructor
  · intro fixed
    rw [hmode, h.fixed fixed, IOMode.update_fixed fixed]
  · intro index
    rw [hmode]
    exact IOMode.update_known (h.known index) read
  · intro output
    rcases haccessor with same | ⟨iomode, new⟩
    · rw [same, h.ratio output]
    · cases hkind : d.kind with
      | input => exact absurd hkind output
      | output =>
        simp only [makeAccessor, hkind] at new
        rw [← Except.ok.inj new]
        exact h.ratio output
      | brain regRes =>
        simp only [makeAccessor, hkind] at new
        rw [← Except.ok.inj new]
        simp only [defaultAccessor, hkind]
        split
        · cases regRes with
          | none =>
            simp only [resAccessor, hkind]
            rfl
          | some index => simp only [resAccessor, hkind]
        · rfl
  · intro output
    rcases haccessor with same | ⟨iomode, new⟩
    · rw [same, h.accessor output]
    · simp only [makeAccessor, output] at new
      rw [← Except.ok.inj new]
      exact h.accessor output

/-- A check by the registers refreshes the mode. -/
theorem fresh_check {d : AnalogIO} {s : State} (h : d.Consistent s) (m : Memory)
    (inputs : ℕ → Word) : d.Fresh m (d.checkNewData (m.reader inputs) s).1 := by
  obtain ⟨hmode, -⟩ := d.check_attrs (m.reader inputs) s
  unfold Fresh
  cases hindex : d.iomode.index with
  | none =>
    rw [d.byRegisters_iomode m hindex, hmode, h.fixed hindex, IOMode.update_fixed hindex]
  | some index =>
    have hinit : d.iomode.init.mode = d.iomode.init.modeValue.bind d.iomode.find := by
      unfold IOMode.init
      rw [hindex]
      rfl
    rw [hmode, byRegisters, IOMode.update_mode hindex m inputs (h.known (by simp [hindex])),
      IOMode.update_mode hindex m _ hinit]

end AnalogIO

/-! ## Devices -/

namespace Device

/-- What the attributes satisfy in every run. -/
def Consistent : (d : Device) → d.State → Prop
  | digitalOutput d, s => d.Consistent s
  | analog d, s => d.Consistent s
  | _, _ => True

/-- The attributes which no check reads are the same. -/
def Lasting : (d : Device) → d.State → d.State → Prop
  | digitalInput d, s, t => d.Lasting s.toAttrs t.toAttrs
  | _, _, _ => True

/-- The attributes are the ones of the registers. -/
def Fresh (m : Memory) (p : PwmState) : (d : Device) → d.State → Prop
  | digitalOutput d, s => d.Fresh m p s
  | digitalInput d, s => d.Fresh m s.toAttrs
  | analog d, s => d.Fresh m s
  | _, _ => True

/-- `set()` decides as by the registers. -/
def Current [DecidableEq ι] (m : Memory) (i : ι) (p : PwmState)
    (outputs : List (DigitalOutput.Entry ι)) : (d : Device) → d.State → d.Params → Prop
  | digitalOutput d, s, params =>
    ∀ parsed, d.parse params = .ok parsed → d.Current m i s p outputs parsed
  | digitalInput d, s, params => d.Current m s.toAttrs params
  | analog d, s, params => d.Current m s params
  | _, _, _ => True

/-- `set()` by the attributes of the registers. -/
def setByRegisters [DecidableEq ι] (m : Memory) (i : ι)
    (outputs : List (DigitalOutput.Entry ι)) :
    (d : Device) → d.State → d.Params → SetScript ι Unit
  | digitalOutput d, _, params =>
    d.set i (d.byRegisters m).2 (d.byRegisters m).1 (DigitalOutput.checkedOutputs m outputs) params
  | digitalInput d, s, params => d.set i (d.byRegisters m s.toAttrs) params
  | analog d, _, params => d.set i (d.byRegisters m) params
  | d, s, params => d.set i {} outputs s params

/-- The coil of an output is its bit. -/
def Wired (wiring : Wiring) : Device → Prop
  | digitalOutput d => d.Wired wiring
  | _ => True

/-- The alias of the params. -/
def aliasOf : (d : Device) → d.Params → Option String
  | binaryOutput _, p => p.aliasName
  | digitalOutput _, p => p.aliasName
  | digitalInput _, p => p.aliasName
  | analog _, p => p.aliasName
  | dataPoint _, p => p.aliasName
  | owPower _, p => p.aliasName
  | nvSave _, p => p.aliasName
  | watchdog _, p => p.aliasName

/-- A change without an alias, without a save of the settings and a reset of the unit. -/
def Plain (d : Device) (params : d.Params) : Prop :=
  d.aliasOf params = none ∧ match d, params with
    | nvSave _, _ => False
    | watchdog _, p => p.reset = none
    | _, _ => True

end Device

end Modbus

end Evok
