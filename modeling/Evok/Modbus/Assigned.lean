import Evok.Modbus.Decisions

/-!
# The attributes a change assigns

`set()` assigns attributes of its device only, besides the registers of the duties which a new
frequency rewrites; the duty itself only of an output with a PWM.

## Main definitions

* `Action.Assigns` : an action of the `set()` of a device.

## Main results

* `Device.emits_set` : the actions of every class.
-/

namespace Evok

namespace Modbus

variable {ι : Type}

/-- An action of the `set()` of the device `i`; `pwm` are the outputs with a PWM. -/
def Action.Assigns (i : ι) (pwm : ι → Prop) : Action ι → Prop
  | .assign _ (.pwmDutyVal _) => True
  | .assign j (.pwmDuty _) => j = i ∧ pwm j
  | .assign j _ => j = i
  | .readCounter j => j = i
  | _ => True

namespace SetScript

variable {α : Type} {p : Action ι → Prop}

theorem emits_ofExcept (x : Except SetError α) : (ofExcept x : SetScript ι α).Emits p := by
  cases x with
  | ok a => simp [Script.Emits, ofExcept]
  | error e => exact Script.emits_throw e

theorem emits_pure (a : α) : (pure a : SetScript ι α).Emits p := by
  simp [Script.Emits]

end SetScript

section Requests

variable {i : ι} {pwm : ι → Prop}

theorem SetScript.emits_setAlias (device : ι) (name : Option String) :
    (SetScript.setAlias device name).Emits (Action.Assigns i pwm) := by
  cases name with
  | none => exact SetScript.emits_pure _
  | some name => exact Script.emits_emit trivial

theorem Accessor.emits_requests (a : Accessor) (value : ℚ) :
    (a.write value : SetScript ι Unit).Emits (Action.Assigns i pwm) := by
  have hraw : ∀ raw : ℚ, (a.writeRaw raw : SetScript ι Unit).Emits (Action.Assigns i pwm) := by
    intro raw
    rcases a.writeRaw_cases (ι := ι) raw with ⟨e, hwrite⟩ | ⟨index, -, hwrite⟩
    · rw [hwrite]
      exact Script.emits_throw e
    · rcases hwrite with ⟨mask, value, -, hwrite⟩ | ⟨registers, -, hwrite⟩ <;>
      · rw [hwrite]
        exact Script.emits_emit trivial
  unfold write
  dsimp only
  generalize (if a.ratio ≠ 1 ∨ a.offset ≠ 0 then (value - a.offset) / a.ratio else value) = raw
  split
  · exact .bind (Script.emits_throw _) nofun
  · split
    · split
      · exact hraw _
      · exact Script.emits_throw _
    · exact hraw _

theorem PwmFrequency.emits_write (values : List (ℕ × ℕ)) :
    (PwmFrequency.write values : SetScript ι Unit).Emits (Action.Assigns i pwm) := by
  intro a mem
  unfold PwmFrequency.write at mem
  rcases List.mem_append.mp mem with mem | mem <;>
  · obtain ⟨x, -, rfl⟩ := List.mem_map.mp mem
    trivial

theorem PwmFrequency.emits_set (frequency : PwmFrequency) (id : ℕ) (p : PwmState) (freq : ℚ) :
    (frequency.set id p freq : SetScript ι PwmState).Emits (Action.Assigns i pwm) := by
  unfold PwmFrequency.set
  cases frequency with
  | hard regcycle regprescale =>
    refine .bind (SetScript.emits_ofExcept _) fun _ _ => ?_
    refine .bind (PwmFrequency.emits_write _) fun _ _ => ?_
    exact .bind (Script.emits_emit trivial) fun _ _ => SetScript.emits_pure _
  | soft regpreset regprescale =>
    dsimp only
    split
    · refine .bind (PwmFrequency.emits_write _) fun _ _ => ?_
      exact .bind (Script.emits_emit trivial) fun _ _ => SetScript.emits_pure _
    · split
      · exact .bind (Script.emits_throw _) nofun
      · refine .bind (PwmFrequency.emits_write _) fun _ _ => ?_
        exact .bind (Script.emits_emit trivial) fun _ _ => SetScript.emits_pure _

end Requests

/-! ## The classes -/

section Classes

variable (i : ι) {pwm : ι → Prop}

theorem BinaryOutput.emits_writeValue (d : BinaryOutput) (value : Bool) :
    (d.writeValue value : SetScript ι Unit).Emits (Action.Assigns i pwm) := by
  unfold writeValue
  split <;> exact Script.emits_emit trivial

theorem BinaryOutput.emits_set (d : BinaryOutput) (params : Params) :
    (d.set i params).Emits (Action.Assigns i pwm) := by
  unfold set
  split
  · refine .bind (SetScript.emits_ofExcept _) fun _ _ => ?_
    exact .bind (d.emits_writeValue i _) fun _ _ => SetScript.emits_setAlias _ _
  · exact SetScript.emits_setAlias _ _

theorem DigitalOutput.emits_keepDuties (frequency : PwmFrequency) (p : PwmState)
    (outputs : List (Entry ι)) :
    (keepDuties frequency p outputs).Emits (Action.Assigns i pwm) := by
  induction outputs with
  | nil => exact SetScript.emits_pure _
  | cons e outputs ih =>
    obtain ⟨device, d, s⟩ := e
    refine .bind ?_ fun _ _ => ih
    rw [keepDuty_eq]
    refine .bind (SetScript.emits_ofExcept _) fun raw _ => ?_
    cases raw with
    | none => exact SetScript.emits_pure _
    | some raw => exact .bind (Accessor.emits_requests _ _) fun _ _ => Script.emits_emit trivial

theorem DigitalOutput.emits_set [DecidableEq ι] {d : DigitalOutput} {s : State}
    (on : s.pwmOn → pwm i)
    (p : PwmState) (outputs : List (Entry ι)) (params : Params) :
    (d.set i s p outputs params).Emits (Action.Assigns i pwm) := by
  unfold set
  refine .bind (SetScript.emits_ofExcept _) fun parsed _ => ?_
  refine .bind ?_ fun _ _ => SetScript.emits_setAlias _ _
  rw [apply_parts]
  refine .bind ?_ fun p' _ => ?_
  · unfold applyFreq
    split
    · refine .bind (PwmFrequency.emits_set _ _ _ _) fun _ _ => ?_
      exact .bind (emits_keepDuties i _ _ _) fun _ _ => SetScript.emits_pure _
    · exact SetScript.emits_pure _
  · unfold applyDuty
    split
    · refine .bind (d.emits_writeValue i _) fun _ _ => ?_
      split
      · next hon =>
        exact .bind (Script.emits_emit ⟨rfl, on hon⟩) fun _ _ => Accessor.emits_requests _ _
      · exact SetScript.emits_pure _
    · split
      · refine .bind (d.emits_writeValue i _) fun _ _ => ?_
        exact .bind (SetScript.emits_ofExcept _) fun _ _ => Accessor.emits_requests _ _
      · exact .bind (SetScript.emits_ofExcept _) fun _ _ => Accessor.emits_requests _ _
    · exact SetScript.emits_pure _

theorem DIMode.emits_set (m : DIMode) (s : State) (mode dsMode : Option String) :
    (m.set i s mode dsMode).Emits (Action.Assigns i pwm) := by
  have hmode : ∀ mode : String, (do
      if m.regmode.isSome then
        m.accessorMode.write (if mode = "DirectSwitch" then 1 else 0)
      Script.emit (.assign i (.mode mode)) : SetScript ι Unit).Emits (Action.Assigns i pwm) := by
    intro mode
    split
    · exact .bind (Accessor.emits_requests _ _) fun _ _ => Script.emits_emit rfl
    · exact Script.emits_emit rfl
  unfold set
  refine .bind (SetScript.emits_ofExcept _) fun _ _ => ?_
  cases dsMode
  case' some dsMode _ =>
    dsimp only
    generalize (if dsMode = "Inverted" then (1 : ℚ) else 0) = inverted
    generalize (if dsMode = "Toggle" then (1 : ℚ) else 0) = toggle
    split
    all_goals
      refine .bind (Accessor.emits_requests _ _) fun _ _ => ?_
      refine .bind (Accessor.emits_requests _ _) fun _ _ => ?_
      refine .bind (Script.emits_emit rfl) fun _ _ => ?_
  all_goals
    cases mode with
    | none => exact SetScript.emits_pure _
    | some mode => exact hmode mode

theorem DigitalInput.emits_set (d : DigitalInput) (s : Attrs) (params : Params) :
    (d.set i s params).Emits (Action.Assigns i pwm) := by
  have halias : (SetScript.setAlias i params.aliasName).Emits (Action.Assigns i pwm) :=
    SetScript.emits_setAlias _ _
  have hcounter : ∀ counter : ℤ, (do
      d.accessorCounter.write counter
      SetScript.setAlias i params.aliasName : SetScript ι Unit).Emits (Action.Assigns i pwm) :=
    fun _ => .bind (Accessor.emits_requests _ _) fun _ _ => halias
  unfold set
  refine .bind (SetScript.emits_ofExcept _) fun parsed _ => ?_
  refine .bind (DIMode.emits_set i _ _ _ _) fun _ _ => ?_
  cases params.counterMode
  case' some counterMode =>
    dsimp only
    split
    case' isTrue =>
      refine .bind (Script.emits_emit rfl) fun _ _ => ?_
      refine .bind (Script.emits_emit rfl) fun _ _ => ?_
  all_goals
    obtain ⟨_ | debounce, _ | counter⟩ := parsed
    · exact halias
    · exact hcounter counter
    · exact .bind (Accessor.emits_requests _ _) fun _ _ => halias
    · exact .bind (Accessor.emits_requests _ _) fun _ _ => hcounter counter

theorem AnalogIO.emits_set (d : AnalogIO) (s : State) (params : Params) :
    (d.set i s params).Emits (Action.Assigns i pwm) := by
  have hmode : ∀ mode, (d.iomode.set s.iomode mode : SetScript ι ModeData).Emits
      (Action.Assigns i pwm) := by
    intro mode
    unfold IOMode.set
    refine .bind (SetScript.emits_ofExcept _) fun data _ => ?_
    split
    · exact .bind (Accessor.emits_requests _ _) fun _ _ => SetScript.emits_pure _
    · exact SetScript.emits_pure _
  rw [set_parts]
  refine .bind (SetScript.emits_ofExcept _) fun value _ => ?_
  rw [applyParsed_eq]
  refine .bind ?_ fun _ _ => .bind ?_ fun _ _ => SetScript.emits_setAlias _ _
  · cases params.mode with
    | none => exact SetScript.emits_pure _
    | some mode => exact .bind (hmode mode) fun _ _ => SetScript.emits_pure _
  · cases value with
    | none => exact SetScript.emits_pure _
    | some value => exact Accessor.emits_requests _ _

theorem DataPoint.emits_set (d : DataPoint) (params : Params) :
    (d.set i params).Emits (Action.Assigns i pwm) := by
  unfold set
  cases params.value with
  | none => exact SetScript.emits_setAlias _ _
  | some value =>
    dsimp only
    split
    · exact .bind (Script.emits_throw _) nofun
    · refine .bind (SetScript.emits_ofExcept _) fun _ _ => ?_
      exact .bind (Accessor.emits_requests _ _) fun _ _ => SetScript.emits_setAlias _ _

theorem OwPower.emits_set (d : OwPower) (params : Params) :
    (d.set i params).Emits (Action.Assigns i pwm) := by
  unfold set
  refine .bind (SetScript.emits_setAlias _ _) fun _ _ => ?_
  cases params.value with
  | none => exact SetScript.emits_pure _
  | some value =>
    refine .bind (SetScript.emits_ofExcept _) fun _ _ => ?_
    exact .bind (Script.emits_emit trivial) fun _ _ => Script.emits_emit rfl

theorem NvSave.emits_set (d : NvSave) (s : State) (params : Params) :
    (d.set i s params).Emits (Action.Assigns i pwm) := by
  unfold set
  refine .bind (SetScript.emits_setAlias _ _) fun _ _ => ?_
  cases params.value with
  | none => exact SetScript.emits_pure _
  | some value =>
    refine .bind (SetScript.emits_ofExcept _) fun held _ => ?_
    split
    · split
      · exact .bind (Script.emits_throw _) nofun
      · exact .bind (Script.emits_emit rfl) fun _ _ => Script.emits_emit trivial
    · exact SetScript.emits_pure _

theorem Watchdog.emits_set (d : Watchdog) (params : Params) :
    (d.set i params).Emits (Action.Assigns i pwm) := by
  have hreset : ∀ reset : Bool, (do
      if reset then Script.emit (.coilWithoutResponse d.resetCoil.toNat none) :
        SetScript ι Unit).Emits (Action.Assigns i pwm) := by
    rintro (_ | _)
    · exact SetScript.emits_pure _
    · exact Script.emits_emit trivial
  unfold set
  refine .bind (SetScript.emits_ofExcept _) fun parsed _ => ?_
  refine .bind (SetScript.emits_setAlias _ _) fun _ _ => ?_
  obtain ⟨value, timeout, reset⟩ := parsed
  cases value
  case' some value => refine .bind (Accessor.emits_requests _ _) fun _ _ => ?_
  all_goals
    cases timeout with
    | none => exact hreset reset
    | some timeout => exact .bind (Accessor.emits_requests _ _) fun _ _ => hreset reset

end Classes

end Modbus

end Evok
