import Evok.Modbus.UnitAttrs

/-!
# The requests of a change

`set()` of a device writes a coil of the device only, and sets the cache by hand only after the
writes of the registers: these are recorded by then.

## Main definitions

* `Device.coils` : the coils which show their value in a register of the device.
* `Recorded` : a cached register is set after a write of it.
* `SetScript.Orderly` : what the requests of a script satisfy.

## Main results

* `Device.orderly_set` : the requests of every class.
-/

namespace Evok

namespace Modbus

variable {ι α β : Type}

/-- The coils written by an action. -/
def Action.Coils (coil : ℕ → Prop) : Action ι → Prop
  | .writeCoil c _ => coil c
  | _ => True

/-- The cached register `r` is set after a write of it; `done` says that it was written before. -/
def Recorded (r : ℕ) : Prop → List (Action ι) → Prop
  | _, [] => True
  | done, .writeRegisters index values _ _ :: actions =>
    Recorded r (done ∨ (block (index, values) r).isSome) actions
  | done, .setRegister index values :: actions =>
    ((block (index, values) r).isSome → done) ∧ Recorded r done actions
  | done, _ :: actions => Recorded r done actions

variable {r : ℕ}

theorem Recorded.mono {done done' : Prop} (sub : done → done') {actions : List (Action ι)}
    (h : Recorded r done actions) : Recorded r done' actions := by
  induction actions generalizing done done' with
  | nil => trivial
  | cons a actions ih =>
    cases a with
    | writeRegisters index values cache pin => exact ih (Or.imp_left sub) h
    | setRegister index values => exact ⟨fun covered => sub (h.1 covered), ih sub h.2⟩
    | _ => exact ih sub h

theorem Recorded.append {done : Prop} {actions actions' : List (Action ι)}
    (h : Recorded r done actions) (h' : Recorded r done actions') :
    Recorded r done (actions ++ actions') := by
  induction actions generalizing done with
  | nil => exact h'
  | cons a actions ih =>
    cases a with
    | writeRegisters index values cache pin => exact ih h (h'.mono .inl)
    | setRegister index values => exact ⟨h.1, ih h.2 h'⟩
    | _ => exact ih h h'

/-! ## Scripts -/

namespace SetScript

/-- The coils are the ones of the device, a cached register is set after its write. -/
structure Orderly (coil : ℕ → Prop) (m : SetScript ι α) : Prop where
  coils : m.Emits (Action.Coils coil)
  recorded : ∀ r done, Recorded r done m.actions

namespace Orderly

variable {coil : ℕ → Prop}

theorem bind {m : SetScript ι α} {f : α → SetScript ι β} (hm : Orderly coil m)
    (hf : ∀ a, m.result = .ok a → Orderly coil (f a)) : Orderly coil (m >>= f) := by
  refine ⟨hm.coils.bind fun a ha => (hf a ha).coils, fun r done => ?_⟩
  have hrecorded := hm.recorded r done
  obtain ⟨actions, result⟩ := m
  cases result with
  | ok a => exact hrecorded.append ((hf a rfl).recorded r done)
  | error e => exact hrecorded

theorem pure (a : α) : Orderly coil (Pure.pure a : SetScript ι α) :=
  ⟨SetScript.emits_pure a, fun _ _ => trivial⟩

theorem throw (e : SetError) : Orderly coil (MonadExcept.throw e : SetScript ι α) :=
  ⟨Script.emits_throw e, fun _ _ => trivial⟩

theorem ofExcept (x : Except SetError α) :
    Orderly coil (SetScript.ofExcept x : SetScript ι α) := by
  cases x with
  | ok a => exact pure a
  | error e => exact throw e

theorem emit {a : Action ι} (coils : a.Coils coil) (recorded : ∀ r done, Recorded r done [a]) :
    Orderly coil (Script.emit a : SetScript ι Unit) :=
  ⟨Script.emits_emit coils, recorded⟩

theorem setAlias (device : ι) (name : Option String) :
    Orderly coil (SetScript.setAlias device name) := by
  cases name with
  | none => exact pure _
  | some name => exact emit trivial fun _ _ => trivial

end Orderly

end SetScript

open SetScript (Orderly)

section Parts

variable {coil : ℕ → Prop}

theorem Accessor.orderly_write (a : Accessor) (value : ℚ) :
    Orderly coil (a.write value : SetScript ι Unit) := by
  have hraw : ∀ raw : ℚ, Orderly coil (a.writeRaw raw : SetScript ι Unit) := by
    intro raw
    rcases a.writeRaw_cases (ι := ι) raw with ⟨e, hwrite⟩ | ⟨index, -, hwrite⟩
    · rw [hwrite]
      exact .throw e
    · rcases hwrite with ⟨mask, value, -, hwrite⟩ | ⟨registers, -, hwrite⟩ <;>
      · rw [hwrite]
        exact .emit trivial fun _ _ => trivial
  unfold write
  dsimp only
  generalize (if a.ratio ≠ 1 ∨ a.offset ≠ 0 then (value - a.offset) / a.ratio else value) = raw
  split
  · exact .bind (.throw _) fun _ h => by cases h
  · split
    · split
      · exact hraw _
      · exact .throw _
    · exact hraw _

theorem BinaryOutput.orderly_writeValue {d : BinaryOutput} (value : Bool)
    (hcoil : ∀ c, d.coil = some c → coil c) :
    Orderly coil (d.writeValue value : SetScript ι Unit) := by
  unfold writeValue
  cases h : d.coil with
  | none => exact .emit trivial fun _ _ => trivial
  | some c => exact .emit (hcoil c h) fun _ _ => trivial

/-! ## The frequency of a PWM -/

/-- The requests of a setting write its registers. -/
theorem recorded_runs {registers : List (ℕ × Word)} {done : Prop} (actions : List (Action ι))
    (h : Recorded r (done ∨ (lastValue registers r).isSome) actions) :
    Recorded r done ((runs registers).map
      (fun run => Action.writeRegisters run.1 run.2 false true) ++ actions) := by
  rw [← overlay_runs] at h
  generalize runs registers = requests at h
  induction requests generalizing done with
  | nil => exact h.mono fun h => h.elim id (by simp)
  | cons run requests ih =>
    refine ih (h.mono ?_)
    rintro (h | h)
    · exact .inl (.inl h)
    · rw [List.map_cons, Overlay.overlay, Option.isSome_or, Bool.or_eq_true] at h
      exact h.elim .inr fun h => .inl (.inr h)

theorem recorded_setRegisters (registers : List (ℕ × Word)) {done : Prop}
    (h : (lastValue registers r).isSome → done) :
    Recorded r done (registers.map fun register =>
      (Action.setRegister register.1 [register.2] : Action ι)) := by
  induction registers with
  | nil => trivial
  | cons register registers ih =>
    simp only [lastValue, List.map_cons, Overlay.overlay, Option.isSome_or,
      Bool.or_eq_true] at h ih
    exact ⟨fun covered => h (.inr covered), ih fun later => h (.inl later)⟩

theorem PwmFrequency.orderly_write (values : List (ℕ × ℕ)) :
    Orderly coil (PwmFrequency.write values : SetScript ι Unit) := by
  constructor
  · intro a mem
    unfold PwmFrequency.write at mem
    rcases List.mem_append.mp mem with mem | mem <;>
    · obtain ⟨x, -, rfl⟩ := List.mem_map.mp mem
      trivial
  · intro r done
    unfold PwmFrequency.write
    exact recorded_runs _ (recorded_setRegisters _ .inr)

theorem PwmFrequency.orderly_set (frequency : PwmFrequency) (id : ℕ) (p : PwmState) (freq : ℚ) :
    Orderly coil (frequency.set id p freq : SetScript ι PwmState) := by
  have hassign : ∀ p : PwmState, Orderly coil (do
      Script.emit (.assignPwm id p)
      return p : SetScript ι PwmState) :=
    fun _ => .bind (.emit trivial fun _ _ => trivial) fun _ _ => .pure _
  unfold PwmFrequency.set
  cases frequency with
  | hard regcycle regprescale =>
    refine .bind (.ofExcept _) fun _ _ => ?_
    exact .bind (orderly_write _) fun _ _ => hassign _
  | soft regpreset regprescale =>
    dsimp only
    split
    · exact .bind (orderly_write _) fun _ _ => hassign _
    · split
      · exact .bind (.throw _) fun _ h => by cases h
      · exact .bind (orderly_write _) fun _ _ => hassign _

end Parts

/-! ## The classes -/

namespace Device

/-- The coils whose value is shown by a register of the device, and the one of the power. -/
def coils : Device → ℕ → Prop
  | binaryOutput d, c => d.coil = some c
  | digitalOutput d, c => d.coil = some c
  | owPower d, c => d.coil = c
  | _, _ => False

end Device

section Classes

variable (i : ι) {coil : ℕ → Prop}

theorem BinaryOutput.orderly_set {d : BinaryOutput} (params : Params)
    (hcoil : ∀ c, d.coil = some c → coil c) : Orderly coil (d.set i params) := by
  unfold set
  split
  · refine .bind (.ofExcept _) fun _ _ => ?_
    exact .bind (d.orderly_writeValue _ hcoil) fun _ _ => .setAlias _ _
  · exact .setAlias _ _

theorem DigitalOutput.orderly_keepDuties (frequency : PwmFrequency) (p : PwmState)
    (outputs : List (Entry ι)) : Orderly coil (keepDuties frequency p outputs) := by
  induction outputs with
  | nil => exact .pure _
  | cons e outputs ih =>
    obtain ⟨device, d, s⟩ := e
    refine .bind ?_ fun _ _ => ih
    rw [keepDuty_eq]
    refine .bind (.ofExcept _) fun raw _ => ?_
    cases raw with
    | none => exact .pure _
    | some raw =>
      exact .bind (Accessor.orderly_write _ _) fun _ _ => .emit trivial fun _ _ => trivial

theorem DigitalOutput.orderly_set [DecidableEq ι] {d : DigitalOutput} (s : State) (p : PwmState)
    (outputs : List (Entry ι)) (params : Params) (hcoil : ∀ c, d.coil = some c → coil c) :
    Orderly coil (d.set i s p outputs params) := by
  have hwrite : ∀ value, Orderly coil (d.writeValue value : SetScript ι Unit) :=
    fun value => d.orderly_writeValue value hcoil
  unfold set
  refine .bind (.ofExcept _) fun parsed _ => ?_
  refine .bind ?_ fun _ _ => .setAlias _ _
  rw [apply_parts]
  refine .bind ?_ fun p' _ => ?_
  · unfold applyFreq
    split
    · refine .bind (PwmFrequency.orderly_set _ _ _ _) fun _ _ => ?_
      exact .bind (orderly_keepDuties _ _ _) fun _ _ => .pure _
    · exact .pure _
  · unfold applyDuty
    split
    · refine .bind (hwrite _) fun _ _ => ?_
      split
      · exact .bind (.emit trivial fun _ _ => trivial) fun _ _ => Accessor.orderly_write _ _
      · exact .pure _
    · split
      · refine .bind (hwrite _) fun _ _ => ?_
        exact .bind (.ofExcept _) fun _ _ => Accessor.orderly_write _ _
      · exact .bind (.ofExcept _) fun _ _ => Accessor.orderly_write _ _
    · exact .pure _

theorem DIMode.orderly_set (m : DIMode) (s : State) (mode dsMode : Option String) :
    Orderly coil (m.set i s mode dsMode) := by
  have hmode : ∀ mode : String, Orderly coil (do
      if m.regmode.isSome then
        m.accessorMode.write (if mode = "DirectSwitch" then 1 else 0)
      Script.emit (.assign i (.mode mode)) : SetScript ι Unit) := by
    intro mode
    split
    · exact .bind (Accessor.orderly_write _ _) fun _ _ => .emit trivial fun _ _ => trivial
    · exact .emit trivial fun _ _ => trivial
  unfold set
  refine .bind (.ofExcept _) fun _ _ => ?_
  cases dsMode
  case' some dsMode _ =>
    dsimp only
    generalize (if dsMode = "Inverted" then (1 : ℚ) else 0) = inverted
    generalize (if dsMode = "Toggle" then (1 : ℚ) else 0) = toggle
    split
    all_goals
      refine .bind (Accessor.orderly_write _ _) fun _ _ => ?_
      refine .bind (Accessor.orderly_write _ _) fun _ _ => ?_
      refine .bind (.emit trivial fun _ _ => trivial) fun _ _ => ?_
  all_goals
    cases mode with
    | none => exact .pure _
    | some mode => exact hmode mode

theorem DigitalInput.orderly_set (d : DigitalInput) (s : Attrs) (params : Params) :
    Orderly coil (d.set i s params) := by
  have hcounter : ∀ counter : ℤ, Orderly coil (do
      d.accessorCounter.write counter
      SetScript.setAlias i params.aliasName : SetScript ι Unit) :=
    fun _ => .bind (Accessor.orderly_write _ _) fun _ _ => .setAlias _ _
  unfold set
  refine .bind (.ofExcept _) fun parsed _ => ?_
  refine .bind (DIMode.orderly_set i _ _ _ _) fun _ _ => ?_
  cases params.counterMode
  case' some counterMode =>
    dsimp only
    split
    case' isTrue =>
      refine .bind (.emit trivial fun _ _ => trivial) fun _ _ => ?_
      refine .bind (.emit trivial fun _ _ => trivial) fun _ _ => ?_
  all_goals
    obtain ⟨_ | debounce, _ | counter⟩ := parsed
    · exact .setAlias _ _
    · exact hcounter counter
    · exact .bind (Accessor.orderly_write _ _) fun _ _ => .setAlias _ _
    · exact .bind (Accessor.orderly_write _ _) fun _ _ => hcounter counter

theorem AnalogIO.orderly_set (d : AnalogIO) (s : State) (params : Params) :
    Orderly coil (d.set i s params) := by
  have hmode : ∀ mode, Orderly coil (d.iomode.set s.iomode mode : SetScript ι ModeData) := by
    intro mode
    unfold IOMode.set
    refine .bind (.ofExcept _) fun data _ => ?_
    split
    · exact .bind (Accessor.orderly_write _ _) fun _ _ => .pure _
    · exact .pure _
  rw [set_parts]
  refine .bind (.ofExcept _) fun value _ => ?_
  rw [applyParsed_eq]
  refine .bind ?_ fun _ _ => .bind ?_ fun _ _ => .setAlias _ _
  · cases params.mode with
    | none => exact .pure _
    | some mode => exact .bind (hmode mode) fun _ _ => .pure _
  · cases value with
    | none => exact .pure _
    | some value => exact Accessor.orderly_write _ _

theorem DataPoint.orderly_set (d : DataPoint) (params : Params) :
    Orderly coil (d.set i params) := by
  unfold set
  cases params.value with
  | none => exact .setAlias _ _
  | some value =>
    dsimp only
    split
    · exact .bind (.throw _) fun _ h => by cases h
    · refine .bind (.ofExcept _) fun _ _ => ?_
      exact .bind (Accessor.orderly_write _ _) fun _ _ => .setAlias _ _

theorem OwPower.orderly_set (d : OwPower) (params : Params) (hcoil : coil d.coil) :
    Orderly coil (d.set i params) := by
  unfold set
  refine .bind (.setAlias _ _) fun _ _ => ?_
  cases params.value with
  | none => exact .pure _
  | some value =>
    refine .bind (.ofExcept _) fun _ _ => ?_
    exact .bind (.emit hcoil fun _ _ => trivial) fun _ _ => .emit trivial fun _ _ => trivial

theorem NvSave.orderly_set (d : NvSave) (s : State) (params : Params) :
    Orderly coil (d.set i s params) := by
  unfold set
  refine .bind (.setAlias _ _) fun _ _ => ?_
  cases params.value with
  | none => exact .pure _
  | some value =>
    refine .bind (.ofExcept _) fun held _ => ?_
    split
    · split
      · exact .bind (.throw _) fun _ h => by cases h
      · refine .bind (.emit trivial fun _ _ => trivial) fun _ _ => ?_
        exact .emit trivial fun _ _ => trivial
    · exact .pure _

theorem Watchdog.orderly_set (d : Watchdog) (params : Params) :
    Orderly coil (d.set i params) := by
  have hreset : ∀ reset : Bool, Orderly coil (do
      if reset then Script.emit (.coilWithoutResponse d.resetCoil.toNat none) :
        SetScript ι Unit) := by
    rintro (_ | _)
    · exact .pure _
    · exact .emit trivial fun _ _ => trivial
  unfold set
  refine .bind (.ofExcept _) fun parsed _ => ?_
  refine .bind (.setAlias _ _) fun _ _ => ?_
  obtain ⟨value, timeout, reset⟩ := parsed
  cases value
  case' some value => refine .bind (Accessor.orderly_write _ _) fun _ _ => ?_
  all_goals
    cases timeout with
    | none => exact hreset reset
    | some timeout => exact .bind (Accessor.orderly_write _ _) fun _ _ => hreset reset

theorem Device.orderly_set [DecidableEq ι] (d : Device) (p : PwmState)
    (outputs : List (DigitalOutput.Entry ι)) (s : d.State) (params : d.Params) :
    Orderly d.coils (d.set i p outputs s params) := by
  cases d with
  | binaryOutput d => exact BinaryOutput.orderly_set i params fun _ h => h
  | digitalOutput d => exact DigitalOutput.orderly_set i s p outputs params fun _ h => h
  | digitalInput d => exact DigitalInput.orderly_set i d s.toAttrs params
  | analog d => exact AnalogIO.orderly_set i d s params
  | dataPoint d => exact DataPoint.orderly_set i d params
  | owPower d => exact OwPower.orderly_set i d params rfl
  | nvSave d => exact NvSave.orderly_set i d s params
  | watchdog d => exact Watchdog.orderly_set i d params

end Classes

end Modbus

end Evok
