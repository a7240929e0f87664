import Evok.Modbus.Device

/-!
# What the checks remember

A check compares attributes with remembered ones. A device remembers a state when its next check
that reports no change ends in this state, also after the assignments of `set()` in between. The
registers a unit can read do not change, so a read of a register raises always or never.

## Main definitions

* `ReaderOf`: a reader of a unit by the registers it can read.
* `Device.Remembers`: the device would report a change from the state.

## Main results

* `DigitalOutput.check_ok`, `DigitalInput.check_ok`: what the checks read and remember.
* `Device.Remembers.quiet`: a check without a change ends in the remembered state.
* `Device.Remembers.assign`: `set()` keeps what is remembered, besides its `pwm_duty`.
-/

namespace Evok

namespace Modbus

/-- The registers which can be read, by index, count and is_input. -/
abbrev Known := ℕ → ℕ → Bool → Bool

/-- The reader of a filled cache: only the registers of a block can be read. -/
def ReaderOf (known : Known) (read : Reader) : Prop :=
  ∀ index count isInput, if known index count isInput then
    ∃ registers, read index count isInput = .ok registers
    else read index count isInput = .error (.unknownRegister isInput index count)

variable {known : Known} {r r' : Reader}

/-! ## Accessors -/

/-- The accessor raises on every read. -/
def Accessor.Raises (known : Known) (a : Accessor) : Prop :=
  a.type ≠ .unknown ∧ ∃ index, a.index = some index ∧ known index a.type.count a.isInput = false

theorem ReaderOf.ok_or_unknown (h : ReaderOf known r) (index count : ℕ) (isInput : Bool) :
    (∃ registers, r index count isInput = .ok registers) ∨
      known index count isInput = false ∧
        r index count isInput = .error (.unknownRegister isInput index count) := by
  have := h index count isInput
  split at this
  · exact .inl this
  · next unknown => exact .inr ⟨by simpa using unknown, this⟩

namespace Accessor

theorem readRaw_error (h : ReaderOf known r) {a : Accessor} {e : CacheError}
    (he : a.readRaw r = .error e) :
    a.Raises known ∧ ∃ isInput index count, e = .unknownRegister isInput index count := by
  unfold readRaw at he
  split at he
  · cases he
  · cases he
  · next index hindex notUnknown =>
    rcases h.ok_or_unknown index a.type.count a.isInput with ⟨_, ok⟩ | ⟨unknown, error⟩
    · simp [ok, Functor.map, Except.map] at he
    · simp only [error, Functor.map, Except.map, Except.error.injEq] at he
      exact ⟨⟨notUnknown, index, hindex, unknown⟩, _, _, _, he.symm⟩

theorem Raises.readRaw (h : ReaderOf known r) {a : Accessor} (raises : a.Raises known) :
    ∃ isInput index count, a.readRaw r = .error (.unknownRegister isInput index count) := by
  obtain ⟨notUnknown, index, hindex, unknown⟩ := raises
  have error := h index a.type.count a.isInput
  rw [unknown, if_neg Bool.false_ne_true] at error
  refine ⟨a.isInput, index, a.type.count, ?_⟩
  unfold Accessor.readRaw
  split
  · next isUnknown => exact absurd isUnknown notUnknown
  · next noIndex _ =>
    rw [noIndex] at hindex
    cases hindex
  · next index' hindex' _ =>
    obtain rfl := Option.some.inj (hindex.symm.trans hindex')
    rw [error]
    rfl

theorem read_error (h : ReaderOf known r) {a : Accessor} {e : CacheError}
    (he : a.read r = .error e) :
    a.Raises known ∧ ∃ isInput index count, e = .unknownRegister isInput index count := by
  apply readRaw_error h (e := e)
  unfold Accessor.read at he
  cases raw : a.readRaw r with
  | ok x => simp [raw, Functor.map, Except.map] at he
  | error e' => simpa [raw, Functor.map, Except.map] using he

theorem Raises.read (h : ReaderOf known r) {a : Accessor} (raises : a.Raises known) :
    ∃ isInput index count, a.read r = .error (.unknownRegister isInput index count) := by
  obtain ⟨isInput, index, count, error⟩ := raises.readRaw h
  exact ⟨isInput, index, count, by simp [Accessor.read, error, Functor.map, Except.map]⟩

theorem readInt_error (h : ReaderOf known r) {a : Accessor} {e : CacheError}
    (he : a.readInt r = .error e) : a.Raises known := by
  unfold Accessor.readInt at he
  cases value : a.read r with
  | ok x => simp [value, Functor.map, Except.map] at he
  | error e' => exact (read_error h value).1

theorem Raises.readInt (h : ReaderOf known r) {a : Accessor} (raises : a.Raises known) :
    ∃ isInput index count, a.readInt r = .error (.unknownRegister isInput index count) := by
  obtain ⟨isInput, index, count, error⟩ := raises.read h
  exact ⟨isInput, index, count, by simp [Accessor.readInt, error, Functor.map, Except.map]⟩

end Accessor

/-! ## Checks of the classes -/

namespace BinaryOutput

theorem quiet {d : BinaryOutput} {s s' : State}
    (h : d.checkNewData r s = (s', .ok false)) : s' = s := by
  unfold checkNewData at h
  split at h
  · cases h
  · next value _ =>
    obtain ⟨rfl, same⟩ : ⟨value⟩ = s' ∧ s.value = value := by simpa using h
    rw [← same]

theorem error {d : BinaryOutput} {s s' : State} {e : CacheError}
    (h : d.checkNewData r s = (s', .error e)) : s' = s := by
  unfold checkNewData at h
  split at h
  · exact (Prod.mk.inj h).1.symm
  · simp at h

/-- The value of a checked output is known, its register is a bit. -/
theorem check_value {d : BinaryOutput} {s s' : State} {changed : Bool}
    (h : d.checkNewData r s = (s', .ok changed)) : s'.value ≠ none := by
  unfold checkNewData at h
  split at h
  · cases (Prod.mk.inj h).2
  · next value read =>
    obtain ⟨rfl, -⟩ := Prod.mk.inj h
    rintro rfl
    cases raw : r d.reg 1 false <;>
      simp [accessor, Accessor.readInt, Accessor.read, Accessor.readRaw, Functor.map, Except.map,
        DataType.count, DataType.decode, Accessor.round, raw] at read

theorem raises (hr : ReaderOf known r) (hr' : ReaderOf known r') {d : BinaryOutput}
    {s s' : State} {e : CacheError} (h : d.checkNewData r s = (s', .error e)) (t : State) :
    ∃ e, d.checkNewData r' t = (t, .error e) := by
  unfold checkNewData at h
  split at h
  · next e' he =>
    obtain ⟨isInput, index, count, he'⟩ := (Accessor.readInt_error hr he).readInt hr'
    exact ⟨.unknownRegister isInput index count, by simp only [checkNewData, he']⟩
  · simp at h

end BinaryOutput

namespace DigitalOutput

/-- The mode follows the duty of the last check. -/
def ModeOfDuty (s : State) : Prop :=
  s.mode = some s.dutyMode

theorem dutyMode_congr {s s' : State} (h : s'.pwmDuty = s.pwmDuty) : s'.dutyMode = s.dutyMode := by
  unfold State.dutyMode State.pwmOn
  rw [h]

theorem checkPwm_ok {d : DigitalOutput} {p : PwmState} {ps : PwmState × State} {s : State}
    {changed : Bool} (h : d.checkPwm r p s = (ps, .ok changed)) :
    ps.2.toState = s.toState ∧ ps.2.mode = s.mode ∧
      (changed = false → ps.2.pwmFreq = s.pwmFreq ∧ ps.2.pwmDuty = s.pwmDuty) := by
  unfold checkPwm at h
  split at h
  · obtain rfl := (Prod.mk.inj h).1
    simp
  · split at h
    · cases (Prod.mk.inj h).2
    · dsimp only at h
      split at h
      · cases (Prod.mk.inj h).2
      · obtain ⟨rfl, ok⟩ := Prod.mk.inj h
        obtain rfl := Except.ok.inj ok
        refine ⟨rfl, rfl, fun same => ?_⟩
        have eq := Prod.mk.inj (not_not.mp (of_decide_eq_false same))
        exact ⟨eq.1.symm, eq.2.symm⟩

theorem checkPwm_error (hr : ReaderOf known r) {d : DigitalOutput} {p : PwmState}
    {ps : PwmState × State} {s : State} {e : CacheError}
    (h : d.checkPwm r p s = (ps, .error e)) :
    ps.2 = s ∨ ∀ r', ReaderOf known r' → ∀ p t, ∃ ps e, d.checkPwm r' p t = (ps, .error e) := by
  unfold checkPwm at h
  split at h
  · simp at h
  · next pwm hpwm =>
    split at h
    · exact .inl (by rw [← (Prod.mk.inj h).1])
    · dsimp only at h
      split at h
      · next e' he =>
        refine .inr fun r' hr' p t => ?_
        obtain ⟨isInput, index, count, he'⟩ := (Accessor.readInt_error hr he).readInt hr'
        simp only [checkPwm, hpwm, he']
        split
        · exact ⟨_, _, rfl⟩
        · exact ⟨_, _, rfl⟩
      · simp at h

/-- A check which does not raise sets the mode by the duty; without a change it ends in the same
state up to the mode. -/
theorem check_ok {d : DigitalOutput} {p : PwmState} {ps : PwmState × State} {s : State}
    {changed : Bool} (h : d.checkNewData r p s = (ps, .ok changed)) :
    ModeOfDuty ps.2 ∧ (changed = false →
      ps.2.toState = s.toState ∧ ps.2.pwmFreq = s.pwmFreq ∧ ps.2.pwmDuty = s.pwmDuty) := by
  unfold checkNewData at h
  split at h
  · simp at h
  · next p' s' isChange pwm =>
    obtain ⟨base, -, same⟩ := checkPwm_ok pwm
    dsimp only at h
    split at h
    · cases (Prod.mk.inj h).2
    · next b changed' binary =>
      obtain ⟨rfl, ok⟩ := Prod.mk.inj h
      obtain rfl := Except.ok.inj ok
      refine ⟨rfl, fun unchanged => ?_⟩
      rw [Bool.or_eq_false_iff] at unchanged
      obtain ⟨rfl, rfl⟩ := unchanged
      exact ⟨(BinaryOutput.quiet binary).trans base, same rfl⟩

/-- A check which raises changes nothing, or the next checks raise too. -/
theorem check_error (hr : ReaderOf known r) {d : DigitalOutput} {p : PwmState}
    {ps : PwmState × State} {s : State} {e : CacheError}
    (h : d.checkNewData r p s = (ps, .error e)) :
    ps.2 = s ∨ ∀ r', ReaderOf known r' → ∀ p t, ∃ ps e, d.checkNewData r' p t = (ps, .error e) := by
  unfold checkNewData at h
  split at h
  · next ps' e' pwm =>
    obtain rfl := (Prod.mk.inj h).1
    refine (checkPwm_error hr pwm).imp id fun raises r' hr' p t => ?_
    obtain ⟨ps, e, error⟩ := raises r' hr' p t
    exact ⟨ps, e, by simp [checkNewData, error]⟩
  · dsimp only at h
    split at h
    · next binary =>
      refine .inr fun r' hr' p t => ?_
      obtain ⟨e, error⟩ := BinaryOutput.raises hr hr' binary t.toState
      simp only [checkNewData]
      split
      · exact ⟨_, _, rfl⟩
      · next p' s' isChange pwm =>
        rw [show s'.toState = t.toState from (checkPwm_ok pwm).1, error]
        exact ⟨_, _, rfl⟩
    · simp at h

/-- The value of a checked output is known. -/
theorem check_value {d : DigitalOutput} {p : PwmState} {ps : PwmState × State} {s : State}
    {changed : Bool} (h : d.checkNewData r p s = (ps, .ok changed)) : ps.2.value ≠ none := by
  unfold checkNewData at h
  split at h
  · cases (Prod.mk.inj h).2
  · dsimp only at h
    split at h
    · cases (Prod.mk.inj h).2
    · next binary =>
      obtain ⟨rfl, -⟩ := Prod.mk.inj h
      exact BinaryOutput.check_value binary

theorem full_eq {d : DigitalOutput} {s s' : State} (mode : s'.mode = s.mode)
    (same : s'.toState = s.toState ∧ s'.pwmFreq = s.pwmFreq ∧ s'.pwmDuty = s.pwmDuty) :
    d.full s' = d.full s := by
  obtain ⟨base, freq, duty⟩ := same
  funext c
  simp only [full, base, mode, freq, duty]

end DigitalOutput

namespace DigitalInput

/-- Without a change the attributes are the ones of the previous scan. -/
theorem check_quiet {d : DigitalInput} {s s' : State} (h : d.checkNewData r s = (s', .ok false)) :
    s.scannedState = some s'.toAttrs ∧ s'.scannedState = some s'.toAttrs := by
  unfold checkNewData at h
  split at h
  · cases (Prod.mk.inj h).2
  · obtain ⟨rfl, ok⟩ := Prod.mk.inj h
    exact ⟨(not_not.mp (of_decide_eq_false (Except.ok.inj ok))).symm, rfl⟩

/-- After a check the attributes are the ones of the scan. -/
theorem check_ok {d : DigitalInput} {s s' : State} {changed : Bool}
    (h : d.checkNewData r s = (s', .ok changed)) : s'.scannedState = some s'.toAttrs := by
  unfold checkNewData at h
  split at h
  · cases (Prod.mk.inj h).2
  · obtain ⟨rfl, -⟩ := Prod.mk.inj h
    rfl

/-- A check which raises remembers the previous scan. -/
theorem check_error {d : DigitalInput} {s s' : State} {e : CacheError}
    (h : d.checkNewData r s = (s', .error e)) : s'.scannedState = s.scannedState := by
  unfold checkNewData at h
  split at h
  · rw [← (Prod.mk.inj h).1]
  · cases (Prod.mk.inj h).2

end DigitalInput

namespace AnalogIO

theorem readValue_error (hr : ReaderOf known r) {a : Accessor} {e : CacheError}
    (h : readValue a r = .error e) : a.Raises known := by
  unfold readValue at h
  split at h
  · cases h
  · cases h
  · next he => exact (Accessor.read_error hr he).1

theorem readValue_raises (hr : ReaderOf known r) {a : Accessor} (raises : a.Raises known) :
    ∃ e, readValue a r = .error e := by
  obtain ⟨isInput, index, count, error⟩ := raises.read hr
  exact ⟨.unknownRegister isInput index count, by simp [readValue, error]⟩

/-- The accessor is the one of the mode; without a change of the mode it is kept if it was so. -/
theorem updateMode_ok {d : AnalogIO} {s s' : State} {changed : Bool}
    (h : d.updateMode r s = (s', .ok changed)) :
    s'.value = s.value ∧ s'.accessorMode = s'.iomode.mode ∧
      (d.Makes s.accessorMode → d.Makes s'.accessorMode) ∧
      (changed = false → s'.iomode = s.iomode ∧
        (s.accessorMode = s.iomode.mode → s'.accessor = s.accessor)) := by
  rcases d.updateMode_cases r s with ⟨e, -, error⟩ | ⟨iomode, changed', -, same, updated⟩
  · rw [error] at h
    cases (Prod.mk.inj h).2
  · rw [h] at updated
    cases updated with
    | made moved makes new =>
      refine ⟨rfl, rfl, fun _ => makes, fun unchanged => ⟨same unchanged, fun settled => ?_⟩⟩
      simp [unchanged, same unchanged, settled] at moved
    | kept _ settled => exact ⟨rfl, settled.symm, id, fun _ => ⟨rfl, fun _ => rfl⟩⟩

/-- An update which raises changes nothing, or the accessor of the new mode cannot be made. -/
theorem updateMode_error {d : AnalogIO} {s s' : State} {e : CacheError}
    (h : d.updateMode r s = (s', .error e)) :
    s' = s ∨ s'.accessorMode = s.accessorMode ∧ ¬d.Makes s'.iomode.mode := by
  rcases d.updateMode_cases r s with ⟨e', -, error⟩ | ⟨iomode, changed', -, same, updated⟩
  · exact .inl (Prod.mk.inj (h.symm.trans error)).1
  · rw [h] at updated
    cases updated with
    | raised moved zero message => exact .inr ⟨rfl, zero⟩

theorem check_quiet {d : AnalogIO} {s s' : State} (h : d.checkNewData r s = (s', .ok false)) :
    s'.iomode = s.iomode ∧ s'.value = s.value := by
  unfold checkNewData at h
  split at h
  · cases (Prod.mk.inj h).2
  · next s₁ hasChanged update =>
    obtain ⟨value, -, -, same⟩ := updateMode_ok update
    split at h
    · cases (Prod.mk.inj h).2
    · next v _ =>
      obtain ⟨rfl, ok⟩ := Prod.mk.inj h
      have unchanged := of_decide_eq_false (Except.ok.inj ok)
      rw [not_or, not_not, Bool.not_eq_true] at unchanged
      exact ⟨(same unchanged.2).1, unchanged.1.trans value⟩

theorem full_eq {d : AnalogIO} {s s' : State} (same : s'.iomode = s.iomode ∧ s'.value = s.value) :
    d.full s' = d.full s := by
  funext c
  simp only [full, same.1, same.2]

/-- The accessor stays one which can be made. -/
theorem check_makes {d : AnalogIO} {s : State} (makes : d.Makes s.accessorMode) (r : Reader) :
    d.Makes (d.checkNewData r s).1.accessorMode := by
  unfold checkNewData
  split
  · next s₁ e update =>
    rcases updateMode_error update with rfl | ⟨same, -⟩
    · exact makes
    · exact same ▸ makes
  · next s₁ hasChanged update =>
    have makes₁ := (updateMode_ok update).2.2.1 makes
    split <;> exact makes₁

/-- The accessor of a mode which cannot be made is tried until the mode changes. -/
theorem check_unmade {d : AnalogIO} {s : State} (makes : d.Makes s.accessorMode)
    (zero : ¬d.Makes s.iomode.mode) (r : Reader) : (d.checkNewData r s).2 ≠ .ok false := by
  unfold checkNewData
  split
  · simp
  · next s₁ changed update =>
    cases changed with
    | false =>
      obtain ⟨-, settled, makes₁, same⟩ := updateMode_ok update
      rw [settled, (same rfl).1] at makes₁
      exact absurd (makes₁ makes) zero
    | true => split <;> simp

/-- A check which raises changes nothing, or the next checks raise until the mode changes. -/
theorem check_error (hr : ReaderOf known r) {d : AnalogIO} {s s' : State} {e : CacheError}
    (makes : d.Makes s.accessorMode) (h : d.checkNewData r s = (s', .error e)) :
    s' = s ∨ ∀ r', ReaderOf known r' → (d.checkNewData r' s').2 ≠ .ok false := by
  unfold checkNewData at h
  split at h
  · next s₁ e' update =>
    obtain rfl := (Prod.mk.inj h).1
    refine (updateMode_error update).imp_right fun ⟨same, zero⟩ r' _ => ?_
    exact check_unmade (same ▸ makes) zero r'
  · next s₁ hasChanged update =>
    split at h
    · next e' error =>
      obtain rfl := (Prod.mk.inj h).1
      obtain ⟨-, settled, -⟩ := updateMode_ok update
      refine .inr fun r' hr' => ?_
      have raises := readValue_error hr error
      unfold checkNewData
      split
      · simp
      · next s₂ changed update' =>
        cases changed with
        | false =>
          rw [((updateMode_ok update').2.2.2 rfl).2 settled]
          obtain ⟨e, error'⟩ := readValue_raises hr' raises
          simp [error']
        | true => split <;> simp
    · cases (Prod.mk.inj h).2

end AnalogIO

namespace DataPoint

theorem readIsValid_error (hr : ReaderOf known r) (hr' : ReaderOf known r') {d : DataPoint}
    {reg : ℕ} {mask : Word} {e : CacheError} (h : d.readIsValid r reg mask = .error e) :
    ∃ e, d.readIsValid r' reg mask = .error e := by
  unfold readIsValid at h
  dsimp only at h
  split at h
  · cases h
  · cases h
  · next he =>
    obtain ⟨isInput, index, count, he'⟩ := (Accessor.readInt_error hr he).readInt hr'
    exact ⟨.unknownRegister isInput index count, by simp only [readIsValid, he']⟩

theorem check_quiet {d : DataPoint} {s s' : State} (h : d.checkNewData r s = (s', .ok false)) :
    s' = s := by
  unfold checkNewData at h
  split at h
  · cases (Prod.mk.inj h).2
  · next value _ =>
    dsimp only at h
    split at h
    · split at h
      · cases (Prod.mk.inj h).2
      · next valid _ =>
        obtain ⟨rfl, ok⟩ := Prod.mk.inj h
        have unchanged := Except.ok.inj ok
        rw [Bool.or_eq_false_iff] at unchanged
        have value_eq := not_not.mp (of_decide_eq_false unchanged.1)
        have valid_eq := not_not.mp (of_decide_eq_false unchanged.2)
        rw [← value_eq, ← valid_eq]
    · obtain ⟨rfl, ok⟩ := Prod.mk.inj h
      have value_eq := not_not.mp (of_decide_eq_false (Except.ok.inj ok))
      rw [← value_eq]

/-- A check which raises changes nothing, or the next checks raise too. -/
theorem check_error (hr : ReaderOf known r) {d : DataPoint} {s s' : State} {e : CacheError}
    (h : d.checkNewData r s = (s', .error e)) :
    s' = s ∨ ∀ r', ReaderOf known r' → (d.checkNewData r' s').2 ≠ .ok false := by
  unfold checkNewData at h
  split at h
  · exact .inl (Prod.mk.inj h).1.symm
  · dsimp only at h
    split at h
    · next reg mask kind =>
      split at h
      · next error =>
        refine .inr fun r' hr' => ?_
        obtain ⟨e', error'⟩ := readIsValid_error hr hr' error
        unfold checkNewData
        split
        · simp
        · simp [kind, error']
      · cases (Prod.mk.inj h).2
    · cases (Prod.mk.inj h).2

end DataPoint

namespace Watchdog

theorem check_quiet {d : Watchdog} {s s' : State} (h : d.checkNewData r s = (s', .ok false)) :
    s' = s := by
  unfold checkNewData at h
  dsimp only at h
  split at h
  · cases (Prod.mk.inj h).2
  · split at h
    · cases (Prod.mk.inj h).2
    · obtain ⟨rfl, ok⟩ := Prod.mk.inj h
      have eq := not_not.mp (of_decide_eq_false (Except.ok.inj ok))
      simp only [Prod.mk.injEq] at eq
      obtain ⟨value, boot, timeout⟩ := eq
      rw [← value, ← boot, ← timeout]

/-- A check which raises changes nothing, or the next checks raise too. -/
theorem check_error (hr : ReaderOf known r) {d : Watchdog} {s s' : State} {e : CacheError}
    (h : d.checkNewData r s = (s', .error e)) :
    s' = s ∨ ∀ r', ReaderOf known r' → (d.checkNewData r' s').2 ≠ .ok false := by
  unfold checkNewData at h
  dsimp only at h
  split at h
  · exact .inl (Prod.mk.inj h).1.symm
  · split at h
    · next error =>
      refine .inr fun r' hr' => ?_
      obtain ⟨isInput, index, count, error'⟩ := (Accessor.readInt_error hr error).readInt hr'
      unfold checkNewData
      dsimp only
      split
      · simp
      · simp [error']
    · cases (Prod.mk.inj h).2

end Watchdog

/-! ## Remembered states -/

namespace DigitalOutput

/-- The register of the duty is read again by each check. -/
theorem check_pwmDutyVal {d : DigitalOutput} {p : PwmState} {s : State} {raw : Option ℤ}
    {ps : PwmState × State} (h : d.checkNewData r p { s with pwmDutyVal := raw } = (ps, .ok false)) :
    ∃ ps', d.checkNewData r p s = (ps', .ok false) ∧ d.full ps'.2 = d.full ps.2 := by
  unfold checkNewData checkPwm at h ⊢
  cases hpwm : d.pwm with
  | none =>
    simp only [hpwm] at h ⊢
    split at h
    · cases (Prod.mk.inj h).2
    · next b changed binary =>
      obtain ⟨rfl, ok⟩ := Prod.mk.inj h
      exact ⟨(p, { s with toState := b, mode := some s.dutyMode }), by rw [ok], rfl⟩
  | some idpwm =>
    simp only [hpwm] at h ⊢
    cases hupdate : idpwm.2.update r p with
    | mk p' result =>
      cases result with
      | error e => simp [hupdate] at h
      | ok b =>
        simp only [hupdate] at h ⊢
        cases hraw : d.accessorPwmDuty.readInt r with
        | error e => simp [hraw] at h
        | ok raw' =>
          simp only [hraw] at h ⊢
          exact ⟨ps, h, rfl⟩

end DigitalOutput

namespace Device

/-- A check without a change from the state ends in the state `v` as it is sent. -/
def QuietAs (known : Known) (d : Device) (s v : d.State) : Prop :=
  ∀ r p ps, ReaderOf known r → d.checkNewData r p s = (ps, .ok false) → d.full ps.2 = d.full v

/-- The device would report a change from the state `v`, also after the assignments of `set()`:
the inputs and the powers compare with their fields, the other classes with their attributes. -/
def Remembers (known : Known) : (d : Device) → d.State → d.State → Prop
  | digitalInput d, s, v => ∀ scanned, s.scannedState = some scanned → d.full v = d.fullOf scanned
  | owPower d, s, v => d.full v = d.full ⟨s.checkedValue, s.checkedValue⟩
  | d, s, v => d.QuietAs known s v

/-- The attributes compared by the next check are the ones of the state: no `set()` of an input
or of a power since the last check. -/
def InSync : (d : Device) → d.State → Prop
  | digitalInput _, s => ∀ scanned, s.scannedState = some scanned → s.toAttrs = scanned
  | owPower _, s => s.value = s.checkedValue
  | _, _ => True

/-- A device before its first check. -/
def Unchecked : (d : Device) → d.State → Prop
  | digitalInput _, s => s.scannedState = none
  | _, _ => True

/-- The mode of an output follows its duty, before its first check it has no value. -/
def Settled : (d : Device) → d.State → Prop
  | digitalOutput _, s => DigitalOutput.ModeOfDuty s ∨ s.value = none
  | _, _ => True

/-- The accessor of an analog device is one which can be made. -/
def Sound : (d : Device) → d.State → Prop
  | analog d, s => d.Makes s.accessorMode
  | _, _ => True

/-- The assignment of `pwm_duty`, the only one which a check does not see. -/
def Hides : Assign → Prop
  | .pwmDuty _ => True
  | _ => False

instance : DecidablePred Hides
  | .pwmDuty _ => isTrue trivial
  | .pwmDutyVal _ | .counterMode _ | .dsMode _ | .mode _ | .owPower _ | .nvSave _ =>
    isFalse id

theorem Remembers.congr {d : Device} {s v v' : d.State} (h : d.Remembers known s v)
    (same : d.full v' = d.full v) : d.Remembers known s v' := by
  cases d with
  | digitalInput d => exact fun scanned hs => same.trans (h scanned hs)
  | owPower d => exact same.trans h
  | _ => exact fun r p ps hr quiet => (h r p ps hr quiet).trans same.symm

theorem init_settled (d : Device) : d.Settled d.init := by
  cases d with
  | digitalOutput d => exact .inr rfl
  | _ => trivial

theorem init_sound (d : Device) : d.Sound d.init := by
  cases d with
  | analog d => exact d.makes_none
  | _ => trivial

theorem init_inSync (d : Device) : d.InSync d.init := by
  cases d with
  | digitalInput d =>
    intro scanned hs
    cases hs
  | owPower d => rfl
  | _ => trivial

/-! ### Checks -/

section Check

variable {d : Device} {p : PwmState} {s v : d.State} {ps : PwmState × d.State}

/-- A check without a change ends in the state as it was before, for an input when it was checked
before. -/
theorem Settled.quiet (settled : d.Settled s) (fresh : d.Unchecked s) (checks : d.checks = true)
    (h : d.checkNewData r p s = (ps, .ok false)) : d.full ps.2 = d.full s := by
  cases d with
  | binaryOutput d =>
    obtain ⟨rfl, ok⟩ := Prod.mk.inj h
    exact congrArg d.full (BinaryOutput.quiet (Prod.ext rfl ok))
  | digitalOutput d =>
    obtain ⟨mode, same⟩ := DigitalOutput.check_ok h
    obtain ⟨base, freq, duty⟩ := same rfl
    rcases settled with settled | unread
    · refine DigitalOutput.full_eq ?_ ⟨base, freq, duty⟩
      rw [mode, DigitalOutput.dutyMode_congr duty, settled]
    · exact absurd ((congrArg (·.value) base).trans unread) (DigitalOutput.check_value h)
  | digitalInput d =>
    obtain ⟨rfl, ok⟩ := Prod.mk.inj h
    exact absurd (DigitalInput.check_quiet (Prod.ext rfl ok)).1 (by rw [fresh]; simp)
  | analog d =>
    obtain ⟨rfl, ok⟩ := Prod.mk.inj h
    have quiet := AnalogIO.check_quiet (Prod.ext rfl ok)
    exact AnalogIO.full_eq quiet
  | dataPoint d =>
    obtain ⟨rfl, ok⟩ := Prod.mk.inj h
    exact congrArg d.full (DataPoint.check_quiet (Prod.ext rfl ok))
  | owPower d =>
    obtain ⟨rfl, -⟩ := Prod.mk.inj h
    rfl
  | nvSave d => cases checks
  | watchdog d =>
    obtain ⟨rfl, ok⟩ := Prod.mk.inj h
    exact congrArg d.full (Watchdog.check_quiet (Prod.ext rfl ok))

/-- A check keeps the accessor sound. -/
theorem Sound.check (sound : d.Sound s) (r : Reader) (p : PwmState) :
    d.Sound (d.checkNewData r p s).1.2 := by
  cases d with
  | analog d => exact AnalogIO.check_makes sound r
  | _ => trivial

theorem Sound.assign (sound : d.Sound s) (a : Assign) : d.Sound (d.assign a s) := by
  cases d with
  | analog d => cases a <;> exact sound
  | _ => trivial

theorem Sound.readCounter (sound : d.Sound s) (r : Reader) : d.Sound (d.readCounter r s).1 := by
  cases d with
  | analog d => exact sound
  | _ => trivial

/-- A device whose checks raise always. -/
def Unreadable (known : Known) (d : Device) : Prop :=
  ∀ r p s ps changed, ReaderOf known r → d.checkNewData r p s ≠ (ps, .ok changed)

/-- The next check without a change keeps the state. -/
theorem Settled.remembers (settled : d.Settled s ∨ d.Unreadable known) (sync : d.InSync s)
    (checks : d.checks = true) : d.Remembers known s s := by
  have quiet : ∀ r p ps, ReaderOf known r → d.Unchecked s → d.checkNewData r p s = (ps, .ok false) →
      d.full ps.2 = d.full s := by
    intro r p ps hr fresh h
    rcases settled with settled | unreadable
    · exact settled.quiet fresh checks h
    · exact absurd h (unreadable r p s ps false hr)
  cases d with
  | digitalInput d =>
    intro scanned hs
    rw [← sync scanned hs]
    rfl
  | owPower d =>
    funext c
    simp only [OwPower.full, show s.value = s.checkedValue from sync]
  | nvSave d => cases checks
  | _ => exact fun r p ps hr h => quiet r p ps hr trivial h

/-- What a check which does not raise leaves. -/
theorem check_ok {changed : Bool} (h : d.checkNewData r p s = (ps, .ok changed)) :
    d.Settled ps.2 ∧ d.InSync ps.2 := by
  cases d with
  | digitalOutput d => exact ⟨.inl (DigitalOutput.check_ok h).1, trivial⟩
  | digitalInput d =>
    obtain ⟨rfl, ok⟩ := Prod.mk.inj h
    refine ⟨trivial, fun scanned hs => ?_⟩
    have hscan := DigitalInput.check_ok (Prod.ext rfl ok)
    exact Option.some.inj (hscan.symm.trans hs)
  | owPower d =>
    obtain ⟨rfl, -⟩ := Prod.mk.inj h
    exact ⟨trivial, rfl⟩
  | _ => exact ⟨trivial, trivial⟩

/-- The state sent before is the one of a check without a change. -/
theorem Remembers.quiet (hr : ReaderOf known r) (remembers : d.Remembers known s v)
    (checks : d.checks = true) (h : d.checkNewData r p s = (ps, .ok false)) :
    d.full ps.2 = d.full v := by
  cases d with
  | digitalInput d =>
    obtain ⟨rfl, ok⟩ := Prod.mk.inj h
    exact (remembers _ (DigitalInput.check_quiet (Prod.ext rfl ok)).1).symm
  | owPower d =>
    obtain ⟨rfl, ok⟩ := Prod.mk.inj h
    have same : s.value = s.checkedValue := by simpa using Except.ok.inj ok
    refine Eq.trans ?_ (show (owPower d).full v = _ from remembers).symm
    funext c
    simp only [full, OwPower.checkNewData, OwPower.full, same]
  | nvSave d => cases checks
  | _ => exact remembers r p ps hr h

/-- A check which raises still remembers the state. -/
theorem Remembers.raised (hr : ReaderOf known r) (remembers : d.Remembers known s v)
    (sound : d.Sound s) {e : CacheError} (h : d.checkNewData r p s = (ps, .error e)) :
    d.Remembers known ps.2 v := by
  cases d with
  | binaryOutput d =>
    obtain ⟨rfl, error⟩ := Prod.mk.inj h
    rwa [show (d.checkNewData r s).1 = s from BinaryOutput.error (Prod.ext rfl error)]
  | digitalOutput d =>
    rcases DigitalOutput.check_error hr h with same | raises
    · rwa [same]
    · intro r' p' ps' hr' quiet
      obtain ⟨ps'', e', error⟩ := raises r' hr' p' ps.2
      have both : (ps', Except.ok false) = (ps'', .error e') := quiet.symm.trans error
      cases (Prod.mk.inj both).2
  | digitalInput d =>
    obtain ⟨rfl, error⟩ := Prod.mk.inj h
    intro scanned hs
    rw [DigitalInput.check_error (Prod.ext rfl error)] at hs
    exact remembers scanned hs
  | analog d =>
    obtain ⟨rfl, error⟩ := Prod.mk.inj h
    rcases AnalogIO.check_error hr sound (Prod.ext rfl error) with same | raises
    · rwa [show (d.checkNewData r s).1 = s from same]
    · exact fun r' p' ps' hr' quiet => absurd (Prod.mk.inj quiet).2 (raises r' hr')
  | dataPoint d =>
    obtain ⟨rfl, error⟩ := Prod.mk.inj h
    rcases DataPoint.check_error hr (Prod.ext rfl error) with same | raises
    · rwa [show (d.checkNewData r s).1 = s from same]
    · exact fun r' p' ps' hr' quiet => absurd (Prod.mk.inj quiet).2 (raises r' hr')
  | watchdog d =>
    obtain ⟨rfl, error⟩ := Prod.mk.inj h
    rcases Watchdog.check_error hr (Prod.ext rfl error) with same | raises
    · rwa [show (d.checkNewData r s).1 = s from same]
    · exact fun r' p' ps' hr' quiet => absurd (Prod.mk.inj quiet).2 (raises r' hr')
  | owPower d => cases (Prod.mk.inj h).2
  | nvSave d => cases (Prod.mk.inj h).2

theorem settled_raised (hr : ReaderOf known r) (settled : d.Settled s ∨ d.Unreadable known)
    {e : CacheError} (h : d.checkNewData r p s = (ps, .error e)) :
    d.Settled ps.2 ∨ d.Unreadable known := by
  cases d with
  | digitalOutput d =>
    rcases DigitalOutput.check_error hr h with same | raises
    · rwa [same]
    · refine .inr fun r' p' s' ps' changed hr' ok => ?_
      obtain ⟨ps'', e', error⟩ := raises r' hr' p' s'
      have both : (ps', Except.ok changed) = (ps'', .error e') := ok.symm.trans error
      cases (Prod.mk.inj both).2
  | _ => exact .inl trivial

/-! ### Assignments of `set()` -/

theorem Remembers.assign (remembers : d.Remembers known s v) (checks : d.checks = true)
    {a : Assign} (seen : ¬Hides a) : d.Remembers known (d.assign a s) v := by
  cases d with
  | digitalOutput d =>
    cases a with
    | pwmDuty => exact absurd trivial seen
    | pwmDutyVal raw =>
      intro r p ps hr quiet
      obtain ⟨ps', quiet', same⟩ := DigitalOutput.check_pwmDutyVal quiet
      exact same.symm.trans (remembers r p ps' hr quiet')
    | _ => exact remembers
  | nvSave d => cases checks
  | _ => cases a <;> exact remembers

theorem settled_assign (settled : d.Settled s ∨ d.Unreadable known) {a : Assign} (seen : ¬Hides a) :
    d.Settled (d.assign a s) ∨ d.Unreadable known := by
  refine settled.imp_left fun settled => ?_
  cases d with
  | digitalOutput d =>
    cases a with
    | pwmDuty => exact absurd trivial seen
    | _ => exact settled
  | _ => trivial

theorem Remembers.readCounter (remembers : d.Remembers known s v) :
    d.Remembers known (d.readCounter r s).1 v := by
  cases d with
  | digitalInput d =>
    unfold Device.readCounter
    dsimp only
    split
    · exact remembers
    · exact remembers
  | _ => exact remembers

theorem settled_readCounter (settled : d.Settled s ∨ d.Unreadable known) :
    d.Settled (d.readCounter r s).1 ∨ d.Unreadable known := by
  cases d with
  | digitalOutput d => exact settled
  | _ => exact .inl trivial

end Check

end Device

end Modbus

end Evok
