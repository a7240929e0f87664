import Evok.Modbus.UnitAttrs

/-!
# What a device reports

A check compares with the attributes of the check before, and some registers are not read in some
modes. Nevertheless what `full()` returns after a check depends on the registers only, and on the
few attributes which no register has: a server which has run for long reports the same as a server
which has just started.

## Main definitions

* `Device.Lasts`: the attributes which no register has are the same.
* `Attrs.Step`: a check, a change up to any of its actions, or the end of a hold.

## Main results

* `Device.full_check`: the state after a check, by the registers.
* `Attrs.reported_by_registers`: the same after any history.
-/

namespace Evok

namespace Modbus

variable {read : Reader}

/-! ## The classes -/

/-- The frequency and the duty cycles by the registers. -/
theorem PwmFrequency.update_by_registers {pwm : PwmFrequency} {p q p' q' : PwmState}
    {changed changed' : Bool} (hp : pwm.update read p = (p', .ok changed))
    (hq : pwm.update read q = (q', .ok changed')) : p'.freq = q'.freq ∧ pwm.duty p' = pwm.duty q' := by
  cases pwm with
  | hard regcycle regprescale =>
    unfold update at hp hq
    cases hcycle : readRegister read regcycle with
    | error e => simp [hcycle] at hp
    | ok cycle =>
      cases hprescale : readRegister read regprescale with
      | error e => simp [hcycle, hprescale] at hp
      | ok prescale =>
        simp only [hcycle, hprescale, Prod.mk.injEq] at hp hq
        obtain ⟨rfl, -⟩ := hp
        obtain ⟨rfl, -⟩ := hq
        exact ⟨rfl, rfl⟩
  | soft regpreset regprescale =>
    refine ⟨?_, rfl⟩
    unfold update at hp hq
    cases hpreset : readRegister read regpreset with
    | error e => simp [hpreset] at hp
    | ok preset =>
      cases hlookup : SoftPwm.presets.lookup preset with
      | some freq =>
        simp only [hpreset, hlookup, Prod.mk.injEq] at hp hq
        obtain ⟨rfl, -⟩ := hp
        obtain ⟨rfl, -⟩ := hq
        rfl
      | none =>
        cases hprescale : readRegister read regprescale with
        | error e => simp [hpreset, hlookup, hprescale] at hp
        | ok prescale =>
          simp only [hpreset, hlookup, hprescale, Prod.mk.injEq] at hp hq
          obtain ⟨rfl, -⟩ := hp
          obtain ⟨rfl, -⟩ := hq
          rfl

theorem BinaryOutput.full_check {d : BinaryOutput} {s : State} (t : State) {changed : Bool}
    (h : (d.checkNewData read s).2 = .ok changed) (c : Common) :
    d.full (d.checkNewData read s).1 c = d.full (d.checkNewData read t).1 c := by
  unfold checkNewData at h ⊢
  cases hvalue : d.accessor.readInt read with
  | error e => simp [hvalue] at h
  | ok value => rfl

namespace DigitalOutput

/-- The attributes of an output without a PWM. -/
def Regular (d : DigitalOutput) (s : State) : Prop :=
  d.pwm = none → s.pwmDuty = none ∧ s.pwmFreq = none

theorem regular_check {d : DigitalOutput} {s : State} (h : d.Regular s) (read : Reader)
    (p : PwmState) : d.Regular (d.checkNewData read p s).1.2 := by
  intro hpwm
  simp only [checkNewData, checkPwm, hpwm]
  split <;> exact h hpwm

/-- The attributes after a check, by the registers which it reads. -/
structure Checked (d : DigitalOutput) (read : Reader) (s : State) : Prop where
  value : d.accessor.readInt read = .ok s.value
  mode : s.mode = some s.dutyMode
  simple : d.pwm = none → s.pwmDuty = none ∧ s.pwmFreq = none
  pwm : ∀ id pwm, d.pwm = some (id, pwm) → ∃ p p' changed raw,
    pwm.update read p = (p', .ok changed) ∧ d.accessorPwmDuty.readInt read = .ok raw ∧
      s.pwmFreq = p'.freq ∧ s.pwmDuty = raw.map (pwm.duty p')

theorem checked_check {d : DigitalOutput} {s : State} (hs : d.Regular s) {p : PwmState}
    {changed : Bool} (h : (d.checkNewData read p s).2 = .ok changed) :
    d.Checked read (d.checkNewData read p s).1.2 := by
  cases hpwm : d.pwm with
  | none =>
    cases hvalue : d.toBinaryOutput.accessor.readInt read with
    | error e => simp [checkNewData, checkPwm, hpwm, BinaryOutput.checkNewData, hvalue] at h
    | ok value =>
      rw [check_simple hvalue hpwm]
      exact ⟨hvalue, rfl, fun _ => hs hpwm, by simp [hpwm]⟩
  | some pwm =>
    obtain ⟨id, pwm⟩ := pwm
    rcases hupdate : pwm.update read p with ⟨p', updated⟩
    cases updated with
    | error e => simp [checkNewData, checkPwm, hpwm, hupdate] at h
    | ok updated =>
      cases hraw : d.accessorPwmDuty.readInt read with
      | error e => simp [checkNewData, checkPwm, hpwm, hupdate, hraw] at h
      | ok raw =>
        cases hvalue : d.toBinaryOutput.accessor.readInt read with
        | error e =>
          simp [checkNewData, checkPwm, hpwm, hupdate, hraw, BinaryOutput.checkNewData,
            hvalue] at h
        | ok value =>
          simp only [checkNewData, checkPwm, hpwm, hupdate, hraw, BinaryOutput.checkNewData, hvalue]
          refine ⟨hvalue, rfl, by simp [hpwm], ?_⟩
          intro id' pwm' heq
          obtain ⟨rfl, rfl⟩ := Prod.mk.inj (Option.some.inj (hpwm.symm.trans heq))
          exact ⟨p, p', updated, raw, hupdate, hraw, rfl, rfl⟩

/-- The registers give the state. -/
theorem Checked.full {d : DigitalOutput} {s t : State} (hs : d.Checked read s)
    (ht : d.Checked read t) (c : Common) : d.full s c = d.full t c := by
  have hvalue : s.value = t.value := Except.ok.inj (hs.value.symm.trans ht.value)
  have hpwm : s.pwmDuty = t.pwmDuty ∧ s.pwmFreq = t.pwmFreq := by
    cases hpwm : d.pwm with
    | none =>
      obtain ⟨hduty, hfreq⟩ := hs.simple hpwm
      obtain ⟨hduty', hfreq'⟩ := ht.simple hpwm
      exact ⟨hduty.trans hduty'.symm, hfreq.trans hfreq'.symm⟩
    | some pwm =>
      obtain ⟨p, p', _, raw, hupdate, hraw, hfreq, hduty⟩ := hs.pwm pwm.1 pwm.2 hpwm
      obtain ⟨q, q', _, raw', hupdate', hraw', hfreq', hduty'⟩ := ht.pwm pwm.1 pwm.2 hpwm
      obtain ⟨hfreqs, hduties⟩ := PwmFrequency.update_by_registers hupdate hupdate'
      have hraws : raw = raw' := Except.ok.inj (hraw.symm.trans hraw')
      rw [hduty, hduty', hfreq, hfreq', hfreqs, hduties, hraws]
      exact ⟨rfl, rfl⟩
  have hmode : s.mode = t.mode := by
    rw [hs.mode, ht.mode, State.dutyMode, State.dutyMode, State.pwmOn, State.pwmOn, hpwm.1]
  unfold DigitalOutput.full BinaryOutput.state
  rw [hvalue, hmode, hpwm.1, hpwm.2]

end DigitalOutput

/-! ## Inputs -/

namespace DIMode

/-- A mode with a register is the one of the registers. -/
theorem update_by_registers {d : DIMode} {s t s' t' : State} {changed changed' : Bool}
    (fixed : d.hasDirectSwitch = false → s = t) (hs : d.update read s = (s', .ok changed))
    (ht : d.update read t = (t', .ok changed')) :
    s'.mode = t'.mode ∧ (s'.mode = "DirectSwitch" → s'.dsMode = t'.dsMode) := by
  cases hswitch : d.hasDirectSwitch with
  | false =>
    obtain rfl := fixed hswitch
    obtain rfl : s' = t' := by
      rw [hs] at ht
      exact congrArg Prod.fst ht
    exact ⟨rfl, fun _ => rfl⟩
  | true =>
    unfold update at hs ht
    rw [if_pos hswitch] at hs ht
    cases hmode : readFlag d.accessorMode read with
    | error e => simp [hmode] at hs
    | ok mode =>
      cases mode with
      | false =>
        simp only [hmode, Prod.mk.injEq] at hs ht
        obtain ⟨rfl, -⟩ := hs
        obtain ⟨rfl, -⟩ := ht
        exact ⟨rfl, fun h => by simp at h⟩
      | true =>
        cases hds : d.readDsMode read with
        | error e => simp [hmode, hds] at hs
        | ok dsMode =>
          simp only [hmode, hds, Prod.mk.injEq] at hs ht
          obtain ⟨rfl, -⟩ := hs
          obtain ⟨rfl, -⟩ := ht
          exact ⟨rfl, fun _ => rfl⟩

end DIMode

namespace DigitalInput

/-- The attributes which no register has. -/
def Lasts (d : DigitalInput) (s t : Attrs) : Prop :=
  s.counterMode = t.counterMode ∧ (d.dimode.hasDirectSwitch = false → s.dimode = t.dimode)

/-- The attributes after a check, by the registers which it reads. -/
theorem readAttrs_ok {d : DigitalInput} {s s' : Attrs} (h : d.readAttrs read s = (s', .ok ())) :
    ∃ changed, d.dimode.update read s.dimode = (s'.dimode, .ok changed) ∧
      s'.counterMode = s.counterMode ∧ d.accessor.readInt read = .ok s'.value ∧
      d.readCounter read s = .ok s'.counter ∧ d.accessorDebounce.readInt read = .ok s'.debounce := by
  unfold readAttrs at h
  rcases hupdate : d.dimode.update read s.dimode with ⟨dimode, updated⟩
  cases updated with
  | error e => simp [hupdate] at h
  | ok changed =>
    cases hvalue : d.accessor.readInt read with
    | error e => simp [hupdate, hvalue] at h
    | ok value =>
      have hcounter : d.readCounter read { s with dimode, value } = d.readCounter read s := rfl
      cases hread : d.readCounter read s with
      | error e =>
        simp only [hupdate, hvalue] at h
        rw [hcounter, hread] at h
        simp at h
      | ok counter =>
        cases hdebounce : d.accessorDebounce.readInt read with
        | error e =>
          simp only [hupdate, hvalue] at h
          rw [hcounter, hread] at h
          simp [hdebounce] at h
        | ok debounce =>
          simp only [hupdate, hvalue] at h
          rw [hcounter, hread] at h
          simp only [hdebounce, Prod.mk.injEq, and_true] at h
          subst h
          exact ⟨changed, rfl, rfl, rfl, rfl, rfl⟩

/-- The state after a check, by the registers. -/
theorem full_check {d : DigitalInput} {s t : State} (lasts : d.Lasts s.toAttrs t.toAttrs)
    {changed changed' : Bool} (h : (d.checkNewData read s).2 = .ok changed)
    (h' : (d.checkNewData read t).2 = .ok changed') (c : Common) :
    d.full (d.checkNewData read s).1 c = d.full (d.checkNewData read t).1 c := by
  have hread : ∀ {s : State} {changed : Bool}, (d.checkNewData read s).2 = .ok changed →
      ∃ s', d.readAttrs read s.toAttrs = (s', .ok ()) ∧
        (d.checkNewData read s).1.toAttrs = s' := by
    intro s changed h
    unfold checkNewData at h ⊢
    rcases hattrs : d.readAttrs read s.toAttrs with ⟨s', _ | _⟩
    · simp [hattrs] at h
    · exact ⟨s', rfl, rfl⟩
  obtain ⟨s', hs, hs'⟩ := hread h
  obtain ⟨t', ht, ht'⟩ := hread h'
  obtain ⟨_, hmode, hcounterMode, hvalue, hcounter, hdebounce⟩ := readAttrs_ok hs
  obtain ⟨_, hmode', hcounterMode', hvalue', hcounter', hdebounce'⟩ := readAttrs_ok ht
  obtain ⟨hmodes, hds⟩ := DIMode.update_by_registers lasts.2 hmode hmode'
  have hcounters : d.readCounter read s.toAttrs = d.readCounter read t.toAttrs := by
    unfold readCounter
    rw [lasts.1]
  have hvalues : s'.value = t'.value := Except.ok.inj (hvalue.symm.trans hvalue')
  have hdebounces : s'.debounce = t'.debounce := Except.ok.inj (hdebounce.symm.trans hdebounce')
  have hcounts : s'.counter = t'.counter :=
    Except.ok.inj (hcounter.symm.trans (hcounters.trans hcounter'))
  unfold full
  rw [hs', ht']
  unfold fullOf
  rw [hvalues, hdebounces, hcounts, hcounterMode, hcounterMode', lasts.1, hmodes]
  split
  · next switch => rw [hds (hmodes.trans switch)]
  · rfl

end DigitalInput

/-! ## Analog devices -/

/-- The mode after a read of the mode register, or the fixed one. -/
theorem IOMode.update_by_registers {d : IOMode} {s s' : State} {changed : Bool}
    (fixed : d.index = none → s = d.init)
    (known : d.index.isSome → s.mode = s.modeValue.bind d.find)
    (h : d.update read s = (s', .ok changed)) :
    ∃ modeValue, d.accessor.readInt read = .ok modeValue ∧
      s' = (if d.index.isSome then ⟨modeValue, modeValue.bind d.find⟩ else d.init) ∧
      (changed = false → s' = s ∧ modeValue = s.modeValue) ∧
      (d.index = none → changed = false) := by
  cases hindex : d.index with
  | none =>
    have hread : d.accessor.readInt read = .ok none := by
      unfold IOMode.accessor
      rw [hindex]
      rfl
    rw [fixed hindex, IOMode.update_fixed hindex] at h
    obtain ⟨rfl, hchanged⟩ := Prod.mk.inj h
    rw [fixed hindex]
    exact ⟨none, hread, rfl, fun _ => ⟨rfl, rfl⟩, fun _ => (Except.ok.inj hchanged).symm⟩
  | some index =>
    have hknown : s.mode = s.modeValue.bind d.find := known (by simp [hindex])
    unfold update at h
    cases hread : d.accessor.readInt read with
    | error e => simp [hread] at h
    | ok modeValue =>
      simp only [hread] at h
      refine ⟨modeValue, rfl, ?_⟩
      split at h
      · next same =>
        obtain ⟨rfl, -⟩ := Prod.mk.inj h
        refine ⟨?_, fun _ => ⟨rfl, same⟩, fun h => by cases h⟩
        rw [Option.isSome_some, if_pos rfl, same, ← hknown]
      · obtain ⟨rfl, heq⟩ := Prod.mk.inj h
        exact ⟨rfl, fun hf => by simp [hf] at heq, fun h => by cases h⟩

/-- A mode register has a value. -/
theorem IOMode.readInt_isSome {d : IOMode} (h : d.index.isSome) {modeValue : Option ℤ}
    (hread : d.accessor.readInt read = .ok modeValue) : modeValue.isSome := by
  obtain ⟨index, hindex⟩ := Option.isSome_iff_exists.mp h
  have haccessor : d.accessor = { index := some index, type := .uint16 } := by
    rw [IOMode.accessor, hindex]
    rfl
  rw [haccessor] at hread
  cases hvalues : read index 1 false with
  | error e => simp [Accessor.readInt, Accessor.read, Accessor.readRaw, DataType.count, hvalues,
      Functor.map, Except.map] at hread
  | ok values =>
    simp [Accessor.readInt, Accessor.read, Accessor.readRaw, DataType.count, hvalues,
      Functor.map, Except.map, DataType.decode, Accessor.round] at hread
    simp [← hread]

namespace AnalogIO

/-- The accessor of a mode, if it can be made. -/
def accessorOf (d : AnalogIO) (mode : Option String) : Except CacheError Accessor :=
  d.makeAccessor { d.init with iomode := ⟨none, mode⟩ }

/-- The accessor is the one of its mode, the default one before it is made; the mode of an accessor
which cannot be made is known. -/
def Accessed (d : AnalogIO) (s : State) : Prop :=
  (s.accessor = d.defaultAccessor ∧ s.accessorMode = none ∧
      (s.iomode = d.iomode.init ∨ s.iomode.mode ≠ none)) ∨
    (d.accessorOf s.accessorMode = .ok s.accessor ∧
      (d.iomode.index.isSome ∨ s.accessorMode = d.iomode.init.mode ∧ s.accessorMode ≠ none))

def Regular (d : AnalogIO) (s : State) : Prop :=
  d.Consistent s ∧ d.Accessed s

theorem accessorOf_index (d : AnalogIO) (h : d.kind = .input) {mode : Option String}
    {accessor : Accessor} (hmake : d.accessorOf mode = .ok accessor) :
    accessor.index = d.defaultAccessor.index ∧ accessor.isInput = d.defaultAccessor.isInput := by
  unfold accessorOf makeAccessor at hmake
  rw [h] at hmake
  cases mode with
  | none =>
    obtain rfl := Except.ok.inj hmake
    exact ⟨rfl, rfl⟩
  | some mode =>
    simp only [Accessor.make] at hmake
    split at hmake
    · cases hmake
    · obtain rfl := Except.ok.inj hmake
      exact ⟨rfl, rfl⟩

/-- A new accessor keeps the register and depends on the mode. -/
theorem Regular.makeAccessor {d : AnalogIO} {s : State} (h : d.Regular s) (iomode : IOMode.State) :
    d.makeAccessor { s with iomode } = d.accessorOf iomode.mode := by
  obtain ⟨consistent, accessed⟩ := h
  cases hkind : d.kind with
  | input =>
    have hregister : s.accessor.index = d.defaultAccessor.index ∧
        s.accessor.isInput = d.defaultAccessor.isInput := by
      rcases accessed with ⟨haccessor, -⟩ | ⟨haccessor, -⟩
      · rw [haccessor]
        exact ⟨rfl, rfl⟩
      · exact d.accessorOf_index hkind haccessor
    obtain ⟨modeValue, mode⟩ := iomode
    simp only [accessorOf, AnalogIO.makeAccessor, hkind, hregister.1, hregister.2, init,
      IOMode.data]
    cases mode <;> rfl
  | output =>
    simp only [accessorOf, AnalogIO.makeAccessor, hkind, consistent.accessor hkind, init]
  | brain regRes => simp only [accessorOf, AnalogIO.makeAccessor, hkind]

/-- The mode and the accessor after an update of the mode, by the registers which it reads. -/
theorem updateMode_by_registers {d : AnalogIO} {s s' : State} {changed : Bool}
    (h : d.Regular s) (hupdate : d.updateMode read s = (s', .ok changed)) :
    ∃ modeValue, d.iomode.accessor.readInt read = .ok modeValue ∧
      s'.iomode = (if d.iomode.index.isSome then ⟨modeValue, modeValue.bind d.iomode.find⟩
        else d.iomode.init) ∧
      (if d.iomode.index.isNone ∧ d.iomode.init.mode = none then .ok d.defaultAccessor
        else d.accessorOf s'.iomode.mode) = .ok s'.accessor := by
  have hmake := h.makeAccessor
  obtain ⟨consistent, accessed⟩ := h
  rcases d.updateMode_cases read s with ⟨e, -, hraise⟩ | ⟨iomode, changed', hmode, -, updated⟩
  · rw [hraise] at hupdate
    cases (Prod.mk.inj hupdate).2
  obtain ⟨modeValue, hread, hiomode, hkept, hfixed⟩ :=
    IOMode.update_by_registers consistent.fixed consistent.known hmode
  refine ⟨modeValue, hread, ?_⟩
  rw [hupdate] at updated
  cases updated with
  | made moved _ new =>
    rw [hmake] at new
    refine ⟨hiomode, ?_⟩
    rw [if_neg]
    · exact new
    -- a mode without a register stays the first one, its accessor is made once
    · rintro ⟨hindex, hinit⟩
      rw [Option.isNone_iff_eq_none] at hindex
      have hne := moved.resolve_left (by simp [hfixed hindex])
      rw [hiomode, hindex] at hne
      rcases accessed with ⟨-, hnone, -⟩ | ⟨-, hknown⟩
      · exact hne (hinit.trans hnone.symm)
      · rw [hindex] at hknown
        exact hne (hknown.resolve_left (by simp)).1.symm
  | kept same settled =>
    rw [same] at hiomode hkept
    refine ⟨hiomode, ?_⟩
    rcases accessed with ⟨hdefault, hnone, hfirst⟩ | ⟨haccessor, hknown⟩
    · have hinit := hfirst.resolve_right (by simp [settled, hnone])
      have hindex : d.iomode.index.isNone := by
        rw [Option.isNone_iff_eq_none]
        by_contra hindex
        have hsome := IOMode.readInt_isSome (Option.isSome_iff_ne_none.mpr hindex) hread
        rw [(hkept rfl).2, hinit] at hsome
        cases hsome
      rw [if_pos ⟨hindex, by rw [← hinit, settled, hnone]⟩, hdefault]
    · rw [if_neg, settled]
      · exact haccessor
      · rintro ⟨hindex, hinit⟩
        rw [Option.isNone_iff_eq_none] at hindex
        rw [hindex, hinit] at hknown
        obtain ⟨hnone, hne⟩ := hknown.resolve_left (by simp)
        exact hne hnone

theorem accessed_updateMode {d : AnalogIO} {s : State} (h : d.Regular s) (read : Reader) :
    d.Accessed (d.updateMode read s).1 := by
  have hmake := h.makeAccessor
  obtain ⟨consistent, accessed⟩ := h
  rcases d.updateMode_cases read s with ⟨e, -, hraise⟩ | ⟨iomode, changed, hmode, -, updated⟩
  · rw [hraise]
    exact accessed
  generalize d.updateMode read s = result at updated
  cases updated with
  | raised moved zero message =>
    have hne : iomode.mode ≠ none := fun hnone => zero (hnone ▸ d.makes_none)
    exact accessed.imp_left fun ⟨hdefault, hnone, _⟩ => ⟨hdefault, hnone, .inr hne⟩
  | made moved _ new =>
    rw [hmake] at new
    refine .inr ⟨new, ?_⟩
    cases hindex : d.iomode.index with
    | some index => exact .inl rfl
    | none =>
      obtain ⟨_, -, hiomode, -, hfixed⟩ :=
        IOMode.update_by_registers consistent.fixed consistent.known hmode
      obtain rfl : iomode = d.iomode.init := by simpa [hindex] using hiomode
      have hne := moved.resolve_left (by simp [hfixed hindex])
      refine .inr ⟨rfl, fun hnone => ?_⟩
      rcases accessed with ⟨-, hmode, -⟩ | ⟨-, hknown⟩
      · exact hne (hnone.trans hmode.symm)
      · rw [hindex] at hknown
        exact hne (hknown.resolve_left (by simp)).1.symm
  | kept => exact accessed

theorem regular_check {d : AnalogIO} {s : State} (h : d.Regular s) (read : Reader) :
    d.Regular (d.checkNewData read s).1 := by
  refine ⟨consistent_check h.1 read, ?_⟩
  have haccessed := accessed_updateMode h read
  unfold checkNewData
  rcases hmode : d.updateMode read s with ⟨s', e | changed⟩ <;> rw [hmode] at haccessed
  · exact haccessed
  · dsimp only
    split <;> exact haccessed

/-- The state after a check, by the registers. -/
theorem full_check {d : AnalogIO} {s t : State} (hs : d.Regular s) (ht : d.Regular t)
    {changed changed' : Bool} (h : (d.checkNewData read s).2 = .ok changed)
    (h' : (d.checkNewData read t).2 = .ok changed') (c : Common) :
    d.full (d.checkNewData read s).1 c = d.full (d.checkNewData read t).1 c := by
  have hread : ∀ {s : State} {changed : Bool}, (d.checkNewData read s).2 = .ok changed →
      ∃ s' updated value, d.updateMode read s = (s', .ok updated) ∧
        readValue s'.accessor read = .ok value ∧
        (d.checkNewData read s).1 = { s' with value } := by
    intro s changed h
    unfold checkNewData at h ⊢
    rcases hmode : d.updateMode read s with ⟨s', _ | updated⟩
    · simp [hmode] at h
    · cases hvalue : readValue s'.accessor read with
      | error e => simp [hmode, hvalue] at h
      | ok value => exact ⟨s', updated, value, rfl, hvalue, by simp [hvalue]⟩
  obtain ⟨s', _, value, hmode, hvalue, hs'⟩ := hread h
  obtain ⟨t', _, value', hmode', hvalue', ht'⟩ := hread h'
  obtain ⟨_, hread, hiomode, haccessor⟩ := updateMode_by_registers hs hmode
  obtain ⟨_, hread', hiomode', haccessor'⟩ := updateMode_by_registers ht hmode'
  have hsame := Except.ok.inj (hread.symm.trans hread')
  rw [← hsame, ← hiomode] at hiomode'
  rw [hiomode', haccessor] at haccessor'
  rw [← Except.ok.inj haccessor', hvalue] at hvalue'
  rw [hs', ht']
  unfold full
  rw [hiomode', Except.ok.inj hvalue']

end AnalogIO

/-! ## Other devices -/

/-- The state after a check, by the registers. -/
theorem DataPoint.full_check {d : DataPoint} {s : State} (t : State) {changed : Bool}
    (h : (d.checkNewData read s).2 = .ok changed) (c : Common) :
    d.full (d.checkNewData read s).1 c = d.full (d.checkNewData read t).1 c := by
  unfold checkNewData at h ⊢
  cases hvalue : AnalogIO.readValue d.accessor read with
  | error e => simp [hvalue] at h
  | ok value =>
    unfold full
    cases hkind : d.kind with
    | owTemperature reg mask =>
      cases hvalid : d.readIsValid read reg mask with
      | error e => simp [hvalue, hkind, hvalid] at h
      | ok isValid => simp only [hvalid]
    | _ => rfl

theorem Watchdog.full_check {d : Watchdog} {s : State} (t : State) {changed : Bool}
    (h : (d.checkNewData read s).2 = .ok changed) (c : Common) :
    d.full (d.checkNewData read s).1 c = d.full (d.checkNewData read t).1 c := by
  unfold checkNewData at h ⊢
  cases hregister : d.accessor.readInt read with
  | error e => simp [hregister] at h
  | ok register =>
    cases htimeout : d.accessorTimeout.readInt read with
    | error e => simp [hregister, htimeout] at h
    | ok timeout => rfl

/-! ## Devices -/

namespace Device

/-- What the attributes satisfy in every run. -/
def Regular : (d : Device) → d.State → Prop
  | digitalOutput d, s => d.Regular s
  | analog d, s => d.Regular s
  | _, _ => True

/-- The attributes which no register has are the same: the mode of a counter, the mode of an input
without a mode register, the power of a 1-Wire bus and the hold of a save. -/
def Lasts : (d : Device) → d.State → d.State → Prop
  | digitalInput d, s, t => d.Lasts s.toAttrs t.toAttrs
  | owPower _, s, t => s.value = t.value
  | nvSave _, s, t => s = t
  | _, _, _ => True

variable {d : Device}

theorem regular_init (d : Device) : d.Regular d.init := by
  cases d with
  | digitalOutput d => exact fun _ => ⟨rfl, rfl⟩
  | analog d =>
    refine ⟨⟨fun _ => rfl, fun index => ?_, fun _ => rfl, fun _ => rfl⟩, .inl ⟨rfl, rfl, .inl rfl⟩⟩
    obtain ⟨index, hindex⟩ := Option.isSome_iff_exists.mp index
    simp [init, AnalogIO.init, IOMode.init, hindex]
  | _ => trivial

theorem Regular.check {s : d.State} (h : d.Regular s) (read : Reader) (p : PwmState) :
    d.Regular (d.checkNewData read p s).1.2 := by
  cases d with
  | digitalOutput d => exact DigitalOutput.regular_check h read p
  | analog d => exact AnalogIO.regular_check h read
  | _ => trivial

theorem Regular.assign {s : d.State} (h : d.Regular s) {a : Assign}
    (allowed : ∀ duty, a = .pwmDuty duty → d.pwmId.isSome) : d.Regular (d.assign a s) := by
  cases d with
  | digitalOutput d =>
    cases a with
    | pwmDuty duty =>
      intro hpwm
      have := allowed duty rfl
      simp [pwmId, hpwm] at this
    | _ => exact h
  | analog d => cases a <;> exact h
  | _ => cases a <;> trivial

theorem Regular.readCounter {s : d.State} (h : d.Regular s) (read : Reader) :
    d.Regular (d.readCounter read s).1 := by
  cases d with
  | digitalInput d => trivial
  | _ => exact h

/-- The state after a check is the one of the registers and of the attributes without a register. -/
theorem full_check {s t : d.State} (hs : d.Regular s) (ht : d.Regular t) (lasts : d.Lasts s t)
    {p q : PwmState} {changed changed' : Bool} (h : (d.checkNewData read p s).2 = .ok changed)
    (h' : (d.checkNewData read q t).2 = .ok changed') (c : Common) :
    d.full (d.checkNewData read p s).1.2 c = d.full (d.checkNewData read q t).1.2 c := by
  cases d with
  | binaryOutput d => exact BinaryOutput.full_check t h c
  | digitalOutput d =>
    exact (DigitalOutput.checked_check hs h).full (DigitalOutput.checked_check ht h') c
  | digitalInput d => exact DigitalInput.full_check lasts h h' c
  | analog d => exact AnalogIO.full_check hs ht h h' c
  | dataPoint d => exact DataPoint.full_check t h c
  | owPower d =>
    have hvalue : s.value = t.value := lasts
    change d.full { s with checkedValue := s.value } c = d.full { t with checkedValue := t.value } c
    unfold OwPower.full
    rw [hvalue]
  | nvSave d => exact congrArg (d.full · c) lasts
  | watchdog d => exact Watchdog.full_check t h c

theorem Regular.consistent {s : d.State} (h : d.Regular s) : d.Consistent s := by
  cases d with
  | digitalOutput d => exact fun hpwm => (h hpwm).1
  | analog d => exact h.1
  | _ => trivial

end Device

/-! ## The devices of a unit -/

namespace Attrs

variable {ι : Type} [DecidableEq ι] {device : ι → Device}

/-- A server which has just started. -/
def Started (s : Attrs device) : Prop :=
  ∀ i, s.dev i = (device i).init

def Regular (s : Attrs device) : Prop :=
  ∀ i, (device i).Regular (s.dev i)

/-- The attributes after actions without an error; each one reads the cache of its time. -/
inductive Executed : Attrs device → List (Action ι) → Attrs device → Prop
  | nil (s : Attrs device) : Executed s [] s
  | cons {s t : Attrs device} {a : Action ι} {actions : List (Action ι)} (read : Reader)
      (rest : Executed (s.exec read a) actions t) : Executed s (a :: actions) t

inductive Change (device : ι → Device)
  | check (i : ι)
  | set (i : ι) (params : (device i).Params)
  /-- The end of the hold of a save. -/
  | release (i : ι)

/-- A step of a server. The actions of a `set()` are done up to any of them, which may fail. -/
inductive Step (ids : List ι) : Attrs device → Change device → Attrs device → Prop
  | check {s : Attrs device} {i : ι} (read : Reader) :
      Step ids s (.check i) (s.checkNewData read i).1
  | set {s t : Attrs device} {i : ι} {params : (device i).Params} {actions rest : List (Action ι)}
      (split : (s.set ids i params).actions = actions ++ rest) (done : Executed s actions t) :
      Step ids s (.set i params) t
  | fails {s t : Attrs device} {i : ι} {params : (device i).Params} {a : Action ι}
      {actions rest : List (Action ι)}
      (split : (s.set ids i params).actions = actions ++ a :: rest)
      (done : Executed s actions t) : Step ids s (.set i params) (t.fails a)
  | release {s : Attrs device} {i : ι} :
      Step ids s (.release i) (s.setDev i ((device i).assign (.nvSave false) (s.dev i)))

variable {ids : List ι} {s t : Attrs device}

theorem Regular.setDev (h : s.Regular) {i : ι} {state : (device i).State}
    (hi : (device i).Regular state) : (s.setDev i state).Regular := by
  intro k
  by_cases heq : k = i
  · subst heq
    simpa [Attrs.setDev] using hi
  · simpa [Attrs.setDev, heq] using h k

theorem dev_checkNewData (read : Reader) (s : Attrs device) (i : ι) :
    (s.checkNewData read i).1.dev i =
      ((device i).checkNewData read (s.pwmOf i) (s.dev i)).1.2 ∧
    (s.checkNewData read i).2 = ((device i).checkNewData read (s.pwmOf i) (s.dev i)).2 := by
  unfold checkNewData
  dsimp only
  split <;> simp [Attrs.setDev, setPwm]

theorem Regular.check (h : s.Regular) (read : Reader) (i : ι) :
    (s.checkNewData read i).1.Regular := by
  have hset := h.setDev ((h i).check read (s.pwmOf i))
  unfold checkNewData
  dsimp only
  split <;> exact hset

theorem Regular.exec (h : s.Regular) {i : ι} {a : Action ι}
    (assigns : a.Assigns i (HasPwm device)) (read : Reader) : (s.exec read a).Regular := by
  cases a with
  | assign j x =>
    refine h.setDev ((h j).assign fun duty hx => ?_)
    subst hx
    exact assigns.2
  | readCounter j => exact h.setDev ((h j).readCounter read)
  | _ => exact h

theorem Regular.release (h : s.Regular) (i : ι) :
    (s.setDev i ((device i).assign (.nvSave false) (s.dev i))).Regular :=
  h.setDev ((h i).assign fun duty hx => by cases hx)

theorem Executed.regular {i : ι} {actions : List (Action ι)} (done : Executed s actions t)
    (assigns : ∀ a ∈ actions, a.Assigns i (HasPwm device)) (h : s.Regular) : t.Regular := by
  induction done with
  | nil => exact h
  | cons read _ ih =>
    exact ih (fun a ha => assigns a (List.mem_cons_of_mem _ ha))
      (h.exec (assigns _ List.mem_cons_self) read)

theorem Regular.step (h : s.Regular) {c : Change device} (step : Step ids s c t) : t.Regular := by
  have hset : ∀ (i : ι) (params : (device i).Params),
      (s.set ids i params).Emits (Action.Assigns i (HasPwm device)) :=
    fun i params => Device.emits_set (h i).consistent _ _ params id
  cases step with
  | check read => exact h.check read _
  | @set _ i params actions rest split done =>
    refine done.regular (fun a ha => hset i params a ?_) h
    rw [split]
    exact List.mem_append_left _ ha
  | @fails t i params a actions rest split done =>
    have ht : t.Regular := by
      refine done.regular (fun a ha => hset i params a ?_) h
      rw [split]
      exact List.mem_append_left _ ha
    unfold fails
    split
    · exact ht.release _
    · exact ht
  | release => exact h.release _

theorem Regular.run {cs : List (Change device)} (h : s.Regular)
    (run : Transition.Run (Step ids) s cs t) : t.Regular :=
  run.invariant (fun _ _ _ h step => h.step step) h

omit [DecidableEq ι] in
theorem Started.regular (h : s.Started) : s.Regular := fun i => by
  rw [h i]
  exact (device i).regular_init

/-- Two servers of one unit with any histories report the same state of a device after a check by
the same registers, if the attributes which no register has are the same. -/
theorem reported_by_registers {s₀ t₀ : Attrs device} (started : s₀.Started)
    (started' : t₀.Started) {ids' : List ι} {cs cs' : List (Change device)}
    (run : Transition.Run (Step ids) s₀ cs s) (run' : Transition.Run (Step ids') t₀ cs' t) {i : ι}
    (lasts : (device i).Lasts (s.dev i) (t.dev i)) {changed changed' : Bool}
    (checked : (s.checkNewData read i).2 = .ok changed)
    (checked' : (t.checkNewData read i).2 = .ok changed') (c : Common) :
    (device i).full ((s.checkNewData read i).1.dev i) c =
      (device i).full ((t.checkNewData read i).1.dev i) c := by
  obtain ⟨hs, hsr⟩ := dev_checkNewData read s i
  obtain ⟨ht, htr⟩ := dev_checkNewData read t i
  rw [hs, ht]
  exact Device.full_check (started.regular.run run i) (started'.regular.run run' i) lasts
    (hsr ▸ checked) (htr ▸ checked') c

/-- An output of a Brain, its value is read from other registers in the Resistance mode. -/
def brain : AnalogIO :=
  AnalogIO.analogOutputBrain "1_01" 0 (some 4) (some 2)

def brainStart : Attrs fun _ : Unit => .analog brain where
  dev := fun _ => brain.init
  pwm := fun _ => {}
  aliasName := fun _ => ""

def voltage : Reader :=
  ({ registers := fun _ => 0, coils := fun _ => false } : Memory).holding

def resistance : Reader :=
  ({ registers := fun r => if r = 4 then 3 else 0, coils := fun _ => false } : Memory).holding

theorem reported_by_registers_brain :
    brain.full (((brainStart.checkNewData voltage ()).1.checkNewData resistance ()).1.dev ())
        ⟨"ok", none, ""⟩ =
      brain.full ((brainStart.checkNewData resistance ()).1.dev ()) ⟨"ok", none, ""⟩ := by
  have hstart : brainStart.Started := fun _ => rfl
  have hrun : Transition.Run (Step [()]) brainStart [.check ()]
      (brainStart.checkNewData voltage ()).1 := .single (.check voltage)
  have hnone : Transition.Run (Step [()]) brainStart [] brainStart := .nil _
  exact reported_by_registers hstart hstart hrun hnone (i := ()) trivial rfl rfl ⟨"ok", none, ""⟩

end Attrs

end Modbus

end Evok
