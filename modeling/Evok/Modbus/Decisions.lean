import Evok.Library.Fold
import Evok.Modbus.Memory
import Evok.Modbus.PwmGroup

/-!
# What a change decides by

`set()` of an output decides by attributes which only a check reads from the registers. Where they
are the ones of the registers, or a write more or less has no effect, the change has the effect of a
change after a check.

## Main definitions

* `DigitalOutput.byRegisters`, ... : the attributes which a check would give.
* `DigitalOutput.Current`, ... : `set()` decides as it would after a check.

## Main results

* `DigitalOutput.related_set`, ... : the effect of a change is the one after a check.
-/

namespace Evok

namespace Modbus

variable {ι : Type} {wiring : Wiring}

/-- A `ValueError`. -/
def SetError.isValue : SetError → Bool
  | .value _ => true
  | _ => false

/-- The kind of the exception of a check. -/
def refusal {α : Type} : Except SetError α → Option Bool
  | .ok _ => none
  | .error e => some e.isValue

/-- The registers of a unit as its check reads them. -/
abbrev Memory.holding (m : Memory) : Reader :=
  m.reader fun _ => 0

/-! ## Frequencies -/

namespace PwmFrequency

/-- The registers of the frequency. -/
def registers : PwmFrequency → List ℕ
  | hard regcycle regprescale => [regcycle, regprescale]
  | soft regpreset regprescale => [regpreset, regprescale]

/-- The new attributes of a frequency. -/
theorem dutyRaw_set {pwm : PwmFrequency} {id : ℕ} {p q p' q' : PwmState} {freq : ℚ}
    (hp : (pwm.set id p freq : SetScript ι PwmState).result = .ok p')
    (hq : (pwm.set id q freq : SetScript ι PwmState).result = .ok q') (duty : ℚ) :
    pwm.dutyRaw p' duty = pwm.dutyRaw q' duty := by
  cases pwm with
  | hard regcycle regprescale =>
    have h : (set (.hard regcycle regprescale) id p freq : SetScript ι PwmState) =
        set (.hard regcycle regprescale) id q freq := rfl
    rw [h, hq] at hp
    rw [Except.ok.inj hp]
  | soft regpreset regprescale => rfl

/-- A setting of two frequencies of the attributes has one effect on the unit. -/
theorem related_set (m : Memory) (pwm : PwmFrequency) (id : ℕ) (p q : PwmState) (freq : ℚ) :
    Script.Related (Memory.exec wiring) SetError.isValue m
      (fun _ p' q' => (pwm.set id p freq : SetScript ι PwmState).result = .ok p' ∧
        (pwm.set id q freq : SetScript ι PwmState).result = .ok q')
      (pwm.set id p freq : SetScript ι PwmState) (pwm.set id q freq) := by
  cases pwm with
  | hard regcycle regprescale =>
    have h : (set (.hard regcycle regprescale) id p freq : SetScript ι PwmState) =
        set (.hard regcycle regprescale) id q freq := rfl
    rw [h]
    refine ⟨rfl, ?_⟩
    cases (set (.hard regcycle regprescale) id q freq : SetScript ι PwmState).result with
    | ok q' => exact .ok ⟨rfl, rfl⟩
    | error e => exact .error rfl
  | soft regpreset regprescale =>
    have hassign : ∀ (values : List (ℕ × ℕ)) (s : PwmState),
        (do
          write values
          Script.emit (.assignPwm id s)
          return s : SetScript ι PwmState).after (Memory.exec wiring) m =
            (write values : SetScript ι Unit).after (Memory.exec wiring) m := by
      intro values s
      exact List.foldl_append
    unfold set
    dsimp only
    cases SoftPwm.presets.find? (·.2 = freq) with
    | some preset => exact ⟨(hassign _ _).trans (hassign _ _).symm, .ok ⟨rfl, rfl⟩⟩
    | none =>
      dsimp only
      split
      · exact ⟨rfl, .error rfl⟩
      · exact ⟨(hassign _ _).trans (hassign _ _).symm, .ok ⟨rfl, rfl⟩⟩

/-- A setting keeps the registers beside it. -/
theorem after_write (m : Memory) {values : List (ℕ × ℕ)} {r : ℕ} (h : r ∉ values.map (·.1)) :
    ((write values : SetScript ι Unit).after (Memory.exec wiring) m).registers r =
      m.registers r := by
  have hsets : ∀ (m : Memory) (registers : List (ℕ × Word)),
      (registers.map fun e => (Action.setRegister e.1 [e.2] : Action ι)).foldl
        (Memory.exec wiring) m = m := by
    intro m registers
    induction registers generalizing m with
    | nil => rfl
    | cons register registers ih => exact ih m
  have hruns : ∀ (m : Memory) (runs : List (ℕ × List Word)),
      ((runs.map fun run => (Action.writeRegisters run.1 run.2 false true : Action ι)).foldl
        (Memory.exec wiring) m).registers = Overlay.applyAll (runs.map block) m.registers := by
    intro m runs
    induction runs generalizing m with
    | nil => rfl
    | cons run runs ih =>
      rw [List.map_cons, List.foldl_cons, ih]
      rfl
  have hnone : ∀ sorted : List (ℕ × ℕ), sorted.Perm values →
      lastValue (sorted.map fun e => (e.1, BitVec.ofNat 16 e.2)) r = none := by
    intro sorted perm
    have hr : r ∉ sorted.map (·.1) := fun mem => h ((perm.map _).subset mem)
    clear perm
    induction sorted with
    | nil => rfl
    | cons register sorted ih =>
      rw [List.map_cons, List.mem_cons, not_or] at hr
      have hfirst : block (register.1, [BitVec.ofNat 16 register.2]) r = none := by
        rw [← Option.not_isSome_iff_eq_none, block_isSome, List.length_singleton]
        omega
      have hrest := ih hr.2
      simp only [lastValue, List.map_cons, Overlay.overlay] at hrest ⊢
      rw [hrest, hfirst]
      rfl
  unfold write Script.after
  dsimp only
  rw [List.foldl_append, hsets, hruns, Overlay.applyAll_eq, overlay_runs, Overlay.apply,
    hnone _ (List.perm_insertionSort _ _)]
  rfl

/-- The setting of a frequency keeps the other registers. -/
theorem after_set (m : Memory) (pwm : PwmFrequency) (id : ℕ) (p : PwmState) (freq : ℚ) {r : ℕ}
    (h : r ∉ pwm.registers) :
    ((pwm.set id p freq : SetScript ι PwmState).after (Memory.exec wiring) m).registers r =
      m.registers r := by
  cases pwm with
  | hard regcycle regprescale =>
    cases hdivide : HardPwm.divide freq with
    | ok divided =>
      obtain ⟨cycle, prescale⟩ := divided
      rw [set_hard hdivide, Script.after, List.foldl_append]
      exact after_write m h
    | error e =>
      simp only [set, hdivide]
      rfl
  | soft regpreset regprescale =>
    have hassign : ∀ {values : List (ℕ × ℕ)} (s : PwmState), r ∉ values.map (·.1) →
        ((do
          write values
          Script.emit (.assignPwm id s)
          return s : SetScript ι PwmState).after (Memory.exec wiring) m).registers r =
            m.registers r := by
      intro values s hr
      have happ : ((write values : SetScript ι Unit).actions ++ [Action.assignPwm id s]).foldl
          (Memory.exec wiring) m = (write values : SetScript ι Unit).after (Memory.exec wiring) m :=
        List.foldl_append
      exact (congrArg (·.registers r) happ).trans (after_write m hr)
    simp only [registers, List.mem_cons, List.not_mem_nil, or_false, not_or] at h
    unfold set
    dsimp only
    cases SoftPwm.presets.find? (·.2 = freq) with
    | some preset => exact hassign _ (by simpa using h.1)
    | none =>
      dsimp only
      split
      · rfl
      · exact hassign _ (by simpa using h)

end PwmFrequency

/-! ## Digital outputs -/

/-- The coil of the output is its bit of the status register. -/
def BinaryOutput.Wired (wiring : Wiring) (d : BinaryOutput) : Prop :=
  ∀ coil, d.coil = some coil → wiring coil = some (d.reg, d.mask)

/-- A value is written to the bit of the output. -/
theorem BinaryOutput.after_writeValue {d : BinaryOutput} (wired : d.Wired wiring) (value : Bool)
    (m : Memory) :
    (d.writeValue value : SetScript ι Unit).after (Memory.exec wiring) m =
      m.writeBit d.reg d.mask value := by
  unfold writeValue
  cases hcoil : d.coil with
  | none => rfl
  | some coil => rw [Script.after_emit, Memory.exec, Memory.writeCoil, wired coil hcoil]

theorem BinaryOutput.writeValue_result (d : BinaryOutput) (value : Bool) :
    (d.writeValue value : SetScript ι Unit).result = .ok () := by
  unfold writeValue
  cases d.coil <;> rfl

namespace DigitalOutput

/-- The attributes which a check gives: the ones of a new output after it. -/
def byRegisters (d : DigitalOutput) (m : Memory) : PwmState × State :=
  (d.checkNewData m.holding {} {}).1

/-- The value of the register of the duty to write at a new frequency. -/
def pending (pwm : PwmFrequency) (p : PwmState) (s : State) : Except SetError (Option ℤ) :=
  if s.pwmOn then
    (pwm.dutyRaw p (s.pwmDuty.getD 0)).map fun raw =>
      if some raw ≠ s.pwmDutyVal then some raw else none
  else .ok none

/-- The write of a duty at a new frequency. -/
def rewrite (device : ι) (d : DigitalOutput) : Option ℤ → SetScript ι Unit
  | some raw => do
    d.accessorPwmDuty.write raw
    Script.emit (.assign device (.pwmDutyVal raw))
  | none => pure ()

theorem keepDuty_eq (pwm : PwmFrequency) (p : PwmState) (e : Entry ι) :
    keepDuty pwm p e = SetScript.ofExcept (pending pwm p e.2.2) >>= rewrite e.1 e.2.1 := by
  obtain ⟨device, d, s⟩ := e
  unfold keepDuty pending
  dsimp only
  split
  · cases pwm.dutyRaw p (s.pwmDuty.getD 0) with
    | error e => rfl
    | ok raw =>
      dsimp only [SetScript.ofExcept, Except.map]
      by_cases h : some raw = s.pwmDutyVal
      · simp [h, rewrite]
      · simp [h, rewrite]
  · rfl

/-- The output is rewritten by a new frequency of the group `id`. -/
def inGroup [DecidableEq ι] (device : ι) (id : ℕ) (keep : Bool) : Entry ι → Bool
  | (other, d, _) => d.pwm.any (·.1 = id) && (keep || other ≠ device)

/-- The outputs with the attributes of the registers. -/
def checkedOutputs (m : Memory) (outputs : List (Entry ι)) : List (Entry ι) :=
  outputs.map fun e => (e.1, e.2.1, (e.2.1.byRegisters m).2)

theorem keepDuties_checkedOutputs [DecidableEq ι] {m : Memory} {device : ι} {id : ℕ} {keep : Bool}
    {pwm : PwmFrequency} {p q : PwmState} {outputs : List (Entry ι)}
    (same : ∀ duty, pwm.dutyRaw p duty = pwm.dutyRaw q duty)
    (h : ∀ e ∈ outputs, inGroup device id keep e →
      pending pwm p e.2.2 = pending pwm p (e.2.1.byRegisters m).2) :
    keepDuties pwm p (outputs.filter (inGroup device id keep)) =
      keepDuties pwm q ((checkedOutputs m outputs).filter (inGroup device id keep)) := by
  induction outputs with
  | nil => rfl
  | cons e outputs ih =>
    rw [List.forall_mem_cons] at h
    have hgroup : inGroup device id keep (e.1, e.2.1, (e.2.1.byRegisters m).2) =
        inGroup device id keep e := rfl
    have hpending : ∀ s, pending pwm p s = pending pwm q s := by
      intro s
      simp only [pending, same]
    have hrest := ih h.2
    simp only [checkedOutputs] at hrest
    simp only [checkedOutputs, List.map_cons, List.filter_cons, hgroup]
    split
    · next group =>
      simp only [keepDuties, keepDuty_eq, h.1 group, hrest, hpending]
    · exact hrest

variable [DecidableEq ι]

/-- The register is beside the ones of the frequency, and of the duties rewritten with it. -/
def Beside (d : DigitalOutput) (device : ι) (outputs : List (Entry ι)) (parsed : Parsed) (r : ℕ) :
    Prop :=
  ∀ id pwm, d.pwm = some (id, pwm) → parsed.pwmFreq.isSome →
    r ∉ pwm.registers ∧ ∀ e ∈ outputs,
      inGroup device id (parsed.value.isNone && parsed.pwmDuty.isNone) e → r ≠ e.2.1.pwmDutyReg

/-- `set()` decides by the attributes as by the ones of the registers, or its other write has no
effect. -/
structure Current (d : DigitalOutput) (m : Memory) (device : ι) (s : State) (p : PwmState)
    (outputs : List (Entry ι)) (parsed : Parsed) : Prop where
  /-- The PWM to turn off is on. -/
  value : parsed.value.isSome → s.pwmOn = (d.byRegisters m).2.pwmOn ∨
    d.pwm.isSome ∧ m.registers d.pwmDutyReg = 0 ∧ d.pwmDutyReg ≠ d.reg ∧
      d.Beside device outputs parsed d.pwmDutyReg
  /-- The output to turn off is on. -/
  duty : parsed.value = none → parsed.pwmDuty.isSome →
    (s.value = some 0 ↔ (d.byRegisters m).2.value = some 0) ∨
      m.registers d.reg &&& d.mask = 0 ∧ d.Beside device outputs parsed d.reg
  /-- The cycle of the duty. -/
  cycle : parsed.value = none → parsed.pwmFreq = none → ∀ id pwm, d.pwm = some (id, pwm) →
    ∀ duty ∈ parsed.pwmDuty, pwm.dutyRaw p duty = pwm.dutyRaw (d.byRegisters m).1 duty
  /-- The duties to rewrite. -/
  freq : ∀ id pwm, d.pwm = some (id, pwm) → ∀ freq ∈ parsed.pwmFreq, ∀ p',
    (pwm.set id p freq : SetScript ι PwmState).result = .ok p' →
      ∀ e ∈ outputs, inGroup device id (parsed.value.isNone && parsed.pwmDuty.isNone) e →
        pending pwm p' e.2.2 = pending pwm p' (e.2.1.byRegisters m).2

/-- The frequency part of checked params. -/
def applyFreq (d : DigitalOutput) (device : ι) (p : PwmState) (outputs : List (Entry ι))
    (parsed : Parsed) : SetScript ι PwmState :=
  match d.pwm, parsed.pwmFreq with
  | some (id, pwm), some freq =>
    setPwmFreq device id pwm p outputs freq (parsed.value.isNone && parsed.pwmDuty.isNone)
  | _, _ => pure p

/-- The other part. -/
def applyDuty (d : DigitalOutput) (device : ι) (s : State) (parsed : Parsed) (p : PwmState) :
    SetScript ι Unit :=
  match parsed.value, parsed.pwmDuty, d.pwm with
  | some value, _, _ => do
    d.writeValue value
    if s.pwmOn then
      Script.emit (.assign device (.pwmDuty 0))
      d.accessorPwmDuty.write 0
  | none, some duty, some (_, pwm) => do
    if s.value ≠ some 0 then d.writeValue false
    d.accessorPwmDuty.write (← SetScript.ofExcept (pwm.dutyRaw p duty))
  | _, _, _ => pure ()

theorem apply_parts (d : DigitalOutput) (device : ι) (s : State) (p : PwmState)
    (outputs : List (Entry ι)) (parsed : Parsed) :
    d.apply device s p outputs parsed =
      d.applyFreq device p outputs parsed >>= d.applyDuty device s parsed := by
  obtain ⟨value, pwmDuty, pwmFreq⟩ := parsed
  unfold apply applyFreq applyDuty
  cases d.pwm <;> cases value <;> cases pwmDuty <;> cases pwmFreq <;> rfl

omit [DecidableEq ι] in
/-- The write of a duty keeps the other registers. -/
theorem preserves_write_duty (d : DigitalOutput) (raw : ℤ) {r : ℕ} (h : r ≠ d.pwmDutyReg)
    (v : Word) :
    (d.accessorPwmDuty.write raw : SetScript ι Unit).Preserves (Memory.exec wiring)
      (·.registers r = v) := by
  cases hpwm : d.pwm with
  | none =>
    simp only [accessorPwmDuty, hpwm]
    exact .throw _
  | some pwm =>
    rw [write_accessorPwmDuty (Option.isSome_of_eq_some hpwm)]
    split
    · refine .emit fun m hm => ?_
      rw [Memory.exec, PwmGroup.block_singleton]
      exact (Function.update_of_ne h _ _).trans hm
    · exact .throw _

omit [DecidableEq ι] in
theorem preserves_keepDuties (pwm : PwmFrequency) (p : PwmState) {outputs : List (Entry ι)} {r : ℕ}
    (h : ∀ e ∈ outputs, r ≠ e.2.1.pwmDutyReg) (v : Word) :
    (keepDuties pwm p outputs).Preserves (Memory.exec wiring) (·.registers r = v) := by
  induction outputs with
  | nil => exact .pure ()
  | cons e outputs ih =>
    rw [List.forall_mem_cons] at h
    refine .bind ?_ fun _ _ => ih h.2
    rw [keepDuty_eq]
    cases pending pwm p e.2.2 with
    | error e => exact .throw e
    | ok raw =>
      refine .bind (.pure raw) fun raw' _ => ?_
      cases raw' with
      | none => exact .pure ()
      | some raw' =>
        exact .bind (preserves_write_duty e.2.1 raw' h.1 v) fun _ _ => .emit fun _ hm => hm

/-- The frequency part keeps the registers beside it. -/
theorem preserves_applyFreq {d : DigitalOutput} {device : ι} (p : PwmState)
    {outputs : List (Entry ι)} {parsed : Parsed} {r : ℕ}
    (beside : d.Beside device outputs parsed r) (v : Word) :
    (d.applyFreq device p outputs parsed).Preserves (Memory.exec wiring) (·.registers r = v) := by
  unfold applyFreq
  cases hpwm : d.pwm with
  | none => exact .pure p
  | some pwm =>
    obtain ⟨id, pwm⟩ := pwm
    cases hfreq : parsed.pwmFreq with
    | none => exact .pure p
    | some freq =>
      obtain ⟨hfrequency, hduties⟩ := beside id pwm hpwm (by simp [hfreq])
      refine .bind (fun m hm => (pwm.after_set m id p freq hfrequency).trans hm) fun p' _ => ?_
      refine .bind (preserves_keepDuties pwm p' (fun e mem => ?_) v) fun _ _ => .pure p'
      obtain ⟨mem, group⟩ := List.mem_filter.mp mem
      exact hduties e mem group

/-- The frequency part has the effect of the one after a check. -/
theorem related_applyFreq {m : Memory} {d : DigitalOutput} {device : ι} {s : State} {p : PwmState}
    {outputs : List (Entry ι)} {parsed : Parsed} (h : d.Current m device s p outputs parsed) :
    Script.Related (Memory.exec wiring) SetError.isValue m
      (fun _ p' q' => ∀ id pwm, d.pwm = some (id, pwm) → parsed.value = none →
        ∀ duty ∈ parsed.pwmDuty, pwm.dutyRaw p' duty = pwm.dutyRaw q' duty)
      (d.applyFreq device p outputs parsed)
      (d.applyFreq device (d.byRegisters m).1 (checkedOutputs m outputs) parsed) := by
  unfold applyFreq
  cases hpwm : d.pwm with
  | none => exact .pure (by simp)
  | some pwm =>
    obtain ⟨id, pwm⟩ := pwm
    cases hfreq : parsed.pwmFreq with
    | none =>
      refine .pure ?_
      rintro _ _ ⟨⟩ hvalue duty mem
      exact h.cycle hvalue hfreq id pwm hpwm duty mem
    | some freq =>
      refine (pwm.related_set m id p (d.byRegisters m).1 freq).bind ?_
      rintro t p' q' ⟨hp, hq⟩
      have hduty := PwmFrequency.dutyRaw_set hp hq
      have hkeep := keepDuties_checkedOutputs hduty (h.freq id pwm hpwm freq hfreq p' hp)
      show Script.Related _ _ t _ (keepDuties pwm p' (outputs.filter (inGroup device id _)) >>= _)
        (keepDuties pwm q' ((checkedOutputs m outputs).filter (inGroup device id _)) >>= _)
      rw [hkeep]
      refine (Script.Related.refl (Q := fun _ _ _ => True) _ fun _ _ => trivial).bind
        fun _ _ _ _ => .pure ?_
      rintro _ _ ⟨⟩ _ duty _
      exact hduty duty

omit [DecidableEq ι] in
/-- The PWM is turned off without an effect if its register is 0. -/
theorem idle_turnOff {d : DigitalOutput} (hpwm : d.pwm.isSome) (device : ι) {m : Memory}
    (zero : m.registers d.pwmDutyReg = 0) (on : Bool) :
    (if on then do
        Script.emit (.assign device (.pwmDuty 0))
        d.accessorPwmDuty.write 0
      else pure () : SetScript ι Unit).Idle (Memory.exec wiring) m () := by
  have hwrite := write_accessorPwmDuty (ι := ι) hpwm 0
  rw [Int.cast_zero, if_pos (by decide)] at hwrite
  cases on with
  | false => exact .pure ()
  | true =>
    rw [if_pos rfl, hwrite]
    refine ⟨?_, rfl⟩
    have hword : Function.update m.registers d.pwmDutyReg (BitVec.ofInt 16 0) = m.registers := by
      rw [Function.update_eq_iff]
      exact ⟨by rw [zero]; rfl, fun _ _ => rfl⟩
    rw [← PwmGroup.block_singleton] at hword
    exact congrArg (fun registers => { m with registers }) hword

omit [DecidableEq ι] in
/-- The output is turned off without an effect if its bit is 0. -/
theorem idle_turnLow {d : DigitalOutput} (wired : d.Wired wiring) {m : Memory}
    (clear : m.registers d.reg &&& d.mask = 0) (value : Option ℤ) :
    (if value ≠ some 0 then d.writeValue false else pure () : SetScript ι Unit).Idle
      (Memory.exec wiring) m () := by
  split
  · exact ⟨(d.after_writeValue wired false m).trans (Memory.writeBit_of_clear clear),
      d.writeValue_result false⟩
  · exact .pure ()

omit [DecidableEq ι] in
theorem applyDuty_duty {d : DigitalOutput} {pwm : ℕ × PwmFrequency} (hpwm : d.pwm = some pwm)
    (device : ι) (s : State) (duty : ℚ) (freq : Option ℚ) (p : PwmState) :
    d.applyDuty device s ⟨none, some duty, freq⟩ p =
      (if s.value ≠ some 0 then d.writeValue false else pure ()) >>= fun _ =>
        SetScript.ofExcept (pwm.2.dutyRaw p duty) >>= fun raw => d.accessorPwmDuty.write raw := by
  unfold applyDuty
  rw [hpwm]
  dsimp only
  split <;> rfl

/-- The other part has the effect of the one after a check. -/
theorem related_applyDuty {m : Memory} {d : DigitalOutput} (wired : d.Wired wiring) {device : ι}
    {s : State} {p : PwmState} {outputs : List (Entry ι)} {parsed : Parsed}
    (h : d.Current m device s p outputs parsed) {t : Memory} {p' q' : PwmState}
    (kept : ∀ r, d.Beside device outputs parsed r → t.registers r = m.registers r)
    (hduty : ∀ id pwm, d.pwm = some (id, pwm) → parsed.value = none →
      ∀ duty ∈ parsed.pwmDuty, pwm.dutyRaw p' duty = pwm.dutyRaw q' duty) :
    Script.Related (Memory.exec wiring) SetError.isValue t (fun _ _ _ => True)
      (d.applyDuty device s parsed p') (d.applyDuty device (d.byRegisters m).2 parsed q') := by
  obtain ⟨value, pwmDuty, pwmFreq⟩ := parsed
  cases value with
  | some value =>
    unfold applyDuty
    dsimp only
    refine ((Script.Related.refl (Q := fun _ _ _ => True) _ fun _ _ => trivial).and_state
      (P := (· = t.writeBit d.reg d.mask value)) (d.after_writeValue wired value t)).bind ?_
    rintro u _ _ ⟨rfl, -⟩
    rcases h.value rfl with same | ⟨hpwm, zero, hne, beside⟩
    · rw [same]
      exact .refl _ fun _ _ => trivial
    · have hzero : (t.writeBit d.reg d.mask value).registers d.pwmDutyReg = 0 :=
        (t.writeBit_of_ne hne _ _).trans ((kept _ beside).trans zero)
      exact .of_idle (idle_turnOff hpwm device hzero _) (idle_turnOff hpwm device hzero _) trivial
  | none =>
    cases pwmDuty with
    | none =>
      unfold applyDuty
      exact .pure trivial
    | some duty =>
      cases hpwm : d.pwm with
      | none =>
        simp only [applyDuty, hpwm]
        exact .pure trivial
      | some pwm =>
        rw [applyDuty_duty hpwm, applyDuty_duty hpwm]
        refine Script.Related.bind (Q := fun _ _ _ => True) ?_ fun u _ _ _ => ?_
        · rcases h.duty rfl rfl with same | ⟨clear, beside⟩
          · simp only [ne_eq, same]
            exact .refl _ fun _ _ => trivial
          · have hclear : t.registers d.reg &&& d.mask = 0 := by rw [kept _ beside, clear]
            exact .of_idle (idle_turnLow wired hclear _) (idle_turnLow wired hclear _) trivial
        · rw [hduty pwm.1 pwm.2 hpwm rfl duty rfl]
          exact .refl _ fun _ _ => trivial

/-- A change with checked params has the effect of the one after a check. -/
theorem related_apply {m : Memory} {d : DigitalOutput} (wired : d.Wired wiring) {device : ι}
    {s : State} {p : PwmState} {outputs : List (Entry ι)} {parsed : Parsed}
    (h : d.Current m device s p outputs parsed) :
    Script.Related (Memory.exec wiring) SetError.isValue m (fun _ _ _ => True)
      (d.apply device s p outputs parsed)
      (d.apply device (d.byRegisters m).2 (d.byRegisters m).1 (checkedOutputs m outputs)
        parsed) := by
  rw [apply_parts, apply_parts]
  refine ((related_applyFreq h).and_state (P := fun t => ∀ r, d.Beside device outputs parsed r →
    t.registers r = m.registers r) fun r beside => preserves_applyFreq p beside _ m rfl).bind ?_
  rintro t p' q' ⟨kept, hduty⟩
  exact related_applyDuty wired h kept hduty

theorem related_set {m : Memory} {d : DigitalOutput} (wired : d.Wired wiring) {device : ι}
    {s : State} {p : PwmState} {outputs : List (Entry ι)} {params : Params}
    (h : ∀ parsed, d.parse params = .ok parsed → d.Current m device s p outputs parsed) :
    Script.Related (Memory.exec wiring) SetError.isValue m (fun _ _ _ => True)
      (d.set device s p outputs params)
      (d.set device (d.byRegisters m).2 (d.byRegisters m).1 (checkedOutputs m outputs) params) := by
  unfold set
  cases hparse : d.parse params with
  | error e => exact .throw rfl
  | ok parsed =>
    refine Script.Related.bind (Q := fun t a b => t = m ∧ a = parsed ∧ b = parsed)
      (.pure ⟨rfl, rfl, rfl⟩) ?_
    rintro t _ _ ⟨rfl, rfl, rfl⟩
    exact (related_apply wired (h _ hparse)).bind fun _ _ _ _ => .refl _ fun _ _ => trivial

end DigitalOutput

/-! ## Digital inputs -/

/-- The checks of a mode depend on the mode only if a `ds_mode` is set without one. -/
theorem DIMode.check_congr {d : DIMode} {s t : State} {mode dsMode : Option String}
    (h : ∀ x ∈ dsMode, x ∈ d.dsModes → mode = none →
      (s.mode = "DirectSwitch" ↔ t.mode = "DirectSwitch")) :
    d.check s mode dsMode = d.check t mode dsMode := by
  unfold check
  cases dsMode with
  | none => rfl
  | some x =>
    cases mode with
    | some mode => rfl
    | none =>
      by_cases known : x ∈ d.dsModes
      · simp only [Option.getD_none, ne_eq, h x rfl known rfl]
      · simp only [known, not_false_eq_true, if_true]
        rfl

namespace DigitalInput

/-- The attributes which a check gives; a mode without a register is kept. -/
def byRegisters (d : DigitalInput) (m : Memory) (s : Attrs) : Attrs :=
  { counterMode := s.counterMode
    dimode := { mode := (d.dimode.update m.holding s.dimode).1.mode } }

/-- A `ds_mode` without a mode is accepted as after a check. -/
def Current (d : DigitalInput) (m : Memory) (s : Attrs) (params : Params) : Prop :=
  ∀ x ∈ params.dsMode, x ∈ d.dsModes → params.mode = none →
    (s.dimode.mode = "DirectSwitch" ↔ (d.byRegisters m s).dimode.mode = "DirectSwitch")

theorem set_byRegisters {d : DigitalInput} {m : Memory} {s : Attrs} {params : Params}
    (h : d.Current m s params) (device : ι) :
    d.set device s params = d.set device (d.byRegisters m s) params := by
  have hcheck : d.dimode.check s.dimode params.mode params.dsMode =
      d.dimode.check (d.byRegisters m s).dimode params.mode params.dsMode :=
    DIMode.check_congr h
  have hparse : d.parse s params = d.parse (d.byRegisters m s) params := by
    unfold parse
    rw [hcheck]
    rfl
  have hmode : (d.dimode.set device s.dimode params.mode params.dsMode : SetScript ι Unit) =
      d.dimode.set device (d.byRegisters m s).dimode params.mode params.dsMode := by
    unfold DIMode.set
    rw [hcheck]
  unfold set
  rw [hparse, hmode]
  rfl

end DigitalInput

/-! ## Analog outputs -/

/-- The checks of a mode depend on the mode only without a mode register. -/
theorem IOMode.check_congr {d : IOMode} {s t : State} (h : d.index = none → s = t) (mode : String) :
    d.check s mode = d.check t mode := by
  unfold check
  cases hindex : d.index with
  | none => rw [h hindex]
  | some index =>
    cases d.modes.lookup mode with
    | none => rfl
    | some data => cases hvalue : data.value <;> simp only [hvalue]

namespace AnalogIO

/-- What the checks keep of the attributes. -/
structure Consistent (d : AnalogIO) (s : State) : Prop where
  fixed : d.iomode.index = none → s.iomode = d.iomode.init
  known : d.iomode.index.isSome → s.iomode.mode = s.iomode.modeValue.bind d.iomode.find
  ratio : d.kind ≠ .input → s.accessor.ratio = d.defaultAccessor.ratio
  accessor : d.kind = .output → s.accessor = d.defaultAccessor

/-- The attributes which a check gives to a new device. -/
def byRegisters (d : AnalogIO) (m : Memory) : State :=
  { iomode := (d.iomode.update m.holding d.iomode.init).1, accessor := d.defaultAccessor }

/-- The registers are 0 and the setting of a mode keeps them. -/
structure Zero (d : AnalogIO) (m : Memory) : Prop where
  brain : ∃ regRes, d.kind = .brain regRes
  low : m.registers d.reg = 0
  high : m.registers (d.reg + 1) = 0
  low_apart : d.iomode.index ≠ some d.reg
  high_apart : d.iomode.index ≠ some (d.reg + 1)

/-- A value is accepted in the mode as in the one of the register, and a change of the mode of a
Brain sets 0 as by the mode of the register, or it has no effect. -/
structure Current (d : AnalogIO) (m : Memory) (s : State) (params : Params) : Prop where
  value : d.kind ≠ .input → params.mode = none → ∀ value ∈ params.value,
    refusal (d.checkValue s value s.iomode.mode) =
      refusal (d.checkValue s value (d.byRegisters m).iomode.mode)
  mode : ∀ regRes, d.kind = .brain regRes → params.value = none → ∀ mode ∈ params.mode,
    mode = "Voltage" ∨ mode = "Current" →
      (s.iomode.mode = some mode ↔ (d.byRegisters m).iomode.mode = some mode) ∨
        (∃ value, d.checkValue s (.int 0) (some mode) = .ok value) ∧ d.Zero m

/-- The writes of checked params. -/
def applyParsed (d : AnalogIO) (device : ι) (s : State) (params : Params) (value : Option ℚ) :
    SetScript ι Unit := do
  if let some mode := params.mode then discard (d.iomode.set s.iomode mode)
  if let some value := value then (d.writeAccessor s).write value
  SetScript.setAlias device params.aliasName

theorem set_parts (d : AnalogIO) (device : ι) (s : State) (params : Params) :
    d.set device s params =
      SetScript.ofExcept (d.parse s params) >>= d.applyParsed device s params := by
  rfl

theorem checkValue_congr {d : AnalogIO} {s t : State} (h : s.accessor.ratio = t.accessor.ratio)
    (value : PyValue) (mode : Option String) :
    d.checkValue s value mode = d.checkValue t value mode := by
  unfold checkValue
  rw [h]

/-- An accepted value is the number of the param. -/
theorem checkValue_ok {d : AnalogIO} {s : State} {value : PyValue} {mode : Option String} {q : ℚ}
    (h : d.checkValue s value mode = .ok q) : toFloat value = .ok q := by
  unfold checkValue at h
  cases hvalue : toFloat value with
  | error e =>
    rw [hvalue] at h
    dsimp only at h
    split at h
    · split at h <;> cases h
    · cases h
  | ok x =>
    have hrange : ∀ {low high : ℚ} {message : String},
        (if ¬(low ≤ x ∧ x ≤ high) then
            (throw (SetError.value message) : Except SetError PUnit) >>= fun _ => pure x
          else pure x) = .ok q → x = q := by
      intro low high message h
      split at h
      · cases h
      · exact Except.ok.inj h
    rw [hvalue] at h
    dsimp only at h
    split at h
    · split at h
      · cases h
      · exact congrArg _ (hrange h)
    · exact congrArg _ (hrange h)

/-- A write of 0 has no effect on registers of 0. -/
theorem idle_writeZero {d : AnalogIO} {regRes : Option ℕ} (hkind : d.kind = .brain regRes)
    (s : State) {m : Memory} (low : m.registers d.reg = 0) (high : m.registers (d.reg + 1) = 0) :
    ((d.writeAccessor s).write 0 : SetScript ι Unit).Idle (Memory.exec wiring) m () := by
  have hwrite : ((d.writeAccessor s).write 0 : SetScript ι Unit) =
      Script.emit (.writeRegisters d.reg [0, 0] true true) := by
    simp only [writeAccessor, hkind]
    rfl
  rw [hwrite]
  refine ⟨?_, rfl⟩
  have hsame : Overlay.apply (block (d.reg, [0, 0])) m.registers = m.registers := by
    funext r
    unfold Overlay.apply block
    split
    · next covered =>
      obtain rfl | rfl : r = d.reg ∨ r = d.reg + 1 := by
        simp only [List.length_cons, List.length_nil] at covered
        omega
      · simp [low]
      · simp [high]
    · rfl
  exact congrArg (fun registers => { m with registers }) hsame

/-- The setting of a mode keeps the other registers. -/
theorem preserves_setMode (d : IOMode) (s : IOMode.State) (mode : String) {r : ℕ}
    (h : d.index ≠ some r) (v : Word) :
    (d.set s mode : SetScript ι ModeData).Preserves (Memory.exec wiring) (·.registers r = v) := by
  unfold IOMode.set
  refine .bind ?_ fun data _ => ?_
  · cases d.check s mode with
    | ok data => exact .pure data
    | error e => exact .throw e
  · split
    · refine .bind ?_ fun _ _ => .pure data
      refine d.accessor.preserves_write _ (fun index hindex => ?_) v
      cases hregister : d.index with
      | none =>
        rw [IOMode.accessor, hregister] at hindex
        cases hindex
      | some register =>
        have hne : register ≠ r := fun heq => h (hregister.trans (congrArg some heq))
        rw [IOMode.accessor, hregister] at hindex ⊢
        obtain rfl : register = index := Option.some.inj hindex
        change ¬(register ≤ r ∧ r < register + 1)
        omega
    · exact .pure data

theorem byRegisters_iomode (d : AnalogIO) (m : Memory) (h : d.iomode.index = none) :
    (d.byRegisters m).iomode = d.iomode.init := by
  have hupdate : d.iomode.update m.holding d.iomode.init = (d.iomode.init, .ok false) := by
    unfold IOMode.update IOMode.accessor
    rw [h]
    rfl
  rw [byRegisters, hupdate]

/-- The values of a write which may differ: a 0 has no effect on registers of 0. -/
def Same (d : AnalogIO) (m : Memory) (value value' : Option ℚ) : Prop :=
  (value = value' ∧ (d.kind = .input → value = none)) ∨
    d.Zero m ∧ (value = none ∨ value = some 0) ∧ (value' = none ∨ value' = some 0)

/-- The value to set does not depend on the attributes, besides the one of a new mode of a Brain. -/
theorem newValue_cases (d : AnalogIO) (s t : State) (params : Params) :
    d.newValue s params = d.newValue t params ∨
      (∃ regRes, d.kind = .brain regRes) ∧ params.value = none ∧
        (∃ mode ∈ params.mode, (mode = "Voltage" ∨ mode = "Current") ∧
          ¬(s.iomode.mode = some mode ↔ t.iomode.mode = some mode)) ∧
        ∀ s ∈ [s, t], d.newValue s params = none ∨ d.newValue s params = some (.int 0) := by
  unfold newValue
  cases hkind : d.kind with
  | input => exact .inl rfl
  | output => exact .inl rfl
  | brain regRes =>
    cases hvalue : params.value with
    | some value => exact .inl rfl
    | none =>
      cases hmode : params.mode with
      | none => exact .inl rfl
      | some mode =>
        by_cases same : s.iomode.mode = some mode ↔ t.iomode.mode = some mode
        · left
          have heq : (some mode = s.iomode.mode) = (some mode = t.iomode.mode) := by
            rw [eq_comm (a := some mode), eq_comm (a := some mode), same]
          simp only [ne_eq, heq]
        · by_cases known : mode = "Voltage" ∨ mode = "Current"
          · refine .inr ⟨⟨regRes, rfl⟩, rfl, ⟨mode, rfl, known, same⟩, ?_⟩
            intro s _
            dsimp only
            split
            · exact .inr rfl
            · exact .inl rfl
          · left
            simp only [known, and_false]

/-- The checks of a value, after the one of the mode. -/
theorem parse_eq {d : AnalogIO} (output : d.kind ≠ .input) (s : State) (params : Params) :
    d.parse s params =
      params.mode.elim (pure ()) (fun mode => discard (d.iomode.check s.iomode mode)) >>= fun _ =>
        (d.newValue s params).elim (pure none) fun value =>
          some <$> d.checkValue s value (params.mode.orElse fun _ => s.iomode.mode) := by
  have hmap : ∀ value : Option PyValue, (value.mapM fun value =>
      d.checkValue s value (params.mode.orElse fun _ => s.iomode.mode)) =
        value.elim (pure none) fun value =>
          some <$> d.checkValue s value (params.mode.orElse fun _ => s.iomode.mode) := by
    rintro (_ | value) <;> rfl
  unfold parse
  simp only [hmap]
  cases hkind : d.kind with
  | input => exact absurd hkind output
  | output => cases params.mode <;> rfl
  | brain regRes => cases params.mode <;> rfl

/-- The checks accept the params as after a check, with the same value. -/
theorem parse_byRegisters {d : AnalogIO} {m : Memory} {s : State} (consistent : d.Consistent s)
    {params : Params} (h : d.Current m s params) :
    Script.Results SetError.isValue (d.Same m) (d.parse s params)
      (d.parse (d.byRegisters m) params) := by
  by_cases output : d.kind = .input
  · have hinput : ∀ s, d.parse s params = .ok none := by
      intro s
      simp only [parse, newValue, output]
      rfl
    rw [hinput, hinput]
    exact .ok (.inl ⟨rfl, fun _ => rfl⟩)
  · have hcheck : ∀ mode, d.iomode.check s.iomode mode =
        d.iomode.check (d.byRegisters m).iomode mode :=
      IOMode.check_congr fun h => (consistent.fixed h).trans (d.byRegisters_iomode m h).symm
    have hvalue : ∀ value mode, d.checkValue s value mode =
        d.checkValue (d.byRegisters m) value mode :=
      checkValue_congr (consistent.ratio output)
    rw [parse_eq output, parse_eq output]
    simp only [hcheck, hvalue]
    cases hmode : params.mode with
    | none =>
      have hnew : ∀ s, d.newValue s params = params.value := by
        intro s
        unfold newValue
        cases hkind : d.kind with
        | input => exact absurd hkind output
        | output => rfl
        | brain regRes => cases hparam : params.value <;> simp only [hmode]
      simp only [hnew]
      cases hparam : params.value with
      | none => exact .ok (.inl ⟨rfl, fun _ => rfl⟩)
      | some value =>
        have haccepted := h.value output hmode value hparam
        simp only [hvalue] at haccepted
        show Script.Results _ _ (some <$> d.checkValue (d.byRegisters m) value s.iomode.mode)
          (some <$> d.checkValue (d.byRegisters m) value (d.byRegisters m).iomode.mode)
        cases hold : d.checkValue (d.byRegisters m) value s.iomode.mode with
        | ok q =>
          cases hnow : d.checkValue (d.byRegisters m) value (d.byRegisters m).iomode.mode with
          | ok q' =>
            have heq := (checkValue_ok hold).symm.trans (checkValue_ok hnow)
            rw [Except.ok.inj heq]
            exact .ok (.inl ⟨rfl, fun input => absurd input output⟩)
          | error e =>
            rw [hold, hnow] at haccepted
            cases haccepted
        | error e =>
          cases hnow : d.checkValue (d.byRegisters m) value (d.byRegisters m).iomode.mode with
          | ok q' =>
            rw [hold, hnow] at haccepted
            cases haccepted
          | error e' =>
            rw [hold, hnow] at haccepted
            exact .error (Option.some.inj haccepted)
    | some mode =>
      simp only [Option.elim_some]
      cases d.iomode.check (d.byRegisters m).iomode mode with
      | error e => exact .error rfl
      | ok data =>
        show Script.Results _ _
          ((d.newValue s params).elim (pure none) fun value =>
            some <$> d.checkValue (d.byRegisters m) value (some mode))
          ((d.newValue (d.byRegisters m) params).elim (pure none) fun value =>
            some <$> d.checkValue (d.byRegisters m) value (some mode))
        rcases d.newValue_cases s (d.byRegisters m) params with
          same | ⟨hkind, hparam, hdiffers, hnew⟩
        · rw [same]
          cases (d.newValue (d.byRegisters m) params).elim (pure none) fun value =>
            some <$> d.checkValue (d.byRegisters m) value (some mode) with
          | ok value => exact .ok (.inl ⟨rfl, fun input => absurd input output⟩)
          | error e => exact .error rfl
        · obtain ⟨regRes, hkind⟩ := hkind
          obtain ⟨mode', hmode', known, differs⟩ := hdiffers
          obtain rfl : mode = mode' := Option.some.inj (hmode.symm.trans hmode')
          obtain ⟨⟨q, hq⟩, zero⟩ :=
            (h.mode regRes hkind hparam mode hmode known).resolve_left differs
          rw [hvalue] at hq
          obtain rfl : 0 = q := Except.ok.inj (toFloat_zero.symm.trans (checkValue_ok hq))
          have hresult : ∀ s ∈ [s, d.byRegisters m], ∃ value,
              ((d.newValue s params).elim (pure none) fun value =>
                some <$> d.checkValue (d.byRegisters m) value (some mode)) = .ok value ∧
                  (value = none ∨ value = some 0) := by
            intro s mem
            rcases hnew s mem with none | zero
            · rw [none]
              exact ⟨_, rfl, .inl rfl⟩
            · rw [zero, Option.elim_some, hq]
              exact ⟨_, rfl, .inr rfl⟩
          obtain ⟨value, hs, hvalue⟩ := hresult s (by simp)
          obtain ⟨value', hs', hvalue'⟩ := hresult (d.byRegisters m) (by simp)
          rw [hs, hs']
          exact .ok (.inr ⟨zero, hvalue, hvalue'⟩)

/-- The writes of checked params, the mode first. -/
theorem applyParsed_eq (d : AnalogIO) (device : ι) (s : State) (params : Params)
    (value : Option ℚ) :
    d.applyParsed device s params value =
      params.mode.elim (pure ()) (fun mode => discard (d.iomode.set s.iomode mode)) >>= fun _ =>
        value.elim (pure ()) (fun value => (d.writeAccessor s).write value) >>= fun _ =>
          SetScript.setAlias device params.aliasName := by
  unfold applyParsed
  cases params.mode <;> cases value <;> rfl

/-- The writes of checked params have the effect of the ones after a check. -/
theorem related_applyParsed {d : AnalogIO} {m : Memory} {s : State}
    (consistent : d.Consistent s) (device : ι) (params : Params) {value value' : Option ℚ}
    (same : d.Same m value value') :
    Script.Related (Memory.exec wiring) SetError.isValue m (fun _ _ _ => True)
      (d.applyParsed device s params value)
      (d.applyParsed device (d.byRegisters m) params value') := by
  have hset : ∀ mode, (d.iomode.set s.iomode mode : SetScript ι ModeData) =
      d.iomode.set (d.byRegisters m).iomode mode := by
    intro mode
    unfold IOMode.set
    rw [IOMode.check_congr fun h => (consistent.fixed h).trans (d.byRegisters_iomode m h).symm]
  rw [applyParsed_eq, applyParsed_eq]
  simp only [hset]
  rcases same with ⟨rfl, input⟩ | ⟨zero, hvalue, hvalue'⟩
  · have hwrite : (value.elim (pure ()) fun value => (d.writeAccessor s).write value :
        SetScript ι Unit) =
          value.elim (pure ()) fun value => (d.writeAccessor (d.byRegisters m)).write value := by
      unfold writeAccessor
      cases hkind : d.kind with
      | input => rw [input hkind]; rfl
      | output => rw [consistent.accessor hkind]; rfl
      | brain regRes => rfl
    rw [hwrite]
    exact .refl _ fun _ _ => trivial
  · obtain ⟨regRes, hkind⟩ := zero.brain
    refine ((Script.Related.refl (Q := fun _ _ _ => True) _ fun _ _ => trivial).and_state
      (P := fun t => t.registers d.reg = 0 ∧ t.registers (d.reg + 1) = 0) ?_).bind ?_
    · have hmode : ∀ {r : ℕ}, d.iomode.index ≠ some r → m.registers r = 0 →
          ((params.mode.elim (pure ()) fun mode => discard (d.iomode.set (d.byRegisters m).iomode
            mode) : SetScript ι Unit).after (Memory.exec wiring) m).registers r = 0 := by
        intro r apart clear
        cases params.mode with
        | none => exact clear
        | some mode =>
          exact Script.Preserves.bind (preserves_setMode d.iomode _ mode apart 0)
            (fun _ _ => .pure _) m clear
      exact ⟨hmode zero.low_apart zero.low, hmode zero.high_apart zero.high⟩
    · rintro t _ _ ⟨⟨low, high⟩, -⟩
      have hidle : ∀ {s : State} {value : Option ℚ}, value = none ∨ value = some 0 →
          (value.elim (pure ()) fun value => (d.writeAccessor s).write value :
            SetScript ι Unit).Idle (Memory.exec wiring) t () := by
        rintro s _ (rfl | rfl)
        · exact .pure ()
        · exact idle_writeZero hkind s low high
      exact (Script.Related.of_idle (Q := fun _ _ _ => True) (hidle hvalue) (hidle hvalue')
        trivial).bind fun _ _ _ _ => .refl _ fun _ _ => trivial

theorem related_set {d : AnalogIO} {m : Memory} {s : State} (consistent : d.Consistent s)
    (device : ι) {params : Params} (h : d.Current m s params) :
    Script.Related (Memory.exec wiring) SetError.isValue m (fun _ _ _ => True)
      (d.set device s params) (d.set device (d.byRegisters m) params) := by
  rw [set_parts, set_parts]
  rcases (parse_byRegisters consistent h).elim with ⟨v, v', hv, hv', same⟩ | ⟨e, e', hv, hv', same⟩
  · rw [hv, hv']
    refine Script.Related.bind (Q := fun t a b => t = m ∧ a = v ∧ b = v')
      (.pure ⟨rfl, rfl, rfl⟩) ?_
    rintro t _ _ ⟨rfl, rfl, rfl⟩
    exact related_applyParsed consistent device params same
  · rw [hv, hv']
    exact .throw same

end AnalogIO

end Modbus

end Evok
