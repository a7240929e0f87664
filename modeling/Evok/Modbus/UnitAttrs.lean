import Evok.Modbus.Events
import Evok.Modbus.Refreshed

/-!
# The attributes of a unit

What an action of `set()` and the checks of the devices keep of the attributes of all devices of a
unit. A change which decides by them as by the registers has the effect of the change after a check.

## Main definitions

* `Attrs.check` : the checks of all devices.
* `Attrs.Current` : `set()` of a device decides as by the registers.
* `Attrs.Lasting` : the attributes which no check reads are the same.

## Main results

* `Device.related_set` : the effect of a change is the one after a check.
* `Attrs.fresh_check` : the checks refresh the attributes of every device.
-/

namespace Evok

namespace Modbus

namespace Device

variable {ι : Type} [DecidableEq ι] {wiring : Wiring} {m : Memory}

/-- A change which decides as by the registers has the effect of the change after a check. -/
theorem related_set {d : Device} (wired : d.Wired wiring) {i : ι} {p : PwmState}
    {outputs : List (DigitalOutput.Entry ι)} {s : d.State} (consistent : d.Consistent s)
    {params : d.Params} (current : d.Current m i p outputs s params) :
    Script.Related (Memory.exec wiring) SetError.isValue m (fun _ _ _ => True)
      (d.set i p outputs s params) (d.setByRegisters m i outputs s params) := by
  cases d with
  | digitalOutput d => exact DigitalOutput.related_set wired current
  | digitalInput d =>
    have h := DigitalInput.set_byRegisters current i
    show Script.Related _ _ m _ (d.set i s.toAttrs params)
      (d.set i (d.byRegisters m s.toAttrs) params)
    rw [← h]
    exact .refl _ fun _ _ => trivial
  | analog d => exact AnalogIO.related_set consistent i current
  | binaryOutput d => exact .refl _ fun _ _ => trivial
  | dataPoint d => exact .refl _ fun _ _ => trivial
  | owPower d => exact .refl _ fun _ _ => trivial
  | nvSave d => exact .refl _ fun _ _ => trivial
  | watchdog d => exact .refl _ fun _ _ => trivial

/-- By the registers, a plain change depends on the lasting attributes only. -/
theorem setByRegisters_congr {d : Device} {s t : d.State} (lasting : d.Lasting s t)
    {params : d.Params} (plain : d.Plain params) {outputs outputs' : List (DigitalOutput.Entry ι)}
    (same : DigitalOutput.checkedOutputs m outputs = DigitalOutput.checkedOutputs m outputs')
    (i : ι) : d.setByRegisters m i outputs s params = d.setByRegisters m i outputs' t params := by
  cases d with
  | digitalOutput d =>
    show d.set i _ _ (DigitalOutput.checkedOutputs m outputs) params = d.set i _ _ _ params
    rw [same]
  | digitalInput d =>
    show d.set i (d.byRegisters m s.toAttrs) params = d.set i (d.byRegisters m t.toAttrs) params
    rw [lasting.byRegisters]
  | nvSave d => exact plain.2.elim
  | analog d => rfl
  | binaryOutput d => rfl
  | dataPoint d => rfl
  | owPower d => rfl
  | watchdog d => rfl

/-- Two inputs with the same lasting attributes take the same actions. -/
theorem set_input {d : Device} {d' : DigitalInput} (hd : d = digitalInput d') {i : ι}
    {p q : PwmState} {outputs outputs' : List (DigitalOutput.Entry ι)} {s t : d.State}
    (lasting : d.Lasting s t) {params : d.Params} (current : d.Current m i p outputs s params)
    (current' : d.Current m i q outputs' t params) :
    d.set i p outputs s params = d.set i q outputs' t params := by
  subst hd
  have hs : d'.set i s.toAttrs params = d'.set i (d'.byRegisters m s.toAttrs) params :=
    DigitalInput.set_byRegisters current i
  have ht : d'.set i t.toAttrs params = d'.set i (d'.byRegisters m t.toAttrs) params :=
    DigitalInput.set_byRegisters current' i
  rw [DigitalInput.Lasting.byRegisters lasting, ← ht] at hs
  exact hs

/-- A checked device decides by the registers. -/
theorem Fresh.current {d : Device} {i : ι} {p : PwmState} {s : d.State} (fresh : d.Fresh m p s)
    {outputs : List (DigitalOutput.Entry ι)}
    (others : ∀ e ∈ outputs, ∃ q, e.2.1.Fresh m q e.2.2) (params : d.Params) :
    d.Current m i p outputs s params := by
  cases d with
  | digitalOutput d => exact fun parsed _ => DigitalOutput.Fresh.current fresh others parsed
  | digitalInput d => exact DigitalInput.Fresh.current fresh params
  | analog d => exact AnalogIO.Fresh.current fresh params
  | binaryOutput d => trivial
  | dataPoint d => trivial
  | owPower d => trivial
  | nvSave d => trivial
  | watchdog d => trivial

theorem emits_set {d : Device} {i : ι} {s : d.State} (consistent : d.Consistent s)
    (p : PwmState) (outputs : List (DigitalOutput.Entry ι)) (params : d.Params) {pwm : ι → Prop}
    (hpwm : d.pwmId.isSome → pwm i) :
    (d.set i p outputs s params).Emits (Action.Assigns i pwm) := by
  cases d with
  | digitalOutput d =>
    refine DigitalOutput.emits_set i (fun on => hpwm ?_) p outputs params
    cases h : d.pwm with
    | none => simp [DigitalOutput.State.pwmOn, consistent h] at on
    | some pwm => simp [pwmId, h]
  | digitalInput d => exact DigitalInput.emits_set i d s.toAttrs params
  | analog d => exact AnalogIO.emits_set i d s params
  | binaryOutput d => exact BinaryOutput.emits_set i d params
  | dataPoint d => exact DataPoint.emits_set i d params
  | owPower d => exact OwPower.emits_set i d params
  | nvSave d => exact NvSave.emits_set i d s params
  | watchdog d => exact Watchdog.emits_set i d params

/-- An assignment keeps the attributes consistent. -/
theorem Consistent.assign {d : Device} {s : d.State} (h : d.Consistent s) {a : Assign}
    (allowed : ∀ duty, a = .pwmDuty duty → d.pwmId.isSome) : d.Consistent (d.assign a s) := by
  cases d with
  | digitalOutput d =>
    cases a with
    | pwmDuty duty =>
      intro hpwm
      have := allowed duty rfl
      simp [pwmId, hpwm] at this
    | _ => exact h
  | analog d => cases a <;> exact h
  | _ => cases a <;> trivial

/-- An assignment keeps lasting attributes the same. -/
theorem Lasting.assign {d : Device} {s t : d.State} (h : d.Lasting s t) (a : Assign) :
    d.Lasting (d.assign a s) (d.assign a t) := by
  cases d with
  | digitalInput d =>
    cases a with
    | counterMode mode => exact ⟨rfl, h.2⟩
    | mode mode => exact ⟨h.1, fun _ => rfl⟩
    | _ => exact h
  | _ => trivial

theorem Lasting.refl {d : Device} (s : d.State) : d.Lasting s s := by
  cases d with
  | digitalInput d => exact ⟨rfl, fun _ => rfl⟩
  | _ => trivial

theorem Lasting.symm {d : Device} {s t : d.State} (h : d.Lasting s t) : d.Lasting t s := by
  cases d with
  | digitalInput d => exact ⟨h.1.symm, fun fixed => (h.2 fixed).symm⟩
  | _ => trivial

theorem Lasting.trans {d : Device} {s t u : d.State} (h : d.Lasting s t) (h' : d.Lasting t u) :
    d.Lasting s u := by
  cases d with
  | digitalInput d => exact ⟨h.1.trans h'.1, fun fixed => (h.2 fixed).trans (h'.2 fixed)⟩
  | _ => trivial

/-- Only the assignments of an input count. -/
theorem lasting_assign {d : Device} {s : d.State} {a : Assign}
    (h : ∀ d', d = digitalInput d' → ∃ raw, a = .pwmDutyVal raw) : d.Lasting s (d.assign a s) := by
  cases d with
  | digitalInput d =>
    obtain ⟨raw, rfl⟩ := h d rfl
    exact .refl (d := digitalInput d) s
  | _ => trivial

theorem lasting_readCounter {d : Device} (read : Reader) (s : d.State) :
    d.Lasting s (d.readCounter read s).1 := by
  cases d with
  | digitalInput d =>
    show d.Lasting _ _
    simp only [readCounter]
    split <;> exact ⟨rfl, fun _ => rfl⟩
  | _ => trivial

/-- A check keeps what it does not read. -/
theorem lasting_check (d : Device) (read : Reader) (p : PwmState) (s : d.State) :
    d.Lasting s (d.checkNewData read p s).1.2 := by
  cases d with
  | digitalInput d => exact d.lasting_check read s
  | _ => trivial

theorem consistent_check {d : Device} {s : d.State} (h : d.Consistent s) (read : Reader)
    (p : PwmState) : d.Consistent (d.checkNewData read p s).1.2 := by
  cases d with
  | digitalOutput d => exact DigitalOutput.consistent_check h read p
  | analog d => exact AnalogIO.consistent_check h read
  | _ => trivial

/-- A check by the registers refreshes the attributes. -/
theorem fresh_check {d : Device} {s : d.State} (h : d.Consistent s) (m : Memory)
    (inputs : ℕ → Word) (p : PwmState) :
    d.Fresh m (d.checkNewData (m.reader inputs) p s).1.1
      (d.checkNewData (m.reader inputs) p s).1.2 := by
  cases d with
  | digitalOutput d => exact DigitalOutput.fresh_check h m inputs p
  | digitalInput d => exact d.fresh_check m inputs s
  | analog d => exact AnalogIO.fresh_check h m inputs
  | _ => trivial

/-- The frequency of a checked output is the one of the registers of its group. -/
theorem Fresh.cycle {d : Device} {p : PwmState} {s : d.State} (h : d.Fresh m p s)
    {d' : DigitalOutput} (hd : d = digitalOutput d') {id : ℕ} {pwm : PwmFrequency}
    (hpwm : d'.pwm = some (id, pwm)) (duty : ℚ) :
    pwm.dutyRaw p duty = pwm.dutyRaw (pwm.update m.holding {}).1 duty := by
  subst hd
  rw [← DigitalOutput.byRegisters_pwm hpwm]
  exact DigitalOutput.Fresh.cycle h id pwm hpwm duty

/-- Only the frequency of an output with a PWM counts. -/
theorem Fresh.congr {d : Device} {p q : PwmState} {s : d.State} (h : d.Fresh m p s)
    (same : ∀ d' id pwm, d = digitalOutput d' → d'.pwm = some (id, pwm) →
      ∀ duty, pwm.dutyRaw q duty = pwm.dutyRaw p duty) : d.Fresh m q s := by
  cases d with
  | digitalOutput d =>
    exact ⟨h.value, h.duty, h.val, fun id pwm hpwm duty =>
      (same d id pwm rfl hpwm duty).trans (DigitalOutput.Fresh.cycle h id pwm hpwm duty)⟩
  | _ => exact h

end Device

/-! ## The attributes of a unit -/

namespace Attrs

variable {ι : Type} [DecidableEq ι] {device : ι → Device} {m : Memory}

def Consistent (s : Attrs device) : Prop :=
  ∀ i, (device i).Consistent (s.dev i)

def Lasting (s t : Attrs device) : Prop :=
  ∀ i, (device i).Lasting (s.dev i) (t.dev i)

def Fresh (m : Memory) (s : Attrs device) (i : ι) : Prop :=
  (device i).Fresh m (s.pwmOf i) (s.dev i)

/-- `set()` of the device decides as by the registers. -/
def Current (ids : List ι) (m : Memory) (s : Attrs device) (i : ι) (params : (device i).Params) :
    Prop :=
  (device i).Current m i (s.pwmOf i) (s.outputs ids) (s.dev i) params

/-- The checks of all devices. -/
def check (ids : List ι) (read : Reader) (s : Attrs device) : Attrs device :=
  ids.foldl (fun s i => (s.checkNewData read i).1) s

/-- One PWM is one object. -/
def Shared (device : ι → Device) : Prop :=
  ∀ i j d d' id pwm pwm', device i = .digitalOutput d → device j = .digitalOutput d' →
    d.pwm = some (id, pwm) → d'.pwm = some (id, pwm') → pwm = pwm'

omit [DecidableEq ι] in
theorem checkedOutputs_outputs (ids : List ι) (s t : Attrs device) :
    DigitalOutput.checkedOutputs m (s.outputs ids) =
      DigitalOutput.checkedOutputs m (t.outputs ids) := by
  unfold DigitalOutput.checkedOutputs outputs
  rw [List.map_filterMap, List.map_filterMap]
  congr 1
  funext i
  generalize s.dev i = state
  generalize t.dev i = state'
  revert state state'
  cases device i <;> intro state state' <;> rfl

/-- The frequency after a check of a device of the group. -/
theorem pwmOf_checkNewData (read : Reader) (s : Attrs device) (i j : ι) :
    (s.checkNewData read i).1.pwmOf j =
      if (device j).pwmId = (device i).pwmId ∧ (device i).pwmId.isSome then
        ((device i).checkNewData read (s.pwmOf i) (s.dev i)).1.1
      else s.pwmOf j := by
  unfold checkNewData
  dsimp only
  cases hi : (device i).pwmId with
  | none => simp [pwmOf, setDev]
  | some id =>
    cases hj : (device j).pwmId with
    | none => simp [pwmOf, hj]
    | some id' =>
      by_cases h : id' = id
      · simp [pwmOf, setPwm, hj, h]
      · simp [pwmOf, setPwm, setDev, hj, h]

theorem fresh_self {s : Attrs device} (h : s.Consistent) (inputs : ℕ → Word) (i : ι) :
    (s.checkNewData (m.reader inputs) i).1.Fresh m i := by
  obtain ⟨p, hcheck⟩ := @Events.checkNewData_self _ _ device (m.reader inputs) s i
  have hfresh := Device.fresh_check (h i) m inputs (s.pwmOf i)
  have hdev : (s.checkNewData (m.reader inputs) i).1.dev i =
      ((device i).checkNewData (m.reader inputs) (s.pwmOf i) (s.dev i)).1.2 := by rw [hcheck]
  unfold Fresh
  rw [hdev]
  refine hfresh.congr fun d id pwm hd hpwm duty => ?_
  rw [pwmOf_checkNewData, if_pos ⟨rfl, by simp [hd, Device.pwmId, hpwm]⟩]

/-- The check of another device keeps the attributes of a device fresh. -/
theorem Fresh.check_other (shared : Shared device) {s : Attrs device} (h : s.Consistent)
    (inputs : ℕ → Word) {i j : ι} (fresh : s.Fresh m j) :
    (s.checkNewData (m.reader inputs) i).1.Fresh m j := by
  by_cases heq : j = i
  · subst heq
    exact fresh_self h inputs j
  · unfold Fresh
    rw [Events.checkNewData_dev s i j heq]
    refine Device.Fresh.congr fresh fun d id pwm hd hpwm duty => ?_
    rw [pwmOf_checkNewData]
    split
    · next same =>
      -- the frequency was read by an output of the same group
      obtain ⟨d', pwm', hd', hpwm'⟩ : ∃ d' pwm', device i = .digitalOutput d' ∧
          d'.pwm = some (id, pwm') := by
        have hid : (device i).pwmId = some id := by
          rw [← same.1, hd, Device.pwmId, hpwm]
          rfl
        cases hi : device i with
        | digitalOutput d' =>
          rw [hi, Device.pwmId, Option.map_eq_some_iff] at hid
          obtain ⟨⟨_, pwm'⟩, hpwm', rfl⟩ := hid
          exact ⟨d', pwm', rfl, hpwm'⟩
        | _ =>
          rw [hi] at hid
          cases hid
      obtain rfl := shared i j d' d id pwm' pwm hd' hd hpwm' hpwm
      rw [(Device.fresh_check (h i) m inputs (s.pwmOf i)).cycle hd' hpwm' duty,
        Device.Fresh.cycle fresh hd hpwm duty]
    · rfl

theorem Consistent.checkNewData {s : Attrs device} (h : s.Consistent) (read : Reader) (i : ι) :
    (s.checkNewData read i).1.Consistent := by
  intro j
  by_cases heq : j = i
  · subst heq
    obtain ⟨p, hcheck⟩ := @Events.checkNewData_self _ _ device read s j
    have hconsistent := Device.consistent_check (h j) read (s.pwmOf j)
    rwa [hcheck] at hconsistent
  · rw [Events.checkNewData_dev s i j heq]
    exact h j

theorem Consistent.check {s : Attrs device} (h : s.Consistent) (ids : List ι) (read : Reader) :
    (s.check ids read).Consistent := by
  unfold Attrs.check
  induction ids generalizing s with
  | nil => exact h
  | cons i ids ih => exact ih (h.checkNewData read i)

omit [DecidableEq ι] in
theorem Lasting.trans {s t u : Attrs device} (h : s.Lasting t) (h' : t.Lasting u) : s.Lasting u :=
  fun i => (h i).trans (h' i)

omit [DecidableEq ι] in
theorem Lasting.symm {s t : Attrs device} (h : s.Lasting t) : t.Lasting s :=
  fun i => (h i).symm

/-- The checks keep what they do not read. -/
theorem lasting_check (s : Attrs device) (ids : List ι) (read : Reader) :
    s.Lasting (s.check ids read) := by
  unfold check
  induction ids generalizing s with
  | nil => exact fun i => .refl _
  | cons i ids ih =>
    refine Lasting.trans (fun j => ?_) (ih (s.checkNewData read i).1)
    by_cases heq : j = i
    · subst heq
      obtain ⟨p, hcheck⟩ := @Events.checkNewData_self _ _ device read s j
      have hlasting := (device j).lasting_check read (s.pwmOf j) (s.dev j)
      rwa [hcheck] at hlasting
    · rw [Events.checkNewData_dev s i j heq]
      exact .refl _

/-- The checks by the registers refresh the attributes. -/
theorem fresh_check (shared : Shared device) {s : Attrs device} (h : s.Consistent)
    (inputs : ℕ → Word) {ids : List ι} {i : ι} (mem : i ∈ ids) :
    (s.check ids (m.reader inputs)).Fresh m i := by
  suffices ∀ ids : List ι, ∀ s : Attrs device, s.Consistent → i ∈ ids ∨ s.Fresh m i →
      (s.check ids (m.reader inputs)).Fresh m i from this ids s h (.inl mem)
  intro ids
  induction ids with
  | nil =>
    rintro s _ (mem | fresh)
    · cases mem
    · exact fresh
  | cons j ids ih =>
    intro s h hmem
    refine ih _ (h.checkNewData _ j) ?_
    rcases hmem with mem | fresh
    · rcases List.mem_cons.mp mem with rfl | later
      · exact .inr (fresh_self h inputs i)
      · exact .inl later
    · exact .inr (fresh.check_other shared h inputs)

/-! ## The actions of a change -/

/-- The outputs with a PWM. -/
def HasPwm (device : ι → Device) (i : ι) : Prop :=
  (device i).pwmId.isSome

theorem Consistent.exec {s : Attrs device} (h : s.Consistent) {i : ι} {a : Action ι}
    (assigns : a.Assigns i (HasPwm device)) (read : Reader) : (s.exec read a).Consistent := by
  have hset : ∀ (j : ι) (state : (device j).State), (device j).Consistent state →
      (s.setDev j state).Consistent := by
    intro j state hj k
    by_cases heq : k = j
    · subst heq
      simpa [setDev] using hj
    · simpa [setDev, heq] using h k
  cases a with
  | assign j x =>
    refine hset j _ ((h j).assign fun duty hx => ?_)
    subst hx
    exact assigns.2
  | readCounter j =>
    refine hset j _ ?_
    have hj := h j
    generalize s.dev j = state at hj
    revert state
    cases device j with
    | digitalInput d => exact fun _ _ => trivial
    | _ => exact fun _ hj => hj
  | _ => exact h

/-- An action of two changes keeps the lasting attributes the same. -/
theorem Lasting.exec {s t : Attrs device} (h : s.Lasting t) (read read' : Reader) (a : Action ι) :
    (s.exec read a).Lasting (t.exec read' a) := by
  have hset : ∀ (j : ι) (state state' : (device j).State), (device j).Lasting state state' →
      (s.setDev j state).Lasting (t.setDev j state') := by
    intro j state state' hj k
    by_cases heq : k = j
    · subst heq
      simpa [setDev] using hj
    · simpa [setDev, heq] using h k
  cases a with
  | assign j x => exact hset j _ _ ((h j).assign x)
  | readCounter j =>
    exact hset j _ _ ((Device.lasting_readCounter read _).symm.trans
      ((h j).trans (Device.lasting_readCounter read' _)))
  | _ => exact h

theorem Lasting.foldl {s t : Attrs device} (h : s.Lasting t) (read read' : Reader)
    (actions : List (Action ι)) :
    (actions.foldl (fun s a => s.exec read a) s).Lasting
      (actions.foldl (fun s a => s.exec read' a) t) := by
  induction actions generalizing s t with
  | nil => exact h
  | cons a actions ih => exact ih (h.exec read read' a)

/-- A change of a device which is not an input keeps the lasting attributes. -/
theorem lasting_exec (s : Attrs device) {i : ι} {a : Action ι}
    (assigns : a.Assigns i (HasPwm device)) (read : Reader)
    (other : ∀ d, device i ≠ .digitalInput d) : s.Lasting (s.exec read a) := by
  have hset : ∀ (j : ι) (state : (device j).State), (device j).Lasting (s.dev j) state →
      s.Lasting (s.setDev j state) := by
    intro j state hj k
    by_cases heq : k = j
    · subst heq
      simpa [setDev] using hj
    · simpa [setDev, heq] using Device.Lasting.refl (s.dev k)
  cases a with
  | assign j x =>
    refine hset j _ (Device.lasting_assign ?_)
    intro d hd
    have hne : j ≠ i := by
      rintro rfl
      exact other d hd
    cases x with
    | pwmDutyVal raw => exact ⟨raw, rfl⟩
    | pwmDuty duty => exact absurd assigns.1 hne
    | _ => exact absurd assigns hne
  | readCounter j => exact hset j _ (Device.lasting_readCounter read _)
  | _ => exact fun k => .refl _

end Attrs

end Modbus

end Evok
