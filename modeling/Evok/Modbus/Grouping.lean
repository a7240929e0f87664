import Evok.Modbus.UnitAttrs

/-!
# Grouped changes

One change sets its devices one after another, the unit is read and the devices are checked at its
end only. Its assignments have the effect of one change each, with a read after it, while `set()`
decides as by the registers.

## Main definitions

* `Assignment` : a device with its params.
* `Item` : an assignment and what is read after it.
* `UnitState.run` : a list of assignments, up to the first one which raises.
* `UnitState.CurrentRun` : every assignment decides as by the registers.

## Main results

* `UnitState.grouped_eq_separate` : a run with current attributes has the effect of a run with a
  read after each assignment.
* `UnitState.not_grouped_eq_separate` : an output whose value is set, then its duty.
-/

namespace Evok

namespace Modbus

/-! ## Executions of a list of assignments -/

/-- A device with its params, without an alias, `nv_save` and a reset. -/
structure Assignment {ι : Type} (device : ι → Device) where
  target : ι
  params : (device target).Params
  plain : (device target).Plain params

/-- An assignment with the cached values: while it writes, and at the check after it, by the
registers of the unit then. Without a successful read the devices are not checked. -/
structure Item {ι : Type} (device : ι → Device) where
  assignment : Assignment device
  cached : Reader
  check : Memory → Option Reader

/-- A successful read follows. -/
def Item.Read {ι : Type} {device : ι → Device} (item : Item device) : Prop :=
  ∀ m, ∃ inputs, item.check m = some (m.reader inputs)

/-- A unit and the attributes of its devices. -/
structure UnitState {ι : Type} (device : ι → Device) where
  memory : Memory
  attrs : Attrs device

namespace UnitState

variable {ι : Type} [DecidableEq ι] {device : ι → Device} (wiring : Wiring) (ids : List ι)

/-- `set()` of an assignment. -/
def set (s : UnitState device) (item : Item device) : UnitState device × Except SetError Unit :=
  let script := s.attrs.set ids item.assignment.target item.assignment.params
  ({ memory := script.after (Memory.exec wiring) s.memory
     attrs := script.after (fun attrs a => attrs.exec item.cached a) s.attrs }, script.result)

/-- The check after an assignment. -/
def checked (s : UnitState device) (item : Item device) : UnitState device :=
  match item.check s.memory with
  | some read => { s with attrs := s.attrs.check ids read }
  | none => s

/-- The assignments up to the first one which raises, with its index and the exception. -/
def run : List (Item device) → UnitState device → UnitState device × Option (ℕ × SetError)
  | [], s => (s, none)
  | item :: items, s =>
    match s.set wiring ids item with
    | (s, .error e) => (s, some (0, e))
    | (s, .ok ()) =>
      let (s, raised) := run items (s.checked ids item)
      (s, raised.map (Prod.map (· + 1) id))

/-- The assignment which raised, and whether a `ValueError`. -/
def refused (result : UnitState device × Option (ℕ × SetError)) : Option (ℕ × Bool) :=
  result.2.map (Prod.map id SetError.isValue)

theorem run_ok {wiring : Wiring} {ids : List ι} {s : UnitState device} {item : Item device}
    (h : (s.set wiring ids item).2 = .ok ()) (items : List (Item device)) :
    run wiring ids (item :: items) s =
      ((run wiring ids items ((s.set wiring ids item).1.checked ids item)).1,
        (run wiring ids items ((s.set wiring ids item).1.checked ids item)).2.map
          (Prod.map (· + 1) id)) := by
  rw [run]
  generalize s.set wiring ids item = result at h
  obtain ⟨t, result⟩ := result
  obtain rfl : result = .ok () := h
  rfl

theorem run_error {wiring : Wiring} {ids : List ι} {s : UnitState device} {item : Item device}
    {e : SetError} (h : (s.set wiring ids item).2 = .error e) (items : List (Item device)) :
    run wiring ids (item :: items) s = ((s.set wiring ids item).1, some (0, e)) := by
  rw [run]
  generalize s.set wiring ids item = result at h
  obtain ⟨t, result⟩ := result
  obtain rfl : result = .error e := h
  rfl

omit [DecidableEq ι] in
theorem refused_map (s : UnitState device) (raised : Option (ℕ × SetError)) :
    refused (s, raised.map (Prod.map (· + 1) id)) =
      (refused (s, raised)).map (Prod.map (· + 1) id) := by
  cases raised <;> rfl

/-- Every assignment decides as by the registers of the unit before it. -/
def CurrentRun : List (Item device) → UnitState device → Prop
  | [], _ => True
  | item :: items, s =>
    s.attrs.Current ids s.memory item.assignment.target item.assignment.params ∧
      ((s.set wiring ids item).2 = .ok () →
        CurrentRun items ((s.set wiring ids item).1.checked ids item))

/-- The devices have just been checked. -/
structure Checked (s : UnitState device) : Prop where
  consistent : s.attrs.Consistent
  fresh : ∀ i ∈ ids, s.attrs.Fresh s.memory i

/-- The devices of the unit: the coils of the outputs are their bits, and a PWM is one object. -/
structure Installed (device : ι → Device) : Prop where
  wired : ∀ i, (device i).Wired wiring
  shared : Attrs.Shared device

variable {wiring ids}

/-- What two executions of the assignments keep: one memory, and the second one has been checked. -/
structure Agree (ids : List ι) (s t : UnitState device) : Prop where
  memory : s.memory = t.memory
  consistent : s.attrs.Consistent
  lasting : s.attrs.Lasting t.attrs
  checked : t.Checked ids

/-- A checked unit decides by the registers. -/
theorem Checked.current {s : UnitState device} (h : s.Checked ids) {i : ι} (mem : i ∈ ids)
    (params : (device i).Params) : s.attrs.Current ids s.memory i params := by
  refine Device.Fresh.current (h.fresh i mem) (fun e he => ?_) params
  obtain ⟨j, hj, hentry⟩ := List.mem_filterMap.mp he
  have hfresh := h.fresh j hj
  unfold Attrs.Fresh at hfresh
  generalize s.attrs.pwmOf j = q at hfresh
  generalize s.attrs.dev j = state at hfresh hentry
  revert state
  cases device j with
  | digitalOutput d =>
    intro state hfresh hentry
    obtain rfl := Option.some.inj hentry
    exact ⟨q, hfresh⟩
  | _ =>
    intro state _ hentry
    cases hentry

/-- An assignment has one effect in both executions. -/
theorem Agree.set {s t : UnitState device} (installed : Installed wiring device)
    (h : Agree ids s t) {item item' : Item device} (same : item.assignment = item'.assignment)
    (mem : item.assignment.target ∈ ids)
    (current : s.attrs.Current ids s.memory item.assignment.target item.assignment.params) :
    (s.set wiring ids item).1.memory = (t.set wiring ids item').1.memory ∧
      Script.Results SetError.isValue (fun _ _ => True) (s.set wiring ids item).2
        (t.set wiring ids item').2 := by
  obtain ⟨assignment, cached, check⟩ := item
  obtain ⟨assignment', cached', check'⟩ := item'
  obtain rfl : assignment = assignment' := same
  obtain ⟨i, params, plain⟩ := assignment
  obtain ⟨m, attrs⟩ := s
  obtain ⟨m', attrs'⟩ := t
  obtain rfl : m = m' := h.memory
  have hfirst := Device.related_set (installed.wired i) (h.consistent i) current
  have hsecond := Device.related_set (installed.wired i) (h.checked.consistent i)
    (h.checked.current mem params)
  rw [Device.setByRegisters_congr (h.lasting i) plain
    (Attrs.checkedOutputs_outputs ids attrs attrs')] at hfirst
  have hjoin := hfirst.join hsecond
  exact ⟨hjoin.state, hjoin.results⟩

/-- The attributes after an assignment are consistent. -/
theorem consistent_set {s : UnitState device} (h : s.attrs.Consistent) (item : Item device) :
    (s.set wiring ids item).1.attrs.Consistent := by
  have hpwm : (device item.assignment.target).pwmId.isSome →
      Attrs.HasPwm device item.assignment.target := id
  have hemits := Device.emits_set (h item.assignment.target)
    (s.attrs.pwmOf item.assignment.target) (s.attrs.outputs ids) item.assignment.params hpwm
  exact Script.Preserves.of_emits hemits (P := Attrs.Consistent)
    (fun attrs a assigns hattrs => hattrs.exec assigns item.cached) s.attrs h

/-- The lasting attributes are the same after an assignment. -/
theorem Agree.lasting_set {s t : UnitState device} (h : Agree ids s t) {item item' : Item device}
    (same : item.assignment = item'.assignment) (mem : item.assignment.target ∈ ids)
    (current : s.attrs.Current ids s.memory item.assignment.target item.assignment.params) :
    (s.set wiring ids item).1.attrs.Lasting (t.set wiring ids item').1.attrs := by
  obtain ⟨assignment, cached, check⟩ := item
  obtain ⟨assignment', cached', check'⟩ := item'
  obtain rfl : assignment = assignment' := same
  obtain ⟨i, params, plain⟩ := assignment
  obtain ⟨m, attrs⟩ := s
  obtain ⟨m', attrs'⟩ := t
  obtain rfl : m = m' := h.memory
  by_cases input : ∃ d, device i = .digitalInput d
  · -- both executions take the same actions
    obtain ⟨d, hd⟩ := input
    have hscript : attrs.set ids i params = attrs'.set ids i params :=
      Device.set_input hd (h.lasting i) current (h.checked.current mem params)
    show Attrs.Lasting ((attrs.set ids i params).actions.foldl _ attrs)
      ((attrs'.set ids i params).actions.foldl _ attrs')
    rw [hscript]
    exact h.lasting.foldl cached cached' _
  · have hkept : ∀ (s : Attrs device) (cached : Reader), s.Consistent →
        s.Lasting ((s.set ids i params).after (fun attrs a => attrs.exec cached a) s) := by
      intro s cached hs
      have hpwm : (device i).pwmId.isSome → Attrs.HasPwm device i := id
      have hemits := Device.emits_set (hs i) (s.pwmOf i) (s.outputs ids) params hpwm
      exact Script.Preserves.of_emits hemits (P := s.Lasting)
        (fun attrs a assigns hattrs => hattrs.trans (attrs.lasting_exec assigns cached
          fun d hd => input ⟨d, hd⟩)) s fun _ => .refl _
    exact (hkept attrs cached h.consistent).symm.trans
      (h.lasting.trans (hkept attrs' cached' h.checked.consistent))

theorem memory_checked (s : UnitState device) (item : Item device) :
    (s.checked ids item).memory = s.memory := by
  unfold checked
  split <;> rfl

theorem consistent_checked {s : UnitState device} (h : s.attrs.Consistent) (item : Item device) :
    (s.checked ids item).attrs.Consistent := by
  unfold checked
  split
  · exact h.check ids _
  · exact h

theorem lasting_checked (s : UnitState device) (item : Item device) :
    s.attrs.Lasting (s.checked ids item).attrs := by
  unfold checked
  split
  · exact s.attrs.lasting_check ids _
  · exact fun _ => .refl _

/-- A successful read checks the unit. -/
theorem checked_checked (installed : Installed wiring device) {s : UnitState device}
    (h : s.attrs.Consistent) {item : Item device} (read : item.Read) :
    (s.checked ids item).Checked ids := by
  obtain ⟨inputs, hread⟩ := read s.memory
  have hchecked : s.checked ids item =
      { s with attrs := s.attrs.check ids (s.memory.reader inputs) } := by
    unfold checked
    rw [hread]
  rw [hchecked]
  exact ⟨h.check ids _, fun i mem => Attrs.fresh_check installed.shared h inputs mem⟩

/-- An assignment with what follows keeps the agreement. -/
theorem Agree.next {s t : UnitState device} (installed : Installed wiring device)
    (h : Agree ids s t) {item item' : Item device} (same : item.assignment = item'.assignment)
    (mem : item.assignment.target ∈ ids)
    (current : s.attrs.Current ids s.memory item.assignment.target item.assignment.params)
    (read : item'.Read) :
    Agree ids ((s.set wiring ids item).1.checked ids item)
      ((t.set wiring ids item').1.checked ids item') where
  memory := by
    rw [memory_checked, memory_checked]
    exact (h.set installed same mem current).1
  consistent := consistent_checked (consistent_set h.consistent item) item
  lasting := ((lasting_checked _ item).symm.trans (h.lasting_set same mem current)).trans
    (lasting_checked _ item')
  checked := checked_checked installed (consistent_set h.checked.consistent item') read

/-- The assignments have one effect in both executions. -/
theorem Agree.outcome (installed : Installed wiring device) {items items' : List (Item device)}
    (same : items.map (·.assignment) = items'.map (·.assignment))
    (targets : ∀ item ∈ items, item.assignment.target ∈ ids) (read : ∀ item ∈ items', item.Read)
    {s t : UnitState device} (h : Agree ids s t) (current : s.CurrentRun wiring ids items) :
    (run wiring ids items s).1.memory = (run wiring ids items' t).1.memory ∧
      refused (run wiring ids items s) = refused (run wiring ids items' t) := by
  induction items generalizing items' s t with
  | nil =>
    obtain rfl : items' = [] := List.map_eq_nil_iff.mp same.symm
    exact ⟨h.memory, rfl⟩
  | cons item items ih =>
    obtain ⟨item', items', rfl⟩ : ∃ item' items'', items' = item' :: items'' := by
      cases items' with
      | nil => cases same
      | cons item' items' => exact ⟨_, _, rfl⟩
    rw [List.map_cons, List.map_cons, List.cons.injEq] at same
    rw [List.forall_mem_cons] at targets read
    obtain ⟨hcurrent, hrest⟩ := current
    obtain ⟨hmemory, hresults⟩ := h.set installed same.1 targets.1 hcurrent
    rcases hresults.elim with ⟨_, _, hok, hok', -⟩ | ⟨e, e', herror, herror', kind⟩
    · obtain ⟨hmemory', hraised⟩ := ih same.2 targets.2 read.2
        (h.next installed same.1 targets.1 hcurrent read.1) (hrest hok)
      rw [run_ok hok, run_ok hok', refused_map, refused_map]
      exact ⟨hmemory', congrArg (Option.map (Prod.map (· + 1) id)) hraised⟩
    · rw [run_error herror, run_error herror']
      exact ⟨hmemory, congrArg (fun kind => some (0, kind)) kind⟩

/-! ## Groups on an output with a PWM -/

/-- An output with a PWM of the firmware. -/
def output : DigitalOutput :=
  { devtype := "do", circuit := "1_01", coil := some 0, reg := 0, mask := 1
    pwm := some (0, .soft 1 2), pwmDutyReg := 3 }

def outputWiring : Wiring :=
  fun coil => if coil = 0 then some (0, 1) else none

/-- The output is off. -/
def off : UnitState fun _ : Unit => .digitalOutput output where
  memory := ⟨fun _ => 0, fun _ => false⟩
  attrs := {
    dev := fun _ => (output.byRegisters ⟨fun _ => 0, fun _ => false⟩).2
    pwm := fun _ => (output.byRegisters ⟨fun _ => 0, fun _ => false⟩).1
    aliasName := fun _ => "" }

/-- `value = 1`. -/
def turnOn : Assignment fun _ : Unit => .digitalOutput output :=
  ⟨(), { value := some (.int 1) }, rfl, trivial⟩

/-- `pwm_duty = 50`. -/
def halfDuty : Assignment fun _ : Unit => .digitalOutput output :=
  ⟨(), { pwmDuty := some (.int 50) }, rfl, trivial⟩

/-- One change, without a read between its assignments. -/
def grouped (assignments : List (Assignment fun _ : Unit => .digitalOutput output)) :
    List (Item fun _ : Unit => .digitalOutput output) :=
  assignments.map fun assignment => ⟨assignment, off.memory.holding, fun _ => none⟩

/-- One change for each assignment. -/
def separate (assignments : List (Assignment fun _ : Unit => .digitalOutput output)) :
    List (Item fun _ : Unit => .digitalOutput output) :=
  assignments.map fun assignment =>
    ⟨assignment, off.memory.holding, fun m => some m.holding⟩

theorem installed_output : Installed outputWiring fun _ : Unit => .digitalOutput output where
  wired _ coil h := by
    obtain rfl := Option.some.inj h
    rfl
  shared _ _ d d' id pwm pwm' hd hd' hpwm hpwm' := by
    obtain rfl := Device.digitalOutput.inj hd
    obtain rfl := Device.digitalOutput.inj hd'
    rw [hpwm] at hpwm'
    exact (Prod.mk.inj (Option.some.inj hpwm')).2

theorem checked_off : off.Checked [()] where
  consistent _ hpwm := by cases hpwm
  fresh _ _ := ⟨rfl, rfl, fun _ => rfl, fun _ _ _ _ => rfl⟩

/-- The value is set without a PWM to turn off. -/
theorem current_turnOn {s : UnitState fun _ : Unit => .digitalOutput output}
    (h : (s.attrs.dev ()).pwmOn = (output.byRegisters s.memory).2.pwmOn) :
    s.attrs.Current [()] s.memory turnOn.target turnOn.params := by
  intro parsed hparsed
  obtain rfl : ⟨some true, none, none⟩ = parsed := Except.ok.inj hparsed
  exact ⟨fun _ => .inl h, nofun, nofun, nofun⟩

/-- Assignments which decide as by the registers of the unit before them, in one change or with
failed reads between them, have the effect of one change each with a successful read after it. -/
theorem grouped_eq_separate (installed : Installed wiring device)
    {items separate : List (Item device)}
    (same : items.map (·.assignment) = separate.map (·.assignment))
    (targets : ∀ item ∈ items, item.assignment.target ∈ ids)
    (read : ∀ item ∈ separate, item.Read) {s : UnitState device} (checked : s.Checked ids)
    (current : s.CurrentRun wiring ids items) :
    (run wiring ids items s).1.memory = (run wiring ids separate s).1.memory ∧
      refused (run wiring ids items s) = refused (run wiring ids separate s) :=
  Agree.outcome installed same targets read ⟨rfl, checked.consistent, fun _ => .refl _, checked⟩
    current

/-- The value is set twice. -/
theorem grouped_turnOn :
    (run outputWiring [()] (grouped [turnOn, turnOn]) off).1.memory =
        (run outputWiring [()] (separate [turnOn, turnOn]) off).1.memory ∧
      refused (run outputWiring [()] (grouped [turnOn, turnOn]) off) =
        refused (run outputWiring [()] (separate [turnOn, turnOn]) off) :=
  have same : (grouped [turnOn, turnOn]).map (·.assignment) =
      (separate [turnOn, turnOn]).map (·.assignment) := rfl
  have read : ∀ item ∈ separate [turnOn, turnOn], item.Read := by
    intro item mem
    obtain ⟨assignment, -, rfl⟩ := List.mem_map.mp mem
    exact fun _ => ⟨fun _ => 0, rfl⟩
  grouped_eq_separate installed_output same (fun _ _ => List.mem_singleton.mpr rfl) read checked_off
    ⟨current_turnOn (by decide +kernel), fun _ =>
      ⟨current_turnOn (by decide +kernel), fun _ => trivial⟩⟩

/-- The coil of the output stays 1 under its PWM. -/
theorem not_grouped_eq_separate :
    off.Checked [()] ∧
    (run outputWiring [()] (grouped [turnOn, halfDuty]) off).1.memory.registers 0 = 1 ∧
    (run outputWiring [()] (separate [turnOn, halfDuty]) off).1.memory.registers 0 = 0 :=
  ⟨checked_off, by decide +kernel, by decide +kernel⟩

end UnitState

end Modbus

end Evok
