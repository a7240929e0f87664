import Evok.Modbus.PwmDuty

/-!
# The duties of a group over its changes of frequency

The outputs of a group share the frequency, a change of it rewrites the registers of their duties.

## Main definitions

* `PwmGroup`: the outputs of a hardware PWM.
* `PwmGroup.step`: a call of `set_pwm_freq` and the scan after it.
* `PwmGroup.Careful`: the calls whose frequency keeps the duties they rewrite.

## Main results

* `PwmGroup.Keeps.step`, `PwmGroup.Keeps.run`: a call, and a run, keeps a reported duty.
* `PwmGroup.duty_kept_iff`: the frequencies which keep a duty, and the runs with them.
-/

namespace Evok

namespace Modbus

/-- The outputs of a unit with one hardware PWM, each with registers of its own. -/
structure PwmGroup (ι : Type) where
  id : ℕ
  regcycle : ℕ
  regprescale : ℕ
  outputs : List (ι × DigitalOutput)
  pwm : ∀ o ∈ outputs, o.2.pwm = some (id, .hard regcycle regprescale)
  ids : (outputs.map (·.1)).Nodup
  registers : (regcycle :: regprescale :: outputs.map (·.2.pwmDutyReg)).Nodup

namespace PwmGroup

variable {ι : Type} [DecidableEq ι]

/-- The registers of the unit, and the attributes of the frequency and of the outputs. -/
structure State (ι : Type) where
  registers : ℕ → Word
  pwm : PwmState
  attrs : ι → DigitalOutput.State

namespace State

/-- The reads of a scan. -/
def read (s : State ι) : Reader :=
  fun index count _ => .ok ((List.range count).map fun i => s.registers (index + i))

/-- A successful action of a setting of the frequency; the cache is read after the next scan. -/
def exec (s : State ι) : Action ι → State ι
  | .writeRegisters index values _ _ =>
    { s with registers := Overlay.apply (block (index, values)) s.registers }
  | .assign i (.pwmDutyVal raw) =>
    { s with attrs := Function.update s.attrs i { s.attrs i with pwmDutyVal := some raw } }
  | .assignPwm _ pwm => { s with pwm }
  | _ => s

/-- `check_new_data` of an output. -/
def check (s : State ι) (o : ι × DigitalOutput) : State ι :=
  let ((pwm, attrs), _) := o.2.checkNewData s.read s.pwm (s.attrs o.1)
  { s with pwm, attrs := Function.update s.attrs o.1 attrs }

end State

/-- A call of `set_pwm_freq`. -/
structure Call (ι : Type) where
  device : ι
  freq : ℚ
  keep : Bool := true

def entries (g : PwmGroup ι) (s : State ι) : List (DigitalOutput.Entry ι) :=
  g.outputs.map fun (i, d) => (i, d, s.attrs i)

def script (g : PwmGroup ι) (s : State ι) (c : Call ι) : SetScript ι PwmState :=
  DigitalOutput.setPwmFreq c.device g.id (.hard g.regcycle g.regprescale) s.pwm (g.entries s) c.freq
    c.keep

/-- The scan of the outputs. -/
def scan (g : PwmGroup ι) (s : State ι) : State ι :=
  g.outputs.foldl State.check s

/-- A call and the scan after it. -/
def step (g : PwmGroup ι) (s : State ι) (c : Call ι) : State ι :=
  g.scan ((g.script s c).actions.foldl State.exec s)

def run (g : PwmGroup ι) (s : State ι) (calls : List (Call ι)) : State ι :=
  calls.foldl g.step s

/-! ## The scan -/

/-- The duty of an output by its register and the one of the cycle. -/
def reported (g : PwmGroup ι) (registers : ℕ → Word) (o : ι × DigitalOutput) : ℚ :=
  roundDecimals ((registers o.2.pwmDutyReg).toNat / ((registers g.regcycle).toNat + 1 : ℕ) * 100) 1

/-- The attributes of an output after a check. -/
structure Checked (g : PwmGroup ι) (s : State ι) (o : ι × DigitalOutput) : Prop where
  duty : (s.attrs o.1).pwmDuty = some (g.reported s.registers o)
  val : (s.attrs o.1).pwmDutyVal = some ((s.registers o.2.pwmDutyReg).toNat : ℤ)

theorem check_registers (s : State ι) (o : ι × DigitalOutput) :
    (s.check o).registers = s.registers :=
  rfl

theorem check_attrs_of_ne (s : State ι) {o : ι × DigitalOutput} {i : ι} (h : i ≠ o.1) :
    (s.check o).attrs i = s.attrs i :=
  Function.update_of_ne h _ _

omit [DecidableEq ι] in
/-- The value of a register of a duty. -/
theorem readInt_pwmDuty (s : State ι) {d : DigitalOutput} (h : d.pwm.isSome) :
    d.accessorPwmDuty.readInt s.read = .ok (some ((s.registers d.pwmDutyReg).toNat : ℤ)) := by
  have htransform : ¬((1 : ℚ) ≠ 1 ∨ (0 : ℚ) ≠ 0) := by simp
  have hfloor : ⌊((s.registers d.pwmDutyReg).toNat : ℚ)⌋ = ((s.registers d.pwmDutyReg).toNat : ℤ) :=
    Int.floor_natCast _
  rw [← hfloor]
  simp only [DigitalOutput.accessorPwmDuty, h, if_true, Accessor.readInt, Accessor.read,
    htransform, if_false]
  rfl

/-- The attributes of the PWM are those of `checkPwm`. -/
theorem checkNewData_pwm {d : DigitalOutput} {r : Reader} {p p' : PwmState}
    {a a' : DigitalOutput.State} {changed : Bool}
    (h : d.checkPwm r p a = ((p', a'), .ok changed)) :
    (d.checkNewData r p a).1.2.pwmDuty = a'.pwmDuty ∧
      (d.checkNewData r p a).1.2.pwmDutyVal = a'.pwmDutyVal := by
  unfold DigitalOutput.checkNewData
  rw [h]
  dsimp only
  split <;> exact ⟨rfl, rfl⟩

theorem checked_check (g : PwmGroup ι) (s : State ι) {o : ι × DigitalOutput}
    (mem : o ∈ g.outputs) : g.Checked (s.check o) o := by
  have hpwm := g.pwm o mem
  have hread := readInt_pwmDuty s (Option.isSome_of_eq_some hpwm)
  have hcheck : ∃ p changed, o.2.checkPwm s.read s.pwm (s.attrs o.1) =
      ((p, { s.attrs o.1 with
        pwmFreq := p.freq
        pwmDutyVal := some ((s.registers o.2.pwmDutyReg).toNat : ℤ)
        pwmDuty := some (g.reported s.registers o) }), .ok changed) := by
    unfold DigitalOutput.checkPwm
    rw [hpwm]
    dsimp only
    rw [hread]
    exact ⟨_, _, rfl⟩
  obtain ⟨p, changed, hcheck⟩ := hcheck
  obtain ⟨hduty, hval⟩ := checkNewData_pwm hcheck
  constructor
  · rw [← check_registers s o] at hduty
    simpa only [State.check, Function.update_self] using hduty
  · simpa only [State.check, Function.update_self] using hval

/-- A scan keeps the registers and checks every output. -/
theorem scan_spec (g : PwmGroup ι) (s : State ι) :
    (g.scan s).registers = s.registers ∧ ∀ o ∈ g.outputs, g.Checked (g.scan s) o := by
  suffices ∀ outputs : List (ι × DigitalOutput), outputs <:+ g.outputs → ∀ s : State ι,
      (outputs.foldl State.check s).registers = s.registers ∧
        (∀ i, i ∉ outputs.map (·.1) → (outputs.foldl State.check s).attrs i = s.attrs i) ∧
          ∀ o ∈ outputs, g.Checked (outputs.foldl State.check s) o by
    obtain ⟨hregisters, -, hchecked⟩ := this g.outputs List.suffix_rfl s
    exact ⟨hregisters, hchecked⟩
  intro outputs
  induction outputs with
  | nil => simp
  | cons o outputs ih =>
    intro hsuffix s
    have mem : o ∈ g.outputs := hsuffix.subset List.mem_cons_self
    have hnodup := g.ids.sublist (hsuffix.sublist.map _)
    rw [List.map_cons, List.nodup_cons] at hnodup
    obtain ⟨hregisters, hother, hchecked⟩ :=
      ih ((List.suffix_cons o outputs).trans hsuffix) (s.check o)
    refine ⟨hregisters, fun i hi => ?_, fun o' mem' => ?_⟩
    · rw [List.map_cons, List.mem_cons, not_or] at hi
      rw [List.foldl_cons, hother i hi.2, check_attrs_of_ne s hi.1]
    · rcases List.mem_cons.mp mem' with rfl | later
      · -- the later checks are of other outputs
        have hfirst := checked_check g s mem
        have hattrs := hother o'.1 hnodup.1
        have hcheckregs : (outputs.foldl State.check (s.check o')).registers =
            (s.check o').registers := hregisters
        exact ⟨by rw [List.foldl_cons, hattrs, hcheckregs]; exact hfirst.duty,
          by rw [List.foldl_cons, hattrs, hcheckregs]; exact hfirst.val⟩
      · exact hchecked o' later

/-! ## The writes -/

theorem block_singleton (index : ℕ) (value : Word) (registers : ℕ → Word) :
    Overlay.apply (block (index, [value])) registers = Function.update registers index value := by
  funext a
  by_cases h : a = index
  · subst h
    simp [Overlay.apply, block]
  · have hapart : ¬(index ≤ a ∧ a < index + [value].length) := by
      simp only [List.length_singleton]
      omega
    rw [Overlay.apply, block, if_neg hapart, Function.update_of_ne h]
    rfl

/-- A change of the cache keeps the registers of the unit. -/
theorem exec_setRegisters (s : State ι) (registers : List (ℕ × Word)) :
    (registers.map fun (index, value) =>
      (Action.setRegister index [value] : Action ι)).foldl State.exec s = s := by
  induction registers with
  | nil => rfl
  | cons register registers ih => exact ih

/-- The registers after the writes of a setting. -/
theorem exec_writes (s : State ι) (runs : List (ℕ × List Word)) (registers : List (ℕ × Word)) :
    (runs.map (fun (index, run) => Action.writeRegisters index run false true) ++
        registers.map (fun (index, value) => Action.setRegister index [value])).foldl State.exec s =
      { s with registers := Overlay.applyAll (runs.map block) s.registers } := by
  rw [List.foldl_append, exec_setRegisters]
  induction runs generalizing s with
  | nil => rfl
  | cons run runs ih =>
    rw [List.map_cons, List.foldl_cons, ih]
    rfl

/-- The frequency registers after a setting, the other ones are kept. -/
theorem exec_write (s : State ι) {regcycle regprescale : ℕ} (ne : regcycle ≠ regprescale)
    (cycle prescale : ℕ) :
    ((PwmFrequency.write [(regcycle, cycle), (regprescale, prescale)] :
        SetScript ι Unit).actions.foldl State.exec s) =
      { s with registers := Function.update (Function.update s.registers regprescale
          (BitVec.ofNat 16 prescale)) regcycle (BitVec.ofNat 16 cycle) } := by
  rw [PwmFrequency.write]
  dsimp only
  rw [exec_writes, Overlay.applyAll_eq, overlay_runs, lastValue, ← Overlay.applyAll_eq]
  rcases Nat.lt_or_gt_of_ne ne with lt | gt
  · have hsort : [(regcycle, cycle), (regprescale, prescale)].insertionSort
        (fun a b : ℕ × ℕ => a.1 < b.1 ∨ a.1 = b.1 ∧ a.2 ≤ b.2) =
        [(regcycle, cycle), (regprescale, prescale)] := by
      simp [List.insertionSort, lt]
    rw [hsort]
    simp only [List.map_cons, List.map_nil, Overlay.applyAll, List.foldl_cons, List.foldl_nil,
      block_singleton]
    rw [Function.update_comm ne]
  · have hsort : [(regcycle, cycle), (regprescale, prescale)].insertionSort
        (fun a b : ℕ × ℕ => a.1 < b.1 ∨ a.1 = b.1 ∧ a.2 ≤ b.2) =
        [(regprescale, prescale), (regcycle, cycle)] := by
      simp [List.insertionSort, List.orderedInsert, ne, gt.not_gt]
    rw [hsort]
    simp only [List.map_cons, List.map_nil, Overlay.applyAll, List.foldl_cons, List.foldl_nil,
      block_singleton]

/-- The register of the duty of an output at a new cycle. -/
def newRaw (cycle : ℕ) (a : DigitalOutput.State) : ℤ :=
  roundHalfEven (cycle * a.pwmDuty.getD 0 / 100)

section Keep

variable {freq : ℚ} {cycle prescale : ℕ}

/-- An output which keeps its duty has the register of the new cycle. -/
theorem exec_keepDuty (prescale : ℕ) (g : PwmGroup ι) {s : State ι} {i : ι} {d : DigitalOutput}
    {a : DigitalOutput.State} (hpwm : d.pwm.isSome) (hon : a.pwmOn)
    (hword : 0 ≤ newRaw cycle a ∧ newRaw cycle a ≤ 65535)
    (hval : a.pwmDutyVal = some ((s.registers d.pwmDutyReg).toNat : ℤ)) :
    (DigitalOutput.keepDuty (.hard g.regcycle g.regprescale)
        (PwmFrequency.hardState cycle prescale) (i, d, a)).Succeeds ∧
      ((DigitalOutput.keepDuty (.hard g.regcycle g.regprescale)
        (PwmFrequency.hardState cycle prescale) (i, d, a)).actions.foldl State.exec s).registers =
        Function.update s.registers d.pwmDutyReg (BitVec.ofInt 16 (newRaw cycle a)) := by
  have hscript : (DigitalOutput.keepDuty (.hard g.regcycle g.regprescale)
      (PwmFrequency.hardState cycle prescale) (i, d, a) : SetScript ι Unit) =
      if some (newRaw cycle a) ≠ a.pwmDutyVal then do
        d.accessorPwmDuty.write (newRaw cycle a)
        Script.emit (.assign i (.pwmDutyVal (newRaw cycle a)))
      else pure () := by
    rw [DigitalOutput.keepDuty, if_pos hon]
    rfl
  rw [hscript]
  by_cases hsame : some (newRaw cycle a) = a.pwmDutyVal
  · -- the register has this value already
    have hraw : newRaw cycle a = ((s.registers d.pwmDutyReg).toNat : ℤ) := by
      rw [hval] at hsame
      exact Option.some.inj hsame
    rw [if_neg (not_not.mpr hsame)]
    refine ⟨⟨(), rfl⟩, ?_⟩
    rw [hraw, BitVec.ofInt_natCast, BitVec.ofNat_toNat, BitVec.setWidth_eq,
      Function.update_eq_self]
    rfl
  · rw [if_pos hsame, DigitalOutput.write_accessorPwmDuty hpwm, if_pos hword]
    refine ⟨⟨(), rfl⟩, ?_⟩
    rw [← block_singleton]
    rfl

/-- The registers of the outputs which keep their duties have the values of the new cycle, the
other registers are kept. -/
theorem exec_keepDuties (prescale : ℕ) (g : PwmGroup ι) (entries : List (DigitalOutput.Entry ι)) (s : State ι)
    (hpwm : ∀ e ∈ entries, e.2.1.pwm.isSome)
    (hnodup : (entries.map (·.2.1.pwmDutyReg)).Nodup)
    (hval : ∀ e ∈ entries, e.2.2.pwmDutyVal = some ((s.registers e.2.1.pwmDutyReg).toNat : ℤ))
    (hword : ∀ e ∈ entries, e.2.2.pwmOn → 0 ≤ newRaw cycle e.2.2 ∧ newRaw cycle e.2.2 ≤ 65535) :
    (∀ a, (∀ e ∈ entries, e.2.2.pwmOn → a ≠ e.2.1.pwmDutyReg) →
      ((DigitalOutput.keepDuties (.hard g.regcycle g.regprescale)
        (PwmFrequency.hardState cycle prescale) entries).actions.foldl State.exec s).registers a =
          s.registers a) ∧
      ∀ e ∈ entries, e.2.2.pwmOn →
        ((DigitalOutput.keepDuties (.hard g.regcycle g.regprescale)
          (PwmFrequency.hardState cycle prescale) entries).actions.foldl State.exec s).registers
            e.2.1.pwmDutyReg = BitVec.ofInt 16 (newRaw cycle e.2.2) := by
  induction entries generalizing s with
  | nil => exact ⟨fun _ _ => rfl, by simp⟩
  | cons e entries ih =>
    obtain ⟨i, d, a⟩ := e
    rw [List.forall_mem_cons] at hpwm hval hword
    rw [List.map_cons, List.nodup_cons] at hnodup
    -- the state after the first output
    obtain ⟨s', hfirst, hregisters⟩ : ∃ s' : State ι,
        (DigitalOutput.keepDuties (.hard g.regcycle g.regprescale)
          (PwmFrequency.hardState cycle prescale) ((i, d, a) :: entries)).actions.foldl State.exec s =
            (DigitalOutput.keepDuties (.hard g.regcycle g.regprescale)
              (PwmFrequency.hardState cycle prescale) entries).actions.foldl State.exec s' ∧
          s'.registers = if a.pwmOn then
            Function.update s.registers d.pwmDutyReg (BitVec.ofInt 16 (newRaw cycle a))
            else s.registers := by
      by_cases hon : a.pwmOn
      · obtain ⟨⟨_, hresult⟩, hregisters⟩ := exec_keepDuty prescale g hpwm.1 hon
          (hword.1 hon) hval.1
        refine ⟨_, ?_, hregisters.trans (if_pos hon).symm⟩
        rw [DigitalOutput.keepDuties, SetScript.actions_bind hresult, List.foldl_append]
      · refine ⟨s, ?_, (if_neg hon).symm⟩
        have hskip : (DigitalOutput.keepDuty (.hard g.regcycle g.regprescale)
            (PwmFrequency.hardState cycle prescale) (i, d, a) : SetScript ι Unit) = pure () := by
          rw [DigitalOutput.keepDuty, if_neg hon]
        rw [DigitalOutput.keepDuties, hskip]
        rfl
    have hother : ∀ r, r ≠ d.pwmDutyReg → s'.registers r = s.registers r := by
      intro r hr
      rw [hregisters]
      split
      · exact Function.update_of_ne hr _ _
      · rfl
    have hne : ∀ e ∈ entries, e.2.1.pwmDutyReg ≠ d.pwmDutyReg := fun e mem heq =>
      hnodup.1 (heq ▸ List.mem_map_of_mem mem)
    obtain ⟨hkept, hnew⟩ := ih s' hpwm.2 hnodup.2
      (fun e mem => by rw [hother _ (hne e mem)]; exact hval.2 e mem) hword.2
    rw [hfirst]
    constructor
    · intro r hr
      rw [List.forall_mem_cons] at hr
      rw [hkept r hr.2, hregisters]
      split
      · next hon => exact Function.update_of_ne (hr.1 hon) _ _
      · rfl
    · rw [List.forall_mem_cons]
      refine ⟨fun hon => ?_, hnew⟩
      rw [hkept _ fun e mem _ => (hne e mem).symm, hregisters]
      simp only [show a.pwmOn = true from hon, if_true, Function.update_self]

end Keep

/-! ## One call -/

/-- The duties rewritten by a call are kept at its frequency, and their registers are in range. -/
def Careful (g : PwmGroup ι) (s : State ι) (c : Call ι) : Prop :=
  (∃ divided, HardPwm.divide c.freq = .ok divided) →
    ∀ duty ∈ DigitalOutput.keptDuties c.device g.id (g.entries s) c.keep,
      ∃ k : ℕ, k ≤ 1000 ∧ duty = (k : ℚ) / 10 ∧ HardPwm.KeepsTenth c.freq k ∧
        (HardPwm.Longest c.freq → k < 1000)

/-- The outputs whose duties a call rewrites. -/
def rewritten (g : PwmGroup ι) (s : State ι) (c : Call ι) : List (DigitalOutput.Entry ι) :=
  (g.entries s).filter fun (other, d, _) => d.pwm.any (·.1 = g.id) && (c.keep || other ≠ c.device)

theorem mem_rewritten {g : PwmGroup ι} {s : State ι} {c : Call ι} {o : ι × DigitalOutput}
    (mem : o ∈ g.outputs) (other : c.keep ∨ c.device ≠ o.1) :
    (o.1, o.2, s.attrs o.1) ∈ g.rewritten s c := by
  refine List.mem_filter.mpr ⟨List.mem_map_of_mem mem, ?_⟩
  have hother : (c.keep || decide (o.1 ≠ c.device)) = true := by
    rcases other with keep | ne
    · simp [keep]
    · simp [Ne.symm ne]
  simp only [g.pwm o mem, hother, Option.any_some, Bool.and_true, decide_true]

theorem exists_of_mem_rewritten {g : PwmGroup ι} {s : State ι} {c : Call ι}
    {e : DigitalOutput.Entry ι} (mem : e ∈ g.rewritten s c) :
    ∃ o ∈ g.outputs, e = (o.1, o.2, s.attrs o.1) := by
  obtain ⟨o, ho, rfl⟩ := List.mem_map.mp (List.mem_filter.mp mem).1
  exact ⟨o, ho, rfl⟩

theorem nodup_rewritten (g : PwmGroup ι) (s : State ι) (c : Call ι) :
    ((g.rewritten s c).map (·.2.1.pwmDutyReg)).Nodup := by
  have hentries : (g.entries s).map (·.2.1.pwmDutyReg) = g.outputs.map (·.2.pwmDutyReg) := by
    rw [entries, List.map_map]
    rfl
  have hnodup := (List.nodup_cons.mp (List.nodup_cons.mp g.registers).2).2
  rw [← hentries] at hnodup
  exact hnodup.sublist (List.filter_sublist.map _)

theorem Careful.duty {g : PwmGroup ι} {s : State ι} {c : Call ι} (careful : g.Careful s c)
    (accepted : ∃ divided, HardPwm.divide c.freq = .ok divided) {e : DigitalOutput.Entry ι}
    (mem : e ∈ g.rewritten s c) (hon : e.2.2.pwmOn) :
    ∃ k : ℕ, k ≤ 1000 ∧ e.2.2.pwmDuty.getD 0 = (k : ℚ) / 10 ∧ HardPwm.KeepsTenth c.freq k ∧
      (HardPwm.Longest c.freq → k < 1000) :=
  have h : ∀ entry ∈ g.rewritten s c, entry.2.2.pwmOn →
      ∃ k : ℕ, k ≤ 1000 ∧ entry.2.2.pwmDuty.getD 0 = (k : ℚ) / 10 ∧
        HardPwm.KeepsTenth c.freq k ∧ (HardPwm.Longest c.freq → k < 1000) :=
    DigitalOutput.mem_keptDuties.mp (careful accepted)
  h e mem hon

omit [DecidableEq ι] in
/-- The register of a duty by 0.1 % is in range, unless it is full at the longest cycle. -/
theorem newRaw_word {freq : ℚ} {cycle prescale k : ℕ} (h : HardPwm.Divides freq cycle prescale)
    {a : DigitalOutput.State} (hk : k ≤ 1000) (hduty : a.pwmDuty.getD 0 = (k : ℚ) / 10)
    (hfits : HardPwm.Longest freq → k < 1000) :
    0 ≤ newRaw cycle a ∧ newRaw cycle a ≤ 65535 := by
  have hk' : (k : ℚ) ≤ 1000 := by exact_mod_cast hk
  unfold newRaw
  rw [hduty]
  refine ⟨HardPwm.dutyRaw_nonneg cycle (by positivity), ?_⟩
  refine (h.dutyRaw_le_iff (by linarith)).mpr fun longest => ?_
  have hlt : (k : ℚ) + 1 ≤ 1000 := by exact_mod_cast hfits longest
  unfold HardPwm.fullDuty
  linarith

/-- The registers after a careful call at an accepted frequency. -/
theorem exec_script {g : PwmGroup ι} {s : State ι} {c : Call ι} {cycle prescale : ℕ}
    (checked : ∀ o ∈ g.outputs, g.Checked s o) (careful : g.Careful s c)
    (hdivide : HardPwm.divide c.freq = .ok (cycle, prescale)) :
    (((g.script s c).actions.foldl State.exec s).registers g.regcycle).toNat + 1 = cycle ∧
      ∀ o ∈ g.outputs, c.keep ∨ c.device ≠ o.1 →
        ((g.script s c).actions.foldl State.exec s).registers o.2.pwmDutyReg =
          if (s.attrs o.1).pwmOn then BitVec.ofInt 16 (newRaw cycle (s.attrs o.1))
          else s.registers o.2.pwmDutyReg := by
  have h := HardPwm.Divides.of_divide hdivide
  have hnodup := List.nodup_cons.mp g.registers
  have hnodup' := List.nodup_cons.mp hnodup.2
  obtain ⟨hcycle, -⟩ := not_or.mp (mt List.mem_cons.mpr hnodup.1)
  -- the state after the frequency
  obtain ⟨s', hs', hscript⟩ : ∃ s' : State ι,
      s'.registers = Function.update (Function.update s.registers g.regprescale
        (BitVec.ofNat 16 (prescale - 1))) g.regcycle (BitVec.ofNat 16 (cycle - 1)) ∧
      (g.script s c).actions.foldl State.exec s =
        (DigitalOutput.keepDuties (.hard g.regcycle g.regprescale)
          (PwmFrequency.hardState cycle prescale) (g.rewritten s c)).actions.foldl State.exec s' := by
    refine ⟨{ s with
      registers := Function.update (Function.update s.registers g.regprescale
        (BitVec.ofNat 16 (prescale - 1))) g.regcycle (BitVec.ofNat 16 (cycle - 1))
      pwm := PwmFrequency.hardState cycle prescale }, rfl, ?_⟩
    rw [script, DigitalOutput.setPwmFreq_eq g.regcycle g.regprescale hdivide,
      SetScript.actions_bind rfl, SetScript.actions_bind_pure, List.foldl_append,
      List.foldl_append, exec_write s hcycle]
    rfl
  have hother : ∀ o ∈ g.outputs, s'.registers o.2.pwmDutyReg = s.registers o.2.pwmDutyReg := by
    intro o mem
    have hreg : o.2.pwmDutyReg ∈ g.outputs.map (·.2.pwmDutyReg) := List.mem_map_of_mem mem
    rw [hs', Function.update_of_ne, Function.update_of_ne]
    · rintro heq
      exact hnodup'.1 (heq ▸ hreg)
    · rintro heq
      exact hnodup.1 (List.mem_cons_of_mem _ (heq ▸ hreg))
  have hword : ∀ e ∈ g.rewritten s c, e.2.2.pwmOn →
      0 ≤ newRaw cycle e.2.2 ∧ newRaw cycle e.2.2 ≤ 65535 := by
    intro e mem hon
    obtain ⟨k, hk, hduty, -, hfits⟩ := careful.duty ⟨_, hdivide⟩ mem hon
    exact newRaw_word h hk hduty hfits
  obtain ⟨hkept, hnew⟩ := exec_keepDuties prescale g (g.rewritten s c) s' (by
      intro e mem
      obtain ⟨o, ho, rfl⟩ := exists_of_mem_rewritten mem
      exact Option.isSome_of_eq_some (g.pwm o ho)) (g.nodup_rewritten s c) (by
      intro e mem
      obtain ⟨o, ho, rfl⟩ := exists_of_mem_rewritten mem
      rw [hother o ho]
      exact (checked o ho).val) hword
  rw [hscript]
  constructor
  · -- the register of the cycle is not the one of a duty
    rw [hkept, hs', Function.update_self, BitVec.toNat_ofNat, Nat.mod_eq_of_lt]
    · have := h.le_cycle
      omega
    · have := h.cycle_le
      omega
    · intro e mem _ heq
      obtain ⟨o, ho, rfl⟩ := exists_of_mem_rewritten mem
      exact hnodup.1 (List.mem_cons_of_mem _ (heq ▸ List.mem_map_of_mem ho))
  · intro o ho other
    have mem := mem_rewritten (s := s) ho other
    split
    · next hon => exact hnew _ mem hon
    · next hoff =>
      rw [hkept, hother o ho]
      intro e mem' hon heq
      obtain ⟨o', ho', rfl⟩ := exists_of_mem_rewritten mem'
      obtain rfl := List.inj_on_of_nodup_map hnodup'.2 ho' ho heq.symm
      exact hoff hon

/-! ## The duties over a run -/

/-- The output reports the duty of `k` tenths of a percent, its register is the one of this duty. -/
structure Keeps (g : PwmGroup ι) (s : State ι) (o : ι × DigitalOutput) (k : ℕ) : Prop where
  duty : (s.attrs o.1).pwmDuty = some ((k : ℚ) / 10)
  raw : ((s.registers o.2.pwmDutyReg).toNat : ℤ) =
    newRaw ((s.registers g.regcycle).toNat + 1) (s.attrs o.1)

/-- The states after a scan. -/
def Scanned (g : PwmGroup ι) (s : State ι) : Prop :=
  ∀ o ∈ g.outputs, g.Checked s o

theorem scanned_step (g : PwmGroup ι) (s : State ι) (c : Call ι) : g.Scanned (g.step s c) := by
  exact (g.scan_spec _).2

/-- A call with a frequency out of range writes nothing. -/
theorem script_of_refused {g : PwmGroup ι} {s : State ι} {c : Call ι} {e : SetError}
    (h : HardPwm.divide c.freq = .error e) : (g.script s c).actions = [] := by
  rw [script, DigitalOutput.setPwmFreq, PwmFrequency.set, h]
  rfl

/-- A careful call keeps the duty of another output. -/
theorem Keeps.step {g : PwmGroup ι} {s : State ι} {c : Call ι} {o : ι × DigitalOutput} {k : ℕ}
    (keeps : g.Keeps s o k) (scanned : g.Scanned s) (careful : g.Careful s c)
    (mem : o ∈ g.outputs) (other : c.keep ∨ c.device ≠ o.1) : g.Keeps (g.step s c) o k := by
  have hchecked := g.scanned_step s c o mem
  have hregisters : (g.step s c).registers =
      ((g.script s c).actions.foldl State.exec s).registers := (g.scan_spec _).1
  cases hdivide : HardPwm.divide c.freq with
  | error e =>
    have hsame : (g.step s c).registers = s.registers := by
      rw [hregisters, script_of_refused hdivide]
      rfl
    have hduty : ((g.step s c).attrs o.1).pwmDuty = (s.attrs o.1).pwmDuty := by
      rw [hchecked.duty, (scanned o mem).duty, hsame]
    exact ⟨hduty.trans keeps.duty, by rw [hsame, keeps.raw, newRaw, newRaw, hduty]⟩
  | ok divided =>
    obtain ⟨cycle, prescale⟩ := divided
    have h := HardPwm.Divides.of_divide hdivide
    obtain ⟨hcycle, hnew⟩ := exec_script scanned careful hdivide
    rw [← hregisters] at hcycle
    have hraw := hnew o mem other
    rw [← hregisters] at hraw
    have hduty : (s.attrs o.1).pwmDuty.getD 0 = (k : ℚ) / 10 := by rw [keeps.duty]; rfl
    -- the register and the duty at the new cycle
    obtain ⟨hkept, hval⟩ : HardPwm.Kept cycle k ∧
        (((g.step s c).registers o.2.pwmDutyReg).toNat : ℤ) = newRaw cycle (s.attrs o.1) := by
      by_cases hon : (s.attrs o.1).pwmOn
      · rw [if_pos hon] at hraw
        obtain ⟨k', hk', hduty', hkept, hfits⟩ :=
          careful.duty ⟨_, hdivide⟩ (mem_rewritten mem other) hon
        obtain rfl : k' = k := by
          have : (k' : ℚ) = k := by
            rw [hduty] at hduty'
            linarith
          exact_mod_cast this
        have hword : 0 ≤ newRaw cycle (s.attrs o.1) ∧ newRaw cycle (s.attrs o.1) ≤ 65535 :=
          newRaw_word h hk' hduty' hfits
        refine ⟨(h.kept_iff k').mpr hkept, ?_⟩
        rw [hraw, BitVec.toNat_ofInt]
        omega
      · rw [if_neg hon] at hraw
        obtain rfl : k = 0 := by
          by_contra hne
          have : (k : ℚ) / 10 ≠ 0 := by positivity
          exact hon (by simp [DigitalOutput.State.pwmOn, keeps.duty, this])
        have hzero : ∀ cycle, newRaw cycle (s.attrs o.1) = 0 := by
          intro cycle
          rw [newRaw, hduty]
          simpa using roundHalfEven_intCast 0
        exact ⟨.inl (by simpa [HardPwm.distance] using h.cycle_pos),
          by rw [hraw, keeps.raw, hzero, hzero]⟩
    have hstep : ((g.step s c).attrs o.1).pwmDuty = some ((k : ℚ) / 10) := by
      rw [hchecked.duty, reported, hcycle, ← Int.cast_natCast (R := ℚ)
        ((g.step s c).registers o.2.pwmDutyReg).toNat, hval, newRaw, hduty]
      congr 1
      exact (HardPwm.duty_dutyRaw_eq_iff (lt_of_lt_of_le (by decide) h.le_cycle) k).mpr hkept
    exact ⟨hstep, by rw [hval, hcycle, newRaw, newRaw, hstep, hduty]; rfl⟩

/-- Every call of the run is careful in its state. -/
def CarefulRun (g : PwmGroup ι) : State ι → List (Call ι) → Prop
  | _, [] => True
  | s, c :: calls => g.Careful s c ∧ g.CarefulRun (g.step s c) calls

/-- Careful calls keep the duties of the other outputs. -/
theorem Keeps.run {g : PwmGroup ι} {o : ι × DigitalOutput} {k : ℕ} (mem : o ∈ g.outputs)
    {calls : List (Call ι)} (other : ∀ c ∈ calls, c.keep ∨ c.device ≠ o.1) {s : State ι}
    (keeps : g.Keeps s o k) (scanned : g.Scanned s) (careful : g.CarefulRun s calls) :
    g.Keeps (g.run s calls) o k := by
  induction calls generalizing s with
  | nil => exact keeps
  | cons c calls ih =>
    rw [List.forall_mem_cons] at other
    obtain ⟨hcareful, hrest⟩ := careful
    exact ih other.2 (keeps.step scanned hcareful mem other.1) (g.scanned_step s c) hrest

/-- A duty by 0.1 % is kept by the frequencies of `KeepsTenth`, all duties by the frequencies up to
`keptFreq`, and the calls with them keep the reported duties of the other outputs. -/
theorem duty_kept_iff (g : PwmGroup ι) :
    (∀ (freq : ℚ) (cycle prescale : ℕ), HardPwm.divide freq = .ok (cycle, prescale) →
      (∀ k : ℕ, k ≤ 1000 →
        (((∃ raw, PwmFrequency.dutyRaw (.hard g.regcycle g.regprescale)
              (PwmFrequency.hardState cycle prescale) ((k : ℚ) / 10) = .ok raw ∧
            PwmFrequency.duty (.hard g.regcycle g.regprescale)
              (PwmFrequency.hardState cycle prescale) raw = (k : ℚ) / 10) ↔
          HardPwm.KeepsTenth freq k))) ∧
      ((∀ k : ℕ, k ≤ 1000 → HardPwm.KeepsTenth freq k) ↔ freq ≤ HardPwm.keptFreq)) ∧
    ∀ (s : State ι) (calls : List (Call ι)), g.Scanned s → g.CarefulRun s calls →
      ∀ o ∈ g.outputs, ∀ k : ℕ, g.Keeps s o k → (∀ c ∈ calls, c.keep ∨ c.device ≠ o.1) →
        ((g.run s calls).attrs o.1).pwmDuty = some ((k : ℚ) / 10) := by
  refine ⟨fun freq cycle prescale hdivide => ⟨fun k _ => ?_, ?_⟩, ?_⟩
  · have h := HardPwm.Divides.of_divide hdivide
    rw [← h.kept_iff, ← HardPwm.duty_dutyRaw_eq_iff (lt_of_lt_of_le (by decide) h.le_cycle)]
    constructor
    · rintro ⟨raw, ⟨⟩, hduty⟩
      exact hduty
    · exact fun hduty => ⟨_, rfl, hduty⟩
  · have h := HardPwm.Divides.of_divide hdivide
    rw [← h.forall_kept_iff]
    exact forall_congr' fun k => imp_congr_right fun _ => (h.kept_iff k).symm
  · intro s calls scanned careful o mem k keeps other
    exact (keeps.run mem other scanned careful).duty

/-- Two outputs, at 100 Hz the second one has the duty 50 %. -/
def pair : PwmGroup ℕ where
  id := 0
  regcycle := 0
  regprescale := 1
  outputs := [(2, DigitalOutput.output 2), (3, DigitalOutput.output 3)]
  pwm := by simp [DigitalOutput.output]
  ids := by decide
  registers := by decide

def pairState : State ℕ where
  registers a := [47999, 9, 0, 24000].getD a 0
  pwm := PwmFrequency.hardState 48000 10
  attrs i := if i = 3 then DigitalOutput.dutyState 50 24000 else DigitalOutput.dutyState 0 0

/-- The duty is kept at 200 Hz and at 40 kHz, set by the other output. -/
theorem duty_kept_pair :
    ((pair.run pairState [⟨2, 200, false⟩, ⟨2, 40000, true⟩]).attrs 3).pwmDuty =
      some (((500 : ℕ) : ℚ) / 10) := by
  have scanned : pair.Scanned pairState := by
    have h : ∀ o ∈ pair.outputs,
        (pairState.attrs o.1).pwmDuty = some (pair.reported pairState.registers o) ∧
          (pairState.attrs o.1).pwmDutyVal =
            some ((pairState.registers o.2.pwmDutyReg).toNat : ℤ) := by
      decide +kernel
    exact fun o mem => ⟨(h o mem).1, (h o mem).2⟩
  have careful : ∀ (s : State ℕ) (c : Call ℕ),
      DigitalOutput.keptDuties c.device pair.id (pair.entries s) c.keep = [50] →
      c.freq ≤ HardPwm.keptFreq → pair.Careful s c := by
    intro s c hduties slow _ duty mem
    obtain rfl : duty = 50 := by simpa [hduties] using mem
    exact ⟨500, by decide, by norm_num, .inl slow, fun _ => by decide⟩
  have run : pair.CarefulRun pairState [⟨2, 200, false⟩, ⟨2, 40000, true⟩] :=
    ⟨careful _ _ (by decide +kernel) (by decide +kernel),
      careful _ _ (by decide +kernel) (by decide +kernel), trivial⟩
  have keeps : pair.Keeps pairState (3, DigitalOutput.output 3) 500 :=
    ⟨by decide +kernel, by decide +kernel⟩
  exact (duty_kept_iff pair).2 pairState _ scanned run (3, DigitalOutput.output 3)
    (by simp [pair]) 500 keeps (by decide)

/-- At the largest frequency, with a cycle of 960, a duty of 1.3 % is reported as 1.2 %. -/
theorem not_duty_kept :
    HardPwm.divide 50000 = .ok (960, 1) ∧
      PwmFrequency.dutyRaw (.hard 0 1) (PwmFrequency.hardState 960 1) (13 / 10) = .ok 12 ∧
      PwmFrequency.duty (.hard 0 1) (PwmFrequency.hardState 960 1) 12 ≠ 13 / 10 := by
  decide +kernel

end PwmGroup

end Modbus

end Evok
