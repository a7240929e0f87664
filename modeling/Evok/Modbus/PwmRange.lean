import Evok.Library.Fold
import Evok.Modbus.Digital
import Evok.Modbus.Divider

/-!
# The range of the registers of a PWM request

`DigitalOutput.set` checks its params before its first write, but the register of a duty is
checked by `Accessor.write` after the frequency was written. The register of 100 % is the length
of the cycle, which is out of range for the longest cycle.

## Main definitions

* `HardPwm.InRange`: the registers of a frequency and of duties are in their range.
* `SetScript.RaisesFirst`: a procedure raises before its first write only.
* `DigitalOutput.keptDuties`, `DigitalOutput.requestDuties`: the duties computed for the new cycle.

## Main results

* `DigitalOutput.set_inRange_iff`: the requests whose registers are in range, which are those that
  do not fail halfway.
-/

namespace Evok

namespace Modbus

/-! ## The register of a duty -/

namespace HardPwm

variable {freq duty : ℚ} {cycle prescale : ℕ}

/-- From this duty on the register is rounded to the longest cycle. -/
def fullDuty : ℚ := 100 - 25 / 32768

/-- The duties fit into their registers at the frequency. -/
def Fits (freq : ℚ) (duties : List ℚ) : Prop :=
  Longest freq → ∀ duty ∈ duties, duty < fullDuty

theorem dutyRaw_nonneg (cycle : ℕ) (nonneg : 0 ≤ duty) : 0 ≤ roundHalfEven (cycle * duty / 100) :=
  le_roundHalfEven (by
    push_cast
    positivity)

/-- The register of a duty is out of range for the longest cycle and the full duty only. -/
theorem Divides.dutyRaw_le_iff (h : Divides freq cycle prescale) (le : duty ≤ 100) :
    roundHalfEven (cycle * duty / 100) ≤ 65535 ↔ (Longest freq → duty < fullDuty) := by
  rw [h.longest_iff]
  rcases h.cycle_le.eq_or_lt with longest | shorter
  · rw [longest]
    have heven := le_roundHalfEven_iff_of_even (q := ((65536 : ℕ) : ℚ) * duty / 100)
      (show Even (65536 : ℤ) by decide)
    have hfull : (65536 : ℤ) - 1 / 2 ≤ ((65536 : ℕ) : ℚ) * duty / 100 ↔ fullDuty ≤ duty := by
      unfold fullDuty
      push_cast
      constructor <;> intro <;> linarith
    rw [hfull] at heven
    constructor
    · intro hle _
      by_contra hge
      have := heven.mpr (not_lt.mp hge)
      omega
    · intro hlt
      have : ¬fullDuty ≤ duty := not_le.mpr (hlt rfl)
      rw [← heven] at this
      omega
  · have hle : roundHalfEven (cycle * duty / 100) ≤ cycle :=
      roundHalfEven_le (by
        push_cast
        nlinarith [h.cycle_pos])
    constructor
    · intro _ longest
      omega
    · intro _
      omega

theorem fits_append {duties duties' : List ℚ} :
    Fits freq (duties ++ duties') ↔ Fits freq duties ∧ Fits freq duties' := by
  unfold Fits
  rw [← forall_and]
  exact forall_congr' fun _ => by rw [List.forall_mem_append, ← forall_and]

end HardPwm

/-! ## Scripts which raise before their writes -/

/-- A request which changes the unit. -/
def Action.isWrite {ι : Type} : Action ι → Bool
  | .writeCoil .. | .writeRegisters .. | .writeBit .. | .coilWithoutResponse .. => true
  | _ => false

namespace SetScript

variable {ι α β : Type}

/-- The procedure raises before its first write only. -/
def RaisesFirst (m : SetScript ι α) : Prop :=
  ∀ e, m.result = .error e → ∀ a ∈ m.actions, a.isWrite = false

/-- The procedure does not raise. -/
def Succeeds (m : SetScript ι α) : Prop :=
  ∃ a, m.result = .ok a

theorem Succeeds.raisesFirst {m : SetScript ι α} (h : m.Succeeds) : m.RaisesFirst := by
  obtain ⟨a, ha⟩ := h
  intro e he
  simp [ha] at he

/-- A sequence succeeds if both parts do. -/
theorem succeeds_bind {m : SetScript ι α} {f : α → SetScript ι β} {a : α}
    (ha : m.result = .ok a) : (m >>= f).Succeeds ↔ (f a).Succeeds := by
  obtain ⟨actions, result⟩ := m
  subst ha
  rfl

theorem not_succeeds_bind {m : SetScript ι α} {f : α → SetScript ι β} (h : ¬m.Succeeds) :
    ¬(m >>= f).Succeeds := by
  obtain ⟨actions, result⟩ := m
  cases result with
  | ok a => exact absurd ⟨a, rfl⟩ h
  | error e => rintro ⟨b, ⟨⟩⟩

theorem succeeds_map {m : SetScript ι α} {f : α → β} :
    (m >>= fun a => pure (f a)).Succeeds ↔ m.Succeeds := by
  by_cases h : m.Succeeds
  · obtain ⟨a, ha⟩ := h
    rw [succeeds_bind ha]
    exact ⟨fun _ => ⟨a, ha⟩, fun _ => ⟨f a, rfl⟩⟩
  · exact ⟨fun h' => absurd h' (not_succeeds_bind h), fun h' => absurd h' h⟩

theorem eq_of_result_pure {m : SetScript ι α} {b b' : β}
    (h : (m >>= fun _ => pure b).result = .ok b') : b' = b := by
  obtain ⟨actions, result⟩ := m
  cases result with
  | ok a => exact (Except.ok.inj h).symm
  | error e => cases h

theorem actions_bind {m : SetScript ι α} {f : α → SetScript ι β} {a : α}
    (ha : m.result = .ok a) : (m >>= f).actions = m.actions ++ (f a).actions := by
  obtain ⟨actions, result⟩ := m
  subst ha
  rfl

theorem actions_bind_pure {m : SetScript ι α} {b : β} :
    (m >>= fun _ => pure b).actions = m.actions := by
  obtain ⟨actions, result⟩ := m
  cases result with
  | ok a => exact List.append_nil _
  | error e => rfl

theorem mem_actions_bind {m : SetScript ι α} {f : α → SetScript ι β} {a : Action ι}
    (h : a ∈ m.actions) : a ∈ (m >>= f).actions := by
  obtain ⟨actions, result⟩ := m
  cases result with
  | ok b => exact List.mem_append_left _ h
  | error e => exact h

/-- After a write a procedure raises first if and only if it does not raise. -/
theorem raisesFirst_iff_of_write {m : SetScript ι α} {a : Action ι} (mem : a ∈ m.actions)
    (write : a.isWrite) : m.RaisesFirst ↔ m.Succeeds := by
  refine ⟨fun h => ?_, Succeeds.raisesFirst⟩
  cases hresult : m.result with
  | ok b => exact ⟨b, hresult⟩
  | error e => simp [h e hresult a mem] at write

end SetScript

/-! ## The setting of a frequency -/

theorem runs_ne_nil {registers : List (ℕ × Word)} (h : registers ≠ []) : runs registers ≠ [] := by
  obtain ⟨init, last, rfl⟩ := (List.eq_nil_or_concat registers).resolve_left h
  rw [runs, List.concat_eq_append, List.foldl_append, List.foldl_cons, List.foldl_nil, addRegister]
  split
  · split <;> simp
  · simp

namespace PwmFrequency

variable {ι : Type} {freq : ℚ} {cycle prescale : ℕ}

/-- The attributes of a hardware PWM after a setting. -/
def hardState (cycle prescale : ℕ) : PwmState :=
  ⟨some (HardPwm.frequency cycle prescale), some cycle, some prescale⟩

theorem set_hard (h : HardPwm.divide freq = .ok (cycle, prescale)) (regcycle regprescale id : ℕ)
    (s : PwmState) :
    ((hard regcycle regprescale).set id s freq : SetScript ι PwmState) =
      ⟨(write [(regcycle, cycle - 1), (regprescale, prescale - 1)] : SetScript ι Unit).actions ++
        [.assignPwm id (hardState cycle prescale)], .ok (hardState cycle prescale)⟩ := by
  simp [set, h, SetScript.ofExcept, write, Script.emit, hardState]

/-- The setting writes a register. -/
theorem exists_write (values : List (ℕ × ℕ)) (h : values ≠ []) :
    ∃ a ∈ (write values : SetScript ι Unit).actions, a.isWrite := by
  unfold write
  dsimp only
  generalize hregisters : List.map _ (values.insertionSort fun a b : ℕ × ℕ =>
    a.1 < b.1 ∨ a.1 = b.1 ∧ a.2 ≤ b.2) = registers
  have hne : registers ≠ [] := by
    rw [← hregisters, Ne, List.map_eq_nil_iff, ← List.length_eq_zero_iff, List.length_insertionSort,
      List.length_eq_zero_iff]
    exact h
  obtain ⟨run, others, hruns⟩ := List.exists_cons_of_ne_nil (runs_ne_nil hne)
  refine ⟨.writeRegisters run.1 run.2 false true, ?_, rfl⟩
  simp [hruns]

/-- The value fits into a register. -/
def IsWord (n : ℤ) : Prop :=
  0 ≤ n ∧ n ≤ 65535

/-- The registers of a new frequency are in range, with the ones of duties at its cycle. -/
def InRange (pwm : PwmFrequency) (freq : ℚ) (duties : List ℚ) : Prop :=
  ∀ cycle prescale : ℕ, HardPwm.divide freq = .ok (cycle, prescale) →
    IsWord (cycle - 1) ∧ IsWord (prescale - 1) ∧
      ∀ duty ∈ duties, ∀ raw,
        pwm.dutyRaw (hardState cycle prescale) duty = .ok raw → IsWord raw

theorem inRange_iff (hdivide : HardPwm.divide freq = .ok (cycle, prescale)) {duties : List ℚ}
    (range : ∀ duty ∈ duties, 0 ≤ duty ∧ duty ≤ 100) (regcycle regprescale : ℕ) :
    InRange (.hard regcycle regprescale) freq duties ↔ HardPwm.Fits freq duties := by
  have h := HardPwm.Divides.of_divide hdivide
  have hcycle := h.le_cycle
  have hcycle' := h.cycle_le
  have hprescale := h.pos
  have hprescale' := h.prescale_le
  constructor
  · intro hrange longest duty mem
    obtain ⟨-, hraw⟩ := (hrange cycle prescale hdivide).2.2 duty mem _ rfl
    exact (h.dutyRaw_le_iff (range duty mem).2).mp hraw longest
  · intro fits cycle' prescale' hdivide'
    obtain ⟨rfl, rfl⟩ : cycle' = cycle ∧ prescale' = prescale := by
      rw [hdivide] at hdivide'
      cases hdivide'
      exact ⟨rfl, rfl⟩
    refine ⟨⟨by omega, by omega⟩, ⟨by omega, by omega⟩, ?_⟩
    rintro duty mem _ ⟨⟩
    exact ⟨HardPwm.dutyRaw_nonneg _ (range duty mem).1,
      (h.dutyRaw_le_iff (range duty mem).2).mpr fun longest => fits longest duty mem⟩

end PwmFrequency

namespace DigitalOutput

variable {ι : Type} {freq : ℚ} {cycle prescale : ℕ}

/-- The write of the register of the duty. -/
theorem write_accessorPwmDuty {d : DigitalOutput} (h : d.pwm.isSome) (raw : ℤ) :
    (d.accessorPwmDuty.write raw : SetScript ι Unit) =
      if 0 ≤ raw ∧ raw ≤ 65535 then
        Script.emit (.writeRegisters d.pwmDutyReg [BitVec.ofInt 16 raw] true true)
      else throw (d.accessorPwmDuty.outOfRange raw) := by
  have htransform : ¬((1 : ℚ) ≠ 1 ∨ (0 : ℚ) ≠ 0) := by simp
  simp only [accessorPwmDuty, h, if_true, Accessor.write, htransform, if_false, Bool.false_eq_true,
    DataType.rawRange, roundHalfEven_intCast, Accessor.writeRaw, DataType.encode, Int.floor_intCast]

theorem succeeds_write {d : DigitalOutput} (h : d.pwm.isSome) (raw : ℤ) :
    (d.accessorPwmDuty.write raw : SetScript ι Unit).Succeeds ↔ 0 ≤ raw ∧ raw ≤ 65535 := by
  rw [write_accessorPwmDuty h]
  split
  · next fits => exact ⟨fun _ => fits, fun _ => ⟨(), rfl⟩⟩
  · next out =>
    constructor
    · rintro ⟨_, ⟨⟩⟩
    · exact fun fits => absurd fits out

/-- The output keeps its duty at a new frequency of the group `id`. -/
def isKept [DecidableEq ι] (device : ι) (id : ℕ) (keep : Bool) : Entry ι → Bool
  | (other, d, s) => d.pwm.any (·.1 = id) && (keep || other ≠ device) && s.pwmOn

/-- The duties rewritten at a new frequency, the one of this output with `keep` only. -/
def keptDuties [DecidableEq ι] (device : ι) (id : ℕ) (outputs : List (Entry ι)) (keep : Bool) :
    List ℚ :=
  (outputs.filter (isKept device id keep)).map fun (_, _, s) => s.pwmDuty.getD 0

/-- The duty of an output is a percentage, its register was read as a word. -/
def Entry.Valid (entry : Entry ι) : Prop :=
  (∀ duty ∈ entry.2.2.pwmDuty, 0 ≤ duty ∧ duty ≤ 100) ∧ ∀ raw ∈ entry.2.2.pwmDutyVal, raw ≤ 65535

theorem Entry.Valid.duty {entry : Entry ι} (h : entry.Valid) :
    0 ≤ entry.2.2.pwmDuty.getD 0 ∧ entry.2.2.pwmDuty.getD 0 ≤ 100 := by
  cases hduty : entry.2.2.pwmDuty with
  | none => simp
  | some duty => exact h.1 duty hduty

/-- One output keeps its duty, unless its register is out of range. -/
theorem succeeds_keepDuty (regcycle regprescale : ℕ)
    (h : HardPwm.Divides freq cycle prescale) {entry : Entry ι}
    (valid : entry.Valid) (hpwm : entry.2.1.pwm.isSome) :
    (keepDuty (.hard regcycle regprescale) (PwmFrequency.hardState cycle prescale) entry).Succeeds ↔
      (entry.2.2.pwmOn → HardPwm.Longest freq → entry.2.2.pwmDuty.getD 0 < HardPwm.fullDuty) := by
  obtain ⟨device, d, s⟩ := entry
  obtain ⟨hnonneg, hle⟩ := valid.duty
  rw [← h.dutyRaw_le_iff hle]
  set raw := roundHalfEven (cycle * s.pwmDuty.getD 0 / 100) with hraw
  have hraw0 : 0 ≤ raw := HardPwm.dutyRaw_nonneg cycle hnonneg
  have hdutyRaw : SetScript.ofExcept (PwmFrequency.dutyRaw (.hard regcycle regprescale)
      (PwmFrequency.hardState cycle prescale) (s.pwmDuty.getD 0)) = (pure raw : SetScript ι ℤ) :=
    rfl
  simp only [keepDuty, hdutyRaw]
  by_cases hon : s.pwmOn
  · simp only [hon, if_true, forall_const]
    rw [SetScript.succeeds_bind rfl]
    by_cases hsame : some raw = s.pwmDutyVal
    · -- the register has this value already
      have := valid.2 raw hsame.symm
      simp only [ne_eq, hsame, not_true, if_false]
      exact ⟨fun _ => this, fun _ => ⟨(), rfl⟩⟩
    · simp only [ne_eq, hsame, not_false_eq_true, if_true]
      by_cases hfits : raw ≤ 65535
      · rw [write_accessorPwmDuty hpwm, if_pos ⟨hraw0, hfits⟩]
        exact ⟨fun _ => hfits, fun _ => ⟨(), rfl⟩⟩
      · refine ⟨fun h => absurd h (SetScript.not_succeeds_bind ?_), fun h => absurd h hfits⟩
        rw [succeeds_write hpwm]
        exact fun h => hfits h.2
  · simp only [hon]
    exact ⟨fun _ on => absurd on (by decide), fun _ => ⟨(), rfl⟩⟩

/-- The outputs keep their duties, unless a register is out of range. -/
theorem succeeds_keepDuties (regcycle regprescale : ℕ)
    (h : HardPwm.Divides freq cycle prescale) {outputs : List (Entry ι)}
    (valid : ∀ entry ∈ outputs, entry.Valid) (hpwm : ∀ entry ∈ outputs, entry.2.1.pwm.isSome) :
    (keepDuties (.hard regcycle regprescale) (PwmFrequency.hardState cycle prescale)
        outputs).Succeeds ↔
      ∀ entry ∈ outputs, entry.2.2.pwmOn → HardPwm.Longest freq →
        entry.2.2.pwmDuty.getD 0 < HardPwm.fullDuty := by
  induction outputs with
  | nil => exact ⟨fun _ => by simp, fun _ => ⟨(), rfl⟩⟩
  | cons entry outputs ih =>
    rw [List.forall_mem_cons] at valid hpwm ⊢
    have hfirst := succeeds_keepDuty regcycle regprescale h valid.1 hpwm.1
    have hothers := ih valid.2 hpwm.2
    unfold keepDuties
    by_cases first : (keepDuty (.hard regcycle regprescale)
      (PwmFrequency.hardState cycle prescale) entry).Succeeds
    · obtain ⟨_, hresult⟩ := first
      rw [SetScript.succeeds_bind hresult, hothers]
      exact ⟨fun h => ⟨hfirst.mp ⟨_, hresult⟩, h⟩, fun h => h.2⟩
    · exact ⟨fun h => absurd h (SetScript.not_succeeds_bind first),
        fun h => absurd (hfirst.mpr h.1) first⟩

/-- What `set_pwm_freq` does at an accepted frequency. -/
theorem setPwmFreq_eq [DecidableEq ι] (regcycle regprescale : ℕ)
    (hdivide : HardPwm.divide freq = .ok (cycle, prescale))
    (device : ι) (id : ℕ) (p : PwmState) (outputs : List (Entry ι)) (keep : Bool) :
    setPwmFreq device id (.hard regcycle regprescale) p outputs freq keep = do
      let p ← (⟨(PwmFrequency.write [(regcycle, cycle - 1), (regprescale, prescale - 1)] :
          SetScript ι Unit).actions ++ [.assignPwm id (PwmFrequency.hardState cycle prescale)],
        .ok (PwmFrequency.hardState cycle prescale)⟩ : SetScript ι PwmState)
      keepDuties (.hard regcycle regprescale) p <| outputs.filter fun (other, d, _) =>
        d.pwm.any (·.1 = id) && (keep || other ≠ device)
      return p := by
  rw [setPwmFreq, PwmFrequency.set_hard hdivide]

theorem mem_keptDuties [DecidableEq ι] {device : ι} {id : ℕ} {outputs : List (Entry ι)}
    {keep : Bool} {P : ℚ → Prop} :
    (∀ duty ∈ keptDuties device id outputs keep, P duty) ↔
      ∀ entry ∈ outputs.filter (fun (other, d, _) =>
        d.pwm.any (·.1 = id) && (keep || other ≠ device)),
        entry.2.2.pwmOn → P (entry.2.2.pwmDuty.getD 0) := by
  simp only [keptDuties, List.forall_mem_map, List.mem_filter, isKept, Bool.and_eq_true]
  exact ⟨fun h entry mem on => h entry ⟨mem.1, mem.2, on⟩,
    fun h entry mem => h entry ⟨mem.1, mem.2.1⟩ mem.2.2⟩

/-- The setting of a frequency succeeds if the kept duties fit, and writes anyway. -/
theorem setPwmFreq_spec [DecidableEq ι] (regcycle regprescale : ℕ)
    (hdivide : HardPwm.divide freq = .ok (cycle, prescale))
    (device : ι) {id : ℕ} (p : PwmState) {outputs : List (Entry ι)}
    (valid : ∀ entry ∈ outputs, entry.2.1.pwm.any (·.1 = id) → entry.Valid) (keep : Bool) :
    ((setPwmFreq device id (.hard regcycle regprescale) p outputs freq keep).Succeeds ↔
        HardPwm.Fits freq (keptDuties device id outputs keep)) ∧
      (∃ a ∈ (setPwmFreq device id (.hard regcycle regprescale) p outputs freq keep).actions,
        a.isWrite) ∧
      ∀ p', (setPwmFreq device id (.hard regcycle regprescale) p outputs freq keep).result =
        .ok p' → p' = PwmFrequency.hardState cycle prescale := by
  rw [setPwmFreq_eq regcycle regprescale hdivide]
  set group := outputs.filter fun (other, d, _) =>
    d.pwm.any (·.1 = id) && (keep || other ≠ device) with hgroup
  have hmember : ∀ entry ∈ group, entry ∈ outputs ∧ entry.2.1.pwm.any (·.1 = id) := by
    intro entry mem
    obtain ⟨hentry, hselected⟩ := List.mem_filter.mp mem
    exact ⟨hentry, (Bool.and_eq_true_iff.mp hselected).1⟩
  have hpwm : ∀ entry ∈ group, entry.2.1.pwm.isSome := by
    intro entry mem
    have hid := (hmember entry mem).2
    cases hpwm : entry.2.1.pwm with
    | none => simp [hpwm] at hid
    | some pwm => rfl
  have hkept := succeeds_keepDuties regcycle regprescale (.of_divide hdivide)
    (fun entry mem => valid entry (hmember entry mem).1 (hmember entry mem).2) hpwm
  have hfits : HardPwm.Fits freq (keptDuties device id outputs keep) ↔
      ∀ entry ∈ group, entry.2.2.pwmOn → HardPwm.Longest freq →
        entry.2.2.pwmDuty.getD 0 < HardPwm.fullDuty := by
    rw [← mem_keptDuties (P := fun duty => HardPwm.Longest freq → duty < HardPwm.fullDuty)]
    exact ⟨fun h duty mem longest => h longest duty mem,
      fun h longest duty mem => h duty mem longest⟩
  rw [hfits, ← hkept]
  obtain ⟨a, ha, write⟩ := PwmFrequency.exists_write (ι := ι)
    [(regcycle, cycle - 1), (regprescale, prescale - 1)] (by simp)
  refine ⟨?_, ⟨a, ?_, write⟩, ?_⟩
  · rw [SetScript.succeeds_bind rfl]
    exact SetScript.succeeds_map
  · rw [Script.bind_ok]
    simp [ha]
  · intro p' hresult
    rw [Script.bind_ok] at hresult
    exact SetScript.eq_of_result_pure hresult

theorem succeeds_writeValue (d : BinaryOutput) (value : Bool) :
    (d.writeValue value : SetScript ι Unit).Succeeds := by
  unfold BinaryOutput.writeValue
  split <;> exact ⟨(), rfl⟩

theorem succeeds_setAlias (device : ι) (name : Option String) :
    (SetScript.setAlias device name).Succeeds := by
  unfold SetScript.setAlias
  split <;> exact ⟨(), rfl⟩

/-- A checked duty is a percentage. -/
theorem parseDuty_ok {d : DigitalOutput} {value : Option PyValue} {duty : ℚ}
    (h : d.parseDuty value = .ok (some duty)) : 0 ≤ duty ∧ duty ≤ 100 := by
  cases value with
  | none => cases h
  | some value =>
    obtain ⟨q, -, h⟩ := Fold.bind_eq_ok.mp h
    by_cases range : 0 ≤ q ∧ q ≤ 100
    · rw [if_neg (not_not.mpr range)] at h
      cases h
      exact range
    · rw [if_pos range] at h
      cases h

theorem parse_pwmDuty {d : DigitalOutput} {params : Params} {parsed : Parsed}
    (h : d.parse params = .ok parsed) : ∀ duty ∈ parsed.pwmDuty, 0 ≤ duty ∧ duty ≤ 100 := by
  obtain ⟨value, -, h⟩ := Fold.bind_eq_ok.mp h
  obtain ⟨pwmDuty, hduty, h⟩ := Fold.bind_eq_ok.mp h
  obtain ⟨pwmFreq, -, h⟩ := Fold.bind_eq_ok.mp h
  have heq : parsed.pwmDuty = pwmDuty := by
    dsimp only at h
    split at h
    · cases h
    · split at h
      · split at h
        · cases h
        · exact (Except.ok.inj h) ▸ rfl
      · exact (Except.ok.inj h) ▸ rfl
  intro duty mem
  rw [← heq, Option.mem_def.mp mem] at hduty
  exact parseDuty_ok hduty

/-- The duties computed for the new cycle by a request: the kept ones and the one of the request,
which a binary value replaces. -/
def requestDuties [DecidableEq ι] (device : ι) (id : ℕ) (outputs : List (Entry ι))
    (parsed : Parsed) : List ℚ :=
  keptDuties device id outputs (parsed.value.isNone && parsed.pwmDuty.isNone) ++
    if parsed.value.isNone then parsed.pwmDuty.toList else []

/-- The writes after the frequency: the value, or the duty with the coil off. -/
def applyRest (d : DigitalOutput) (device : ι) (s : State) (pwm : PwmFrequency) (p : PwmState)
    (parsed : Parsed) : SetScript ι Unit := do
  match parsed.value, parsed.pwmDuty with
  | some value, _ =>
    d.writeValue value
    if s.pwmOn then
      Script.emit (.assign device (.pwmDuty 0))
      d.accessorPwmDuty.write 0
  | none, some duty =>
    if s.value ≠ some 0 then d.writeValue false
    d.accessorPwmDuty.write (← SetScript.ofExcept (pwm.dutyRaw p duty))
  | none, none => pure ()

theorem apply_eq [DecidableEq ι] {d : DigitalOutput} {id : ℕ} {pwm : PwmFrequency}
    (hpwm : d.pwm = some (id, pwm)) (device : ι) (s : State) (p : PwmState)
    (outputs : List (Entry ι)) {parsed : Parsed} (hfreq : parsed.pwmFreq = some freq) :
    d.apply device s p outputs parsed = (do
      let p ← setPwmFreq device id pwm p outputs freq
        (parsed.value.isNone && parsed.pwmDuty.isNone)
      d.applyRest device s pwm p parsed) := by
  obtain ⟨value, pwmDuty, pwmFreq⟩ := parsed
  obtain rfl : pwmFreq = some freq := hfreq
  unfold apply applyRest
  rw [hpwm]
  cases value <;> cases pwmDuty <;> rfl

theorem succeeds_applyRest (regcycle regprescale : ℕ)
    (h : HardPwm.Divides freq cycle prescale) {d : DigitalOutput}
    (hpwm : d.pwm.isSome) (device : ι) (s : State) {parsed : Parsed}
    (range : ∀ duty ∈ parsed.pwmDuty, 0 ≤ duty ∧ duty ≤ 100) :
    (d.applyRest device s (.hard regcycle regprescale) (PwmFrequency.hardState cycle prescale)
        parsed).Succeeds ↔
      HardPwm.Fits freq (if parsed.value.isNone then parsed.pwmDuty.toList else []) := by
  obtain ⟨value, pwmDuty, pwmFreq⟩ := parsed
  unfold applyRest
  cases value with
  | some value =>
    refine ⟨fun _ _ => by simp, fun _ => ?_⟩
    obtain ⟨_, hvalue⟩ := succeeds_writeValue (ι := ι) d.toBinaryOutput value
    rw [SetScript.succeeds_bind hvalue]
    split
    · rw [SetScript.succeeds_bind rfl]
      exact (succeeds_write hpwm 0).mpr (by norm_num)
    · exact ⟨(), rfl⟩
  | none =>
    cases pwmDuty with
    | none => exact ⟨fun _ _ => by simp, fun _ => ⟨(), rfl⟩⟩
    | some duty =>
      obtain ⟨hnonneg, hle⟩ := range duty rfl
      have hwrite : (d.accessorPwmDuty.write (roundHalfEven (cycle * duty / 100)) :
          SetScript ι Unit).Succeeds ↔ HardPwm.Fits freq [duty] := by
        rw [succeeds_write hpwm]
        have hfits := h.dutyRaw_le_iff hle
        have hraw0 := HardPwm.dutyRaw_nonneg cycle hnonneg
        simp only [hraw0, true_and, hfits, HardPwm.Fits, List.forall_mem_singleton]
      simp only [Option.isNone_none, if_true, Option.toList_some]
      rw [← hwrite]
      split
      · obtain ⟨_, hvalue⟩ := succeeds_writeValue (ι := ι) d.toBinaryOutput false
        rw [SetScript.succeeds_bind hvalue, SetScript.succeeds_bind rfl]
      · rw [SetScript.succeeds_bind rfl]

theorem keptDuties_range [DecidableEq ι] {id : ℕ} {outputs : List (Entry ι)}
    (valid : ∀ entry ∈ outputs, entry.2.1.pwm.any (·.1 = id) → entry.Valid) (device : ι)
    (keep : Bool) : ∀ duty ∈ keptDuties device id outputs keep, 0 ≤ duty ∧ duty ≤ 100 := by
  rw [mem_keptDuties]
  intro entry mem _
  obtain ⟨hentry, hselected⟩ := List.mem_filter.mp mem
  exact (valid entry hentry (Bool.and_eq_true_iff.mp hselected).1).duty

/-- A checked request writes the frequency first. -/
theorem apply_spec [DecidableEq ι] (hdivide : HardPwm.divide freq = .ok (cycle, prescale))
    {regcycle regprescale : ℕ} {d : DigitalOutput} {id : ℕ} (hpwm : d.pwm = some (id, .hard regcycle regprescale))
    (device : ι) (s : State) (p : PwmState) {outputs : List (Entry ι)}
    (valid : ∀ entry ∈ outputs, entry.2.1.pwm.any (·.1 = id) → entry.Valid) {parsed : Parsed}
    (hfreq : parsed.pwmFreq = some freq) (range : ∀ duty ∈ parsed.pwmDuty, 0 ≤ duty ∧ duty ≤ 100) :
    ((d.apply device s p outputs parsed).Succeeds ↔
        HardPwm.Fits freq (requestDuties device id outputs parsed)) ∧
      ∃ a ∈ (d.apply device s p outputs parsed).actions, a.isWrite := by
  obtain ⟨hok, ⟨a, mem, write⟩, hstate⟩ := setPwmFreq_spec regcycle regprescale hdivide
    device p valid     (parsed.value.isNone && parsed.pwmDuty.isNone)
  rw [apply_eq hpwm device s p outputs hfreq, requestDuties, HardPwm.fits_append, ← hok]
  refine ⟨?_, a, SetScript.mem_actions_bind mem, write⟩
  by_cases success : (setPwmFreq device id (.hard regcycle regprescale) p outputs freq
      (parsed.value.isNone && parsed.pwmDuty.isNone)).Succeeds
  · obtain ⟨p', hresult⟩ := success
    obtain rfl := hstate p' hresult
    rw [SetScript.succeeds_bind hresult, ← succeeds_applyRest regcycle regprescale
      (.of_divide hdivide) (Option.isSome_of_eq_some hpwm) device s range]
    exact ⟨fun h => ⟨⟨_, hresult⟩, h⟩, fun h => h.2⟩
  · exact ⟨fun h => absurd h (SetScript.not_succeeds_bind success), fun h => absurd h.1 success⟩

theorem set_eq [DecidableEq ι] {d : DigitalOutput} (device : ι) (s : State) (p : PwmState)
    (outputs : List (Entry ι)) {params : Params} {parsed : Parsed}
    (hparse : d.parse params = .ok parsed) :
    d.set device s p outputs params = (do
      d.apply device s p outputs parsed
      SetScript.setAlias device params.aliasName) := by
  rw [set, hparse]
  rfl

/-- A request at an accepted frequency has all its registers in range, and does not fail halfway,
if and only if it does not ask for the full duty at a frequency of the longest cycle; so does the
setting of the frequency. A request of a duty alone keeps the running cycle and is not of these: with
the full duty at the longest cycle its write is refused too. -/
theorem set_inRange_iff [DecidableEq ι] {d : DigitalOutput} {id regcycle regprescale : ℕ}
    (hpwm : d.pwm = some (id, .hard regcycle regprescale)) (device : ι) (s : State) (p : PwmState)
    {outputs : List (Entry ι)}
    (valid : ∀ entry ∈ outputs, entry.2.1.pwm.any (·.1 = id) → entry.Valid) {params : Params}
    {parsed : Parsed} (hparse : d.parse params = .ok parsed) (hfreq : parsed.pwmFreq = some freq)
    (accepted : ∃ divided, HardPwm.divide freq = .ok divided) :
    ((PwmFrequency.InRange (.hard regcycle regprescale) freq
          (requestDuties device id outputs parsed) ↔
        HardPwm.Fits freq (requestDuties device id outputs parsed)) ∧
      ((d.set device s p outputs params).RaisesFirst ↔
        HardPwm.Fits freq (requestDuties device id outputs parsed))) ∧
    ∀ keep,
      (PwmFrequency.InRange (.hard regcycle regprescale) freq
          (keptDuties device id outputs keep) ↔
        HardPwm.Fits freq (keptDuties device id outputs keep)) ∧
      ((setPwmFreq device id (.hard regcycle regprescale) p outputs freq keep).RaisesFirst ↔
        HardPwm.Fits freq (keptDuties device id outputs keep)) := by
  obtain ⟨⟨cycle, prescale⟩, hdivide⟩ := accepted
  have range := parse_pwmDuty hparse
  refine ⟨⟨?_, ?_⟩, fun keep => ⟨?_, ?_⟩⟩
  · apply PwmFrequency.inRange_iff hdivide
    rw [requestDuties, List.forall_mem_append]
    refine ⟨keptDuties_range valid device _, ?_⟩
    split
    · simpa using range
    · simp
  · obtain ⟨happly, a, mem, write⟩ := apply_spec hdivide hpwm device s p valid hfreq range
    rw [set_eq device s p outputs hparse,
      SetScript.raisesFirst_iff_of_write (SetScript.mem_actions_bind mem) write, ← happly]
    by_cases success : (d.apply device s p outputs parsed).Succeeds
    · obtain ⟨_, hresult⟩ := success
      rw [SetScript.succeeds_bind hresult]
      exact ⟨fun _ => ⟨_, hresult⟩, fun _ => succeeds_setAlias device params.aliasName⟩
    · exact ⟨fun h => absurd h (SetScript.not_succeeds_bind success), fun h => absurd h success⟩
  · exact PwmFrequency.inRange_iff hdivide (keptDuties_range valid device keep) _ _
  · obtain ⟨hok, ⟨a, mem, write⟩, -⟩ :=
      setPwmFreq_spec regcycle regprescale hdivide device p valid keep
    rw [SetScript.raisesFirst_iff_of_write mem write, hok]

deriving instance DecidableEq for Parsed

/-- An output of a group with the registers 0 and 1. -/
def output (dutyReg : ℕ) : DigitalOutput :=
  { devtype := "do", circuit := "1_01", coil := some dutyReg, reg := 10, mask := 1,
    pwm := some (0, .hard 0 1), pwmDutyReg := dutyReg }

/-- An output which is off, with the duty. -/
def dutyState (duty : ℚ) (raw : ℤ) : State :=
  { value := some 0, pwmDuty := some duty, pwmDutyVal := some raw }

/-- 25 % at 100 Hz, the other output of the group keeps its 50 %. -/
theorem set_inRange_quarter :
    ((output 2).set 2 (dutyState 0 0) {} [(3, output 3, dutyState 50 100)]
      { pwmFreq := some (.int 100), pwmDuty := some (.int 25) }).RaisesFirst := by
  have hparse : (output 2).parse { pwmFreq := some (.int 100), pwmDuty := some (.int 25) } =
      .ok ⟨none, some 25, some 100⟩ := by
    decide +kernel
  have hdivide : HardPwm.divide 100 = .ok (60000, 8) := by decide +kernel
  have valid : ∀ entry ∈ [(3, output 3, dutyState 50 100)],
      entry.2.1.pwm.any (·.1 = 0) → Entry.Valid entry := by
    norm_num [Entry.Valid, dutyState]
  refine ((set_inRange_iff rfl 2 (dutyState 0 0) {} valid hparse rfl ⟨_, hdivide⟩).1.2).mpr ?_
  intro longest duty mem
  have hlongest := (HardPwm.Divides.of_divide hdivide).longest_iff.mp longest
  cases hlongest

/-- The slowest frequency without a prescale, 732.421875 Hz. -/
def longestFreq : ℚ := 46875 / 64

/-- 100 % at this frequency. -/
def fullRequest : Params :=
  { pwmFreq := some (.float (.finite longestFreq)), pwmDuty := some (.int 100) }

/-- The register of the full duty is out of range, which is found after the frequency and the coil
were written. -/
theorem not_set_inRange :
    HardPwm.divide longestFreq = .ok (65536, 1) ∧
      (output 2).parse fullRequest = .ok ⟨none, some 100, some longestFreq⟩ ∧
      ¬PwmFrequency.InRange (.hard 0 1) longestFreq
        (requestDuties 2 0 [] ⟨none, some 100, some longestFreq⟩) ∧
      ¬((output 2).set 2 { value := some 1 } {} [] fullRequest).RaisesFirst := by
  have hdivide : HardPwm.divide longestFreq = .ok (65536, 1) := by decide +kernel
  have hraw : roundHalfEven (((65536 : ℕ) : ℚ) * 100 / 100) = 65536 := by decide +kernel
  refine ⟨hdivide, by decide +kernel, fun hrange => ?_, fun hfirst => ?_⟩
  · obtain ⟨-, hword⟩ := (hrange 65536 1 hdivide).2.2 100 (by simp [requestDuties]) _ rfl
    rw [hraw] at hword
    exact absurd hword (by decide)
  · have hfails : ((output 2).set 2 { value := some 1 } {} [] fullRequest).result.toOption.isNone ∧
        ((output 2).set 2 { value := some 1 } {} [] fullRequest).actions.any Action.isWrite := by
      decide +kernel
    obtain ⟨hnone, hwrite⟩ := hfails
    obtain ⟨a, mem, write⟩ := List.any_eq_true.mp hwrite
    obtain ⟨b, hresult⟩ := (SetScript.raisesFirst_iff_of_write mem write).mp hfirst
    rw [hresult] at hnone
    cases hnone

end DigitalOutput

end Modbus

end Evok
