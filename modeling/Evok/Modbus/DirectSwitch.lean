import Evok.Library.Run
import Evok.Modbus.Client
import Evok.Modbus.InputActions

/-!
# The DirectSwitch settings of an input

The mode, the polarity and the toggle of an input are bits of three registers, each one written by
a read-modify-write which may fail. The firmware drives the output by them at any time, also
between two writes of one change.

## Main definitions

* `Setting`: the three bits of an input, `Setting.apply` is what an action does with them.
* `Planned`: what holds before each remaining action of a change.
* `State`, `Step`: the changes of an input, action after action, and its reads.

## Main results

* `setting_perform`: the bits after an action on the registers.
* `planned_set`: the actions of `set()` are planned from every safe setting.
* `Inv.step`: a step keeps the invariant of a change.
* `direct_switch`: the bits and the reported modes in every run.
-/

namespace Evok

namespace Modbus

namespace DirectSwitch

open DigitalInput (ModeRegisters)

/-! ## The bits -/

/-- The bits of an input by which the firmware drives the output. -/
structure Setting where
  mode : Bool
  polarity : Bool
  toggle : Bool
  deriving DecidableEq

/-- The output does not follow two rules at once. -/
def Setting.Safe (s : Setting) : Prop :=
  ¬(s.polarity = true ∧ s.toggle = true)

instance (s : Setting) : Decidable s.Safe :=
  inferInstanceAs (Decidable ¬_)

/-- The bits of a `ds_mode`. -/
def Setting.Encodes (s : Setting) (dsMode : String) : Prop :=
  s.polarity = decide (dsMode = "Inverted") ∧ s.toggle = decide (dsMode = "Toggle")

/-- The masked bits of a word. -/
def bit (mask word : Word) : Bool :=
  word &&& mask ≠ 0

/-- The registers after an action; `current` is the register read before the write of its bit. -/
def perform (current : Word) (a : Action Unit) (memory : ℕ → Word) : ℕ → Word :=
  match a with
  | .writeBit index mask value _ =>
    Function.update memory index (if value then current ||| mask else current &&& ~~~mask)
  | .writeRegisters index values _ _ => fun r => (block (index, values) r).getD (memory r)
  | _ => memory

variable {d : DigitalInput} (regs : d.ModeRegisters)

/-- The bits of the input in the registers. -/
def setting (memory : ℕ → Word) : Setting :=
  ⟨bit d.mask (memory regs.mode), bit d.mask (memory regs.polarity),
    bit d.mask (memory regs.toggle)⟩

/-- The bits after an action. -/
def Setting.apply (a : Action Unit) (s : Setting) : Setting :=
  match a with
  | .writeBit index _ value _ =>
    ⟨if index = regs.mode then value else s.mode,
      if index = regs.polarity then value else s.polarity,
      if index = regs.toggle then value else s.toggle⟩
  | _ => s

/-- An action on the registers of the input, or beside them. -/
def Own : Action Unit → Prop
  | .writeBit _ mask _ _ => mask = d.mask
  | .writeRegisters index values _ _ =>
    ∀ r ∈ [regs.mode, regs.polarity, regs.toggle], ¬(index ≤ r ∧ r < index + values.length)
  | _ => True

/-- A written bit has its value, whatever was in the register. -/
theorem bit_write {mask : Word} (masked : mask ≠ 0) (current : Word) (value : Bool) :
    bit mask (if value then current ||| mask else current &&& ~~~mask) = value := by
  cases value with
  | false =>
    have hclear : current &&& ~~~mask &&& mask = 0 := by
      ext i hi
      simp only [BitVec.getElem_and, BitVec.getElem_not]
      cases mask[i] <;> simp
    simp [bit, hclear]
  | true =>
    have hset : (current ||| mask) &&& mask = mask := by
      ext i hi
      simp only [BitVec.getElem_and, BitVec.getElem_or]
      cases mask[i] <;> simp
    rw [if_pos rfl, bit, hset]
    exact decide_eq_true masked

theorem setting_perform (current : Word) {a : Action Unit} (own : Own regs a) (memory : ℕ → Word) :
    setting regs (perform current a memory) = (setting regs memory).apply regs a := by
  cases a with
  | writeBit index mask value pin =>
    obtain rfl : mask = d.mask := own
    have hbit : ∀ r, bit d.mask (perform current (.writeBit index d.mask value pin) memory r) =
        if index = r then value else bit d.mask (memory r) := by
      intro r
      by_cases h : index = r
      · subst h
        rw [if_pos rfl, perform, Function.update_self, bit_write regs.masked]
      · rw [if_neg h, perform, Function.update_of_ne (Ne.symm h)]
    simp only [setting, hbit, Setting.apply]
  | writeRegisters index values cache pin =>
    have hblock : ∀ r ∈ [regs.mode, regs.polarity, regs.toggle],
        perform current (.writeRegisters index values cache pin) memory r = memory r := by
      intro r hr
      have hnone : block (index, values) r = none := by
        rw [← Option.not_isSome_iff_eq_none, block_isSome]
        exact own r hr
      simp [perform, hnone]
    simp only [setting, Setting.apply, hblock regs.mode (by simp),
      hblock regs.polarity (by simp), hblock regs.toggle (by simp)]
  | _ => rfl

/-! ## The plan of a change -/

/-- The bits with the modes of the device. -/
structure View where
  setting : Setting
  dimode : DIMode.State

/-- The assigned modes. -/
def assignMode (a : Action Unit) (s : DIMode.State) : DIMode.State :=
  match a with
  | .assign _ (.dsMode dsMode) => { s with dsMode }
  | .assign _ (.mode mode) => { s with mode }
  | _ => s

def View.apply (a : Action Unit) (v : View) : View :=
  ⟨v.setting.apply regs a, assignMode a v.dimode⟩

/-- The bits and the modes are the requested ones. -/
def View.Requested (p : DigitalInput.Params) (v : View) : Prop :=
  (∀ mode, p.mode = some mode →
    v.setting.mode = decide (mode = "DirectSwitch") ∧ v.dimode.mode = mode) ∧
  ∀ dsMode, p.dsMode = some dsMode → v.setting.Encodes dsMode ∧ v.dimode.dsMode = dsMode

/-- The write which switches the mode bit on. -/
def switchOn (a : Action Unit) : Prop :=
  ∃ pin, a = .writeBit regs.mode d.mask true pin

/-- What holds before each remaining action of a change, and at its end. -/
def Planned (p : DigitalInput.Params) : List (Action Unit) → View → Prop
  | [], v => v.setting.Safe ∧ v.Requested p
  | a :: todo, v => v.setting.Safe ∧ Own regs a ∧
    (switchOn regs a → ∀ dsMode, p.dsMode = some dsMode → v.setting.Encodes dsMode) ∧
    Planned p todo (v.apply regs a)

theorem Planned.safe {p : DigitalInput.Params} {todo : List (Action Unit)} {v : View}
    (h : Planned regs p todo v) : v.setting.Safe := by
  cases todo with
  | nil => exact h.1
  | cons a todo => exact h.1

/-- An action on other registers changes nothing. -/
theorem View.apply_keeps {a : Action Unit} (v : View)
    (h : a.Keeps [regs.mode, regs.polarity, regs.toggle]) : v.apply regs a = v := by
  cases a with
  | assign device x => cases x <;> first | rfl | exact h.elim
  | writeBit => exact h.elim
  | _ => rfl

/-- The actions on other registers follow the plan when the bits are the requested ones. -/
theorem planned_keeps {p : DigitalInput.Params} {rest : List (Action Unit)} {v : View}
    (h : ∀ a ∈ rest, a.Keeps [regs.mode, regs.polarity, regs.toggle]) (safe : v.setting.Safe)
    (requested : v.Requested p) : Planned regs p rest v := by
  induction rest with
  | nil => exact ⟨safe, requested⟩
  | cons a rest ih =>
    have ha := h a List.mem_cons_self
    refine ⟨safe, ?_, ?_, ?_⟩
    · cases a with
      | writeBit => exact ha.elim
      | writeRegisters => exact ha
      | _ => trivial
    · rintro ⟨pin, rfl⟩
      exact ha.elim
    · rw [v.apply_keeps regs ha]
      exact ih fun b hb => h b (List.mem_cons_of_mem _ hb)

/-- The bits of the mode are written last. -/
theorem planned_mode {p : DigitalInput.Params} {rest : List (Action Unit)} {v : View}
    (h : ∀ a ∈ rest, a.Keeps [regs.mode, regs.polarity, regs.toggle]) (safe : v.setting.Safe)
    (encodes : ∀ dsMode, p.dsMode = some dsMode →
      v.setting.Encodes dsMode ∧ v.dimode.dsMode = dsMode) :
    Planned regs p (DIMode.modeActions d.mask regs.mode () p.mode ++ rest) v := by
  obtain ⟨hpolarity, htoggle, -⟩ := regs.distinct
  cases hmode : p.mode with
  | none =>
    refine planned_keeps regs h safe ⟨fun mode hmode' => ?_, encodes⟩
    rw [hmode] at hmode'
    cases hmode'
  | some mode =>
    have hwritten : ((v.apply regs (.writeBit regs.mode d.mask (mode = "DirectSwitch") true)).apply
        regs (.assign () (.mode mode))) =
          ⟨⟨decide (mode = "DirectSwitch"), v.setting.polarity, v.setting.toggle⟩,
            ⟨mode, v.dimode.dsMode⟩⟩ := by
      simp [View.apply, Setting.apply, assignMode, hpolarity, htoggle]
    refine ⟨safe, rfl, fun _ dsMode hdsMode => (encodes dsMode hdsMode).1, ?_⟩
    refine ⟨?_, trivial, ?_, ?_⟩
    · simpa [View.apply, Setting.apply, Setting.Safe, hpolarity, htoggle] using safe
    · rintro ⟨pin, hpin⟩
      cases hpin
    · rw [hwritten]
      refine planned_keeps regs h safe ⟨fun mode' hmode' => ?_, encodes⟩
      rw [hmode] at hmode'
      obtain rfl := Option.some.inj hmode'
      exact ⟨rfl, rfl⟩

/-- The writes of a `ds_mode` never set both bits. -/
theorem planned_set {p : DigitalInput.Params} {rest : List (Action Unit)} {v : View}
    (h : ∀ a ∈ rest, a.Keeps [regs.mode, regs.polarity, regs.toggle]) (safe : v.setting.Safe) :
    Planned regs p (DIMode.dsActions d.mask regs.polarity regs.toggle () p.dsMode ++
      DIMode.modeActions d.mask regs.mode () p.mode ++ rest) v := by
  rw [List.append_assoc]
  cases hdsMode : p.dsMode with
  | none =>
    refine planned_mode regs h safe fun dsMode hdsMode' => ?_
    rw [hdsMode] at hdsMode'
    cases hdsMode'
  | some dsMode =>
    obtain ⟨hpolarity, htoggle, hboth⟩ := regs.distinct
    have hmode : ∀ {r : ℕ} {value : Bool}, regs.mode ≠ r →
        ¬switchOn regs (.writeBit r d.mask value true) := by
      rintro r value hr ⟨pin, hpin⟩
      cases hpin
      exact hr rfl
    have hassign : ¬switchOn regs (.assign () (.dsMode dsMode)) := by
      rintro ⟨pin, hpin⟩
      cases hpin
    rw [DIMode.dsActions]
    by_cases inverted : dsMode = "Inverted"
    · -- the toggle is cleared before the polarity is set
      rw [if_pos inverted]
      refine ⟨safe, rfl, fun on => absurd on (hmode htoggle), ?_, rfl,
        fun on => absurd on (hmode hpolarity), ?_, trivial, fun on => absurd on hassign, ?_⟩
      · simp [View.apply, Setting.apply, Setting.Safe]
      · simp [View.apply, Setting.apply, Setting.Safe, hboth]
      · refine planned_mode regs h ?_ fun dsMode' hdsMode' => ?_
        · simp [View.apply, Setting.apply, Setting.Safe, hboth]
        · rw [hdsMode] at hdsMode'
          obtain rfl := Option.some.inj hdsMode'
          subst inverted
          simp [View.apply, Setting.apply, Setting.Encodes, assignMode, hboth]
    · -- the polarity is cleared before the toggle is written
      rw [if_neg inverted]
      refine ⟨safe, rfl, fun on => absurd on (hmode hpolarity), ?_, rfl,
        fun on => absurd on (hmode htoggle), ?_, trivial, fun on => absurd on hassign, ?_⟩
      · simp [View.apply, Setting.apply, Setting.Safe]
      · simp [View.apply, Setting.apply, Setting.Safe, hboth.symm]
      · refine planned_mode regs h ?_ fun dsMode' hdsMode' => ?_
        · simp [View.apply, Setting.apply, Setting.Safe, hboth.symm]
        · rw [hdsMode] at hdsMode'
          obtain rfl := Option.some.inj hdsMode'
          simp [View.apply, Setting.apply, Setting.Encodes, assignMode, hboth.symm, inverted]

/-! ## Runs -/

/-- A running `set()`: the actions done and the ones left, with its result. -/
structure Call where
  params : DigitalInput.Params
  done : List (Action Unit)
  todo : List (Action Unit)
  result : Except SetError Unit

/-- The registers of the unit and the attributes of the input. -/
structure State where
  memory : ℕ → Word
  device : DigitalInput.State := {}
  call : Option Call := none

def State.view (s : State) : View :=
  ⟨setting regs s.memory, s.device.dimode⟩

/-- The attributes after an action, `read` is the cache. -/
def assignTo (d : DigitalInput) (read : Reader) (a : Action Unit) (s : DigitalInput.State) :
    DigitalInput.State × Except CacheError Unit :=
  match a with
  | .assign _ x => (Device.assign x (.digitalInput d) s, .ok ())
  | .readCounter _ => Device.readCounter read (.digitalInput d) s
  | _ => (s, .ok ())

inductive Label
  /-- `set()` begins. -/
  | call (p : DigitalInput.Params)
  | act (a : Action Unit)
  /-- An action fails, a write may have been applied. -/
  | fail (a : Action Unit) (applied : Bool)
  /-- `set()` returns or raises. -/
  | finish (p : DigitalInput.Params) (result : Except SetError Unit)
  /-- The check after a read of the unit. -/
  | check

/-- Changes of the input one after another, under the lock of the unit. -/
inductive Step (d : DigitalInput) : State → Label → State → Prop
  | call {s : State} (p : DigitalInput.Params) (free : s.call = none) :
    Step d s (.call p) { s with
      call := some ⟨p, [], (d.set () s.device.toAttrs p).actions,
        (d.set () s.device.toAttrs p).result⟩ }
  | act {s : State} {p : DigitalInput.Params} {done todo : List (Action Unit)} {a : Action Unit}
    {result : Except SetError Unit} (current : Word) (read : Reader)
    (running : s.call = some ⟨p, done, a :: todo, result⟩)
    (ok : (assignTo d read a s.device).2 = .ok ()) :
    Step d s (.act a) ⟨perform current a s.memory, (assignTo d read a s.device).1,
      some ⟨p, done ++ [a], todo, result⟩⟩
  | fail {s : State} {p : DigitalInput.Params} {done todo : List (Action Unit)} {a : Action Unit}
    {result : Except SetError Unit} (current : Word) (applied : Bool)
    (running : s.call = some ⟨p, done, a :: todo, result⟩) :
    Step d s (.fail a applied)
      ⟨if applied then perform current a s.memory else s.memory, s.device, none⟩
  | finish {s : State} {p : DigitalInput.Params} {done : List (Action Unit)}
    {result : Except SetError Unit} (running : s.call = some ⟨p, done, [], result⟩) :
    Step d s (.finish p result) { s with call := none }
  | check {s : State} (read : Reader) (free : s.call = none) :
    Step d s .check { s with device := (d.checkNewData read s.device).1 }

/-- The modes of the params are modes of the input. -/
def Known (d : DigitalInput) (p : DigitalInput.Params) : Prop :=
  (∀ mode, p.mode = some mode → mode ∈ d.modes) ∧
    ∀ dsMode, p.dsMode = some dsMode → dsMode ∈ d.dsModes

/-- The bits are safe, and a running change follows its plan; a change which raises has no
actions. -/
structure Inv (s : State) : Prop where
  safe : (setting regs s.memory).Safe
  planned : ∀ c, s.call = some c → c.result = .ok () →
    Known d c.params ∧ Planned regs c.params c.todo (s.view regs)
  raised : ∀ c e, s.call = some c → c.result = .error e → c.done = [] ∧ c.todo = []

/-- The attributes after an action have the assigned modes. -/
theorem dimode_assignTo (read : Reader) (a : Action Unit) (s : DigitalInput.State) :
    (assignTo d read a s).1.dimode = assignMode a s.dimode := by
  cases a with
  | assign device x => cases x <;> rfl
  | readCounter device =>
    simp only [assignTo, Device.readCounter, assignMode]
    split <;> rfl
  | _ => rfl

/-- A started change follows its plan. -/
theorem Inv.call {s : State} (inv : Inv regs s) (p : DigitalInput.Params) :
    Inv regs { s with
      call := some ⟨p, [], (d.set () s.device.toAttrs p).actions,
        (d.set () s.device.toAttrs p).result⟩ } := by
  cases hparse : d.parse s.device.toAttrs p with
  | error e =>
    rw [d.set_error () hparse]
    refine ⟨inv.safe, ?_, ?_⟩
    · rintro c hc hresult
      obtain rfl := Option.some.inj hc
      cases hresult
    · rintro c e hc -
      obtain rfl := Option.some.inj hc
      exact ⟨rfl, rfl⟩
  | ok values =>
    obtain ⟨rest, hset, hrest⟩ := DigitalInput.set_ok regs () hparse
    rw [hset]
    refine ⟨inv.safe, ?_, ?_⟩
    · rintro c hc -
      obtain rfl := Option.some.inj hc
      exact ⟨DIMode.check_ok (d.parse_ok hparse).1, planned_set regs hrest inv.safe⟩
    · rintro c e hc hresult
      obtain rfl := Option.some.inj hc
      cases hresult

/-- An action of a running change, by its plan. -/
theorem Inv.next {s : State} (inv : Inv regs s) {p : DigitalInput.Params}
    {done todo : List (Action Unit)} {a : Action Unit} {result : Except SetError Unit}
    (running : s.call = some ⟨p, done, a :: todo, result⟩) :
    result = .ok () ∧ Known d p ∧ Planned regs p (a :: todo) (s.view regs) := by
  cases result with
  | ok _ => exact ⟨rfl, inv.planned _ running rfl⟩
  | error e =>
    obtain ⟨-, hnil⟩ := inv.raised _ e running rfl
    cases hnil

theorem Inv.step {s t : State} {label : Label} (inv : Inv regs s) (h : Step d s label t) :
    Inv regs t := by
  cases h with
  | call p free => exact inv.call regs p
  | @act p done todo a result current read running ok =>
    obtain ⟨rfl, known, -, own, -, hplanned⟩ := inv.next regs running
    have hview : View.apply regs a (s.view regs) =
        ⟨setting regs (perform current a s.memory), (assignTo d read a s.device).1.dimode⟩ := by
      rw [setting_perform regs current own, dimode_assignTo]
      rfl
    rw [hview] at hplanned
    refine ⟨hplanned.safe, ?_, ?_⟩
    · rintro c hc -
      obtain rfl := Option.some.inj hc
      exact ⟨known, hplanned⟩
    · rintro c e hc hresult
      obtain rfl := Option.some.inj hc
      cases hresult
  | @fail p done todo a result current applied running =>
    obtain ⟨-, -, -, own, -, hplanned⟩ := inv.next regs running
    refine ⟨?_, fun c hc => (nomatch hc), fun c e hc => (nomatch hc)⟩
    cases applied with
    | false => exact inv.safe
    | true =>
      have hsafe := hplanned.safe
      rw [if_pos rfl, setting_perform regs current own]
      exact hsafe
  | finish running => exact ⟨inv.safe, fun c hc => (nomatch hc), fun c e hc => (nomatch hc)⟩
  | check read free =>
    refine ⟨inv.safe, ?_, ?_⟩
    · intro c hc
      rw [free] at hc
      cases hc
    · intro c e hc
      rw [free] at hc
      cases hc

/-! ## The reported modes -/

/-- A successful read of the three registers: the cache has the bits of the unit. -/
def Shows (memory : ℕ → Word) (read : Reader) : Prop :=
  ∀ r ∈ [regs.mode, regs.polarity, regs.toggle],
    ∃ word, read r 1 false = .ok [word] ∧ bit d.mask word = bit d.mask (memory r)

theorem readFlag_bit {read : Reader} {mask word : Word} {r : ℕ} (h : read r 1 false = .ok [word]) :
    DIMode.readFlag (.ofRegister (.bit mask) (some r)) read = .ok (bit mask word) := by
  have hraw : (Accessor.ofRegister (.bit mask) (some r)).readRaw read =
      .ok (some (.finite (if word &&& mask = 0 then 0 else 1))) := by
    simp [Accessor.readRaw, Accessor.ofRegister, DataType.count, h, DataType.decode]
  have hread : (Accessor.ofRegister (.bit mask) (some r)).read read =
      .ok (some (.finite (if word &&& mask = 0 then 0 else 1))) := by
    rw [Accessor.read, hraw]
    simp [Accessor.ofRegister, Accessor.round]
  rw [DIMode.readFlag, Accessor.readInt, hread]
  by_cases clear : word &&& mask = 0
  · rw [if_pos clear]
    simp [bit, clear]
  · have hset : bit mask word = true := decide_eq_true clear
    rw [if_neg clear, hset]
    simp

/-- The flags of a read of the registers. -/
theorem update_eq {memory : ℕ → Word} {read : Reader} (shows : Shows regs memory read) :
    DIMode.readFlag d.dimode.accessorMode read = .ok (setting regs memory).mode ∧
      DIMode.readFlag d.dimode.accessorPolarity read = .ok (setting regs memory).polarity ∧
      DIMode.readFlag d.dimode.accessorToggle read = .ok (setting regs memory).toggle := by
  obtain ⟨word, hword, hbit⟩ := shows regs.mode (by simp)
  obtain ⟨word', hword', hbit'⟩ := shows regs.polarity (by simp)
  obtain ⟨word'', hword'', hbit''⟩ := shows regs.toggle (by simp)
  have haccessors : d.dimode.accessorMode = .ofRegister (.bit d.mask) (some regs.mode) ∧
      d.dimode.accessorPolarity = .ofRegister (.bit d.mask) (some regs.polarity) ∧
      d.dimode.accessorToggle = .ofRegister (.bit d.mask) (some regs.toggle) := by
    rw [← regs.regmode, ← regs.regpolarity, ← regs.regtoggle]
    exact ⟨rfl, rfl, rfl⟩
  rw [haccessors.1, haccessors.2.1, haccessors.2.2, readFlag_bit hword, readFlag_bit hword',
    readFlag_bit hword'', hbit, hbit', hbit'']
  exact ⟨rfl, rfl, rfl⟩

/-- The modes reported after a successful read are the requested ones. -/
theorem update_requested {p : DigitalInput.Params} {memory : ℕ → Word} {dimode : DIMode.State}
    {read : Reader} (shows : Shows regs memory read)
    (requested : View.Requested p ⟨setting regs memory, dimode⟩) (known : Known d p) :
    (∃ changed, (d.dimode.update read dimode).2 = .ok changed) ∧
      (∀ mode, p.mode = some mode → (d.dimode.update read dimode).1.mode = mode) ∧
      ∀ dsMode, p.dsMode = some dsMode →
        (d.dimode.update read dimode).1.mode = "DirectSwitch" →
          (d.dimode.update read dimode).1.dsMode = dsMode := by
  obtain ⟨hmode, hpolarity, htoggle⟩ := update_eq regs shows
  obtain ⟨hrequested, hdsRequested⟩ := requested
  unfold DIMode.update
  by_cases direct : d.dimode.hasDirectSwitch
  · rw [if_pos direct, hmode]
    cases hbit : (setting regs memory).mode with
    | false =>
      refine ⟨⟨_, rfl⟩, fun mode hp => ?_, fun dsMode _ hreported => ?_⟩
      rotate_left
      · change "Simple" = "DirectSwitch" at hreported
        exact absurd hreported (by decide)
      have hoff := (hrequested mode hp).1
      rw [hbit] at hoff
      rcases regs.modes mode (known.1 mode hp) with rfl | rfl
      · rfl
      · exact absurd hoff (by decide)
    | true =>
      have hdsMode : ∃ reported, d.dimode.readDsMode read = .ok reported ∧
          ∀ dsMode, p.dsMode = some dsMode → reported = dsMode := by
        unfold DIMode.readDsMode
        rw [hpolarity, htoggle]
        cases hp : (setting regs memory).polarity with
        | true =>
          refine ⟨"Inverted", rfl, fun dsMode hdsMode => ?_⟩
          have hencodes := (hdsRequested dsMode hdsMode).1.1
          rw [hp] at hencodes
          exact (of_decide_eq_true hencodes.symm).symm
        | false =>
          cases ht : (setting regs memory).toggle with
          | true =>
            refine ⟨"Toggle", rfl, fun dsMode hdsMode => ?_⟩
            have hencodes := (hdsRequested dsMode hdsMode).1.2
            rw [ht] at hencodes
            exact (of_decide_eq_true hencodes.symm).symm
          | false =>
            refine ⟨"Simple", rfl, fun dsMode hdsMode => ?_⟩
            obtain ⟨hencodes, hencodes'⟩ := (hdsRequested dsMode hdsMode).1
            rw [hp] at hencodes
            rw [ht] at hencodes'
            rcases regs.dsModes dsMode (known.2 dsMode hdsMode) with rfl | rfl | rfl
            · rfl
            · exact absurd hencodes (by decide)
            · exact absurd hencodes' (by decide)
      obtain ⟨reported, hreported, hds⟩ := hdsMode
      rw [hreported]
      refine ⟨⟨_, rfl⟩, fun mode hp => ?_, fun dsMode hp _ => hds dsMode hp⟩
      have hon := (hrequested mode hp).1
      rw [hbit] at hon
      exact (of_decide_eq_true hon.symm).symm
  · rw [if_neg direct]
    exact ⟨⟨_, rfl⟩, fun mode hp => (hrequested mode hp).2,
      fun dsMode hp _ => (hdsRequested dsMode hp).2⟩

/-! ## The settings of every run -/

/-- The bits of an input in every run of its changes from a safe setting: they are never both set,
they are the requested ones when the mode is switched on, a change which raises has done nothing,
and after a successful one a read reports the requested modes. -/
theorem direct_switch {s₀ s : State} {labels : List Label} (free : s₀.call = none)
    (start : (setting regs s₀.memory).Safe) (run : Transition.Run (Step d) s₀ labels s) :
    (setting regs s.memory).Safe ∧ ∀ label t, Step d s label t →
      (∀ c mode dsMode pin, s.call = some c → c.params.mode = some mode →
        c.params.dsMode = some dsMode →
        (label = .act (.writeBit regs.mode d.mask true pin) ∨
          label = .fail (.writeBit regs.mode d.mask true pin) true) →
        (setting regs s.memory).Encodes dsMode) ∧
      (∀ p e, label = .finish p (.error e) → ∃ c, s.call = some c ∧ c.done = []) ∧
      ∀ p, label = .finish p (.ok ()) → ∀ read, Shows regs t.memory read →
        (∃ changed, (d.dimode.update read t.device.dimode).2 = .ok changed) ∧
        (∀ mode, p.mode = some mode → (d.dimode.update read t.device.dimode).1.mode = mode) ∧
        ∀ dsMode, p.dsMode = some dsMode →
          (d.dimode.update read t.device.dimode).1.mode = "DirectSwitch" →
            (d.dimode.update read t.device.dimode).1.dsMode = dsMode := by
  have inv : Inv regs s := run.invariant (fun s label t inv h => inv.step regs h)
    ⟨start, by simp [free], by simp [free]⟩
  refine ⟨inv.safe, fun label t h => ⟨?_, ?_, ?_⟩⟩
  · rintro c mode dsMode pin hc - hdsMode (rfl | rfl)
    · cases h with
      | act current read running ok =>
        obtain ⟨-, -, -, -, hencodes, -⟩ := inv.next regs running
        rw [running] at hc
        obtain rfl := Option.some.inj hc
        exact hencodes ⟨pin, rfl⟩ dsMode hdsMode
    · cases h with
      | fail current applied running =>
        obtain ⟨-, -, -, -, hencodes, -⟩ := inv.next regs running
        rw [running] at hc
        obtain rfl := Option.some.inj hc
        exact hencodes ⟨pin, rfl⟩ dsMode hdsMode
  · rintro p e rfl
    cases h with
    | finish running => exact ⟨_, running, (inv.raised _ e running rfl).1⟩
  · rintro p rfl read shows
    cases h with
    | finish running =>
      obtain ⟨known, -, requested⟩ := inv.planned _ running rfl
      exact update_requested regs shows requested known

/-! ### An input with a failed change -/

def pushButton : DigitalInput where
  circuit := "1_02"
  reg := 0
  mask := 2
  regmode := some 16
  regtoggle := some 18
  regpolarity := some 17
  modes := ["Simple", "DirectSwitch"]
  dsModes := ["Toggle", "Simple", "Inverted"]

def pushButtonRegisters : pushButton.ModeRegisters where
  mode := 16
  polarity := 17
  toggle := 18
  regmode := rfl
  regpolarity := rfl
  regtoggle := rfl
  distinct := by decide
  masked := by decide
  apart := by decide
  modes := by decide
  dsModes := by decide

/-- A request of another `ds_mode` for an input which toggles. -/
def invert : DigitalInput.Params :=
  { mode := some "DirectSwitch", dsMode := some "Inverted" }

/-- The registers of an input which toggles. -/
def toggling : ℕ → Word := fun r => if r = 18 then 2 else 0

/-- The toggle is cleared, the write of the polarity fails and is applied. -/
theorem direct_switch_inverted :
    (setting pushButtonRegisters toggling).toggle = true ∧
      ∃ s, Transition.Run (Step pushButton) { memory := toggling }
          [.call invert, .act (.writeBit 18 2 false true), .fail (.writeBit 17 2 true true) true] s ∧
        (setting pushButtonRegisters s.memory).polarity = true ∧
        (setting pushButtonRegisters s.memory).Safe := by
  have hparse : pushButton.parse {} invert = .ok (none, none) := rfl
  obtain ⟨rest, hset, -⟩ := DigitalInput.set_ok pushButtonRegisters () hparse
  obtain ⟨todo, hset'⟩ : ∃ todo, pushButton.set () {} invert =
      ⟨.writeBit 18 2 false true :: .writeBit 17 2 true true :: todo, .ok ()⟩ := ⟨_, hset⟩
  have hcall : Step pushButton { memory := toggling } (.call invert) ⟨toggling, {}, some ⟨invert, [],
      (pushButton.set () {} invert).actions, (pushButton.set () {} invert).result⟩⟩ :=
    .call invert rfl
  rw [hset'] at hcall
  have hact : Step pushButton _ (.act (.writeBit 18 2 false true)) _ :=
    .act 2 (fun index _ _ => .error (.noCacheRegister index)) (s := ⟨toggling, {}, some ⟨invert, [],
      .writeBit 18 2 false true :: .writeBit 17 2 true true :: todo, .ok ()⟩⟩) rfl rfl
  have hrun : Transition.Run (Step pushButton) { memory := toggling }
      [.call invert, .act (.writeBit 18 2 false true), .fail (.writeBit 17 2 true true) true]
      ⟨perform 0 (.writeBit 17 2 true true) (perform 2 (.writeBit 18 2 false true) toggling), {},
        none⟩ :=
    .cons hcall (.cons hact (.single (.fail 0 true rfl)))
  refine ⟨by decide, _, hrun, by decide, ?_⟩
  exact (direct_switch pushButtonRegisters rfl (by decide) hrun).1

end DirectSwitch

end Modbus

end Evok
