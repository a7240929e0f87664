import Evok.Modbus.Registered
import Evok.Modbus.UnitAttrs

/-!
# The units of a system

The devices of a unit are created after its first scan, at any time between the changes of aliases
and the registrations of the other modules, which may replace their own devices.

## Main definitions

* `System.Step` : a unit gets its devices, an alias changes, or another module registers a device.

## Main results

* `System.registered_run` : the registered devices over the runs from a loaded alias file.
* `System.populate_blocks` : the devices of a feature have different circuits and cells, and the same
  shared registers.
* `System.pwm_groups` : the outputs of a feature have one PWM frequency.
* `IOParser.parseFeature_ok_iff` : when a feature creates all its devices.
-/

namespace Evok

namespace Modbus

open Devices (Registry)

namespace System

variable {s s' : System}

/-! ## The steps of a system -/

inductive Action
  | populate (p : IOParser)
  | setAlias (value : Devices.AliasValue) (e : Entry)
  | remove (name : String)
  | other (object : ℕ) (d : Devices.Device)

/-- One step; another module registers a device of one of its types. -/
def Step (s : System) : Action → System → Prop
  | .populate p, s' => s' = p.populate s
  | .setAlias value e, s' =>
    s' = { s with registry := (s.registry.setAlias Entry.device value e).1 }
  | .remove name, s' => s' = { s with registry := (s.registry.remove name).1 }
  | .other object d, s' => d.devtype ∈ otherTypes ∧ s' = s.registerDevice (.other object d)

/-- A change of aliases keeps the devices. -/
theorem Inv.aliases (inv : s.Inv) {r : Registry Entry}
    (hdevices : r.devices = s.registry.devices) : { s with registry := r }.Inv where
  io := by rw [hdevices]; exact inv.io
  sequencer := by rw [hdevices]; exact inv.sequencer
  other := by rw [hdevices]; exact inv.other
  typed := inv.typed
  nodup := inv.nodup
  eventable := inv.eventable
  attached := inv.attached
  pwm := inv.pwm

/-- A device of another module does not hide the devices of the units. -/
theorem Inv.registerOther (inv : s.Inv) (object : ℕ) {d : Devices.Device}
    (hother : d.devtype ∈ otherTypes) : (s.registerDevice (.other object d)).Inv := by
  obtain ⟨hkey, hsequencer, hio⟩ := dictOf_otherTypes hother
  have hdevices : (s.registerDevice (.other object d)).registry.devices =
      s.registry.devices.set (d.devtype, d.circuit) (.other object d) :=
    registerDevice_devices (e := .other object d) hkey
  have hlookup : ∀ key, (s.registerDevice (.other object d)).registry.devices.lookup key =
      if key = (d.devtype, d.circuit) then some (.other object d)
      else s.registry.devices.lookup key := by
    intro key
    rw [hdevices, Dict.lookup_set]
  refine ⟨?_, ?_, ?_, inv.typed, inv.nodup, inv.eventable, inv.attached, inv.pwm⟩
  · intro key c e
    rw [hlookup]
    split
    · next h =>
      subst h
      constructor
      · intro h
        cases h
      · rintro ⟨h, he⟩
        have htype := (Prod.mk.inj h).1 ▸ (inv.typed c e he).type
        exact absurd htype hio
    · exact inv.io key c e
  · intro key c e
    rw [hlookup]
    split
    · next h =>
      subst h
      constructor
      · intro h
        cases h
      · rintro ⟨h, -⟩
        exact absurd (Prod.mk.inj h).1 hsequencer
    · exact inv.sequencer key c e
  · intro key n e he
    rw [hlookup] at he
    split at he
    · next h =>
      injection he with he
      injection he with hn he
      subst he
      exact ⟨h, hother⟩
    · exact inv.other key n e he

/-- An operation on the aliases keeps the devices. -/
theorem RegistryStep.devices {r r' : Registry Entry} {op : Registry.Op Entry}
    (h : RegistryStep r op r') (hop : ∀ e, op ≠ .register e) : r'.devices = r.devices := by
  have hfresh : r.Fresh Entry.device op := by
    cases op with
    | register e => exact absurd rfl (hop e)
    | _ => trivial
  exact Registry.Step.devices ⟨hfresh, h.2⟩ hop

theorem Inv.step (inv : s.Inv) {a : Action} (h : s.Step a s') :
    s'.Inv ∧ ∃ ops, Transition.Run RegistryStep s.registry ops s'.registry := by
  cases a with
  | populate p =>
    obtain rfl := h
    obtain ⟨blocks, hblocks⟩ := IOParser.populated inv p
    exact ⟨hblocks.inv, _, hblocks.run⟩
  | setAlias value e =>
    obtain rfl := h
    have hstep : RegistryStep s.registry (.setAlias value e)
        (s.registry.setAlias Entry.device value e).1 := ⟨fun _ he => (by cases he), rfl⟩
    exact ⟨inv.aliases (hstep.devices fun _ he => by cases he), _, .single hstep⟩
  | remove name =>
    obtain rfl := h
    have hstep : RegistryStep s.registry (.remove name) (s.registry.remove name).1 :=
      ⟨fun _ he => (by cases he), rfl⟩
    exact ⟨inv.aliases (hstep.devices fun _ he => by cases he), _, .single hstep⟩
  | other object d =>
    obtain ⟨hother, rfl⟩ := h
    exact ⟨inv.registerOther object hother, _,
      .single (registerDevice_step (e := .other object d) hother)⟩

theorem Inv.run (inv : s.Inv) {actions : List Action} (h : Transition.Run Step s actions s') :
    s'.Inv ∧ ∃ ops, Transition.Run RegistryStep s.registry ops s'.registry := by
  induction h with
  | nil s => exact ⟨inv, [], .nil _⟩
  | cons hstep _ ih =>
    obtain ⟨hinv, ops, hops⟩ := inv.step hstep
    obtain ⟨hinv', ops', hops'⟩ := ih hinv
    exact ⟨hinv', ops ++ ops', hops.append hops'⟩

theorem Inv.load {file : Option Devices.AliasFile} {r₀ : Registry Entry}
    (hload : Devices.loadAliases file = some r₀) : ({ registry := r₀ } : System).Inv := by
  obtain ⟨records, rfl⟩ := Registry.loadAliases_eq hload
  refine ⟨?_, ?_, ?_, ?_, ?_, ?_, ?_, ?_⟩ <;> simp [Registry.ofRecords]

/-! ## No device is replaced -/

/-- A device of a unit stays registered, only the types of the other modules are registered again. -/
theorem lookup_step {r r' : Registry Entry} {op : Registry.Op Entry} (h : RegistryStep r op r')
    {key : String × String} (hunit : key.1 ∉ otherTypes) {e : Entry}
    (he : r.devices.lookup key = some e) : r'.devices.lookup key = some e := by
  cases op with
  | register d =>
    obtain ⟨hregisters, rfl⟩ := h
    cases hkey : Devices.dictOf d.device.devtype with
    | none => simpa [Registry.exec, Registry.registerDevice, hkey] using he
    | some devtype =>
      have hne : key ≠ (devtype, d.device.circuit) := by
        rintro rfl
        have hd := hregisters d rfl
        have hmem := AList.lookup_isSome.mp (Option.isSome_of_eq_some he)
        cases d with
        | other object d =>
          obtain rfl := Option.some.inj (hkey.symm.trans (dictOf_otherTypes hd).1)
          exact hunit hd
        | io c d => exact hd devtype hkey hmem
        | sequencer c d => exact hd devtype hkey hmem
      rw [Registry.exec, Registry.registerDevice_devices hkey, Dict.lookup_set_ne _ hne]
      exact he
  | setAlias value d =>
    rw [h.devices fun d hd => by cases hd]
    exact he
  | remove name =>
    rw [h.devices fun d hd => by cases hd]
    exact he

theorem lookup_run {r r' : Registry Entry} {ops : List (Registry.Op Entry)}
    (h : Transition.Run RegistryStep r ops r') {key : String × String} (hunit : key.1 ∉ otherTypes)
    {e : Entry} (he : r.devices.lookup key = some e) : r'.devices.lookup key = some e := by
  induction h with
  | nil r => exact he
  | cons hstep _ ih => exact ih (lookup_step hstep hunit he)

/-- A registered device is found by its type and circuit. -/
theorem byName_of_lookup {r : Registry Entry} {devtype circuit : String} {e : Entry}
    (hkey : Devices.dictOf devtype = some devtype)
    (he : r.devices.lookup (devtype, circuit) = some e) :
    r.byName Entry.device devtype circuit = .ok e := by
  obtain ⟨hname, hmem⟩ := Devices.getD_altnames hkey
  unfold Registry.byName
  rw [hname]
  simp [hmem, he]

/-- The registered devices over the runs from a loaded alias file. The registry does a run of its
own operations, in which the devices of the units and the sequencer devices are registered under free
circuits; another module registers a device of its types, also instead of one of them. The devices of
the units and the sequencer devices of their outputs are found by their types and circuits, and stay
so; there is no other sequencer device. The devices which check new data are the eventable ones. -/
theorem registered_run {file : Option Devices.AliasFile} {r₀ : Registry Entry}
    (hload : Devices.loadAliases file = some r₀)
    {actions : List Action} (run : Transition.Run Step { registry := r₀ } actions s) :
    (∃ ops, Transition.Run RegistryStep r₀ ops s.registry) ∧
    (∀ c, ∀ d ∈ s.devices c,
      s.registry.byName Entry.device d.devtype d.circuit = .ok (.io c d) ∧
      (d.isOutput = true →
        s.registry.byName Entry.device "sequencer" d.sequencerCircuit = .ok (.sequencer c d))) ∧
    (∀ circuit e, s.registry.devices.lookup ("sequencer", circuit) = some e →
      ∃ c d, e = .sequencer c d ∧ (c, d) ∈ s.attached ∧ d ∈ s.devices c ∧ d.isOutput = true) ∧
    (∀ c, (s.devices c).Nodup ∧ s.eventableDevices c = (s.devices c).filter Device.checks) ∧
    ∀ actions' t, Transition.Run Step s actions' t → ∀ key e, key.1 ∉ otherTypes →
      s.registry.devices.lookup key = some e → t.registry.devices.lookup key = some e := by
  obtain ⟨inv, hops⟩ := (Inv.load hload).run run
  refine ⟨hops, fun c d hd => ⟨?_, fun houtput => ?_⟩, fun circuit e he => ?_,
    fun c => ⟨inv.nodup c, inv.eventable c⟩, fun actions' t hrun key e hunit he => ?_⟩
  · exact byName_of_lookup (dictOf_ioTypes (inv.typed c d hd).type).1
      ((inv.io _ c d).mpr ⟨rfl, hd⟩)
  · exact byName_of_lookup (by decide) ((inv.sequencer _ c d).mpr ⟨rfl, hd, houtput⟩)
  · cases e with
    | io c d =>
      obtain ⟨hkey, hd⟩ := (inv.io _ c d).mp he
      exact absurd (Prod.mk.inj hkey).1.symm (dictOf_ioTypes (inv.typed c d hd).type).2
    | sequencer c d =>
      obtain ⟨-, hd, houtput⟩ := (inv.sequencer _ c d).mp he
      exact ⟨c, d, rfl, (inv.attached c d).mpr ⟨hd, houtput⟩, hd, houtput⟩
    | other n d =>
      obtain ⟨hkey, hother⟩ := inv.other _ n d he
      exact absurd (Prod.mk.inj hkey).1.symm (dictOf_otherTypes hother).2.1
  · obtain ⟨-, ops, hrun'⟩ := inv.run hrun
    exact lookup_run hrun' hunit he

theorem loadAliases_none : Devices.loadAliases none = some ({} : Registry Entry) := rfl

/-- A unit of two relays, its second feature has the circuit of the first relay again. -/
def relayUnit : IOParser where
  client := 0
  circuit := "1"
  hwFeatures :=
    [{ type := some "RO", count := 2, valReg := some 0, valCoil := some 0 },
      { type := some "RO", count := 1, valReg := some 1 }]

/-- The second relay of the unit. -/
def secondRelay : Device :=
  .binaryOutput { devtype := "ro", circuit := "1_02", coil := some 1, reg := 0, mask := 2 }

/-- The model of a unit. -/
def model : Devices.Device where
  devtype := "device_info"
  circuit := "L203"

/-- A second unit of the model replaces the first one in the list of the models. -/
theorem registered_run_relays : ∃ actions s, Transition.Run Step {} actions s ∧
    .populate relayUnit ∈ actions ∧ .other 0 model ∈ actions ∧ .other 1 model ∈ actions ∧
      s.registry.byName Entry.device "sequencer" "ro_1_02" = .ok (.sequencer 0 secondRelay) := by
  let populated := relayUnit.populate {}
  let first := populated.registerDevice (.other 0 model)
  let second := first.registerDevice (.other 1 model)
  have hmodel : model.devtype ∈ otherTypes := by decide
  have hrun : Transition.Run Step { registry := {} }
      [.populate relayUnit, .other 0 model, .other 1 model] second :=
    .cons (show Step _ (.populate relayUnit) populated from rfl)
      (.cons (show Step populated (.other 0 model) first from ⟨hmodel, rfl⟩)
        (.single (show Step first (.other 1 model) second from ⟨hmodel, rfl⟩)))
  have h := registered_run loadAliases_none hrun
  refine ⟨_, second, hrun, by simp, by simp, by simp, ?_⟩
  exact (h.2.1 0 secondRelay (by decide +kernel)).2 rfl

/-! ## The devices of the features -/

/-- A unit with two outputs of one PWM frequency, an output of another one, and two analog outputs. -/
def outputUnit : IOParser where
  client := 0
  circuit := "1"
  hwFeatures :=
    [{ type := some "DO", count := 2, valReg := some 0, pwmReg := some 10, pwmPsReg := some 20,
       pwmCReg := some 21 },
      { type := some "DO", count := 1, startIndex := 2, valReg := some 1, pwmReg := some 30,
        pwmPresetReg := some 40, pwmCpresReg := some 41 },
      { type := some "AO", count := 2, valReg := some 50, modeReg := some 52, ioModes := some [] }]

/-- Two outputs of a unit with the frequency of one index have the same frequency. -/
theorem Inv.shared (inv : s.Inv) (c : ℕ) :
    Attrs.Shared fun i : Fin (s.devices c).length => (s.devices c)[i] := by
  intro i j d d' id pwm pwm' hi hj hpwm hpwm'
  have hfst : (s.devices c)[i].pwm = d.pwm := congrArg Device.pwm hi
  have hsnd : (s.devices c)[j].pwm = d'.pwm := congrArg Device.pwm hj
  have hd := inv.pwm c (s.devices c)[i] (List.getElem_mem i.2) id pwm (hfst.trans hpwm)
  have hd' := inv.pwm c (s.devices c)[j] (List.getElem_mem j.2) id pwm' (hsnd.trans hpwm')
  exact Option.some.inj (hd.symm.trans hd')

/-- The PWM frequencies of a unit, in every reachable state: the outputs of a feature have one, the
ones of two features have two, and a frequency of one identity has one pair of registers. -/
theorem pwm_groups {file : Option Devices.AliasFile} {r₀ : Registry Entry}
    (hload : Devices.loadAliases file = some r₀)
    {actions : List Action} (run : Transition.Run Step { registry := r₀ } actions s) :
    (∀ c, Attrs.Shared fun i : Fin (s.devices c).length => (s.devices c)[i]) ∧
    ∀ p : IOParser, ∃ blocks : List (List Device), List.Forall₂ p.Begins p.hwFeatures blocks ∧
      (p.populate s).devices =
        Function.update s.devices p.client (s.devices p.client ++ blocks.flatten) ∧
      (∀ ds ∈ blocks, ∀ d ∈ ds, ∀ e ∈ ds, d.pwm = e.pwm) ∧
      (s.devices p.client :: blocks).Pairwise IOParser.Separate := by
  obtain ⟨inv, -⟩ := (Inv.load hload).run run
  refine ⟨inv.shared, fun p => ?_⟩
  obtain ⟨blocks, hblocks⟩ := IOParser.populated inv p
  refine ⟨blocks, hblocks.begins, hblocks.devices, fun ds hds => (hblocks.block ds hds).pwm,
    .cons (fun es hes d hd e he id pwm pwm' hpwm hpwm' => ?_) hblocks.separate⟩
  have hlt := (List.getElem?_eq_some_iff.mp (inv.pwm p.client d hd id pwm hpwm)).1
  exact absurd (hblocks.fresh es hes e he id pwm' hpwm') (Nat.not_le.mpr hlt)

theorem pwm_groups_outputs : ∃ blocks : List (List Device),
    (outputUnit.populate {}).devices 0 = blocks.flatten ∧
      (blocks.flatten.map Device.pwm) =
        [some (0, .hard 21 20), some (0, .hard 21 20), some (1, .soft 40 41), none, none] ∧
      (∀ ds ∈ blocks, ∀ d ∈ ds, ∀ e ∈ ds, d.pwm = e.pwm) ∧ blocks.Pairwise IOParser.Separate := by
  obtain ⟨-, hgroups⟩ := pwm_groups loadAliases_none (.nil _)
  obtain ⟨blocks, -, hdevices, hsame, hseparate⟩ := hgroups outputUnit
  have hflatten : (outputUnit.populate {}).devices 0 = blocks.flatten :=
    (congrFun hdevices 0).trans (by simp [outputUnit])
  refine ⟨blocks, hflatten, ?_, hsame, (List.pairwise_cons.mp hseparate).2⟩
  rw [← hflatten]
  decide +kernel

end System

/-! ## Complete features -/

namespace IOParser

variable {p : IOParser} {P : Plan} {s s' : System} {ds : List Device} {id : ℕ}

/-- The circuit of a created device was free before the feature. -/
theorem Executed.free (inv : s.Inv) (sound : P.Sound id) (h : Executed p P s s' ds) {i : ℕ}
    {d : Device} (hd : ds[i]? = some d) : (d.devtype, d.circuit) ∉ s.registry.devices := by
  intro hregistered
  have hmem := List.mem_of_getElem? hd
  have hdevices : s'.devices p.client = s.devices p.client ++ ds := by
    rw [h.devices, Function.update_self]
  -- the device registered before would be the new one
  obtain ⟨e, he⟩ := Option.isSome_iff_exists.mp (AList.lookup_isSome.mpr hregistered)
  have hunit : d.devtype ∉ otherTypes := fun hother =>
    (dictOf_otherTypes hother).2.2 (sound.typed i d (h.created i d hd)).type
  have hkept := System.lookup_run h.run hunit he
  have hnew := (h.inv.io (d.devtype, d.circuit) p.client d).mpr
    ⟨rfl, hdevices ▸ List.mem_append_right _ hmem⟩
  obtain rfl := Option.some.inj (hkept.symm.trans hnew)
  have hold := ((inv.io _ _ _).mp he).2
  have hnodup := hdevices ▸ h.inv.nodup p.client
  exact (List.nodup_append.mp hnodup).2.2 d hold d hmem rfl

/-- The circuit of the next device is registered only if it was before the feature. -/
theorem Executed.registered_before (inv : s.Inv) (sound : P.Sound id) (h : Executed p P s s' ds)
    (hlt : ds.length < P.count) {d : Device} (hd : P.create ds.length = .ok d)
    (hregistered : (d.devtype, d.circuit) ∈ s'.registry.devices) :
    (d.devtype, d.circuit) ∈ s.registry.devices := by
  have typed := sound.typed _ d hd
  obtain ⟨e, he⟩ := Option.isSome_iff_exists.mp (AList.lookup_isSome.mpr hregistered)
  cases e with
  | io c e =>
    obtain ⟨hkey, he'⟩ := (h.inv.io _ c e).mp he
    by_cases hold : e ∈ s.devices c
    · have hlookup := (inv.io _ c e).mpr ⟨rfl, hold⟩
      rw [← hkey] at hlookup
      exact AList.lookup_isSome.mp (by simp [hlookup])
    · have hnew : e ∈ ds := by
        rw [h.devices, Function.update_apply] at he'
        split at he'
        · next hc =>
          subst hc
          exact (List.mem_append.mp he').resolve_left hold
        · exact absurd he' hold
      obtain ⟨k, hk⟩ := List.mem_iff_getElem?.mp hnew
      have hlt' := (List.getElem?_eq_some_iff.mp hk).1
      have happart := sound.apart k ds.length e d (hlt'.trans hlt) hlt hlt'.ne (h.created k e hk) hd
      exact absurd (Prod.mk.inj hkey).2.symm happart.circuit
  | sequencer c e =>
    obtain ⟨hkey, -⟩ := (h.inv.sequencer _ c e).mp he
    exact absurd (Prod.mk.inj hkey).1 (dictOf_ioTypes typed.type).2
  | other n e =>
    obtain ⟨hkey, hother⟩ := h.inv.other _ n e he
    exact absurd ((Prod.mk.inj hkey).1 ▸ typed.type) (dictOf_otherTypes hother).2.2

/-- In every reachable state a feature creates all its devices exactly when each of them can be
created and has a free circuit before the feature: no two devices of it have one circuit. -/
theorem parseFeature_ok_iff {file : Option Devices.AliasFile} {r₀ : Registry Entry}
    (hload : Devices.loadAliases file = some r₀)
    {actions : List System.Action}
    (run : Transition.Run System.Step { registry := r₀ } actions s) (p : IOParser) (f : Feature) :
    (p.parseFeature f s).2 = .ok () ↔
      ∃ P, p.plan (s.frequencies p.client).length f = .ok P ∧ ∀ i < P.count, ∃ d,
        P.create i = .ok d ∧ (d.devtype, d.circuit) ∉ s.registry.devices := by
  obtain ⟨inv, -⟩ := (System.Inv.load hload).run run
  rcases parseFeature_cases inv p f with ⟨e, hplan, he⟩ | ⟨P, ds, s', hplan, hexecuted, h⟩
  · simp [he, hplan]
  have sound := plan_sound hplan
  constructor
  · intro hok
    refine ⟨P, hplan, fun i hi => ?_⟩
    rcases h with ⟨-, hcount⟩ | ⟨e, he, -⟩
    · obtain ⟨d, hd⟩ : ∃ d, ds[i]? = some d :=
        ⟨_, List.getElem?_eq_getElem (by omega)⟩
      exact ⟨d, hexecuted.created i d hd, hexecuted.free inv sound hd⟩
    · rw [he] at hok
      cases hok
  · rintro ⟨P', hplan', hall⟩
    obtain rfl := Except.ok.inj (hplan.symm.trans hplan')
    rcases h with ⟨heq, -⟩ | ⟨e, -, hlt, hlast⟩
    · rw [heq]
    · obtain ⟨d, hd, hfree⟩ := hall ds.length hlt
      exact absurd (hexecuted.registered_before inv sound hlt hd (hlast d hd)) hfree

/-- The relays of the unit are registered: a feature with their circuits raises, one with
`start_index` creates its relay. -/
theorem parseFeature_ok_iff_relays :
    (System.relayUnit.parseFeature { type := some "RO", valReg := some 1 }
      (System.relayUnit.populate {})).2 ≠ .ok () ∧
    (System.relayUnit.parseFeature { type := some "RO", valReg := some 1, startIndex := 2 }
      (System.relayUnit.populate {})).2 = .ok () := by
  have hiff := fun f : Feature => parseFeature_ok_iff System.loadAliases_none
    (.single (show System.Step { registry := {} } (.populate System.relayUnit)
      (System.relayUnit.populate {}) from rfl)) System.relayUnit f
  constructor
  · rw [ne_eq, hiff]
    rintro ⟨P, hP, hall⟩
    obtain rfl := Except.ok.inj hP
    obtain ⟨d, hd, hfree⟩ := hall 0 Nat.one_pos
    obtain rfl := Except.ok.inj hd
    exact hfree (by decide +kernel)
  · rw [hiff]
    refine ⟨_, rfl, fun i hi => ?_⟩
    obtain rfl := Nat.lt_one_iff.mp hi
    exact ⟨_, rfl, by decide +kernel⟩

end IOParser

end Modbus

end Evok
