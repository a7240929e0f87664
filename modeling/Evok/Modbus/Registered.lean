import Evok.Devices.Resolve
import Evok.Modbus.Populate

/-!
# The registered devices of the units

A device of a unit is registered under a free circuit only, and an output with its sequencer device.
The other modules register devices of their own types, also under a circuit registered before.

## Main definitions

* `System.RegistryStep` : an operation on the registry.
* `System.Creates` : a device is created.
* `System.Inv` : which devices are registered.
* `IOParser.Populated` : the devices of a unit are created feature by feature.

## Main results

* `System.Inv.create` : the invariant after a device is created.
* `IOParser.parseFeature_cases` : what a feature creates.
* `IOParser.populated` : what the features of a unit create.
-/

namespace Evok

namespace Modbus

open Devices (Registry)

/-! ## The circuits of the sequencer devices -/

theorem sequencerCircuit_inj {d e : Device} (hd : d.devtype ∈ outputTypes)
    (he : e.devtype ∈ outputTypes) (h : d.sequencerCircuit = e.sequencerCircuit) :
    d.devtype = e.devtype ∧ d.circuit = e.circuit := by
  have htext : d.devtype ++ "_" ++ d.circuit = e.devtype ++ "_" ++ e.circuit := h
  have hlist : d.devtype.toList ++ '_' :: d.circuit.toList =
      e.devtype.toList ++ '_' :: e.circuit.toList := by
    simpa using congrArg String.toList htext
  have htype : d.devtype = e.devtype := by
    generalize d.devtype = a at hd hlist
    generalize e.devtype = b at he hlist
    simp only [outputTypes, List.mem_cons, List.not_mem_nil, or_false] at hd he
    rcases hd with rfl | rfl | rfl <;> rcases he with rfl | rfl | rfl <;> simp at hlist ⊢
  refine ⟨htype, String.toList_inj.mp ?_⟩
  rw [htype] at hlist
  exact (List.cons.inj (List.append_cancel_left hlist)).2

theorem dictOf_ioTypes {devtype : String} (h : devtype ∈ ioTypes) :
    Devices.dictOf devtype = some devtype ∧ devtype ≠ "sequencer" := by
  have hall : ∀ devtype ∈ ioTypes,
      Devices.dictOf devtype = some devtype ∧ devtype ≠ "sequencer" := by
    decide
  exact hall devtype h

/-- The types of the devices of the other modules. -/
def otherTypes : List String :=
  ["run", "owbus", "sensor", "tcp_bus", "serial_bus", "device_info", "modbus_slave"]

theorem dictOf_otherTypes {devtype : String} (h : devtype ∈ otherTypes) :
    Devices.dictOf devtype = some devtype ∧ devtype ≠ "sequencer" ∧ devtype ∉ ioTypes := by
  have hall : ∀ devtype ∈ otherTypes,
      Devices.dictOf devtype = some devtype ∧ devtype ≠ "sequencer" ∧ devtype ∉ ioTypes := by
    decide
  exact hall devtype h

/-- A device of another module has a type of these modules; the other ones have free circuits. -/
def Entry.Registers (r : Registry Entry) : Entry → Prop
  | .other _ d => d.devtype ∈ otherTypes
  | e => r.Fresh Entry.device (.register e)

theorem fresh_of_notMem {r : Registry Entry} {e : Entry}
    (hkey : Devices.dictOf e.device.devtype = some e.device.devtype)
    (fresh : (e.device.devtype, e.device.circuit) ∉ r.devices) :
    r.Fresh Entry.device (.register e) := by
  intro key hkey'
  obtain rfl := Option.some.inj (hkey.symm.trans hkey')
  exact fresh

namespace System

variable {s s' : System} {client : ℕ} {d : Device}

/-- An operation on the registry, also one which raises. -/
def RegistryStep (r : Registry Entry) (op : Registry.Op Entry) (r' : Registry Entry) : Prop :=
  (∀ e, op = .register e → e.Registers r) ∧ (r.exec Entry.device op).1 = r'

/-! ## One device -/

/-- A device is created, an output with its sequencer device. -/
def create (s : System) (client : ℕ) (d : Device) : System :=
  if d.isOutput then (s.add client d).attach client d else s.add client d

/-- A device is created under a free circuit. -/
def Creates (client : ℕ) (s : System) (d : Device) (s' : System) : Prop :=
  (d.devtype, d.circuit) ∉ s.registry.devices ∧ s' = s.create client d

/-- The registrations of a device. -/
def registrations (client : ℕ) (d : Device) : List (Registry.Op Entry) :=
  .register (.io client d) :: if d.isOutput then [.register (.sequencer client d)] else []

theorem registerDevice_step {e : Entry} (registers : e.Registers s.registry) :
    RegistryStep s.registry (.register e) (s.registerDevice e).registry := by
  refine ⟨fun e' he => ?_, rfl⟩
  injection he with he
  exact he ▸ registers

theorem registerDevice_devices {e : Entry}
    (hkey : Devices.dictOf e.device.devtype = some e.device.devtype) :
    (s.registerDevice e).registry.devices =
      s.registry.devices.set (e.device.devtype, e.device.circuit) e :=
  Registry.registerDevice_devices hkey

/-- Which devices are registered. -/
structure Inv (s : System) : Prop where
  io : ∀ key c d, s.registry.devices.lookup key = some (.io c d) ↔
    key = (d.devtype, d.circuit) ∧ d ∈ s.devices c
  sequencer : ∀ key c d, s.registry.devices.lookup key = some (.sequencer c d) ↔
    key = ("sequencer", d.sequencerCircuit) ∧ d ∈ s.devices c ∧ d.isOutput = true
  other : ∀ key n d, s.registry.devices.lookup key = some (.other n d) →
    key = (d.devtype, d.circuit) ∧ d.devtype ∈ otherTypes
  typed : ∀ c, ∀ d ∈ s.devices c, Typed d
  nodup : ∀ c, (s.devices c).Nodup
  eventable : ∀ c, s.eventableDevices c = (s.devices c).filter Device.checks
  attached : ∀ c d, (c, d) ∈ s.attached ↔ d ∈ s.devices c ∧ d.isOutput = true
  pwm : ∀ c, ∀ d ∈ s.devices c, ∀ id pwm, d.pwm = some (id, pwm) →
    (s.frequencies c)[id]? = some pwm

/-- The sequencer device of a new output has a free circuit. -/
theorem Inv.sequencer_free (inv : s.Inv) (typed : Typed d) (output : d.isOutput = true)
    (fresh : (d.devtype, d.circuit) ∉ s.registry.devices) :
    ("sequencer", d.sequencerCircuit) ∉ s.registry.devices := by
  intro hmem
  obtain ⟨e, he⟩ := Option.isSome_iff_exists.mp (AList.lookup_isSome.mpr hmem)
  cases e with
  | io c d' =>
    obtain ⟨hkey, hd'⟩ := (inv.io _ c d').mp he
    exact (dictOf_ioTypes (inv.typed c d' hd').type).2 (Prod.mk.inj hkey).1.symm
  | sequencer c d' =>
    obtain ⟨hkey, hd', houtput⟩ := (inv.sequencer _ c d').mp he
    obtain ⟨htype, hcircuit⟩ := sequencerCircuit_inj (typed.output output)
      ((inv.typed c d' hd').output houtput) (Prod.mk.inj hkey).2
    have hlookup := (inv.io _ c d').mpr ⟨rfl, hd'⟩
    rw [← htype, ← hcircuit] at hlookup
    exact fresh (AList.lookup_isSome.mp (by simp [hlookup]))
  | other n d' =>
    obtain ⟨hkey, hother⟩ := inv.other _ n d' he
    exact (dictOf_otherTypes hother).2.1 (Prod.mk.inj hkey).1.symm

/-- The registry after a device is created. -/
theorem Inv.create_registry (inv : s.Inv) (client : ℕ) (typed : Typed d)
    (fresh : (d.devtype, d.circuit) ∉ s.registry.devices) :
    Transition.Run RegistryStep s.registry (registrations client d)
        (s.create client d).registry ∧
      ∀ key, (s.create client d).registry.devices.lookup key =
        if d.isOutput = true ∧ key = ("sequencer", d.sequencerCircuit) then
          some (.sequencer client d)
        else if key = (d.devtype, d.circuit) then some (.io client d)
        else s.registry.devices.lookup key := by
  have hkey := (dictOf_ioTypes typed.type).1
  have hstep : RegistryStep s.registry _ _ :=
    registerDevice_step (e := .io client d) (fresh_of_notMem (e := .io client d) hkey fresh)
  have hdevices : (s.registerDevice (.io client d)).registry.devices =
      s.registry.devices.set (d.devtype, d.circuit) (.io client d) :=
    registerDevice_devices (e := .io client d) hkey
  have hadd : (s.add client d).registry = (s.registerDevice (.io client d)).registry := by
    unfold add
    split <;> rfl
  cases houtput : d.isOutput with
  | false =>
    simp only [registrations, create, houtput, Bool.false_eq_true, if_false, hadd, false_and]
    refine ⟨.single hstep, fun key => ?_⟩
    rw [hdevices, Dict.lookup_set]
  | true =>
    have hfree := inv.sequencer_free typed houtput fresh
    have hne : ("sequencer", d.sequencerCircuit) ≠ (d.devtype, d.circuit) :=
      fun h => (dictOf_ioTypes typed.type).2 (Prod.mk.inj h).1.symm
    have hfree' : ("sequencer", d.sequencerCircuit) ∉ (s.add client d).registry.devices := by
      rw [hadd, hdevices, ← AList.lookup_eq_none, Dict.lookup_set_ne _ hne,
        AList.lookup_eq_none]
      exact hfree
    have hkey' : Devices.dictOf "sequencer" = some "sequencer" := by decide
    have hstep' : RegistryStep (s.add client d).registry _ _ :=
      registerDevice_step (e := .sequencer client d)
        (fresh_of_notMem (e := .sequencer client d) hkey' hfree')
    have hdevices' : ((s.add client d).registerDevice (.sequencer client d)).registry.devices =
        (s.add client d).registry.devices.set ("sequencer", d.sequencerCircuit)
          (.sequencer client d) :=
      registerDevice_devices (e := .sequencer client d) hkey'
    simp only [registrations, create, houtput, if_true, true_and]
    refine ⟨.cons (hadd ▸ hstep) (.single hstep'), fun key => ?_⟩
    show ((s.add client d).registerDevice (.sequencer client d)).registry.devices.lookup key = _
    rw [hdevices', Dict.lookup_set, hadd, hdevices, Dict.lookup_set]

@[simp] theorem create_devices (s : System) (client : ℕ) (d : Device) :
    (s.create client d).devices =
      Function.update s.devices client (s.devices client ++ [d]) := by
  unfold create attach add registerDevice
  split <;> split <;> rfl

@[simp] theorem create_eventable (s : System) (client : ℕ) (d : Device) :
    (s.create client d).eventableDevices = if d.checks then
      Function.update s.eventableDevices client (s.eventableDevices client ++ [d])
      else s.eventableDevices := by
  unfold create attach add registerDevice
  split <;> split <;> rfl

@[simp] theorem create_frequencies (s : System) (client : ℕ) (d : Device) :
    (s.create client d).frequencies = s.frequencies := by
  unfold create attach add registerDevice
  split <;> split <;> rfl

@[simp] theorem create_attached (s : System) (client : ℕ) (d : Device) :
    (s.create client d).attached =
      if d.isOutput then s.attached ++ [(client, d)] else s.attached := by
  unfold create attach add registerDevice
  split <;> split <;> rfl

theorem mem_create {c : ℕ} {e : Device} : e ∈ (s.create client d).devices c ↔
    e ∈ s.devices c ∨ c = client ∧ e = d := by
  rw [create_devices, Function.update_apply]
  split
  · next h => simp [h]
  · next h => simp [h]

/-- The device created is a new one. -/
theorem Inv.notMem (inv : s.Inv) (fresh : (d.devtype, d.circuit) ∉ s.registry.devices) (c : ℕ) :
    d ∉ s.devices c := by
  intro hmem
  have hlookup := (inv.io _ c d).mpr ⟨rfl, hmem⟩
  exact fresh (AList.lookup_isSome.mp (by simp [hlookup]))

/-- The devices of the units in the registry with a new one. -/
theorem Inv.create_io (inv : s.Inv) (typed : Typed d)
    (fresh : (d.devtype, d.circuit) ∉ s.registry.devices) (key : String × String) (c : ℕ)
    (e : Device) : (s.create client d).registry.devices.lookup key = some (.io c e) ↔
      key = (e.devtype, e.circuit) ∧ e ∈ (s.create client d).devices c := by
  obtain ⟨-, hlookup⟩ := inv.create_registry client typed fresh
  have hnone := AList.lookup_eq_none.mpr fresh
  rw [hlookup, mem_create]
  split
  · next h =>
    constructor
    · intro h'
      cases h'
    · rintro ⟨rfl, he⟩
      have htyped : Typed e := by
        rcases he with he | ⟨-, rfl⟩
        · exact inv.typed c e he
        · exact typed
      exact absurd (Prod.mk.inj h.2).1 (dictOf_ioTypes htyped.type).2
  · split
    · next hkey =>
      subst hkey
      constructor
      · intro h'
        injection h' with h'
        injection h' with hc he
        exact ⟨by rw [he], .inr ⟨hc.symm, he.symm⟩⟩
      · rintro ⟨hkey, he | ⟨rfl, rfl⟩⟩
        · have := (inv.io _ c e).mpr ⟨rfl, he⟩
          rw [← hkey, hnone] at this
          cases this
        · rfl
    · next hkey =>
      rw [inv.io]
      constructor
      · rintro ⟨rfl, he⟩
        exact ⟨rfl, .inl he⟩
      · rintro ⟨rfl, he | ⟨-, rfl⟩⟩
        · exact ⟨rfl, he⟩
        · exact absurd rfl hkey

/-- The sequencer devices in the registry with a new device. -/
theorem Inv.create_sequencer (inv : s.Inv) (typed : Typed d)
    (fresh : (d.devtype, d.circuit) ∉ s.registry.devices) (key : String × String) (c : ℕ)
    (e : Device) : (s.create client d).registry.devices.lookup key = some (.sequencer c e) ↔
      key = ("sequencer", e.sequencerCircuit) ∧ e ∈ (s.create client d).devices c ∧
        e.isOutput = true := by
  obtain ⟨-, hlookup⟩ := inv.create_registry client typed fresh
  have hnone := AList.lookup_eq_none.mpr fresh
  rw [hlookup, mem_create]
  split
  · next h =>
    obtain ⟨houtput, rfl⟩ := h
    constructor
    · intro h'
      injection h' with h'
      injection h' with hc he
      subst he
      exact ⟨rfl, .inr ⟨hc.symm, rfl⟩, houtput⟩
    · rintro ⟨hkey, he | ⟨rfl, rfl⟩, he'⟩
      · -- an output with the same sequencer circuit has the circuit of the new one
        obtain ⟨htype, hcircuit⟩ := sequencerCircuit_inj ((inv.typed c e he).output he')
          (typed.output houtput) (Prod.mk.inj hkey).2.symm
        have := (inv.io _ c e).mpr ⟨rfl, he⟩
        rw [htype, hcircuit, hnone] at this
        cases this
      · rfl
  · next h =>
    split
    · next hkey =>
      subst hkey
      constructor
      · intro h'
        cases h'
      · rintro ⟨hkey, -⟩
        exact absurd (Prod.mk.inj hkey).1 (dictOf_ioTypes typed.type).2
    · rw [inv.sequencer]
      constructor
      · rintro ⟨rfl, he, he'⟩
        exact ⟨rfl, .inl he, he'⟩
      · rintro ⟨rfl, he | ⟨-, rfl⟩, he'⟩
        · exact ⟨rfl, he, he'⟩
        · exact absurd ⟨he', rfl⟩ h

theorem Inv.mem_attached_create (inv : s.Inv) (c : ℕ) (e : Device) :
    (c, e) ∈ (s.create client d).attached ↔
      e ∈ (s.create client d).devices c ∧ e.isOutput = true := by
  rw [create_attached, mem_create]
  cases houtput : d.isOutput with
  | false =>
    simp only [Bool.false_eq_true, if_false, inv.attached]
    constructor
    · rintro ⟨he, he'⟩
      exact ⟨.inl he, he'⟩
    · rintro ⟨he | ⟨-, rfl⟩, he'⟩
      · exact ⟨he, he'⟩
      · simp [houtput] at he'
  | true =>
    simp only [if_true, List.mem_append, List.mem_singleton, inv.attached, Prod.mk.injEq]
    constructor
    · rintro (⟨he, he'⟩ | ⟨rfl, rfl⟩)
      · exact ⟨.inl he, he'⟩
      · exact ⟨.inr ⟨rfl, rfl⟩, houtput⟩
    · rintro ⟨he | ⟨rfl, rfl⟩, he'⟩
      · exact .inl ⟨he, he'⟩
      · exact .inr ⟨rfl, rfl⟩

theorem Inv.create (inv : s.Inv) (typed : Typed d)
    (hpwm : ∀ id pwm, d.pwm = some (id, pwm) → (s.frequencies client)[id]? = some pwm)
    (fresh : (d.devtype, d.circuit) ∉ s.registry.devices) : (s.create client d).Inv where
  io := inv.create_io typed fresh
  sequencer := inv.create_sequencer typed fresh
  other key n e he := by
    obtain ⟨-, hlookup⟩ := inv.create_registry client typed fresh
    rw [hlookup] at he
    split at he
    · cases he
    · split at he
      · cases he
      · exact inv.other key n e he
  typed c e he := by
    rcases mem_create.mp he with he | ⟨-, rfl⟩
    · exact inv.typed c e he
    · exact typed
  nodup c := by
    rw [create_devices, Function.update_apply]
    split
    · exact List.nodup_append_comm.mp (List.nodup_cons.mpr ⟨inv.notMem fresh client,
        inv.nodup client⟩)
    · exact inv.nodup c
  eventable c := by
    rw [create_eventable, create_devices]
    cases hchecks : d.checks <;> by_cases hc : c = client <;> simp [hchecks, hc, inv.eventable]
  attached := inv.mem_attached_create
  pwm c e he id pwm hpwm' := by
    rw [create_frequencies]
    rcases mem_create.mp he with he | ⟨rfl, rfl⟩
    · exact inv.pwm c e he id pwm hpwm'
    · exact hpwm id pwm hpwm'

/-! ## The devices of a feature -/

/-- A device can be created. -/
def Fits (s : System) (client : ℕ) (d : Device) : Prop :=
  Typed d ∧ ∀ id pwm, d.pwm = some (id, pwm) → (s.frequencies client)[id]? = some pwm

/-- Several devices of a client are created. -/
theorem Inv.creates (inv : s.Inv) {ds : List Device}
    (run : Transition.Run (Creates client) s ds s') (fits : ∀ d ∈ ds, s.Fits client d) :
    s'.Inv ∧ s'.devices = Function.update s.devices client (s.devices client ++ ds) ∧
      s'.frequencies = s.frequencies ∧
      Transition.Run RegistryStep s.registry
        (ds.flatMap (registrations client)) s'.registry := by
  induction run with
  | nil s => exact ⟨inv, by simp, rfl, .nil _⟩
  | @cons s t u d ds hstep _ ih =>
    obtain ⟨fresh, rfl⟩ := hstep
    obtain ⟨typed, hpwm⟩ := fits d List.mem_cons_self
    obtain ⟨hinv, hdevices, hfrequencies, hrun⟩ := ih (inv.create typed hpwm fresh)
      fun e he => by
        unfold Fits
        rw [create_frequencies]
        exact fits e (List.mem_cons_of_mem _ he)
    refine ⟨hinv, ?_, hfrequencies.trans (s.create_frequencies client d), ?_⟩
    · rw [hdevices, create_devices]
      simp
    · rw [List.flatMap_cons]
      exact (inv.create_registry client typed fresh).1.append hrun

theorem Inv.addFrequency (inv : s.Inv) (pwm : PwmFrequency) : (s.addFrequency client pwm).Inv where
  io := inv.io
  sequencer := inv.sequencer
  other := inv.other
  typed := inv.typed
  nodup := inv.nodup
  eventable := inv.eventable
  attached := inv.attached
  pwm c d hd id pwm' hpwm := by
    have hlookup := inv.pwm c d hd id pwm' hpwm
    by_cases hc : c = client
    · subst hc
      have hlt := (List.getElem?_eq_some_iff.mp hlookup).1
      rw [System.addFrequency]
      simp only [Function.update_self]
      rw [List.getElem?_append_left hlt]
      exact hlookup
    · simpa [System.addFrequency, Function.update_of_ne hc] using hlookup

end System

namespace IOParser

variable {p : IOParser} {f : Feature} {s s' : System}

theorem registerAny_cases (p : IOParser) (d : Device) (s : System) :
    ((d.devtype, d.circuit) ∈ s.registry.devices ∧ ∃ e, p.registerAny d s = (s, .error e)) ∨
      (d.devtype, d.circuit) ∉ s.registry.devices ∧
        p.registerAny d s = (s.create p.client d, .ok ()) := by
  unfold registerAny registerOutput register System.create
  by_cases hmem : (d.devtype, d.circuit) ∈ s.registry.devices
  · refine .inl ⟨hmem, ?_⟩
    simp only [hmem, if_true]
    split <;> exact ⟨_, rfl⟩
  · refine .inr ⟨hmem, ?_⟩
    simp only [hmem, if_false]
    split <;> rfl

/-- The first IO which cannot be created, or whose circuit is registered, ends the feature. -/
theorem createEach_cases (p : IOParser) (create : ℕ → Except FeatureError Device) (is : List ℕ)
    (s : System) : ∃ ds s', Transition.Run (System.Creates p.client) s ds s' ∧
      ((createEach create p.registerAny is s = (s', .ok ()) ∧
          List.Forall₂ (fun i d => create i = .ok d) is ds) ∨
        ∃ e js i rest, createEach create p.registerAny is s = (s', .error e) ∧
          is = js ++ i :: rest ∧ List.Forall₂ (fun i d => create i = .ok d) js ds ∧
          ∀ d, create i = .ok d → (d.devtype, d.circuit) ∈ s'.registry.devices) := by
  induction is generalizing s with
  | nil => exact ⟨[], s, .nil s, .inl ⟨rfl, .nil⟩⟩
  | cons i is ih =>
    rw [createEach]
    cases hcreate : create i with
    | error e =>
      refine ⟨[], s, .nil s, .inr ⟨e, [], i, is, rfl, rfl, .nil, fun d hd => ?_⟩⟩
      rw [hcreate] at hd
      cases hd
    | ok d =>
      dsimp only
      rcases p.registerAny_cases d s with ⟨hmem, e, he⟩ | ⟨fresh, hok⟩
      · rw [he]
        refine ⟨[], s, .nil s, .inr ⟨e, [], i, is, rfl, rfl, .nil, fun d' hd' => ?_⟩⟩
        obtain rfl := Except.ok.inj (hcreate.symm.trans hd')
        exact hmem
      · rw [hok]
        obtain ⟨ds, s', hrun, h⟩ := ih (s.create p.client d)
        refine ⟨d :: ds, s', .cons ⟨fresh, rfl⟩ hrun, ?_⟩
        rcases h with ⟨heq, hall⟩ | ⟨e, js, j, rest, heq, rfl, hall, hlast⟩
        · exact .inl ⟨heq, .cons hcreate hall⟩
        · exact .inr ⟨e, i :: js, j, rest, heq, rfl, .cons hcreate hall, hlast⟩

/-- What a feature does: it creates devices of its plan, up to an error. -/
structure Executed (p : IOParser) (P : Plan) (s s' : System) (ds : List Device) : Prop where
  inv : s'.Inv
  devices : s'.devices = Function.update s.devices p.client (s.devices p.client ++ ds)
  frequencies : s'.frequencies =
    Function.update s.frequencies p.client (s.frequencies p.client ++ P.frequency.toList)
  run : Transition.Run System.RegistryStep s.registry
    (ds.flatMap (System.registrations p.client)) s'.registry
  count : ds.length ≤ P.count
  created : ∀ k d, ds[k]? = some d → P.create k = .ok d

theorem getElem?_of_forall₂ {create : ℕ → Except FeatureError Device} {n : ℕ} {ds : List Device}
    (h : List.Forall₂ (fun i d => create i = .ok d) (List.range n) ds) :
    ds.length = n ∧ ∀ k d, ds[k]? = some d → create k = .ok d := by
  have hlength : n = ds.length := by simpa using h.length_eq
  refine ⟨hlength.symm, fun k d hk => ?_⟩
  obtain ⟨hlt, hget⟩ := List.getElem?_eq_some_iff.mp hk
  have := h.get (i := k) (by simpa using hlength ▸ hlt) hlt
  simpa [hget] using this

theorem range_eq_append_cons {n i : ℕ} {js rest : List ℕ} (h : List.range n = js ++ i :: rest) :
    js = List.range js.length ∧ i = js.length := by
  have hlength : js.length < n := by
    have := congrArg List.length h
    rw [List.length_range, List.length_append, List.length_cons] at this
    omega
  constructor
  · have htake := congrArg (List.take js.length) h
    rw [List.take_left, List.take_range, Nat.min_eq_left hlength.le] at htake
    exact htake.symm
  · have hget : (List.range n)[js.length]? = some js.length := by simp [hlength]
    rw [h] at hget
    simpa using hget

/-- A new frequency of the client has the next index. -/
theorem elim_addFrequency (s : System) (client : ℕ) (frequency : Option PwmFrequency) :
    frequency.elim s (s.addFrequency client) =
      { s with
        frequencies := Function.update s.frequencies client
          (s.frequencies client ++ frequency.toList) } := by
  cases frequency <;> simp [System.addFrequency]

/-- A feature creates the devices of its plan up to the first one which raises or whose circuit is
registered. -/
theorem execute_cases (inv : s.Inv) {P : Plan}
    (sound : P.Sound (s.frequencies p.client).length) :
    ∃ ds s', Executed p P s s' ds ∧
      ((p.execute P s = (s', .ok ()) ∧ ds.length = P.count) ∨
        ∃ e, p.execute P s = (s', .error e) ∧ ds.length < P.count ∧
          ∀ d, P.create ds.length = .ok d → (d.devtype, d.circuit) ∈ s'.registry.devices) := by
  obtain ⟨s₁, hs₁⟩ : ∃ s₁, s₁ = P.frequency.elim s (s.addFrequency p.client) := ⟨_, rfl⟩
  have heq := hs₁.trans (elim_addFrequency s p.client P.frequency)
  have hinv : s₁.Inv := by
    rw [hs₁]
    cases P.frequency with
    | none => exact inv
    | some pwm => exact inv.addFrequency pwm
  obtain ⟨ds, s', hrun, h⟩ := p.createEach_cases P.create (List.range P.count) s₁
  have hcreated : ds.length ≤ P.count ∧ ∀ k d, ds[k]? = some d → P.create k = .ok d := by
    rcases h with ⟨-, hall⟩ | ⟨e, js, i, rest, -, hsplit, hall, -⟩
    · obtain ⟨hlength, hcreate⟩ := getElem?_of_forall₂ hall
      exact ⟨hlength.le, hcreate⟩
    · obtain ⟨hjs, -⟩ := range_eq_append_cons hsplit
      rw [hjs] at hall
      obtain ⟨hlength, hcreate⟩ := getElem?_of_forall₂ hall
      have := congrArg List.length hsplit
      simp at this
      exact ⟨by omega, hcreate⟩
  have hfits : ∀ d ∈ ds, s₁.Fits p.client d := by
    intro d hd
    obtain ⟨k, hk⟩ := List.mem_iff_getElem?.mp hd
    have hcreate := hcreated.2 k d hk
    refine ⟨sound.typed k d hcreate, fun id pwm hpwm => ?_⟩
    rw [sound.pwm k d hcreate, Option.map_eq_some_iff] at hpwm
    obtain ⟨pwm', hfrequency, hpair⟩ := hpwm
    obtain ⟨rfl, rfl⟩ := Prod.mk.inj hpair
    simp [heq, hfrequency]
  obtain ⟨hinv', hdevices, hfrequencies, hregistry⟩ := hinv.creates hrun hfits
  have hexecuted : Executed p P s s' ds :=
    ⟨hinv', by rw [hdevices, heq], by rw [hfrequencies, heq],
      by rw [heq] at hregistry; exact hregistry, hcreated.1, hcreated.2⟩
  refine ⟨ds, s', hexecuted, ?_⟩
  unfold execute
  rw [← hs₁]
  rcases h with ⟨hok, hall⟩ | ⟨e, js, i, rest, he, hsplit, hall, hlast⟩
  · exact .inl ⟨hok, (getElem?_of_forall₂ hall).1⟩
  · obtain ⟨hjs, hi⟩ := range_eq_append_cons hsplit
    have hlength := hall.length_eq
    refine .inr ⟨e, he, ?_, fun d hd => hlast d ?_⟩
    · have := congrArg List.length hsplit
      simp at this
      omega
    · rw [hi, hlength]
      exact hd

theorem parseFeature_cases (inv : s.Inv) (p : IOParser) (f : Feature) :
    (∃ e, p.plan (s.frequencies p.client).length f = .error e ∧
      p.parseFeature f s = (s, .error e)) ∨
    ∃ P ds s', p.plan (s.frequencies p.client).length f = .ok P ∧ Executed p P s s' ds ∧
      ((p.parseFeature f s = (s', .ok ()) ∧ ds.length = P.count) ∨
        ∃ e, p.parseFeature f s = (s', .error e) ∧ ds.length < P.count ∧
          ∀ d, P.create ds.length = .ok d → (d.devtype, d.circuit) ∈ s'.registry.devices) := by
  rcases p.parseFeature_eq f s with herror | ⟨P, hP, heq⟩
  · exact .inl herror
  · obtain ⟨ds, s', hexecuted, h⟩ := execute_cases inv (plan_sound hP)
    exact .inr ⟨P, ds, s', hP, hexecuted, heq ▸ h⟩

/-- The devices of a feature: of one type and one PWM frequency, with their own circuits and cells
and the same shared registers. -/
structure Block (ds : List Device) : Prop where
  devtype : ∀ d ∈ ds, ∀ e ∈ ds, d.devtype = e.devtype
  shared : ∀ d ∈ ds, ∀ e ∈ ds, d.shared = e.shared
  pwm : ∀ d ∈ ds, ∀ e ∈ ds, d.pwm = e.pwm
  apart : ds.Pairwise Device.Apart

theorem Executed.block {P : Plan} {ds : List Device} {id : ℕ} (h : Executed p P s s' ds)
    (sound : P.Sound id) : Block ds where
  devtype d hd e he := by
    obtain ⟨i, hi⟩ := List.mem_iff_getElem?.mp hd
    obtain ⟨j, hj⟩ := List.mem_iff_getElem?.mp he
    exact sound.devtype i j d e (h.created i d hi) (h.created j e hj)
  shared d hd e he := by
    obtain ⟨i, hi⟩ := List.mem_iff_getElem?.mp hd
    obtain ⟨j, hj⟩ := List.mem_iff_getElem?.mp he
    exact sound.shared i j d e (h.created i d hi) (h.created j e hj)
  pwm d hd e he := by
    obtain ⟨i, hi⟩ := List.mem_iff_getElem?.mp hd
    obtain ⟨j, hj⟩ := List.mem_iff_getElem?.mp he
    exact (sound.pwm i d (h.created i d hi)).trans (sound.pwm j e (h.created j e hj)).symm
  apart := by
    rw [List.pairwise_iff_getElem]
    intro i j hi hj hlt
    exact sound.apart i j _ _ (hi.trans_le h.count) (hj.trans_le h.count) hlt.ne
      (h.created i _ (List.getElem?_eq_getElem hi)) (h.created j _ (List.getElem?_eq_getElem hj))

/-- Two features have different PWM frequencies. -/
def Separate (ds es : List Device) : Prop :=
  ∀ d ∈ ds, ∀ e ∈ es, ∀ id pwm pwm', d.pwm = some (id, pwm) → e.pwm ≠ some (id, pwm')

/-- The devices are the first ones of the plan of the feature. -/
def Begins (p : IOParser) (f : Feature) (ds : List Device) : Prop :=
  ds = [] ∨ ∃ id P, p.plan id f = .ok P ∧ ds.length ≤ P.count ∧
    ∀ i d, ds[i]? = some d → P.create i = .ok d

/-- The devices of a unit are created feature by feature. -/
structure Populated (p : IOParser) (fs : List Feature) (s s' : System)
    (blocks : List (List Device)) : Prop where
  inv : s'.Inv
  begins : List.Forall₂ (Begins p) fs blocks
  devices : s'.devices = Function.update s.devices p.client (s.devices p.client ++ blocks.flatten)
  run : Transition.Run System.RegistryStep s.registry
    (blocks.flatten.flatMap (System.registrations p.client)) s'.registry
  block : ∀ ds ∈ blocks, Block ds
  separate : blocks.Pairwise Separate
  /-- The frequencies are new ones. -/
  fresh : ∀ ds ∈ blocks, ∀ d ∈ ds, ∀ id pwm, d.pwm = some (id, pwm) →
    (s.frequencies p.client).length ≤ id

theorem populated_features (inv : s.Inv) (p : IOParser) (fs : List Feature) :
    ∃ blocks, Populated p fs s (fs.foldl (fun s f => (p.parseFeature f s).1) s) blocks := by
  induction fs generalizing s with
  | nil => exact ⟨[], inv, .nil, by simp, .nil _, by simp, .nil, by simp⟩
  | cons f fs ih =>
    rw [List.foldl_cons]
    rcases parseFeature_cases inv p f with ⟨e, -, he⟩ | ⟨P, ds, s', hP, hexecuted, h⟩
    · rw [he]
      obtain ⟨blocks, hinv, hbegins, hdevices, hrun, hblock, hseparate, hfresh⟩ := ih inv
      refine ⟨[] :: blocks, hinv, .cons (.inl rfl) hbegins, hdevices, hrun, ?_, ?_, ?_⟩
      · rintro ds (_ | ⟨_, hds⟩)
        · exact ⟨by simp, by simp, by simp, .nil⟩
        · exact hblock ds hds
      · exact .cons (fun es _ d hd => by cases hd) hseparate
      · rintro ds (_ | ⟨_, hds⟩) d hd
        · cases hd
        · exact hfresh ds hds d hd
    · have hfst : (p.parseFeature f s).1 = s' := by
        rcases h with ⟨heq, -⟩ | ⟨e, heq, -⟩ <;> rw [heq]
      rw [hfst]
      have sound := plan_sound hP
      obtain ⟨blocks, hinv, hbegins, hdevices, hrun, hblock, hseparate, hfresh⟩ :=
        ih hexecuted.inv
      have hlen : (s'.frequencies p.client).length =
          (s.frequencies p.client).length + P.frequency.toList.length := by
        rw [hexecuted.frequencies, Function.update_self, List.length_append]
      -- the frequency of the feature has the next index
      have hid : ∀ d ∈ ds, ∀ id pwm, d.pwm = some (id, pwm) →
          id = (s.frequencies p.client).length ∧ P.frequency = some pwm := by
        intro d hd id pwm hpwm
        obtain ⟨k, hk⟩ := List.mem_iff_getElem?.mp hd
        rw [sound.pwm k d (hexecuted.created k d hk), Option.map_eq_some_iff] at hpwm
        obtain ⟨pwm', hfrequency, hpair⟩ := hpwm
        obtain ⟨rfl, rfl⟩ := Prod.mk.inj hpair
        exact ⟨rfl, hfrequency⟩
      refine ⟨ds :: blocks, hinv,
        .cons (.inr ⟨_, P, hP, hexecuted.count, hexecuted.created⟩) hbegins, ?_, ?_, ?_, ?_, ?_⟩
      · rw [hdevices, hexecuted.devices]
        simp
      · rw [List.flatten_cons, List.flatMap_append]
        exact hexecuted.run.append hrun
      · rintro ds' (_ | ⟨_, hds⟩)
        · exact hexecuted.block sound
        · exact hblock ds' hds
      · refine .cons (fun es hes d hd e he id pwm pwm' hpwm hpwm' => ?_) hseparate
        obtain ⟨rfl, hfrequency⟩ := hid d hd id pwm hpwm
        have := hfresh es hes e he _ pwm' hpwm'
        rw [hlen, hfrequency] at this
        simp at this
      · rintro ds' (_ | ⟨_, hds⟩) d hd id pwm hpwm
        · exact (hid d hd id pwm hpwm).1.ge
        · have := hfresh ds' hds d hd id pwm hpwm
          omega

/-- The devices of a unit after `populate`. -/
theorem populated (inv : s.Inv) (p : IOParser) :
    ∃ blocks, Populated p p.hwFeatures s (p.populate s) blocks :=
  populated_features inv p p.hwFeatures

end IOParser

end Modbus

end Evok
