import Evok.Bus.SerialBuses
import Mathlib.Data.List.Nodup
import Mathlib.Data.String.Basic

/-!
# What the created buses and units use

The claims of `create_devices` against the serial ports, the units and the 1-Wire masters used by
what it creates. The master of an OWFS bus which names none is the first one found by `W1Master`
when the bus starts.

## Main definitions

* `Covers`: the claims are those of the created buses or units.
* `UsedOnce`: nothing is used by two buses or units.
* `MastersApart`: different masters in the configuration are different masters of the kernel.

## Main results

* `usedOnce_iff`: only a 1-Wire master is used twice, under two names or by the bus without a name.
-/

namespace Evok

namespace Bus

open W1 (Sysfs isMaster w1Master)

/-! ## The claims of the created buses and units -/

section Covers

variable {κ ν : Type} [DecidableEq κ]

/-- The claims are those of the created ones, each made once. -/
structure Covers (created : List κ) (claims : Dict κ ν) : Prop where
  nodup : created.Nodup
  mem : ∀ k, k ∈ created ↔ (claims.lookup k).isSome

theorem Covers.empty : Covers [] (∅ : Dict κ ν) :=
  ⟨.nil, by simp⟩

theorem Covers.claim {created : List κ} {claims : Dict κ ν} (h : Covers created claims) {k : κ}
    (free : claims.lookup k = none) (v : ν) : Covers (created ++ [k]) (claims.set k v) := by
  constructor
  · have hnew : k ∉ created := by simp [h.mem, free]
    exact List.nodup_append.mpr ⟨h.nodup, List.nodup_singleton k,
      fun a ha b hb hab => hnew (List.mem_singleton.mp hb ▸ hab ▸ ha)⟩
  · intro a
    rw [List.mem_append, List.mem_singleton, h.mem, Dict.lookup_set]
    by_cases heq : a = k <;> simp [heq]

end Covers

variable {P M : Type} [LinearOrder P]

/-- The line and the slave-id of a unit. -/
def ModbusSlave.unit (slave : ModbusSlave P) : Line P × ℕ :=
  (slave.line, slave.modbusAddress)

/-- The real path of a serial bus. -/
def BusDevice.path? : BusDevice P → Option P
  | .serialBus _ path => some path
  | .owBus .. | .tcpBus _ => none

/-- The configured master of an OWFS bus. -/
def BusDevice.master? : BusDevice P → Option (Option String)
  | .owBus _ master => some master
  | .tcpBus _ | .serialBus .. => none

/-- What is claimed is what was created. -/
structure Claims.Exact (claims : Claims P) : Prop where
  names : Covers (claims.slaves.map ModbusSlave.circuit) claims.names
  units : Covers (claims.slaves.map ModbusSlave.unit) claims.units
  serialPorts : Covers (claims.buses.filterMap BusDevice.path?) claims.serialPorts
  w1Masters : Covers (claims.buses.filterMap BusDevice.master?) claims.w1Masters

theorem Claims.Exact.claim {claims claims' : Claims P} (h : claims.Exact)
    (hclaim : Claim claims claims') : claims'.Exact := by
  cases hclaim with
  | owBus name free =>
    refine ⟨h.names, h.units, ?_, ?_⟩
    · simpa [List.filterMap_cons, BusDevice.path?] using h.serialPorts
    · simpa [List.filterMap_cons, BusDevice.master?] using h.w1Masters.claim free name
  | tcpBus name =>
    refine ⟨h.names, h.units, ?_, ?_⟩
    · simpa [List.filterMap_cons, BusDevice.path?] using h.serialPorts
    · simpa [List.filterMap_cons, BusDevice.master?] using h.w1Masters
  | serialBus name path free =>
    refine ⟨h.names, h.units, ?_, ?_⟩
    · simpa [List.filterMap_cons, BusDevice.path?] using h.serialPorts.claim free _
    · simpa [List.filterMap_cons, BusDevice.master?] using h.w1Masters
  | unit name unit _ =>
    refine ⟨?_, ?_, h.serialPorts, h.w1Masters⟩
    · simpa using h.names.claim name _
    · simpa [ModbusSlave.unit] using h.units.claim unit _

theorem exact_createDevices (realpath : String → P) (config : List (String × BusData)) :
    (createDevices realpath config).Exact :=
  createDevices_invariant ⟨.empty, .empty, .empty, .empty⟩ (fun h hclaim => h.claim hclaim)
    realpath config

/-! ## The masters of the configuration -/

/-- The master of an OWFS bus which is created unless another bus has the same one. -/
def BusData.w1Master? (data : BusData) : Option (Option String) :=
  match data.type with
  | .owfs master => if data.enabled && data.valid && master.all isMaster then some master else none
  | _ => none

theorem w1Masters_createUnits (line : Line P) (transport : Transport P) (claims : Claims P)
    (devices : List (String × DeviceData)) :
    (devices.foldl (createUnit line transport) claims).w1Masters = claims.w1Masters := by
  induction devices generalizing claims with
  | nil => rfl
  | cons device devices ih =>
    refine (ih _).trans ?_
    unfold createUnit
    dsimp only
    repeat' split
    all_goals rfl

theorem isSome_w1Masters_createBus (realpath : String → P) (claims : Claims P)
    (bus : String × BusData) (master : Option String) :
    ((createBus realpath claims bus).w1Masters.lookup master).isSome ↔
      (claims.w1Masters.lookup master).isSome ∨ bus.2.w1Master? = some master := by
  unfold createBus BusData.w1Master?
  dsimp only
  cases htype : bus.2.type with
  | owfs own =>
    dsimp only
    by_cases hcreated : (bus.2.enabled && bus.2.valid && own.all isMaster) = true
    · obtain ⟨⟨henabled, hvalid⟩, hmaster⟩ := by simpa only [Bool.and_eq_true] using hcreated
      rw [if_neg (by simp [henabled]), if_pos hcreated]
      split
      · next hused =>
        have hused : (claims.w1Masters.lookup own).isSome := by simpa [hmaster, hvalid] using hused
        by_cases hown : own = master
        · subst hown
          simp [hused]
        · simp [hown]
      · rw [Dict.lookup_set]
        by_cases hown : master = own
        · simp [hown]
        · simp [hown, Ne.symm hown]
    · rw [if_neg hcreated]
      have hskip : (!bus.2.enabled) = true ∨ (!own.all isMaster ||
          (claims.w1Masters.lookup own).isSome || !bus.2.valid) = true := by
        grind
      rcases hskip with hdisabled | hinvalid
      · rw [if_pos hdisabled]
        simp
      · rw [if_pos hinvalid, ite_self]
        simp
  | modbusTcp hostname port =>
    dsimp only
    repeat' split
    all_goals simp [w1Masters_createUnits]
  | modbusRtu port =>
    dsimp only
    repeat' split
    all_goals simp [w1Masters_createUnits]
  | unknown =>
    dsimp only
    split <;> simp

/-- The created OWFS buses have the masters of the configuration. -/
theorem mem_masters_createDevices (realpath : String → P) (config : List (String × BusData))
    (master : Option String) :
    master ∈ (createDevices realpath config).buses.filterMap BusDevice.master? ↔
      ∃ bus ∈ config, bus.2.w1Master? = some master := by
  rw [(exact_createDevices realpath config).w1Masters.mem]
  suffices ∀ claims : Claims P,
      ((config.foldl (createBus realpath) claims).w1Masters.lookup master).isSome ↔
        (claims.w1Masters.lookup master).isSome ∨
          ∃ bus ∈ config, bus.2.w1Master? = some master by
    simpa [createDevices] using this {}
  induction config with
  | nil => simp
  | cons bus config ih =>
    intro claims
    rw [List.foldl_cons, ih, isSome_w1Masters_createBus, or_assoc]
    simp

/-! ## Nothing is used twice -/

/-- The units have different circuits and places, the serial buses different ports, and the OWFS
buses never use one master; the masters of the kernel at a time are `kernel t`. -/
structure UsedOnce (realpath : String → P) (kernel : ℕ → Sysfs M)
    (config : List (String × BusData)) : Prop where
  circuits : ((createDevices realpath config).slaves.map ModbusSlave.circuit).Nodup
  units : ((createDevices realpath config).slaves.map ModbusSlave.unit).Nodup
  ports : ((createDevices realpath config).buses.filterMap BusDevice.path?).Nodup
  masters : ((createDevices realpath config).buses.filterMap BusDevice.master?).Pairwise
    fun a b => ∀ t t' m, w1Master (kernel t) a = some m → w1Master (kernel t') b ≠ some m

/-- No configured master is the first one found by a bus without a master, and no two names in the
configuration are of one master. -/
structure MastersApart (kernel : ℕ → Sysfs M) (config : List (String × BusData)) : Prop where
  first : ∀ bus ∈ config, bus.2.w1Master? = some none →
    ∀ bus' ∈ config, ∀ name, bus'.2.w1Master? = some (some name) →
    ∀ t t' m, w1Master (kernel t) none = some m → (kernel t').device name ≠ some m
  names : ∀ bus ∈ config, ∀ name, bus.2.w1Master? = some (some name) →
    ∀ bus' ∈ config, ∀ name', bus'.2.w1Master? = some (some name') → name ≠ name' →
    ∀ t t' m, (kernel t).device name = some m → (kernel t').device name' ≠ some m

/-- The masters of the kernel which two configured masters are. -/
theorem MastersApart.apart {kernel : ℕ → Sysfs M} {config : List (String × BusData)}
    (h : MastersApart kernel config) {a b : Option String}
    (ha : ∃ bus ∈ config, bus.2.w1Master? = some a) (hb : ∃ bus ∈ config, bus.2.w1Master? = some b)
    (hne : a ≠ b) (t t' : ℕ) (m : M) (hused : w1Master (kernel t) a = some m) :
    w1Master (kernel t') b ≠ some m := by
  obtain ⟨bus, hbus, hmaster⟩ := ha
  obtain ⟨bus', hbus', hmaster'⟩ := hb
  cases a with
  | none =>
    cases b with
    | none => exact absurd rfl hne
    | some name => exact h.first bus hbus hmaster bus' hbus' name hmaster' t t' m hused
  | some name =>
    cases b with
    | none =>
      exact fun hfirst => h.first bus' hbus' hmaster' bus hbus name hmaster t' t m hfirst hused
    | some name' =>
      have hnames : name ≠ name' := fun heq => hne (congrArg some heq)
      exact h.names bus hbus name hmaster bus' hbus' name' hmaster' hnames t t' m hused

/-- Nothing is used twice if and only if the configured masters are different ones. -/
theorem usedOnce_iff (realpath : String → P) (kernel : ℕ → Sysfs M)
    (config : List (String × BusData)) :
    UsedOnce realpath kernel config ↔ MastersApart kernel config := by
  have hexact := exact_createDevices realpath config
  have hmem := mem_masters_createDevices realpath config
  constructor
  · intro h
    have hapart : ∀ a b, (∃ bus ∈ config, bus.2.w1Master? = some a) →
        (∃ bus ∈ config, bus.2.w1Master? = some b) → a ≠ b →
        ∀ t t' m, w1Master (kernel t) a = some m → w1Master (kernel t') b ≠ some m := by
      intro a b ha hb hne
      have hsymm : Std.Symm fun a b : Option String =>
          ∀ t t' m, w1Master (kernel t) a = some m → w1Master (kernel t') b ≠ some m :=
        ⟨fun a b hab t t' m hb ha => hab t' t m ha hb⟩
      exact h.masters.forall ((hmem a).mpr ha) ((hmem b).mpr hb) hne
    constructor
    · intro bus hbus hmaster bus' hbus' name hmaster'
      exact hapart none (some name) ⟨bus, hbus, hmaster⟩ ⟨bus', hbus', hmaster'⟩ (by simp)
    · intro bus hbus name hmaster bus' hbus' name' hmaster' hne
      exact hapart (some name) (some name') ⟨bus, hbus, hmaster⟩ ⟨bus', hbus', hmaster'⟩
        (by simpa using hne)
  · intro h
    refine ⟨hexact.names.nodup, hexact.units.nodup, hexact.serialPorts.nodup, ?_⟩
    refine hexact.w1Masters.nodup.pairwise_of_forall_ne fun a ha b hb hne => ?_
    exact h.apart ((hmem a).mp ha) ((hmem b).mp hb) hne

/-- Two buses name the two masters, a disabled one has none. -/
theorem usedOnce_iff_named :
    UsedOnce id (fun _ => { names := ["w1_bus_master1", "w1_bus_master2"], device := some })
      [("OW1", { type := .owfs (some "w1_bus_master1") }),
        ("OW2", { type := .owfs (some "w1_bus_master2") }),
        ("OW3", { type := .owfs none, enabled := false })] := by
  refine (usedOnce_iff ..).mpr ⟨?_, ?_⟩
  · intro bus hbus hfirst
    simp only [List.mem_cons, List.not_mem_nil, or_false] at hbus
    rcases hbus with rfl | rfl | rfl <;> simp [BusData.w1Master?] at hfirst
  · intro bus _ name _ bus' _ name' _ hne t t' m hused hused'
    exact hne (Option.some.inj (hused.trans hused'.symm))

/-- One bus names the only master, the other one takes the first. -/
theorem not_usedOnce :
    ¬ UsedOnce id (fun _ => { names := ["w1_bus_master1", "28-00000925204e"], device := some })
      [("OW1", { type := .owfs none }), ("OW2", { type := .owfs (some "w1_bus_master1") })] := by
  intro h
  have hmaster : isMaster "w1_bus_master1" = true := by decide +kernel
  have hfirst := ((usedOnce_iff ..).mp h).first ("OW1", { type := .owfs none }) (by simp) rfl
    ("OW2", { type := .owfs (some "w1_bus_master1") }) (by simp) "w1_bus_master1"
    (by simp [BusData.w1Master?, hmaster]) 0 0 "w1_bus_master1"
  exact hfirst (by decide +kernel) rfl

end Bus

end Evok
