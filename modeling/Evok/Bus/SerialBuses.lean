import Evok.Library.Dict
import Evok.W1.Sysfs
import Mathlib.Data.List.Sort
import Mathlib.Order.WithBot

/-!
# The serial buses of the units

`create_devices` and `link_serial_ports` of `config.py`: the units of the created buses, and the
serial buses of the ports which they serve. An error in the configuration of a bus or of a device
skips it.

## Main definitions

* `BusData`, `DeviceData`: the configuration of a bus and of its devices.
* `createDevices`: the created units with what the buses claim.
* `Claims.serialBuses`: the buses held by a unit while it restarts, after `link_serial_ports`.

## Main results

* `sorted_serialBuses`: they are in the order of their ports.
* `tcp_of_serialBuses`: only the units of TCP buses have them.
-/

namespace Evok

namespace Bus

variable {P : Type}

/-! ## The configuration -/

/-- The types of the buses; `port` of a serial bus is a path, maybe a link, an OWFS bus without a
`master` uses the first one found. -/
inductive BusType
  | owfs (master : Option String)
  | modbusTcp (hostname : String) (port : ℕ)
  | modbusRtu (port : String)
  | unknown

/-- A device of a Modbus bus: `serialPorts` is an error if it is not a list of strings, `valid` says
that its model and its slave-id are. -/
structure DeviceData where
  enabled : Bool := true
  slaveId : ℕ := 1
  serialPorts : Except Unit (List String) := .ok []
  valid : Bool := true

/-- A bus: `valid` says that its other options are, `infoValid` that its `device_info` is. -/
structure BusData where
  enabled : Bool := true
  type : BusType
  valid : Bool := true
  infoValid : Bool := true
  devices : List (String × DeviceData) := []

/-! ## The created units -/

/-- The transport of a created bus, with the real path of the port of a serial bus. -/
structure Transport (P : Type) where
  bus : String
  port : Option P
  deriving DecidableEq

/-- The line of a bus. -/
inductive Line (P : Type)
  | tcp (hostname : String) (port : ℕ)
  | rtu (path : P)
  deriving DecidableEq

/-- The client of a created unit. -/
structure Client (P : Type) where
  circuit : String
  transport : Transport P
  deriving DecidableEq

/-- A registered bus, with the port or the 1-Wire master which it uses. -/
inductive BusDevice (P : Type)
  | owBus (circuit : String) (master : Option String)
  | tcpBus (circuit : String)
  | serialBus (circuit : String) (path : P)
  deriving DecidableEq

/-- A registered unit, with the line of its bus. -/
structure ModbusSlave (P : Type) where
  circuit : String
  line : Line P
  modbusAddress : ℕ
  deriving DecidableEq

/-- `BusClaims`, with the registered buses and units and the clients of the units. -/
structure Claims (P : Type) where
  names : Dict String String := ∅
  serialPorts : Dict P (Transport P) := ∅
  units : Dict (Line P × ℕ) (String × String) := ∅
  w1Masters : Dict (Option String) String := ∅
  buses : List (BusDevice P) := []
  slaves : List (ModbusSlave P) := []
  clients : List (Client P) := []
  serialLinks : List (Client P × List String) := []

variable [LinearOrder P]

/-- A device of a Modbus bus; an error of its configuration leaves the claims. -/
def createUnit (line : Line P) (transport : Transport P) (claims : Claims P)
    (device : String × DeviceData) : Claims P :=
  let (circuit, data) := device
  if !data.enabled || (claims.names.lookup circuit).isSome || !data.valid then claims
  else
    match data.serialPorts with
    | .error _ => claims
    | .ok ports =>
      -- a unit of a serial bus holding another one could wait for it while it holds its bus
      if !ports.isEmpty && transport.port.isSome then claims
      else if (claims.units.lookup (line, data.slaveId)).isSome then claims
      else
        let client : Client P := { circuit := circuit, transport := transport }
        { claims with
          names := claims.names.set circuit transport.bus
          units := claims.units.set (line, data.slaveId) (circuit, transport.bus)
          slaves := claims.slaves ++ [⟨circuit, line, data.slaveId⟩]
          clients := claims.clients ++ [client]
          serialLinks :=
            if ports.isEmpty then claims.serialLinks else claims.serialLinks ++ [(client, ports)] }

/-- `_create_bus`; a bus whose `device_info` is an error keeps its claim of the port or master. -/
def createBus (realpath : String → P) (claims : Claims P) (bus : String × BusData) : Claims P :=
  let (name, data) := bus
  if !data.enabled then claims
  else
    match data.type with
    | .owfs master =>
      if !master.all W1.isMaster || (claims.w1Masters.lookup master).isSome || !data.valid then claims
      else
        -- the sensors of the bus claim nothing
        { claims with
          buses := claims.buses ++ [.owBus name master]
          w1Masters := claims.w1Masters.set master name }
    | .modbusTcp hostname port =>
      if !data.valid then claims
      else
        let claims := { claims with buses := claims.buses ++ [.tcpBus name] }
        if !data.infoValid then claims
        else
          data.devices.foldl
            (createUnit (.tcp hostname.toLower port) { bus := name, port := none }) claims
    | .modbusRtu port =>
      let path := realpath port
      if (claims.serialPorts.lookup path).isSome || !data.valid then claims
      else
        let transport : Transport P := { bus := name, port := some path }
        let claims := { claims with
          buses := claims.buses ++ [.serialBus name path]
          serialPorts := claims.serialPorts.set path transport }
        if !data.infoValid then claims
        else data.devices.foldl (createUnit (.rtu path) transport) claims
    | .unknown => claims

/-- `create_devices`. -/
def createDevices (realpath : String → P) (config : List (String × BusData)) : Claims P :=
  config.foldl (createBus realpath) {}

/-- The bus of a port, a port of no bus is skipped. -/
def addPort (realpath : String → P) (serialPorts : Dict P (Transport P))
    (buses : Dict P (Transport P)) (port : String) : Dict P (Transport P) :=
  let path := realpath port
  match serialPorts.lookup path with
  | some transport => buses.set path transport
  | none => buses

/-- The buses in the order of their paths. -/
def sortedBuses (buses : Dict P (Transport P)) : List (Transport P) :=
  (buses.keys.mergeSort (· ≤ ·)).filterMap fun path => buses.lookup path

/-- The serial buses of ports. -/
def busesOf (realpath : String → P) (serialPorts : Dict P (Transport P)) (ports : List String) :
    List (Transport P) :=
  sortedBuses (ports.foldl (addPort realpath serialPorts) ∅)

/-- `link_serial_ports`: `serial_buses` of the clients. -/
def Claims.serialBuses (realpath : String → P) (claims : Claims P) : Client P → List (Transport P) :=
  claims.serialLinks.foldl
    (fun buses link => Function.update buses link.1 (busesOf realpath claims.serialPorts link.2))
    fun _ => []

/-! ## What is claimed -/

/-- The claims of one bus or of one unit; `links` are its serial ports and the earlier ones. -/
inductive Claim (claims : Claims P) : Claims P → Prop
  | owBus (name : String) {master : Option String} (free : claims.w1Masters.lookup master = none) :
    Claim claims { claims with
      buses := claims.buses ++ [.owBus name master]
      w1Masters := claims.w1Masters.set master name }
  | tcpBus (name : String) :
    Claim claims { claims with buses := claims.buses ++ [.tcpBus name] }
  | serialBus (name : String) (path : P) (free : claims.serialPorts.lookup path = none) :
    Claim claims { claims with
      buses := claims.buses ++ [.serialBus name path]
      serialPorts := claims.serialPorts.set path { bus := name, port := some path } }
  | unit {client : Client P} {line : Line P} {address : ℕ}
      {serialLinks : List (Client P × List String)}
      (name : claims.names.lookup client.circuit = none)
      (unit : claims.units.lookup (line, address) = none)
      (links : ∀ link ∈ serialLinks, link ∈ claims.serialLinks ∨ link.1.transport.port = none) :
    Claim claims { claims with
      names := claims.names.set client.circuit client.transport.bus
      units := claims.units.set (line, address) (client.circuit, client.transport.bus)
      slaves := claims.slaves ++ [⟨client.circuit, line, address⟩]
      clients := claims.clients ++ [client]
      serialLinks := serialLinks }

theorem claims_createUnit (line : Line P) (transport : Transport P) (claims : Claims P)
    (device : String × DeviceData) :
    Relation.ReflTransGen Claim claims (createUnit line transport claims device) := by
  unfold createUnit
  dsimp only
  split
  · exact .refl
  · next hskip =>
    split
    · exact .refl
    · next ports _ =>
      split
      · exact .refl
      · next htcp =>
        split
        · exact .refl
        · next hunit =>
          simp only [Bool.or_eq_true, not_or, Bool.not_eq_true, Option.isSome_eq_false_iff,
            Option.isNone_iff_eq_none] at hskip hunit
          let client : Client P := ⟨device.1, transport⟩
          have hname : claims.names.lookup client.circuit = none := hskip.1.2
          refine .single (.unit hname hunit ?_)
          intro link hlink
          split at hlink
          · exact .inl hlink
          · next hports =>
            rcases List.mem_append.mp hlink with hold | hnew
            · exact .inl hold
            · obtain rfl := List.mem_singleton.mp hnew
              exact .inr (by simpa [hports] using htcp)

theorem claims_createUnits (line : Line P) (transport : Transport P) (claims : Claims P)
    (devices : List (String × DeviceData)) :
    Relation.ReflTransGen Claim claims (devices.foldl (createUnit line transport) claims) := by
  induction devices generalizing claims with
  | nil => exact .refl
  | cons device devices ih => exact (claims_createUnit line transport claims device).trans (ih _)

theorem claims_createBus (realpath : String → P) (claims : Claims P) (bus : String × BusData) :
    Relation.ReflTransGen Claim claims (createBus realpath claims bus) := by
  unfold createBus
  dsimp only
  split
  · exact .refl
  · split
    · split
      · exact .refl
      · next hfree =>
        simp only [Bool.or_eq_true, not_or, Bool.not_eq_true, Option.isSome_eq_false_iff,
          Option.isNone_iff_eq_none] at hfree
        exact .single (.owBus bus.1 hfree.1.2)
    · split
      · exact .refl
      · split
        · exact .single (.tcpBus bus.1)
        · exact .head (.tcpBus bus.1) (claims_createUnits ..)
    · split
      · exact .refl
      · next port _ hfree =>
        simp only [Bool.or_eq_true, not_or, Bool.not_eq_true, Option.isSome_eq_false_iff,
          Option.isNone_iff_eq_none] at hfree
        have hclaim := Claim.serialBus bus.1 (realpath port) hfree.1
        split
        · exact .single hclaim
        · exact .head hclaim (claims_createUnits ..)
    · exact .refl

theorem claims_createDevices (realpath : String → P) (config : List (String × BusData)) :
    Relation.ReflTransGen Claim {} (createDevices realpath config) := by
  suffices ∀ claims : Claims P,
      Relation.ReflTransGen Claim claims (config.foldl (createBus realpath) claims) from this {}
  induction config with
  | nil => exact fun _ => .refl
  | cons bus config ih => exact fun claims => (claims_createBus realpath claims bus).trans (ih _)

/-- What each claim keeps holds of the claims of a configuration. -/
theorem createDevices_invariant {Q : Claims P → Prop} (init : Q {})
    (claim : ∀ {claims claims'}, Q claims → Claim claims claims' → Q claims')
    (realpath : String → P) (config : List (String × BusData)) :
    Q (createDevices realpath config) := by
  have hclaims := claims_createDevices realpath config
  generalize createDevices realpath config = claims at hclaims
  induction hclaims with
  | refl => exact init
  | tail _ hclaim ih => exact claim ih hclaim

/-! ## The order of the serial buses -/

/-- The place of a bus in the order in which the tasks take the buses: the serial ones by their
ports, then those of TCP. -/
def Transport.rank (t : Transport P) : WithTop P :=
  t.port.elim ⊤ fun path => path

/-- The transports have the paths they are claimed by. -/
def Claimed (buses : Dict P (Transport P)) : Prop :=
  ∀ path t, buses.lookup path = some t → t.port = some path

theorem Claimed.set {buses : Dict P (Transport P)} (h : Claimed buses) {path : P}
    {transport : Transport P} (hport : transport.port = some path) :
    Claimed (buses.set path transport) := by
  intro path' t ht
  rw [Dict.lookup_set] at ht
  split at ht
  · next heq => rw [heq, ← Option.some.inj ht, hport]
  · exact h path' t ht

/-- The claimed ports have their transports, only the units of TCP buses have links. -/
structure Claims.Inv (claims : Claims P) : Prop where
  ports : Claimed claims.serialPorts
  links : ∀ link ∈ claims.serialLinks, link.1.transport.port = none

theorem Claims.Inv.claim {claims claims' : Claims P} (h : claims.Inv) (hclaim : Claim claims claims') :
    claims'.Inv := by
  cases hclaim with
  | owBus | tcpBus => exact ⟨h.ports, h.links⟩
  | serialBus name path _ => exact ⟨h.ports.set rfl, h.links⟩
  | unit _ _ links =>
    refine ⟨h.ports, fun link hlink => ?_⟩
    exact (links link hlink).elim (h.links link) id

theorem createDevices_inv (realpath : String → P) (config : List (String × BusData)) :
    (createDevices realpath config).Inv := by
  refine createDevices_invariant ?_ (fun h hclaim => h.claim hclaim) realpath config
  constructor <;> simp [Claimed]

theorem Claimed.addPorts {serialPorts : Dict P (Transport P)} (hclaims : Claimed serialPorts)
    (realpath : String → P) (ports : List String) {buses : Dict P (Transport P)}
    (h : Claimed buses) : Claimed (ports.foldl (addPort realpath serialPorts) buses) := by
  induction ports generalizing buses with
  | nil => exact h
  | cons port ports ih =>
    apply ih
    unfold addPort
    dsimp only
    split
    · next transport hclaim => exact h.set (hclaims _ _ hclaim)
    · exact h

/-- The sorted buses have rising ports. -/
theorem Claimed.sorted {buses : Dict P (Transport P)} (h : Claimed buses) :
    (sortedBuses buses).Pairwise (fun a b => a.rank < b.rank) ∧
      ∀ bus ∈ sortedBuses buses, bus.rank < ⊤ := by
  have hrank : ∀ {path : P} {t : Transport P}, buses.lookup path = some t → t.rank = path := by
    intro path t ht
    rw [Transport.rank, h path t ht, Option.elim_some]
  constructor
  · rw [sortedBuses, List.pairwise_filterMap]
    have hsorted := List.pairwise_mergeSort' (· ≤ ·) buses.keys
    have hnodup : (buses.keys.mergeSort (· ≤ ·)).Nodup :=
      (List.mergeSort_perm _ _).nodup_iff.mpr buses.keys_nodup
    refine (hsorted.and hnodup).imp fun {a b} hab t ht t' ht' => ?_
    rw [hrank ht, hrank ht', WithTop.coe_lt_coe]
    exact lt_of_le_of_ne hab.1 hab.2
  · intro bus hbus
    obtain ⟨path, -, hlookup⟩ := List.mem_filterMap.mp hbus
    rw [hrank hlookup]
    exact WithTop.coe_lt_top path

/-- What `serialBuses` gives to a client: no bus, or the buses of a link. -/
theorem serialBuses_cases (realpath : String → P) (claims : Claims P) (client : Client P) :
    claims.serialBuses realpath client = [] ∨ ∃ link ∈ claims.serialLinks, link.1 = client ∧
      claims.serialBuses realpath client = busesOf realpath claims.serialPorts link.2 := by
  unfold Claims.serialBuses
  suffices ∀ (links : List (Client P × List String)) (buses : Client P → List (Transport P)),
      (∀ link ∈ links, link ∈ claims.serialLinks) →
      (buses client = [] ∨ ∃ link ∈ claims.serialLinks, link.1 = client ∧
        buses client = busesOf realpath claims.serialPorts link.2) →
      let linked := links.foldl (fun buses link =>
        Function.update buses link.1 (busesOf realpath claims.serialPorts link.2)) buses
      linked client = [] ∨ ∃ link ∈ claims.serialLinks, link.1 = client ∧
        linked client = busesOf realpath claims.serialPorts link.2 from
    this claims.serialLinks _ (fun link h => h) (.inl rfl)
  intro links
  induction links with
  | nil => exact fun buses _ h => h
  | cons link links ih =>
    intro buses hmem hbuses
    refine ih _ (fun link h => hmem link (List.mem_cons_of_mem _ h)) ?_
    dsimp only
    by_cases heq : client = link.1
    · right
      refine ⟨link, hmem link List.mem_cons_self, heq.symm, ?_⟩
      rw [heq, Function.update_self]
    · rwa [Function.update_of_ne heq]

variable (realpath : String → P) (config : List (String × BusData)) (client : Client P)

/-- The serial buses of a unit are in the order of their ports. -/
theorem sorted_serialBuses :
    ((createDevices realpath config).serialBuses realpath client).Pairwise
      (fun a b => a.rank < b.rank) ∧
    ∀ bus ∈ (createDevices realpath config).serialBuses realpath client, bus.rank < ⊤ := by
  rcases serialBuses_cases realpath (createDevices realpath config) client with
    hnone | ⟨link, -, -, hlink⟩
  · simp [hnone]
  · rw [hlink]
    have hempty : Claimed (∅ : Dict P (Transport P)) := by
      intro path t ht
      simp at ht
    exact (Claimed.addPorts (createDevices_inv realpath config).ports realpath link.2 hempty).sorted

/-- Only the units of TCP buses have serial buses. -/
theorem tcp_of_serialBuses
    (h : (createDevices realpath config).serialBuses realpath client ≠ []) :
    client.transport.rank = ⊤ := by
  obtain ⟨link, hmem, rfl, -⟩ :=
    (serialBuses_cases realpath (createDevices realpath config) client).resolve_left h
  rw [Transport.rank, (createDevices_inv realpath config).links link hmem, Option.elim_none]

end Bus

end Evok
