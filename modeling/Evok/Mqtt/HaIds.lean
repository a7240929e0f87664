import Evok.Mqtt.HaDiscovery
import Mathlib.Data.List.Pairwise

/-!
# The ids of the entities of Home Assistant

`ha_id` is not injective, and the suffix of a field is not marked, so two entities may have one id.

## Main definitions

* `Kind`: the entities of a device by the suffixes of their ids.
* `Clash`: two devices with a common id.

## Main results

* `discovery_pairwise_iff`: the sets of devices whose messages all have different topics and ids.
-/

namespace Evok

namespace Mqtt

open Modbus (Value Full)

/-! ## The entities of a device -/

/-- The entities of a device: one with the id of the device, or one for each field. -/
inductive Kind
  | none
  | single
  | ds2438
  deriving DecidableEq

/-- The fields of a DS2438. -/
def fieldNames : List String :=
  ["temp", "humidity", "vdd", "vad"]

def Kind.suffixes : Kind → List String
  | none => []
  | single => [""]
  | ds2438 => fieldNames.map ("_" ++ ·)

/-- The types with one entity for each device. -/
def singleTypes : List String :=
  ["di", "ro", "do", "led", "ai", "ao", "data_point", "modbus_slave"]

def kind (devtype : String) (state : HaState) : Kind :=
  if devtype ∈ singleTypes then .single
  else if devtype = "sensor" then
    if state.dev = "temp" then .single
    else if state.type = some "DS2438" then .ds2438 else .none
  else .none

theorem suffixes_entities (devtype : String) (state : HaState) (readOnly : Bool) :
    (entities devtype state readOnly).map (·.suffix) = (kind devtype state).suffixes := by
  by_cases hsingle : devtype ∈ singleTypes
  · rw [kind, if_pos hsingle]
    simp only [singleTypes, List.mem_cons, List.not_mem_nil, or_false] at hsingle
    rcases hsingle with rfl | rfl | rfl | rfl | rfl | rfl | rfl | rfl <;>
      simp [entities, Kind.suffixes, binarySensor, switch, apply_ite (List.map Entity.suffix)]
  · have hother := hsingle
    simp only [singleTypes, List.mem_cons, List.not_mem_nil, or_false, not_or] at hother
    obtain ⟨hdi, hro, hdo, hled, hai, hao, hpoint, hslave⟩ := hother
    unfold entities
    simp only [hdi, hro, hdo, hled, hai, hao, hpoint, hslave, or_self, if_false]
    by_cases hsensor : devtype = "sensor"
    · subst hsensor
      by_cases htemp : state.dev = "temp"
      · simp [kind, htemp, Kind.suffixes, singleTypes]
      · by_cases hds : state.type = some "DS2438"
        · simp [kind, htemp, hds, Kind.suffixes, singleTypes, ds2438Fields, fieldNames]
        · simp [kind, htemp, hds, Kind.suffixes, singleTypes]
    · simp [kind, hsingle, hsensor, Kind.suffixes]

/-! ## The object ids -/

@[simp] theorem toList_haId (text : String) : (haId text).toList = text.toList.map haChar := by
  simp [haId]

theorem haId_append (a b : String) : haId (a ++ b) = haId a ++ haId b := by
  apply String.toList_inj.mp
  simp

theorem haChar_ne (c : Char) : haChar c ≠ '/' := by
  unfold haChar
  split
  · next h =>
    rintro rfl
    exact absurd h (by decide)
  · decide

theorem notMem_haId (text : String) : '/' ∉ (haId text).toList := by
  rw [toList_haId, List.mem_map]
  rintro ⟨c, -, hc⟩
  exact haChar_ne c hc

/-- The types of the announced devices. -/
def announcedTypes : List String :=
  "sensor" :: singleTypes

theorem mem_announcedTypes {devtype : String} {state : HaState} (h : kind devtype state ≠ .none) :
    devtype ∈ announcedTypes := by
  unfold kind at h
  split at h
  · exact List.mem_cons_of_mem _ ‹_›
  · split at h
    · next hsensor => exact hsensor ▸ List.mem_cons_self
    · exact absurd rfl h

/-- A type is read back from the beginning of an id. -/
theorem devtype_of_append {a b : String} (ha : a ∈ announcedTypes) (hb : b ∈ announcedTypes)
    {x y : List Char} (h : (a ++ "_").toList ++ x = (b ++ "_").toList ++ y) : a = b := by
  have hall : ∀ a ∈ announcedTypes, ∀ b ∈ announcedTypes,
      (a ++ "_").toList <+: (b ++ "_").toList → a = b := by
    decide +kernel
  have hstart := List.prefix_or_prefix_of_prefix (List.prefix_append _ x)
    (h ▸ List.prefix_append _ y)
  rcases hstart with hab | hba
  · exact hall a ha b hb hab
  · exact (hall b hb a ha hba).symm

/-- A field is read back from the end of an id. -/
theorem field_of_append {a b : String} (ha : a ∈ fieldNames) (hb : b ∈ fieldNames)
    {x y : List Char} (h : x ++ ("_" ++ a).toList = y ++ ("_" ++ b).toList) : a = b := by
  have hall : ∀ a ∈ fieldNames, ∀ b ∈ fieldNames,
      ("_" ++ a).toList <:+ ("_" ++ b).toList → a = b := by
    decide +kernel
  have hend := List.suffix_or_suffix_of_suffix (List.suffix_append x ("_" ++ a).toList)
    (h ▸ List.suffix_append y ("_" ++ b).toList)
  rcases hend with hab | hba
  · exact hall a ha b hb hab
  · exact (hall b hb a ha hba).symm

/-- The characters of the types and of the suffixes are kept. -/
theorem haId_devtype {devtype : String} (h : devtype ∈ announcedTypes) :
    haId (devtype ++ "_") = devtype ++ "_" := by
  have hall : ∀ devtype ∈ announcedTypes, haId (devtype ++ "_") = devtype ++ "_" := by
    decide +kernel
  exact hall devtype h

theorem haId_field {field : String} (h : field ∈ fieldNames) :
    haId ("_" ++ field) = "_" ++ field := by
  have hall : ∀ field ∈ fieldNames, haId ("_" ++ field) = "_" ++ field := by
    decide +kernel
  exact hall field h

theorem haId_suffix {k : Kind} {suffix : String} (h : suffix ∈ k.suffixes) :
    haId suffix = suffix := by
  cases k with
  | none => cases h
  | single =>
    rw [List.mem_singleton.mp h]
    rfl
  | ds2438 =>
    obtain ⟨field, hfield, rfl⟩ := List.mem_map.mp h
    exact haId_field hfield

/-- Two entities have one object id if their types are equal, and their circuits with the suffixes
are equal up to the replaced characters. -/
theorem objectId_eq_iff {a b : HaDevice} {s t : HaState} {suffix suffix' : String}
    (h : suffix ∈ (kind a.devtype s).suffixes) (h' : suffix' ∈ (kind b.devtype t).suffixes) :
    objectId a suffix = objectId b suffix' ↔
      a.devtype = b.devtype ∧ haId a.circuit ++ suffix = haId b.circuit ++ suffix' := by
  have hkind : ∀ {devtype : String} {s : HaState} {suffix : String},
      suffix ∈ (kind devtype s).suffixes → devtype ∈ announcedTypes := by
    intro devtype s suffix h
    refine @mem_announcedTypes _ s ?_
    intro hnone
    rw [hnone] at h
    cases h
  have heq : ∀ {device : HaDevice} {s : HaState} {suffix : String},
      suffix ∈ (kind device.devtype s).suffixes →
        objectId device suffix = device.devtype ++ "_" ++ (haId device.circuit ++ suffix) := by
    intro device s suffix h
    rw [objectId, haId_append, haId_append, haId_devtype (hkind h), haId_suffix h,
      String.append_assoc]
  rw [heq h, heq h']
  constructor
  · intro hids
    have hlist : (a.devtype ++ "_").toList ++ (haId a.circuit ++ suffix).toList =
        (b.devtype ++ "_").toList ++ (haId b.circuit ++ suffix').toList := by
      rw [← String.toList_append, ← String.toList_append, hids]
    have htype := devtype_of_append (hkind h) (hkind h') hlist
    rw [htype, List.append_cancel_left_eq] at hlist
    exact ⟨htype, String.toList_inj.mp hlist⟩
  · rintro ⟨htype, hrest⟩
    rw [htype, hrest]

/-! ## The clashes -/

/-- Two announced devices of one type with a common id: their circuits are equal up to the replaced
characters, or the one of a sensor with a single entity is the one of a DS2438 with a field. -/
def Clash (a b : HaDevice × HaState) : Prop :=
  a.1.group.isSome ∧ b.1.group.isSome ∧ a.1.devtype = b.1.devtype ∧
    match kind a.1.devtype a.2, kind b.1.devtype b.2 with
    | .single, .single | .ds2438, .ds2438 => haId a.1.circuit = haId b.1.circuit
    | .single, .ds2438 => ∃ field ∈ fieldNames, haId a.1.circuit = haId b.1.circuit ++ ("_" ++ field)
    | .ds2438, .single => ∃ field ∈ fieldNames, haId a.1.circuit ++ ("_" ++ field) = haId b.1.circuit
    | _, _ => False

/-- The suffixes of the announced entities. -/
def suffixesOf (a : HaDevice × HaState) : List String :=
  if a.1.group.isSome then (kind a.1.devtype a.2).suffixes else []

theorem mem_suffixesOf {a : HaDevice × HaState} {suffix : String} :
    suffix ∈ suffixesOf a ↔
      a.1.group.isSome = true ∧ suffix ∈ (kind a.1.devtype a.2).suffixes := by
  unfold suffixesOf
  split
  · next h => simp [h]
  · next h => simp [h]

theorem clash_iff {a b : HaDevice × HaState} :
    Clash a b ↔ ∃ suffix ∈ suffixesOf a, ∃ suffix' ∈ suffixesOf b,
      objectId a.1 suffix = objectId b.1 suffix' := by
  have hids : (∃ suffix ∈ suffixesOf a, ∃ suffix' ∈ suffixesOf b,
      objectId a.1 suffix = objectId b.1 suffix') ↔
      a.1.group.isSome = true ∧ b.1.group.isSome = true ∧ a.1.devtype = b.1.devtype ∧
        ∃ suffix ∈ (kind a.1.devtype a.2).suffixes, ∃ suffix' ∈ (kind b.1.devtype b.2).suffixes,
          haId a.1.circuit ++ suffix = haId b.1.circuit ++ suffix' := by
    constructor
    · rintro ⟨suffix, h, suffix', h', heq⟩
      obtain ⟨hgroup, h⟩ := mem_suffixesOf.mp h
      obtain ⟨hgroup', h'⟩ := mem_suffixesOf.mp h'
      obtain ⟨htype, hcircuit⟩ := (objectId_eq_iff h h').mp heq
      exact ⟨hgroup, hgroup', htype, suffix, h, suffix', h', hcircuit⟩
    · rintro ⟨hgroup, hgroup', htype, suffix, h, suffix', h', hcircuit⟩
      exact ⟨suffix, mem_suffixesOf.mpr ⟨hgroup, h⟩, suffix', mem_suffixesOf.mpr ⟨hgroup', h'⟩,
        (objectId_eq_iff h h').mpr ⟨htype, hcircuit⟩⟩
  rw [hids]
  refine and_congr_right fun _ => and_congr_right fun _ => and_congr_right fun _ => ?_
  cases kind a.1.devtype a.2 with
  | none => simp [Kind.suffixes]
  | single =>
    cases kind b.1.devtype b.2 with
    | none => simp [Kind.suffixes]
    | single => simp [Kind.suffixes]
    | ds2438 => simp [Kind.suffixes]
  | ds2438 =>
    cases kind b.1.devtype b.2 with
    | none => simp [Kind.suffixes]
    | single => simp [Kind.suffixes]
    | ds2438 =>
      simp only [Kind.suffixes, List.mem_map, exists_exists_and_eq_and]
      constructor
      · intro heq
        exact ⟨"temp", by decide, "temp", by decide, by rw [heq]⟩
      · rintro ⟨field, hfield, field', hfield', heq⟩
        have hlist : (haId a.1.circuit).toList ++ ("_" ++ field).toList =
            (haId b.1.circuit).toList ++ ("_" ++ field').toList := by
          rw [← String.toList_append, ← String.toList_append, heq]
        obtain rfl := field_of_append hfield hfield' hlist
        rw [List.append_cancel_right_eq] at hlist
        exact String.toList_inj.mp hlist

/-! ## The messages -/

/-- Two config messages are of different entities for Home Assistant. -/
def Different (m m' : String × Full) : Prop :=
  m.1 ≠ m'.1 ∧ m.2.lookup "unique_id" ≠ m'.2.lookup "unique_id"

section

variable (topicPrefix haPrefix : String) (model : String → Option String) (readOnly : Bool)

theorem lookup_unique_id (device : HaDevice) (state : HaState) (group : String) (entity : Entity) :
    (configMessage topicPrefix haPrefix model device state group entity).2.lookup "unique_id" =
      some (.str (haId topicPrefix ++ "_" ++ objectId device entity.suffix)) :=
  rfl

/-- The topics and the ids differ if and only if the object ids do. -/
theorem different_iff {a b : HaDevice} {s t : HaState} {group group' : String}
    {entity entity' : Entity} :
    Different (configMessage topicPrefix haPrefix model a s group entity)
        (configMessage topicPrefix haPrefix model b t group' entity') ↔
      objectId a entity.suffix ≠ objectId b entity'.suffix := by
  unfold Different
  rw [lookup_unique_id, lookup_unique_id]
  constructor
  · rintro ⟨-, hunique⟩ heq
    exact hunique (by rw [heq])
  · intro hne
    constructor
    · have hid : ∀ (device : HaDevice) (suffix : String), '/' ∉ (objectId device suffix).toList :=
        fun _ _ => notMem_haId _
      intro htopic
      rw [configMessage, configMessage, Topic.join_left_inj,
        Topic.join_inj_of_last (hid _ _) (hid _ _)] at htopic
      exact hne htopic.2
    · intro hunique
      have hids : haId topicPrefix ++ "_" ++ objectId a entity.suffix =
          haId topicPrefix ++ "_" ++ objectId b entity'.suffix := by
        simpa using hunique
      have hlist : (haId topicPrefix ++ "_").toList ++ (objectId a entity.suffix).toList =
          (haId topicPrefix ++ "_").toList ++ (objectId b entity'.suffix).toList := by
        rw [← String.toList_append, ← String.toList_append, hids]
      rw [List.append_cancel_left_eq] at hlist
      exact hne (String.toList_inj.mp hlist)

/-- The messages of a device. -/
def messagesOf (a : HaDevice × HaState) : List (String × Full) :=
  discovery topicPrefix haPrefix model readOnly a.1 a.2

theorem mem_messagesOf {a : HaDevice × HaState} {m : String × Full} :
    m ∈ messagesOf topicPrefix haPrefix model readOnly a ↔
      ∃ group, a.1.group = some group ∧ ∃ entity ∈ entities a.1.devtype a.2 readOnly,
        configMessage topicPrefix haPrefix model a.1 a.2 group entity = m := by
  unfold messagesOf discovery
  split
  · next group hgroup => simp [hgroup]
  · next hgroup => simp [hgroup]

/-- The messages of two devices are different unless the devices clash. -/
theorem forall_different_iff {a b : HaDevice × HaState} :
    (∀ m ∈ messagesOf topicPrefix haPrefix model readOnly a,
      ∀ m' ∈ messagesOf topicPrefix haPrefix model readOnly b, Different m m') ↔ ¬Clash a b := by
  have hsuffix : ∀ (a : HaDevice × HaState) (suffix : String), suffix ∈ suffixesOf a ↔
      a.1.group.isSome = true ∧ ∃ entity ∈ entities a.1.devtype a.2 readOnly,
        entity.suffix = suffix := by
    intro a suffix
    rw [mem_suffixesOf, ← suffixes_entities _ _ readOnly, List.mem_map]
  rw [clash_iff]
  constructor
  · rintro hall ⟨suffix, h, suffix', h', heq⟩
    obtain ⟨hgroup, entity, hentity, rfl⟩ := (hsuffix a suffix).mp h
    obtain ⟨hgroup', entity', hentity', rfl⟩ := (hsuffix b suffix').mp h'
    obtain ⟨group, hgroup⟩ := Option.isSome_iff_exists.mp hgroup
    obtain ⟨group', hgroup'⟩ := Option.isSome_iff_exists.mp hgroup'
    have hdifferent := hall _
      ((mem_messagesOf topicPrefix haPrefix model readOnly).mpr ⟨group, hgroup, entity, hentity, rfl⟩)
      _ ((mem_messagesOf topicPrefix haPrefix model readOnly).mpr
        ⟨group', hgroup', entity', hentity', rfl⟩)
    exact (different_iff topicPrefix haPrefix model).mp hdifferent heq
  · intro hclash m hm m' hm'
    obtain ⟨group, hgroup, entity, hentity, rfl⟩ :=
      (mem_messagesOf topicPrefix haPrefix model readOnly).mp hm
    obtain ⟨group', hgroup', entity', hentity', rfl⟩ :=
      (mem_messagesOf topicPrefix haPrefix model readOnly).mp hm'
    refine (different_iff topicPrefix haPrefix model).mpr fun heq => hclash ?_
    exact ⟨entity.suffix, (hsuffix a _).mpr ⟨by simp [hgroup], entity, hentity, rfl⟩,
      entity'.suffix, (hsuffix b _).mpr ⟨by simp [hgroup'], entity', hentity', rfl⟩, heq⟩

/-- The messages of one device are different. -/
theorem pairwise_messagesOf (a : HaDevice × HaState) :
    (messagesOf topicPrefix haPrefix model readOnly a).Pairwise Different := by
  unfold messagesOf discovery
  split
  · next group _ =>
    rw [List.pairwise_map]
    have hnodup : (kind a.1.devtype a.2).suffixes.Nodup := by
      cases kind a.1.devtype a.2 <;> decide +kernel
    have hids : (kind a.1.devtype a.2).suffixes.Pairwise fun suffix suffix' =>
        objectId a.1 suffix ≠ objectId a.1 suffix' := by
      refine hnodup.imp_of_mem fun {suffix suffix'} h h' hne heq => hne ?_
      have hcircuit := ((objectId_eq_iff h h').mp heq).2
      have hlist := congrArg String.toList hcircuit
      rw [String.toList_append, String.toList_append, List.append_cancel_left_eq] at hlist
      exact String.toList_inj.mp hlist
    rw [← suffixes_entities _ _ readOnly, List.pairwise_map] at hids
    exact hids.imp fun hne => (different_iff topicPrefix haPrefix model).mpr hne
  · exact List.Pairwise.nil

/-- All messages of a set of devices have different topics and ids if and only if no two devices
clash. -/
theorem discovery_pairwise_iff (devices : List (HaDevice × HaState)) :
    (devices.flatMap fun (device, state) =>
        discovery topicPrefix haPrefix model readOnly device state).Pairwise Different ↔
      devices.Pairwise fun a b => ¬Clash a b := by
  rw [List.pairwise_flatMap]
  constructor
  · rintro ⟨-, hbetween⟩
    exact hbetween.imp fun h => (forall_different_iff topicPrefix haPrefix model readOnly).mp h
  · intro hclash
    refine ⟨fun a _ => pairwise_messagesOf topicPrefix haPrefix model readOnly a, ?_⟩
    exact hclash.imp fun h => (forall_different_iff topicPrefix haPrefix model readOnly).mpr h

end

/-- A unit, a relay of it and two sensors of a bus, one with four fields. -/
theorem discovery_pairwise_iff_sensors :
    ([((⟨"modbus_slave", "plc", none, none⟩ : HaDevice), ({ dev := "modbus_slave" } : HaState)),
        (⟨"ro", "1_01", none, some "plc"⟩, { dev := "ro" }),
        (⟨"sensor", "28FF", some "OW", none⟩, { dev := "temp" }),
        (⟨"sensor", "26FF", some "OW", none⟩, { dev := "1wdevice", type := some "DS2438" })].flatMap
      fun (device, state) =>
        discovery "evok" "homeassistant" (fun _ => none) false device state).Pairwise Different := by
  refine (discovery_pairwise_iff ..).mpr ?_
  have hsensors : ∀ field ∈ fieldNames, haId "28FF" ≠ haId "26FF" ++ ("_" ++ field) := by
    decide +kernel
  simpa [Clash, kind, singleTypes] using fun _ _ => hsensors

/-- Two units with different names have one topic. -/
theorem not_discovery_pairwise :
    ¬ ([((⟨"modbus_slave", "plc 1", none, none⟩ : HaDevice), ({ dev := "modbus_slave" } : HaState)),
        (⟨"modbus_slave", "plc_1", none, none⟩, { dev := "modbus_slave" })].flatMap
      fun (device, state) =>
        discovery "evok" "homeassistant" (fun _ => none) false device state).Pairwise Different := by
  intro h
  have hfirst := (List.pairwise_cons.mp h).1 _ List.mem_cons_self
  exact hfirst.1 (by decide +kernel)

end Mqtt

end Evok
