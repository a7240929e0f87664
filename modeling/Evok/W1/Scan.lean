import Evok.W1.Bus

/-!
# What a scan does

`_update` gives each found slave to the first sensor with its address or creates one, then every
sensor whose slave was not found is lost. An address without a key ends it with an exception.

## Main definitions

* `FirstAt`, `First`: the first sensors with their addresses, the only ones with devices.
* `OwBus.Grows`, `Loses`: what the two parts of a scan do to the sensors.

## Main results

* `OwBus.locate_spec`: what happens with a slave.
* `OwBus.updated_cases`: what a scan does.
-/

namespace Evok

namespace W1

/-! ## The found slaves -/

theorem foundKeys_eq (names : List Slave) :
    foundKeys names = some (names.foldl (fun found slave => found.set slave.key slave) ∅) := by
  simp only [foundKeys, Slave.addressKey_name]
  generalize (∅ : Dict String Slave) = found
  induction names generalizing found with
  | nil => rfl
  | cons slave names ih => exact ih _

theorem mem_found {names : List Slave} {found : Dict String Slave} (h : foundKeys names = some found) :
    (∀ slave ∈ names, slave.key ∈ found) ∧
      ∀ key slave, found.lookup key = some slave → slave ∈ names ∧ key = slave.key := by
  obtain rfl := Option.some.inj ((foundKeys_eq names).symm.trans h)
  induction names using List.reverseRecOn with
  | nil => simp
  | append_singleton names last ih =>
    rw [foundKeys_eq] at ih
    obtain ⟨hkeys, hlookup⟩ := ih rfl
    rw [List.foldl_append, List.foldl_cons, List.foldl_nil]
    constructor
    · intro slave hmem
      rw [← AList.lookup_isSome, Dict.lookup_set]
      split
      · rfl
      · next hne =>
        have hold : slave ∈ names := by
          rcases List.mem_append.mp hmem with h | h
          · exact h
          · exact absurd (congrArg Slave.key (List.mem_singleton.mp h)) hne
        exact AList.lookup_isSome.mpr (hkeys slave hold)
    · intro key slave hset
      rw [Dict.lookup_set] at hset
      split at hset
      · next heq =>
        obtain rfl := Option.some.inj hset
        exact ⟨by simp, heq⟩
      · obtain ⟨hmem, hkey⟩ := hlookup key slave hset
        exact ⟨List.mem_append_left _ hmem, hkey⟩

/-! ## The search of a sensor -/

/-- The sensor at a place is the first one with its address. -/
def FirstAt (sensors : List MySensor) (i : ℕ) (key : Option String) : Prop :=
  ∀ j < i, ∀ y, sensors[j]? = some y → addressKey y.address ≠ key

/-- Only first sensors have devices. -/
def First (sensors : List MySensor) : Prop :=
  ∀ i x, sensors[i]? = some x → x.sens.isSome → FirstAt sensors i (addressKey x.address)

/-- Every address has a key. -/
def Valid (sensors : List MySensor) : Prop :=
  ∀ x ∈ sensors, (addressKey x.address).isSome

theorem findSensor_none {key : String} {sensors : List MySensor}
    (h : findSensor key sensors = none) : ¬ Valid sensors := by
  induction sensors with
  | nil => simp [findSensor] at h
  | cons x sensors ih =>
    intro hvalid
    obtain ⟨key', hkey⟩ := Option.isSome_iff_exists.mp (hvalid x List.mem_cons_self)
    have hrest : findSensor key sensors ≠ none := fun hnone =>
      ih hnone fun y hy => hvalid y (List.mem_cons_of_mem _ hy)
    obtain ⟨found, hfound⟩ := Option.ne_none_iff_exists'.mp hrest
    by_cases heq : key' = key <;> simp [findSensor, hkey, hfound, heq] at h

theorem findSensor_some {key : String} {sensors : List MySensor} {i : ℕ}
    (h : findSensor key sensors = some (some i)) :
    (∃ x, sensors[i]? = some x ∧ addressKey x.address = some key) ∧
      FirstAt sensors i (some key) := by
  induction sensors generalizing i with
  | nil => simp [findSensor] at h
  | cons x sensors ih =>
    cases hkey : addressKey x.address with
    | none => simp [findSensor, hkey] at h
    | some key' =>
      by_cases heq : key' = key
      · obtain rfl : 0 = i := by simpa [findSensor, hkey, heq] using h
        exact ⟨⟨x, rfl, by rw [hkey, heq]⟩, fun j hj => absurd hj (Nat.not_lt_zero j)⟩
      · cases hrest : findSensor key sensors with
        | none => simp [findSensor, hkey, heq, hrest] at h
        | some found =>
          cases found with
          | none => simp [findSensor, hkey, heq, hrest] at h
          | some i' =>
            obtain rfl : i' + 1 = i := by simpa [findSensor, hkey, heq, hrest] using h
            obtain ⟨⟨y, hy, hykey⟩, hfirst⟩ := ih hrest
            refine ⟨⟨y, by simpa using hy, hykey⟩, fun j hj z hz => ?_⟩
            cases j with
            | zero =>
              obtain rfl : x = z := by simpa using hz
              rw [hkey]
              exact fun h => heq (Option.some.inj h)
            | succ j => exact hfirst j (by omega) z (by simpa using hz)

theorem findSensor_absent {key : String} {sensors : List MySensor}
    (h : findSensor key sensors = some none) :
    ∀ i, FirstAt sensors i (some key) := by
  suffices ∀ y ∈ sensors, addressKey y.address ≠ some key from
    fun i j _ y hy => this y (List.mem_of_getElem? hy)
  induction sensors with
  | nil => simp
  | cons x sensors ih =>
    cases hkey : addressKey x.address with
    | none => simp [findSensor, hkey] at h
    | some key' =>
      by_cases heq : key' = key
      · simp [findSensor, hkey, heq] at h
      · cases hrest : findSensor key sensors with
        | none => simp [findSensor, hkey, heq, hrest] at h
        | some found =>
          cases found with
          | some i' => simp [findSensor, hkey, heq, hrest] at h
          | none =>
            intro y hy
            rcases List.mem_cons.mp hy with rfl | hy
            · rw [hkey]
              exact fun h => heq (Option.some.inj h)
            · exact ih hrest y hy

/-! ## The first part of a scan -/

namespace OwBus

/-- What the first part of a scan does: the sensors stay, their devices too, and each new sensor
has a device and a valid address. -/
structure Grows (bus bus' : OwBus) : Prop where
  poll : bus'.poll = bus.poll
  found : bus'.found = bus.found
  old : ∀ (i : ℕ) (x : MySensor), bus.mysensors[i]? = some x → ∃ x' : MySensor,
    bus'.mysensors[i]? = some x' ∧ x'.address = x.address ∧ x'.lost = x.lost ∧ (x.sens.isSome → x'.sens = x.sens)
  new : ∀ (i : ℕ) (x' : MySensor), bus'.mysensors[i]? = some x' → bus.mysensors[i]? = none →
    x'.sens.isSome ∧ (addressKey x'.address).isSome

theorem Grows.refl (bus : OwBus) : Grows bus bus :=
  ⟨rfl, rfl, fun _ x hx => ⟨x, hx, rfl, rfl, fun _ => rfl⟩,
    fun _ x hx hnone => absurd (hx.symm.trans hnone) (by simp)⟩

/-- The sensor at a place before the growth. -/
theorem Grows.before {bus bus' : OwBus} (h : Grows bus bus') {i : ℕ} {x' : MySensor}
    (hx' : bus'.mysensors[i]? = some x') :
    (∃ x, bus.mysensors[i]? = some x ∧ x'.address = x.address ∧ x'.lost = x.lost ∧
      (x.sens.isSome → x'.sens = x.sens)) ∨
    (bus.mysensors[i]? = none ∧ x'.sens.isSome ∧ (addressKey x'.address).isSome) := by
  cases hx : bus.mysensors[i]? with
  | none => exact .inr ⟨rfl, h.new i x' hx' hx⟩
  | some x =>
    obtain ⟨x'', hx'', hold⟩ := h.old i x hx
    obtain rfl := Option.some.inj (hx''.symm.trans hx')
    exact .inl ⟨x, rfl, hold⟩

theorem Grows.trans {bus bus' bus'' : OwBus} (h : Grows bus bus') (h' : Grows bus' bus'') :
    Grows bus bus'' := by
  refine ⟨h'.poll.trans h.poll, h'.found.trans h.found, fun i x hx => ?_, fun i x'' hx'' hnone => ?_⟩
  · obtain ⟨x', hx', haddress, hlost, hsens⟩ := h.old i x hx
    obtain ⟨x'', hx'', haddress', hlost', hsens'⟩ := h'.old i x' hx'
    refine ⟨x'', hx'', haddress'.trans haddress, hlost'.trans hlost, fun hsome => ?_⟩
    rw [hsens' (by rw [hsens hsome]; exact hsome), hsens hsome]
  · rcases h'.before hx'' with ⟨x', hx', haddress, -, hsens⟩ | ⟨-, hnew⟩
    · obtain ⟨hsome, hvalid⟩ := h.new i x' hx' hnone
      exact ⟨by rw [hsens hsome]; exact hsome, by rwa [haddress]⟩
    · exact hnew

theorem Grows.length_le {bus bus' : OwBus} (h : Grows bus bus') :
    bus.mysensors.length ≤ bus'.mysensors.length := by
  by_contra hlt
  obtain ⟨x, hx⟩ : ∃ x, bus.mysensors[bus'.mysensors.length]? = some x :=
    ⟨_, List.getElem?_eq_getElem (by omega)⟩
  obtain ⟨x', hx', -⟩ := h.old _ x hx
  simp at hx'

theorem Grows.valid {bus bus' : OwBus} (h : Grows bus bus') :
    Valid bus'.mysensors ↔ Valid bus.mysensors := by
  constructor
  · intro hvalid x hx
    obtain ⟨i, hi⟩ := List.mem_iff_getElem?.mp hx
    obtain ⟨x', hx', haddress, -⟩ := h.old i x hi
    exact haddress ▸ hvalid x' (List.mem_of_getElem? hx')
  · intro hvalid x' hx'
    obtain ⟨i, hi⟩ := List.mem_iff_getElem?.mp hx'
    rcases h.before hi with ⟨x, hx, haddress, -⟩ | ⟨-, -, hnew⟩
    · exact haddress ▸ hvalid x (List.mem_of_getElem? hx)
    · exact hnew

/-- A place is first after the growth if it was. -/
theorem Grows.firstAt {bus bus' : OwBus} (h : Grows bus bus') {i : ℕ} {key : Option String}
    (hi : i < bus.mysensors.length) :
    FirstAt bus'.mysensors i key ↔ FirstAt bus.mysensors i key := by
  constructor
  · intro hfirst j hj y hy
    obtain ⟨y', hy', haddress, -⟩ := h.old j y hy
    exact haddress ▸ hfirst j hj y' hy'
  · intro hfirst j hj y' hy'
    rcases h.before hy' with ⟨y, hy, haddress, -⟩ | ⟨hnone, -⟩
    · exact haddress ▸ hfirst j hj y hy
    · rw [List.getElem?_eq_none_iff] at hnone
      omega

/-- The slave of the key has been given to its sensor. -/
def Done (bus : OwBus) (key : String) : Prop :=
  ∀ i x, bus.mysensors[i]? = some x → addressKey x.address = some key →
    FirstAt bus.mysensors i (some key) → x.sens.isSome

theorem Done.grows {bus bus' : OwBus} {key : String} (h : bus.Done key) (hgrows : Grows bus bus') :
    bus'.Done key := by
  intro i x' hx' hkey hfirst
  rcases hgrows.before hx' with ⟨x, hx, haddress, -, hsens⟩ | ⟨-, hsome, -⟩
  · have hi := (List.getElem?_eq_some_iff.mp hx).1
    have hsome := h i x hx (haddress ▸ hkey) ((hgrows.firstAt hi).mp hfirst)
    rwa [hsens hsome]
  · exact hsome

/-- A found slave is skipped, or it gets a sensor. -/
theorem createFound_cases (taken : String → Bool) (bus : OwBus) (slave : Slave) :
    ∃ bus', bus.createFound taken slave = .ok bus' ∧
      ((∃ skipped, bus' = { bus with skipped := skipped }) ∨
        ∃ sensor : MySensor, sensor.sens.isSome ∧ addressKey sensor.address = some slave.key ∧
          bus' = { bus with mysensors := bus.mysensors ++ [sensor] }) := by
  obtain ⟨address, howfs, hkey⟩ := slave.owfsAddress_name
  simp only [createFound, howfs, hkey]
  split
  · exact ⟨bus, rfl, .inl ⟨bus.skipped, rfl⟩⟩
  · split
    · exact ⟨_, rfl, .inl ⟨slave.key :: bus.skipped, rfl⟩⟩
    · next dots _ =>
      generalize (if dots = true then address else
        String.ofList (address.toList.filter (· ≠ '.'))) = circuit
      split
      · exact ⟨_, rfl, .inl ⟨slave.key :: bus.skipped, rfl⟩⟩
      · let sensor : MySensor := { circuit := circuit, address := address, sens := some slave }
        exact ⟨_, rfl, .inr ⟨sensor, rfl, hkey, rfl⟩⟩

/-- One slave: the sensors grow, only first ones have devices, and a slave is given to its sensor
or an address is invalid. -/
theorem locate_spec (taken : String → Bool) {bus : OwBus} (hfirst : First bus.mysensors)
    (slave : Slave) :
    (∃ bus', bus.locate taken (slave.key, slave) = .ok bus' ∧ Grows bus bus' ∧
      First bus'.mysensors ∧ bus'.Done slave.key) ∨
    (bus.locate taken (slave.key, slave) = .error bus ∧ ¬ Valid bus.mysensors) := by
  unfold locate
  dsimp only
  cases hfind : findSensor slave.key bus.mysensors with
  | none => exact .inr ⟨rfl, findSensor_none hfind⟩
  | some place =>
    left
    cases place with
    | some i =>
      obtain ⟨⟨x, hx, hkey⟩, hplace⟩ := findSensor_some hfind
      have hget : ∀ j, (bus.mysensors.modify i fun sensor =>
          { sensor with sens := sensor.sens.or (some slave) })[j]? =
          if i = j then some { x with sens := x.sens.or (some slave) } else bus.mysensors[j]? := by
        intro j
        rw [List.getElem?_modify]
        split
        · next heq => rw [← heq, hx]; rfl
        · exact Option.map_id'
      have hgrows : Grows bus (bus.modify i fun sensor =>
          { sensor with sens := sensor.sens.or (some slave) }) := by
        refine ⟨rfl, rfl, fun j y hy => ?_, fun j y' hy' hnone => ?_⟩
        · change ∃ y', (bus.mysensors.modify i _)[j]? = some y' ∧ _
          rw [hget]
          split
          · next heq =>
            subst heq
            obtain rfl := Option.some.inj (hx.symm.trans hy)
            refine ⟨_, rfl, rfl, rfl, fun hsome => ?_⟩
            obtain ⟨sens, hsens⟩ := Option.isSome_iff_exists.mp hsome
            simp [hsens]
          · exact ⟨y, hy, rfl, rfl, fun _ => rfl⟩
        · have hlen := (List.getElem?_eq_some_iff.mp hy').1
          rw [List.getElem?_eq_none_iff] at hnone
          simp [modify] at hlen
          omega
      refine ⟨_, rfl, hgrows, fun j y' hy' hsome => ?_, fun j y' hy' hkey' hfirst' => ?_⟩
      · have hj : j < bus.mysensors.length := by
          simpa [modify] using (List.getElem?_eq_some_iff.mp hy').1
        rw [hgrows.firstAt hj]
        change (bus.mysensors.modify i _)[j]? = some y' at hy'
        rw [hget] at hy'
        split at hy'
        · next heq =>
          obtain rfl := Option.some.inj hy'
          rw [← heq, hkey]
          exact hplace
        · exact hfirst j y' hy' hsome
      · have hj : j < bus.mysensors.length := by
          simpa [modify] using (List.getElem?_eq_some_iff.mp hy').1
        rw [hgrows.firstAt hj] at hfirst'
        change (bus.mysensors.modify i _)[j]? = some y' at hy'
        rw [hget] at hy'
        split at hy'
        · obtain rfl := Option.some.inj hy'
          simp
        · next hne =>
          -- two places cannot both be the first one
          rcases Nat.lt_or_gt_of_ne hne with hlt | hgt
          · exact absurd hkey (hfirst' i hlt x hx)
          · exact absurd hkey' (hplace j hgt y' hy')
    | none =>
      have habsent := findSensor_absent hfind
      have hdone : bus.Done slave.key := fun i x hx hkey _ =>
        absurd hkey (habsent (i + 1) i (Nat.lt_succ_self i) x hx)
      obtain ⟨bus', hcreate, ⟨skipped, rfl⟩ | ⟨sensor, hsens, hkey, rfl⟩⟩ :=
        createFound_cases taken bus slave
      · exact ⟨_, hcreate, ⟨rfl, rfl, (Grows.refl bus).old, (Grows.refl bus).new⟩, hfirst, hdone⟩
      · have hgrows : Grows bus { bus with mysensors := bus.mysensors ++ [sensor] } := by
          refine ⟨rfl, rfl, fun i x hx => ⟨x, ?_, rfl, rfl, fun _ => rfl⟩, fun i x' hx' hnone => ?_⟩
          · exact (List.getElem?_append_left (List.getElem?_eq_some_iff.mp hx).1).trans hx
          · rw [List.getElem?_eq_none_iff] at hnone
            dsimp only at hx'
            rw [List.getElem?_append_right hnone] at hx'
            obtain rfl := List.mem_singleton.mp (List.mem_of_getElem? hx')
            exact ⟨hsens, by simp [hkey]⟩
        -- the new sensor is behind all others, none of which has its key
        have hplace : ∀ (i : ℕ) (x : MySensor), (bus.mysensors ++ [sensor])[i]? = some x →
            bus.mysensors[i]? = some x ∨ (x = sensor ∧ i = bus.mysensors.length) := by
          intro i x hx
          rcases Nat.lt_or_ge i bus.mysensors.length with hlt | hge
          · exact .inl (by rwa [List.getElem?_append_left hlt] at hx)
          · rw [List.getElem?_append_right hge, List.getElem?_singleton] at hx
            split at hx
            · exact .inr ⟨(Option.some.inj hx).symm, by omega⟩
            · simp at hx
        refine ⟨_, hcreate, hgrows, fun i x hx hsome => ?_, fun i x hx hkey' _ => ?_⟩
        · rcases hplace i x hx with hold | ⟨rfl, rfl⟩
          · exact (hgrows.firstAt (List.getElem?_eq_some_iff.mp hold).1).mpr (hfirst i x hold hsome)
          · intro j hj y hy
            rw [List.getElem?_append_left hj] at hy
            rw [hkey]
            exact habsent (j + 1) j (Nat.lt_succ_self j) y hy
        · rcases hplace i x hx with hold | ⟨rfl, rfl⟩
          · exact absurd hkey' (habsent (i + 1) i (Nat.lt_succ_self i) x hold)
          · exact hsens

theorem locateAll_spec (taken : String → Bool) {bus : OwBus} (hfirst : First bus.mysensors)
    {items : List (String × Slave)} (hkeys : ∀ item ∈ items, item.1 = item.2.key) :
    ∃ bus', Grows bus bus' ∧ First bus'.mysensors ∧
      ((items.foldlM (locate taken) bus = .ok bus' ∧ ∀ item ∈ items, bus'.Done item.1) ∨
        (items.foldlM (locate taken) bus = .error bus' ∧ ¬ Valid bus.mysensors)) := by
  induction items generalizing bus with
  | nil => exact ⟨bus, .refl bus, hfirst, .inl ⟨rfl, by simp⟩⟩
  | cons item items ih =>
    obtain ⟨key, slave⟩ := item
    obtain rfl : key = slave.key := hkeys _ List.mem_cons_self
    rw [List.foldlM_cons]
    rcases locate_spec taken hfirst slave with ⟨mid, hmid, hgrows, hfirst', hdone⟩ |
      ⟨herror, hvalid⟩
    · rw [hmid]
      obtain ⟨bus', hgrows', hfirst'', hrest⟩ :=
        ih hfirst' fun item hitem => hkeys item (List.mem_cons_of_mem _ hitem)
      refine ⟨bus', hgrows.trans hgrows', hfirst'', ?_⟩
      rcases hrest with ⟨hok, hdone'⟩ | ⟨herror, hvalid⟩
      · refine .inl ⟨hok, fun item hitem => ?_⟩
        rcases List.mem_cons.mp hitem with rfl | hitem
        · exact hdone.grows hgrows'
        · exact hdone' item hitem
      · exact .inr ⟨herror, fun h => hvalid (hgrows.valid.mpr h)⟩
    · rw [herror]
      exact ⟨bus, .refl bus, hfirst, .inr ⟨rfl, hvalid⟩⟩

end OwBus

/-! ## The second part of a scan -/

/-- A sensor after the second part. -/
def lostIf (found : Dict String Slave) (x : MySensor) : MySensor :=
  if (addressKey x.address).any (· ∈ found) then x else x.lose

/-- Some of the sensors are lost. -/
def Loses (sensors sensors' : List MySensor) : Prop :=
  List.Forall₂ (fun x x' => x' = x ∨ x' = x.lose) sensors sensors'

theorem loseMissing_ok {found : Dict String Slave} {sensors sensors' : List MySensor}
    (h : loseMissing found sensors = .ok sensors') :
    Valid sensors ∧ sensors' = sensors.map (lostIf found) := by
  induction sensors generalizing sensors' with
  | nil =>
    obtain rfl := Except.ok.inj h
    exact ⟨by simp [Valid], rfl⟩
  | cons x sensors ih =>
    unfold loseMissing at h
    cases hkey : addressKey x.address with
    | none => simp [hkey] at h
    | some key =>
      cases hrest : loseMissing found sensors with
      | error rest => simp [hkey, hrest] at h
      | ok rest =>
        obtain ⟨hvalid, rfl⟩ := ih hrest
        refine ⟨List.forall_mem_cons.mpr ⟨by simp [hkey], hvalid⟩, ?_⟩
        simpa [hkey, hrest, lostIf] using h.symm

theorem loseMissing_error {found : Dict String Slave} {sensors sensors' : List MySensor}
    (h : loseMissing found sensors = .error sensors') :
    ¬ Valid sensors ∧ Loses sensors sensors' := by
  induction sensors generalizing sensors' with
  | nil => simp [loseMissing] at h
  | cons x sensors ih =>
    have hrefl : ∀ l : List MySensor, Loses l l := fun l =>
      List.forall₂_same.mpr fun _ _ => .inl rfl
    unfold loseMissing at h
    cases hkey : addressKey x.address with
    | none =>
      obtain rfl : x :: sensors = sensors' := by simpa [hkey] using h
      refine ⟨fun hvalid => ?_, hrefl _⟩
      simpa [hkey] using hvalid x List.mem_cons_self
    | some key =>
      cases hrest : loseMissing found sensors with
      | ok rest => simp [hkey, hrest] at h
      | error rest =>
        obtain ⟨hinvalid, hloses⟩ := ih hrest
        refine ⟨fun hvalid => hinvalid fun y hy => hvalid y (List.mem_cons_of_mem _ hy), ?_⟩
        obtain rfl : (if key ∈ found then x else x.lose) :: rest = sensors' := by
          simpa [hkey, hrest] using h
        refine .cons ?_ hloses
        split
        · exact .inl rfl
        · exact .inr rfl

theorem Loses.map (found : Dict String Slave) (sensors : List MySensor) :
    Loses sensors (sensors.map (lostIf found)) := by
  refine List.forall₂_map_right_iff.mpr (List.forall₂_same.mpr fun x _ => ?_)
  unfold lostIf
  split
  · exact .inl rfl
  · exact .inr rfl

/-- The sensor at a place before some were lost. -/
theorem Loses.before {sensors sensors' : List MySensor} (h : Loses sensors sensors') {i : ℕ}
    {x' : MySensor} (hx' : sensors'[i]? = some x') :
    ∃ x, sensors[i]? = some x ∧ (x' = x ∨ x' = x.lose) := by
  induction h generalizing i with
  | nil => simp at hx'
  | cons head _ ih =>
    cases i with
    | zero =>
      obtain rfl := Option.some.inj hx'
      exact ⟨_, rfl, head⟩
    | succ i => exact ih hx'

theorem Loses.first {sensors sensors' : List MySensor} (h : Loses sensors sensors')
    (hfirst : First sensors) : First sensors' := by
  intro i x' hx' hsome j hj y' hy'
  obtain ⟨x, hx, rfl | rfl⟩ := h.before hx'
  · obtain ⟨y, hy, rfl | rfl⟩ := h.before hy'
    · exact hfirst i _ hx hsome j hj _ hy
    · exact hfirst i _ hx hsome j hj y hy
  · simp [MySensor.lose] at hsome

namespace OwBus

/-- What a scan does: with an invalid address it fails, otherwise the found slaves are given to
their sensors and the others are lost. -/
theorem updated_cases (taken : String → Bool) (names : List Slave) {bus : OwBus}
    (hfirst : First bus.mysensors) :
    ∃ bus', Grows bus bus' ∧ First bus'.mysensors ∧
      ((Valid bus.mysensors ∧ (∀ slave ∈ names, bus'.Done slave.key) ∧
        ∃ found, foundKeys names = some found ∧ bus.updated taken names =
          { bus' with mysensors := bus'.mysensors.map (lostIf found), found := some names }) ∨
      (¬ Valid bus.mysensors ∧ ∃ mysensors, Loses bus'.mysensors mysensors ∧
        bus.updated taken names = { bus' with mysensors := mysensors })) := by
  obtain ⟨found, hfound⟩ : ∃ found, foundKeys names = some found := ⟨_, foundKeys_eq names⟩
  obtain ⟨hkeys, hlookup⟩ := mem_found hfound
  have hitems : ∀ item ∈ found.items, item.1 = item.2.key := fun item hitem =>
    (hlookup item.1 item.2 (Dict.mem_items.mp hitem)).2
  obtain ⟨bus', hgrows, hfirst', hfold⟩ := locateAll_spec taken hfirst hitems
  refine ⟨bus', hgrows, hfirst', ?_⟩
  unfold updated update
  rcases hfold with ⟨hok, hdone⟩ | ⟨herror, hvalid⟩
  · cases hlose : loseMissing found bus'.mysensors with
    | ok mysensors =>
      obtain ⟨hvalid, rfl⟩ := loseMissing_ok hlose
      refine .inl ⟨hgrows.valid.mp hvalid, fun slave hslave => ?_, found, hfound, ?_⟩
      · obtain ⟨slave', hslave'⟩ :=
          Option.isSome_iff_exists.mp (AList.lookup_isSome.mpr (hkeys slave hslave))
        exact hdone _ (Dict.mem_items.mpr hslave')
      · simp [hfound, hok, hlose, bind, Except.bind]
    | error mysensors =>
      obtain ⟨hvalid, hloses⟩ := loseMissing_error hlose
      refine .inr ⟨fun h => hvalid (hgrows.valid.mpr h), mysensors, hloses, ?_⟩
      simp [hfound, hok, hlose, bind, Except.bind]
  · refine .inr ⟨hvalid, bus'.mysensors, ?_, ?_⟩
    · exact List.forall₂_same.mpr fun _ _ => .inl rfl
    · simp [hfound, herror, bind, Except.bind]

end OwBus

end W1

end Evok
