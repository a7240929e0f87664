import Evok.W1.Scan

/-!
# A sensor is located or lost

`_update` gives the found slave to the first sensor with its address, and skips the other sensors
with the same address; a read which ends after its sensor disappeared makes it not lost.

## Main definitions

* `OwBus.Located`: every sensor has its device of the last scan, or none and is lost.
* `OwBus.Timely`: a scan without a second sensor for a slave, a read of a sensor which is still
  there.

## Main results

* `OwBus.alwaysLocated_iff`: the runs in which every sensor is always located or lost.
-/

namespace Evok

namespace W1

/-! ## The reads -/

/-- The sensors which a poll reads now or later. -/
def Poll.sensors : Poll → List ℕ
  | .sleeping => []
  | .converting group => group
  | .reading sensor _ group => sensor :: group

namespace OwBus

/-- What a read keeps: the sensors with their devices, and that they are lost. -/
structure Marks (group : List ℕ) (bus bus' : OwBus) : Prop where
  found : bus'.found = bus.found
  length : bus'.mysensors.length = bus.mysensors.length
  sensor : ∀ (i : ℕ) (x' : MySensor), bus'.mysensors[i]? = some x' → ∃ x : MySensor,
    bus.mysensors[i]? = some x ∧ x'.address = x.address ∧ x'.sens = x.sens ∧
      (x.lost = true → x'.lost = true) ∧ (i ∉ group → x'.lost = x.lost)

theorem Marks.trans {group group' : List ℕ} {bus bus' bus'' : OwBus} (h : Marks group bus bus')
    (h' : Marks group' bus' bus'') : Marks (group ++ group') bus bus'' := by
  refine ⟨h'.found.trans h.found, h'.length.trans h.length, fun i x'' hx'' => ?_⟩
  obtain ⟨x', hx', haddress', hsens', hlost', hother'⟩ := h'.sensor i x'' hx''
  obtain ⟨x, hx, haddress, hsens, hlost, hother⟩ := h.sensor i x' hx'
  refine ⟨x, hx, haddress'.trans haddress, hsens'.trans hsens, fun h => hlost' (hlost h), ?_⟩
  intro hmem
  rw [List.mem_append, not_or] at hmem
  rw [hother' hmem.2, hother hmem.1]

theorem Marks.setLost (bus : OwBus) (i : ℕ) : Marks [i] bus (bus.modify i MySensor.setLost) := by
  refine ⟨rfl, List.length_modify _ _ _, fun j x' hx' => ?_⟩
  change (bus.mysensors.modify i _)[j]? = some x' at hx'
  rw [List.getElem?_modify] at hx'
  obtain ⟨x, hx, rfl⟩ := Option.map_eq_some_iff.mp hx'
  refine ⟨x, hx, ?_⟩
  by_cases heq : i = j
  · simp [heq, MySensor.setLost]
  · simp [heq]

theorem readNext_spec (bus : OwBus) (group : List ℕ) :
    Marks group bus (bus.readNext group) ∧ ((bus.readNext group).poll.sensors).Sublist group := by
  induction group generalizing bus with
  | nil =>
    refine ⟨⟨rfl, rfl, fun i x hx => ⟨x, hx, rfl, rfl, id, fun _ => rfl⟩⟩, ?_⟩
    exact List.Sublist.refl _
  | cons i group ih =>
    unfold readNext
    split
    · refine ⟨⟨rfl, rfl, fun i x hx => ⟨x, hx, rfl, rfl, id, fun _ => rfl⟩⟩, ?_⟩
      exact List.Sublist.refl _
    · obtain ⟨hmarks, hpoll⟩ := ih (bus.modify i MySensor.setLost)
      exact ⟨(Marks.setLost bus i).trans hmarks, hpoll.cons i⟩

/-! ## Located or lost -/

/-- Every sensor has its device of the last completed scan, or it has none and is lost. -/
def Located (bus : OwBus) : Prop :=
  ∀ names, bus.found = some names → ∀ x ∈ bus.mysensors,
    (x.sens.isSome ∧ ∃ slave ∈ names, addressKey x.address = addressKey slave.name) ∨
      (x.sens = none ∧ x.lost = true)

/-- A scan with valid addresses finds no slave with a second sensor which is not lost already; a
read after a completed scan succeeds only if its sensor still has its device. -/
def Timely (bus : OwBus) : Event → Prop
  | .update _ names => Valid bus.mysensors →
    ∀ (i j : ℕ) (x y : MySensor), bus.mysensors[i]? = some x → bus.mysensors[j]? = some y →
      j < i → addressKey y.address = addressKey x.address →
      (∃ slave ∈ names, addressKey x.address = addressKey slave.name) → x.lost = true
  | .readDone true => bus.found.isSome → ∀ sensor sens group,
    bus.poll = .reading sensor sens group → bus.located sensor = true
  | _ => True

/-- The devices are those of the last completed scan, and a sensor is read once. -/
structure Inv (bus : OwBus) : Prop where
  valid : bus.found.isSome → Valid bus.mysensors
  first : First bus.mysensors
  found : ∀ names, bus.found = some names → ∀ x ∈ bus.mysensors, x.sens.isSome →
    ∃ slave ∈ names, addressKey x.address = addressKey slave.name
  nodup : bus.poll.sensors.Nodup
  bound : ∀ i ∈ bus.poll.sensors, i < bus.mysensors.length

/-- With the invariant the sensors without a device have to be lost. -/
theorem Inv.located_iff {bus : OwBus} (h : bus.Inv) :
    bus.Located ↔ (bus.found.isSome → ∀ x ∈ bus.mysensors, x.sens = none → x.lost = true) := by
  constructor
  · intro hlocated hfound x hx hnone
    obtain ⟨names, hnames⟩ := Option.isSome_iff_exists.mp hfound
    rcases hlocated names hnames x hx with ⟨hsome, -⟩ | ⟨-, hlost⟩
    · simp [hnone] at hsome
    · exact hlost
  · intro hlost names hnames x hx
    cases hsens : x.sens with
    | none => exact .inr ⟨rfl, hlost (by simp [hnames]) x hx hsens⟩
    | some sens => exact .inl ⟨rfl, h.found names hnames x hx (by simp [hsens])⟩

/-- The reads keep the devices. -/
theorem Inv.marks {bus bus' : OwBus} {group : List ℕ} (h : bus.Inv) (hmarks : Marks group bus bus')
    (nodup : bus'.poll.sensors.Nodup) (bound : ∀ i ∈ bus'.poll.sensors, i < bus.mysensors.length) :
    bus'.Inv := by
  refine ⟨?_, ?_, ?_, nodup, fun i hi => hmarks.length ▸ bound i hi⟩
  · intro hfound x' hx'
    obtain ⟨i, hi⟩ := List.mem_iff_getElem?.mp hx'
    obtain ⟨x, hx, haddress, -⟩ := hmarks.sensor i x' hi
    exact haddress ▸ h.valid (hmarks.found ▸ hfound) x (List.mem_of_getElem? hx)
  · intro i x' hx' hsome j hj y' hy'
    obtain ⟨x, hx, haddress, hsens, -⟩ := hmarks.sensor i x' hx'
    obtain ⟨y, hy, haddress', -⟩ := hmarks.sensor j y' hy'
    rw [haddress, haddress']
    exact h.first i x hx (hsens ▸ hsome) j hj y hy
  · intro names hnames x' hx' hsome
    obtain ⟨i, hi⟩ := List.mem_iff_getElem?.mp hx'
    obtain ⟨x, hx, haddress, hsens, -⟩ := hmarks.sensor i x' hi
    rw [haddress]
    exact h.found names (hmarks.found ▸ hnames) x (List.mem_of_getElem? hx) (hsens ▸ hsome)

/-- A read which makes no sensor without a device not lost. -/
theorem Located.marks {bus bus' : OwBus} {group : List ℕ} (h : bus.Inv) (hlocated : bus.Located)
    (hmarks : Marks group bus bus') (h' : bus'.Inv) : bus'.Located := by
  refine h'.located_iff.mpr fun hfound x' hx' hnone => ?_
  obtain ⟨i, hi⟩ := List.mem_iff_getElem?.mp hx'
  obtain ⟨x, hx, -, hsens, hlost, -⟩ := hmarks.sensor i x' hi
  refine hlost (h.located_iff.mp hlocated (hmarks.found ▸ hfound) x (List.mem_of_getElem? hx) ?_)
  rw [← hsens, hnone]

theorem Inv.readNext {bus : OwBus} (h : bus.Inv) (hlocated : bus.Located) {group : List ℕ}
    (nodup : group.Nodup) (bound : ∀ i ∈ group, i < bus.mysensors.length) :
    (bus.readNext group).Inv ∧ (bus.readNext group).Located := by
  obtain ⟨hmarks, hpoll⟩ := readNext_spec bus group
  have hinv := h.marks hmarks (hpoll.nodup nodup) fun i hi => bound i (hpoll.subset hi)
  exact ⟨hinv, hlocated.marks h hmarks hinv⟩

/-- A scan keeps every sensor located or lost if and only if it is timely. -/
theorem Inv.updated {bus : OwBus} (h : bus.Inv) (taken : String → Bool) (names : List Slave) :
    (bus.updated taken names).Inv ∧
      ((bus.updated taken names).Located ↔ bus.Timely (.update taken names)) := by
  obtain ⟨mid, hgrows, hfirst, ⟨hvalid, hdone, found, hfound, hupdated⟩ |
    ⟨hinvalid, mysensors, hloses, hupdated⟩⟩ := updated_cases taken names h.first
  · obtain ⟨hkeys, hlookup⟩ := mem_found hfound
    -- a sensor keeps its state if its slave was found
    have hlostIf : ∀ x : MySensor, (∃ slave ∈ names, addressKey x.address = addressKey slave.name) →
        lostIf found x = x := by
      rintro x ⟨slave, hslave, hkey⟩
      simp [lostIf, hkey, Slave.addressKey_name, hkeys slave hslave]
    have hmissing : ∀ x : MySensor,
        (¬ ∃ slave ∈ names, addressKey x.address = addressKey slave.name) →
        lostIf found x = x.lose := by
      intro x hnone
      refine if_neg fun hany => hnone ?_
      obtain ⟨key, hkey, hmem⟩ : ∃ key, addressKey x.address = some key ∧ key ∈ found := by
        simpa [Option.any_eq_true] using hany
      obtain ⟨slave, hslave⟩ := Option.isSome_iff_exists.mp (AList.lookup_isSome.mpr hmem)
      obtain ⟨hname, rfl⟩ := hlookup key slave hslave
      exact ⟨slave, hname, by rw [hkey, Slave.addressKey_name]⟩
    have hinv : (bus.updated taken names).Inv := by
      rw [hupdated]
      refine ⟨fun _ x' hx' => ?_, (Loses.map found _).first hfirst, fun names' hnames x' hx' hsome => ?_,
        hgrows.poll ▸ h.nodup, fun i hi => ?_⟩
      · obtain ⟨x, hx, rfl⟩ := List.mem_map.mp hx'
        have haddress : (lostIf found x).address = x.address := by
          unfold lostIf
          split <;> rfl
        rw [haddress]
        exact hgrows.valid.mpr hvalid x hx
      · obtain rfl := Option.some.inj hnames
        obtain ⟨x, hx, rfl⟩ := List.mem_map.mp hx'
        by_contra hnone
        by_cases hslave : ∃ slave ∈ names, addressKey x.address = addressKey slave.name
        · rw [hlostIf x hslave] at hnone
          exact hnone hslave
        · rw [hmissing x hslave] at hsome
          simp [MySensor.lose] at hsome
      · rw [List.length_map]
        exact (h.bound i (hgrows.poll ▸ hi)).trans_le hgrows.length_le
    refine ⟨hinv, hinv.located_iff.trans ?_⟩
    rw [hupdated]
    constructor
    · intro hlost _ i j x y hx hy hj hkey hslave
      obtain ⟨x', hx', haddress, hsame, -⟩ := hgrows.old i x hx
      obtain ⟨y', hy', haddress', -⟩ := hgrows.old j y hy
      have hstays := hlostIf x' (haddress ▸ hslave)
      have hnone : x'.sens = none := by
        by_contra hsome
        have hplace := hfirst i x' hx' (Option.isSome_iff_ne_none.mpr hsome) j hj y' hy'
        exact hplace (by rw [haddress, haddress', hkey])
      have hlost' := hlost rfl x' (List.mem_map.mpr ⟨x', List.mem_of_getElem? hx', hstays⟩) hnone
      exact hsame ▸ hlost'
    · intro htimely _ x'' hx'' hnone
      obtain ⟨x', hx', rfl⟩ := List.mem_map.mp hx''
      by_cases hslave : ∃ slave ∈ names, addressKey x'.address = addressKey slave.name
      · rw [hlostIf x' hslave] at hnone ⊢
        obtain ⟨i, hi⟩ := List.mem_iff_getElem?.mp hx'
        obtain ⟨slave, hmem, hkey⟩ := hslave
        -- the slave went to an earlier sensor
        have hsecond : ¬ FirstAt mid.mysensors i (some slave.key) := by
          intro hplace
          have hsome := hdone slave hmem i x' hi (hkey.trans slave.addressKey_name) hplace
          simp [hnone] at hsome
        obtain ⟨j, hj, y', hy', hkey'⟩ : ∃ j < i, ∃ y', mid.mysensors[j]? = some y' ∧
            addressKey y'.address = some slave.key := by
          simpa [FirstAt] using hsecond
        rcases hgrows.before hi with ⟨x, hx, haddress, hsame, -⟩ | ⟨-, hsome, -⟩
        · rcases hgrows.before hy' with ⟨y, hy, haddress', -⟩ | ⟨hnone', -⟩
          · rw [hsame]
            refine htimely hvalid i j x y hx hy hj ?_ ⟨slave, hmem, haddress ▸ hkey⟩
            rw [← haddress, ← haddress', hkey', hkey, Slave.addressKey_name]
          · rw [List.getElem?_eq_none_iff] at hnone'
            have hlen := (List.getElem?_eq_some_iff.mp hx).1
            omega
        · simp [hnone] at hsome
      · rw [hmissing x' hslave]
        rfl
  · have hnone : bus.found = none := by
      by_contra hsome
      exact hinvalid (h.valid (Option.isSome_iff_ne_none.mpr hsome))
    have hfound : (bus.updated taken names).found = none := by
      rw [hupdated]
      exact hgrows.found.trans hnone
    refine ⟨⟨?_, ?_, ?_, ?_, ?_⟩, ?_⟩
    · simp [hfound]
    · rw [hupdated]
      exact hloses.first hfirst
    · simp [hfound]
    · rw [hupdated]
      exact hgrows.poll ▸ h.nodup
    · rw [hupdated]
      intro i hi
      have hlen := hloses.length_eq
      exact hlen ▸ (h.bound i (hgrows.poll ▸ hi)).trans_le hgrows.length_le
    · refine iff_of_true ?_ fun hvalid => absurd hvalid hinvalid
      simp [Located, hfound]

/-- The end of a read keeps every sensor located or lost if and only if it is timely. -/
theorem Inv.readDone {bus : OwBus} (h : bus.Inv) (hlocated : bus.Located) {sensor : ℕ} {sens : Slave}
    {group : List ℕ} (reading : bus.poll = .reading sensor sens group) (success : Bool) :
    (bus.readDone sensor success group).Inv ∧
      ((bus.readDone sensor success group).Located ↔ bus.Timely (.readDone success)) := by
  have hsensors : (sensor :: group).Nodup ∧ ∀ i ∈ sensor :: group, i < bus.mysensors.length := by
    have hnodup := h.nodup
    have hbound := h.bound
    rw [reading] at hnodup hbound
    exact ⟨hnodup, hbound⟩
  obtain ⟨hnodup, hbound⟩ := hsensors
  rw [List.nodup_cons] at hnodup
  cases success with
  | false =>
    have hmarks := (Marks.setLost bus sensor).trans (readNext_spec (bus.modify sensor .setLost) group).1
    have hpoll := (readNext_spec (bus.modify sensor .setLost) group).2
    have hinv := h.marks hmarks (hpoll.nodup hnodup.2) fun i hi =>
      hbound i (List.mem_cons_of_mem _ (hpoll.subset hi))
    exact ⟨hinv, iff_of_true (hlocated.marks h hmarks hinv) trivial⟩
  | true =>
    obtain ⟨hmarks, hpoll⟩ :=
      readNext_spec (bus.modify sensor fun x => { x with lost := false }) group
    have hget : ∀ (i : ℕ) (x' : MySensor), (bus.modify sensor fun x =>
        { x with lost := false }).mysensors[i]? = some x' → ∃ x : MySensor,
        bus.mysensors[i]? = some x ∧ x' = if sensor = i then { x with lost := false } else x := by
      intro i x' hx'
      change (bus.mysensors.modify sensor _)[i]? = some x' at hx'
      rw [List.getElem?_modify] at hx'
      obtain ⟨x, hx, rfl⟩ := Option.map_eq_some_iff.mp hx'
      exact ⟨x, hx, rfl⟩
    have hread : (bus.modify sensor fun x => { x with lost := false }).Inv := by
      refine ⟨fun hfound x' hx' => ?_, fun i x' hx' hsome j hj y' hy' => ?_,
        fun names hnames x' hx' hsome => ?_, h.nodup, fun i hi => ?_⟩
      · obtain ⟨i, hi⟩ := List.mem_iff_getElem?.mp hx'
        obtain ⟨x, hx, rfl⟩ := hget i x' hi
        have hvalid := h.valid hfound x (List.mem_of_getElem? hx)
        split <;> exact hvalid
      · obtain ⟨x, hx, rfl⟩ := hget i x' hx'
        obtain ⟨y, hy, rfl⟩ := hget j y' hy'
        have hfirst := h.first i x hx (by split at hsome <;> exact hsome) j hj y hy
        split <;> split <;> exact hfirst
      · obtain ⟨i, hi⟩ := List.mem_iff_getElem?.mp hx'
        obtain ⟨x, hx, rfl⟩ := hget i x' hi
        have hfound := h.found names hnames x (List.mem_of_getElem? hx)
          (by split at hsome <;> exact hsome)
        split <;> exact hfound
      · exact (List.length_modify ..).symm ▸ h.bound i hi
    have hinv : (bus.readDone sensor true group).Inv :=
      hread.marks hmarks (hpoll.nodup hnodup.2) fun i hi => by
        exact (List.length_modify ..).symm ▸ hbound i (List.mem_cons_of_mem _ (hpoll.subset hi))
    refine ⟨hinv, hinv.located_iff.trans ?_⟩
    have hlost := h.located_iff.mp hlocated
    constructor
    · intro hlost' hfound sensor' sens' group' reading'
      obtain ⟨rfl, rfl, rfl⟩ := Poll.reading.inj (reading.symm.trans reading')
      obtain ⟨x', hx'⟩ : ∃ x', (bus.readDone sensor true group).mysensors[sensor]? = some x' := by
        refine ⟨_, List.getElem?_eq_getElem ?_⟩
        exact (hmarks.length.trans (List.length_modify ..)).symm ▸ hbound sensor List.mem_cons_self
      obtain ⟨y, hy, -, hsens, -, hsame⟩ := hmarks.sensor sensor x' hx'
      obtain ⟨x, hx, rfl⟩ := hget sensor y hy
      rw [if_pos rfl] at hsens hsame
      by_contra hnone
      have hnone : x.sens = none := by simpa [located, hx] using hnone
      have hlost'' := hlost' (hmarks.found.symm ▸ hfound) x' (List.mem_of_getElem? hx')
        (hsens.trans hnone)
      rw [hsame hnodup.1] at hlost''
      simp at hlost''
    · intro htimely hfound x' hx' hnone
      obtain ⟨i, hi⟩ := List.mem_iff_getElem?.mp hx'
      obtain ⟨y, hy, -, hsens, hkeeps, -⟩ := hmarks.sensor i x' hi
      obtain ⟨x, hx, rfl⟩ := hget i y hy
      have hfound : bus.found.isSome := hmarks.found ▸ hfound
      have hnone' : x.sens = none := by
        rw [← hnone, hsens]
        split <;> rfl
      have hne : sensor ≠ i := by
        rintro rfl
        have hthere := htimely hfound sensor sens group reading
        simp [located, hx, hnone'] at hthere
      refine hkeeps ?_
      rw [if_neg hne]
      exact hlost hfound x (List.mem_of_getElem? hx) hnone'

/-- A step keeps every sensor located or lost if and only if it is timely. -/
theorem Inv.step {bus bus' : OwBus} {event : Event} (h : bus.Inv) (hlocated : bus.Located)
    (hstep : Step bus event bus') : bus'.Inv ∧ (bus'.Located ↔ bus.Timely event) := by
  have hbound : ∀ {i : ℕ}, bus.located i = true → i < bus.mysensors.length := by
    intro i hi
    by_contra hge
    simp [located, List.getElem?_eq_none (Nat.le_of_not_lt hge)] at hi
  cases hstep with
  | update taken names => exact h.updated taken names
  | @read i sleeping located =>
    obtain ⟨hinv, hlocated'⟩ := h.readNext hlocated (List.nodup_singleton i)
      (by simpa using hbound located)
    exact ⟨hinv, iff_of_true hlocated' trivial⟩
  | convert sleeping nodup located =>
    have hinv : Inv { bus with poll := .converting _ } :=
      ⟨h.valid, h.first, h.found, nodup, fun i hi => hbound (located i hi)⟩
    exact ⟨hinv, iff_of_true hlocated trivial⟩
  | converted converting =>
    have hnodup := h.nodup
    have hmembers := h.bound
    rw [converting] at hnodup hmembers
    obtain ⟨hinv, hlocated'⟩ := h.readNext hlocated hnodup hmembers
    exact ⟨hinv, iff_of_true hlocated' trivial⟩
  | @notConverted group i converting member =>
    have hmembers := h.bound
    rw [converting] at hmembers
    obtain ⟨hinv, hlocated'⟩ := h.readNext hlocated (List.nodup_singleton i)
      (by simpa using hmembers i member)
    exact ⟨hinv, iff_of_true hlocated' trivial⟩
  | readDone success reading => exact h.readDone hlocated reading success
  | restart =>
    have hlose : Loses bus.mysensors (bus.mysensors.map MySensor.lose) :=
      List.forall₂_map_right_iff.mpr (List.forall₂_same.mpr fun _ _ => .inr rfl)
    have hinv : bus.restarted.Inv := by
      refine ⟨fun hfound x' hx' => ?_, hlose.first h.first, fun _ _ x' hx' hsome => ?_, .nil, by
        simp [restarted, Poll.sensors]⟩
      · obtain ⟨x, hx, rfl⟩ := List.mem_map.mp hx'
        exact h.valid hfound x hx
      · obtain ⟨x, -, rfl⟩ := List.mem_map.mp hx'
        simp [MySensor.lose] at hsome
    refine ⟨hinv, iff_of_true (hinv.located_iff.mpr fun _ x' hx' _ => ?_) trivial⟩
    obtain ⟨x, -, rfl⟩ := List.mem_map.mp hx'
    rfl

/-- The bus after its sensors were created by the configuration. -/
structure Configured (bus : OwBus) : Prop where
  sensors : ∀ x ∈ bus.mysensors, x.sens = none ∧ x.lost = false
  skipped : bus.skipped = []
  poll : bus.poll = .sleeping
  found : bus.found = none

/-- Every sensor is located or lost after every step of a run. -/
def AlwaysLocated (bus : OwBus) (events : List Event) : Prop :=
  ∀ before after bus', events = before ++ after → Transition.Run Step bus before bus' → bus'.Located

/-- Every step of a run is timely. -/
def AlwaysTimely (bus : OwBus) (events : List Event) : Prop :=
  ∀ before event after bus', events = before ++ event :: after →
    Transition.Run Step bus before bus' → bus'.Timely event

/-- In a run every sensor is always located or lost if and only if the steps are timely. -/
theorem alwaysLocated_iff {bus bus' : OwBus} {events : List Event} (init : bus.Configured)
    (run : Transition.Run Step bus events bus') :
    bus.AlwaysLocated events ↔ bus.AlwaysTimely events := by
  have hinv : bus.Inv := by
    refine ⟨by simp [init.found], fun i x hx hsome => ?_, by simp [init.found], ?_, ?_⟩
    · simp [(init.sensors x (List.mem_of_getElem? hx)).1] at hsome
    · simp [init.poll, Poll.sensors]
    · simp [init.poll, Poll.sensors]
  have hlocated : bus.Located := by simp [Located, init.found]
  have hexact : ∀ s event t, Inv s → Located s → Step s event t →
      Inv t ∧ (Located t ↔ Timely s event) := fun _ _ _ h hlocated hstep => h.step hlocated hstep
  have hunique : ∀ s event t t', Step s event t → Step s event t' → t = t' :=
    fun _ _ _ _ hstep => hstep.deterministic
  exact run.states_iff hunique hexact hinv hlocated

/-! ## A late read and a second sensor -/

/-- A slave of a DS18B20. -/
def thermometer : Slave :=
  ⟨0x28, [0x00, 0x00, 0x09, 0x25, 0x20, 0x4e], rfl⟩

/-- A configured sensor of the slave. -/
def oneSensor : OwBus :=
  { mysensors := [{ circuit := "boiler", address := "28.4E2025090000.FF" }] }

/-- Two sensors with the address of the slave in its two spellings. -/
def twoSensors : OwBus :=
  { mysensors :=
      [{ circuit := "boiler", address := "28.4E2025090000.FF" },
       { circuit := "outside", address := "28-00000925204e" }] }

/-- The sensor disappears during its read. -/
def disappears : List Event :=
  [.update (fun _ => false) [thermometer], .read 0, .update (fun _ => false) [], .readDone true]

/-- The read of the sensor ends before the next scan. -/
theorem alwaysLocated_oneSensor :
    oneSensor.AlwaysLocated
      [.update (fun _ => false) [thermometer], .read 0, .readDone true] := by
  let found := oneSensor.updated (fun _ => false) [thermometer]
  let reading := found.readNext [0]
  have hread : Transition.Run Step oneSensor [.update (fun _ => false) [thermometer], .read 0]
      reading :=
    .cons (.update _ _) (.single (.read (by decide +kernel) (by decide +kernel)))
  have hpoll : reading.poll = .reading 0 thermometer [] := by decide +kernel
  have hinit : oneSensor.Configured := by
    constructor <;> simp [oneSensor]
  refine (alwaysLocated_iff hinit (hread.append (.single (.readDone true hpoll)))).mpr ?_
  intro before event after bus' hsplit hrun
  rcases before with _ | ⟨e, _ | ⟨e', _ | ⟨e'', before⟩⟩⟩ <;>
    simp only [List.nil_append, List.cons_append, List.cons.injEq] at hsplit
  · obtain ⟨rfl, -⟩ := hsplit
    cases hrun
    intro _ i j x y hx _ hj
    have hi := (List.getElem?_eq_some_iff.mp hx).1
    simp only [oneSensor, List.length_singleton] at hi
    omega
  · obtain ⟨-, rfl, -⟩ := hsplit
    trivial
  · obtain ⟨rfl, rfl, rfl, -⟩ := hsplit
    obtain rfl := hrun.deterministic (fun _ _ _ _ hstep => hstep.deterministic) hread
    intro _ sensor sens group hreading
    obtain ⟨rfl, -⟩ := Poll.reading.inj (hpoll.symm.trans hreading)
    decide +kernel
  · simp at hsplit

theorem not_alwaysLocated :
    ¬ oneSensor.AlwaysLocated disappears ∧
      ¬ twoSensors.AlwaysLocated [.update (fun _ => false) [thermometer]] := by
  constructor
  · intro h
    let found := oneSensor.updated (fun _ => false) [thermometer]
    let reading := found.readNext [0]
    let missing := reading.updated (fun _ => false) []
    let late := missing.readDone 0 true []
    have hpoll : missing.poll = .reading 0 thermometer [] := by decide +kernel
    have hlocated := h disappears [] late (by simp) <|
      .cons (.update _ _) <| .cons (.read (by decide +kernel) (by decide +kernel)) <|
      .cons (.update _ _) <| .cons (.readDone true hpoll) <|
      .nil _
    have hlost := hlocated [] (by decide +kernel)
      { circuit := "boiler", address := "28.4E2025090000.FF" } (by decide +kernel)
    simp at hlost
  · intro h
    have hlocated := h [.update (fun _ => false) [thermometer]] [] _ (by simp)
      (.single (.update _ _))
    have hlost := hlocated [thermometer] (by decide +kernel)
      { circuit := "outside", address := "28-00000925204e" } (by decide +kernel)
    simp at hlost

end OwBus

end W1

end Evok
