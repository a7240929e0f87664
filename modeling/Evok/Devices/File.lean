import Evok.Devices.Resolve

/-!
# The alias file

The saved records are the loaded ones of the devices not registered and the ones of the aliases.
A fresh process which loads them gives each registered device its alias, the other records wait.
An orphaned name is saved as an alias of its device, which then gets it from the file.

## Main definitions

* `Registry.StepOfRegistered`: an operation of the API, which finds the device by its name.
* `Registry.Owned`: every alias is of a registered device.
* `Registry.Restored`: the fresh process after some registrations.
* `Registry.RoundTrips`: a save and a load restore the aliases and the records.
* `Registry.Clean`: the removal of a name which leaves no orphan.

## Main results

* `Registry.lookup_getDictToSave`: the saved record of a name.
* `Registry.Step.dirty`: an operation which changes the saved records sets the dirty flag.
* `Registry.not_roundTrips_of_orphan`: an orphan becomes an alias or its record is lost.
* `Registry.alias_round_trip_iff`: the runs in which every state survives a save and a load.
-/

namespace Evok

namespace Devices

/-! ## Records -/

/-- A record of the current version. -/
def Upgraded (record : Record) : Prop :=
  upgrade record = record

/-- The names of the types are not numbers. -/
theorem oldNumber_name : ∀ name ∈ devtypes ++ devtypeAltnames.map (·.1),
    oldNumber (.str name) = none := by
  decide

theorem upgraded_of_name {devtype : String} (h : oldNumber (.str devtype) = none)
    (circuit : Scalar) : Upgraded ⟨.str devtype, circuit⟩ := by
  simp [Upgraded, upgrade, h]

theorem upgrade_upgrade (record : Record) : Upgraded (upgrade record) := by
  unfold upgrade
  split
  · next name hname =>
    obtain ⟨n, -, hlookup⟩ := Option.bind_eq_some_iff.mp hname
    split at hlookup
    · obtain ⟨l₁, l₂, hsplit, -⟩ := List.lookup_eq_some_iff.mp hlookup
      have hmem : name ∈ devtypes := by
        rw [devtypes, hsplit]
        simp
      exact upgraded_of_name (oldNumber_name name (List.mem_append_left _ hmem)) _
    · cases hlookup
  · next hnone => simp [Upgraded, upgrade, hnone]

theorem upgraded_of_devtype {devtype key : String} (h : dictOf devtype = some key)
    (circuit : Scalar) : Upgraded ⟨.str devtype, circuit⟩ := by
  refine upgraded_of_name (oldNumber_name devtype ?_) circuit
  unfold dictOf at h
  split at h
  · next hmem => exact List.mem_append_left _ hmem
  · obtain ⟨hlookup, -⟩ := Option.filter_eq_some_iff.mp h
    obtain ⟨l₁, l₂, hsplit, -⟩ := List.lookup_eq_some_iff.mp hlookup
    refine List.mem_append_right _ ?_
    rw [hsplit]
    simp

namespace Registry

variable {ι : Type} [DecidableEq ι] {dev : ι → Device} {r : Registry ι}

/-- The record of a device. -/
def recordOf (dev : ι → Device) (d : ι) : Record :=
  ⟨.str (dev d).devtype, .str (dev d).circuit⟩

omit [DecidableEq ι] in
theorem lookup_getDictToSave (r : Registry ι) (name : String) :
    (r.getDictToSave dev).lookup name =
      ((r.aliasDict.lookup name).map (recordOf dev)).or (r.initialDict.lookup name) := by
  unfold getDictToSave
  rw [Dict.lookup_update, Dict.lookup_filterMapValues]
  cases r.aliasDict.lookup name <;> rfl

omit [DecidableEq ι] in
theorem belongs_recordOf {d e : ι} :
    belongs (recordOf dev e) (dev d).devtype (dev d).circuit ↔
      (dev e).devtype = (dev d).devtype ∧ (dev e).circuit = (dev d).circuit := by
  simp [belongs, recordOf]

/-! ## Changes of the records -/

omit [DecidableEq ι] in
theorem delete_of_notMem {name : String} (hdict : name ∉ r.aliasDict)
    (hinit : name ∉ r.initialDict) : r.delete name = r := by
  have hdirty : (r.dirty || name ∈ r.aliasDict || name ∈ r.initialDict) = r.dirty := by
    simp [hdict, hinit]
  have hdict' : r.aliasDict.erase name = r.aliasDict := AList.ext (List.kerase_of_notMem_keys hdict)
  have hinit' : r.initialDict.erase name = r.initialDict :=
    AList.ext (List.kerase_of_notMem_keys hinit)
  rw [delete, hdirty, hdict', hinit']

omit [DecidableEq ι] in
theorem delete_dirty (r : Registry ι) (name : String) :
    (r.delete name).dirty = true ∨ r.delete name = r := by
  by_cases hmem : name ∈ r.aliasDict ∨ name ∈ r.initialDict
  · left
    rcases hmem with hmem | hmem <;> simp [delete, hmem]
  · rw [not_or] at hmem
    exact .inr (delete_of_notMem hmem.1 hmem.2)

omit [DecidableEq ι] in
theorem deleteOwn_dirty (r : Registry ι) (d : ι) :
    (r.deleteOwn d).dirty = true ∨ r.deleteOwn d = r := by
  unfold deleteOwn
  split
  · exact r.delete_dirty _
  · exact .inr rfl

/-- The saved aliases of a device set the dirty flag. -/
theorem foldl_assignSaved_dirty (dev : ι → Device) (names : List String) (r : Registry ι) (d : ι) :
    (names.foldl (assignSaved dev d) r).dirty = true ∨
      names.foldl (assignSaved dev d) r = r := by
  induction names generalizing r with
  | nil => exact .inr rfl
  | cons name names ih =>
    rw [List.foldl_cons]
    rcases r.add_cases dev name d with ⟨e, hadd, -⟩ | ⟨r', hadd, hattr, -⟩
    · have hsame : assignSaved dev d r name = r := by simp [assignSaved, hadd]
      rw [hsame]
      exact ih r
    · have hassign : assignSaved dev d r name = r.assign name d := by simp [assignSaved, hadd, hattr]
      rw [hassign]
      rcases ih (r.assign name d) with hdirty | hsame
      · exact .inl hdirty
      · rw [hsame]
        exact .inl rfl

/-- An operation which does not set the dirty flag does not change the saved records. -/
theorem Step.dirty {op : Op ι} {r' : Registry ι} (h : r.Step dev op r') :
    r'.dirty = true ∨ r'.getDictToSave dev = r.getDictToSave dev := by
  rcases h.cases with rfl | ⟨d, key, -, hkey, rfl⟩ | ⟨name, d, -, -, -, -, rfl⟩ |
    ⟨v, d, -, rfl⟩ | ⟨name, d, -, hd, rfl⟩ | ⟨name, -, -, rfl⟩
  · exact .inr rfl
  · rw [registerDevice_eq hkey]
    rcases foldl_assignSaved_dirty dev
      (r.getAliasesByCircuit (dev d).devtype (dev d).circuit) r d with hdirty | hsame
    · exact .inl hdirty
    · right
      rw [hsame]
      rfl
  · exact .inl rfl
  · refine (r.deleteOwn_dirty d).imp id fun hsame => ?_
    unfold reset
    rw [hsame]
    rfl
  · have hmem : name ∈ r.aliasDict := AList.lookup_isSome.mp (by simp [hd])
    left
    simp [release, delete, setAttr, hmem]
  · refine (r.delete_dirty name).imp id fun hsame => ?_
    rw [hsame]

/-! ## Aliases of registered devices -/

/-- An operation of the API: a device whose alias is set was found by its name. -/
def StepOfRegistered (dev : ι → Device) (r : Registry ι) (op : Op ι) (r' : Registry ι) : Prop :=
  r.Step dev op r' ∧ ∀ v d, op = .setAlias v d → r.Registered dev d

/-- Every name is of a registered device, the waiting records have the current version. -/
structure Owned (dev : ι → Device) (r : Registry ι) : Prop where
  registered : ∀ a d, r.aliasDict.lookup a = some d → r.Registered dev d
  upgraded : ∀ name record, r.initialDict.lookup name = some record → Upgraded record

/-- A registered device stays registered. -/
theorem Registered.step {op : Op ι} {r' : Registry ι} (inv : r.Inv dev) {d : ι}
    (h : r.Registered dev d) (hstep : r.Step dev op r') : r'.Registered dev d := by
  obtain ⟨key, hkey, hreg⟩ := h
  refine ⟨key, hkey, ?_⟩
  cases op with
  | register e =>
    cases hkey' : dictOf (dev e).devtype with
    | none =>
      obtain ⟨-, rfl⟩ := hstep
      simpa [exec, registerDevice, hkey'] using hreg
    | some key' =>
      obtain ⟨hfresh, rfl⟩ := hstep
      rw [exec, (registerDevice_spec inv hkey').devices, Dict.lookup_set]
      split
      · next heq =>
        exfalso
        refine hfresh key' hkey' ?_
        rw [← heq]
        exact AList.lookup_isSome.mp (by simp [hreg])
      · exact hreg
  | setAlias v e =>
    rw [hstep.devices (by simp)]
    exact hreg
  | remove name =>
    rw [hstep.devices (by simp)]
    exact hreg

theorem Owned.step {op : Op ι} {r' : Registry ι} (inv : r.Inv dev) (owned : r.Owned dev)
    (h : r.StepOfRegistered dev op r') : r'.Owned dev := by
  obtain ⟨hstep, hop⟩ := h
  have hkept : ∀ a e, r.aliasDict.lookup a = some e → r'.Registered dev e :=
    fun a e he => (owned.registered a e he).step inv hstep
  refine ⟨fun a e he => ?_, fun name record hlookup => ?_⟩
  · rcases hstep.cases with rfl | ⟨d, key, -, hkey, rfl⟩ | ⟨name, d, rfl, -, -, -, rfl⟩ |
      ⟨v, d, -, rfl⟩ | ⟨name, d, -, -, rfl⟩ | ⟨name, -, -, rfl⟩
    · exact hkept a e he
    · have hspec := registerDevice_spec inv hkey
      rcases hspec.aliasDict a e he with rfl | hold
      · exact ⟨key, hkey, by rw [hspec.devices, Dict.lookup_set_self]⟩
      · exact hkept a e hold
    · rw [(r.lookup_assign name d a).1] at he
      have hd : (r.assign name d).Registered dev d := (hop _ d rfl).step inv hstep
      have hold := hkept a e
      grind
    · rw [(r.lookup_reset d a).1] at he
      exact hkept a e (by grind)
    · rw [(r.lookup_release name d a).1] at he
      exact hkept a e (by grind)
    · rw [(r.lookup_delete name a).1] at he
      exact hkept a e (by grind)
  · rcases hstep.initialDict inv name with hnone | hkept
    · simp [hlookup] at hnone
    · exact owned.upgraded name record (by rw [← hkept, hlookup])

omit [DecidableEq ι] in
theorem ofRecords_owned (records : Dict String (Option Record)) :
    (ofRecords records : Registry ι).Owned dev := by
  constructor
  · intro a d hlookup
    simp [ofRecords] at hlookup
  · intro name record hlookup
    simp only [ofRecords, Dict.lookup_filterMapValues] at hlookup
    obtain ⟨record', -, hmap⟩ := Option.bind_eq_some_iff.mp hlookup
    obtain ⟨record'', -, rfl⟩ := Option.map_eq_some_iff.mp hmap
    exact upgrade_upgrade record''

omit [DecidableEq ι] in
/-- Two registered devices differ in their type or circuit. -/
theorem Registered.unique {d e : ι} (hd : r.Registered dev d) (he : r.Registered dev e)
    (hdevtype : (dev e).devtype = (dev d).devtype) (hcircuit : (dev e).circuit = (dev d).circuit) :
    e = d := by
  obtain ⟨key, hkey, hd⟩ := hd
  obtain ⟨key', hkey', he⟩ := he
  rw [hdevtype] at hkey'
  obtain rfl := Option.some.inj (hkey.symm.trans hkey')
  rw [hcircuit] at he
  exact Option.some.inj (he.symm.trans hd)

omit [DecidableEq ι] in
/-- The saved records have the current version. -/
theorem Owned.saved_upgraded (owned : r.Owned dev) {name : String} {record : Record}
    (h : (r.getDictToSave dev).lookup name = some record) : Upgraded record := by
  rw [lookup_getDictToSave] at h
  cases hlookup : r.aliasDict.lookup name with
  | none =>
    rw [hlookup] at h
    exact owned.upgraded name record h
  | some d =>
    rw [hlookup] at h
    obtain rfl := Option.some.inj h
    obtain ⟨key, hkey, -⟩ := owned.registered name d hlookup
    exact upgraded_of_devtype hkey _

omit [DecidableEq ι] in
/-- The only usable saved record of a registered device is the one of its alias. -/
theorem Owned.saved_valid (owned : r.Owned dev) (inv : r.Inv dev)
    (named : ∀ name d, ¬r.Orphan name d) {d : ι} (hreg : r.Registered dev d)
    (halias : (dev d).hasAlias = true) {name : String} {record : Record}
    (h : (r.getDictToSave dev).lookup name = some record)
    (hbelongs : belongs record (dev d).devtype (dev d).circuit) (hvalid : ValidName name) :
    r.aliasOf d = name := by
  have hne : name ≠ "" := fun h => not_validName_empty (h ▸ hvalid)
  rw [lookup_getDictToSave] at h
  cases hlookup : r.aliasDict.lookup name with
  | none =>
    rw [hlookup] at h
    exact absurd hvalid (inv.consumed d hreg halias name record h hbelongs)
  | some e =>
    rw [hlookup] at h
    obtain rfl := Option.some.inj h
    obtain ⟨hdevtype, hcircuit⟩ := belongs_recordOf.mp hbelongs
    have hreg' := owned.registered name e hlookup
    rw [← hreg.unique hreg' hdevtype hcircuit]
    exact (Inv.aliasOf_or_orphan hne hlookup).resolve_right (named name e)

omit [DecidableEq ι] in
theorem saved_alias (inv : r.Inv dev) {d : ι} (hne : r.aliasOf d ≠ "") :
    (r.getDictToSave dev).lookup (r.aliasOf d) = some (recordOf dev d) := by
  rw [lookup_getDictToSave, inv.held d hne]
  rfl

/-! ## The round trip -/

/-- The fresh process `s` after some registrations: the registered devices have the aliases of
the process `r`, its other records wait. -/
structure Restored (dev : ι → Device) (r s : Registry ι) : Prop where
  inv : s.Inv dev
  known : ∀ d, s.Registered dev d → r.Registered dev d ∧ s.aliasOf d = r.aliasOf d
  others : ∀ d, ¬s.Registered dev d → s.aliasOf d = ""
  waiting : ∀ name, s.initialDict.lookup name = (r.getDictToSave dev).lookup name ∨
    s.initialDict.lookup name = none ∧
      ∃ d, s.Registered dev d ∧ r.aliasOf d = name ∧ name ≠ ""

omit [DecidableEq ι] in
/-- A usable record of a device which waits in the fresh process is the one of its alias. -/
theorem Restored.saved_iff {s : Registry ι} (inv : r.Inv dev) (owned : r.Owned dev)
    (named : ∀ name d, ¬r.Orphan name d) (h : Restored dev r s) {d : ι}
    (hreg : r.Registered dev d) (hnew : ¬s.Registered dev d)
    (halias : (dev d).hasAlias = true) (name : String) :
    s.Saved dev d name ∧ ValidName name ↔ r.aliasOf d = name ∧ name ≠ "" := by
  constructor
  · rintro ⟨⟨record, hlookup, hbelongs⟩, hvalid⟩
    have hne : name ≠ "" := fun h => not_validName_empty (h ▸ hvalid)
    rcases h.waiting name with hwait | ⟨hnone, -⟩
    · rw [hwait] at hlookup
      exact ⟨owned.saved_valid inv named hreg halias hlookup hbelongs hvalid, hne⟩
    · simp [hnone] at hlookup
  · rintro ⟨rfl, hne⟩
    refine ⟨⟨recordOf dev d, ?_, belongs_recordOf.mpr ⟨rfl, rfl⟩⟩, inv.validName hne⟩
    rcases h.waiting (r.aliasOf d) with hwait | ⟨-, e, hreg', hsame, -⟩
    · rw [hwait, saved_alias inv hne]
    · obtain rfl := inv.unique hne hsame.symm
      exact absurd hreg' hnew

omit [DecidableEq ι] in
/-- A registered device gets its alias. -/
theorem Restored.savedAlias {s : Registry ι} (inv : r.Inv dev) (owned : r.Owned dev)
    (named : ∀ name d, ¬r.Orphan name d) (h : Restored dev r s) {d : ι}
    (hreg : r.Registered dev d) (hnew : ¬s.Registered dev d) :
    s.savedAlias dev d = r.aliasOf d := by
  unfold Registry.savedAlias
  split
  · next halias =>
    have hmem := h.saved_iff inv owned named hreg hnew halias
    cases hlast : ((s.getAliasesByCircuit (dev d).devtype (dev d).circuit).filter
        (ValidName ·)).getLast? with
    | some name =>
      have hname := List.mem_filter.mp (List.mem_of_getLast? hlast)
      rw [mem_getAliasesByCircuit] at hname
      exact ((hmem name).mp ⟨hname.1, by simpa using hname.2⟩).1.symm
    | none =>
      rw [Option.getD_none, h.others d hnew]
      by_contra hne
      obtain ⟨hsaved, hvalid⟩ := (hmem (r.aliasOf d)).mpr ⟨rfl, Ne.symm hne⟩
      have hin : r.aliasOf d ∈ (s.getAliasesByCircuit (dev d).devtype (dev d).circuit).filter
          (ValidName ·) :=
        List.mem_filter.mpr ⟨mem_getAliasesByCircuit.mpr hsaved, by simpa using hvalid⟩
      rw [List.getLast?_eq_none_iff.mp hlast] at hin
      cases hin
  · next halias =>
    rw [h.others d hnew]
    by_contra hne
    exact halias (inv.hasAlias (Ne.symm hne))

theorem Restored.register {s t : Registry ι} (inv : r.Inv dev) (owned : r.Owned dev)
    (named : ∀ name d, ¬r.Orphan name d) (h : Restored dev r s) {d : ι}
    (hreg : r.Registered dev d) (hstep : s.Step dev (.register d) t) : Restored dev r t := by
  obtain ⟨key, hkey, -⟩ := id hreg
  have hnew : ¬s.Registered dev d := by
    rintro ⟨key', hkey', hlookup⟩
    exact hstep.1 key' hkey' (AList.lookup_isSome.mp (by simp [hlookup]))
  have hsaved := h.savedAlias inv owned named hreg hnew
  have hinvt := h.inv.step hstep
  have hspec := registerDevice_spec h.inv hkey
  rw [show (s.registerDevice dev (dev d).devtype d).1 = t from hstep.2] at hspec
  have hself : t.Registered dev d := ⟨key, hkey, by rw [hspec.devices, Dict.lookup_set_self]⟩
  have hold : ∀ e, e ≠ d → t.Registered dev e → s.Registered dev e := by
    rintro e hed ⟨key', hkey', hlookup⟩
    refine ⟨key', hkey', ?_⟩
    rw [hspec.devices, Dict.lookup_set] at hlookup
    split at hlookup
    · exact absurd (Option.some.inj hlookup).symm hed
    · exact hlookup
  refine ⟨hinvt, ?_, ?_, ?_⟩
  · intro e he
    by_cases hed : e = d
    · subst hed
      exact ⟨hreg, hspec.aliasOf.trans hsaved⟩
    · rw [hspec.others e hed]
      exact h.known e (hold e hed he)
  · intro e he
    have hed : e ≠ d := by
      rintro rfl
      exact he hself
    rw [hspec.others e hed]
    exact h.others e fun hs => he (hs.step h.inv hstep)
  · intro name
    rw [hspec.initialDict name]
    split
    · next hmem =>
      obtain ⟨hhas, hname, hvalid⟩ := hmem
      have hown := (h.saved_iff inv owned named hreg hnew hhas name).mp
        ⟨mem_getAliasesByCircuit.mp hname, hvalid⟩
      exact .inr ⟨rfl, d, hself, hown.1, hown.2⟩
    · rcases h.waiting name with hwait | ⟨hnone, e, he, hown⟩
      · exact .inl hwait
      · exact .inr ⟨hnone, e, he.step h.inv hstep, hown⟩

omit [DecidableEq ι] in
theorem recordOf_of_belongs {d : ι} {record : Record}
    (h : belongs record (dev d).devtype (dev d).circuit) : recordOf dev d = record := by
  obtain ⟨devtype, circuit⟩ := record
  simp only [belongs, Bool.and_eq_true, decide_eq_true_eq] at h
  rw [h.1, h.2, recordOf]

omit [DecidableEq ι] in
/-- The records are saved again. -/
theorem Restored.saved {s : Registry ι} (inv : r.Inv dev) (h : Restored dev r s) {name : String}
    {record : Record} (hsaved : (r.getDictToSave dev).lookup name = some record) :
    (s.getDictToSave dev).lookup name = some record := by
  rcases h.waiting name with hwait | ⟨-, d, hreg, rfl, hne⟩
  · rw [hsaved] at hwait
    rw [lookup_getDictToSave]
    cases hlookup : s.aliasDict.lookup name with
    | none => exact hwait
    | some e =>
      -- only the record of the name `""` is kept beside its device
      obtain rfl : name = "" := by
        by_contra hne
        have hnone := h.inv.disjoint name hne (by simp [hlookup])
        rw [hwait] at hnone
        cases hnone
      obtain ⟨record', hrecord, hbelongs⟩ := h.inv.unnamed e hlookup
      obtain rfl := Option.some.inj (hwait.symm.trans hrecord)
      exact congrArg some (recordOf_of_belongs hbelongs)
  · obtain ⟨-, halias⟩ := h.known d hreg
    rw [saved_alias inv hne] at hsaved
    rw [← halias] at hne ⊢
    rw [saved_alias h.inv hne, hsaved]

omit [DecidableEq ι] in
/-- The waiting records of a fresh process are the saved ones, in any order. -/
theorem initialDict_load (owned : r.Owned dev) {loaded : Dict String (Option Record)}
    (hperm : ∀ name, loaded.lookup name = ((r.getDictToSave dev).lookup name).map some)
    (name : String) : (ofRecords loaded : Registry ι).initialDict.lookup name =
      (r.getDictToSave dev).lookup name := by
  rw [ofRecords, Dict.lookup_filterMapValues, hperm name]
  cases hsaved : (r.getDictToSave dev).lookup name with
  | none => rfl
  | some record =>
    have hup := owned.saved_upgraded hsaved
    simpa [Upgraded] using hup

omit [DecidableEq ι] in
/-- The loaded file, its records in any order. -/
theorem Restored.load (owned : r.Owned dev) {loaded : Dict String (Option Record)}
    (hperm : ∀ name, loaded.lookup name = ((r.getDictToSave dev).lookup name).map some) :
    Restored dev r (ofRecords loaded) := by
  have hreg : ∀ d, ¬(ofRecords loaded : Registry ι).Registered dev d := by
    rintro d ⟨key, -, hlookup⟩
    simp [ofRecords] at hlookup
  exact ⟨ofRecords_inv _, fun d hd => absurd hd (hreg d), fun d _ => rfl,
    fun name => .inl (initialDict_load owned hperm name)⟩

/-- The devices of a run of registrations are registered at its end. -/
theorem registered_of_run {s t : Registry ι} (inv : s.Inv dev) {devices : List ι}
    (htype : ∀ d ∈ devices, ∃ key, dictOf (dev d).devtype = some key)
    (h : Transition.Run (Step dev) s (devices.map .register) t) :
    ∀ d ∈ devices, t.Registered dev d := by
  induction devices generalizing s with
  | nil => simp
  | cons d devices ih =>
    cases h with
    | @cons _ u _ _ _ head tail =>
      obtain ⟨hd, hrest⟩ := List.forall_mem_cons.mp htype
      refine List.forall_mem_cons.mpr ⟨?_, ih (inv.step head) hrest tail⟩
      obtain ⟨key, hkey⟩ := hd
      have hspec := registerDevice_spec inv hkey
      rw [show (s.registerDevice dev (dev d).devtype d).1 = u from head.2] at hspec
      have hu : u.Registered dev d :=
        ⟨key, hkey, by rw [hspec.devices, Dict.lookup_set_self]⟩
      have hkept : t.Inv dev ∧ t.Registered dev d := by
        refine tail.invariant (I := fun r => r.Inv dev ∧ r.Registered dev d) ?_ ⟨inv.step head, hu⟩
        rintro v op w ⟨hv, hreg⟩ hstep
        exact ⟨hv.step hstep, hreg.step hv hstep⟩
      exact hkept.2

/-- A fresh process which loads the saved file, its records in any order, and registers devices of
the old one in any order gives each of them its alias; it saves every record again. -/
def RoundTrips (dev : ι → Device) (r : Registry ι) : Prop :=
  ∀ (records loaded : Dict String (Option Record)) (s₀ s : Registry ι) (devices : List ι),
    (savedFile (r.getDictToSave dev)).aliases = .dict records →
    loaded.entries.Perm records.entries →
    loadAliases (some ⟨.str "2.0", .dict loaded⟩) = some s₀ →
    (∀ d ∈ devices, r.Registered dev d) →
    Transition.Run (Step dev) s₀ (devices.map .register) s →
    (∀ d ∈ devices, s.aliasOf d = r.aliasOf d) ∧
      ∀ name record, (r.getDictToSave dev).lookup name = some record →
        (s.getDictToSave dev).lookup name = some record

omit [DecidableEq ι] in
theorem lookup_loaded {records loaded : Dict String (Option Record)}
    (hsaved : (savedFile (r.getDictToSave dev)).aliases = .dict records)
    (hperm : loaded.entries.Perm records.entries) (name : String) :
    loaded.lookup name = ((r.getDictToSave dev).lookup name).map some := by
  obtain rfl := AliasNode.dict.inj hsaved
  rw [AList.perm_lookup hperm, Dict.lookup_filterMapValues]
  cases (r.getDictToSave dev).lookup name <;> rfl

/-- Without an orphan the aliases and the records return. -/
theorem roundTrips_of_named (inv : r.Inv dev) (owned : r.Owned dev)
    (named : ∀ name d, ¬r.Orphan name d) : r.RoundTrips dev := by
  intro records loaded s₀ s devices hsaved hperm hload hdevices hregister
  obtain rfl : ofRecords loaded = s₀ := Option.some.inj hload
  have hrestored : Restored dev r s := by
    refine hregister.invariant_of_labels (P := fun op => ∃ d, op = .register d ∧ r.Registered dev d)
      ?_ ?_ (.load owned (lookup_loaded hsaved hperm))
    · rintro t op u ⟨d, rfl, hreg⟩ ht hstep
      exact ht.register inv owned named hreg hstep
    · intro op hop
      obtain ⟨d, hd, rfl⟩ := List.mem_map.mp hop
      exact ⟨d, rfl, hdevices d hd⟩
  refine ⟨fun d hd => ?_, fun name record => hrestored.saved inv⟩
  have htype : ∀ d ∈ devices, ∃ key, dictOf (dev d).devtype = some key := by
    intro d hd
    obtain ⟨key, hkey, -⟩ := hdevices d hd
    exact ⟨key, hkey⟩
  exact (hrestored.known d (registered_of_run (ofRecords_inv _) htype hregister d hd)).2

/-- An orphan becomes the alias of its device, or its record is lost. -/
theorem not_roundTrips_of_orphan (inv : r.Inv dev) (owned : r.Owned dev) {name : String} {d : ι}
    (orphan : r.Orphan name d) : ¬r.RoundTrips dev := by
  intro trips
  obtain ⟨hne, hlookup, hother⟩ := orphan
  obtain ⟨hvalid, halias⟩ := inv.usable name d hne hlookup
  have hreg := owned.registered name d hlookup
  obtain ⟨key, hkey, -⟩ := id hreg
  obtain ⟨records, hsaved⟩ : ∃ records,
      (savedFile (r.getDictToSave dev)).aliases = .dict records := ⟨_, rfl⟩
  have hinit := initialDict_load (ι := ι) owned (lookup_loaded hsaved (List.Perm.refl _))
  have hname : (r.getDictToSave dev).lookup name = some (recordOf dev d) := by
    rw [lookup_getDictToSave, hlookup]
    rfl
  have hwaits : (ofRecords records : Registry ι).Saved dev d name :=
    ⟨recordOf dev d, by rw [hinit, hname], belongs_recordOf.mpr ⟨rfl, rfl⟩⟩
  have hmem := mem_getAliasesByCircuit.mpr hwaits
  have hfresh : Fresh dev (ofRecords records : Registry ι) (.register d) := by
    intro key' _
    exact AList.notMem_empty _
  have hspec := registerDevice_spec (ofRecords_inv records) hkey
  obtain ⟨halias', hrecords⟩ := trips records records _ _ [d] hsaved (List.Perm.refl _) rfl
    (by simpa using hreg) (.single ⟨hfresh, rfl⟩)
  -- the record was consumed, so the name is in the dictionary of the fresh process
  have hkept := hrecords name _ hname
  rw [lookup_getDictToSave] at hkept
  cases hdict : ((ofRecords records).exec dev (.register d)).1.aliasDict.lookup name with
  | none =>
    rw [hdict, exec, hspec.initialDict name, if_pos ⟨halias, hmem, hvalid⟩] at hkept
    cases hkept
  | some e =>
    have hown : ((ofRecords records).exec dev (.register d)).1.aliasOf e = name := by
      refine (Inv.aliasOf_or_orphan hne hdict).resolve_right fun horphan => ?_
      rw [exec, hspec.orphan] at horphan
      simp [Orphan, ofRecords] at horphan
    obtain rfl : e = d := by
      rcases hspec.aliasDict name e hdict with rfl | hold
      · rfl
      · simp [ofRecords] at hold
    exact hother ((halias' e (by simp)).symm.trans hown)

/-! ## Runs -/

/-- The name `""` is not removed while its device has an alias. -/
def Clean (r : Registry ι) : Op ι → Prop
  | .remove name => name = "" → ∀ d, r.aliasDict.lookup "" = some d → r.aliasOf d = ""
  | _ => True

/-- The operations which leave no orphan. -/
theorem named_step_iff {op : Op ι} {r' : Registry ι} (inv : r.Inv dev)
    (named : ∀ name d, ¬r.Orphan name d) (h : r.Step dev op r') :
    (∀ name d, ¬r'.Orphan name d) ↔ r.Clean op := by
  by_cases hop : ∃ n e, op = .remove n ∧ r.aliasDict.lookup n = some e
  · obtain ⟨n, e, rfl, he⟩ := hop
    have hr' : r' = r.release n e := by
      rcases r.remove_cases n with ⟨_, hremove⟩ | ⟨e', he', hremove⟩ | ⟨hnone, -⟩
      · unfold remove at hremove
        have hmem : n ∈ r.aliasDict := AList.lookup_isSome.mp (by simp [he])
        simp [hmem] at hremove
      · obtain rfl := Option.some.inj (he.symm.trans he')
        exact h.2.symm.trans (congrArg Prod.fst hremove)
      · simp [he] at hnone
    subst hr'
    constructor
    · rintro hnamed rfl d hd
      obtain rfl := Option.some.inj (he.symm.trans hd)
      by_contra hne
      exact hnamed (r.aliasOf e) e (inv.orphan_release.mpr ⟨hne, .inr ⟨rfl, hne, rfl⟩⟩)
    · intro clean name d horphan
      obtain ⟨hne, horphan | ⟨rfl, hname, hown⟩⟩ := inv.orphan_release.mp horphan
      · exact named name d horphan
      · by_cases hn : n = ""
        · subst hn
          exact hname (hown.symm.trans (clean rfl d he))
        · have := (Inv.aliasOf_or_orphan hn he).resolve_right (named n d)
          exact hne (hown.symm.trans this)
  · have hclean : r.Clean op := by
      cases op with
      | remove name =>
        rintro rfl d hd
        exact absurd ⟨_, d, rfl, hd⟩ hop
      | _ => trivial
    refine ⟨fun _ => hclean, fun _ name d => ?_⟩
    rw [h.orphan_iff inv fun n e hn he => hop ⟨n, e, hn, he⟩]
    exact named name d

/-- In a run from a loaded file the saved file of every state restores all aliases and records if
and only if the name `""` is never removed while its device has an alias. -/
theorem alias_round_trip_iff {file : Option AliasFile} {r₀ : Registry ι}
    (hload : loadAliases file = some r₀) {ops : List (Op ι)}
    (hrun : Transition.Run (StepOfRegistered dev) r₀ ops r) :
    (∀ before after s, ops = before ++ after →
      Transition.Run (StepOfRegistered dev) r₀ before s → s.RoundTrips dev) ↔
      ∀ before op after s, ops = before ++ op :: after →
        Transition.Run (StepOfRegistered dev) r₀ before s → s.Clean op := by
  have trips_iff : ∀ s : Registry ι, s.Inv dev → s.Owned dev →
      (s.RoundTrips dev ↔ ∀ name d, ¬s.Orphan name d) := fun s inv owned =>
    ⟨fun trips name d orphan => not_roundTrips_of_orphan inv owned orphan trips,
      roundTrips_of_named inv owned⟩
  have inv₀ : r₀.Inv dev := .load hload
  have owned₀ : r₀.Owned dev := by
    obtain ⟨records, rfl⟩ := loadAliases_eq hload
    exact ofRecords_owned records
  refine hrun.states_iff (I := fun s => s.Inv dev ∧ s.Owned dev) (P := RoundTrips dev)
    (Q := Clean) (fun s op t t' h h' => Step.unique s op t t' h.1 h'.1) ?_ ⟨inv₀, owned₀⟩
    ((trips_iff r₀ inv₀ owned₀).mpr (not_orphan_load hload))
  rintro s op t ⟨inv, owned⟩ trips hstep
  have inv' := inv.step hstep.1
  have owned' := owned.step inv hstep
  refine ⟨⟨inv', owned'⟩, ?_⟩
  rw [trips_iff t inv' owned']
  exact named_step_iff inv ((trips_iff s inv owned).mp trips) hstep.1

/-- The registry of the first relay with the alias `pump`. -/
def pumpRegistry : Registry (Fin 3) :=
  (exec relays (exec relays {} (.register firstRelay)).1 (.setAlias (.str "pump") firstRelay)).1

theorem pumpRegistry_run : Transition.Run (StepOfRegistered relays) {}
    [.register 0, .setAlias (.str "pump") 0] pumpRegistry := by
  refine .cons ⟨⟨fun _ _ => AList.notMem_empty _, rfl⟩, by simp⟩ (.cons ⟨⟨trivial, rfl⟩, ?_⟩
    (.nil _))
  rintro v d hop
  obtain ⟨-, rfl⟩ := Op.setAlias.inj hop
  exact ⟨"ro", by decide, by decide⟩

theorem alias_round_trip_iff_relays :
    ∃ s₀ s : Registry (Fin 3),
      loadAliases (some (savedFile (pumpRegistry.getDictToSave relays))) = some s₀ ∧
        Transition.Run (Step relays) s₀ [.register 0] s ∧ s.aliasOf 0 = "pump" := by
  have hload : loadAliases none = some ({} : Registry (Fin 3)) := rfl
  have hregistered : ∀ d ∈ [(0 : Fin 3)], pumpRegistry.Registered relays d := by
    intro d hd
    obtain rfl := List.mem_singleton.mp hd
    exact ⟨"ro", by decide, by decide⟩
  refine ⟨_, _, rfl, .cons ⟨fun _ _ => AList.notMem_empty _, rfl⟩ (.nil _), ?_⟩
  have htrips : pumpRegistry.RoundTrips relays := by
    refine (alias_round_trip_iff hload pumpRegistry_run).mpr ?_ _ [] _ (List.append_nil _).symm
      pumpRegistry_run
    -- no name is removed
    intro before op after s hsplit _
    have hmem : op ∈ [Op.register (0 : Fin 3), .setAlias (.str "pump") 0] := by
      rw [hsplit]
      simp
    rcases List.mem_pair.mp hmem with rfl | rfl <;> trivial
  have h := htrips _ _ _ _ _ rfl (List.Perm.refl _) rfl hregistered
    (.cons ⟨fun _ _ => AList.notMem_empty _, rfl⟩ (.nil _))
  exact (h.1 0 (by simp)).trans (by decide)

/-- A file with a record of the first relay under the name `""`. -/
def unnamedFile : AliasFile :=
  { version := .str "2.0"
    aliases := .dict (Dict.set ∅ "" (some ⟨.str "ro", .str "1_01"⟩)) }

/-- The registry of this file, whose relay got the alias `pump` before the name is removed. -/
def orphanRegistry : Registry (Fin 3) :=
  (exec relays (exec relays (exec relays ((loadAliases (some unnamedFile)).getD {})
    (.register firstRelay)).1 (.setAlias (.str "pump") firstRelay)).1 (.remove "")).1

/-- The relay has no alias any more, and gets `pump` from the saved file. -/
theorem not_alias_round_trip : ¬∀ (file : Option AliasFile) (r₀ r : Registry (Fin 3))
    (ops : List (Op (Fin 3))), loadAliases file = some r₀ →
    Transition.Run (StepOfRegistered relays) r₀ ops r → r.RoundTrips relays := by
  intro hall
  have hrun : Transition.Run (StepOfRegistered relays) ((loadAliases (some unnamedFile)).getD {})
      [.register 0, .setAlias (.str "pump") 0, .remove ""] orphanRegistry := by
    refine .cons ⟨⟨fun _ _ => AList.notMem_empty _, rfl⟩, by simp⟩ (.cons ⟨⟨trivial, rfl⟩, ?_⟩
      (.cons ⟨⟨trivial, rfl⟩, by simp⟩ (.nil _)))
    rintro v d hop
    obtain ⟨-, rfl⟩ := Op.setAlias.inj hop
    exact ⟨"ro", by decide, by decide⟩
  have hregistered : ∀ d ∈ [(0 : Fin 3)], orphanRegistry.Registered relays d := by
    intro d hd
    obtain rfl := List.mem_singleton.mp hd
    exact ⟨"ro", by decide, by decide⟩
  have hload : loadAliases (some unnamedFile) =
      some ((loadAliases (some unnamedFile)).getD {} : Registry (Fin 3)) := rfl
  have h := hall _ _ _ _ hload hrun _ _ _ _ [0] rfl (List.Perm.refl _) rfl hregistered
    (.single ⟨fun _ _ => AList.notMem_empty _, rfl⟩)
  exact absurd (h.1 0 (by simp)) (by decide)

end Registry

end Devices

end Evok
