import Evok.Devices.Invariant

/-!
# Aliases and devices

Every alias has one device and every device one alias, also the loaded names keep their devices
until they are removed.

## Main definitions

* `Registry.Exact`: the registry of a file without the empty name.
* `Registry.Keeping`: an operation after which a name is still an alias or a loaded name.

## Main results

* `Registry.exec_error`: an operation which raises changes no alias.
* `Registry.alias_bijection`: the aliases over the runs from a loaded file.
-/

namespace Evok

namespace Devices

namespace Registry

variable {ι : Type} [DecidableEq ι] {dev : ι → Device} {r : Registry ι}

/-- An operation which raises changes nothing. -/
theorem exec_error {op : Op ι} {r' : Registry ι} {e : AliasError}
    (h : r.exec dev op = (r', .error e)) : r' = r := by
  cases op with
  | register d =>
    change r.registerDevice dev (dev d).devtype d = _ at h
    unfold registerDevice at h
    split at h
    · exact (Prod.mk.inj h).1.symm
    · cases (Prod.mk.inj h).2
  | setAlias v d =>
    change r.setAlias dev v d = _ at h
    rcases r.setAlias_cases dev v d with
      ⟨e', h'⟩ | ⟨-, h'⟩ | ⟨-, h'⟩ | ⟨name, -, -, -, -, h'⟩ <;> rw [h'] at h
    · exact (Prod.mk.inj h).1.symm
    all_goals cases (Prod.mk.inj h).2
  | remove name =>
    change r.remove name = _ at h
    unfold remove at h
    split at h
    · exact (Prod.mk.inj h).1.symm
    · cases (Prod.mk.inj h).2

/-! ## Files without the empty name -/

/-- The registry of a file without the name `""`: it has no orphans. -/
structure Exact (dev : ι → Device) (r : Registry ι) : Prop extends inv : r.Inv dev where
  noEmpty : r.initialDict.lookup "" = none
  named : ∀ name d, ¬r.Orphan name d

namespace Exact

omit [DecidableEq ι] in
theorem aliasDict_empty (h : r.Exact dev) : r.aliasDict.lookup "" = none := by
  by_contra hmem
  obtain ⟨d, hd⟩ := Option.ne_none_iff_exists'.mp hmem
  obtain ⟨record, hrecord, -⟩ := h.unnamed d hd
  simp [h.noEmpty] at hrecord

omit [DecidableEq ι] in
theorem dict (h : r.Exact dev) (a : String) (d : ι) (hne : a ≠ "") :
    r.aliasDict.lookup a = some d ↔ r.aliasOf d = a := by
  constructor
  · intro hlookup
    exact (Inv.aliasOf_or_orphan hne hlookup).resolve_right (h.named a d)
  · rintro rfl
    exact h.held d hne

omit [DecidableEq ι] in
theorem apart (h : r.Exact dev) (a : String) (hmem : r.aliasDict.lookup a ≠ none) :
    r.initialDict.lookup a = none := by
  refine h.disjoint a ?_ hmem
  rintro rfl
  exact hmem h.aliasDict_empty

theorem step (h : r.Exact dev) {op : Op ι} {r' : Registry ι} (hstep : r.Step dev op r') :
    r'.Exact dev := by
  have inv' := h.inv.step hstep
  refine ⟨inv', ?_, fun name d => ?_⟩
  · rcases hstep.initialDict h.inv "" with hnone | hsame
    · exact hnone
    · rw [hsame, h.noEmpty]
  · by_cases hop : ∃ n e, op = .remove n ∧ r.aliasDict.lookup n = some e
    · obtain ⟨n, e, rfl, he⟩ := hop
      have hn : n ≠ "" := by
        rintro rfl
        simp [h.aliasDict_empty] at he
      rcases hstep.cases with rfl | ⟨_, _, hop, -⟩ | ⟨_, _, hop, -⟩ | ⟨_, _, hop, -⟩ |
        ⟨n', e', hop, he', rfl⟩ | ⟨n', hop, hnone, -⟩
      · exact h.named name d
      · cases hop
      · cases hop
      · cases hop
      · obtain rfl := Op.remove.inj hop
        obtain rfl := Option.some.inj (he.symm.trans he')
        rw [h.inv.orphan_release]
        rintro ⟨hne, horphan | ⟨-, -, hown⟩⟩
        · exact h.named name d horphan
        · exact hne (hown.symm.trans ((h.dict n e hn).mp he))
      · obtain rfl := Op.remove.inj hop
        simp [he] at hnone
    · rw [hstep.orphan_iff h.inv fun n e hn he => hop ⟨n, e, hn, he⟩]
      exact h.named name d

omit [DecidableEq ι] in
theorem load {file : Option AliasFile} {r₀ : Registry ι} (hload : loadAliases file = some r₀)
    (hempty : "" ∉ r₀.initialDict) : r₀.Exact dev :=
  ⟨.load hload, AList.lookup_eq_none.mpr hempty, not_orphan_load hload⟩

end Exact

/-! ## Reserved names -/

/-- The name is the alias of a device or a loaded name. -/
def Present (r : Registry ι) (name : String) : Prop :=
  name ∈ r.aliasDict ∨ name ∈ r.initialDict

/-- An operation after which the name is not removed. -/
def Keeping (dev : ι → Device) (name : String) (r : Registry ι) (op : Op ι) (r' : Registry ι) :
    Prop :=
  r.Step dev op r' ∧ r'.Present name

/-- The loaded name waits for its device, or a device of its record has it. -/
def Reserved (dev : ι → Device) (r : Registry ι) (name : String) (record : Record) : Prop :=
  r.initialDict.lookup name = some record ∨
    ∃ d, r.aliasDict.lookup name = some d ∧ belongs record (dev d).devtype (dev d).circuit

theorem Reserved.step {name : String} {record : Record} {op : Op ι} {r' : Registry ι}
    (exact : r.Exact dev) (hne : name ≠ "") (h : r.Reserved dev name record)
    (hstep : Keeping dev name r op r') : r'.Reserved dev name record := by
  obtain ⟨hstep, hpresent⟩ := hstep
  cases hinit : r'.initialDict.lookup name with
  | some record' =>
    -- the record is not changed while it waits
    have hold : r.initialDict.lookup name = some record' := by
      rcases hstep.initialDict exact.inv name with hnone | hsame
      · simp [hinit] at hnone
      · rw [← hsame, hinit]
    rcases h with hwait | ⟨d, hd, -⟩
    · obtain rfl := Option.some.inj (hold.symm.trans hwait)
      exact .inl hinit
    · simp [exact.apart name (by simp [hd])] at hold
  | none =>
    have hmem : name ∈ r'.aliasDict := by
      refine hpresent.resolve_right ?_
      exact AList.lookup_eq_none.mp hinit
    obtain ⟨e, he⟩ := Option.isSome_iff_exists.mp (AList.lookup_isSome.mpr hmem)
    have hown : r'.aliasOf e = name := ((exact.step hstep).dict name e hne).mp he
    refine .inr ⟨e, he, ?_⟩
    by_cases hsame : r.aliasOf e = name
    · have hlookup := (exact.dict name e hne).mpr hsame
      rcases h with hwait | ⟨d, hd, hbelongs⟩
      · simp [exact.apart name (by simp [hlookup])] at hwait
      · obtain rfl := Option.some.inj (hd.symm.trans hlookup)
        exact hbelongs
    · obtain ⟨hfree, hrecord⟩ :=
        hstep.gained exact.inv (hown ▸ hne) (by rw [hown]; exact Ne.symm hsame)
      rw [hown] at hfree hrecord
      rcases h with hwait | ⟨d, hd, -⟩
      · exact hrecord record hwait
      · simp [hd] at hfree

/-- A reserved name is removed by `remove`, or as its device gets another alias or none. -/
theorem Reserved.removed_by {name : String} {record : Record} {op : Op ι} {r' : Registry ι}
    (exact : r.Exact dev) (hne : name ≠ "") (h : r.Reserved dev name record)
    (hstep : r.Step dev op r') (hgone : ¬r'.Present name) :
    op = .remove name ∨ ∃ d, (op = .register d ∨ ∃ v, op = .setAlias v d) ∧
      belongs record (dev d).devtype (dev d).circuit := by
  have exact' := exact.step hstep
  have hown : ∀ d, r.aliasOf d = name → r.Reserved dev name record →
      belongs record (dev d).devtype (dev d).circuit := by
    rintro d hd (hwait | ⟨e, he, hbelongs⟩)
    · have hlookup := (exact.dict name d hne).mpr hd
      simp [exact.apart name (by simp [hlookup])] at hwait
    · obtain rfl := Option.some.inj (he.symm.trans ((exact.dict name d hne).mpr hd))
      exact hbelongs
  rw [Present, not_or, ← AList.lookup_eq_none, ← AList.lookup_eq_none] at hgone
  obtain ⟨hdict, hinit⟩ := hgone
  rcases hstep.cases with rfl | ⟨d, key, rfl, hkey, rfl⟩ | ⟨new, d, rfl, -, -, -, rfl⟩ |
    ⟨v, d, rfl, rfl⟩ | ⟨other, d, rfl, hd, rfl⟩ | ⟨other, rfl, hother, rfl⟩
  · rcases h with hwait | ⟨e, he, -⟩
    · simp [hinit] at hwait
    · simp [hdict] at he
  · have hspec := registerDevice_spec exact.inv hkey
    refine .inr ⟨d, .inl rfl, ?_⟩
    rcases id h with hwait | ⟨e, he, -⟩
    · have hmem : name ∈ r.getAliasesByCircuit (dev d).devtype (dev d).circuit := by
        by_contra hmem
        rw [hspec.initialDict name, if_neg (by tauto)] at hinit
        simp [hinit] at hwait
      obtain ⟨record', hrecord, hbelongs⟩ := mem_getAliasesByCircuit.mp hmem
      obtain rfl := Option.some.inj (hwait.symm.trans hrecord)
      exact hbelongs
    · have hold := (exact.dict name e hne).mp he
      obtain rfl : e = d := by
        by_contra hed
        have hkept := (exact'.dict name e hne).mpr ((hspec.others e hed).trans hold)
        simp [hkept] at hdict
      exact hown e hold h
  · refine .inr ⟨d, .inr ⟨_, rfl⟩, hown d ?_ h⟩
    rw [(r.lookup_assign new d name).1] at hdict
    rw [(r.lookup_assign new d name).2] at hinit
    rcases h with hwait | ⟨e, he, -⟩ <;> grind
  · refine .inr ⟨d, .inr ⟨v, rfl⟩, hown d ?_ h⟩
    rw [(r.lookup_reset d name).1] at hdict
    rw [(r.lookup_reset d name).2] at hinit
    rcases h with hwait | ⟨e, he, -⟩ <;> grind
  · rw [(r.lookup_release other d name).1] at hdict
    rw [(r.lookup_release other d name).2] at hinit
    rcases h with hwait | ⟨e, he, -⟩ <;> grind
  · rw [(r.lookup_delete other name).1] at hdict
    rw [(r.lookup_delete other name).2] at hinit
    rcases h with hwait | ⟨e, he, -⟩ <;> grind

/-- A reserved name is refused for the devices of other records. -/
theorem Reserved.refuses {name : String} {record : Record} (exact : r.Exact dev) (hne : name ≠ "")
    (h : r.Reserved dev name record) {d : ι}
    (hother : ¬belongs record (dev d).devtype (dev d).circuit) (r' : Registry ι) :
    r.setAlias dev (.str name) d ≠ (r', .ok ()) := by
  intro hset
  have hnew : name ≠ r.aliasOf d := by
    intro hown
    have hlookup := (exact.dict name d hne).mpr hown.symm
    rcases h with hwait | ⟨e, he, hbelongs⟩
    · simp [exact.apart name (by simp [hlookup])] at hwait
    · obtain rfl := Option.some.inj (he.symm.trans hlookup)
      exact hother hbelongs
  rcases r.setAlias_cases dev (.str name) d with
    ⟨e, h'⟩ | ⟨hown, -⟩ | ⟨hnull, -⟩ | ⟨name', hname, -, -, hcheck, -⟩
  · rw [h'] at hset
    cases (Prod.mk.inj hset).2
  · exact hnew (AliasValue.str.inj hown)
  · simp [hne] at hnull
  · obtain ⟨-, _, -, -, hok⟩ := (checkAlias_ok hne hnew).mp hcheck
    obtain ⟨hfree, hrecord, -⟩ := validate_ok.mp hok
    rcases h with hwait | ⟨e, he, -⟩
    · exact hother (hrecord record hwait)
    · have := hfree (AList.lookup_isSome.mp (by simp [he]))
      simp at this

/-- The given alias is valid. -/
theorem validName_of_setAlias (inv : r.Inv dev) {name : String} {d : ι} {r' : Registry ι}
    (h : r.setAlias dev (.str name) d = (r', .ok ())) (hne : name ≠ "") : ValidName name := by
  rcases r.setAlias_cases dev (.str name) d with
    ⟨e, h'⟩ | ⟨hown, -⟩ | ⟨hnull, -⟩ | ⟨name', hname, -, hnew, hcheck, -⟩
  · rw [h'] at h
    cases (Prod.mk.inj h).2
  · obtain rfl := AliasValue.str.inj hown
    exact inv.validName hne
  · simp [hne] at hnull
  · obtain rfl := AliasValue.str.inj hname
    obtain ⟨-, _, -, -, hok⟩ := (checkAlias_ok hne hnew).mp hcheck
    exact (validate_ok.mp hok).2.2

/-! ## The bijection -/

/-- The aliases in every run from a loaded file with valid names: an alias is of one device, no
name is in both dictionaries, only valid names are given, a name of the file is kept for its
device until it is removed, and an operation which raises changes no alias. -/
theorem alias_bijection {file : Option AliasFile} {r₀ : Registry ι}
    (hload : loadAliases file = some r₀) (hvalid : ∀ name ∈ r₀.initialDict, ValidName name)
    {ops : List (Op ι)} (hrun : Transition.Run (Step dev) r₀ ops r) :
    ((∀ a d, a ≠ "" → (r.aliasDict.lookup a = some d ↔ r.aliasOf d = a)) ∧ "" ∉ r.aliasDict) ∧
    (∀ name, ¬(name ∈ r.aliasDict ∧ name ∈ r.initialDict)) ∧
    (∀ name d r', r.setAlias dev (.str name) d = (r', .ok ()) → name ≠ "" → ValidName name) ∧
    (∀ name record, r₀.initialDict.lookup name = some record →
      Transition.Run (Keeping dev name) r₀ ops r →
      ∀ d, ¬belongs record (dev d).devtype (dev d).circuit →
      ∀ r', r.setAlias dev (.str name) d ≠ (r', .ok ())) ∧
    (∀ op r' e, r.exec dev op = (r', .error e) →
      r'.aliasDict = r.aliasDict ∧ r'.initialDict = r.initialDict ∧ r'.aliasOf = r.aliasOf) := by
  have hempty : "" ∉ r₀.initialDict := fun hmem => absurd (hvalid "" hmem) (by decide)
  have exact₀ : r₀.Exact dev := .load hload hempty
  have exact : r.Exact dev := hrun.invariant (fun _ _ _ h hstep => h.step hstep) exact₀
  refine ⟨⟨exact.dict, AList.lookup_eq_none.mp exact.aliasDict_empty⟩, ?_, ?_, ?_, ?_⟩
  · rintro name ⟨hdict, hinit⟩
    have hsome : r.aliasDict.lookup name ≠ none := fun h => AList.lookup_eq_none.mp h hdict
    exact AList.lookup_eq_none.mp (exact.apart name hsome) hinit
  · intro name d r' h hne
    exact validName_of_setAlias exact.inv h hne
  · intro name record hrecord hkeep d hother r'
    have hne : name ≠ "" := by
      rintro rfl
      exact hempty (AList.lookup_isSome.mp (by simp [hrecord]))
    have hreserved : r.Exact dev ∧ r.Reserved dev name record := by
      refine hkeep.invariant (I := fun r => r.Exact dev ∧ r.Reserved dev name record) ?_
        ⟨exact₀, .inl hrecord⟩
      rintro s op t ⟨hexact, hres⟩ hstep
      exact ⟨hexact.step hstep.1, hres.step hexact hne hstep⟩
    exact hreserved.2.refuses hreserved.1 hne hother r'
  · intro op r' e h
    obtain rfl := exec_error h
    exact ⟨rfl, rfl, rfl⟩

/-- Two outputs and the bus of their unit, the alias of the first one is loaded. -/
def relays : Fin 3 → Device
  | 0 => { devtype := "ro", circuit := "1_01" }
  | 1 => { devtype := "ro", circuit := "1_02" }
  | 2 => { devtype := "tcp_bus", circuit := "1", hasAlias := false }

def firstRelay : Fin 3 :=
  0

def secondRelay : Fin 3 :=
  1

def relaysBus : Fin 3 :=
  2

/-- A file with the alias of the first relay. -/
def relaysFile : AliasFile :=
  { version := .str "2.0"
    aliases := .dict (Dict.set ∅ "pump" (some ⟨.str "ro", .str "1_01"⟩)) }

theorem alias_bijection_relays :
    ∃ r₀ r : Registry (Fin 3), loadAliases (some relaysFile) = some r₀ ∧
      Transition.Run (Step relays) r₀ [.register 0, .setAlias (.str "fan") 1] r ∧
      r.aliasOf 0 = "pump" ∧ r.aliasOf 1 = "fan" ∧ "" ∉ r.aliasDict := by
  refine ⟨_, _, rfl, .cons ⟨?_, rfl⟩ (.cons ⟨trivial, rfl⟩ (.nil _)), ?_⟩
  · rintro key -
    exact AList.notMem_empty _
  · have hvalid : ∀ name ∈ (((loadAliases (some relaysFile)).getD {} : Registry (Fin 3))).initialDict,
        ValidName name := by
      intro name hmem
      have hname : name ∈ ["pump"] := AList.mem_keys.mp hmem
      obtain rfl := List.mem_singleton.mp hname
      decide
    have hload : loadAliases (some relaysFile) = some
        ((loadAliases (some relaysFile)).getD {} : Registry (Fin 3)) := rfl
    have h := alias_bijection hload hvalid
      (.cons ⟨fun _ _ => AList.notMem_empty _, rfl⟩ (.cons ⟨trivial, rfl⟩ (.nil _)) :
        Transition.Run (Step relays) _ [.register 0, .setAlias (.str "fan") 1] _)
    exact ⟨by decide, by decide, h.1.2⟩

end Registry

end Devices

end Evok
