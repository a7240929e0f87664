import Evok.Devices.Bijection

/-!
# The device of an alias

`by_name` finds a circuit before an alias. A new alias is compared with the circuits registered
before it; a loaded alias and a device registered later are not compared.

## Main definitions

* `Registry.Resolves`: every alias of a registered device is found by it.
* `Registry.Clear`: a registration without a circuit equal to an alias of its type.

## Main results

* `Registry.byName_eq_iff`: what an alias of a device finds.
* `Registry.resolves_step_iff`: the operations after which the aliases are still found.
* `Registry.resolves_iff`: the runs in which every alias is always found.
-/

namespace Evok

namespace Devices

/-- A type and its altnames name one dictionary. -/
theorem getD_altnames {name key : String} (h : dictOf name = some key) :
    (devtypeAltnames.lookup name).getD name = key ∧ key ∈ devtypes := by
  have htypes : ∀ name ∈ devtypes, devtypeAltnames.lookup name = none := by decide
  unfold dictOf at h
  split at h
  · next hmem =>
    obtain rfl := Option.some.inj h
    rw [htypes name hmem]
    exact ⟨rfl, hmem⟩
  · obtain ⟨hlookup, hmem⟩ := Option.filter_eq_some_iff.mp h
    rw [hlookup]
    exact ⟨rfl, by simpa using hmem⟩

namespace Registry

variable {ι : Type} [DecidableEq ι] {dev : ι → Device} {r : Registry ι}

/-- Every alias of a registered device finds the device. -/
def Resolves (dev : ι → Device) (r : Registry ι) : Prop :=
  ∀ d, r.Registered dev d → r.aliasOf d ≠ "" → r.byName dev (dev d).devtype (r.aliasOf d) = .ok d

/-- No circuit of the type is an alias of another device after the registration: neither the
circuit of the device nor its alias, which it may get from the file. -/
def Clear (dev : ι → Device) (r : Registry ι) : Op ι → Prop
  | .register d => ∀ key, dictOf (dev d).devtype = some key →
    (∀ e, r.Registered dev e → dictOf (dev e).devtype = some key → r.aliasOf e ≠ "" →
      r.aliasOf e ≠ (dev d).circuit) ∧
    (r.savedAlias dev d ≠ "" → (key, r.savedAlias dev d) ∉ r.devices)
  | _ => True

omit [DecidableEq ι] in
/-- An alias finds its device when no other device has the circuit. -/
theorem byName_eq_iff (inv : r.Inv dev) {d : ι} {key : String}
    (hkey : dictOf (dev d).devtype = some key) (hne : r.aliasOf d ≠ "") :
    r.byName dev (dev d).devtype (r.aliasOf d) = .ok d ↔
      ∀ e, r.devices.lookup (key, r.aliasOf d) = some e → e = d := by
  obtain ⟨hname, hmem⟩ := getD_altnames hkey
  have hdict := inv.held d hne
  unfold byName
  rw [hname]
  simp only [hmem, not_true_eq_false, if_false]
  cases hlookup : r.devices.lookup (key, r.aliasOf d) with
  | some e => simp
  | none => simp [hdict]

/-- Only a registration changes the devices. -/
theorem Step.devices {op : Op ι} {r' : Registry ι} (h : r.Step dev op r')
    (hop : ∀ d, op ≠ .register d) : r'.devices = r.devices := by
  rcases h.cases with rfl | ⟨d, key, rfl, -⟩ | ⟨name, d, -, -, -, -, rfl⟩ | ⟨v, d, -, rfl⟩ |
    ⟨name, d, -, -, rfl⟩ | ⟨name, -, -, rfl⟩
  · rfl
  · exact absurd rfl (hop d)
  · exact r.assign_devices name d
  · exact r.reset_devices d
  · rfl
  · rfl

/-- The operations on registered devices compare a new alias with the circuits. -/
theorem Resolves.step {op : Op ι} {r' : Registry ι} (inv : r.Inv dev) (resolves : r.Resolves dev)
    (h : r.Step dev op r') (hop : ∀ d, op ≠ .register d) : r'.Resolves dev := by
  have inv' := inv.step h
  have hdevices := h.devices hop
  rintro d ⟨key, hkey, hreg⟩ hne
  rw [byName_eq_iff inv' hkey hne, hdevices]
  rw [hdevices] at hreg
  by_cases hsame : r'.aliasOf d = r.aliasOf d
  · rw [hsame] at hne ⊢
    exact (byName_eq_iff inv hkey hne).mp (resolves d ⟨key, hkey, hreg⟩ hne)
  · rcases h.cases with rfl | ⟨d', _, rfl, -⟩ | ⟨name, d', rfl, hname, hnew, hcheck, rfl⟩ |
      ⟨v, d', -, rfl⟩ | ⟨name, d', -, -, rfl⟩ | ⟨name, -, -, rfl⟩
    · exact absurd rfl hsame
    · exact absurd rfl (hop d')
    · obtain rfl : d = d' := by
        by_contra hdd
        exact hsame (by rw [assign_aliasOf, Function.update_of_ne hdd])
      obtain ⟨-, key', hkey', hcircuit, -⟩ := (checkAlias_ok hname hnew).mp hcheck
      obtain rfl := Option.some.inj (hkey.symm.trans hkey')
      intro e he
      rw [assign_aliasOf, Function.update_self] at he
      exact absurd (AList.lookup_isSome.mp (by simp [he])) hcircuit
    · rw [reset_aliasOf, Function.update_apply] at hne hsame
      grind
    · rw [release_aliasOf, Function.update_apply] at hne hsame
      grind
    · exact absurd rfl hsame

/-- A registration keeps the aliases found when it is clear, otherwise one finds another device. -/
theorem Resolves.register_iff {d : ι} {r' : Registry ι} (inv : r.Inv dev)
    (resolves : r.Resolves dev) (h : r.Step dev (.register d) r') :
    r'.Resolves dev ↔ r.Clear dev (.register d) := by
  have inv' := inv.step h
  obtain ⟨hfresh, rfl⟩ := h
  cases hkey : dictOf (dev d).devtype with
  | none =>
    have hsame : (r.exec dev (.register d)).1 = r := by simp [exec, registerDevice, hkey]
    rw [hsame]
    exact ⟨fun _ key hkey' => by simp [hkey] at hkey', fun _ => resolves⟩
  | some key =>
    have hnew : r.devices.lookup (key, (dev d).circuit) = none :=
      AList.lookup_eq_none.mpr (hfresh key hkey)
    have hexec : (r.exec dev (.register d)).1 = (r.registerDevice dev (dev d).devtype d).1 := rfl
    rw [hexec] at inv' ⊢
    obtain ⟨-, hdevices, hothers, halias, -, -⟩ := registerDevice_spec inv hkey
    generalize (r.registerDevice dev (dev d).devtype d).1 = r' at *
    have hlookup : ∀ k, r'.devices.lookup k =
        if k = (key, (dev d).circuit) then some d else r.devices.lookup k := by
      intro k
      rw [hdevices, Dict.lookup_set]
    have hself : r'.Registered dev d := ⟨key, hkey, by rw [hlookup, if_pos rfl]⟩
    constructor
    · intro resolves' key' hkey'
      obtain rfl := Option.some.inj (hkey.symm.trans hkey')
      constructor
      · rintro e ⟨key', hkeye, he⟩ hkeye' hne hcircuit
        obtain rfl := Option.some.inj (hkeye.symm.trans hkeye')
        have hed : e ≠ d := by
          rintro rfl
          simp [hnew] at he
        have hreg : r'.Registered dev e := by
          refine ⟨key', hkeye, ?_⟩
          rw [hlookup]
          grind
        have hfound := (byName_eq_iff inv' hkeye (by rwa [hothers e hed])).mp
          (resolves' e hreg (by rwa [hothers e hed]))
        refine hed (hfound d ?_).symm
        rw [hothers e hed, hcircuit, hlookup, if_pos rfl]
      · intro hne hmem
        obtain ⟨e, he⟩ := Option.isSome_iff_exists.mp (AList.lookup_isSome.mpr hmem)
        have hfound := (byName_eq_iff inv' hkey (by rwa [halias])).mp
          (resolves' d hself (by rwa [halias]))
        have hed : e = d := by
          refine hfound e ?_
          rw [halias, hlookup]
          grind
        subst hed
        obtain ⟨-, hcircuit⟩ := inv.keyed _ _ _ he
        rw [hcircuit, hnew] at he
        cases he
    · intro hclear e hreg hne
      obtain ⟨hcircuit, hsaved⟩ := hclear key hkey
      obtain ⟨key', hkeye, he⟩ := hreg
      rw [byName_eq_iff inv' hkeye hne]
      intro x hx
      rw [hlookup] at he hx
      by_cases hed : e = d
      · subst hed
        obtain rfl := Option.some.inj (hkey.symm.trans hkeye)
        rw [halias] at hne hx
        split at hx
        · exact (Option.some.inj hx).symm
        · exact absurd (AList.lookup_isSome.mp (by simp [hx])) (hsaved hne)
      · rw [hothers e hed] at hne hx
        split at he
        · exact absurd (Option.some.inj he).symm hed
        · have hold : r.Registered dev e := ⟨key', hkeye, he⟩
          split at hx
          · next heq =>
            obtain ⟨rfl, hown⟩ := Prod.mk.inj heq
            exact absurd hown (hcircuit e hold hkeye hne)
          · exact (byName_eq_iff inv hkeye hne).mp (resolves e hold hne) x hx

/-- An operation after which every alias is found. -/
theorem resolves_step_iff {op : Op ι} {r' : Registry ι} (inv : r.Inv dev)
    (resolves : r.Resolves dev) (h : r.Step dev op r') : r'.Resolves dev ↔ r.Clear dev op := by
  cases op with
  | register d => exact resolves.register_iff inv h
  | setAlias v d => exact ⟨fun _ => trivial, fun _ => resolves.step inv h (by simp)⟩
  | remove name => exact ⟨fun _ => trivial, fun _ => resolves.step inv h (by simp)⟩

/-! ## Runs -/

/-- A step of a run with clear registrations only. -/
def ClearStep (dev : ι → Device) (r : Registry ι) (op : Op ι) (r' : Registry ι) : Prop :=
  r.Step dev op r' ∧ r.Clear dev op

theorem Step.unique (s : Registry ι) (op : Op ι) (t t' : Registry ι) (h : s.Step dev op t)
    (h' : s.Step dev op t') : t = t' :=
  h.2.symm.trans h'.2

/-- Every alias is found in all states of a run exactly when its registrations are clear. -/
theorem resolves_run_iff (inv : r.Inv dev) (resolves : r.Resolves dev) {ops : List (Op ι)}
    {r' : Registry ι} (hrun : Transition.Run (Step dev) r ops r') :
    (∀ ops₁ ops₂ s, ops = ops₁ ++ ops₂ → Transition.Run (Step dev) r ops₁ s → s.Resolves dev) ↔
      Transition.Run (ClearStep dev) r ops r' := by
  induction hrun with
  | nil s =>
    constructor
    · intro _
      exact .nil s
    · intro _ ops₁ ops₂ t hsplit hprefix
      obtain ⟨rfl, -⟩ := List.append_eq_nil_iff.mp hsplit.symm
      cases hprefix
      exact resolves
  | @cons s t u op ops head tail ih =>
    have hiff := resolves_step_iff inv resolves head
    constructor
    · intro hall
      have ht := hall [op] ops t rfl (.single head)
      refine .cons ⟨head, hiff.mp ht⟩ ((ih (inv.step head) ht).mp ?_)
      intro ops₁ ops₂ s' hsplit hprefix
      exact hall (op :: ops₁) ops₂ s' (by rw [hsplit, List.cons_append]) (.cons head hprefix)
    · intro hclear ops₁ ops₂ s' hsplit hprefix
      cases hclear with
      | cons head' tail' =>
        cases hprefix with
        | nil => exact resolves
        | @cons _ t₁ _ op' ops₁ head₁ tail₁ =>
          obtain ⟨rfl, hsplit'⟩ := List.cons.inj hsplit
          obtain rfl := Step.unique _ _ _ _ head head'.1
          obtain rfl := Step.unique _ _ _ _ head head₁
          have ht := hiff.mpr head'.2
          exact (ih (inv.step head) ht).mpr tail' ops₁ ops₂ s' hsplit' tail₁

/-- In a run from a loaded file every alias of a registered device always finds the device if and
only if no registration brings a circuit which is an alias of its type, or an alias of the file
which is a circuit of its type. -/
theorem resolves_iff {file : Option AliasFile} {r₀ : Registry ι}
    (hload : loadAliases file = some r₀) {ops : List (Op ι)}
    (hrun : Transition.Run (Step dev) r₀ ops r) :
    (∀ ops₁ ops₂ s, ops = ops₁ ++ ops₂ → Transition.Run (Step dev) r₀ ops₁ s → s.Resolves dev) ↔
      Transition.Run (ClearStep dev) r₀ ops r := by
  have inv : r₀.Inv dev := .load hload
  refine resolves_run_iff inv ?_ hrun
  rintro d ⟨key, -, hlookup⟩ hne
  obtain ⟨records, rfl⟩ := loadAliases_eq hload
  simp [ofRecords] at hlookup

theorem resolves_iff_relays :
    ∃ r : Registry (Fin 3),
      Transition.Run (Step relays) {} [.register 0, .setAlias (.str "pump") 0] r ∧
        r.aliasOf 0 = "pump" ∧ r.Resolves relays := by
  have hfresh : Fresh relays ({} : Registry (Fin 3)) (.register 0) :=
    fun _ _ => AList.notMem_empty _
  have hclear : Clear relays ({} : Registry (Fin 3)) (.register 0) := by
    intro key _
    refine ⟨?_, fun _ => AList.notMem_empty _⟩
    rintro e ⟨_, _, he⟩
    simp at he
  refine ⟨_, .cons ⟨hfresh, rfl⟩ (.cons ⟨trivial, rfl⟩ (.nil _)), by decide, ?_⟩
  have hload : loadAliases none = some ({} : Registry (Fin 3)) := rfl
  have hall := (resolves_iff hload
    (.cons ⟨hfresh, rfl⟩ (.cons ⟨trivial, rfl⟩ (.nil _)) : Transition.Run (Step relays) _
      [.register 0, .setAlias (.str "pump") 0] _)).mpr
    (.cons ⟨⟨hfresh, rfl⟩, hclear⟩ (.cons ⟨⟨trivial, rfl⟩, trivial⟩ (.nil _)))
  exact hall _ [] _ (List.append_nil _).symm
    (.cons ⟨hfresh, rfl⟩ (.cons ⟨trivial, rfl⟩ (.nil _)))

/-- The alias of the first relay is registered later as the circuit of the second one. -/
theorem not_resolves : ¬∀ r : Registry (Fin 3),
    Transition.Run (Step relays) {} [.register 0, .setAlias (.str "1_02") 0, .register 1] r →
      r.Resolves relays := by
  intro hall
  have hfresh : ∀ d (r : Registry (Fin 3)), dictOf (relays d).devtype = some "ro" →
      ("ro", (relays d).circuit) ∉ r.devices → Fresh relays r (.register d) := by
    intro d r hro hnotMem key hkey
    obtain rfl := Option.some.inj (hro.symm.trans hkey)
    exact hnotMem
  have hresolves := hall _ (.cons ⟨hfresh 0 _ (by decide) (by decide), rfl⟩
    (.cons ⟨trivial, rfl⟩ (.cons ⟨hfresh 1 _ (by decide) (by decide), rfl⟩ (.nil _))))
  have hfound := hresolves 0 ⟨"ro", by decide, by decide⟩ (by decide)
  exact absurd hfound (by decide)

end Registry

end Devices

end Evok
