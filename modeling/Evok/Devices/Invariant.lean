import Evok.Devices.Aliases
import Evok.Library.Run

/-!
# The alias registry over its runs

An alias of a device is in the dictionary of the aliases, a loaded one waits for its device in
the other dictionary. An accepted alias is assigned by deleting the old one of the device, then
the record of the name, before the name is added. A record of the name `""` puts this name into
the dictionary; its removal takes the alias of the device, which stays in the dictionary as an
orphan.

## Main definitions

* `Registry.assign`: the registry after an accepted alias.
* `Registry.Orphan`: a name which is not the alias of its device.
* `Registry.Inv`: what each operation keeps.
* `Registry.Step`: one operation; a device is registered once.

## Main results

* `Registry.Inv.step`, `Registry.Inv.run`: the invariant over the runs.
* `Registry.registerDevice_spec`: the registry after the registration of a device.
* `Registry.Step.orphan_iff`: only the removal of a name can leave an orphan.
-/

namespace Evok

namespace Devices

namespace Registry

variable {ι : Type}

/-! ## Lookups after the operations -/

theorem lookup_delete (r : Registry ι) (name a : String) :
    (r.delete name).aliasDict.lookup a = (if a = name then none else r.aliasDict.lookup a) ∧
      (r.delete name).initialDict.lookup a =
        if a = name then none else r.initialDict.lookup a :=
  ⟨Dict.lookup_erase _ _ _, Dict.lookup_erase _ _ _⟩

theorem lookup_deleteOwn (r : Registry ι) (d : ι) (a : String) :
    (r.deleteOwn d).aliasDict.lookup a =
        (if a = r.aliasOf d ∧ a ≠ "" then none else r.aliasDict.lookup a) ∧
      (r.deleteOwn d).initialDict.lookup a =
        if a = r.aliasOf d ∧ a ≠ "" then none else r.initialDict.lookup a := by
  unfold deleteOwn
  split
  · next h =>
    obtain ⟨hdict, hinit⟩ := r.lookup_delete (r.aliasOf d) a
    rw [hdict, hinit]
    grind
  · next h =>
    have hnot : ¬(a = r.aliasOf d ∧ a ≠ "") := by
      rintro ⟨rfl, hne⟩
      exact h hne
    simp only [if_neg hnot, and_self]

@[simp] theorem deleteOwn_aliasOf (r : Registry ι) (d : ι) :
    (r.deleteOwn d).aliasOf = r.aliasOf := by
  unfold deleteOwn
  split <;> rfl

@[simp] theorem deleteOwn_devices (r : Registry ι) (d : ι) :
    (r.deleteOwn d).devices = r.devices := by
  unfold deleteOwn
  split <;> rfl

variable [DecidableEq ι] {dev : ι → Device} {r : Registry ι}

/-- The registry after the reset of the alias of the device. -/
def reset (r : Registry ι) (d : ι) : Registry ι :=
  (r.deleteOwn d).setAttr d ""

/-- The registry after an accepted alias. -/
def assign (r : Registry ι) (name : String) (d : ι) : Registry ι :=
  let released := if name ≠ "" then (r.deleteOwn d).delete name else r.deleteOwn d
  { released with
    aliasDict := released.aliasDict.set name d
    aliasOf := Function.update r.aliasOf d name
    dirty := true }

theorem lookup_assign (r : Registry ι) (name : String) (d : ι) (a : String) :
    (r.assign name d).aliasDict.lookup a =
        (if a = name then some d
          else if a = r.aliasOf d ∧ a ≠ "" then none else r.aliasDict.lookup a) ∧
      (r.assign name d).initialDict.lookup a =
        if a ≠ "" ∧ (a = name ∨ a = r.aliasOf d) then none else r.initialDict.lookup a := by
  obtain ⟨hdict, hinit⟩ := r.lookup_deleteOwn d a
  obtain ⟨hdict', hinit'⟩ := (r.deleteOwn d).lookup_delete name a
  by_cases hname : name ≠ ""
  · constructor
    · simp only [assign, if_pos hname, Dict.lookup_set, hdict', hdict]
      grind
    · simp only [assign, if_pos hname, hinit', hinit]
      grind
  · constructor
    · simp only [assign, if_neg hname, Dict.lookup_set, hdict]
    · simp only [assign, if_neg hname, hinit]
      grind

@[simp] theorem assign_aliasOf (r : Registry ι) (name : String) (d : ι) :
    (r.assign name d).aliasOf = Function.update r.aliasOf d name :=
  rfl

@[simp] theorem assign_devices (r : Registry ι) (name : String) (d : ι) :
    (r.assign name d).devices = r.devices := by
  unfold assign
  split <;> exact r.deleteOwn_devices d

/-! ## The cases of an operation -/

/-- `add` raises before any change, or the device gets the alias. -/
theorem add_cases (dev : ι → Device) (r : Registry ι) (name : String) (d : ι) :
    (∃ e, r.add dev name d = (r, .error e) ∧
      ((dev d).hasAlias = false ∨ name ≠ r.aliasOf d ∧ validate dev r name d = .error e)) ∨
    (∃ r', r.add dev name d = (r', .ok ()) ∧ r'.setAttr d name = r.assign name d ∧
      (dev d).hasAlias = true ∧ (name ≠ r.aliasOf d → validate dev r name d = .ok ())) := by
  unfold add
  split
  · next halias =>
    split
    · next e he =>
      split at he
      · next hne => exact .inl ⟨e, rfl, .inr ⟨hne, he⟩⟩
      · cases he
    · next he =>
      refine .inr ⟨_, rfl, ?_, halias, fun hne => by rwa [if_pos hne] at he⟩
      simp only [assign, setAttr]
      split <;> simp [delete]
  · next halias => exact .inl ⟨_, rfl, .inl (by simpa using halias)⟩

omit [DecidableEq ι] in
theorem validate_ok {name : String} {d : ι} {free : Finset String} :
    validate dev r name d free = .ok () ↔
      (name ∈ r.aliasDict → name ∈ free) ∧
      (∀ record, r.initialDict.lookup name = some record →
        belongs record (dev d).devtype (dev d).circuit) ∧ ValidName name := by
  unfold validate ValidName
  split
  · next h => simp [h.1, h.2]
  · next hdup =>
    have hfree : name ∈ r.aliasDict → name ∈ free := by
      intro hmem
      by_contra hfree
      exact hdup ⟨hmem, hfree⟩
    split
    · next record hrecord =>
      obtain ⟨hlookup, hother⟩ := Option.filter_eq_some_iff.mp hrecord
      simp only [reduceCtorEq, false_iff, not_and]
      intro _ hall
      exact absurd (hall record hlookup) (by simpa using hother)
    · next hnone =>
      have hall : ∀ record, r.initialDict.lookup name = some record →
          belongs record (dev d).devtype (dev d).circuit := by
        intro record hlookup
        by_contra hother
        exact hnone record (Option.filter_eq_some_iff.mpr ⟨hlookup, by simpa using hother⟩)
      split
      · next hbad =>
        simp only [reduceCtorEq, false_iff]
        grind
      · next hgood =>
        split
        · next hname =>
          simp only [reduceCtorEq, false_iff]
          grind
        · next hname =>
          simp only [true_iff]
          grind

omit [DecidableEq ι] in
/-- A new alias is accepted for a device of a type with a dictionary when it is not a circuit. -/
theorem checkAlias_ok {name : String} {d : ι} {free : Finset String} (hne : name ≠ "")
    (hnew : name ≠ r.aliasOf d) :
    checkAlias dev r (.str name) d free = .ok () ↔
      (dev d).hasAlias = true ∧ ∃ key, dictOf (dev d).devtype = some key ∧
        (key, name) ∉ r.devices ∧ validate dev r name d free = .ok () := by
  unfold checkAlias
  simp only [reduceCtorEq, false_or, AliasValue.str.injEq, if_neg hne, if_neg hnew]
  cases (dev d).hasAlias with
  | false => simp
  | true =>
    cases dictOf (dev d).devtype with
    | none => simp
    | some key => by_cases hcircuit : (key, name) ∈ r.devices <;> simp [hcircuit]

/-- A new alias is checked, then assigned. -/
theorem setAlias_str {name : String} {d : ι} (hne : name ≠ "") (hnew : name ≠ r.aliasOf d)
    (halias : (dev d).hasAlias = true) :
    r.setAlias dev (.str name) d =
      match checkAlias dev r (.str name) d with
      | .error e => (r, .error e)
      | .ok () => (r.assign name d, .ok ()) := by
  unfold setAlias
  simp only [halias, not_true_eq_false, if_false, AliasValue.str.injEq, if_neg hnew, reduceCtorEq,
    false_or, if_neg hne]
  cases hcheck : checkAlias dev r (.str name) d with
  | error e => rfl
  | ok u =>
    obtain ⟨_, key, -, -, hvalid⟩ := (checkAlias_ok hne hnew).mp hcheck
    rcases r.add_cases dev name d with ⟨e, -, hbad | ⟨-, hbad⟩⟩ | ⟨r', hadd, hattr, -⟩
    · simp [halias] at hbad
    · simp [hvalid] at hbad
    · simp only [hadd, hattr]

omit [DecidableEq ι] in
/-- Only a string passes the check of a new alias. -/
theorem checkAlias_isStr {v : AliasValue} {d : ι} {free : Finset String}
    (hnull : ¬(v = .null ∨ v = .str "")) (h : checkAlias dev r v d free = .ok ()) :
    ∃ name, v = .str name := by
  unfold checkAlias at h
  rw [if_neg hnull] at h
  split at h
  · cases h
  · cases v with
    | null => exact absurd (.inl rfl) hnull
    | str name => exact ⟨name, rfl⟩
    | other repr => cases h

theorem setAlias_cases (dev : ι → Device) (r : Registry ι) (v : AliasValue) (d : ι) :
    (∃ e, r.setAlias dev v d = (r, .error e)) ∨
    (v = .str (r.aliasOf d) ∧ r.setAlias dev v d = (r, .ok ())) ∨
    ((v = .null ∨ v = .str "") ∧ r.setAlias dev v d = (r.reset d, .ok ())) ∨
    (∃ name, v = .str name ∧ name ≠ "" ∧ name ≠ r.aliasOf d ∧
      checkAlias dev r v d = .ok () ∧ r.setAlias dev v d = (r.assign name d, .ok ())) := by
  by_cases halias : (dev d).hasAlias = true
  · by_cases hsame : v = .str (r.aliasOf d)
    · exact .inr (.inl ⟨hsame, by simp [setAlias, halias, hsame]⟩)
    · by_cases hnull : v = .null ∨ v = .str ""
      · refine .inr (.inr (.inl ⟨hnull, ?_⟩))
        simp only [setAlias, halias, not_true_eq_false, if_false, if_neg hsame, if_pos hnull, reset]
      · cases hcheck : checkAlias dev r v d with
        | error e =>
          refine .inl ⟨e, ?_⟩
          simp only [setAlias, halias, not_true_eq_false, if_false, if_neg hsame, if_neg hnull,
            hcheck]
        | ok u =>
          obtain ⟨name, rfl⟩ := checkAlias_isStr hnull hcheck
          have hne : name ≠ "" := fun h => hnull (.inr (congrArg _ h))
          have hnew : name ≠ r.aliasOf d := fun h => hsame (congrArg _ h)
          refine .inr (.inr (.inr ⟨name, rfl, hne, hnew, rfl, ?_⟩))
          rw [setAlias_str hne hnew halias, hcheck]
  · exact .inl ⟨.attribute, by simp [setAlias, halias]⟩

/-! ## The invariant -/

/-- The device is registered by its type and circuit. -/
def Registered (dev : ι → Device) (r : Registry ι) (d : ι) : Prop :=
  ∃ key, dictOf (dev d).devtype = some key ∧ r.devices.lookup (key, (dev d).circuit) = some d

/-- The record of the name is of the device and waits for it. -/
def Saved (dev : ι → Device) (r : Registry ι) (d : ι) (name : String) : Prop :=
  ∃ record, r.initialDict.lookup name = some record ∧
    belongs record (dev d).devtype (dev d).circuit

/-- A name in the dictionary which is not the alias of its device. -/
def Orphan (r : Registry ι) (name : String) (d : ι) : Prop :=
  name ≠ "" ∧ r.aliasDict.lookup name = some d ∧ r.aliasOf d ≠ name

/-- The dictionaries have the aliases of the devices. The name `""` of a record in the file is put
into the dictionary too, it is never the alias of its device. -/
structure Inv (dev : ι → Device) (r : Registry ι) : Prop where
  held : ∀ d, r.aliasOf d ≠ "" → r.aliasDict.lookup (r.aliasOf d) = some d
  disjoint : ∀ a, a ≠ "" → r.aliasDict.lookup a ≠ none → r.initialDict.lookup a = none
  unnamed : ∀ d, r.aliasDict.lookup "" = some d → r.Saved dev d ""
  usable : ∀ a d, a ≠ "" → r.aliasDict.lookup a = some d → ValidName a ∧ (dev d).hasAlias = true
  /-- No usable record of a registered device is left. -/
  consumed : ∀ d, r.Registered dev d → (dev d).hasAlias = true → ∀ a record,
    r.initialDict.lookup a = some record → belongs record (dev d).devtype (dev d).circuit →
    ¬ValidName a
  keyed : ∀ key circuit d, r.devices.lookup (key, circuit) = some d →
    dictOf (dev d).devtype = some key ∧ circuit = (dev d).circuit

/-- The registry after the removal of a name of the device. -/
def release (r : Registry ι) (name : String) (d : ι) : Registry ι :=
  (r.setAttr d "").delete name

theorem release_aliasOf (r : Registry ι) (name : String) (d : ι) :
    (r.release name d).aliasOf = Function.update r.aliasOf d "" :=
  rfl

theorem reset_aliasOf (r : Registry ι) (d : ι) :
    (r.reset d).aliasOf = Function.update r.aliasOf d "" := by
  simp [reset, setAttr]

@[simp] theorem reset_devices (r : Registry ι) (d : ι) : (r.reset d).devices = r.devices := by
  simp [reset, setAttr]

theorem lookup_reset (r : Registry ι) (d : ι) (a : String) :
    (r.reset d).aliasDict.lookup a =
        (if a = r.aliasOf d ∧ a ≠ "" then none else r.aliasDict.lookup a) ∧
      (r.reset d).initialDict.lookup a =
        if a = r.aliasOf d ∧ a ≠ "" then none else r.initialDict.lookup a :=
  r.lookup_deleteOwn d a

theorem lookup_release (r : Registry ι) (name : String) (d : ι) (a : String) :
    (r.release name d).aliasDict.lookup a =
        (if a = name then none else r.aliasDict.lookup a) ∧
      (r.release name d).initialDict.lookup a =
        if a = name then none else r.initialDict.lookup a :=
  (r.setAttr d "").lookup_delete name a

namespace Inv

variable {d e : ι} {name a : String}

omit [DecidableEq ι] in
theorem validName (inv : r.Inv dev) (hne : r.aliasOf d ≠ "") : ValidName (r.aliasOf d) :=
  (inv.usable _ d hne (inv.held d hne)).1

omit [DecidableEq ι] in
theorem hasAlias (inv : r.Inv dev) (hne : r.aliasOf d ≠ "") : (dev d).hasAlias = true :=
  (inv.usable _ d hne (inv.held d hne)).2

omit [DecidableEq ι] in
theorem unique (inv : r.Inv dev) (hne : r.aliasOf d ≠ "") (h : r.aliasOf d = r.aliasOf e) :
    d = e := by
  have hd := inv.held d hne
  have he := inv.held e (h ▸ hne)
  rw [h] at hd
  exact Option.some.inj (hd.symm.trans he)

omit [DecidableEq ι] in
/-- A name in the dictionary is the alias of its device, or an orphan. -/
theorem aliasOf_or_orphan (hne : name ≠ "") (h : r.aliasDict.lookup name = some d) :
    r.aliasOf d = name ∨ r.Orphan name d := by
  by_cases hown : r.aliasOf d = name
  · exact .inl hown
  · exact .inr ⟨hne, h, hown⟩

omit [DecidableEq ι] in
/-- An orphan is the alias of no device. -/
theorem aliasOf_ne_orphan (inv : r.Inv dev) (h : r.Orphan name d) (e : ι) : r.aliasOf e ≠ name := by
  obtain ⟨hne, hlookup, hother⟩ := h
  rintro rfl
  obtain rfl := Option.some.inj ((inv.held e hne).symm.trans hlookup)
  exact hother rfl

omit [DecidableEq ι] in
/-- A name is of no other device when it is free or the alias of this device. -/
theorem other (inv : r.Inv dev) (hne : name ≠ "")
    (hfree : name ≠ r.aliasOf d → r.aliasDict.lookup name = none) (hed : e ≠ d) :
    r.aliasOf e ≠ name := by
  rintro rfl
  have he := inv.held e hne
  by_cases hown : r.aliasOf e = r.aliasOf d
  · exact hed (inv.unique hne hown)
  · simp [hfree hown] at he

theorem assign (inv : r.Inv dev) (hne : name ≠ "")
    (hfree : name ≠ r.aliasOf d → r.aliasDict.lookup name = none)
    (hvalid : ValidName name) (halias : (dev d).hasAlias = true) :
    (r.assign name d).Inv dev := by
  have hlookup := r.lookup_assign name d
  have hother : ∀ e, e ≠ d → r.aliasOf e ≠ name := fun e hed => inv.other hne hfree hed
  refine ⟨?_, ?_, ?_, ?_, ?_, ?_⟩
  · intro e he
    rw [assign_aliasOf, Function.update_apply] at he ⊢
    rw [(hlookup _).1]
    have hheld := inv.held e
    have hunique : r.aliasOf e ≠ "" → r.aliasOf e = r.aliasOf d → e = d := inv.unique
    grind
  · intro a ha hmem
    have hdisjoint := inv.disjoint a ha
    rw [(hlookup a).1] at hmem
    rw [(hlookup a).2]
    grind
  · intro e he
    rw [(hlookup "").1, if_neg (Ne.symm hne), if_neg (by simp)] at he
    rw [Saved, (hlookup "").2, if_neg (by simp)]
    exact inv.unnamed e he
  · intro a e ha he
    have husable := inv.usable a e ha
    rw [(hlookup a).1] at he
    grind
  · intro e he hehas a record ha
    rw [Registered, assign_devices] at he
    rw [(hlookup a).2] at ha
    exact inv.consumed e he hehas a record (by grind)
  · intro key circuit e he
    rw [assign_devices] at he
    exact inv.keyed key circuit e he

/-- The name `""` of a record of the device. -/
theorem assignUnnamed (inv : r.Inv dev) (hown : r.aliasOf d = "") (hsaved : r.Saved dev d "") :
    (r.assign "" d).Inv dev := by
  have hlookup := r.lookup_assign "" d
  have hsame : (r.assign "" d).aliasOf = r.aliasOf := by
    rw [assign_aliasOf, ← hown, Function.update_eq_self]
  have hinit : ∀ a, (r.assign "" d).initialDict.lookup a = r.initialDict.lookup a := by
    intro a
    rw [(hlookup a).2, hown]
    grind
  refine ⟨?_, ?_, ?_, ?_, ?_, ?_⟩
  · intro e he
    rw [hsame] at he ⊢
    rw [(hlookup _).1, if_neg he, if_neg (by simp [hown, he])]
    exact inv.held e he
  · intro a ha hmem
    rw [(hlookup a).1, if_neg ha, if_neg (by simp [hown, ha])] at hmem
    rw [hinit]
    exact inv.disjoint a ha hmem
  · intro e he
    rw [(hlookup "").1, if_pos rfl] at he
    obtain rfl := Option.some.inj he
    rw [Saved, hinit]
    exact hsaved
  · intro a e ha he
    rw [(hlookup a).1, if_neg ha, if_neg (by simp [hown, ha])] at he
    exact inv.usable a e ha he
  · intro e he hehas a record ha
    rw [Registered, assign_devices] at he
    rw [hinit] at ha
    exact inv.consumed e he hehas a record ha
  · intro key circuit e he
    rw [assign_devices] at he
    exact inv.keyed key circuit e he

theorem reset (inv : r.Inv dev) (d : ι) : (r.reset d).Inv dev := by
  have hlookup := r.lookup_reset d
  refine ⟨?_, ?_, ?_, ?_, ?_, ?_⟩
  · intro e he
    rw [reset_aliasOf, Function.update_apply] at he ⊢
    rw [(hlookup _).1]
    have hheld := inv.held e
    have hunique : r.aliasOf e ≠ "" → r.aliasOf e = r.aliasOf d → e = d := inv.unique
    grind
  · intro a ha hmem
    have hdisjoint := inv.disjoint a ha
    rw [(hlookup a).1] at hmem
    rw [(hlookup a).2]
    grind
  · intro e he
    rw [(hlookup "").1, if_neg (by simp)] at he
    rw [Saved, (hlookup "").2, if_neg (by simp)]
    exact inv.unnamed e he
  · intro a e ha he
    rw [(hlookup a).1] at he
    exact inv.usable a e ha (by grind)
  · intro e he hehas a record ha
    rw [Registered, reset_devices] at he
    rw [(hlookup a).2] at ha
    exact inv.consumed e he hehas a record (by grind)
  · intro key circuit e he
    rw [reset_devices] at he
    exact inv.keyed key circuit e he

theorem setAlias (inv : r.Inv dev) (v : AliasValue) (d : ι) : (r.setAlias dev v d).1.Inv dev := by
  rcases r.setAlias_cases dev v d with
    ⟨e, h⟩ | ⟨-, h⟩ | ⟨-, h⟩ | ⟨name, rfl, hne, hnew, hcheck, h⟩
  · rw [h]
    exact inv
  · rw [h]
    exact inv
  · rw [h]
    exact inv.reset d
  · rw [h]
    obtain ⟨halias, key, -, -, hok⟩ := (checkAlias_ok hne hnew).mp hcheck
    obtain ⟨hfree, -, hvalid⟩ := validate_ok.mp hok
    refine inv.assign hne (fun _ => ?_) hvalid halias
    rw [AList.lookup_eq_none]
    intro hmem
    simpa using hfree hmem

omit [DecidableEq ι] in
/-- The removal of a loaded alias. -/
theorem drop (inv : r.Inv dev) (hfree : r.aliasDict.lookup name = none) :
    (r.delete name).Inv dev := by
  have hlookup := r.lookup_delete name
  have haliasOf : (r.delete name).aliasOf = r.aliasOf := rfl
  refine ⟨?_, ?_, ?_, ?_, ?_, inv.keyed⟩
  · intro e he
    rw [haliasOf] at he ⊢
    have hheld := inv.held e he
    rw [(hlookup _).1]
    grind
  · intro a ha hmem
    have hdisjoint := inv.disjoint a ha
    rw [(hlookup a).1] at hmem
    rw [(hlookup a).2]
    grind
  · intro e he
    rw [(hlookup "").1] at he
    rw [Saved, (hlookup "").2]
    split at he
    · cases he
    · next hname =>
      rw [if_neg hname]
      exact inv.unnamed e he
  · intro a e ha he
    rw [(hlookup a).1] at he
    exact inv.usable a e ha (by grind)
  · intro e he hehas a record ha
    rw [(hlookup a).2] at ha
    exact inv.consumed e he hehas a record (by grind)

/-- The removal of a name of a device. -/
theorem release (inv : r.Inv dev) (h : r.aliasDict.lookup name = some d) :
    (r.release name d).Inv dev := by
  have hlookup := r.lookup_release name d
  refine ⟨?_, ?_, ?_, ?_, ?_, inv.keyed⟩
  · intro e he
    rw [release_aliasOf, Function.update_apply] at he ⊢
    have hheld := inv.held e
    rw [(hlookup _).1]
    grind
  · intro a ha hmem
    have hdisjoint := inv.disjoint a ha
    rw [(hlookup a).1] at hmem
    rw [(hlookup a).2]
    grind
  · intro e he
    rw [(hlookup "").1] at he
    rw [Saved, (hlookup "").2]
    split at he
    · cases he
    · next hname =>
      rw [if_neg hname]
      exact inv.unnamed e he
  · intro a e ha he
    rw [(hlookup a).1] at he
    exact inv.usable a e ha (by grind)
  · intro e he hehas a record ha
    rw [(hlookup a).2] at ha
    exact inv.consumed e he hehas a record (by grind)

/-! ### Orphans -/

theorem orphan_assign (inv : r.Inv dev) (hfree : name ≠ r.aliasOf d → r.aliasDict.lookup name = none)
    (hne : name ≠ "") : (r.assign name d).Orphan a e ↔ r.Orphan a e := by
  have hlookup := (r.lookup_assign name d a).1
  have hheld := inv.held d
  simp only [Orphan, hlookup, assign_aliasOf, Function.update_apply]
  grind

theorem orphan_assignUnnamed (hown : r.aliasOf d = "") :
    (r.assign "" d).Orphan a e ↔ r.Orphan a e := by
  have hlookup := (r.lookup_assign "" d a).1
  simp only [Orphan, hlookup, assign_aliasOf, Function.update_apply]
  grind

theorem orphan_reset (inv : r.Inv dev) : (r.reset d).Orphan a e ↔ r.Orphan a e := by
  have hlookup := (r.lookup_reset d a).1
  have hheld := inv.held d
  simp only [Orphan, hlookup, reset_aliasOf, Function.update_apply]
  grind

omit [DecidableEq ι] in
theorem orphan_drop (hfree : r.aliasDict.lookup name = none) :
    (r.delete name).Orphan a e ↔ r.Orphan a e := by
  have hlookup := (r.lookup_delete name a).1
  have haliasOf : (r.delete name).aliasOf = r.aliasOf := rfl
  simp only [Orphan, hlookup, haliasOf]
  grind

/-- The removal of a name which is not the alias of its device leaves this alias as an orphan. -/
theorem orphan_release (inv : r.Inv dev) :
    (r.release name d).Orphan a e ↔
      a ≠ name ∧ (r.Orphan a e ∨ e = d ∧ a ≠ "" ∧ r.aliasOf d = a) := by
  have hlookup := (r.lookup_release name d a).1
  have hheld := inv.held d
  simp only [Orphan, hlookup, release_aliasOf, Function.update_apply]
  grind

end Inv

/-! ## Registration -/

def withDevices (r : Registry ι) (devices : Dict (String × String) ι) : Registry ι :=
  { r with devices }

omit [DecidableEq ι] in
theorem add_withDevices (r : Registry ι) (devices : Dict (String × String) ι) (name : String)
    (d : ι) : (r.withDevices devices).add dev name d =
      ((r.add dev name d).1.withDevices devices, (r.add dev name d).2) := by
  have hvalidate : validate dev (r.withDevices devices) name d = validate dev r name d := rfl
  have haliasOf : (r.withDevices devices).aliasOf = r.aliasOf := rfl
  unfold add
  rw [hvalidate, haliasOf]
  split
  · split
    · rfl
    · simp only [deleteOwn, withDevices]
      by_cases hname : name ≠ "" <;> by_cases hown : r.aliasOf d ≠ "" <;>
        simp [hname, hown, delete]
  · rfl

theorem assignSaved_withDevices (r : Registry ι) (devices : Dict (String × String) ι)
    (name : String) (d : ι) : assignSaved dev d (r.withDevices devices) name =
      (assignSaved dev d r name).withDevices devices := by
  unfold assignSaved
  rw [add_withDevices]
  rcases r.add dev name d with ⟨r', e | u⟩ <;> rfl

theorem foldl_assignSaved_withDevices (names : List String) (r : Registry ι)
    (devices : Dict (String × String) ι) (d : ι) :
    names.foldl (assignSaved dev d) (r.withDevices devices) =
      (names.foldl (assignSaved dev d) r).withDevices devices := by
  induction names generalizing r with
  | nil => rfl
  | cons name names ih => rw [List.foldl_cons, List.foldl_cons, assignSaved_withDevices, ih]

omit [DecidableEq ι] in
theorem Saved.free (inv : r.Inv dev) {d : ι} {name : String} (hne : name ≠ "")
    (h : r.Saved dev d name) : r.aliasDict.lookup name = none := by
  obtain ⟨record, hlookup, -⟩ := h
  by_contra hmem
  simp [inv.disjoint name hne hmem] at hlookup

/-- A saved alias with a valid name is assigned. -/
theorem assignSaved_valid (inv : r.Inv dev) {d : ι} {name : String}
    (halias : (dev d).hasAlias = true) (hsaved : r.Saved dev d name) (hne : name ≠ "")
    (hvalid : ValidName name) : assignSaved dev d r name = r.assign name d := by
  have hfree := hsaved.free inv hne
  obtain ⟨record, hlookup, hbelongs⟩ := hsaved
  have hok : validate dev r name d = .ok () := by
    refine validate_ok.mpr ⟨fun hmem => ?_, fun record' h' => ?_, hvalid⟩
    · exact absurd hmem (AList.lookup_eq_none.mp hfree)
    · obtain rfl := Option.some.inj (hlookup.symm.trans h')
      exact hbelongs
  unfold assignSaved
  rcases r.add_cases dev name d with ⟨e, -, hbad | ⟨-, hbad⟩⟩ | ⟨r', hadd, hattr, -⟩
  · simp [halias] at hbad
  · simp [hok] at hbad
  · simp only [hadd, hattr]

/-- A saved alias with another name is refused, but not `""`: it equals the alias of a device
without one, which is not checked. -/
theorem assignSaved_invalid (inv : r.Inv dev) {d : ι} {name : String}
    (halias : (dev d).hasAlias = true) (hinvalid : ¬ValidName name) :
    assignSaved dev d r name = if name = "" ∧ r.aliasOf d = "" then r.assign "" d else r := by
  unfold assignSaved
  rcases r.add_cases dev name d with ⟨e, hadd, hbad⟩ | ⟨r', hadd, hattr, -, hok⟩
  · rw [hadd, if_neg]
    rintro ⟨rfl, hown⟩
    rcases hbad with hbad | ⟨hbad, -⟩
    · simp [halias] at hbad
    · exact hbad hown.symm
  · have hown : name = r.aliasOf d := by
      by_contra hown
      exact hinvalid (validate_ok.mp (hok hown)).2.2
    have hempty : name = "" := by
      by_contra hne
      exact hinvalid (hown ▸ inv.validName (hown ▸ hne))
    subst hempty
    rw [if_pos ⟨rfl, hown.symm⟩, hadd, ← hattr]

theorem assignSaved_noAlias (r : Registry ι) {d : ι} (halias : (dev d).hasAlias = false)
    (name : String) : assignSaved dev d r name = r := by
  simp [assignSaved, add, halias]

theorem not_validName_empty : ¬ValidName "" := by
  decide

/-- What the saved aliases `names` of a device do, one after another. -/
structure Assigned (dev : ι → Device) (r : Registry ι) (d : ι) (names : List String)
    (r' : Registry ι) : Prop where
  inv : r'.Inv dev
  devices : r'.devices = r.devices
  others : ∀ e, e ≠ d → r'.aliasOf e = r.aliasOf e
  aliasOf : r'.aliasOf d = (names.filter (ValidName ·)).getLast?.getD (r.aliasOf d)
  initialDict : ∀ a, r'.initialDict.lookup a =
    if a ∈ names ∧ ValidName a then none else r.initialDict.lookup a
  aliasDict : ∀ a e, r'.aliasDict.lookup a = some e → e = d ∨ r.aliasDict.lookup a = some e
  orphan : ∀ a e, r'.Orphan a e ↔ r.Orphan a e

theorem foldl_assignSaved (inv : r.Inv dev) {d : ι} (halias : (dev d).hasAlias = true)
    (names : List String) (hnodup : names.Nodup) (hsaved : ∀ name ∈ names, r.Saved dev d name) :
    Assigned dev r d names (names.foldl (assignSaved dev d) r) := by
  induction names generalizing r with
  | nil => exact ⟨inv, rfl, fun _ _ => rfl, rfl, by simp, fun _ _ => .inr, fun _ _ => Iff.rfl⟩
  | cons name names ih =>
    obtain ⟨hnotMem, hnodup'⟩ := List.nodup_cons.mp hnodup
    have hhead := hsaved name List.mem_cons_self
    have hdict : ∀ a e, (r.assign name d).aliasDict.lookup a = some e →
        e = d ∨ r.aliasDict.lookup a = some e := by
      intro a e he
      rw [(r.lookup_assign name d a).1] at he
      grind
    rw [List.foldl_cons]
    by_cases hvalid : ValidName name
    · have hne : name ≠ "" := fun h => not_validName_empty (h ▸ hvalid)
      have hfree : name ≠ r.aliasOf d → r.aliasDict.lookup name = none :=
        fun _ => hhead.free inv hne
      have hlookup := fun a => (r.lookup_assign name d a).2
      have hown : r.aliasOf d ≠ "" → r.initialDict.lookup (r.aliasOf d) = none := fun h =>
        inv.disjoint _ h (by simp [inv.held d h])
      have hsaved' : ∀ n ∈ names, (r.assign name d).Saved dev d n := by
        intro n hn
        obtain ⟨record, hrecord, hbelongs⟩ := hsaved n (List.mem_cons_of_mem _ hn)
        refine ⟨record, ?_, hbelongs⟩
        rw [hlookup n]
        grind
      rw [assignSaved_valid inv halias hhead hne hvalid]
      have h := ih (inv.assign hne hfree hvalid halias) hnodup' hsaved'
      refine ⟨h.inv, h.devices.trans (r.assign_devices name d), ?_, ?_, ?_,
        fun a e he => (h.aliasDict a e he).elim .inl (hdict a e), ?_⟩
      · intro e he
        rw [h.others e he, assign_aliasOf, Function.update_of_ne he]
      · rw [h.aliasOf, assign_aliasOf, Function.update_self, List.filter_cons_of_pos (by simpa),
          List.getLast?_cons, Option.getD_some]
      · intro a
        rw [h.initialDict a, hlookup a]
        grind
      · intro a e
        rw [h.orphan, inv.orphan_assign hfree hne]
    · rw [assignSaved_invalid inv halias hvalid]
      by_cases hunnamed : name = "" ∧ r.aliasOf d = ""
      · obtain ⟨rfl, hown⟩ := hunnamed
        rw [if_pos ⟨rfl, hown⟩]
        have hinit : ∀ a, (r.assign "" d).initialDict.lookup a = r.initialDict.lookup a := by
          intro a
          rw [(r.lookup_assign "" d a).2, hown]
          grind
        have hsame : (r.assign "" d).aliasOf = r.aliasOf := by
          rw [assign_aliasOf, ← hown, Function.update_eq_self]
        have h := ih (inv.assignUnnamed hown hhead) hnodup' fun n hn => by
          rw [Saved, hinit]
          exact hsaved n (List.mem_cons_of_mem _ hn)
        refine ⟨h.inv, h.devices.trans (r.assign_devices "" d), ?_, ?_, ?_,
          fun a e he => (h.aliasDict a e he).elim .inl (hdict a e), ?_⟩
        · intro e he
          rw [h.others e he, hsame]
        · rw [h.aliasOf, hsame, List.filter_cons_of_neg (by simpa)]
        · intro a
          rw [h.initialDict a, hinit a]
          grind
        · intro a e
          rw [h.orphan, Inv.orphan_assignUnnamed hown]
      · rw [if_neg hunnamed]
        have h := ih inv hnodup' fun n hn => hsaved n (List.mem_cons_of_mem _ hn)
        refine ⟨h.inv, h.devices, h.others, ?_, ?_, h.aliasDict, h.orphan⟩
        · rw [h.aliasOf, List.filter_cons_of_neg (by simpa)]
        · intro a
          rw [h.initialDict a]
          grind

omit [DecidableEq ι] in
theorem mem_getAliasesByCircuit {d : ι} {name : String} :
    name ∈ r.getAliasesByCircuit (dev d).devtype (dev d).circuit ↔ r.Saved dev d name := by
  simp only [getAliasesByCircuit, List.mem_map, List.mem_filter, Saved]
  constructor
  · rintro ⟨⟨name', record⟩, ⟨hmem, hbelongs⟩, rfl⟩
    exact ⟨record, Dict.mem_items.mp hmem, hbelongs⟩
  · rintro ⟨record, hlookup, hbelongs⟩
    exact ⟨(name, record), ⟨Dict.mem_items.mpr hlookup, hbelongs⟩, rfl⟩

omit [DecidableEq ι] in
theorem nodup_getAliasesByCircuit (r : Registry ι) (devtype circuit : String) :
    (r.getAliasesByCircuit devtype circuit).Nodup :=
  r.initialDict.nodup_items.sublist (List.filter_sublist.map _)

/-- The alias of the device after its registration: the last saved one with a valid name. -/
def savedAlias (dev : ι → Device) (r : Registry ι) (d : ι) : String :=
  if (dev d).hasAlias then
    ((r.getAliasesByCircuit (dev d).devtype (dev d).circuit).filter (ValidName ·)).getLast?.getD
      (r.aliasOf d)
  else r.aliasOf d

theorem registerDevice_eq {d : ι} {key : String} (hkey : dictOf (dev d).devtype = some key) :
    r.registerDevice dev (dev d).devtype d =
      (((r.getAliasesByCircuit (dev d).devtype (dev d).circuit).foldl (assignSaved dev d)
        r).withDevices (r.devices.set (key, (dev d).circuit) d), .ok ()) := by
  rw [← foldl_assignSaved_withDevices]
  unfold registerDevice
  rw [hkey]
  rfl

theorem registerDevice_devices {d : ι} {key : String} (hkey : dictOf (dev d).devtype = some key) :
    (r.registerDevice dev (dev d).devtype d).1.devices =
      r.devices.set (key, (dev d).circuit) d := by
  rw [registerDevice_eq hkey]
  rfl

/-- The registry after the registration of a device. -/
structure AfterRegister (dev : ι → Device) (r : Registry ι) (d : ι) (key : String)
    (r' : Registry ι) : Prop where
  inv : r'.Inv dev
  devices : r'.devices = r.devices.set (key, (dev d).circuit) d
  others : ∀ e, e ≠ d → r'.aliasOf e = r.aliasOf e
  aliasOf : r'.aliasOf d = r.savedAlias dev d
  initialDict : ∀ a, r'.initialDict.lookup a =
    if (dev d).hasAlias ∧ a ∈ r.getAliasesByCircuit (dev d).devtype (dev d).circuit ∧ ValidName a
    then none else r.initialDict.lookup a
  aliasDict : ∀ a e, r'.aliasDict.lookup a = some e → e = d ∨ r.aliasDict.lookup a = some e
  orphan : ∀ a e, r'.Orphan a e ↔ r.Orphan a e

theorem registerDevice_spec (inv : r.Inv dev) {d : ι} {key : String}
    (hkey : dictOf (dev d).devtype = some key) :
    AfterRegister dev r d key (r.registerDevice dev (dev d).devtype d).1 := by
  rw [registerDevice_eq hkey]
  have hsaved : ∀ name ∈ r.getAliasesByCircuit (dev d).devtype (dev d).circuit,
      r.Saved dev d name := fun name => mem_getAliasesByCircuit.mp
  -- the registry after the saved aliases, without the new device
  obtain ⟨r₁, hr₁⟩ : ∃ r₁, r₁ = (r.getAliasesByCircuit (dev d).devtype (dev d).circuit).foldl
      (assignSaved dev d) r := ⟨_, rfl⟩
  rw [← hr₁]
  dsimp only
  have hspec : r₁.Inv dev ∧ r₁.devices = r.devices ∧ (∀ e, e ≠ d → r₁.aliasOf e = r.aliasOf e) ∧
      r₁.aliasOf d = r.savedAlias dev d ∧ (∀ a, r₁.initialDict.lookup a =
        if (dev d).hasAlias ∧ a ∈ r.getAliasesByCircuit (dev d).devtype (dev d).circuit ∧
            ValidName a then none
        else r.initialDict.lookup a) ∧
      (∀ a e, r₁.aliasDict.lookup a = some e → e = d ∨ r.aliasDict.lookup a = some e) ∧
      ∀ a e, r₁.Orphan a e ↔ r.Orphan a e := by
    cases halias : (dev d).hasAlias with
    | true =>
      have h := foldl_assignSaved inv halias _ (r.nodup_getAliasesByCircuit _ _) hsaved
      rw [← hr₁] at h
      exact ⟨h.inv, h.devices, h.others, by simpa [savedAlias, halias] using h.aliasOf,
        by simpa using h.initialDict, h.aliasDict, h.orphan⟩
    | false =>
      have hsame : r₁ = r := by
        rw [hr₁]
        exact List.foldl_fixed' (fun name => assignSaved_noAlias r halias name) _
      rw [hsame]
      exact ⟨inv, rfl, fun _ _ => rfl, by simp [savedAlias, halias], by simp, fun _ _ => .inr,
        fun _ _ => Iff.rfl⟩
  obtain ⟨hinv, hdevices, hothers, halias, hinit, hdict, horphan⟩ := hspec
  have hlookup : ∀ k, (r.devices.set (key, (dev d).circuit) d).lookup k =
      if k = (key, (dev d).circuit) then some d else r.devices.lookup k :=
    fun k => Dict.lookup_set _ _ _ _
  refine ⟨⟨hinv.held, hinv.disjoint, hinv.unnamed, hinv.usable, ?_, ?_⟩, rfl, hothers,
    halias, hinit, hdict, horphan⟩
  · rintro e ⟨key', hkey', he⟩ hehas a record ha hbelongs
    change (r.devices.set (key, (dev d).circuit) d).lookup _ = _ at he
    change r₁.initialDict.lookup a = some record at ha
    rw [hlookup] at he
    split at he
    · obtain rfl := Option.some.inj he
      intro hvalid
      have hmem : a ∈ r.getAliasesByCircuit (dev d).devtype (dev d).circuit := by
        refine mem_getAliasesByCircuit.mpr ⟨record, ?_, hbelongs⟩
        have := hinit a
        grind
      rw [hinit a, if_pos ⟨hehas, hmem, hvalid⟩] at ha
      cases ha
    · refine hinv.consumed e ⟨key', hkey', ?_⟩ hehas a record ha hbelongs
      rw [hdevices]
      exact he
  · intro key' circuit e he
    change (r.devices.set (key, (dev d).circuit) d).lookup _ = _ at he
    rw [hlookup] at he
    split at he
    · next heq =>
      obtain ⟨rfl, rfl⟩ := Prod.mk.inj heq
      obtain rfl := Option.some.inj he
      exact ⟨hkey, rfl⟩
    · refine hinv.keyed key' circuit e ?_
      rw [hdevices]
      exact he

/-! ## Runs -/

/-- An operation on the registry. -/
inductive Op (ι : Type)
  | register (d : ι)
  | setAlias (value : AliasValue) (d : ι)
  | remove (name : String)

/-- A device is registered by its own type. -/
def exec (dev : ι → Device) (r : Registry ι) : Op ι → Registry ι × Except AliasError Unit
  | .register d => r.registerDevice dev (dev d).devtype d
  | .setAlias value d => r.setAlias dev value d
  | .remove name => r.remove name

/-- The circuit of a registered device is not yet registered for its type. -/
def Fresh (dev : ι → Device) (r : Registry ι) : Op ι → Prop
  | .register d => ∀ key, dictOf (dev d).devtype = some key → (key, (dev d).circuit) ∉ r.devices
  | _ => True

/-- One operation, also one which raises. -/
def Step (dev : ι → Device) (r : Registry ι) (op : Op ι) (r' : Registry ι) : Prop :=
  r.Fresh dev op ∧ (r.exec dev op).1 = r'

/-- `remove` raises, or it releases the name of a device, or it drops a loaded alias. -/
theorem remove_cases (r : Registry ι) (name : String) :
    (∃ e, r.remove name = (r, .error e)) ∨
    (∃ d, r.aliasDict.lookup name = some d ∧ r.remove name = (r.release name d, .ok ())) ∨
    (r.aliasDict.lookup name = none ∧ r.remove name = (r.delete name, .ok ())) := by
  unfold remove
  split
  · exact .inl ⟨_, rfl⟩
  · cases hlookup : r.aliasDict.lookup name with
    | some d => exact .inr (.inl ⟨d, rfl, rfl⟩)
    | none => exact .inr (.inr ⟨rfl, rfl⟩)

theorem Inv.remove (inv : r.Inv dev) (name : String) : (r.remove name).1.Inv dev := by
  rcases r.remove_cases name with ⟨e, h⟩ | ⟨d, hd, h⟩ | ⟨hnone, h⟩ <;> rw [h]
  · exact inv
  · exact inv.release hd
  · exact inv.drop hnone

theorem Inv.step {op : Op ι} {r' : Registry ι} (inv : r.Inv dev) (h : r.Step dev op r') :
    r'.Inv dev := by
  obtain ⟨-, rfl⟩ := h
  cases op with
  | register d =>
    cases hkey : dictOf (dev d).devtype with
    | none => simpa [exec, registerDevice, hkey] using inv
    | some key => exact (registerDevice_spec inv hkey).inv
  | setAlias value d => exact inv.setAlias value d
  | remove name => exact inv.remove name

theorem Inv.run {ops : List (Op ι)} {r' : Registry ι} (inv : r.Inv dev)
    (h : Transition.Run (Step dev) r ops r') : r'.Inv dev :=
  h.invariant (fun _ _ _ => Inv.step) inv

/-- What an operation does with the aliases: nothing, or a device is registered, gets an alias,
loses its alias, or a name of a device or a loaded alias is removed. -/
theorem Step.cases {op : Op ι} {r' : Registry ι} (h : r.Step dev op r') :
    r' = r ∨
    (∃ d key, op = .register d ∧ dictOf (dev d).devtype = some key ∧
      r' = (r.registerDevice dev (dev d).devtype d).1) ∨
    (∃ name d, op = .setAlias (.str name) d ∧ name ≠ "" ∧ name ≠ r.aliasOf d ∧
      checkAlias dev r (.str name) d = .ok () ∧ r' = r.assign name d) ∨
    (∃ v d, op = .setAlias v d ∧ r' = r.reset d) ∨
    (∃ name d, op = .remove name ∧ r.aliasDict.lookup name = some d ∧ r' = r.release name d) ∨
    (∃ name, op = .remove name ∧ r.aliasDict.lookup name = none ∧ r' = r.delete name) := by
  obtain ⟨-, rfl⟩ := h
  cases op with
  | register d =>
    cases hkey : dictOf (dev d).devtype with
    | none => exact .inl (by simp [exec, registerDevice, hkey])
    | some key => exact .inr (.inl ⟨d, key, rfl, hkey, rfl⟩)
  | setAlias v d =>
    rcases r.setAlias_cases dev v d with
      ⟨e, h⟩ | ⟨-, h⟩ | ⟨-, h⟩ | ⟨name, rfl, hne, hnew, hcheck, h⟩
    · exact .inl (by simp [exec, h])
    · exact .inl (by simp [exec, h])
    · exact .inr (.inr (.inr (.inl ⟨v, d, rfl, by simp [exec, h]⟩)))
    · exact .inr (.inr (.inl ⟨name, d, rfl, hne, hnew, hcheck, by simp [exec, h]⟩))
  | remove name =>
    rcases r.remove_cases name with ⟨e, h⟩ | ⟨d, hd, h⟩ | ⟨hnone, h⟩
    · exact .inl (by simp [exec, h])
    · exact .inr (.inr (.inr (.inr (.inl ⟨name, d, rfl, hd, by simp [exec, h]⟩))))
    · exact .inr (.inr (.inr (.inr (.inr ⟨name, rfl, hnone, by simp [exec, h]⟩))))

omit [DecidableEq ι] in
/-- The alias of a device after its registration was its one before, or a saved one. -/
theorem savedAlias_cases (dev : ι → Device) (r : Registry ι) (d : ι) :
    r.savedAlias dev d = r.aliasOf d ∨
      ((dev d).hasAlias = true ∧ r.Saved dev d (r.savedAlias dev d) ∧
        ValidName (r.savedAlias dev d)) := by
  unfold savedAlias
  split
  · next halias =>
    cases hlast : ((r.getAliasesByCircuit (dev d).devtype (dev d).circuit).filter
        (ValidName ·)).getLast? with
    | none => exact .inl rfl
    | some name =>
      have hmem := List.mem_filter.mp (List.mem_of_getLast? hlast)
      exact .inr ⟨halias, mem_getAliasesByCircuit.mp hmem.1, by simpa using hmem.2⟩
  · exact .inl rfl

/-- An alias gained by an operation was free, its record belongs to the device. -/
theorem Step.gained {op : Op ι} {r' : Registry ι} (inv : r.Inv dev) (h : r.Step dev op r')
    {e : ι} (hne : r'.aliasOf e ≠ "") (hnew : r'.aliasOf e ≠ r.aliasOf e) :
    r.aliasDict.lookup (r'.aliasOf e) = none ∧ ∀ record,
      r.initialDict.lookup (r'.aliasOf e) = some record →
        belongs record (dev e).devtype (dev e).circuit := by
  have hlost : ∀ d, r'.aliasOf = Function.update r.aliasOf d "" → False := by
    intro d hd
    rw [hd, Function.update_apply] at hne hnew
    grind
  rcases h.cases with rfl | ⟨d, key, -, hkey, rfl⟩ | ⟨name, d, -, -, hnew', hcheck, rfl⟩ |
    ⟨v, d, -, rfl⟩ | ⟨name, d, -, -, rfl⟩ | ⟨name, -, -, rfl⟩
  · exact absurd rfl hnew
  · have hspec := registerDevice_spec inv hkey
    obtain rfl : e = d := by
      by_contra hed
      exact hnew (hspec.others e hed)
    rw [hspec.aliasOf] at hne hnew ⊢
    rcases r.savedAlias_cases dev e with hsame | ⟨-, hsaved, -⟩
    · exact absurd hsame hnew
    · refine ⟨hsaved.free inv hne, fun record' hlookup' => ?_⟩
      obtain ⟨record, hlookup, hbelongs⟩ := hsaved
      obtain rfl := Option.some.inj (hlookup.symm.trans hlookup')
      exact hbelongs
  · obtain rfl : e = d := by
      by_contra hed
      exact hnew (by rw [assign_aliasOf, Function.update_of_ne hed])
    rw [assign_aliasOf, Function.update_self] at hne ⊢
    obtain ⟨-, _, -, -, hok⟩ := (checkAlias_ok hne hnew').mp hcheck
    obtain ⟨hfree, hbelongs, -⟩ := validate_ok.mp hok
    refine ⟨AList.lookup_eq_none.mpr fun hmem => ?_, hbelongs⟩
    simpa using hfree hmem
  · exact (hlost d (r.reset_aliasOf d)).elim
  · exact (hlost d (r.release_aliasOf name d)).elim
  · exact absurd rfl hnew

/-- A loaded record is kept or dropped. -/
theorem Step.initialDict {op : Op ι} {r' : Registry ι} (inv : r.Inv dev) (h : r.Step dev op r')
    (a : String) :
    r'.initialDict.lookup a = none ∨ r'.initialDict.lookup a = r.initialDict.lookup a := by
  rcases h.cases with rfl | ⟨d, key, -, hkey, rfl⟩ | ⟨name, d, -, -, -, -, rfl⟩ |
    ⟨v, d, -, rfl⟩ | ⟨name, d, -, -, rfl⟩ | ⟨name, -, -, rfl⟩
  · exact .inr rfl
  · rw [(registerDevice_spec inv hkey).initialDict a]
    grind
  · rw [(r.lookup_assign name d a).2]
    grind
  · rw [(r.lookup_reset d a).2]
    grind
  · rw [(r.lookup_release name d a).2]
    grind
  · rw [(r.lookup_delete name a).2]
    grind

/-- Only the removal of a name can leave an orphan. -/
theorem Step.orphan_iff {op : Op ι} {r' : Registry ι} (inv : r.Inv dev) (h : r.Step dev op r')
    (hop : ∀ name d, op = .remove name → r.aliasDict.lookup name ≠ some d) (a : String) (e : ι) :
    r'.Orphan a e ↔ r.Orphan a e := by
  rcases h.cases with rfl | ⟨d, key, -, hkey, rfl⟩ | ⟨name, d, -, hne, hnew, hcheck, rfl⟩ |
    ⟨v, d, -, rfl⟩ | ⟨name, d, rfl, hd, -⟩ | ⟨name, -, hnone, rfl⟩
  · exact Iff.rfl
  · exact (registerDevice_spec inv hkey).orphan a e
  · obtain ⟨-, _, -, -, hok⟩ := (checkAlias_ok hne hnew).mp hcheck
    refine inv.orphan_assign (fun _ => AList.lookup_eq_none.mpr fun hmem => ?_) hne
    simpa using (validate_ok.mp hok).1 hmem
  · exact inv.orphan_reset
  · exact absurd hd (hop name d rfl)
  · exact Inv.orphan_drop hnone

omit [DecidableEq ι] in
theorem ofRecords_inv (records : Dict String (Option Record)) :
    (ofRecords records : Registry ι).Inv dev := by
  refine ⟨?_, ?_, ?_, ?_, ?_, ?_⟩
  · intro d hd
    simp [ofRecords] at hd
  · intro a _ hmem
    simp [ofRecords] at hmem
  · intro d hd
    simp [ofRecords] at hd
  · intro a d _ hd
    simp [ofRecords] at hd
  · rintro d ⟨key, -, hlookup⟩
    simp [ofRecords] at hlookup
  · intro key circuit d hlookup
    simp [ofRecords] at hlookup

omit [DecidableEq ι] in
/-- The loaded registry has only records of the file. -/
theorem loadAliases_eq {file : Option AliasFile} {r₀ : Registry ι}
    (h : loadAliases file = some r₀) : ∃ records, r₀ = ofRecords records := by
  have hempty : ({} : Registry ι) = ofRecords ∅ := rfl
  unfold loadAliases at h
  dsimp only at h
  split at h <;> split at h <;> first | exact ⟨_, (Option.some.inj h).symm⟩ | grind

omit [DecidableEq ι] in
theorem Inv.load {file : Option AliasFile} {r₀ : Registry ι} (h : loadAliases file = some r₀) :
    r₀.Inv dev := by
  obtain ⟨records, rfl⟩ := loadAliases_eq h
  exact ofRecords_inv records

omit [DecidableEq ι] in
theorem not_orphan_load {file : Option AliasFile} {r₀ : Registry ι}
    (h : loadAliases file = some r₀) (name : String) (d : ι) : ¬r₀.Orphan name d := by
  obtain ⟨records, rfl⟩ := loadAliases_eq h
  simp [Orphan, ofRecords]

end Registry

end Devices

end Evok
