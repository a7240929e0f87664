import Evok.Devices.File
import Evok.Library.Fold
import Mathlib.Data.Finset.Basic

/-!
# The alias check of a change

A change checks its aliases before its first write: the check follows the aliases planned by the
assignments before each one, in the order of their execution. It is compared with the execution
of the same aliases one after another.

## Main definitions

* `Registry.checkAliases`: `_check_aliases` of the assignments by their units.
* `Registry.setAliases`: the aliases set one after another.
* `Registry.Held`: a name which the dictionary of the aliases has after some assignments.
* `Registry.Refused`, `Registry.Returned`: the assignments refused by the check, or only later.

## Main results

* `Registry.checkAliases_raises_iff`: the check raises for a refused assignment.
* `Registry.setAliases_raises_iff`: the execution raises also for a returned alias.
* `Registry.checkAliases_exact_iff`: the changes for which the check is exact.
-/

namespace Evok

namespace Devices

namespace Registry

variable {ι υ : Type} [DecidableEq ι] [DecidableEq υ]

/-! ## The check and the execution -/

/-- The planned aliases, the names released and taken by the assignments before. -/
structure Plan (ι : Type) where
  planned : ι → Option String := fun _ => none
  free : Finset String := ∅
  taken : Finset String := ∅

/-- The alias of a device after the earlier assignments. -/
def Plan.current (r : Registry ι) (plan : Plan ι) (d : ι) : String :=
  (plan.planned d).getD (r.aliasOf d)

/-- Take a checked name. -/
def Plan.take (plan : Plan ι) (name : String) : Plan ι :=
  { plan with taken := insert name plan.taken, free := plan.free.erase name }

/-- Release the alias of a device. -/
def Plan.release (plan : Plan ι) (current : String) : Plan ι :=
  if current ≠ "" then
    { plan with free := insert current plan.free, taken := plan.taken.erase current }
  else plan

/-- One assignment of the check. -/
def Plan.next (dev : ι → Device) (r : Registry ι) (plan : Plan ι) :
    ι × AliasValue → Except AliasError (Plan ι)
  | (_, .null) => .ok plan
  | (d, .other repr) =>
    if ¬(dev d).hasAlias then .error .attribute
    else (checkAlias dev r (.other repr) d plan.free).map fun _ => plan
  | (d, .str name) =>
    let current := plan.current r d
    if ¬(dev d).hasAlias then .error .attribute
    else if name = current then .ok plan
    else if name ≠ "" then
      match checkAlias dev r (.str name) d plan.free with
      | .error e => .error e
      | .ok () =>
        if name ∈ plan.taken then .error (.value s!"Duplicate alias {name}")
        else
          let plan := (plan.take name).release current
          .ok { plan with planned := Function.update plan.planned d (some name) }
    else
      let plan := plan.release current
      .ok { plan with planned := Function.update plan.planned d (some name) }

/-- The assignments of a change in the order of their execution: unit by unit. -/
def executionOrder (units : Dict υ (List (ι × AliasValue))) : List (ι × AliasValue) :=
  units.items.flatMap (·.2)

/-- `_check_aliases`. -/
def checkAliases (dev : ι → Device) (r : Registry ι) (units : Dict υ (List (ι × AliasValue))) :
    Except AliasError (Plan ι) :=
  (executionOrder units).foldlM (Plan.next dev r) {}

/-- `set_alias` of a device: `None` is not given. -/
def setGiven (dev : ι → Device) (r : Registry ι) :
    ι × AliasValue → Registry ι × Except AliasError Unit
  | (_, .null) => (r, .ok ())
  | (d, value) => r.setAlias dev value d

/-- Set the aliases one after another, up to the first error. -/
def setAliases (dev : ι → Device) (r : Registry ι) :
    List (ι × AliasValue) → Registry ι × Except AliasError Unit
  | [] => (r, .ok ())
  | item :: items =>
    match r.setGiven dev item with
    | (r, .error e) => (r, .error e)
    | (r, .ok ()) => r.setAliases dev items

/-! ## The aliases of a list of assignments -/

/-- The last alias given to the device. -/
def given (items : List (ι × AliasValue)) (d : ι) : Option String :=
  (items.filterMap fun
    | (e, .str name) => if e = d then some name else none
    | _ => none).getLast?

/-- The alias of the device after the assignments. -/
def aliasAfter (r : Registry ι) (items : List (ι × AliasValue)) (d : ι) : String :=
  (given items d).getD (r.aliasOf d)

/-- The name is a circuit of the type of the device. -/
def IsCircuit (dev : ι → Device) (r : Registry ι) (d : ι) (name : String) : Prop :=
  ∃ key, dictOf (dev d).devtype = some key ∧ (key, name) ∈ r.devices

/-- The name is the alias of a device after the assignments, or an orphan in the dictionary. -/
def Held (r : Registry ι) (before : List (ι × AliasValue)) (name : String) : Prop :=
  (∃ e, r.aliasAfter before e = name) ∨ ∃ d, r.Orphan name d

/-- An assignment refused after the others: a value which is not a string or of a device without
an alias, a name which is in the dictionary, a name which is invalid, reserved or a circuit. -/
def Refused (dev : ι → Device) (r : Registry ι) (before : List (ι × AliasValue)) (d : ι)
    (value : AliasValue) : Prop :=
  value ≠ .null ∧ ((dev d).hasAlias = false ∨ (∃ repr, value = .other repr) ∨
    ∃ name, value = .str name ∧ name ≠ "" ∧ name ≠ r.aliasAfter before d ∧
      (r.Held before name ∨ ¬ValidName name ∨
        (∃ record, r.initialDict.lookup name = some record ∧
          ¬belongs record (dev d).devtype (dev d).circuit) ∨
        name ≠ r.aliasOf d ∧ r.IsCircuit dev d name))

/-- An assignment which returns to a device its alias of before the change, given up earlier in
the change, while the alias is also a circuit of its type. -/
def Returned (dev : ι → Device) (r : Registry ι) (before : List (ι × AliasValue)) (d : ι)
    (value : AliasValue) : Prop :=
  value = .str (r.aliasOf d) ∧ r.aliasOf d ≠ "" ∧ r.aliasOf d ≠ r.aliasAfter before d ∧
    r.IsCircuit dev d (r.aliasOf d)

/-- Some assignment of the list satisfies the condition after the ones before it. -/
def SomeItem (p : List (ι × AliasValue) → ι → AliasValue → Prop)
    (items : List (ι × AliasValue)) : Prop :=
  ∃ before d value after, items = before ++ (d, value) :: after ∧ p before d value

variable {dev : ι → Device} {r : Registry ι} {before : List (ι × AliasValue)}

theorem aliasAfter_str (r : Registry ι) (before : List (ι × AliasValue)) (d : ι) (name : String) :
    r.aliasAfter (before ++ [(d, .str name)]) = Function.update (r.aliasAfter before) d name := by
  funext e
  unfold aliasAfter given
  rw [List.filterMap_append, Function.update_apply]
  by_cases hde : e = d
  · simp [hde]
  · simp [hde, Ne.symm hde]

theorem aliasAfter_null (r : Registry ι) (before : List (ι × AliasValue)) (d : ι) :
    r.aliasAfter (before ++ [(d, .null)]) = r.aliasAfter before := by
  funext e
  simp [aliasAfter, given]

/-! ## The plan -/

/-- The plan of a check which has accepted the assignments before. -/
structure PlanInv (dev : ι → Device) (r : Registry ι) (before : List (ι × AliasValue))
    (plan : Plan ι) : Prop where
  current : ∀ d, plan.current r d = r.aliasAfter before d
  taken : ∀ name, name ∈ plan.taken ↔ name ≠ "" ∧ ∃ d, plan.planned d = some name
  free : ∀ name, name ≠ "" → r.aliasDict.lookup name ≠ none →
    (name ∉ plan.free ∧ name ∉ plan.taken ↔ ∀ d, r.aliasOf d = name → plan.planned d = none)
  unique : ∀ d e, plan.current r d = plan.current r e → plan.current r d ≠ "" → d = e

omit [DecidableEq ι] in
theorem Plan.current_of_planned (r : Registry ι) (plan : Plan ι) {d : ι} {name : String}
    (h : plan.planned d = some name) : plan.current r d = name := by
  rw [Plan.current, h]
  rfl

omit [DecidableEq ι] in
theorem Plan.current_of_kept (r : Registry ι) (plan : Plan ι) {d : ι}
    (h : plan.planned d = none) : plan.current r d = r.aliasOf d := by
  rw [Plan.current, h]
  rfl

/-- A name is held when it is taken, or in the dictionary and not released. -/
theorem PlanInv.held_iff {plan : Plan ι} (inv : r.Inv dev) (h : PlanInv dev r before plan)
    {name : String} (hne : name ≠ "") :
    r.Held before name ↔
      name ∈ plan.taken ∨ r.aliasDict.lookup name ≠ none ∧ name ∉ plan.free := by
  have hfree := h.free name hne
  have htaken := h.taken name
  have hplanned : ∀ e, plan.planned e = some name → r.aliasAfter before e = name := by
    intro e he
    rw [← h.current e, plan.current_of_planned r he]
  constructor
  · rintro (⟨e, he⟩ | ⟨d, horphan⟩)
    · rw [← h.current e] at he
      cases hnew : plan.planned e with
      | some x =>
        obtain rfl : x = name := (plan.current_of_planned r hnew).symm.trans he
        left
        rw [htaken]
        exact ⟨hne, e, hnew⟩
      | none =>
        obtain rfl : r.aliasOf e = name := (plan.current_of_kept r hnew).symm.trans he
        have hmem : r.aliasDict.lookup (r.aliasOf e) ≠ none := by simp [inv.held e hne]
        refine .inr ⟨hmem, ((hfree hmem).mpr fun d hd => ?_).1⟩
        rwa [inv.unique (hd ▸ hne) hd]
    · have hmem : r.aliasDict.lookup name ≠ none := by simp [horphan.2.1]
      refine .inr ⟨hmem, ((hfree hmem).mpr fun e he => ?_).1⟩
      exact absurd he (inv.aliasOf_ne_orphan horphan e)
  · rintro (hmem | ⟨hmem, hnotFree⟩)
    · obtain ⟨-, e, he⟩ := htaken.mp hmem
      exact .inl ⟨e, hplanned e he⟩
    · by_cases htake : name ∈ plan.taken
      · obtain ⟨-, e, he⟩ := htaken.mp htake
        exact .inl ⟨e, hplanned e he⟩
      · have hkept := (hfree hmem).mp ⟨hnotFree, htake⟩
        obtain ⟨d, hd⟩ := Option.ne_none_iff_exists'.mp hmem
        rcases Inv.aliasOf_or_orphan hne hd with hown | horphan
        · refine .inl ⟨d, ?_⟩
          rw [← h.current d, plan.current_of_kept r (hkept d hown), hown]
        · exact .inr ⟨d, horphan⟩

/-- The plan after an accepted change of an alias. -/
def Plan.assign (r : Registry ι) (plan : Plan ι) (d : ι) (name : String) : Plan ι :=
  let next := if name ≠ "" then plan.take name else plan
  { next.release (plan.current r d) with planned := Function.update plan.planned d (some name) }

theorem Plan.mem_assign (r : Registry ι) (plan : Plan ι) (d : ι) (name m : String) :
    (m ∈ (plan.assign r d name).taken ↔
      (m = name ∧ name ≠ "" ∨ m ∈ plan.taken) ∧ ¬(m = plan.current r d ∧ m ≠ "")) ∧
    (m ∈ (plan.assign r d name).free ↔
      m = plan.current r d ∧ m ≠ "" ∨ m ∈ plan.free ∧ ¬(m = name ∧ name ≠ "")) := by
  unfold Plan.assign Plan.release Plan.take
  split <;> split <;> simp only [Finset.mem_insert, Finset.mem_erase] <;> grind

theorem Plan.planned_assign (r : Registry ι) (plan : Plan ι) (d : ι) (name : String) (e : ι) :
    (plan.assign r d name).planned e = if e = d then some name else plan.planned e :=
  Function.update_apply _ _ _ _

theorem Plan.current_assign (r : Registry ι) (plan : Plan ι) (d : ι) (name : String) (e : ι) :
    (plan.assign r d name).current r e = if e = d then name else plan.current r e := by
  unfold Plan.current
  rw [Plan.planned_assign]
  split <;> rfl

theorem PlanInv.taken_assign {plan : Plan ι} (h : PlanInv dev r before plan) {d : ι}
    {name : String} (hnew : name ≠ plan.current r d) (m : String) :
    m ∈ (plan.assign r d name).taken ↔
      m ≠ "" ∧ ∃ e, (plan.assign r d name).planned e = some m := by
  have htaken := h.taken m
  rw [(plan.mem_assign r d name m).1]
  constructor
  · rintro ⟨⟨rfl, hne⟩ | hold, hnot⟩
    · exact ⟨hne, d, by rw [plan.planned_assign, if_pos rfl]⟩
    · obtain ⟨hne, e, he⟩ := htaken.mp hold
      have hed : e ≠ d := by
        rintro rfl
        exact hnot ⟨(plan.current_of_planned r he).symm, hne⟩
      exact ⟨hne, e, by rw [plan.planned_assign, if_neg hed, he]⟩
  · rintro ⟨hne, e, he⟩
    rw [plan.planned_assign] at he
    split at he
    · obtain rfl := Option.some.inj he
      exact ⟨.inl ⟨rfl, hne⟩, fun hcur => hnew hcur.1⟩
    · next hed =>
      have hcurrent := plan.current_of_planned r he
      refine ⟨.inr (htaken.mpr ⟨hne, e, he⟩), ?_⟩
      rintro ⟨hcur, -⟩
      exact hed (h.unique e d (hcurrent.trans hcur) (by rwa [hcurrent]))

/-- A new name which is not held is in the dictionary of no device which keeps its alias. -/
theorem PlanInv.ne_of_kept {plan : Plan ι} (h : PlanInv dev r before plan) {name m : String}
    (hm : m ≠ "") (hdict : r.aliasDict.lookup m ≠ none)
    (hkept : ∀ e, r.aliasOf e = m → plan.planned e = none)
    (hfree : name ≠ "" → ¬r.Held before name) : m ≠ name := by
  rintro rfl
  obtain ⟨e, he⟩ := Option.ne_none_iff_exists'.mp hdict
  refine hfree hm ?_
  rcases Inv.aliasOf_or_orphan hm he with hown | horphan
  · refine .inl ⟨e, ?_⟩
    rw [← h.current e, plan.current_of_kept r (hkept e hown), hown]
  · exact .inr ⟨e, horphan⟩

theorem PlanInv.free_assign {plan : Plan ι} (h : PlanInv dev r before plan) {d : ι}
    {name : String} (hfree : name ≠ "" → ¬r.Held before name) {m : String} (hm : m ≠ "")
    (hdict : r.aliasDict.lookup m ≠ none) :
    m ∉ (plan.assign r d name).free ∧ m ∉ (plan.assign r d name).taken ↔
      ∀ e, r.aliasOf e = m → (plan.assign r d name).planned e = none := by
  have hmem := plan.mem_assign r d name m
  have hold := h.free m hm hdict
  rw [hmem.1, hmem.2]
  constructor
  · rintro ⟨hnotFree, hnotTaken⟩ e he
    have hcur : m ≠ plan.current r d := fun hcur => hnotFree (.inl ⟨hcur, hm⟩)
    have hname : ¬(m = name ∧ name ≠ "") := by
      rintro ⟨rfl, hne⟩
      exact hnotTaken ⟨.inl ⟨rfl, hne⟩, fun h => hcur h.1⟩
    have hnone := hold.mp ⟨fun hf => hnotFree (.inr ⟨hf, hname⟩),
      fun ht => hnotTaken ⟨.inr ht, fun h => hcur h.1⟩⟩ e he
    have hed : e ≠ d := by
      rintro rfl
      exact hcur (by rw [plan.current_of_kept r hnone, he])
    rw [plan.planned_assign, if_neg hed, hnone]
  · intro hall
    have hkept : ∀ e, r.aliasOf e = m → e ≠ d ∧ plan.planned e = none := by
      intro e he
      have hnone := hall e he
      rw [plan.planned_assign] at hnone
      split at hnone
      · cases hnone
      · next hed => exact ⟨hed, hnone⟩
    obtain ⟨hnotFree, hnotTaken⟩ := hold.mpr fun e he => (hkept e he).2
    have hcur : m ≠ plan.current r d := by
      intro hcur
      cases hnew : plan.planned d with
      | some x =>
        have hx : x = m := by rw [hcur, plan.current_of_planned r hnew]
        exact hnotTaken ((h.taken m).mpr ⟨hm, d, hx ▸ hnew⟩)
      | none =>
        have hown : r.aliasOf d = m := by rw [hcur, plan.current_of_kept r hnew]
        exact (hkept d hown).1 rfl
    have hname : m ≠ name := h.ne_of_kept hm hdict (fun e he => (hkept e he).2) hfree
    constructor
    · rintro (⟨hc, -⟩ | ⟨hf, -⟩)
      · exact hcur hc
      · exact hnotFree hf
    · rintro ⟨⟨hn, -⟩ | ht, -⟩
      · exact hname hn
      · exact hnotTaken ht

theorem PlanInv.assign {plan : Plan ι} (h : PlanInv dev r before plan) {d : ι}
    {name : String} (hnew : name ≠ plan.current r d)
    (hfree : name ≠ "" → ¬r.Held before name) :
    PlanInv dev r (before ++ [(d, .str name)]) (plan.assign r d name) where
  current e := by rw [plan.current_assign, aliasAfter_str, Function.update_apply, h.current]
  taken m := h.taken_assign hnew m
  free m hm hdict := h.free_assign hfree hm hdict
  unique x y hxy hne := by
    have hother : name ≠ "" → ∀ e, plan.current r e ≠ name := by
      intro hne e he
      exact hfree hne (.inl ⟨e, by rw [← h.current e, he]⟩)
    have hunique := h.unique
    rw [plan.current_assign] at hxy hne
    rw [plan.current_assign] at hxy
    grind

/-- A new name which another device has, or is invalid, reserved or a circuit, is refused. -/
theorem refused_str_iff {d : ι} {name : String} (halias : (dev d).hasAlias = true)
    (hne : name ≠ "") (hnew : name ≠ r.aliasAfter before d) :
    r.Refused dev before d (.str name) ↔
      r.Held before name ∨ ¬ValidName name ∨
        (∃ record, r.initialDict.lookup name = some record ∧
          ¬belongs record (dev d).devtype (dev d).circuit) ∨
        name ≠ r.aliasOf d ∧ r.IsCircuit dev d name := by
  unfold Refused
  constructor
  · rintro ⟨-, hno | ⟨repr, hrepr⟩ | ⟨name', hname, -, -, hbad⟩⟩
    · simp [halias] at hno
    · cases hrepr
    · obtain rfl := AliasValue.str.inj hname
      exact hbad
  · intro hbad
    exact ⟨by simp, .inr (.inr ⟨name, rfl, hne, hnew, hbad⟩)⟩

theorem not_refused_same {d : ι} {name : String} (halias : (dev d).hasAlias = true)
    (h : name = "" ∨ name = r.aliasAfter before d) : ¬r.Refused dev before d (.str name) := by
  rintro ⟨-, hno | ⟨repr, hrepr⟩ | ⟨name', hname, hne, hnew, -⟩⟩
  · simp [halias] at hno
  · cases hrepr
  · obtain rfl := AliasValue.str.inj hname
    exact h.elim hne hnew

omit [DecidableEq ι] in
theorem isCircuit_iff {d : ι} {key : String} (hkey : dictOf (dev d).devtype = some key)
    (name : String) : r.IsCircuit dev d name ↔ (key, name) ∈ r.devices := by
  constructor
  · rintro ⟨key', hkey', hmem⟩
    obtain rfl := Option.some.inj (hkey.symm.trans hkey')
    exact hmem
  · exact fun hmem => ⟨key, hkey, hmem⟩

/-- The check of a new name: it is accepted unless it is refused. -/
theorem PlanInv.check_iff {plan : Plan ι} (inv : r.Inv dev) (h : PlanInv dev r before plan)
    {d : ι} (hreg : r.Registered dev d) {name : String} (halias : (dev d).hasAlias = true)
    (hne : name ≠ "") (hnew : name ≠ r.aliasAfter before d) :
    checkAlias dev r (.str name) d plan.free = .ok () ∧ name ∉ plan.taken ↔
      ¬r.Refused dev before d (.str name) := by
  obtain ⟨key, hkey, -⟩ := hreg
  have hcircuit := isCircuit_iff (r := r) hkey name
  have hheld := h.held_iff inv hne
  rw [refused_str_iff halias hne hnew, hheld, hcircuit]
  by_cases hown : name = r.aliasOf d
  · -- the check accepts the alias of before the change at once, it is valid and not reserved
    have hlookup : r.aliasDict.lookup name = some d := hown ▸ inv.held d (hown ▸ hne)
    have hok : checkAlias dev r (.str name) d plan.free = .ok () := by
      simp [checkAlias, halias, hown]
    have hvalid : ValidName name := (inv.usable name d hne hlookup).1
    have hrecord : r.initialDict.lookup name = none := inv.disjoint name hne (by simp [hlookup])
    have hreleased : name ∉ plan.taken → name ∈ plan.free := by
      intro hnotTaken
      by_contra hnotFree
      have hnone := (h.free name hne (by simp [hlookup])).mp ⟨hnotFree, hnotTaken⟩ d hown.symm
      rw [← h.current, Plan.current, hnone] at hnew
      exact hnew hown
    grind
  · rw [checkAlias_ok hne hown, validate_ok]
    simp only [halias, true_and, hkey, Option.some.injEq, exists_eq_left']
    have hmem : name ∈ r.aliasDict ↔ r.aliasDict.lookup name ≠ none := by
      rw [ne_eq, AList.lookup_eq_none, not_not]
    rw [hmem]
    grind

theorem Plan.next_str {plan : Plan ι} {d : ι} {name : String} (halias : (dev d).hasAlias = true)
    (hne : name ≠ "") (hnew : name ≠ plan.current r d)
    (hok : checkAlias dev r (.str name) d plan.free = .ok () ∧ name ∉ plan.taken) :
    Plan.next dev r plan (d, .str name) = .ok (plan.assign r d name) := by
  unfold Plan.next
  simp only [halias, not_true_eq_false, if_false, if_neg hnew, if_pos hne, hok.1, if_neg hok.2,
    Plan.assign]
  unfold Plan.release
  split <;> rfl

/-- One assignment of the check: refused, or the plan follows it. -/
theorem PlanInv.next {plan : Plan ι} (inv : r.Inv dev) (h : PlanInv dev r before plan) {d : ι}
    (hreg : r.Registered dev d) (value : AliasValue) :
    (∃ e, Plan.next dev r plan (d, value) = .error e ∧ r.Refused dev before d value) ∨
      ∃ plan', Plan.next dev r plan (d, value) = .ok plan' ∧ ¬r.Refused dev before d value ∧
        PlanInv dev r (before ++ [(d, value)]) plan' := by
  cases value with
  | null =>
    refine .inr ⟨plan, rfl, fun hbad => hbad.1 rfl, ?_, h.taken, h.free, h.unique⟩
    rw [aliasAfter_null]
    exact h.current
  | other repr =>
    have hrefused : r.Refused dev before d (.other repr) := ⟨by simp, .inr (.inl ⟨repr, rfl⟩)⟩
    cases halias : (dev d).hasAlias with
    | false => exact .inl ⟨.attribute, by simp [Plan.next, halias], hrefused⟩
    | true => exact .inl ⟨_, by simp [Plan.next, halias, checkAlias, Except.map]; rfl, hrefused⟩
  | str name =>
    cases halias : (dev d).hasAlias with
    | false =>
      exact .inl ⟨.attribute, by simp [Plan.next, halias], by simp, .inl halias⟩
    | true =>
      by_cases hsame : name = plan.current r d
      · have hafter : name = r.aliasAfter before d := hsame.trans (h.current d)
        refine .inr ⟨plan, by simp [Plan.next, halias, hsame], not_refused_same halias (.inr hafter),
          ?_, h.taken, h.free, h.unique⟩
        intro e
        rw [aliasAfter_str, Function.update_apply, h.current]
        split
        · next hed => rw [hed, hafter]
        · rfl
      · have hnew : name ≠ r.aliasAfter before d := by rwa [← h.current]
        by_cases hne : name = ""
        · subst hne
          refine .inr ⟨plan.assign r d "", ?_, not_refused_same halias (.inl rfl),
            h.assign hsame (by simp)⟩
          simp only [Plan.next, halias, not_true_eq_false, if_false, if_neg hsame, ne_eq, Plan.assign]
          unfold Plan.release
          split <;> rfl
        · have hiff := h.check_iff inv hreg halias hne hnew
          by_cases hrefused : r.Refused dev before d (.str name)
          · left
            unfold Plan.next
            simp only [halias, not_true_eq_false, if_false, if_neg hsame, ne_eq, hne]
            cases hcheck : checkAlias dev r (.str name) d plan.free with
            | error e => exact ⟨e, rfl, hrefused⟩
            | ok u =>
              have hmem : name ∈ plan.taken := by
                by_contra hnotMem
                exact hiff.mp ⟨hcheck, hnotMem⟩ hrefused
              exact ⟨_, if_pos hmem, hrefused⟩
          · right
            refine ⟨_, Plan.next_str halias hne hsame (hiff.mpr hrefused), hrefused,
              h.assign hsame fun _ hheld => hrefused ?_⟩
            rw [refused_str_iff halias hne hnew]
            exact .inl hheld

/-! ## The execution -/

/-- The registry after the assignments before, none of them raised. -/
structure ExecInv (dev : ι → Device) (r : Registry ι) (before : List (ι × AliasValue))
    (s : Registry ι) : Prop where
  inv : s.Inv dev
  devices : s.devices = r.devices
  aliasOf : s.aliasOf = r.aliasAfter before
  initialDict : ∀ name, s.initialDict.lookup name = r.initialDict.lookup name
  orphan : ∀ name d, s.Orphan name d ↔ r.Orphan name d

/-- One assignment as a step of a fold. -/
def setStep (dev : ι → Device) (s : Registry ι) (item : ι × AliasValue) :
    Except AliasError (Registry ι) :=
  (s.setGiven dev item).2.map fun _ => (s.setGiven dev item).1

/-- The execution is a fold of its assignments. -/
theorem setAliases_eq (r : Registry ι) (items : List (ι × AliasValue)) :
    (r.setAliases dev items).2 = (items.foldlM (setStep dev) r).map fun _ => () := by
  induction items generalizing r with
  | nil => rfl
  | cons item items ih =>
    rw [List.foldlM_cons, setAliases]
    unfold setStep
    rcases hset : r.setGiven dev item with ⟨r', e | u⟩
    · rfl
    · exact ih r'

theorem ExecInv.reset {s : Registry ι} (h : ExecInv dev r before s) (d : ι) :
    ExecInv dev r (before ++ [(d, .str "")]) (s.reset d) := by
  refine ⟨h.inv.reset d, ?_, ?_, ?_, ?_⟩
  · exact (s.reset_devices d).trans h.devices
  · rw [reset_aliasOf, aliasAfter_str, h.aliasOf]
  · intro name
    have hdisjoint := h.inv.disjoint name
    have hheld := h.inv.held d
    rw [← h.initialDict name, (s.lookup_reset d name).2]
    grind
  · intro name e
    rw [h.inv.orphan_reset, h.orphan]

/-- A registered device has no usable record left, a new alias deletes none. -/
theorem ExecInv.assign {s : Registry ι} (inv : r.Inv dev) (h : ExecInv dev r before s) {d : ι}
    (hreg : r.Registered dev d) {name : String} (hne : name ≠ "")
    (halias : (dev d).hasAlias = true) (hok : validate dev s name d = .ok ()) :
    ExecInv dev r (before ++ [(d, .str name)]) (s.assign name d) := by
  obtain ⟨hfree, hrecord, hvalid⟩ := validate_ok.mp hok
  have hnone : s.aliasDict.lookup name = none :=
    AList.lookup_eq_none.mpr fun hmem => by simpa using hfree hmem
  refine ⟨h.inv.assign hne (fun _ => hnone) hvalid halias, ?_, ?_, ?_, ?_⟩
  · rw [assign_devices, h.devices]
  · rw [assign_aliasOf, aliasAfter_str, h.aliasOf]
  · intro a
    have hdisjoint := h.inv.disjoint a
    have hheld := h.inv.held d
    have hconsumed : r.initialDict.lookup name = none := by
      by_contra hmem
      obtain ⟨record, hlookup⟩ := Option.ne_none_iff_exists'.mp hmem
      exact inv.consumed d hreg halias name record hlookup
        (hrecord record (by rw [h.initialDict, hlookup])) hvalid
    have hsame := h.initialDict a
    rw [(s.lookup_assign name d a).2]
    grind
  · intro a e
    rw [h.inv.orphan_assign (fun _ => hnone) hne, h.orphan]

/-- A circuit is refused also as the alias of before the change. -/
theorem accepted_iff {circuit held reserved valid own : Prop} :
    ¬circuit ∧ ¬held ∧ ¬reserved ∧ valid ↔
      ¬((held ∨ ¬valid ∨ reserved ∨ ¬own ∧ circuit) ∨ own ∧ circuit) := by
  tauto

/-- A new name is set unless it is refused or returned. -/
theorem ExecInv.check_iff {s : Registry ι} (h : ExecInv dev r before s) {d : ι}
    (hreg : r.Registered dev d) {name : String} (halias : (dev d).hasAlias = true)
    (hne : name ≠ "") (hnew : name ≠ r.aliasAfter before d) :
    checkAlias dev s (.str name) d = .ok () ↔
      ¬(r.Refused dev before d (.str name) ∨ r.Returned dev before d (.str name)) := by
  obtain ⟨key, hkey, -⟩ := hreg
  have hcircuit := isCircuit_iff (r := r) hkey name
  have hreturned : r.Returned dev before d (.str name) ↔
      name = r.aliasOf d ∧ r.IsCircuit dev d name := by
    constructor
    · rintro ⟨hvalue, -, -, hmem⟩
      obtain rfl := AliasValue.str.inj hvalue
      exact ⟨rfl, hmem⟩
    · rintro ⟨rfl, hmem⟩
      exact ⟨rfl, hne, hnew, hmem⟩
  have hfree : (name ∈ s.aliasDict → name ∈ (∅ : Finset String)) ↔ ¬r.Held before name := by
    unfold Held
    rw [← h.aliasOf]
    constructor
    · rintro hnot (⟨e, rfl⟩ | ⟨e, horphan⟩)
      · have hmem : s.aliasOf e ∈ s.aliasDict := AList.lookup_isSome.mp (by simp [h.inv.held e hne])
        exact Finset.notMem_empty _ (hnot hmem)
      · rw [← h.orphan] at horphan
        exact Finset.notMem_empty _ (hnot (AList.lookup_isSome.mp (by simp [horphan.2.1])))
    · intro hnot hmem
      obtain ⟨e, he⟩ := Option.isSome_iff_exists.mp (AList.lookup_isSome.mpr hmem)
      rcases Inv.aliasOf_or_orphan hne he with hown | horphan
      · exact absurd (.inl ⟨e, hown⟩) hnot
      · exact absurd (.inr ⟨e, (h.orphan name e).mp horphan⟩) hnot
  have hrecord : (∀ record, s.initialDict.lookup name = some record →
      belongs record (dev d).devtype (dev d).circuit) ↔
      ¬∃ record, r.initialDict.lookup name = some record ∧
        ¬belongs record (dev d).devtype (dev d).circuit := by
    rw [h.initialDict]
    simp only [not_exists, not_and, not_not]
  have hown : name ≠ s.aliasOf d := by rwa [congrFun h.aliasOf d]
  rw [refused_str_iff halias hne hnew, hreturned, hcircuit, checkAlias_ok hne hown, validate_ok,
    hfree, hrecord, h.devices]
  simp only [halias, true_and, hkey, Option.some.injEq, exists_eq_left']
  exact accepted_iff

/-- One assignment of the execution: refused or returned, or the registry follows it. -/
theorem ExecInv.next {s : Registry ι} (inv : r.Inv dev) (h : ExecInv dev r before s) {d : ι}
    (hreg : r.Registered dev d) (value : AliasValue) :
    (∃ e, setStep dev s (d, value) = .error e ∧
      (r.Refused dev before d value ∨ r.Returned dev before d value)) ∨
      ∃ s', setStep dev s (d, value) = .ok s' ∧
        ¬(r.Refused dev before d value ∨ r.Returned dev before d value) ∧
        ExecInv dev r (before ++ [(d, value)]) s' := by
  cases value with
  | null =>
    refine .inr ⟨s, rfl, ?_, h.inv, h.devices, ?_, h.initialDict, h.orphan⟩
    · rintro (hbad | ⟨hbad, -⟩)
      · exact hbad.1 rfl
      · cases hbad
    · rw [aliasAfter_null, h.aliasOf]
  | other repr =>
    have hrefused : r.Refused dev before d (.other repr) := ⟨by simp, .inr (.inl ⟨repr, rfl⟩)⟩
    cases halias : (dev d).hasAlias with
    | false =>
      exact .inl ⟨.attribute, by simp [setStep, setGiven, setAlias, halias, Except.map],
        .inl hrefused⟩
    | true =>
      exact .inl ⟨_, by
        simp [setStep, setGiven, setAlias, halias, checkAlias, Except.map]
        rfl, .inl hrefused⟩
  | str name =>
    cases halias : (dev d).hasAlias with
    | false =>
      exact .inl ⟨.attribute, by simp [setStep, setGiven, setAlias, halias, Except.map],
        .inl ⟨by simp, .inl halias⟩⟩
    | true =>
      have hafter := congrFun h.aliasOf d
      have hstep : setStep dev s (d, .str name) =
          (s.setAlias dev (.str name) d).2.map fun _ => (s.setAlias dev (.str name) d).1 := rfl
      by_cases hsame : name = s.aliasOf d
      · have hset : s.setAlias dev (.str name) d = (s, .ok ()) := by
          simp [setAlias, halias, hsame]
        refine .inr ⟨s, by rw [hstep, hset]; rfl, ?_, h.inv, h.devices, ?_, h.initialDict,
          h.orphan⟩
        · rintro (hbad | ⟨hbad, -, hne, -⟩)
          · exact not_refused_same halias (.inr (hsame.trans hafter)) hbad
          · exact hne ((AliasValue.str.inj hbad).symm.trans (hsame.trans hafter))
        · rw [aliasAfter_str, ← h.aliasOf, hsame, Function.update_eq_self]
      · have hnew : name ≠ r.aliasAfter before d := by rwa [← hafter]
        by_cases hne : name = ""
        · subst hne
          have hset : s.setAlias dev (.str "") d = (s.reset d, .ok ()) := by
            simp [setAlias, halias, hsame]
            rfl
          refine .inr ⟨s.reset d, by rw [hstep, hset]; rfl, ?_, h.reset d⟩
          rintro (hbad | ⟨hbad, hne, -⟩)
          · exact not_refused_same halias (.inl rfl) hbad
          · exact hne (AliasValue.str.inj hbad).symm
        · have hset := setAlias_str hne hsame halias
          have hiff := h.check_iff hreg halias hne hnew
          cases hcheck : checkAlias dev s (.str name) d with
          | error e =>
            refine .inl ⟨e, by rw [hstep, hset, hcheck]; rfl, ?_⟩
            by_contra hgood
            rw [hiff.mpr hgood] at hcheck
            cases hcheck
          | ok u =>
            refine .inr ⟨s.assign name d, by rw [hstep, hset, hcheck]; rfl, hiff.mp hcheck, ?_⟩
            obtain ⟨-, key, -, -, hok⟩ := (checkAlias_ok hne hsame).mp hcheck
            exact h.assign inv hreg hne halias hok

/-! ## The results -/

theorem planInv_init (inv : r.Inv dev) : PlanInv dev r [] {} := by
  refine ⟨fun d => rfl, ?_, ?_, ?_⟩
  · intro name
    simp
  · intro name hne hmem
    simp
  · intro d e hde hne
    exact inv.unique hne hde

omit [DecidableEq υ] in
/-- The check raises for a refused assignment, and only for one. -/
theorem checkAliases_raises_iff (inv : r.Inv dev) {units : Dict υ (List (ι × AliasValue))}
    (hitems : ∀ item ∈ executionOrder units, r.Registered dev item.1) :
    (∃ e, checkAliases dev r units = .error e) ↔
      SomeItem (r.Refused dev) (executionOrder units) := by
  have hfold := Fold.raises_iff (f := Plan.next dev r) (I := PlanInv dev r)
    (B := fun before item => r.Refused dev before item.1 item.2)
    (fun before plan item hreg h => h.next inv hreg item.2) hitems (planInv_init inv)
  unfold checkAliases
  rw [hfold]
  constructor
  · rintro ⟨before, ⟨d, value⟩, after, hsplit, hbad⟩
    exact ⟨before, d, value, after, hsplit, hbad⟩
  · rintro ⟨before, d, value, after, hsplit, hbad⟩
    exact ⟨before, (d, value), after, hsplit, hbad⟩

/-- The execution raises for a refused or a returned assignment, and only for one. -/
theorem setAliases_raises_iff (inv : r.Inv dev) {items : List (ι × AliasValue)}
    (hitems : ∀ item ∈ items, r.Registered dev item.1) :
    (∃ e, (r.setAliases dev items).2 = .error e) ↔
      SomeItem (fun before d value =>
        r.Refused dev before d value ∨ r.Returned dev before d value) items := by
  have hinit : ExecInv dev r [] r :=
    ⟨inv, rfl, funext fun _ => rfl, fun _ => rfl, fun _ _ => Iff.rfl⟩
  have hfold := Fold.raises_iff (f := setStep dev) (I := ExecInv dev r)
    (B := fun before item =>
      r.Refused dev before item.1 item.2 ∨ r.Returned dev before item.1 item.2)
    (fun before s item hreg h => h.next inv hreg item.2) hitems hinit
  have hraises : (∃ e, (r.setAliases dev items).2 = .error e) ↔
      ∃ e, items.foldlM (setStep dev) r = .error e := by
    rw [setAliases_eq]
    cases items.foldlM (setStep dev) r <;> simp [Except.map]
  rw [hraises, hfold]
  constructor
  · rintro ⟨before, ⟨d, value⟩, after, hsplit, hbad⟩
    exact ⟨before, d, value, after, hsplit, hbad⟩
  · rintro ⟨before, d, value, after, hsplit, hbad⟩
    exact ⟨before, (d, value), after, hsplit, hbad⟩

/-- In every reachable registry the check of a change raises exactly when the execution would, if
and only if no assignment of the change returns a device to its alias of before the change which
is also a circuit of its type, or some other assignment is refused. -/
theorem checkAliases_exact_iff {file : Option AliasFile} {r₀ : Registry ι}
    (hload : loadAliases file = some r₀) {ops : List (Op ι)}
    (hrun : Transition.Run (Step dev) r₀ ops r) (unit : ι → υ) (assignments : List (ι × AliasValue))
    (hregistered : ∀ item ∈ assignments, r.Registered dev item.1) :
    let units := Dict.group (fun item => unit item.1) assignments
    ((∃ e, checkAliases dev r units = .error e) ↔
      ∃ e, (r.setAliases dev (executionOrder units)).2 = .error e) ↔
      (SomeItem (r.Returned dev) (executionOrder units) →
        SomeItem (r.Refused dev) (executionOrder units)) := by
  intro units
  have inv : r.Inv dev := (Inv.load hload).run hrun
  have hitems : ∀ item ∈ executionOrder units, r.Registered dev item.1 := by
    intro item hmem
    obtain ⟨⟨k, items⟩, hgroup, hitem⟩ := List.mem_flatMap.mp hmem
    exact hregistered item (Dict.mem_of_group hgroup hitem).1
  rw [checkAliases_raises_iff inv hitems, setAliases_raises_iff inv hitems]
  have hor : SomeItem (fun before d value =>
      r.Refused dev before d value ∨ r.Returned dev before d value) (executionOrder units) ↔
      SomeItem (r.Refused dev) (executionOrder units) ∨
        SomeItem (r.Returned dev) (executionOrder units) := by
    constructor
    · rintro ⟨before, d, value, after, hsplit, hbad | hbad⟩
      · exact .inl ⟨before, d, value, after, hsplit, hbad⟩
      · exact .inr ⟨before, d, value, after, hsplit, hbad⟩
    · rintro (⟨before, d, value, after, hsplit, hbad⟩ | ⟨before, d, value, after, hsplit, hbad⟩)
      · exact ⟨before, d, value, after, hsplit, .inl hbad⟩
      · exact ⟨before, d, value, after, hsplit, .inr hbad⟩
  rw [hor]
  tauto

theorem checkAliases_exact_iff_relays :
    let units := Dict.group (fun _ => ()) [((0 : Fin 3), AliasValue.str "pump"), (0, .str "fan")]
    (∃ e, checkAliases relays pumpRegistry units = .error e) ↔
      ∃ e, (pumpRegistry.setAliases relays (executionOrder units)).2 = .error e := by
  have hload : loadAliases none = some ({} : Registry (Fin 3)) := rfl
  have hregistered : ∀ item ∈ [((0 : Fin 3), AliasValue.str "pump"), (0, .str "fan")],
      pumpRegistry.Registered relays item.1 := by
    intro item hitem
    have hzero : item.1 = 0 := by
      rcases List.mem_pair.mp hitem with rfl | rfl <;> rfl
    rw [hzero]
    exact ⟨"ro", by decide, by decide⟩
  refine (checkAliases_exact_iff hload
    (.cons ⟨fun _ _ => AList.notMem_empty _, rfl⟩ (.cons ⟨trivial, rfl⟩ (.nil _)) :
      Transition.Run (Step relays) _ [.register 0, .setAlias (.str "pump") 0] pumpRegistry)
    (fun _ => ()) _ hregistered).mpr ?_
  -- no alias is a circuit
  rintro ⟨before, d, value, after, hsplit, hvalue, hne, -, key, hkey, hmem⟩
  have hkeys : (key, pumpRegistry.aliasOf d) ∈ [("ro", "1_01")] := AList.mem_keys.mp hmem
  have hnot : ∀ d, pumpRegistry.aliasOf d ≠ "1_01" := by decide
  exact absurd (Prod.mk.inj (List.mem_singleton.mp hkeys)).2 (hnot d)

/-- The registry of the first relay, whose alias is later registered as the second one. -/
def returnedRegistry : Registry (Fin 3) :=
  (exec relays (exec relays (exec relays {} (.register firstRelay)).1
    (.setAlias (.str "1_02") firstRelay)).1 (.register secondRelay)).1

theorem returnedRegistry_run : Transition.Run (Step relays) {}
    [.register 0, .setAlias (.str "1_02") 0, .register 1] returnedRegistry := by
  have hfresh : ∀ d (r : Registry (Fin 3)), dictOf (relays d).devtype = some "ro" →
      ("ro", (relays d).circuit) ∉ r.devices → Fresh relays r (.register d) := by
    intro d r hro hnotMem key hkey
    obtain rfl := Option.some.inj (hro.symm.trans hkey)
    exact hnotMem
  exact .cons ⟨hfresh 0 _ (by decide) (by decide), rfl⟩
    (.cons ⟨trivial, rfl⟩ (.cons ⟨hfresh 1 _ (by decide) (by decide), rfl⟩ (.nil _)))

/-- A request which renames the first relay and returns its alias: the check accepts it, the
execution refuses the second alias after the first one is set. -/
theorem not_checkAliases_exact : ¬∀ (ops : List (Op (Fin 3))) (r : Registry (Fin 3)),
    Transition.Run (Step relays) {} ops r → ∀ assignments : List (Fin 3 × AliasValue),
    (∀ item ∈ assignments, r.Registered relays item.1) →
    let units := Dict.group (fun _ => ()) assignments
    ((∃ e, checkAliases relays r units = .error e) ↔
      ∃ e, (r.setAliases relays (executionOrder units)).2 = .error e) := by
  intro hall
  have hregistered : ∀ item ∈ [((0 : Fin 3), AliasValue.str "fan"), (0, .str "1_02")],
      returnedRegistry.Registered relays item.1 := by
    intro item hitem
    have hzero : item.1 = 0 := by
      rcases List.mem_pair.mp hitem with rfl | rfl <;> rfl
    rw [hzero]
    exact ⟨"ro", by decide, by decide⟩
  obtain ⟨e, he⟩ := (hall _ _ returnedRegistry_run _ hregistered).mpr ⟨_, rfl⟩
  cases he

end Registry

end Devices

end Evok
