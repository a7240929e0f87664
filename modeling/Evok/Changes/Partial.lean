import Evok.Changes.SetDevices

/-!
# The states of a partial change

The states of a change are the states of the assignments whose `set()` returned, as they are at the
end of the change of their unit. After the first unit that raises no unit is changed.

## Main definitions

* `Operated.Valid`: what is done of the assignments of a unit.
* `Changed.Covers`: the ended units and the calls of a change.
* `Changed.Partial`: which states there are after a change.

## Main results

* `System.setDevices_isPartial`: the states of every change, also of one that raises.
* `System.setDevices_ok`: the states that a change returns.
-/

namespace Evok

namespace Changes

variable {σ ι υ V S E R : Type} {sys : System σ ι υ V S E R} {sequences : ι → Option S}

/-! ## The change of a unit -/

/-- The done assignments are the first ones of the unit, those whose `set()` returned. -/
structure Operated.Valid (o : Operated σ ι E) (items : List (Item ι V)) : Prop where
  order : ∃ rest, items.map (fun item => (item.1, item.2.1)) = o.done ++ rest ∧
    (o.result = .ok () → rest = [])
  completed : (o.calls.filter (·.2)).map (·.1) = o.done.map (·.1)
  called : ∀ call ∈ o.calls, call.1 ∈ items.map (·.1)

theorem Operated.Valid.mem_calls {o : Operated σ ι E} {items : List (Item ι V)} (h : o.Valid items)
    {index : ℕ} : (index, true) ∈ o.calls ↔ index ∈ o.done.map (·.1) := by
  rw [← h.completed, List.mem_map]
  constructor
  · intro hcall
    exact ⟨(index, true), List.mem_filter.mpr ⟨hcall, rfl⟩, rfl⟩
  · rintro ⟨⟨index', returned⟩, hcall, rfl⟩
    obtain ⟨hmem, hreturned⟩ := List.mem_filter.mp hcall
    obtain rfl : returned = true := hreturned
    exact hmem

theorem Operated.Valid.calls_of_ok {o : Operated σ ι E} {items : List (Item ι V)}
    (h : o.Valid items) (hok : o.result = .ok ()) {item : Item ι V} (hitem : item ∈ items) :
    (item.1, true) ∈ o.calls := by
  obtain ⟨rest, horder, hrest⟩ := h.order
  rw [hrest hok, List.append_nil] at horder
  rw [h.mem_calls, ← horder, List.map_map]
  exact List.mem_map_of_mem hitem

theorem System.operation_valid (items : List (Item ι V)) (w : σ) :
    (sys.operation sequences items w).Valid items := by
  induction items generalizing w with
  | nil => exact ⟨⟨[], rfl, fun _ => rfl⟩, rfl, by simp [operation]⟩
  | cons item items ih =>
    obtain ⟨index, device, kw⟩ := item
    unfold operation
    split
    · exact ⟨⟨_, rfl, by simp⟩, rfl, by simp⟩
    · split
      · next e hset => exact ⟨⟨_, rfl, by simp⟩, rfl, by simp⟩
      · next w' hset =>
        obtain ⟨⟨rest, horder, hok⟩, hcompleted, hcalled⟩ :=
          ih (sys.startSequence sequences device w')
        refine ⟨⟨rest, by simp [horder], hok⟩, by simp [hcompleted], ?_⟩
        intro call hcall
        rcases List.mem_cons.mp hcall with rfl | hcall
        · simp
        · exact List.mem_cons_of_mem _ (hcalled call hcall)

theorem System.change_valid {unit : υ} {available read : Bool} {devices : List ι}
    {operation : σ → Operated σ ι E} {items : List (Item ι V)}
    (hoperation : ∀ w, (operation w).Valid items) (w : σ) :
    (sys.change unit available read devices operation w).Valid items := by
  unfold change
  dsimp only
  split
  · exact ⟨⟨_, rfl, by simp⟩, rfl, by simp⟩
  · next w' hw' =>
    obtain ⟨⟨rest, horder, hok⟩, hcompleted, hcalled⟩ := hoperation w'
    refine ⟨⟨rest, horder, fun hresult => hok ?_⟩, hcompleted, hcalled⟩
    cases hraised : (if read then sys.readChanged unit devices (operation w').world
      else sys.checkDevices unit (operation w').world).2 with
    | some e =>
      simp only [hraised] at hresult
      cases hresult
    | none =>
      simp only [hraised] at hresult
      cases h : (operation w').result with
      | error e => simp [h, Except.mapError] at hresult
      | ok u => rfl

variable (sequences) in
theorem System.setUnit_valid (unit : υ) (items : List (Item ι V)) (w : σ) :
    (sys.setUnit sequences unit items w).Valid items := by
  unfold setUnit
  split
  · exact change_valid (fun w => operation_valid items w) w
  · exact operation_valid items w

/-! ## The units one after another -/

/-- The device of an assignment. -/
def deviceAt (assignments : List (ι × Params V)) (index : ℕ) : Option ι :=
  (assignments[index]?).map (·.1)

/-- The items of each unit are assignments of its devices. -/
def Placed (sys : System σ ι υ V S E R) (assignments : List (ι × Params V))
    (units : List (υ × List (Item ι V))) : Prop :=
  ∀ u ∈ units, ∀ item ∈ u.2, deviceAt assignments item.1 = some item.2.1 ∧ sys.unit item.2.1 = u.1

variable (sequences) in
theorem System.setUnits_raised (units : List (υ × List (Item ι V))) (w : σ) (states : Dict ℕ R) :
    let r := sys.setUnits sequences units w states
    (r.result = .ok () ∧ ∀ x ∈ r.ended, x.2.2 = .ok ()) ∨
      ∃ before unit w e, r.ended = before ++ [(unit, w, .error e)] ∧ r.result = .error e ∧
        ∀ x ∈ before, x.2.2 = .ok () := by
  induction units generalizing w states with
  | nil => exact .inl ⟨rfl, by simp [setUnits]⟩
  | cons u units ih =>
    obtain ⟨unit, items⟩ := u
    unfold setUnits
    dsimp only
    split
    · next e he => exact .inr ⟨[], unit, _, e, rfl, rfl, by simp⟩
    · next he =>
      rcases ih (sys.setUnit sequences unit items w).world
        (sys.addStates states (sys.setUnit sequences unit items w).done
          (sys.setUnit sequences unit items w).world) with
        ⟨hok, hall⟩ | ⟨before, unit', w', e, hended, herror, hbefore⟩
      · exact .inl ⟨hok, by simpa using hall⟩
      · refine .inr ⟨_ :: before, unit', w', e, by rw [hended]; rfl, herror, ?_⟩
        simpa using hbefore

variable (sequences) in
theorem System.setUnits_covers (units : List (υ × List (Item ι V))) (w : σ) (states : Dict ℕ R) :
    let r := sys.setUnits sequences units w states
    (∃ later, units.map (·.1) = r.ended.map (·.1) ++ later ∧ (r.result = .ok () → later = [])) ∧
      (∀ call ∈ r.calls, ∃ u ∈ units, u.1 ∈ r.ended.map (·.1) ∧ call.1 ∈ u.2.map (·.1)) ∧
      (r.result = .ok () → ∀ u ∈ units, ∀ item ∈ u.2, (item.1, true) ∈ r.calls) := by
  induction units generalizing w states with
  | nil => exact ⟨⟨[], rfl, fun _ => rfl⟩, by simp [setUnits], by simp⟩
  | cons u units ih =>
    obtain ⟨unit, items⟩ := u
    have hvalid := sys.setUnit_valid sequences unit items w
    unfold setUnits
    dsimp only
    split
    · next e he =>
      refine ⟨⟨_, rfl, by simp⟩, ?_, by simp⟩
      intro call hcall
      exact ⟨(unit, items), by simp, by simp, hvalid.called call hcall⟩
    · next he =>
      obtain ⟨⟨later, horder, hlater⟩, hcalled, hall⟩ :=
        ih (sys.setUnit sequences unit items w).world
          (sys.addStates states (sys.setUnit sequences unit items w).done
            (sys.setUnit sequences unit items w).world)
      refine ⟨⟨later, by simp [horder], hlater⟩, ?_, ?_⟩
      · intro call hcall
        rcases List.mem_append.mp hcall with hcall | hcall
        · exact ⟨(unit, items), by simp, by simp, hvalid.called call hcall⟩
        · obtain ⟨u, hu, hended, hmem⟩ := hcalled call hcall
          exact ⟨u, List.mem_cons_of_mem _ hu, List.mem_cons_of_mem _ hended, hmem⟩
      · intro hok u hu item hitem
        rcases List.mem_cons.mp hu with rfl | hu
        · exact List.mem_append_left _ (hvalid.calls_of_ok he hitem)
        · exact List.mem_append_right _ (hall hok u hu item hitem)

/-- The state of an assignment: its `set()` returned, the state is taken at the end of the change of
its unit. -/
def Changed.Has {A : Type} (sys : System σ ι υ V S E R) (assignments : List (ι × Params V))
    (r : Changed σ υ E R A) (index : ℕ) (state : R) : Prop :=
  (index, true) ∈ r.calls ∧ ∃ device w result, deviceAt assignments index = some device ∧
    (sys.unit device, w, result) ∈ r.ended ∧ state = sys.full device w

theorem System.lookup_addStates {assignments : List (ι × Params V)} {done : List (ℕ × ι)}
    (hdone : ∀ item ∈ done, deviceAt assignments item.1 = some item.2) (states : Dict ℕ R) (w : σ)
    (index : ℕ) :
    (sys.addStates states done w).lookup index =
      if index ∈ done.map (·.1) then (deviceAt assignments index).map (sys.full · w)
      else states.lookup index := by
  unfold addStates
  induction done generalizing states with
  | nil => rfl
  | cons item done ih =>
    obtain ⟨hitem, hrest⟩ := List.forall_mem_cons.mp hdone
    rw [List.foldl_cons, ih hrest, Dict.lookup_set]
    by_cases hmem : index ∈ done.map (·.1)
    · rw [if_pos hmem, if_pos (by simp [hmem])]
    · rw [if_neg hmem]
      by_cases heq : index = item.1
      · subst heq
        simp [hitem]
      · rw [if_neg heq, if_neg (by simpa [heq] using hmem)]

variable (sequences) in
theorem System.setUnits_states {assignments : List (ι × Params V)}
    (units : List (υ × List (Item ι V))) (hplaced : Placed sys assignments units)
    (hnodup : (units.map (·.1)).Nodup) (w : σ) (states : Dict ℕ R) (index : ℕ) (state : R) :
    let r := sys.setUnits sequences units w states
    r.states.lookup index = some state ↔ r.Has sys assignments index state ∨
      ((index, true) ∉ r.calls ∧ states.lookup index = some state) := by
  induction units generalizing w states with
  | nil => simp [setUnits, Changed.Has]
  | cons u units ih =>
    obtain ⟨unit, items⟩ := u
    have hvalid := sys.setUnit_valid sequences unit items w
    have hplaced' : Placed sys assignments units := fun u hu => hplaced u (List.mem_cons_of_mem _ hu)
    obtain ⟨hnew, hnodup'⟩ := List.nodup_cons.mp hnodup
    have hitems := hplaced (unit, items) List.mem_cons_self
    have hdone : ∀ item ∈ (sys.setUnit sequences unit items w).done,
        deviceAt assignments item.1 = some item.2 ∧ sys.unit item.2 = unit := by
      intro item hitem
      obtain ⟨rest, horder, -⟩ := hvalid.order
      have hmem : item ∈ items.map fun item => (item.1, item.2.1) :=
        horder ▸ List.mem_append_left _ hitem
      obtain ⟨item', hitem', rfl⟩ := List.mem_map.mp hmem
      exact hitems item' hitem'
    have hlookup := sys.lookup_addStates (fun item hitem => (hdone item hitem).1) states
      (sys.setUnit sequences unit items w).world index
    have hcovers := sys.setUnits_covers sequences units
      (sys.setUnit sequences unit items w).world
      (sys.addStates states (sys.setUnit sequences unit items w).done
        (sys.setUnit sequences unit items w).world)
    have hrest := ih hplaced' hnodup' (sys.setUnit sequences unit items w).world
      (sys.addStates states (sys.setUnit sequences unit items w).done
        (sys.setUnit sequences unit items w).world)
    unfold setUnits
    dsimp only
    generalize sys.setUnit sequences unit items w = o at *
    generalize sys.setUnits sequences units o.world (sys.addStates states o.done o.world) = r at *
    -- an assignment called later is of another unit
    have hlater : ∀ device, deviceAt assignments index = some device →
        (index, true) ∈ r.calls → sys.unit device ≠ unit := by
      rintro device hdevice hcall rfl
      obtain ⟨u, hu, -, hmem⟩ := hcovers.2.1 _ hcall
      obtain ⟨item, hitem, hindex⟩ := List.mem_map.mp hmem
      obtain ⟨hat, hunit⟩ := hplaced' u hu item hitem
      rw [hindex, hdevice] at hat
      obtain rfl := Option.some.inj hat
      exact hnew (List.mem_map.mpr ⟨u, hu, hunit.symm⟩)
    have hended : ∀ w' result, (unit, w', result) ∉ r.ended := by
      intro w' result hmem
      obtain ⟨⟨later, horder, -⟩, -⟩ := hcovers
      exact hnew (horder ▸ List.mem_append_left _ (List.mem_map_of_mem hmem))
    by_cases hmem : index ∈ o.done.map (·.1)
    · rw [if_pos hmem] at hlookup
      have hcall := hvalid.mem_calls.mpr hmem
      obtain ⟨⟨i, device⟩, hitem, heq⟩ := List.mem_map.mp hmem
      obtain rfl : i = index := heq
      obtain ⟨hdevice, hunit⟩ := hdone _ hitem
      simp only at hdevice hunit hlookup
      rw [hdevice] at hlookup
      have hnot : (i, true) ∉ r.calls := fun hcall' => hlater device hdevice hcall' hunit
      split
      · next e he =>
        simp only [Changed.Has]
        grind
      · next he =>
        simp only [Changed.Has] at hrest ⊢
        grind
    · rw [if_neg hmem] at hlookup
      have hcall : (index, true) ∉ o.calls := fun hcall => hmem (hvalid.mem_calls.mp hcall)
      split
      · next e he =>
        simp only [Changed.Has]
        grind
      · next he =>
        simp only [Changed.Has] at hrest ⊢
        grind

/-! ## The whole change -/

/-- The units are changed in the order of their first assignments, up to the one that raises. The
states are those of the assignments whose `set()` returned. -/
structure Changed.Partial [DecidableEq υ] {A : Type} (sys : System σ ι υ V S E R)
    (assignments : List (ι × Params V)) (r : Changed σ υ E R A) : Prop where
  order : ∃ later, (assignments.map fun item => sys.unit item.1).eraseDups =
      r.ended.map (·.1) ++ later ∧
    ∀ call ∈ r.calls, ∃ device, deviceAt assignments call.1 = some device ∧ sys.unit device ∉ later
  completed : ∀ index, index ∈ r.states ↔ (index, true) ∈ r.calls
  states : ∀ index state,
    r.states.lookup index = some state ↔ r.Has sys assignments index state

section

variable [DecidableEq υ] {assignments : List (ι × Params V)}

theorem System.placed_units (sys : System σ ι υ V S E R) (assignments : List (ι × Params V)) :
    Placed sys assignments (sys.units assignments).items := by
  rintro ⟨unit, items⟩ hu item hitem
  obtain ⟨hmem, hunit⟩ := Dict.mem_of_group hu hitem
  obtain ⟨⟨pair, index⟩, hzip, rfl⟩ := List.mem_map.mp hmem
  refine ⟨?_, hunit⟩
  rw [deviceAt, List.mk_mem_zipIdx_iff_getElem?.mp hzip]
  rfl

theorem System.keys_units (sys : System σ ι υ V S E R) (assignments : List (ι × Params V)) :
    (sys.units assignments).items.map (·.1) =
      (assignments.map fun item => sys.unit item.1).eraseDups := by
  have hkeys : (sys.units assignments).items.map (·.1) = (sys.units assignments).keys := by
    simp only [Dict.items, List.map_map, AList.keys, List.keys]
    rfl
  have hmap : assignments.zipIdx.map ((fun item : Item ι V => sys.unit item.2.1) ∘
      fun a => (a.2, a.1)) = (assignments.zipIdx.map Prod.fst).map fun item => sys.unit item.1 := by
    rw [List.map_map]
    rfl
  rw [hkeys, System.units, Dict.keys_group, List.map_map, hmap, List.zipIdx_map_fst]

variable (sequences) (assignments) in
theorem System.setUnits_isPartial (w : σ) :
    (sys.setUnits sequences (sys.units assignments).items w ∅).Partial sys assignments := by
  have hplaced := sys.placed_units assignments
  have hnodup := (sys.units assignments).nodup_items
  obtain ⟨⟨later, horder, -⟩, hcalled, -⟩ :=
    sys.setUnits_covers sequences (sys.units assignments).items w (∅ : Dict ℕ R)
  have hcall : ∀ call ∈ (sys.setUnits sequences (sys.units assignments).items w ∅).calls,
      ∃ device, deviceAt assignments call.1 = some device ∧ sys.unit device ∈
        (sys.setUnits sequences (sys.units assignments).items w ∅).ended.map (·.1) := by
    intro call hcall
    obtain ⟨u, hu, hended, hmem⟩ := hcalled call hcall
    obtain ⟨item, hitem, hindex⟩ := List.mem_map.mp hmem
    obtain ⟨hdevice, hunit⟩ := hplaced u hu item hitem
    exact ⟨item.2.1, hindex ▸ hdevice, hunit ▸ hended⟩
  have hstates : ∀ index state,
      (sys.setUnits sequences (sys.units assignments).items w ∅).states.lookup index = some state ↔
        (sys.setUnits sequences (sys.units assignments).items w ∅).Has sys assignments index
          state := by
    intro index state
    have hsome := sys.setUnits_states sequences _ hplaced hnodup w
      (∅ : Dict ℕ R) index state
    simpa using hsome
  refine ⟨⟨later, by rw [← keys_units, horder], ?_⟩, ?_, hstates⟩
  · intro call h
    obtain ⟨device, hdevice, hended⟩ := hcall call h
    rw [horder] at hnodup
    exact ⟨device, hdevice, List.disjoint_of_nodup_append hnodup hended⟩
  · intro index
    rw [← AList.lookup_isSome, Option.isSome_iff_exists]
    constructor
    · rintro ⟨state, hstate⟩
      exact ((hstates index state).mp hstate).1
    · intro h
      obtain ⟨device, hdevice, hended⟩ := hcall _ h
      obtain ⟨⟨_, w', result⟩, hentry, rfl⟩ := List.mem_map.mp hended
      exact ⟨_, (hstates index _).mpr ⟨h, device, w', result, hdevice, hentry, rfl⟩⟩

/-- Every assignment is an item of its unit. -/
theorem System.mem_units {index : ℕ} {device : ι} {kw : Params V}
    (h : assignments[index]? = some (device, kw)) :
    ∃ items, (sys.unit device, items) ∈ (sys.units assignments).items ∧
      (index, device, kw) ∈ items := by
  have hitem : (index, device, kw) ∈ assignments.zipIdx.map fun a => (a.2, a.1) :=
    List.mem_map.mpr ⟨((device, kw), index), List.mk_mem_zipIdx_iff_getElem?.mpr h, rfl⟩
  have hkey : sys.unit device ∈ (sys.units assignments).keys :=
    Dict.mem_keys_group.mpr ⟨_, hitem, rfl⟩
  obtain ⟨items, hlookup⟩ := Option.isSome_iff_exists.mp (AList.lookup_isSome.mpr hkey)
  refine ⟨items, Dict.mem_items.mpr hlookup, ?_⟩
  rw [Dict.lookup_group hlookup, List.mem_filter]
  exact ⟨hitem, by simp⟩

variable [DecidableEq ι]

theorem System.setDevices_isPartial (w : σ) :
    (sys.setDevices sequences assignments w).Partial sys assignments := by
  unfold setDevices
  dsimp only
  split
  · exact ⟨⟨_, rfl, by simp⟩, by simp, by simp [Changed.Has]⟩
  · obtain ⟨horder, hcompleted, hstates⟩ := sys.setUnits_isPartial sequences
      assignments w
    exact ⟨horder, hcompleted, hstates⟩

/-- The results of a change without an error: the state of each assignment in its place. -/
theorem System.setDevices_result (w : σ) :
    let r := sys.setDevices sequences assignments w
    (∃ e, r.result = .error e ∧ ((r.calls = [] ∧ r.ended = []) ∨
      ∃ before unit w', r.ended = before ++ [(unit, w', .error e)] ∧
        ∀ x ∈ before, x.2.2 = .ok ())) ∨
    ∃ states, r.result = .ok states ∧ states.length = assignments.length ∧
      (∀ x ∈ r.ended, x.2.2 = .ok ()) ∧
      ∀ index device, deviceAt assignments index = some device →
        ∃ state, states[index]? = some state ∧ r.Has sys assignments index state := by
  unfold setDevices
  dsimp only
  split
  · exact .inl ⟨_, rfl, .inl ⟨rfl, rfl⟩⟩
  · have hparts := sys.setUnits_isPartial sequences assignments w
    obtain ⟨⟨later, horder, hlater⟩, -, hall⟩ :=
      sys.setUnits_covers sequences (sys.units assignments).items w (∅ : Dict ℕ R)
    rcases sys.setUnits_raised sequences (sys.units assignments).items w
      (∅ : Dict ℕ R) with ⟨hok, hended⟩ | ⟨before, unit, w', e, hended, herror, hbefore⟩
    · right
      have hlookup : ∀ index device, deviceAt assignments index = some device → ∃ state,
          (sys.setUnits sequences (sys.units assignments).items w ∅).states.lookup index =
            some state := by
        intro index device hdevice
        obtain ⟨⟨_, kw⟩, hat, rfl⟩ := Option.map_eq_some_iff.mp hdevice
        obtain ⟨items, hu, hitem⟩ := sys.mem_units hat
        rw [hlater hok, List.append_nil] at horder
        have hmem := List.mem_map_of_mem (f := Prod.fst) hu
        rw [horder] at hmem
        obtain ⟨⟨_, w', result⟩, hentry, rfl⟩ := List.mem_map.mp hmem
        exact ⟨_, (hparts.states index _).mpr
          ⟨hall hok _ hu _ hitem, _, w', result, hdevice, hentry, rfl⟩⟩
      have hplaces : ∀ index ∈ List.range assignments.length, ∃ state,
          ((sys.setUnits sequences (sys.units assignments).items w ∅).states.lookup
            index).elim (.error (sys.keyError index)) Except.ok = .ok state := by
        intro index hindex
        have hlt := List.mem_range.mp hindex
        obtain ⟨state, hstate⟩ := hlookup index (assignments[index]).1 (by simp [deviceAt, hlt])
        exact ⟨state, by rw [hstate]; rfl⟩
      obtain ⟨states, hstates, hlength, hget⟩ := Fold.mapM_ok hplaces
      refine ⟨states, ?_, by rw [hlength, List.length_range], hended, ?_⟩
      · rw [hok]
        exact hstates
      · intro index device hdevice
        have hlt : index < assignments.length := by
          obtain ⟨_, hat, -⟩ := Option.map_eq_some_iff.mp hdevice
          exact (List.getElem?_eq_some_iff.mp hat).1
        obtain ⟨state, hat, hfound⟩ := hget index index (by simp [hlt])
        refine ⟨state, hat, (hparts.states index _).mp ?_⟩
        obtain ⟨state', hstate'⟩ := hlookup index device hdevice
        rw [hstate'] at hfound
        rw [hstate', Except.ok.inj hfound]
    · left
      refine ⟨e, ?_, .inr ⟨before, unit, w', hended, hbefore⟩⟩
      simp only [herror]
      rfl

end

end Changes

end Evok
