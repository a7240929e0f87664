import Mathlib.Data.List.AList
import Mathlib.Data.List.Induction

/-!
# Dictionaries in the order of insertion

A dictionary is an association list without duplicate keys. A new key goes to its end, a key
which is set again keeps its place.

## Main definitions

* `Dict κ ν` : an association list of values of one type.
* `Dict.set` : set the value of a key.
* `Dict.update` : set the items of another dictionary.
* `Dict.group` : the elements of a list by their keys.
* `Dict.filterMapValues` : change or drop the values, in their order.

## Main results

* `Dict.lookup_set`, `Dict.lookup_filterMapValues` : the values after an operation.
* `Dict.lookup_group` : the group of a key has its elements in their order.
* `Dict.keys_group` : the keys are in the order of their first elements.
-/

/-- A dictionary with values of one type. -/
abbrev Dict (κ ν : Type) := AList fun _ : κ => ν

namespace Dict

variable {κ ν μ : Type}

/-- The items of a dictionary. -/
def items (d : Dict κ ν) : List (κ × ν) :=
  d.entries.map fun entry => (entry.1, entry.2)

theorem nodup_items (d : Dict κ ν) : (d.items.map Prod.fst).Nodup := by
  have hkeys : d.items.map Prod.fst = d.keys := by
    simp only [items, List.map_map, AList.keys, List.keys]
    rfl
  rw [hkeys]
  exact d.keys_nodup

section Set

variable [DecidableEq κ]

theorem mem_items {d : Dict κ ν} {k : κ} {v : ν} : (k, v) ∈ d.items ↔ d.lookup k = some v := by
  rw [← Option.mem_def, AList.mem_lookup_iff, items, List.mem_map]
  constructor
  · rintro ⟨⟨k', v'⟩, hmem, heq⟩
    obtain ⟨rfl, rfl⟩ := Prod.mk.inj heq
    exact hmem
  · intro h
    exact ⟨⟨k, v⟩, h, rfl⟩

theorem dlookup_kreplace (k : κ) (v : ν) (l : List (Σ _ : κ, ν)) (h : k ∈ l.keys) (a : κ) :
    (l.kreplace k v).dlookup a = if a = k then some v else l.dlookup a := by
  induction l with
  | nil => simp at h
  | cons entry l ih =>
    obtain ⟨k', v'⟩ := entry
    by_cases heq : k = k'
    · subst heq
      have hcons : (⟨k, v'⟩ :: l : List (Σ _ : κ, ν)).kreplace k v = ⟨k, v⟩ :: l :=
        List.lookmap_cons_some _ _ (if_pos rfl)
      rw [hcons]
      by_cases ha : a = k
      · subst ha
        simp
      · rw [List.dlookup_cons_ne l (⟨k, v⟩ : Σ _ : κ, ν) ha,
          List.dlookup_cons_ne l (⟨k, v'⟩ : Σ _ : κ, ν) ha, if_neg ha]
    · have hmem : k ∈ l.keys := by simpa [heq] using h
      have hcons : (⟨k', v'⟩ :: l : List (Σ _ : κ, ν)).kreplace k v =
          ⟨k', v'⟩ :: l.kreplace k v := List.lookmap_cons_none _ _ (if_neg heq)
      rw [hcons]
      by_cases ha : a = k'
      · subst ha
        simp [Ne.symm heq]
      · rw [List.dlookup_cons_ne _ (⟨k', v'⟩ : Σ _ : κ, ν) ha,
          List.dlookup_cons_ne _ (⟨k', v'⟩ : Σ _ : κ, ν) ha, ih hmem]

/-- Set the value of a key, a new one at the end. -/
def set (d : Dict κ ν) (k : κ) (v : ν) : Dict κ ν :=
  if h : k ∈ d then d.replace k v
  else ⟨d.entries ++ [⟨k, v⟩], by
    rw [List.NodupKeys, List.keys, List.map_append, List.nodup_append]
    refine ⟨d.nodupKeys, by simp, ?_⟩
    intro a ha b hb hab
    rw [List.map_singleton, List.mem_singleton] at hb
    subst hb hab
    exact h (AList.mem_keys.mpr ha)⟩

theorem lookup_set (d : Dict κ ν) (k : κ) (v : ν) (a : κ) :
    (d.set k v).lookup a = if a = k then some v else d.lookup a := by
  unfold set
  split
  · next h => exact dlookup_kreplace k v d.entries (AList.mem_keys.mp h) a
  · next h =>
    simp only [AList.lookup, List.dlookup_append]
    by_cases ha : a = k
    · subst ha
      have hnone : d.entries.dlookup a = none := AList.lookup_eq_none.mpr h
      simp [hnone]
    · rw [List.dlookup_cons_ne _ _ ha, if_neg ha]
      simp

@[simp] theorem lookup_set_self (d : Dict κ ν) (k : κ) (v : ν) : (d.set k v).lookup k = some v := by
  simp [lookup_set]

theorem lookup_set_ne (d : Dict κ ν) {k a : κ} (h : a ≠ k) (v : ν) :
    (d.set k v).lookup a = d.lookup a := by
  simp [lookup_set, h]

theorem lookup_erase (d : Dict κ ν) (k a : κ) :
    (d.erase k).lookup a = if a = k then none else d.lookup a := by
  split
  · next h => rw [h, AList.lookup_erase]
  · next h => exact AList.lookup_erase_ne h

theorem keys_set (d : Dict κ ν) (k : κ) (v : ν) :
    (d.set k v).keys = if k ∈ d then d.keys else d.keys ++ [k] := by
  unfold set
  split
  · exact AList.keys_replace k v d
  · simp [AList.keys, List.keys]

/-- Set the items of the second dictionary in the first one. -/
def update (d e : Dict κ ν) : Dict κ ν :=
  e.items.foldl (fun d item => d.set item.1 item.2) d

theorem lookup_foldl_set (items : List (κ × ν)) (h : (items.map Prod.fst).Nodup) (d : Dict κ ν)
    (k : κ) : let d' := items.foldl (fun d item => d.set item.1 item.2) d
    (∀ v, (k, v) ∈ items → d'.lookup k = some v) ∧
      (k ∉ items.map Prod.fst → d'.lookup k = d.lookup k) := by
  induction items generalizing d with
  | nil => simp
  | cons item items ih =>
    obtain ⟨hnotMem, hnodup⟩ := List.nodup_cons.mp h
    obtain ⟨hmem, hother⟩ := ih hnodup (d.set item.1 item.2)
    constructor
    · intro v hv
      rcases List.mem_cons.mp hv with rfl | hv
      · exact (hother hnotMem).trans (lookup_set_self d k v)
      · exact hmem v hv
    · intro hk
      rw [List.map_cons, List.mem_cons, not_or] at hk
      exact (hother hk.2).trans (lookup_set_ne d hk.1 item.2)

theorem lookup_update (d e : Dict κ ν) (k : κ) :
    (d.update e).lookup k = (e.lookup k).or (d.lookup k) := by
  obtain ⟨hmem, hother⟩ := lookup_foldl_set e.items e.nodup_items d k
  cases hlookup : e.lookup k with
  | some v => exact hmem v (mem_items.mpr hlookup)
  | none =>
    refine hother fun hk => ?_
    obtain ⟨⟨k', v⟩, hitem, rfl⟩ := List.mem_map.mp hk
    simp [mem_items.mp hitem] at hlookup

section Group

variable {α : Type}

/-- The elements by their keys, in the order of the first element of each key. -/
def group (key : α → κ) (elements : List α) : Dict κ (List α) :=
  elements.foldl (fun d a => d.set (key a) ((d.lookup (key a)).getD [] ++ [a])) ∅

theorem getD_lookup_group (key : α → κ) (elements : List α) (k : κ) :
    ((group key elements).lookup k).getD [] = elements.filter (key · = k) := by
  unfold group
  induction elements using List.reverseRecOn with
  | nil => rfl
  | append_singleton elements a ih =>
    rw [List.foldl_concat, lookup_set, List.filter_append]
    by_cases h : k = key a
    · subst h
      simp [ih]
    · rw [if_neg h, ih]
      simp [Ne.symm h]

/-- The elements of a key keep their order. -/
theorem lookup_group {key : α → κ} {elements : List α} {k : κ} {group' : List α}
    (h : (group key elements).lookup k = some group') :
    group' = elements.filter (key · = k) := by
  rw [← getD_lookup_group, h]
  rfl

theorem mem_of_group {key : α → κ} {elements : List α} {k : κ} {group' : List α}
    (h : (k, group') ∈ (group key elements).items) {a : α} (ha : a ∈ group') :
    a ∈ elements ∧ key a = k := by
  rw [lookup_group (mem_items.mp h), List.mem_filter] at ha
  simpa using ha

theorem keys_group (key : α → κ) (elements : List α) :
    (group key elements).keys = (elements.map key).eraseDups := by
  induction elements using List.reverseRecOn with
  | nil => rfl
  | append_singleton elements a ih =>
    have hconcat : group key (elements ++ [a]) = (group key elements).set (key a)
        (((group key elements).lookup (key a)).getD [] ++ [a]) := by
      simp [group]
    have hmem : key a ∈ group key elements ↔ key a ∈ elements.map key := by
      rw [AList.mem_keys, ih, List.mem_eraseDups]
    rw [hconcat, keys_set, List.map_append, List.eraseDups_append, ih]
    by_cases h : key a ∈ elements.map key
    · rw [if_pos (hmem.mpr h)]
      simp [List.removeAll, List.mem_map.mp h]
    · rw [if_neg (mt hmem.mp h)]
      have hnew : [key a].removeAll (elements.map key) = [key a] := by
        rw [List.removeAll, List.filter_singleton]
        simp only [List.elem_eq_mem, h, decide_false, Bool.not_false, cond_true]
      rw [List.map_singleton, hnew]
      rfl

theorem mem_keys_group {key : α → κ} {elements : List α} {k : κ} :
    k ∈ (group key elements).keys ↔ ∃ a ∈ elements, key a = k := by
  rw [keys_group, List.mem_eraseDups, List.mem_map]

end Group

end Set

/-- Change or drop the values, in their order. -/
def filterMapValues (f : κ → ν → Option μ) (d : Dict κ ν) : Dict κ μ :=
  ⟨d.entries.filterMap fun entry => (f entry.1 entry.2).map (Sigma.mk entry.1), by
    have hne := List.nodupKeys_iff_pairwise.mp d.nodupKeys
    refine List.nodupKeys_iff_pairwise.mpr (hne.filterMap _ ?_)
    intro s s' hss' t ht t' ht'
    obtain ⟨_, -, rfl⟩ := Option.map_eq_some_iff.mp ht
    obtain ⟨_, -, rfl⟩ := Option.map_eq_some_iff.mp ht'
    exact hss'⟩

theorem lookup_filterMapValues [DecidableEq κ] (f : κ → ν → Option μ) (d : Dict κ ν) (k : κ) :
    (d.filterMapValues f).lookup k = (d.lookup k).bind (f k) := by
  have hmem : ∀ v, (d.filterMapValues f).lookup k = some v ↔ (d.lookup k).bind (f k) = some v := by
    intro v
    rw [← Option.mem_def, AList.mem_lookup_iff, Option.bind_eq_some_iff, filterMapValues,
      List.mem_filterMap]
    constructor
    · rintro ⟨⟨k', v'⟩, hentry, heq⟩
      obtain ⟨w, hw, hwv⟩ := Option.map_eq_some_iff.mp heq
      obtain ⟨rfl, hval⟩ := Sigma.mk.inj_iff.mp hwv
      exact ⟨v', AList.mem_lookup_iff.mpr hentry, by rw [hw, eq_of_heq hval]⟩
    · rintro ⟨v', hlookup, hf⟩
      exact ⟨⟨k, v'⟩, AList.mem_lookup_iff.mp hlookup, by simp [hf]⟩
  exact Option.ext hmem

end Dict
