import Evok.Library.Dict

/-!
# Merging by keys

A receiver takes the values of a queue all at once. The queue keeps only the last value of each key,
so that a key loses the values replaced before they were taken, never its last one.

## Main definitions

* `valuesOf key k values`: the values of a key.
* `Merges`: the queue of what has passed and has not been taken.

## Main results

* `Merges.set`, `Merges.take`: a value enters the queue, the queue is taken.
* `Merges.order`: the taken values of a key are in the order in which they passed.
-/

variable {κ ν : Type} [DecidableEq κ]

/-- The values of a key. -/
def valuesOf (key : ν → κ) (k : κ) (values : List ν) : List ν :=
  values.filter (key · = k)

@[simp] theorem valuesOf_append (key : ν → κ) (k : κ) (l m : List ν) :
    valuesOf key k (l ++ m) = valuesOf key k l ++ valuesOf key k m :=
  List.filter_append l m

@[simp] theorem valuesOf_singleton_self (key : ν → κ) (v : ν) : valuesOf key (key v) [v] = [v] := by
  simp [valuesOf]

theorem valuesOf_singleton_ne {key : ν → κ} {k : κ} {v : ν} (h : k ≠ key v) :
    valuesOf key k [v] = [] := by
  simp [valuesOf, Ne.symm h]

/-- The queue `pending` between the values which passed and those which were taken. -/
structure Merges (key : ν → κ) (pending : Dict κ ν) (passed taken : List ν) : Prop where
  keyed : ∀ k v, pending.lookup k = some v → key v = k
  settled : ∀ k, pending.lookup k = none → (valuesOf key k taken).Sublist (valuesOf key k passed) ∧
    (valuesOf key k taken).getLast? = (valuesOf key k passed).getLast?
  waiting : ∀ k v, pending.lookup k = some v → ∃ older,
    valuesOf key k passed = older ++ [v] ∧ (valuesOf key k taken).Sublist older

namespace Merges

variable {key : ν → κ} {pending : Dict κ ν} {passed taken : List ν}

theorem empty (key : ν → κ) : Merges key ∅ [] [] := by
  constructor <;> simp [valuesOf]

/-- The taken values of a key are in the order in which they passed. -/
theorem order (h : Merges key pending passed taken) (k : κ) :
    (valuesOf key k taken).Sublist (valuesOf key k passed) := by
  cases hlookup : pending.lookup k with
  | none => exact (h.settled k hlookup).1
  | some v =>
    obtain ⟨older, hpassed, hsub⟩ := h.waiting k v hlookup
    rw [hpassed]
    exact hsub.trans (List.sublist_append_left older [v])

/-- A value replaces the one of its key. -/
theorem set (h : Merges key pending passed taken) (v : ν) :
    Merges key (pending.set (key v) v) (passed ++ [v]) taken := by
  refine ⟨fun k w hlookup => ?_, fun k hlookup => ?_, fun k w hlookup => ?_⟩ <;>
    rw [Dict.lookup_set] at hlookup <;> split at hlookup
  · next heq => rw [heq, ← Option.some.inj hlookup]
  · exact h.keyed k w hlookup
  · simp at hlookup
  · next hne =>
    rw [valuesOf_append, valuesOf_singleton_ne hne, List.append_nil]
    exact h.settled k hlookup
  · next heq =>
    obtain rfl := Option.some.inj hlookup
    subst heq
    exact ⟨valuesOf key (key v) passed, by simp, h.order (key v)⟩
  · next hne =>
    rw [valuesOf_append, valuesOf_singleton_ne hne, List.append_nil]
    exact h.waiting k w hlookup

/-- The values of a queue by a key. -/
theorem valuesOf_items (keyed : ∀ k v, pending.lookup k = some v → key v = k) (k : κ) :
    valuesOf key k (pending.items.map Prod.snd) = (pending.lookup k).toList := by
  -- no value of another item has the key
  have hother : ∀ items : List (κ × ν), (∀ item ∈ items, item ∈ pending.items ∧ item.1 ≠ k) →
      valuesOf key k (items.map Prod.snd) = [] := by
    intro items hitems
    refine List.filter_eq_nil_iff.mpr fun v hv => ?_
    obtain ⟨item, hitem, rfl⟩ := List.mem_map.mp hv
    obtain ⟨hmem, hne⟩ := hitems item hitem
    simpa [keyed item.1 item.2 (Dict.mem_items.mp hmem)] using hne
  cases hlookup : pending.lookup k with
  | none =>
    refine hother _ fun item hitem => ⟨hitem, ?_⟩
    rintro rfl
    simp [Dict.mem_items.mp hitem] at hlookup
  | some v =>
    obtain ⟨before, after, hsplit⟩ := List.append_of_mem (Dict.mem_items.mpr hlookup)
    have hnodup := pending.nodup_items
    rw [hsplit, List.map_append, List.map_cons, List.nodup_append, List.nodup_cons] at hnodup
    have hbefore : valuesOf key k (before.map Prod.snd) = [] := by
      refine hother _ fun item hitem => ⟨by simp [hsplit, hitem], ?_⟩
      exact hnodup.2.2 item.1 (List.mem_map_of_mem hitem) k List.mem_cons_self
    have hafter : valuesOf key k (after.map Prod.snd) = [] := by
      refine hother _ fun item hitem => ⟨by simp [hsplit, hitem], fun heq => hnodup.2.1.1 ?_⟩
      rw [← heq]
      exact List.mem_map.mpr ⟨item, hitem, rfl⟩
    have hown : valuesOf key k [v] = [v] := by
      obtain rfl := keyed k v hlookup
      exact valuesOf_singleton_self key v
    rw [hsplit, List.map_append, List.map_cons, valuesOf_append, hbefore, ← List.singleton_append,
      valuesOf_append, hown, hafter]
    rfl

/-- The whole queue is taken. -/
theorem take (h : Merges key pending passed taken) :
    Merges key ∅ passed (taken ++ pending.items.map Prod.snd) := by
  refine ⟨by simp, fun k _ => ?_, by simp⟩
  rw [valuesOf_append, valuesOf_items h.keyed]
  cases hlookup : pending.lookup k with
  | none => simpa using h.settled k hlookup
  | some v =>
    obtain ⟨older, hpassed, hsub⟩ := h.waiting k v hlookup
    rw [hpassed]
    exact ⟨hsub.append (List.Sublist.refl _), by simp⟩

end Merges
