import Mathlib.Data.List.Basic
import Mathlib.Data.String.Basic

/-!
# MQTT topics

A topic is a list of levels separated by `/`. A subscription is a topic whose levels may be
wildcards: `+` is any one level, `#` at its end are any levels.

## Main definitions

* `Topic.levels` : the levels of a topic.
* `Topic.matchesLevels`, `Topic.matchesFilter` : a topic is one of a subscription.

## Main results

* `Topic.levels_join`, `Topic.levels_of_notMem` : the levels of a composed topic.
* `Topic.join_inj`, `Topic.join_inj_of_last` : two equal topics with a level in front, or at their
  end, are composed of equal parts.
* `Topic.matchesLevels_append` : levels without wildcards match themselves.
-/

namespace Topic

/-- The levels of a topic. -/
def levels (topic : String) : List String :=
  (topic.toList.splitOn '/').map String.ofList

/-- Two topics, one under the other. -/
def join (a b : String) : String :=
  a ++ "/" ++ b

theorem toList_join (a b : String) : (join a b).toList = a.toList ++ '/' :: b.toList := by
  simp [join]

theorem levels_join (a b : String) : levels (join a b) = levels a ++ levels b := by
  rw [levels, toList_join, List.splitOn_append_cons_self, List.map_append]
  rfl

theorem levels_of_notMem {s : String} (h : '/' ∉ s.toList) : levels s = [s] := by
  rw [levels, List.splitOn_eq_singleton h]
  simp

/-- A topic with a separator has two levels or more. -/
theorem two_le_length_levels {s : String} (h : '/' ∈ s.toList) : 2 ≤ (levels s).length := by
  obtain ⟨before, after, hsplit⟩ := List.append_of_mem h
  rw [levels, hsplit, List.splitOn_append_cons_self, List.map_append, List.length_append]
  have hne := List.length_pos_of_ne_nil (List.splitOn_ne_nil '/' before)
  have hne' := List.length_pos_of_ne_nil (List.splitOn_ne_nil '/' after)
  simp only [List.length_map]
  omega

theorem length_levels_eq_one_iff {s : String} : (levels s).length = 1 ↔ '/' ∉ s.toList := by
  constructor
  · intro h hmem
    have := two_le_length_levels hmem
    omega
  · intro h
    rw [levels_of_notMem h]
    rfl

/-- A level in front of a topic is found again. -/
theorem join_inj {a a' b b' : String} (ha : '/' ∉ a.toList) (ha' : '/' ∉ a'.toList) :
    join a b = join a' b' ↔ a = a' ∧ b = b' := by
  constructor
  · intro h
    have hlist := congrArg String.toList h
    rw [toList_join, toList_join] at hlist
    have hsplit := congrArg (List.splitOn '/') hlist
    rw [List.splitOn_append_cons_self_of_not_mem ha,
      List.splitOn_append_cons_self_of_not_mem ha'] at hsplit
    have hfirst := (List.cons.inj hsplit).1
    rw [hfirst, List.append_cancel_left_eq] at hlist
    exact ⟨String.toList_inj.mp hfirst, String.toList_inj.mp (List.cons.inj hlist).2⟩
  · rintro ⟨rfl, rfl⟩
    rfl

/-- A level at the end of a topic is found again. -/
theorem join_inj_of_last {a a' b b' : String} (hb : '/' ∉ b.toList) (hb' : '/' ∉ b'.toList) :
    join a b = join a' b' ↔ a = a' ∧ b = b' := by
  constructor
  · intro h
    have hlist := congrArg (fun s : String => s.toList.reverse) h
    simp only [toList_join, List.reverse_append, List.reverse_cons, List.append_assoc,
      List.cons_append, List.nil_append] at hlist
    have hsplit := congrArg (List.splitOn '/') hlist
    rw [List.splitOn_append_cons_self_of_not_mem (by simpa using hb),
      List.splitOn_append_cons_self_of_not_mem (by simpa using hb')] at hsplit
    have hlast := (List.cons.inj hsplit).1
    rw [hlast, List.append_cancel_left_eq] at hlist
    exact ⟨String.toList_inj.mp (List.reverse_injective (List.cons.inj hlist).2),
      String.toList_inj.mp (List.reverse_injective hlast)⟩
  · rintro ⟨rfl, rfl⟩
    rfl

theorem join_right_inj {a b b' : String} : join a b = join a b' ↔ b = b' := by
  constructor
  · intro h
    have hlist := congrArg String.toList h
    rw [toList_join, toList_join, List.append_cancel_left_eq] at hlist
    exact String.toList_inj.mp (List.cons.inj hlist).2
  · rintro rfl
    rfl

theorem join_left_inj {a a' b : String} : join a b = join a' b ↔ a = a' := by
  constructor
  · intro h
    have hlist := congrArg String.toList h
    rw [toList_join, toList_join, List.append_cancel_right_eq] at hlist
    exact String.toList_inj.mp hlist
  · rintro rfl
    rfl

theorem mem_of_mem_splitOn {α : Type*} [DecidableEq α] {a x : α} {l xs : List α}
    (h : l ∈ xs.splitOn a) (hx : x ∈ l) : x ∈ xs := by
  induction xs generalizing l with
  | nil =>
    rw [List.splitOn_nil, List.mem_singleton] at h
    exact h ▸ hx
  | cons y ys ih =>
    rw [List.splitOn_cons_eq_if_modifyHead] at h
    split at h
    · rcases List.mem_cons.mp h with rfl | h
      · cases hx
      · exact List.mem_cons_of_mem _ (ih h hx)
    · obtain ⟨first, rest, hsplit⟩ := List.exists_cons_of_ne_nil (List.splitOn_ne_nil a ys)
      rw [hsplit, List.modifyHead_cons] at h
      rcases List.mem_cons.mp h with rfl | h
      · rcases List.mem_cons.mp hx with rfl | hx
        · exact List.mem_cons_self
        · exact List.mem_cons_of_mem _ (ih (hsplit ▸ List.mem_cons_self) hx)
      · exact List.mem_cons_of_mem _ (ih (hsplit ▸ List.mem_cons_of_mem _ h) hx)

/-- The characters of a level are those of its topic. -/
theorem mem_of_mem_levels {s level : String} (h : level ∈ levels s) {c : Char}
    (hc : c ∈ level.toList) : c ∈ s.toList := by
  obtain ⟨l, hl, rfl⟩ := List.mem_map.mp h
  rw [String.toList_ofList] at hc
  exact mem_of_mem_splitOn hl hc

/-! ## Subscriptions -/

/-- The levels of a topic are those of a subscription. -/
def matchesLevels : List String → List String → Bool
  | [], [] => true
  | ["#"], _ => true
  | [], _ :: _ => false
  | _ :: _, [] => false
  | level :: filter, name :: topic => (level = "+" || level = name) && matchesLevels filter topic

/-- A topic is one of a subscription; a wildcard in front does not match the topics of `$`. -/
def matchesFilter (filter topic : String) : Bool :=
  (topic.toList.head? ≠ some '$' || (filter.toList.head? ≠ some '+' && filter.toList.head? ≠ some '#'))
    && matchesLevels (levels filter) (levels topic)

/-- The levels in front of a subscription which are no wildcards match themselves. -/
theorem matchesLevels_append {names : List String} (h : ∀ name ∈ names, name ≠ "+" ∧ name ≠ "#")
    (filter topic : List String) :
    matchesLevels (names ++ filter) (names ++ topic) = matchesLevels filter topic := by
  induction names with
  | nil => rfl
  | cons name names ih =>
    rw [List.forall_mem_cons] at h
    rw [List.cons_append, List.cons_append, matchesLevels]
    · simp [ih h.2]
    · intro heq
      exact absurd heq h.1.2

end Topic
