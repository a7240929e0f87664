import Mathlib.Data.List.Basic
import Mathlib.Data.Nat.Basic
import Mathlib.Order.Lattice
import Mathlib.Logic.Function.Basic

/-!
# Files replaced by a rename

Names lead to inodes, an open file is its inode: it is written also after its name was renamed. A
file is replaced by a temporary one, which is opened, written part by part and renamed.

## Main definitions

* `Files`: the names, the inodes and their data.
* `Files.openTruncate`, `Files.pwrite`, `Files.rename`: the operations.
* `Files.Draft`: a temporary file with the first part of a text.

## Main results

* `Files.Draft.open`, `Files.Draft.write`, `Files.Draft.rename`: a replaced file has its old
  content, then the whole new text.
-/

/-- The names of a directory lead to inodes, the inodes from `next` on are unused. -/
structure Files (ν β : Type*) where
  inode : ν → Option Nat
  data : Nat → List β
  next : Nat

namespace Files

variable {ν β : Type*} [DecidableEq ν]

/-- The content of a name, `none` without the file. -/
def content (fs : Files ν β) (name : ν) : Option (List β) := (fs.inode name).map fs.data

/-- Open a name for writing: its inode is truncated, a missing one is created. -/
def openTruncate (fs : Files ν β) (name : ν) : Files ν β × Nat :=
  match fs.inode name with
  | some i => ({ fs with data := Function.update fs.data i [] }, i)
  | none =>
    ({ inode := Function.update fs.inode name (some fs.next)
       data := Function.update fs.data fs.next []
       next := fs.next + 1 }, fs.next)

/-- Elements written at an offset, a gap before it is filled. -/
def overwrite [Inhabited β] (old : List β) (offset : Nat) (new : List β) : List β :=
  old.take offset ++ List.replicate (offset - old.length) default ++ new ++
    old.drop (offset + new.length)

/-- Write at an offset of an open file. -/
def pwrite [Inhabited β] (fs : Files ν β) (fd offset : Nat) (new : List β) : Files ν β :=
  { fs with data := Function.update fs.data fd (overwrite (fs.data fd) offset new) }

/-- Rename a file, an existing target is replaced. -/
def rename (fs : Files ν β) (source target : ν) : Option (Files ν β) :=
  (fs.inode source).map fun i =>
    { fs with inode := Function.update (Function.update fs.inode source none) target (some i) }

/-- The inodes are used, each by one name. -/
structure Wf (fs : Files ν β) : Prop where
  used : ∀ name i, fs.inode name = some i → i < fs.next
  unique : ∀ name other i, fs.inode name = some i → fs.inode other = some i → name = other

/-- The temporary file `name`, open as `fd`, has the first `offset` elements of the text. -/
structure Draft (fs : Files ν β) (name : ν) (fd : Nat) (text : List β) (offset : Nat) : Prop where
  inode : fs.inode name = some fd
  bound : offset ≤ text.length
  data : fs.data fd = text.take offset

variable {fs : Files ν β} {name : ν} {fd offset : Nat} {text : List β}

theorem overwrite_take [Inhabited β] (hoffset : offset ≤ text.length) (n : Nat) :
    overwrite (text.take offset) offset ((text.drop offset).take n) = text.take (offset + n) := by
  have hgap : offset - (text.take offset).length = 0 := by
    rw [List.length_take]
    omega
  have hdrop : (text.take offset).drop (offset + ((text.drop offset).take n).length) = [] := by
    rw [List.drop_eq_nil_iff, List.length_take]
    omega
  rw [overwrite, hdrop, hgap, List.take_take, min_self, List.take_add]
  simp

namespace Wf

theorem openTruncate (hfs : fs.Wf) (name : ν) : (fs.openTruncate name).1.Wf := by
  unfold Files.openTruncate
  cases hname : fs.inode name with
  | some i => exact ⟨hfs.used, hfs.unique⟩
  | none =>
    refine ⟨fun other i hi => ?_, fun a b i ha hb => ?_⟩
    · by_cases hother : other = name
      · subst hother
        simp_all
      · have := hfs.used other i (by simpa [hother] using hi)
        simp only
        omega
    · by_cases ha' : a = name <;> by_cases hb' : b = name
      · rw [ha', hb']
      · have := hfs.used b i (by simpa [hb'] using hb)
        simp_all
      · have := hfs.used a i (by simpa [ha'] using ha)
        simp_all
      · exact hfs.unique a b i (by simpa [ha'] using ha) (by simpa [hb'] using hb)

omit [DecidableEq ν] in
theorem pwrite [Inhabited β] (hfs : fs.Wf) (fd offset : Nat) (new : List β) : (fs.pwrite fd offset new).Wf :=
  ⟨hfs.used, hfs.unique⟩

theorem rename {fs' : Files ν β} {source target : ν} (hfs : fs.Wf)
    (h : fs.rename source target = some fs') : fs'.Wf := by
  obtain ⟨i, hsource, rfl⟩ := Option.map_eq_some_iff.mp h
  refine ⟨fun other j hj => ?_, fun a b j ha hb => ?_⟩
  · have hused : ∃ from_, fs.inode from_ = some j := by
      by_cases htarget : other = target
      · subst htarget
        exact ⟨source, by simpa [hsource] using hj⟩
      · by_cases hs : other = source
        · simp_all
        · exact ⟨other, by simpa [htarget, hs] using hj⟩
    obtain ⟨from_, hfrom⟩ := hused
    exact hfs.used from_ j hfrom
  · simp only [Function.update_apply] at ha hb
    have := hfs.unique
    grind

end Wf

/-- The other files keep their content when a file is opened. -/
theorem content_openTruncate (hfs : fs.Wf) {other : ν} (hne : other ≠ name) :
    (fs.openTruncate name).1.content other = fs.content other := by
  unfold openTruncate content
  cases hname : fs.inode name with
  | some i =>
    cases hother : fs.inode other with
    | none => rfl
    | some j =>
      have hij : j ≠ i := by
        rintro rfl
        exact hne (hfs.unique other name j hother hname)
      simp [hij]
  | none =>
    cases hother : fs.inode other with
    | none => simp [hne, hother]
    | some j =>
      have := hfs.used other j hother
      have hj : j ≠ fs.next := by omega
      simp [hne, hother, hj]

theorem Draft.open (fs : Files ν β) (name : ν) (text : List β) :
    (fs.openTruncate name).1.Draft name (fs.openTruncate name).2 text 0 := by
  unfold openTruncate
  cases hname : fs.inode name with
  | some i => exact ⟨hname, Nat.zero_le _, by simp⟩
  | none => exact ⟨by simp, Nat.zero_le _, by simp⟩

omit [DecidableEq ν] in
/-- The other files keep their content when the temporary file is written. -/
theorem Draft.content_pwrite [Inhabited β] (hfs : fs.Wf) (hdraft : fs.Draft name fd text offset) {other : ν}
    (hne : other ≠ name) (new : List β) :
    (fs.pwrite fd offset new).content other = fs.content other := by
  unfold pwrite content
  cases hother : fs.inode other with
  | none => rfl
  | some j =>
    have hj : j ≠ fd := by
      rintro rfl
      exact hne (hfs.unique other name j hother hdraft.inode)
    simp [hj]

omit [DecidableEq ν] in
theorem Draft.write [Inhabited β] (hdraft : fs.Draft name fd text offset) {n : Nat}
    (hn : offset + n ≤ text.length) :
    (fs.pwrite fd offset ((text.drop offset).take n)).Draft name fd text (offset + n) := by
  refine ⟨hdraft.inode, hn, ?_⟩
  simp only [pwrite, Function.update_self, hdraft.data, overwrite_take hdraft.bound]

/-- A renamed file has the whole text at once. -/
theorem Draft.rename {fs' : Files ν β} {target : ν} (hdraft : fs.Draft name fd text offset)
    (hall : text.length ≤ offset) (h : fs.rename name target = some fs') :
    fs'.content target = some text := by
  obtain ⟨i, hsource, rfl⟩ := Option.map_eq_some_iff.mp h
  obtain rfl : fd = i := Option.some.inj (hdraft.inode.symm.trans hsource)
  simp [content, hdraft.data, List.take_of_length_le hall]

end Files
