import Evok.Devices.File
import Evok.Library.Files

/-!
# The task that saves the aliases

`AliasTask` of `evok.py` and `save_aliases` of `config.py`. The task takes the aliases of the
registry and saves them in a worker thread; at its cancellation it saves the last changes itself.
The thread goes on after a cancellation of the task, a save that no thread has begun is dropped.

A step of the model is a step of the event loop or one operation on the files. The times are not
modelled: `SAVE_TIME` may expire at any time. The cancellation is its delivery to the task.

## Main definitions

* `saveAliases`: one operation of `save_aliases()`, also a failed one.
* `AliasTask`: the task with its thread, its registry and the files.
* `AliasTask.Step`: the labelled transitions.
-/

namespace Evok

namespace Devices

/-- The alias file and its temporary file. -/
inductive Path
  | file
  | tmp
  deriving DecidableEq

/-- Where `save_aliases()` stands: `written` of its text was written, the file was replaced. -/
inductive Save
  | opening
  | writing (fd written : ℕ)
  | replaced
  deriving DecidableEq

/-- An attempt to save the aliases, by its number. -/
structure Writer where
  attempt : ℕ
  aliases : Dict String Record
  save : Save

/-- The operations of `save_aliases()`: the open of the temporary file, the write of a part of the
text, the rename, the sync of the directory, or an error of one of them. -/
inductive Operation
  | open
  | write (n : ℕ)
  | replace
  | sync
  | fail

/-- What comes after an operation: the rest of the save, or its end and whether it succeeded. -/
abbrev Progress := Writer ⊕ Bool

variable (dump : Dict String Record → List Char)

/-- One operation of `save_aliases()`, `dump` is the text by `yaml.dump`. -/
def saveAliases (files : Files Path Char) (w : Writer) :
    Operation → Option (Files Path Char × Progress)
  | .open =>
    match w.save with
    | .opening =>
      let (files, fd) := files.openTruncate .tmp
      some (files, .inl { w with save := .writing fd 0 })
    | _ => none
  | .write n =>
    match w.save with
    | .writing fd written =>
      if 0 < n ∧ written + n ≤ (dump w.aliases).length then
        some (files.pwrite fd written (((dump w.aliases).drop written).take n),
          .inl { w with save := .writing fd (written + n) })
      else none
    | _ => none
  | .replace =>
    match w.save with
    | .writing _ written =>
      if written = (dump w.aliases).length then
        (files.rename .tmp .file).map fun files => (files, .inl { w with save := .replaced })
      else none
    | _ => none
  | .sync => if w.save = .replaced then some (files, .inr true) else none
  | .fail => some (files, .inr false)

/-- Where `work()` stands: at `dirty_trigger.wait()`, in `wait_for_save()`, at the save of the
thread, in the synchronous save after a cancellation, or at its end. -/
inductive Work
  | waitDirty
  | waitSave
  | saving
  | closing (w : Writer)
  | ended

/-- The thread of `to_thread()`: a save is queued until a thread takes it. -/
inductive Thread
  | idle
  | queued (w : Writer)
  | working (w : Writer)
  | finished (ok : Bool)

/-- The thread at the cancellation of the task that awaits it. -/
def Thread.afterCancel : Thread → Thread
  | .queued _ => .idle
  | thread => thread

/-- The task with the registry, whose flag `dirty` is the `dirty_trigger`. `taken` are the aliases
of each save attempt, `failed` are the numbers of the failed ones. -/
structure AliasTask (ι : Type) where
  registry : Registry ι
  saveTrigger : Bool
  work : Work
  thread : Thread
  files : Files Path Char
  taken : List (Dict String Record)
  failed : Finset ℕ

namespace AliasTask

variable {ι : Type} [DecidableEq ι] (dev : ι → Device)

/-- The task at its `dirty_trigger.wait()`, what was set dirty before is not known to it. -/
def init (r : Registry ι) (files : Files Path Char) : AliasTask ι where
  registry := { r with dirty := false }
  saveTrigger := false
  work := .waitDirty
  thread := .idle
  files := files
  taken := []
  failed := ∅

/-- The event loop runs. -/
def Running (s : AliasTask ι) : Prop := ∀ w, s.work ≠ .closing w

/-- `get_dict_to_save()` of the task. -/
def getDictToSave (s : AliasTask ι) : AliasTask ι :=
  { s with
    registry := { s.registry with dirty := false }
    saveTrigger := false
    taken := s.taken ++ [s.registry.getDictToSave dev] }

/-- The save of the aliases taken now. -/
def nextWriter (s : AliasTask ι) : Writer :=
  ⟨s.taken.length + 1, s.registry.getDictToSave dev, .opening⟩

/-- The number of an attempt is kept when it failed. -/
def record (s : AliasTask ι) (w : Writer) (ok : Bool) : Finset ℕ :=
  if ok then s.failed else insert w.attempt s.failed

/-- The thread after an operation of its save. -/
def threadAfter (s : AliasTask ι) (w : Writer) (files : Files Path Char) :
    Progress → AliasTask ι
  | .inl w' => { s with files := files, thread := .working w' }
  | .inr ok => { s with files := files, thread := .finished ok, failed := s.record w ok }

/-- The task after an operation of its synchronous save. -/
def closingAfter (s : AliasTask ι) (w : Writer) (files : Files Path Char) :
    Progress → AliasTask ι
  | .inl w' => { s with files := files, work := .closing w' }
  | .inr ok => { s with files := files, work := .ended, failed := s.record w ok }

/-- The handler of `CancelledError`: it saves the pending changes. -/
def cancelled (s : AliasTask ι) : AliasTask ι :=
  let s := { s with thread := s.thread.afterCancel }
  if s.registry.dirty then
    { s.getDictToSave dev with work := .closing (s.nextWriter dev) }
  else { s with work := .ended }

inductive Action (ι : Type)
  | aliases (op : Registry.Op ι)
  | forceSave
  | dirty
  | save
  | take
  | thread (operation : Operation)
  | resume
  | cancel
  | closing (operation : Operation)

/-- A step of the event loop or of a thread. -/
inductive Step : AliasTask ι → Action ι → AliasTask ι → Prop
  | aliases {s : AliasTask ι} {op : Registry.Op ι} {r : Registry ι} (running : s.Running)
      (step : s.registry.Step dev op r) : Step s (.aliases op) { s with registry := r }
  -- `set_save_trigger`
  | forceSave {s : AliasTask ι} (running : s.Running) :
      Step s .forceSave { s with saveTrigger := s.saveTrigger || s.registry.dirty }
  | dirty {s : AliasTask ι} (work : s.work = .waitDirty) (dirty : s.registry.dirty = true) :
      Step s .dirty { s with work := .waitSave }
  -- the save was forced, or `SAVE_TIME` has expired
  | save {s : AliasTask ι} (work : s.work = .waitSave) :
      Step s .save
        { s.getDictToSave dev with work := .saving, thread := .queued (s.nextWriter dev) }
  | take {s : AliasTask ι} {w : Writer} (thread : s.thread = .queued w) :
      Step s .take { s with thread := .working w }
  | thread {s : AliasTask ι} {w : Writer} {operation : Operation} {files : Files Path Char}
      {progress : Progress} (thread : s.thread = .working w)
      (saved : saveAliases dump s.files w operation = some (files, progress)) :
      Step s (.thread operation) (s.threadAfter w files progress)
  -- an error sets `dirty_trigger` again
  | resume {s : AliasTask ι} {ok : Bool} (work : s.work = .saving)
      (thread : s.thread = .finished ok) :
      Step s .resume
        { s with
          registry := { s.registry with dirty := s.registry.dirty || !ok }
          work := .waitDirty
          thread := .idle }
  | cancel {s : AliasTask ι} (running : s.Running) (work : s.work ≠ .ended) :
      Step s .cancel (s.cancelled dev)
  | closing {s : AliasTask ι} {w : Writer} {operation : Operation} {files : Files Path Char}
      {progress : Progress} (work : s.work = .closing w)
      (saved : saveAliases dump s.files w operation = some (files, progress)) :
      Step s (.closing operation) (s.closingAfter w files progress)

end AliasTask

end Devices

end Evok
