/-
**Files are open one way, and close once.**

A file is opened for reading or for writing. Whatever calls follow, on this handle or on others, it stays
open that way until it is closed, and it is closed from its first `close` on:

* `FileCall`: a call of `open`, `read`, `write` or `close`; `World.follow` is the world after calls,
  whether they fail or not;
* `FileCall.call_eq`: a call is an operation on the files;
* `Files.Later`: handles are open as they were, or closed; `FileCall.later_operation` for one call and
  `World.follow_later` for a run of calls;
* `FileCall.judged`: what a handle is not open for is rejected, and nothing else is;
* `World.handles_one_way`: **handles go one way.**
-/

import ScopedScript.Proofs.LineFile

namespace ScopedScript

/-! ### Calls -/

/-- A call of a built-in function that works on files. -/
inductive FileCall where
  | open_ (path mode : String)
  | read (ref : FileRef)
  | write (ref : FileRef) (value : Value)
  | close (ref : FileRef)

/-- Whether a call failed because its handle is not open for it. -/
def FileFault.isRejection : FileFault → Bool
  | .alreadyClosed _ | .notReading _ _ | .notWriting _ _ => true
  | _ => false

namespace FileCall

/-- The call as an action. -/
def call : FileCall → Action Value
  | .open_ path mode => Builtin.open_.call [.text path, .text mode]
  | .read ref => Builtin.read.call [.file ref]
  | .write ref value => Builtin.write.call [.file ref, value]
  | .close ref => Builtin.close.call [.file ref]

/-- The handle that a call is about. -/
def handle? : FileCall → Option Nat
  | .open_ _ _ => none
  | .read ref | .write ref _ | .close ref => some ref.handle

/-- Whether a handle of this mode is open for a call. -/
def fits : FileCall → FileMode → Bool
  | .read _, .reading | .write _ _, .writing | .close _, .reading | .close _, .writing => true
  | _, _ => false

/-- The world after a call, whether it fails or not. -/
def after (world : World) (call : FileCall) : World :=
  match call.call world with
  | .ok _ later | .error _ later => later

/-- What a call does to the files. -/
def operation (heap : Heap) (files : Files) : FileCall → Except FileFault Value × Files
  | .open_ path mode =>
    match files.openFile path mode with
    | .ok (ref, later) => (.ok (.file ref), later)
    | .error fault => (.error fault, files)
  | .read ref => ((files.readLine ref).1.map (·.elim .none .text), (files.readLine ref).2)
  | .write ref value =>
    ((files.writeLine ref (value.written heap)).1.map fun _ => .none,
      (files.writeLine ref (value.written heap)).2)
  | .close ref => ((files.close ref).1.map fun _ => .none, (files.close ref).2)

end FileCall

/-- The world after calls one after another. -/
def World.follow (world : World) (calls : List FileCall) : World := calls.foldl FileCall.after world

theorem onFiles_bind {α β : Type} (operation : Files → Except FileFault α × Files)
    (next : α → Action β) (world : World) :
    (onFiles operation >>= next) world = match operation world.files with
      | (.ok value, files) => next value { world with files }
      | (.error fault, files) => .error (.file fault) { world with files } := by
  -- the operation is applied to the files of this world only
  show (onFiles (fun _ => operation world.files) >>= next) world = _
  rcases operation world.files with ⟨_ | _, files⟩ <;> rfl

theorem FileCall.call_eq (call : FileCall) (world : World) :
    call.call world = match call.operation world.heap world.files with
      | (.ok value, files) => .ok value { world with files }
      | (.error fault, files) => .error (.file fault) { world with files } := by
  cases call with
  | open_ path mode =>
    show (match world.files.openFile path mode with
      | .ok (ref, files) => set { world with files } >>= fun _ => pure (.file ref)
      | .error fault => throw (.file fault) : Action Value) world = _
    rw [operation]
    rcases world.files.openFile path mode with _ | ⟨ref, files⟩ <;> rfl
  | read ref =>
    refine (onFiles_bind _ _ world).trans ?_
    rw [operation]
    rcases world.files.readLine ref with ⟨_ | _ | _, files⟩ <;> rfl
  | write ref value =>
    refine (onFiles_bind _ _ world).trans ?_
    rw [operation]
    rcases world.files.writeLine ref (value.written world.heap) with ⟨_ | _, files⟩ <;> rfl
  | close ref =>
    refine (onFiles_bind _ _ world).trans ?_
    rw [operation]
    rcases world.files.close ref with ⟨_ | _, files⟩ <;> rfl

theorem FileCall.after_files (call : FileCall) (world : World) :
    (call.after world).files = (call.operation world.heap world.files).2 := by
  rw [after, call_eq]
  rcases call.operation world.heap world.files with ⟨_ | _, files⟩ <;> rfl

/-! ### Modes -/

namespace Files

/-- Handles are open as they were, or closed. -/
structure Later (files later : Files) : Prop where
  size : files.handles.size ≤ later.handles.size
  mode : ∀ number < files.handles.size, (later.handle number).mode = (files.handle number).mode ∨
    (later.handle number).mode = .closed

variable {files later : Files} {folder : Folder} {number : Nat} {handle : Handle}

theorem Later.refl (files : Files) : files.Later files := ⟨Nat.le_refl _, fun _ _ => .inl rfl⟩

theorem Later.trans {middle : Files} (before : files.Later middle) (next : middle.Later later) :
    files.Later later where
  size := Nat.le_trans before.size next.size
  mode number inside := by
    rcases next.mode number (Nat.lt_of_lt_of_le inside before.size) with same | closed
    · rw [same]
      exact before.mode number inside
    · exact .inr closed

/-- A handle is replaced by one that is open the same way, or closed. -/
theorem later_setHandle (fits : handle.mode = (files.handle number).mode ∨ handle.mode = .closed) :
    files.Later ({ files with folder }.setHandle number handle) where
  size := Nat.le_of_eq Array.size_setIfInBounds.symm
  mode other inside := by
    have set : ({ files with folder }.setHandle number handle).handle other =
        if number = other then handle else files.handle other := by
      simp only [Files.handle, setHandle, Array.getD_eq_getD_getElem?, Array.getElem?_setIfInBounds]
      split <;> simp_all
    rw [set]
    split
    · rename_i same
      rwa [← same]
    · exact .inl rfl

theorem later_add (path : String) : files.Later ({ files with folder }.add path handle).2 where
  size := by simp [add]
  mode number inside := by
    have other : number ≠ files.handles.size := Nat.ne_of_lt inside
    simp [Files.handle, add, Array.getD_eq_getD_getElem?, Array.getElem?_push, other]

/-- A file that was opened has a new handle, open the way that was asked for. -/
theorem openFile_later {path mode : String} {ref : FileRef}
    (opened : files.openFile path mode = .ok (ref, later)) :
    files.Later later ∧ ref.handle = files.handles.size ∧
      later.handles.size = files.handles.size + 1 ∧ (later.handle ref.handle).mode =
        if mode = "r" ∨ mode = "read" then .reading else .writing := by
  have added : ∀ {folder handle}, { files with folder }.add path handle = (ref, later) →
      files.Later later ∧ ref.handle = files.handles.size ∧
        later.handles.size = files.handles.size + 1 ∧
        (later.handle ref.handle).mode = handle.mode := by
    rintro folder handle added
    obtain ⟨rfl, rfl⟩ := Prod.mk.inj added
    exact ⟨later_add path, rfl, Array.size_push _, congrArg Handle.mode (handle_add _ path handle)⟩
  unfold openFile at opened
  by_cases reads : mode = "r" ∨ mode = "read"
  · rw [if_pos reads] at opened ⊢
    split at opened
    · exact added (Except.ok.inj opened)
    · cases opened
  · rw [if_neg reads] at opened ⊢
    split at opened
    · split at opened
      · exact added (Except.ok.inj opened)
      · cases opened
    · cases opened

theorem close_handle (files : Files) (ref : FileRef) :
    (files.close ref).2.handle ref.handle = .closed := by
  have shut : ∀ folder, files.handle ref.handle ≠ .closed →
      ({ files with folder }.setHandle ref.handle .closed).handle ref.handle = .closed :=
    fun folder known => handle_setHandle known
  rw [close]
  cases handle : files.handle ref.handle with
  | closed => exact handle
  | reading => exact shut files.folder (by rw [handle]; exact nofun)
  | writing writer =>
    dsimp only
    split <;> exact shut _ (by rw [handle]; exact nofun)

end Files

/-- **One call** leaves handles open as they were, or closes them. -/
theorem FileCall.later_operation (call : FileCall) (heap : Heap) (files : Files) :
    files.Later (call.operation heap files).2 := by
  cases call with
  | open_ path mode =>
    rw [operation]
    split
    · rename_i ref later opened
      exact (Files.openFile_later opened).1
    · exact .refl files
  | read ref =>
    rw [operation, Files.readLine]
    split
    · rename_i reader open_
      exact Files.later_setHandle (.inl (by rw [open_]; rfl))
    · exact .refl files
  | write ref value =>
    rw [operation, Files.writeLine]
    split
    · rename_i writer open_
      exact Files.later_setHandle (.inl (by rw [open_]; rfl))
    · exact .refl files
  | close ref =>
    rw [operation, Files.close]
    split
    · exact .refl files
    · exact Files.later_setHandle (.inr rfl)
    · split <;> exact Files.later_setHandle (.inr rfl)

theorem World.follow_later (world : World) (calls : List FileCall) :
    world.files.Later (world.follow calls).files := by
  induction calls generalizing world with
  | nil => exact .refl world.files
  | cons call rest ih =>
    have step := call.later_operation world.heap world.files
    rw [← FileCall.after_files] at step
    exact step.trans (ih (call.after world))

/-! ### Rejections -/

/-- What a handle is not open for fails, and what is rejected changes nothing. -/
theorem FileCall.judged (call : FileCall) (heap : Heap) (files : Files) :
    (∀ number, call.handle? = some number → call.fits (files.handle number).mode = false →
      ∃ fault, call.operation heap files = (.error fault, files)) ∧
    ∀ fault later, call.operation heap files = (.error fault, later) →
      fault.isRejection = true → later = files := by
  cases call with
  | open_ path mode =>
    refine ⟨nofun, fun fault later failed _ => ?_⟩
    rw [operation] at failed
    split at failed <;> cases failed
    rfl
  | read ref =>
    rw [operation, Files.readLine]
    cases handle : files.handle ref.handle with
    | reading reader =>
      refine ⟨fun number about unfit => ?_, fun fault later failed rejection => ?_⟩
      · cases about
        rw [handle] at unfit
        cases unfit
      rcases line : reader.line files.folder with ⟨_ | _, rest⟩
      all_goals
        simp only [line] at failed
        cases failed
      cases rejection
    | writing | closed => exact ⟨fun _ _ _ => ⟨_, rfl⟩, fun _ _ failed _ => by cases failed; rfl⟩
  | write ref value =>
    rw [operation, Files.writeLine]
    cases handle : files.handle ref.handle with
    | writing writer =>
      refine ⟨fun number about unfit => ?_, fun fault later failed rejection => ?_⟩
      · cases about
        rw [handle] at unfit
        cases unfit
      rcases put : writer.putAll files.folder (value.written heap ++ ["\n"]) with ⟨_ | _, rest⟩
      all_goals
        simp only [put] at failed
        cases failed
      cases rejection
    | reading | closed => exact ⟨fun _ _ _ => ⟨_, rfl⟩, fun _ _ failed _ => by cases failed; rfl⟩
  | close ref =>
    rw [operation, Files.close]
    cases handle : files.handle ref.handle with
    | closed => exact ⟨fun _ _ _ => ⟨_, rfl⟩, fun _ _ failed _ => by cases failed; rfl⟩
    | reading =>
      refine ⟨fun number about unfit => ?_, nofun⟩
      cases about
      rw [handle] at unfit
      cases unfit
    | writing writer =>
      refine ⟨fun number about unfit => ?_, fun fault later failed rejection => ?_⟩
      · cases about
        rw [handle] at unfit
        cases unfit
      dsimp only at failed
      split at failed <;> cases failed
      cases rejection

theorem FileCall.rejected {call : FileCall} {world : World} {number : Nat}
    (about : call.handle? = some number)
    (unfit : call.fits (world.files.handle number).mode = false) :
    ∃ fault, call.call world = .error (.file fault) world := by
  obtain ⟨fault, failed⟩ := (call.judged world.heap world.files).1 number about unfit
  rw [call_eq, failed]
  exact ⟨fault, rfl⟩

/-- **Handles go one way.** From any world on and whatever calls follow, a handle is open as it was, or
closed, and what it is not open for fails with an error of the files; `open` gives a new handle, open the
way that was asked for; from the first `close` of a handle on, whether it fails or not, all calls on the
handle fail; and what is rejected for the mode of a handle changes nothing. -/
theorem World.handles_one_way (world : World) (calls : List FileCall) :
    (∀ number < world.files.handles.size,
      number < (world.follow calls).files.handles.size ∧
      ((world.follow calls).files.handle number).mode ∈
        [(world.files.handle number).mode, .closed] ∧
      ∀ call : FileCall, call.handle? = some number →
        call.fits (world.files.handle number).mode = false →
        ∃ fault, call.call (world.follow calls) = .error (.file fault) (world.follow calls)) ∧
    (∀ path mode value opened, (FileCall.open_ path mode).call world = .ok value opened →
      ∃ ref, value = .file ref ∧ ref.handle = world.files.handles.size ∧
        ref.handle < opened.files.handles.size ∧ (opened.files.handle ref.handle).mode =
          if mode = "r" ∨ mode = "read" then .reading else .writing) ∧
    (∀ ref, ref.handle < world.files.handles.size →
      ∀ call : FileCall, call.handle? = some ref.handle →
        ∃ fault, call.call (((FileCall.close ref).after world).follow calls) =
          .error (.file fault) (((FileCall.close ref).after world).follow calls)) ∧
    ∀ (call : FileCall) fault later, call.call world = .error (.file fault) later →
      fault.isRejection = true → later = world := by
  refine ⟨fun number inside => ?_, fun path mode value opened ran => ?_,
    fun ref inside call about => ?_, fun call fault later failed rejection => ?_⟩
  · have next := world.follow_later calls
    refine ⟨Nat.lt_of_lt_of_le inside next.size, by simpa using next.mode number inside,
      fun call about unfit => FileCall.rejected about ?_⟩
    rcases next.mode number inside with same | closed
    · rwa [same]
    · rw [closed]
      cases call <;> rfl
  · rw [FileCall.call_eq, FileCall.operation] at ran
    cases result : world.files.openFile path mode with
    | error => rw [result] at ran; cases ran
    | ok found =>
      rw [result] at ran
      cases ran
      obtain ⟨-, number, size, way⟩ := Files.openFile_later result
      exact ⟨found.1, rfl, number, by rw [number]; exact Nat.lt_of_lt_of_eq (Nat.lt_succ_self _) size.symm,
        way⟩
  · have step := (FileCall.close ref).later_operation world.heap world.files
    have closed : ((FileCall.close ref).after world).files.handle ref.handle = .closed := by
      rw [FileCall.after_files]
      exact Files.close_handle world.files ref
    rw [← FileCall.after_files] at step
    refine FileCall.rejected about ?_
    rcases (World.follow_later _ calls).mode ref.handle (Nat.lt_of_lt_of_le inside step.size)
      with same | closed'
    · rw [same, closed]
      cases call <;> rfl
    · rw [closed']
      cases call <;> rfl
  · rw [FileCall.call_eq] at failed
    rcases result : call.operation world.heap world.files with ⟨_ | _, files⟩
    all_goals
      rw [result] at failed
      cases failed
    rw [(call.judged world.heap world.files).2 _ _ result rejection]

end ScopedScript
