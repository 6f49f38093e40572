import FoosballTable.Library.Table
import FoosballTable.Pipes.Device
import Mathlib.Data.Finset.Erase
import Mathlib.Data.Finset.Insert

/-!
# Pipes that come and go

`rtl_fifos` has an entry for every pipe. A module creates a pipe, gives it a handler and destroys
it; processes open it and release it. `init_module` of `RTInit.c` first destroys its three pipes,
whoever has created them, and does not look at what these calls return. `Rtfs.step` is one call; it
has no result where memory is given to `vfree` that is not in use.
-/

namespace FoosballTable.Pipes

open Library

/-- Why a call fails. -/
inductive RtfErrno where
  | enodev
  | ebusy
  | enomem
  | einval
  | eacces
  deriving DecidableEq, Repr

/-- The module that has created a pipe: the one of `RTInit.c`, or another one. -/
inductive Creator where
  | foosLogicRT
  | other (id : Nat)
  deriving DecidableEq, Repr

/-- The handler of a pipe: the one that `init_module` has for a pipe, or one of another module. -/
inductive RtfHandler where
  | own (port : Port)
  | other (entry : Nat)
  deriving DecidableEq, Repr

/-- The fields of an entry of `rtl_fifos` that the calls below use. -/
structure Rtf where
  allocated : Bool
  creator : Option Creator
  userOpen : Nat
  opener : Option Nat
  handler : Option RtfHandler
  base : Option Nat
  buffer : (buf : Nat) × RtFifo buf

/-- An open file of a pipe, and the process that has opened it. -/
structure RtfFile where
  id : Nat
  minor : Nat
  process : Nat
  deriving DecidableEq, Repr

/-- The pipes, what the kernel keeps for them (the open files, the use counts of the modules,
whether the module of `RTInit.c` is loaded), the memory that `vmalloc` has given out, and a number
that no file or memory has had. -/
structure Rtfs where
  fifos : Nat → Rtf
  files : List RtfFile
  useCount : Creator → Nat
  loaded : Bool
  memory : Finset Nat
  next : Nat

/-- What the kernel decides for a `vmalloc`: whether it may be called, and whether there is
memory. -/
structure Vmalloc where
  idle : Bool
  memory : Bool
  deriving DecidableEq, Repr

/-- The number of a pipe. -/
def Port.minor : Port → Nat
  | .command => 7
  | .pause => 8
  | .start => 9

/-- The pipes of `init_module`, in its order. -/
def Port.all : List Port :=
  [.command, .pause, .start]

namespace Rtfs

/-- No pipe has been created. -/
def init : Rtfs :=
  { fifos := fun _ => ⟨false, none, 0, none, none, none, ⟨0, rtfCreate 0⟩⟩
    files := []
    useCount := fun _ => 0
    loaded := false
    memory := ∅
    next := 0 }

variable (maxFifo : Nat) (rtfs : Rtfs)

/-- The entry of a pipe is written. -/
def set (minor : Nat) (rtf : Rtf) : Rtfs :=
  { rtfs with fifos := Function.update rtfs.fifos minor rtf }

/-- `vfree`: memory that is not in use is not given back. -/
def vfree (base : Option Nat) : Option Rtfs :=
  match base with
  | some base =>
      if base ∈ rtfs.memory then some { rtfs with memory := rtfs.memory.erase base } else none
  | none => some rtfs

/-- A pipe gets the memory that `vmalloc` returns, as an empty buffer. -/
def renew (minor size : Nat) : Rtfs :=
  { rtfs.set minor { rtfs.fifos minor with
      base := some rtfs.next
      buffer := ⟨size, rtfCreate size⟩ } with
    memory := insert rtfs.next rtfs.memory
    next := rtfs.next + 1 }

/-- `rtf_resize`, without preallocated buffers. -/
def rtfResize (minor : Nat) (size : Int) (vmalloc : Vmalloc) :
    Option (Except RtfErrno Nat × Rtfs) :=
  if size ≤ 0 then some (.error .einval, rtfs)
  else if maxFifo ≤ minor then some (.error .enodev, rtfs)
  else if vmalloc.idle = false then some (.error .einval, rtfs)
  else if vmalloc.memory = false then some (.error .enomem, rtfs)
  else
    let old := rtfs.fifos minor
    let rtfs := rtfs.renew minor size.toNat
    (if old.allocated = true then rtfs.vfree old.base else some rtfs).map fun rtfs => (.ok 0, rtfs)

/-- `__rtf_create`, which the macro `rtf_create` calls for the module that uses it. -/
def rtfCreate (minor : Nat) (size : Int) (creator : Creator) (vmalloc : Vmalloc) :
    Option (Except RtfErrno Nat × Rtfs) :=
  if maxFifo ≤ minor then some (.error .enodev, rtfs)
  else if (rtfs.fifos minor).allocated = true then some (.error .ebusy, rtfs)
  else
    (rtfs.rtfResize maxFifo minor size vmalloc).map fun resized =>
      match resized with
      | (.ok _, rtfs) =>
          (.ok 0, rtfs.set minor { rtfs.fifos minor with
            allocated := true
            creator := some creator
            userOpen := 0
            opener := none
            handler := none })
      | (.error _, rtfs) => (.error .enomem, rtfs)

/-- `rtf_destroy`. -/
def rtfDestroy (minor : Nat) : Option (Except RtfErrno Nat × Rtfs) :=
  let old := rtfs.fifos minor
  if maxFifo ≤ minor then some (.error .enodev, rtfs)
  else if old.userOpen ≠ 0 then some (.error .einval, rtfs)
  else if old.allocated = false then some (.error .einval, rtfs)
  else
    (rtfs.vfree old.base).map fun rtfs =>
      (.ok 0, rtfs.set minor { old with allocated := false, creator := none, handler := none })

/-- `rtf_create_handler`. -/
def rtfCreateHandler (minor : Nat) (handler : RtfHandler) : Except RtfErrno Nat × Rtfs :=
  if maxFifo ≤ minor ∨ (rtfs.fifos minor).allocated = false then (.error .einval, rtfs)
  else (.ok 0, rtfs.set minor { rtfs.fifos minor with handler := some handler })

/-- `rtf_open`, by a process. -/
def rtfOpen (minor process : Nat) : Except RtfErrno Nat × Rtfs :=
  let old := rtfs.fifos minor
  if maxFifo ≤ minor then (.error .enodev, rtfs)
  else if old.allocated = false then (.error .enodev, rtfs)
  else if old.userOpen ≠ 0 ∧ old.opener ≠ some process then (.error .eacces, rtfs)
  else
    (.ok rtfs.next, { rtfs.set minor { old with
        opener := some process
        userOpen := old.userOpen + 1 } with
      files := ⟨rtfs.next, minor, process⟩ :: rtfs.files
      useCount := fun id =>
        if old.creator = some id then rtfs.useCount id + 1 else rtfs.useCount id
      next := rtfs.next + 1 })

/-- `rtf_release`. -/
def rtfRelease (file : RtfFile) : Rtfs :=
  let old := rtfs.fifos file.minor
  { rtfs.set file.minor { old with userOpen := old.userOpen - 1 } with
    files := Table.remove RtfFile.id file.id rtfs.files
    useCount := fun id =>
      if old.creator = some id then rtfs.useCount id - 1 else rtfs.useCount id }

/-! ## The module -/

/-- The calls of `init_module` for one pipe. -/
def initPipe (vmalloc : Port → Vmalloc) (port : Port) : Option Rtfs :=
  (rtfs.rtfDestroy maxFifo port.minor).bind fun destroyed =>
    (destroyed.2.rtfCreate maxFifo port.minor 100 .foosLogicRT (vmalloc port)).map fun created =>
      (created.2.rtfCreateHandler maxFifo port.minor (.own port)).2

/-- `init_module`, as far as it is about the pipes. -/
def initModule (vmalloc : Port → Vmalloc) : Option Rtfs :=
  Port.all.foldlM (fun rtfs port => rtfs.initPipe maxFifo vmalloc port) rtfs

/-- `cleanup_module`, as far as it is about the pipes. -/
def cleanupModule : Option Rtfs :=
  Port.all.foldlM (fun rtfs port => (rtfs.rtfDestroy maxFifo port.minor).map Prod.snd) rtfs

end Rtfs

/-! ## Calls -/

/-- A call of another module, a system call of a process, or the loading or unloading of the module
of `RTInit.c`. -/
inductive RtfCall where
  | create (minor : Nat) (size : Int) (id : Nat) (vmalloc : Vmalloc)
  | destroy (minor : Nat)
  | resize (minor : Nat) (size : Int) (vmalloc : Vmalloc)
  | createHandler (minor entry : Nat)
  | openFile (minor process : Nat)
  | release (file : Nat)
  | insmod (vmalloc : Port → Vmalloc)
  | rmmod

/-- The pipes after a call. The kernel loads the module once, and unloads it while its use count is
zero. -/
def Rtfs.step (maxFifo : Nat) (rtfs : Rtfs) : RtfCall → Option Rtfs
  | .create minor size id vmalloc =>
      (rtfs.rtfCreate maxFifo minor size (.other id) vmalloc).map Prod.snd
  | .destroy minor => (rtfs.rtfDestroy maxFifo minor).map Prod.snd
  | .resize minor size vmalloc => (rtfs.rtfResize maxFifo minor size vmalloc).map Prod.snd
  | .createHandler minor entry => some (rtfs.rtfCreateHandler maxFifo minor (.other entry)).2
  | .openFile minor process => some (rtfs.rtfOpen maxFifo minor process).2
  | .release file =>
      match Table.lookup RtfFile.id file rtfs.files with
      | some file => some (rtfs.rtfRelease file)
      | none => some rtfs
  | .insmod vmalloc =>
      if rtfs.loaded = true then some rtfs
      else (rtfs.initModule maxFifo vmalloc).map fun rtfs => { rtfs with loaded := true }
  | .rmmod =>
      if rtfs.loaded = true ∧ rtfs.useCount .foosLogicRT = 0 then
        (rtfs.cleanupModule maxFifo).map fun rtfs => { rtfs with loaded := false }
      else some rtfs

end FoosballTable.Pipes
