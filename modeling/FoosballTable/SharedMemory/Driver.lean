import FoosballTable.Command.Handler
import FoosballTable.Library.Table
import Mathlib.Data.Finset.Erase
import Mathlib.Data.Finset.Insert

/-!
# The driver of the shared memory

The tracker publishes breaks and positions in areas of memory that `mbuff` shares between kernel
modules and processes. An area has a name, and the driver counts how often modules and processes
have asked for it and which mappings of processes there are; it releases the area when nothing of
that is left. `Driver.step` is one call of the driver. It has no result where the code follows a
pointer to a `struct mbuff` that was released, or the null pointer.

A mapping here is one that `mbuff_mmap` has made. The driver has no `open` in its `vm_ops`, so that
the copies of a mapping which a `fork` or an `munmap` of a part of it makes are unknown to it.
-/

namespace FoosballTable.SharedMemory

open Library Command

/-- The constants `MBUFF_NAME_LEN` and `MBUFF_MAX_MMAPS` of `mbuff.h`, which is not part of the
repository, and the page size of the kernel. A name has room for its terminator. -/
structure MbuffH where
  nameLen : Nat
  maxMmaps : Nat
  pageSize : Nat
  nameLenPos : 0 < nameLen

/-- Why a call fails. -/
inductive Errno where
  | eio
  | eagain
  | enomem
  | efault
  | einval
  | ebusy
  | ebadf
  deriving DecidableEq, Repr

/-- A `struct mbuff`, with the address that `kmalloc` returned for it. A name is what stands before
its terminator, `vmArea` are the entries of `vm_area` that are not `NULL`, and `excl` and `write`
are the flags of `open_mode`. -/
structure Mbuff where
  address : Nat
  name : List Byte
  buf : Nat
  size : Nat
  vmArea : List Nat
  count : Nat
  kcount : Nat
  openCnt : Int
  excl : Bool
  write : Bool
  deriving DecidableEq, Repr

/-- An open file of the driver, the `struct mbuff` that its `private_data` points to, and its
`f_pos`. -/
structure File where
  id : Nat
  privateData : Option Nat
  pos : Nat
  deriving DecidableEq, Repr

/-- A mapping in the address space of a process, and the memory that its pages are. -/
structure Mapping where
  vma : Nat
  buf : Nat
  deriving DecidableEq, Repr

/-- The `count` that `mbuff_read` passes to `copy_to_user`. -/
def File.clip (file : File) (mbuff : Mbuff) (count : Nat) : Nat :=
  if mbuff.size < uint32 (file.pos + count) then mbuff.size - file.pos else count

/-- The list of the driver, what the kernel keeps for it (its open files, the mappings and its use
count), the memory that has not been given back to `rvfree`, and an address that no file, mapping or
memory has had. -/
structure Driver where
  mbuffList : List Mbuff
  files : List File
  mappings : List Mapping
  useCount : Nat
  memory : Finset Nat
  next : Nat

namespace Driver

/-- The driver after `init_module`. -/
def init : Driver :=
  ⟨[], [], [], 0, ∅, 0⟩

variable (header : MbuffH) (driver : Driver)

/-- `mbuff_list_lookup_name`: `strncmp` compares `MBUFF_NAME_LEN` bytes. -/
def lookupName (name : List Byte) : Option Mbuff :=
  Table.lookup (fun mbuff : Mbuff => mbuff.name.take header.nameLen) (name.take header.nameLen)
    driver.mbuffList

/-- `mbuff_list_lookup_buf`. -/
def lookupBuf (buf : Nat) : Option Mbuff :=
  Table.lookup Mbuff.buf buf driver.mbuffList

/-- The `struct mbuff` that a pointer leads to, if it has not been released. -/
def mbuffAt (address : Nat) : Option Mbuff :=
  Table.lookup Mbuff.address address driver.mbuffList

/-- The fields of a `struct mbuff` are written. -/
def put (mbuff : Mbuff) : Driver :=
  { driver with mbuffList := Table.put Mbuff.address mbuff driver.mbuffList }

/-- `mbuff_list_lookup_file`, where the pointer is followed: no result for the null pointer, and for
one to a `struct mbuff` that was released. -/
def area (file : File) : Option Mbuff :=
  file.privateData.bind driver.mbuffAt

/-- The fields of a file are written. -/
def putFile (file : File) : Driver :=
  { driver with files := Table.put File.id file driver.files }

/-- The `private_data` of a file is written. -/
def select (file : File) (address : Option Nat) : Driver :=
  driver.putFile { file with privateData := address }

/-- The `f_pos` of a file is written. -/
def seek (file : File) (pos : Nat) : Driver :=
  driver.putFile { file with pos := pos }

/-! ## Functions of the driver -/

/-- The size of an area: that of the pages which hold `size` bytes. -/
def roundUp (size : Nat) : Nat :=
  (size - 1) / header.pageSize * header.pageSize + header.pageSize

/-- `MOD_INC_USE_COUNT`, and the counter that `shm_allocate` increments: that of the modules, if the
caller asks for the pointer. -/
def count (kernel : Bool) (mbuff : Mbuff) : Driver :=
  { driver.put (if kernel = true then { mbuff with kcount := mbuff.kcount + 1 }
      else { mbuff with count := mbuff.count + 1 }) with
    useCount := driver.useCount + 1 }

/-- `mbuff_allocate` and `rvmalloc`, where both succeed: a new area at the head of the list. -/
def allocate (name : List Byte) (size : Nat) : Mbuff × Driver :=
  let mbuff : Mbuff :=
    { address := driver.next
      name := name.take (header.nameLen - 1)
      buf := driver.next + 1
      size := roundUp header size
      vmArea := []
      count := 0
      kcount := 0
      openCnt := 0
      excl := false
      write := false }
  (mbuff, { driver with
    mbuffList := mbuff :: driver.mbuffList
    memory := insert mbuff.buf driver.memory
    next := driver.next + 2 })

/-- `shm_allocate`: the area, or an error. `kernel` says whether the caller asks for the pointer,
and `memory` whether `kmalloc` and `rvmalloc` succeed. -/
def shmAllocate (name : List Byte) (size : Nat) (kernel memory : Bool) :
    Except Errno Mbuff × Driver :=
  match driver.lookupName header name with
  | some mbuff =>
      if mbuff.size < size then (.error .eio, driver) else (.ok mbuff, driver.count kernel mbuff)
  | none =>
      if size = 0 then (.error .eio, driver)
      else if memory = false then (.error .enomem, driver)
      else
        let (mbuff, driver) := driver.allocate header name size
        (.ok mbuff, driver.count kernel mbuff)

/-- `rvfree` and `mbuff_deallocate`. -/
def free (mbuff : Mbuff) : Driver :=
  { driver with
    mbuffList := Table.remove Mbuff.address mbuff.address driver.mbuffList
    memory := driver.memory.erase mbuff.buf }

/-- `__shm_deallocate`: an area that nothing holds is released. -/
def shmRelease (mbuff : Mbuff) : Except Errno Nat × Driver :=
  if mbuff.count = 0 then
    if mbuff.vmArea = [] ∧ mbuff.kcount = 0 then (.ok 0, driver.free mbuff)
    else (.error .ebusy, driver)
  else (.ok mbuff.count, driver)

/-- `MOD_DEC_USE_COUNT` where `DECR` finds a counter that is not zero. -/
def discount (counter : Nat) : Driver :=
  if 0 < counter then { driver with useCount := driver.useCount - 1 } else driver

/-- `shm_deallocate`. -/
def shmDeallocate (buf : Nat) : Except Errno Nat × Driver :=
  match driver.lookupBuf buf with
  | some mbuff =>
      let less := { mbuff with kcount := mbuff.kcount - 1 }
      ((driver.discount mbuff.kcount).put less).shmRelease less
  | none => (.error .einval, driver)

/-- `mbuff_open`, with the area that `mbuff_open_with_name` finds under the default name. -/
def openFile (excl write : Bool) : Except Errno Nat × Driver :=
  let added := fun (driver : Driver) (address : Option Nat) =>
    { driver with
      files := ⟨driver.next, address, 0⟩ :: driver.files
      useCount := driver.useCount + 1
      next := driver.next + 1 }
  match driver.lookupName header (bytes "default") with
  | some mbuff =>
      if mbuff.openCnt ≠ 0 ∧ excl = true ∨ mbuff.excl = true then (.error .ebusy, driver)
      else
        (.ok driver.next, added (driver.put { mbuff with
          excl := mbuff.excl || excl
          write := mbuff.write || write
          openCnt := mbuff.openCnt + 1 }) (some mbuff.address))
  | none => (.ok driver.next, added driver none)

/-- `open_cnt--` of the area that a file has selected. -/
def leave (file : File) : Option Driver :=
  match file.privateData with
  | some address =>
      (driver.mbuffAt address).map fun mbuff =>
        driver.put { mbuff with openCnt := mbuff.openCnt - 1 }
  | none => some driver

/-- A file selects an area, and `open_cnt++` of it. -/
def enter (file : File) (mbuff : Mbuff) : Driver :=
  (driver.select file (some mbuff.address)).put { mbuff with openCnt := mbuff.openCnt + 1 }

/-- `mbuff_close`. -/
def closeFile (file : File) : Option Driver :=
  (driver.leave file).map fun driver =>
    { driver with
      files := Table.remove File.id file.id driver.files
      useCount := driver.useCount - 1 }

/-- `IOCTL_MBUFF_ALLOCATE`. -/
def ioctlAllocate (file : File) (name : List Byte) (size : Nat) (memory : Bool) :
    Option (Except Errno Nat × Driver) :=
  (driver.leave file).bind fun driver =>
    match driver.shmAllocate header name size false memory with
    | (.error errno, driver) => some (.error errno, driver)
    | (.ok _, driver) =>
        (driver.lookupName header name).map fun mbuff => (.ok mbuff.size, driver.enter file mbuff)

/-- `IOCTL_MBUFF_DEALLOCATE`. -/
def ioctlDeallocate (file : File) (name : List Byte) : Except Errno Nat × Driver :=
  match driver.lookupName header name with
  | some mbuff =>
      let less := { mbuff with count := mbuff.count - 1 }
      match ((driver.discount mbuff.count).put less).shmRelease less with
      | (.ok 0, driver) =>
          (.ok 0, driver.select file
            ((driver.lookupName header (bytes "default")).map Mbuff.address))
      | (_, driver) => (.ok mbuff.size, driver)
  | none => (.error .einval, driver)

/-- `IOCTL_MBUFF_SELECT`. -/
def ioctlSelect (file : File) (name : List Byte) : Option (Except Errno Nat × Driver) :=
  match driver.lookupName header name with
  | some mbuff =>
      -- both pointers may lead to the same area
      (driver.leave file).bind fun driver =>
        (driver.mbuffAt mbuff.address).map fun mbuff => (.ok mbuff.size, driver.enter file mbuff)
  | none => some (.error .einval, driver)

/-- `mbuff_mmap`, where `failure` is the error of `rvmmap`, if it fails. The new mapping is entered
in `vm_area`, if there is room. Every area of the list has its memory, so that `EAGAIN` is not
returned. -/
def mmap (file : File) (failure : Option Errno) : Option (Except Errno Nat × Driver) :=
  if file.privateData = none then some (.error .einval, driver)
  else
    (driver.area file).map fun mbuff =>
      match failure with
      | some errno => (.error errno, driver)
      | none =>
          if mbuff.vmArea.length < header.maxMmaps then
            (.ok driver.next, { driver.put { mbuff with vmArea := driver.next :: mbuff.vmArea } with
              mappings := ⟨driver.next, mbuff.buf⟩ :: driver.mappings
              useCount := driver.useCount + 1
              next := driver.next + 1 })
          else (.error .enomem, driver)

/-- The end of `mbuff_llseek`, for the offset from the start of the area. -/
def seekTo (file : File) (offset : Int) : Option (Except Errno Nat × Driver) :=
  if offset < 0 then some (.error .einval, driver)
  else
    (driver.area file).map fun mbuff =>
      if offset < mbuff.size then (.ok 0, driver.seek file offset.toNat)
      else (.error .einval, driver)

/-- `mbuff_llseek`, which does not look whether the file has selected an area. -/
def llseek (file : File) (offset : Int) (origin : Nat) : Option (Except Errno Nat × Driver) :=
  match origin with
  | 0 => driver.seekTo file offset
  | 1 => driver.seekTo file (int64 (offset + file.pos))
  | 2 => (driver.area file).bind fun mbuff => driver.seekTo file (int64 (offset + mbuff.size))
  | _ => some (.error .einval, driver)

/-- `mbuff_read`, where `copy_to_user` can copy no more than `room` bytes. The position moves back
by what was read. -/
def read (file : File) (count room : Nat) : Option (Except Errno Nat × Driver) :=
  if file.privateData = none then some (.error .eagain, driver)
  else
    (driver.area file).map fun mbuff =>
      if mbuff.size ≤ file.pos then (.ok 0, driver)
      else
        let count := file.clip mbuff count
        let left := count - room
        if left = count then (.error .efault, driver)
        else (.ok (count - left), driver.seek file (uint32 (file.pos - (count - left : Nat))))

/-- `mb_close`, when a mapping is taken out of its address space: the area that has it in `vm_area`
is released, if nothing else holds it. -/
def unmap (vma : Nat) : Driver :=
  let driver := { driver with mappings := Table.remove Mapping.vma vma driver.mappings }
  match driver.mbuffList.find? fun mbuff => vma ∈ mbuff.vmArea with
  | some mbuff =>
      let less := { mbuff with vmArea := mbuff.vmArea.erase vma }
      let driver := ((driver.put less).shmRelease less).2
      { driver with useCount := driver.useCount - 1 }
  | none => driver

end Driver

/-! ## Calls -/

/-- A call of a module, or a system call of a process on a file or a mapping of the driver. What the
kernel and `kvmem.h` decide is part of the call. -/
inductive Call where
  | shmAllocate (name : List Byte) (size : Nat) (memory : Bool)
  | shmDeallocate (buf : Nat)
  | openFile (excl write : Bool)
  | closeFile (file : Nat)
  | ioctlAllocate (file : Nat) (name : List Byte) (size : Nat) (memory : Bool)
  | ioctlDeallocate (file : Nat) (name : List Byte)
  | ioctlSelect (file : Nat) (name : List Byte)
  | mmap (file : Nat) (failure : Option Errno)
  | llseek (file : Nat) (offset : Int) (origin : Nat)
  | read (file : Nat) (count room : Nat)
  | unmap (vma : Nat)
  deriving DecidableEq, Repr

/-- A call on a file: the kernel rejects it where the file is not open. -/
def Driver.onFile (driver : Driver) (id : Nat)
    (call : File → Option (Except Errno Nat × Driver)) : Option (Except Errno Nat × Driver) :=
  match Table.lookup File.id id driver.files with
  | some file => call file
  | none => some (.error .ebadf, driver)

/-- What a call returns, and the driver after it. A module gets the pointer to the memory. -/
def Driver.answer (header : MbuffH) (driver : Driver) : Call → Option (Except Errno Nat × Driver)
  | .shmAllocate name size memory =>
      let (result, driver) := driver.shmAllocate header name size true memory
      some (result.map Mbuff.buf, driver)
  | .shmDeallocate buf => some (driver.shmDeallocate buf)
  | .openFile excl write => some (driver.openFile header excl write)
  | .closeFile id =>
      driver.onFile id fun file => (driver.closeFile file).map fun driver => (.ok 0, driver)
  | .ioctlAllocate id name size memory =>
      driver.onFile id fun file => driver.ioctlAllocate header file name size memory
  | .ioctlDeallocate id name =>
      driver.onFile id fun file => some (driver.ioctlDeallocate header file name)
  | .ioctlSelect id name => driver.onFile id fun file => driver.ioctlSelect header file name
  | .mmap id failure => driver.onFile id fun file => driver.mmap header file failure
  | .llseek id offset origin => driver.onFile id fun file => driver.llseek file offset origin
  | .read id count room => driver.onFile id fun file => driver.read file count room
  | .unmap vma =>
      -- the kernel calls the driver only for its own mappings
      if (Table.lookup Mapping.vma vma driver.mappings).isSome then
        some (.ok 0, driver.unmap vma)
      else some (.ok 0, driver)

/-- The driver after a call. -/
def Driver.step (header : MbuffH) (driver : Driver) (call : Call) : Option Driver :=
  (driver.answer header call).map Prod.snd

end FoosballTable.SharedMemory
