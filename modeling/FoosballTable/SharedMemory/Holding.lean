import FoosballTable.Library.Runs
import FoosballTable.SharedMemory.Calls

/-!
# Who keeps an area

Runs of the driver, in which modules and processes make their calls in any order. `driver_accounts`
says that its accounts are always in order, so that the driver can be unloaded exactly when no file
is open and all memory has been given back. `module_keeps_area` is what a module relies on: whatever
processes do, an area stays while the module has a share of it, and it stays under its name unless a
longer name is cut to that one. The driver keeps no account of the files that have selected an area:
`files_closable_iff` says exactly when it follows a bad pointer, or is left with a file that points
to a released area.
-/

namespace FoosballTable.SharedMemory

open Library

variable {header : MbuffH} {reserved : List Command.Byte → Prop} {driver next : Driver}

/-- The call asks for an area with a name that does not fit into its field, and is cut to this
one. -/
def Call.CutsTo (header : MbuffH) (name : List Command.Byte) : Call → Prop
  | .shmAllocate full _ _ | .ioctlAllocate _ full _ _ =>
      header.nameLen ≤ full.length ∧ full.take (header.nameLen - 1) = name
  | .shmDeallocate _ | .openFile _ _ | .closeFile _ | .ioctlDeallocate _ _ | .ioctlSelect _ _
    | .mmap _ _ | .llseek _ _ _ | .read _ _ _ | .unmap _ => False

instance (header : MbuffH) (name : List Command.Byte) : DecidablePred (Call.CutsTo header name)
  | .shmAllocate _ _ _ | .ioctlAllocate _ _ _ _ => inferInstanceAs (Decidable (_ ∧ _))
  | .shmDeallocate _ | .openFile _ _ | .closeFile _ | .ioctlDeallocate _ _ | .ioctlSelect _ _
    | .mmap _ _ | .llseek _ _ _ | .read _ _ _ | .unmap _ => .isFalse id

/-- The call cuts no name to a reserved one. -/
def Call.Spares (header : MbuffH) (reserved : List Command.Byte → Prop) (call : Call) : Prop :=
  ∀ name, reserved name → ¬ call.CutsTo header name

/-- The file for which a call that releases an area selects another one. -/
def Call.reselects : Call → Option Nat
  | .ioctlDeallocate id _ => some id
  | .shmAllocate _ _ _ | .shmDeallocate _ | .openFile _ _ | .closeFile _ | .ioctlAllocate _ _ _ _
    | .ioctlSelect _ _ | .mmap _ _ | .llseek _ _ _ | .read _ _ _ | .unmap _ => none

/-- A call that takes a holder of an area away: afterwards a file has selected an area that is
there, or is as it was. -/
structure Call.TakesAway (header : MbuffH) (reserved : List Command.Byte → Prop)
    (driver next : Driver) (call : Call) (less : Mbuff) : Prop
    extends Driver.Drops header reserved driver next less where
  others : ∀ file ∈ driver.files, call.reselects ≠ some file.id → file ∈ next.files
  files : ∀ file ∈ next.files, file.Selects next ∨
    file ∈ driver.files ∧ (less.holds = 0 → call.reselects ≠ some file.id)

/-! ## One call -/

/-- `IOCTL_MBUFF_DEALLOCATE` selects another area for its file when it has released one. -/
theorem ioctl_deallocate_eq (file : File) {name : List Command.Byte} {old : Mbuff}
    (hfound : driver.lookupName header name = some old) :
    let less : Mbuff := { old with count := old.count - 1 }
    let released := (((driver.discount old.count).put less).shmRelease less).2
    (driver.ioctlDeallocate header file name).2 =
      if less.holds = 0 then
        released.select file ((released.lookupName header (Command.bytes "default")).map
          Mbuff.address)
      else released := by
  intro less released
  have hresult := (shm_release_eq ((driver.discount old.count).put less) less).2
  rw [Driver.ioctlDeallocate, hfound]
  dsimp only
  split
  case h_1 last hlast =>
    rw [if_pos (hresult.mp (congrArg Prod.fst hlast))]
    simp only [released, less, hlast]
  case h_2 result last hnot hlast =>
    have hholds : less.holds ≠ 0 := by
      intro hholds
      have hzero := hresult.mpr hholds
      rw [hlast] at hzero
      exact hnot hzero
    rw [if_neg hholds]
    simp only [released, less, hlast]

/-- `IOCTL_MBUFF_DEALLOCATE`. -/
theorem Driver.Sound.ioctl_deallocate (h : driver.Sound header reserved) (file : File)
    {name : List Command.Byte} {old : Mbuff}
    (hfound : driver.lookupName header name = some old) :
    Call.TakesAway header reserved driver (driver.ioctlDeallocate header file name).2
      (.ioctlDeallocate file.id name) { old with count := old.count - 1 } := by
  obtain ⟨hdrops, hfiles⟩ := h.ioctl_release (Table.lookup_some hfound).1
  rw [ioctl_deallocate_eq file hfound]
  split
  case isFalse hholds =>
    exact ⟨hdrops, fun other hother _ => hfiles ▸ hother,
      fun other hother => Or.inr ⟨hfiles ▸ hother, fun hlast => absurd hlast hholds⟩⟩
  case isTrue hholds =>
    generalize ((driver.discount old.count).put _).shmRelease _ = released at hdrops hfiles ⊢
    refine ⟨⟨hdrops.sound.put_file _, hdrops.list⟩, fun other hother hne => ?_,
      fun other hother => ?_⟩
    · refine List.mem_map.mpr ⟨other, hfiles ▸ hother, if_neg fun hid => hne ?_⟩
      exact congrArg some hid.symm
    · obtain ⟨before, hbefore, rfl⟩ := List.mem_map.mp hother
      split
      case isTrue =>
        left
        intro address haddress
        obtain ⟨found, hdefault, rfl⟩ := Option.map_eq_some_iff.mp haddress
        exact ⟨found, (Table.lookup_some hdefault).1, rfl⟩
      case isFalse hne =>
        exact Or.inr ⟨hfiles ▸ hbefore, fun _ hid => hne (Option.some.inj hid).symm⟩

/-- A call on a file that is not open does nothing. -/
theorem on_file_cases {id : Nat} {call : File → Option (Except Errno Nat × Driver)}
    {answer : Except Errno Nat × Driver} (hanswer : driver.onFile id call = some answer) :
    answer.2 = driver ∧ Table.lookup File.id id driver.files = none ∨
      ∃ file ∈ driver.files, file.id = id ∧ call file = some answer := by
  rw [Driver.onFile] at hanswer
  split at hanswer
  case h_1 file hfile =>
    obtain ⟨hmem, hid⟩ := Table.lookup_some hfile
    exact Or.inr ⟨file, hmem, hid, hanswer⟩
  case h_2 hnone =>
    obtain rfl := Option.some.inj hanswer
    exact Or.inl ⟨rfl, hnone⟩

/-- A call on a file that adds, or is rejected. -/
theorem Driver.Sound.on_file_adds (h : driver.Sound header reserved) {id : Nat}
    {call : File → Option (Except Errno Nat × Driver)}
    (hadds : ∀ file ∈ driver.files, ∀ answer, call file = some answer →
      driver.Adds header reserved answer.2)
    {answer : Except Errno Nat × Driver} (hanswer : driver.onFile id call = some answer) :
    driver.Adds header reserved answer.2 := by
  rcases on_file_cases hanswer with ⟨hsame, -⟩ | ⟨file, hfile, -, hcall⟩
  · rw [hsame]
    exact h.grows.adds rfl
  · exact hadds file hfile answer hcall

/-- The inversion of a call: it only adds, or it takes a holder of one area away. -/
theorem step_cases (h : driver.Sound header reserved) {call : Call}
    (hcall : call.Spares header reserved)
    (hstep : driver.step header call = some next) :
    call.less header driver = none ∧ driver.Adds header reserved next ∨
      ∃ less, call.less header driver = some less ∧
        call.TakesAway header reserved driver next less := by
  obtain ⟨answer, hanswer, rfl⟩ := Option.map_eq_some_iff.mp hstep
  cases call with
  | shmAllocate name size memory =>
      obtain rfl := Option.some.inj hanswer
      obtain ⟨hgrows, hfiles, -⟩ :=
        h.shm_allocate (fun hlong hcut => hcall _ hcut ⟨hlong, rfl⟩) size true memory
      exact Or.inl ⟨rfl, hgrows.adds hfiles⟩
  | shmDeallocate buf =>
      obtain rfl := Option.some.inj hanswer
      cases hfound : driver.lookupBuf buf with
      | none =>
          left
          rw [Call.less, Driver.shmDeallocate, hfound]
          exact ⟨rfl, h.grows.adds rfl⟩
      | some old =>
          obtain ⟨hdrops, hfiles⟩ := h.shm_deallocate hfound
          refine Or.inr ⟨_, by rw [Call.less, hfound]; rfl, hdrops,
            fun file hfile _ => hfiles ▸ hfile, fun file hfile => ?_⟩
          exact Or.inr ⟨hfiles ▸ hfile, fun _ => (Option.some_ne_none file.id).symm⟩
  | openFile excl write =>
      obtain rfl := Option.some.inj hanswer
      exact Or.inl ⟨rfl, h.open_file_adds excl write⟩
  | closeFile id =>
      refine Or.inl ⟨rfl, h.on_file_adds (fun file hfile answer hclose => ?_) hanswer⟩
      obtain ⟨closed, hclosed, rfl⟩ := Option.map_eq_some_iff.mp hclose
      exact h.close_file_adds hfile hclosed
  | ioctlAllocate id name size memory =>
      exact Or.inl ⟨rfl, h.on_file_adds
        (fun file _ => (h.ioctl_allocate file
          (fun hlong hcut => hcall _ hcut ⟨hlong, rfl⟩) size memory).2) hanswer⟩
  | ioctlSelect id name =>
      exact Or.inl ⟨rfl, h.on_file_adds (fun file _ => (h.ioctl_select file name).2) hanswer⟩
  | mmap id failure =>
      exact Or.inl ⟨rfl, h.on_file_adds (fun file _ => (h.mmap file failure).2) hanswer⟩
  | llseek id offset origin =>
      exact Or.inl ⟨rfl, h.on_file_adds
        (fun file hfile => (h.llseek hfile offset origin).2) hanswer⟩
  | read id count room =>
      exact Or.inl ⟨rfl, h.on_file_adds (fun file hfile => (h.read hfile count room).2) hanswer⟩
  | ioctlDeallocate id name =>
      rcases on_file_cases hanswer with ⟨hsame, hnone⟩ | ⟨file, hfile, rfl, hdeallocate⟩
      · left
        rw [Call.less, hnone, hsame]
        exact ⟨rfl, h.grows.adds rfl⟩
      · obtain rfl := Option.some.inj hdeallocate
        have hopen := Table.lookup_of_mem h.files hfile
        rw [Call.less, hopen]
        cases hfound : driver.lookupName header name with
        | none =>
            left
            rw [Driver.ioctlDeallocate, hfound]
            exact ⟨rfl, h.grows.adds rfl⟩
        | some old => exact Or.inr ⟨_, rfl, h.ioctl_deallocate file hfound⟩
  | unmap vma =>
      rw [Driver.answer] at hanswer
      rw [Call.less]
      by_cases hmapped : (Table.lookup Mapping.vma vma driver.mappings).isSome = true
      · rw [if_pos hmapped] at hanswer ⊢
        obtain rfl := Option.some.inj hanswer
        cases hfound : driver.mbuffList.find? fun mbuff => vma ∈ mbuff.vmArea with
        | none =>
            -- every mapping is entered in an area
            obtain ⟨mapping, hmapping⟩ := Option.isSome_iff_exists.mp hmapped
            obtain ⟨hmem, rfl⟩ := Table.lookup_some hmapping
            obtain ⟨mbuff, hmbuff, -, hvma⟩ := h.mapped mapping hmem
            exact absurd (decide_eq_true hvma) (List.find?_eq_none.mp hfound mbuff hmbuff)
        | some old =>
            obtain ⟨hdrops, hfiles⟩ := h.unmap hfound
            refine Or.inr ⟨_, rfl, hdrops, fun file hfile _ => hfiles ▸ hfile, fun file hfile => ?_⟩
            exact Or.inr ⟨hfiles ▸ hfile, fun _ => (Option.some_ne_none file.id).symm⟩
      · rw [if_neg hmapped] at hanswer ⊢
        obtain rfl := Option.some.inj hanswer
        exact Or.inl ⟨rfl, h.grows.adds rfl⟩

/-- The accounts stay in order. -/
theorem sound_step (h : driver.Sound header reserved) {call : Call}
    (hcall : call.Spares header reserved)
    (hstep : driver.step header call = some next) : next.Sound header reserved := by
  rcases step_cases h hcall hstep with ⟨-, hadds⟩ | ⟨less, -, htakes⟩
  · exact hadds.sound
  · exact htakes.sound

/-- Names of up to 31 bytes, 8 mappings of an area, and pages of 4096 bytes. -/
def MbuffH.small : MbuffH :=
  ⟨32, 8, 4096, Nat.succ_pos 31⟩

/-- The name of an area that `FoosLogic` allocates. -/
def cmdpos : List Command.Byte :=
  Command.bytes "cmdpos"

/-- A module and a process share an area, and the module gives it back first. -/
def moduleFirst : List Call :=
  [.shmAllocate cmdpos 4 true, .openFile false true, .ioctlAllocate 2 cmdpos 4 true, .mmap 2 none,
    .shmDeallocate 1]

/-- A name that is too long is cut to that of a module's area, which is then not found any more. -/
example :
    let name := Command.bytes "positions of the ball and breaks"
    let own := name.take 31
    ([Call.shmAllocate own 4 true, .shmAllocate name 4 true].foldlM (Driver.step .small)
      Driver.init).map (fun driver => (driver.lookupName .small own).map Mbuff.buf) =
        some (some 3) := by
  decide

/-! ## Files -/

/-- The area that every open file has selected is there. -/
def Driver.Clean (driver : Driver) : Prop :=
  ∀ file ∈ driver.files, file.Selects driver

/-- The call releases an area that an open file has selected, and goes on doing so. -/
def Call.strands (header : MbuffH) (call : Call) (driver : Driver) : Bool :=
  match call.less header driver with
  | some less =>
      decide (less.holds = 0) && driver.files.any fun file =>
        decide (file.privateData = some less.address) && decide (call.reselects ≠ some file.id)
  | none => false

/-- The call follows the null pointer: it makes an area and does not find it under its name, which
is too long, or it asks for the size of an area that the file has not selected. -/
def Call.followsNull (header : MbuffH) (call : Call) (driver : Driver) : Bool :=
  match call with
  | .ioctlAllocate id name size memory =>
      (Table.lookup File.id id driver.files).isSome &&
        decide (header.nameLen ≤ name.length ∧ size ≠ 0 ∧ memory = true)
  | .llseek id offset origin =>
      (Table.lookup File.id id driver.files).any fun file =>
        decide (file.privateData = none ∧ file.asksSize offset origin)
  | .shmAllocate _ _ _ | .shmDeallocate _ | .openFile _ _ | .closeFile _ | .ioctlDeallocate _ _
    | .ioctlSelect _ _ | .mmap _ _ | .read _ _ _ | .unmap _ => false

/-- The call follows the null pointer, or leaves a file with a pointer to a released area. -/
def Call.faults (header : MbuffH) (call : Call) (driver : Driver) : Bool :=
  call.followsNull header driver || call.strands header driver

/-- Every open file can be closed without following a pointer to a released area. -/
def Driver.Closable (header : MbuffH) (driver : Driver) : Prop :=
  ∀ file ∈ driver.files, (driver.step header (.closeFile file.id)).isSome

/-- A file can be closed exactly while the area that it has selected is there. -/
theorem Driver.Sound.closable_iff (h : driver.Sound header reserved) :
    driver.Closable header ↔ driver.Clean := by
  refine forall₂_congr fun file hfile => ?_
  have hopen := Table.lookup_of_mem h.files hfile
  rw [Driver.step, Option.isSome_map, Driver.answer, Driver.onFile, hopen]
  show (Option.map _ (driver.closeFile file)).isSome ↔ _
  rw [Option.isSome_map, Driver.closeFile, Option.isSome_map]
  exact ⟨(h.leave file).2.1, (h.leave file).1⟩

/-- A call on a file is defined unless the file is open and the call on it is not. -/
theorem on_file_isSome_iff {id : Nat} {call : File → Option (Except Errno Nat × Driver)} :
    (driver.onFile id call).isSome ↔
      ∀ file, Table.lookup File.id id driver.files = some file → (call file).isSome := by
  rw [Driver.onFile]
  cases Table.lookup File.id id driver.files with
  | none => exact iff_of_true rfl nofun
  | some file =>
      refine ⟨fun hcall other hother => ?_, fun hcall => hcall file rfl⟩
      obtain rfl := Option.some.inj hother
      exact hcall

/-- While every file can be closed, no call follows a pointer to a released area, so that it is
defined unless it follows the null pointer. -/
theorem Driver.Clean.defined_iff (hclean : driver.Clean) (h : driver.Sound header reserved)
    {call : Call} (hcall : call.Spares header reserved) :
    (driver.step header call).isSome ↔ call.followsNull header driver = false := by
  have honFile : ∀ {id : Nat} {call : File → Option (Except Errno Nat × Driver)},
      (∀ file ∈ driver.files, (call file).isSome) → (driver.onFile id call).isSome :=
    fun hsome => on_file_isSome_iff.mpr fun file hfile => hsome file (Table.lookup_some hfile).1
  rw [Driver.step, Option.isSome_map]
  cases call with
  | shmAllocate | shmDeallocate | openFile => exact iff_of_true rfl rfl
  | closeFile id =>
      refine iff_of_true (honFile fun file hfile => ?_) rfl
      rw [Option.isSome_map, Driver.closeFile, Option.isSome_map]
      exact (h.leave file).1 (hclean file hfile)
  | ioctlAllocate id name size memory =>
      rw [Driver.answer, on_file_isSome_iff, Call.followsNull]
      cases hfile : Table.lookup File.id id driver.files with
      | none => exact iff_of_true nofun rfl
      | some file =>
          have hallocate := (h.ioctl_allocate file
            (fun hlong hcut => hcall _ hcut ⟨hlong, rfl⟩) size memory).1
            (hclean file (Table.lookup_some hfile).1)
          simp [hallocate]
  | ioctlDeallocate id name => exact iff_of_true (honFile fun _ _ => rfl) rfl
  | ioctlSelect id name =>
      refine iff_of_true (honFile fun file hfile => ?_) rfl
      exact (h.ioctl_select file name).1 (hclean file hfile)
  | mmap id failure =>
      exact iff_of_true (honFile fun file hfile => (h.mmap file failure).1 (hclean file hfile)) rfl
  | llseek id offset origin =>
      rw [Driver.answer, on_file_isSome_iff, Call.followsNull]
      cases hfile : Table.lookup File.id id driver.files with
      | none => exact iff_of_true nofun rfl
      | some file =>
          have hopen := (Table.lookup_some hfile).1
          have hseek := (h.llseek hopen offset origin).1 (hclean file hopen)
          simp [hseek]
  | read id count room =>
      exact iff_of_true (honFile fun file hfile => (h.read hfile count room).1 (hclean file hfile))
        rfl
  | unmap vma =>
      rw [Driver.answer]
      split <;> exact iff_of_true rfl rfl

theorem strands_iff {call : Call} {less : Mbuff} (hless : call.less header driver = some less) :
    call.strands header driver = true ↔ less.holds = 0 ∧
      ∃ file ∈ driver.files, file.privateData = some less.address ∧
        call.reselects ≠ some file.id := by
  rw [Call.strands, hless]
  simp

/-- A call leaves the files clean exactly when it does not release an area under one of them. -/
theorem clean_step_iff (h : driver.Sound header reserved) (hclean : driver.Clean) {call : Call}
    (hcall : call.Spares header reserved) (hstep : driver.step header call = some next) :
    next.Clean ↔ call.strands header driver = false := by
  rcases step_cases h hcall hstep with ⟨hless, hadds⟩ | ⟨less, hless, htakes⟩
  · rw [Call.strands, hless]
    refine iff_of_true (fun file hfile => ?_) rfl
    rcases hadds.files file hfile with ⟨before, hbefore, hsame⟩ | hselects
    · exact (hadds.selects (hclean before hbefore)).of_same hsame
    · exact hselects
  · rw [← Bool.not_eq_true, strands_iff hless]
    constructor
    · intro hnext hstrands
      obtain ⟨hlast, file, hfile, haddress, hne⟩ := hstrands
      obtain ⟨mbuff, hmbuff, hsame⟩ := hnext file (htakes.others file hfile hne) _ haddress
      rw [htakes.list, if_pos hlast] at hmbuff
      exact (Table.mem_remove.mp hmbuff).2 hsame
    · intro hspares file hfile
      rcases htakes.files file hfile with hselects | ⟨hbefore, hother⟩
      · exact hselects
      · intro address haddress
        obtain ⟨mbuff, hmbuff, rfl⟩ := hclean file hbefore address haddress
        rw [htakes.list]
        by_cases hlast : less.holds = 0
        · rw [if_pos hlast]
          refine ⟨mbuff, Table.mem_remove.mpr ⟨hmbuff, fun hsame => hspares ?_⟩, rfl⟩
          exact ⟨hlast, file, hbefore, hsame ▸ haddress, hother hlast⟩
        · rw [if_neg hlast]
          have hmem : mbuff.address ∈
              (Table.put Mbuff.address less driver.mbuffList).map Mbuff.address := by
            rw [Table.keys_put]
            exact List.mem_map_of_mem hmbuff
          exact List.mem_map.mp hmem

/-- In every run, every call so far is defined and every open file can be closed, at every point,
exactly when no call of the run follows the null pointer, or releases an area that a file has
selected and goes on to select. -/
theorem files_closable_iff (header : MbuffH) (calls : List Call) :
    Throughout (failing (Driver.step header)) (fun state => ∃ driver, state = some driver ∧
        driver.Closable header) (some Driver.init) calls ↔
      Along (failing (Driver.step header))
        (fun state call => state.any (call.faults header) = false) (some Driver.init) calls := by
  have hspares : ∀ call : Call, call.Spares header fun _ => False :=
    fun _ _ => False.elim
  have hinv : ∀ (driver : Driver) (call : Call) (next : Driver), True →
      driver.Sound header (fun _ => False) → driver.step header call = some next →
      next.Sound header (fun _ => False) :=
    fun _ call _ _ h hnext => sound_step h (hspares call) hnext
  have hexact : ∀ (driver : Driver) (call : Call), True → driver.Sound header (fun _ => False) →
      driver.Closable header →
      ((∃ next, driver.step header call = some next ∧ next.Closable header) ↔
        call.faults header driver = false) := by
    intro driver call _ h hclosable
    have hclean := h.closable_iff.mp hclosable
    have hdefined := hclean.defined_iff h (hspares call)
    rw [Call.faults, Bool.or_eq_false_iff, ← hdefined, Option.isSome_iff_exists]
    constructor
    · intro hnext
      obtain ⟨next, hnext, hclosed⟩ := hnext
      have hnextClean := (sound_step h (hspares call) hnext).closable_iff.mp hclosed
      exact ⟨⟨next, hnext⟩, (clean_step_iff h hclean (hspares call) hnext).mp hnextClean⟩
    · intro hguard
      obtain ⟨⟨next, hnext⟩, hstrands⟩ := hguard
      refine ⟨next, hnext, (sound_step h (hspares call) hnext).closable_iff.mpr ?_⟩
      exact (clean_step_iff h hclean (hspares call) hnext).mpr hstrands
  have hclosable : Driver.init.Closable header := nofun
  exact throughout_some_iff_along hinv hexact sound_init hclosable fun _ _ => trivial

/-- The process then gives the area back and unmaps it, before its first file is closed. -/
def unmapLast : List Call :=
  moduleFirst ++ [.openFile false true, .ioctlDeallocate 4 cmdpos, .unmap 3]

/-- That file cannot be closed any more. -/
theorem unmap_last_strands :
    ¬ Throughout (failing (Driver.step .small)) (fun state => ∃ driver, state = some driver ∧
        driver.Closable .small) (some Driver.init) unmapLast := by
  rw [files_closable_iff .small unmapLast]
  decide

/-- A file without an area cannot be asked where its end is, while a position before its start is
rejected. -/
example :
    ([Call.openFile false true, .llseek 0 0 2].foldlM (Driver.step .small) Driver.init).isNone ∧
      ([Call.openFile false true, .llseek 0 (-1) 0].foldlM (Driver.step .small)
        Driver.init).isSome := by
  decide

end FoosballTable.SharedMemory
