import FoosballTable.SharedMemory.Accounts

/-!
# What the calls do to the areas

Two kinds of calls are told apart. Most of them only add: every area stays, and so does the part
that modules have in it (`Driver.Grows`). The others take away one holder of an area, and release
the area if that was the last one (`Driver.Drops`); `Call.less` says which area that is and what is
left of its holders.
-/

namespace FoosballTable.SharedMemory

open Library

variable {header : MbuffH} {reserved : List Command.Byte → Prop} {driver next : Driver}

/-- The accounts are in order after a call, no area is lost, and no module has less of one. -/
structure Driver.Grows (header : MbuffH) (reserved : List Command.Byte → Prop)
    (driver next : Driver) : Prop where
  sound : next.Sound header reserved
  keeps : ∀ mbuff ∈ driver.mbuffList, ∃ kept ∈ next.mbuffList,
    kept.Same mbuff ∧ mbuff.kcount ≤ kept.kcount

theorem Driver.Sound.grows (h : driver.Sound header reserved) :
    driver.Grows header reserved driver :=
  ⟨h, fun mbuff hmbuff => ⟨mbuff, hmbuff, .rfl, le_rfl⟩⟩

theorem Driver.Grows.trans {last : Driver} (h : driver.Grows header reserved next)
    (h' : next.Grows header reserved last) : driver.Grows header reserved last := by
  refine ⟨h'.sound, fun mbuff hmbuff => ?_⟩
  obtain ⟨first, hfirst, hsame, hcount⟩ := h.keeps mbuff hmbuff
  obtain ⟨second, hsecond, hsame', hcount'⟩ := h'.keeps first hfirst
  exact ⟨second, hsecond, hsame'.trans hsame, hcount.trans hcount'⟩

/-- The counters of an area rise. -/
theorem Driver.Sound.grow (h : driver.Sound header reserved) {old new : Mbuff}
    (hold : old ∈ driver.mbuffList) (hsame : new.Same old) (hkcount : old.kcount ≤ new.kcount)
    (hholds : old.holds ≤ new.holds) (hvma : old.vmArea ⊆ new.vmArea) {mappings : List Mapping}
    (hmappings : ∀ mapping ∈ mappings, mapping ∈ driver.mappings ∨
      mapping.buf = new.buf ∧ mapping.vma ∈ new.vmArea)
    {useCount next : Nat} (huse : useCount + old.holds = driver.useCount + new.holds)
    (hnext : driver.next ≤ next) :
    driver.Grows header reserved { driver with
      mbuffList := Table.put Mbuff.address new driver.mbuffList
      mappings := mappings
      useCount := useCount
      next := next } := by
  refine ⟨h.change hold hsame ((h.held old hold).trans_le hholds) ?_ huse hnext, ?_⟩
  · intro mapping hmapping
    rcases hmappings mapping hmapping with hbefore | hnew
    · by_cases hbuf : mapping.buf = new.buf
      · exact Or.inr ⟨hbuf, hvma (h.vma_mem hold hbefore (hbuf.trans hsame.buf))⟩
      · exact Or.inl ⟨hbefore, hbuf⟩
    · exact Or.inr hnew
  · intro mbuff hmbuff
    have hmem := @Table.mem_put _ _ _ Mbuff.address _ _ _ hold hsame.address.symm
    by_cases haddress : mbuff.address = new.address
    · obtain rfl := Table.eq_of_key h.addresses hold hmbuff (haddress.trans hsame.address)
      exact ⟨new, hmem.mpr (Or.inl rfl), hsame, hkcount⟩
    · exact ⟨mbuff, hmem.mpr (Or.inr ⟨hmbuff, haddress⟩), .rfl, le_rfl⟩

/-- Fields that hold nothing are written. -/
theorem Driver.Sound.put (h : driver.Sound header reserved) {old new : Mbuff}
    (hold : old ∈ driver.mbuffList) (hsame : new.Same old) (hcount : new.count = old.count)
    (hkcount : new.kcount = old.kcount) (hvma : new.vmArea = old.vmArea) :
    driver.Grows header reserved (driver.put new) := by
  have hholds : new.holds = old.holds := by rw [Mbuff.holds, hcount, hkcount, hvma, Mbuff.holds]
  exact h.grow hold hsame hkcount.ge hholds.ge (hvma ▸ List.Subset.refl _)
    (fun _ hmapping => Or.inl hmapping) (by rw [hholds]) le_rfl

/-- An area is counted for one more process or module. -/
theorem Driver.Sound.count (h : driver.Sound header reserved) {mbuff : Mbuff}
    (hmbuff : mbuff ∈ driver.mbuffList) (kernel : Bool) :
    driver.Grows header reserved (driver.count kernel mbuff) := by
  cases kernel with
  | true =>
      have hsame : ({ mbuff with kcount := mbuff.kcount + 1 } : Mbuff).Same mbuff :=
        ⟨rfl, rfl, rfl, rfl⟩
      exact h.grow hmbuff hsame (Nat.le_succ _) (by simp only [Mbuff.holds]; omega)
        (List.Subset.refl _) (fun _ hmapping => Or.inl hmapping)
        (by simp only [Mbuff.holds]; omega) le_rfl
  | false =>
      have hsame : ({ mbuff with count := mbuff.count + 1 } : Mbuff).Same mbuff :=
        ⟨rfl, rfl, rfl, rfl⟩
      exact h.grow hmbuff hsame le_rfl (by simp only [Mbuff.holds]; omega)
        (List.Subset.refl _) (fun _ hmapping => Or.inl hmapping)
        (by simp only [Mbuff.holds]; omega) le_rfl

/-- The area that a file has selected has not been released. -/
def File.Selects (file : File) (driver : Driver) : Prop :=
  ∀ address, file.privateData = some address → ∃ mbuff ∈ driver.mbuffList, mbuff.address = address

/-- A call that only adds: a file that it opens, or for which it selects an area, has selected one
that is there. -/
structure Driver.Adds (header : MbuffH) (reserved : List Command.Byte → Prop)
    (driver next : Driver) : Prop
    extends Driver.Grows header reserved driver next where
  files : ∀ file ∈ next.files,
    (∃ before ∈ driver.files, file.privateData = before.privateData) ∨ file.Selects next

/-- A call that leaves the files alone. -/
theorem Driver.Grows.adds (h : driver.Grows header reserved next)
    (hfiles : next.files = driver.files) : driver.Adds header reserved next :=
  ⟨h, fun file hfile => Or.inl ⟨file, hfiles ▸ hfile, rfl⟩⟩

/-- What a file has selected is a matter of its `private_data` alone. -/
theorem File.Selects.of_same {file other : File} (h : other.Selects driver)
    (hsame : file.privateData = other.privateData) : file.Selects driver :=
  fun address haddress => h address (hsame.symm.trans haddress)

/-- Areas that are selected stay. -/
theorem Driver.Grows.selects (h : driver.Grows header reserved next) {file : File}
    (hfile : file.Selects driver) : file.Selects next := by
  intro address haddress
  obtain ⟨mbuff, hmbuff, rfl⟩ := hfile address haddress
  obtain ⟨kept, hkept, hsame, -⟩ := h.keeps mbuff hmbuff
  exact ⟨kept, hkept, hsame.address⟩

theorem Driver.Adds.trans {last : Driver} (h : driver.Adds header reserved next)
    (h' : next.Adds header reserved last) : driver.Adds header reserved last := by
  refine ⟨h.toGrows.trans h'.toGrows, fun file hfile => ?_⟩
  rcases h'.files file hfile with ⟨middle, hmiddle, hsame⟩ | hselects
  · rcases h.files middle hmiddle with ⟨before, hbefore, hsame'⟩ | hselects
    · exact Or.inl ⟨before, hbefore, hsame.trans hsame'⟩
    · exact Or.inr ((h'.selects hselects).of_same hsame)
  · exact Or.inr hselects

/-! ## Looking up -/

/-- What is found under a name has it, so that the name fits into its field. -/
theorem Driver.Sound.lookup_name_some (h : driver.Sound header reserved)
    {name : List Command.Byte} {mbuff : Mbuff}
    (hfound : driver.lookupName header name = some mbuff) :
    mbuff ∈ driver.mbuffList ∧ mbuff.name = name ∧ name.length < header.nameLen := by
  obtain ⟨hmem, hkey⟩ := Table.lookup_some hfound
  have hshort := h.short mbuff hmem
  rw [List.take_of_length_le hshort.le] at hkey
  have hlength := congrArg List.length hkey
  rw [List.length_take] at hlength
  have hname : name.length < header.nameLen := by omega
  exact ⟨hmem, hkey.trans (List.take_of_length_le hname.le), hname⟩

/-- A name that is too long is not found. -/
theorem Driver.Sound.lookup_name_of_long (h : driver.Sound header reserved)
    {name : List Command.Byte} (hlong : header.nameLen ≤ name.length) :
    driver.lookupName header name = none :=
  Option.eq_none_iff_forall_ne_some.mpr fun _ hfound =>
    absurd (h.lookup_name_some hfound).2.2 (Nat.not_lt.mpr hlong)

/-- The name of an area finds one, and the area itself if the name is reserved. -/
theorem Driver.Sound.lookup_name (h : driver.Sound header reserved) {mbuff : Mbuff}
    (hmbuff : mbuff ∈ driver.mbuffList) :
    ∃ found, driver.lookupName header mbuff.name = some found ∧
      (reserved mbuff.name → found = mbuff) := by
  cases hfound : driver.lookupName header mbuff.name with
  | none => exact absurd rfl (Table.lookup_eq_none.mp hfound mbuff hmbuff)
  | some found =>
      obtain ⟨hmem, hname, -⟩ := h.lookup_name_some hfound
      exact ⟨found, rfl, fun hreserved => h.names mbuff hmbuff found hmem hreserved hname⟩

/-- An address finds the area at it. -/
theorem Driver.Sound.mbuff_at (h : driver.Sound header reserved) {mbuff : Mbuff}
    (hmbuff : mbuff ∈ driver.mbuffList) : driver.mbuffAt mbuff.address = some mbuff :=
  Table.lookup_of_mem h.addresses hmbuff

/-! ## Calls that add -/

/-- A name that is not found is stored in a new area, which is counted for the process or module
that asked for it. -/
theorem Driver.Sound.allocate (h : driver.Sound header reserved) {name : List Command.Byte}
    (hname : header.nameLen ≤ name.length → ¬ reserved (name.take (header.nameLen - 1)))
    (hnone : driver.lookupName header name = none) (size : Nat) (kernel : Bool) :
    let made := driver.allocate header name size
    driver.Grows header reserved (made.2.count kernel made.1) ∧
      ∃ listed ∈ (made.2.count kernel made.1).mbuffList, listed.Same made.1 := by
  intro made
  have hpos := header.nameLenPos
  have hput : ∀ new : Mbuff, new.address = driver.next →
      Table.put Mbuff.address new made.2.mbuffList = new :: driver.mbuffList := by
    intro new haddress
    refine Table.put_cons_self haddress.symm fun other hother => ?_
    rw [haddress]
    exact (h.addressLt other hother).ne
  -- the record with its counter set stands where the new one stood
  obtain ⟨new, hsame, hholds, hlist⟩ : ∃ new : Mbuff, new.Same made.1 ∧ new.holds = 1 ∧
      made.2.count kernel made.1 = { driver with
        mbuffList := new :: driver.mbuffList
        useCount := driver.useCount + 1
        memory := insert new.buf driver.memory
        next := driver.next + 2 } := by
    cases kernel with
    | true =>
        refine ⟨{ made.1 with kcount := made.1.kcount + 1 }, ⟨rfl, rfl, rfl, rfl⟩, rfl, ?_⟩
        rw [Driver.count, if_pos rfl, Driver.put, hput _ rfl]
        rfl
    | false =>
        refine ⟨{ made.1 with count := made.1.count + 1 }, ⟨rfl, rfl, rfl, rfl⟩, rfl, ?_⟩
        rw [Driver.count, if_neg Bool.false_ne_true, Driver.put, hput _ rfl]
        rfl
  have hnewName : new.name = name.take (header.nameLen - 1) := hsame.name
  have hnew : reserved new.name → ∀ mbuff ∈ driver.mbuffList, mbuff.name ≠ new.name := by
    intro hreserved mbuff hmbuff hsameName
    rw [hnewName] at hreserved hsameName
    -- a name that is not cut would have been found
    have hshort : name.length ≤ header.nameLen - 1 := by
      by_contra hlong
      exact hname (by omega) hreserved
    rw [List.take_of_length_le hshort] at hsameName
    obtain ⟨found, hfound, -⟩ := h.lookup_name hmbuff
    rw [hsameName, hnone] at hfound
    cases hfound
  have hnewShort : new.name.length < header.nameLen := by
    rw [hnewName, List.length_take]
    omega
  rw [hlist]
  exact ⟨⟨h.add hsame.address hsame.buf hnew hnewShort hholds,
    fun mbuff hmbuff => ⟨mbuff, List.mem_cons_of_mem new hmbuff, .rfl, le_rfl⟩⟩,
    new, List.mem_cons_self, hsame⟩

/-- `shm_allocate` adds to the area with a name, or a new one. -/
theorem Driver.Sound.shm_allocate (h : driver.Sound header reserved) {name : List Command.Byte}
    (hname : header.nameLen ≤ name.length → ¬ reserved (name.take (header.nameLen - 1)))
    (size : Nat) (kernel memory : Bool) :
    driver.Grows header reserved (driver.shmAllocate header name size kernel memory).2 ∧
      (driver.shmAllocate header name size kernel memory).2.files = driver.files ∧
      ∀ mbuff, (driver.shmAllocate header name size kernel memory).1 = .ok mbuff →
        ∃ listed ∈ (driver.shmAllocate header name size kernel memory).2.mbuffList,
          listed.name = name.take (header.nameLen - 1) := by
  unfold Driver.shmAllocate
  split
  case h_1 found hfound =>
    obtain ⟨hmem, hfoundName, hshort⟩ := h.lookup_name_some hfound
    split
    · exact ⟨h.grows, rfl, nofun⟩
    · have hgrows := h.count hmem kernel
      refine ⟨hgrows, rfl, fun mbuff _ => ?_⟩
      obtain ⟨listed, hlisted, hsame, -⟩ := hgrows.keeps found hmem
      refine ⟨listed, hlisted, ?_⟩
      rw [hsame.name, hfoundName, List.take_of_length_le (Nat.le_sub_one_of_lt hshort)]
  case h_2 hnone =>
    split
    · exact ⟨h.grows, rfl, nofun⟩
    · split
      · exact ⟨h.grows, rfl, nofun⟩
      · obtain ⟨hgrows, listed, hlisted, hsame⟩ := h.allocate hname hnone size kernel
        exact ⟨hgrows, rfl, fun mbuff _ => ⟨listed, hlisted, hsame.name⟩⟩

/-- `shm_allocate` makes an area for a name that is too long, given a size and memory for it. -/
theorem Driver.Sound.shm_allocate_of_long (h : driver.Sound header reserved)
    {name : List Command.Byte} (hlong : header.nameLen ≤ name.length) (size : Nat)
    (kernel memory : Bool) :
    (∃ mbuff, (driver.shmAllocate header name size kernel memory).1 = .ok mbuff) ↔
      size ≠ 0 ∧ memory = true := by
  rw [Driver.shmAllocate, h.lookup_name_of_long hlong]
  by_cases hsize : size = 0
  · simp [hsize]
  · cases memory with
    | true => simp [hsize]
    | false => simp [hsize]

/-- The area that `shm_allocate` returns is found under its name, unless that is too long. -/
theorem Driver.Sound.found_again_iff (h : driver.Sound header reserved)
    {name : List Command.Byte}
    (hname : header.nameLen ≤ name.length → ¬ reserved (name.take (header.nameLen - 1)))
    {size : Nat} {kernel memory : Bool} {mbuff : Mbuff}
    (hmade : driver.shmAllocate header name size kernel memory = (.ok mbuff, next)) :
    (next.lookupName header name).isSome ↔ name.length < header.nameLen := by
  obtain ⟨hgrows, -, hlisted⟩ := h.shm_allocate hname size kernel memory
  rw [hmade] at hgrows hlisted
  obtain ⟨listed, hmem, hlistedName⟩ := hlisted mbuff rfl
  constructor
  · intro hfound
    obtain ⟨found, hfound⟩ := Option.isSome_iff_exists.mp hfound
    exact (hgrows.sound.lookup_name_some hfound).2.2
  · intro hshort
    rw [List.take_of_length_le (Nat.le_sub_one_of_lt hshort)] at hlistedName
    obtain ⟨found, hfound, -⟩ := hgrows.sound.lookup_name hmem
    rw [hlistedName] at hfound
    exact Option.isSome_of_eq_some hfound

/-- `open_cnt--` through a file follows a pointer to an area that was released, or it is nothing but
a write of a field. -/
theorem Driver.Sound.leave (h : driver.Sound header reserved) (file : File) :
    (file.Selects driver → (driver.leave file).isSome) ∧
      ((driver.leave file).isSome → file.Selects driver) ∧
      ∀ next, driver.leave file = some next →
        driver.Grows header reserved next ∧ next.files = driver.files := by
  unfold Driver.leave
  cases hdata : file.privateData with
  | none =>
      refine ⟨fun _ => rfl, fun _ address haddress => ?_, fun next hnext => ?_⟩
      · rw [hdata] at haddress
        cases haddress
      · obtain rfl := Option.some.inj hnext
        exact ⟨h.grows, rfl⟩
  | some address =>
      refine ⟨fun hselects => ?_, fun hsome other hother => ?_, fun next hnext => ?_⟩
      · obtain ⟨mbuff, hmbuff, rfl⟩ := hselects address hdata
        show (Option.map _ (driver.mbuffAt mbuff.address)).isSome
        rw [h.mbuff_at hmbuff]
        rfl
      · obtain rfl := Option.some.inj (hdata.symm.trans hother)
        rw [Option.isSome_map] at hsome
        obtain ⟨mbuff, hmbuff⟩ := Option.isSome_iff_exists.mp hsome
        exact ⟨mbuff, Table.lookup_some hmbuff⟩
      · obtain ⟨mbuff, hmbuff, rfl⟩ := Option.map_eq_some_iff.mp hnext
        have hput : driver.Grows header reserved
            (driver.put { mbuff with openCnt := mbuff.openCnt - 1 }) :=
          h.put (Table.lookup_some hmbuff).1 ⟨rfl, rfl, rfl, rfl⟩ rfl rfl rfl
        exact ⟨hput, rfl⟩

/-- The fields of a file are written, and the area that it has selected is still there. -/
theorem Driver.Sound.put_file_adds (h : driver.Sound header reserved) {file : File}
    (hfile : (∃ before ∈ driver.files, file.privateData = before.privateData) ∨
      file.Selects driver) : driver.Adds header reserved (driver.putFile file) := by
  refine ⟨⟨h.put_file file, fun mbuff hmbuff => ⟨mbuff, hmbuff, .rfl, le_rfl⟩⟩, ?_⟩
  intro other hother
  obtain ⟨before, hbefore, rfl⟩ := List.mem_map.mp hother
  split
  · exact hfile
  · exact Or.inl ⟨before, hbefore, rfl⟩

/-- A file selects an area of the list. -/
theorem Driver.Sound.enter (h : driver.Sound header reserved) (file : File) {mbuff : Mbuff}
    (hmbuff : mbuff ∈ driver.mbuffList) :
    driver.Adds header reserved (driver.enter file mbuff) := by
  have hselect : driver.Adds header reserved (driver.select file (some mbuff.address)) := by
    refine h.put_file_adds (Or.inr fun address haddress => ?_)
    obtain rfl := Option.some.inj haddress
    exact ⟨mbuff, hmbuff, rfl⟩
  refine hselect.trans (Grows.adds ?_ rfl)
  exact hselect.sound.put hmbuff ⟨rfl, rfl, rfl, rfl⟩ rfl rfl rfl

/-- `mbuff_open`. -/
theorem Driver.Sound.open_file_adds (h : driver.Sound header reserved) (excl write : Bool) :
    driver.Adds header reserved (driver.openFile header excl write).2 := by
  -- what `mbuff_open_with_name` does to the area under the default name comes first
  have hopen : ∀ {next : Driver} (address : Option Nat), driver.Adds header reserved next →
      (∀ wanted, address = some wanted → ∃ mbuff ∈ next.mbuffList, mbuff.address = wanted) →
      driver.Adds header reserved { next with
        files := ⟨next.next, address, 0⟩ :: next.files
        useCount := next.useCount + 1
        next := next.next + 1 } := by
    intro next address hnext hselects
    refine ⟨⟨hnext.sound.open_file address, hnext.keeps⟩, fun file hfile => ?_⟩
    rcases List.mem_cons.mp hfile with rfl | hbefore
    · exact Or.inr hselects
    · exact hnext.files file hbefore
  unfold Driver.openFile
  dsimp only
  split
  case h_1 mbuff hfound =>
    have hmbuff := (Table.lookup_some hfound).1
    split
    · exact h.grows.adds rfl
    · have hput : driver.Grows header reserved (driver.put { mbuff with
          excl := mbuff.excl || excl
          write := mbuff.write || write
          openCnt := mbuff.openCnt + 1 }) :=
        h.put hmbuff ⟨rfl, rfl, rfl, rfl⟩ rfl rfl rfl
      refine hopen (some mbuff.address) (hput.adds rfl) fun wanted hwanted => ?_
      obtain rfl := Option.some.inj hwanted
      obtain ⟨kept, hkept, hsame, -⟩ := hput.keeps mbuff hmbuff
      exact ⟨kept, hkept, hsame.address⟩
  case h_2 => exact hopen none (h.grows.adds rfl) nofun

/-- `mbuff_close`. -/
theorem Driver.Sound.close_file_adds (h : driver.Sound header reserved) {file : File}
    (hfile : file ∈ driver.files) (hclose : driver.closeFile file = some next) :
    driver.Adds header reserved next := by
  obtain ⟨left, hleft, rfl⟩ := Option.map_eq_some_iff.mp hclose
  obtain ⟨hgrows, hfiles⟩ := (h.leave file).2.2 left hleft
  refine (hgrows.adds hfiles).trans ⟨⟨hgrows.sound.close_file (hfiles ▸ hfile), fun other hother =>
    ⟨other, hother, .rfl, le_rfl⟩⟩, fun other hother => ?_⟩
  exact Or.inl ⟨other, (Table.mem_remove.mp hother).1, rfl⟩

/-- `IOCTL_MBUFF_ALLOCATE`. An area that is made for a name which is too long is not found. -/
theorem Driver.Sound.ioctl_allocate (h : driver.Sound header reserved) (file : File)
    {name : List Command.Byte}
    (hname : header.nameLen ≤ name.length → ¬ reserved (name.take (header.nameLen - 1)))
    (size : Nat) (memory : Bool) :
    (file.Selects driver → ((driver.ioctlAllocate header file name size memory).isSome ↔
      ¬ (header.nameLen ≤ name.length ∧ size ≠ 0 ∧ memory = true))) ∧
      ∀ answer, driver.ioctlAllocate header file name size memory = some answer →
        driver.Adds header reserved answer.2 := by
  constructor
  · intro hselects
    obtain ⟨left, hleft⟩ := Option.isSome_iff_exists.mp ((h.leave file).1 hselects)
    have hsound := ((h.leave file).2.2 left hleft).1.sound
    rw [Driver.ioctlAllocate, hleft, Option.bind_some]
    rcases hresult : left.shmAllocate header name size false memory with ⟨result, last⟩
    cases result with
    | error errno =>
        refine iff_of_true rfl fun hmade => ?_
        obtain ⟨mbuff, hok⟩ := (hsound.shm_allocate_of_long hmade.1 size false memory).mpr hmade.2
        rw [hresult] at hok
        cases hok
    | ok mbuff =>
        show (Option.map _ (last.lookupName header name)).isSome ↔ _
        rw [Option.isSome_map, hsound.found_again_iff hname hresult]
        constructor
        · exact fun hshort hmade => absurd hmade.1 (Nat.not_le_of_lt hshort)
        · intro hnot
          by_contra hshort
          have hlong := Nat.le_of_not_lt hshort
          have hmade := (hsound.shm_allocate_of_long hlong size false memory).mp
            ⟨mbuff, congrArg Prod.fst hresult⟩
          exact hnot ⟨hlong, hmade⟩
  · intro answer hanswer
    obtain ⟨left, hleft, hanswer⟩ := Option.bind_eq_some_iff.mp hanswer
    obtain ⟨hgrows, hfiles⟩ := (h.leave file).2.2 left hleft
    obtain ⟨hallocate, hsameFiles, -⟩ := hgrows.sound.shm_allocate hname size false memory
    have hlast := (hgrows.adds hfiles).trans (hallocate.adds hsameFiles)
    rcases hresult : left.shmAllocate header name size false memory with ⟨result, last⟩
    rw [hresult] at hlast hanswer
    cases result with
    | error errno =>
        obtain rfl := Option.some.inj hanswer
        exact hlast
    | ok mbuff =>
        obtain ⟨found, hfound, rfl⟩ := Option.map_eq_some_iff.mp hanswer
        exact hlast.trans (hlast.sound.enter file (hlast.sound.lookup_name_some hfound).1)

/-- `IOCTL_MBUFF_SELECT`. -/
theorem Driver.Sound.ioctl_select (h : driver.Sound header reserved) (file : File)
    (name : List Command.Byte) :
    (file.Selects driver → (driver.ioctlSelect header file name).isSome) ∧
      ∀ answer, driver.ioctlSelect header file name = some answer →
        driver.Adds header reserved answer.2 := by
  unfold Driver.ioctlSelect
  split
  case h_1 mbuff hlookup =>
    have hmbuff := (Table.lookup_some hlookup).1
    have hfound : ∀ left, driver.leave file = some left → ∃ kept ∈ left.mbuffList,
        left.mbuffAt mbuff.address = some kept ∧
          driver.Adds header reserved (left.enter file kept) := by
      intro left hleft
      obtain ⟨hgrows, hfiles⟩ := (h.leave file).2.2 left hleft
      obtain ⟨kept, hkept, hsame, -⟩ := hgrows.keeps mbuff hmbuff
      exact ⟨kept, hkept, hsame.address ▸ hgrows.sound.mbuff_at hkept,
        (hgrows.adds hfiles).trans (hgrows.sound.enter file hkept)⟩
    constructor
    · intro hselects
      obtain ⟨left, hleft⟩ := Option.isSome_iff_exists.mp ((h.leave file).1 hselects)
      obtain ⟨kept, -, hat, -⟩ := hfound left hleft
      rw [hleft, Option.bind_some, hat]
      rfl
    · intro answer hanswer
      obtain ⟨left, hleft, hanswer⟩ := Option.bind_eq_some_iff.mp hanswer
      obtain ⟨kept, -, hat, hadds⟩ := hfound left hleft
      rw [hat] at hanswer
      obtain rfl := Option.some.inj hanswer
      exact hadds
  case h_2 =>
    refine ⟨fun _ => rfl, fun answer hanswer => ?_⟩
    obtain rfl := Option.some.inj hanswer
    exact h.grows.adds rfl

/-- The pointer of a file whose area has not been released is followed, unless it is null. -/
theorem Driver.Sound.area_isSome_iff (h : driver.Sound header reserved) {file : File}
    (hselects : file.Selects driver) :
    (driver.area file).isSome ↔ file.privateData ≠ none := by
  rw [Driver.area]
  cases hdata : file.privateData with
  | none => exact iff_of_false Bool.false_ne_true fun hne => hne rfl
  | some address =>
      obtain ⟨mbuff, hmbuff, rfl⟩ := hselects address hdata
      rw [Option.bind_some, h.mbuff_at hmbuff]
      exact iff_of_true rfl (Option.some_ne_none _)

theorem mem_of_area {file : File} {mbuff : Mbuff} (harea : driver.area file = some mbuff) :
    mbuff ∈ driver.mbuffList := by
  obtain ⟨address, -, hmbuff⟩ := Option.bind_eq_some_iff.mp harea
  exact (Table.lookup_some hmbuff).1

/-- `mbuff_mmap`. -/
theorem Driver.Sound.mmap (h : driver.Sound header reserved) (file : File)
    (failure : Option Errno) :
    (file.Selects driver → (driver.mmap header file failure).isSome) ∧
      ∀ answer, driver.mmap header file failure = some answer →
        driver.Adds header reserved answer.2 := by
  unfold Driver.mmap
  split
  case isTrue =>
    refine ⟨fun _ => rfl, fun answer hanswer => ?_⟩
    obtain rfl := Option.some.inj hanswer
    exact h.grows.adds rfl
  case isFalse hdata =>
    refine ⟨fun hselects => ?_, fun answer hanswer => ?_⟩
    · rw [Option.isSome_map]
      exact (h.area_isSome_iff hselects).mpr hdata
    · obtain ⟨mbuff, hmbuff, rfl⟩ := Option.map_eq_some_iff.mp hanswer
      have hmem := mem_of_area hmbuff
      cases failure with
      | some errno => exact h.grows.adds rfl
      | none =>
          dsimp only
          split
          · refine Grows.adds ?_ rfl
            have hsame : ({ mbuff with vmArea := driver.next :: mbuff.vmArea } : Mbuff).Same
                mbuff := ⟨rfl, rfl, rfl, rfl⟩
            have hholds : ({ mbuff with vmArea := driver.next :: mbuff.vmArea } : Mbuff).holds =
                mbuff.holds + 1 := rfl
            refine h.grow hmem hsame le_rfl (hholds ▸ Nat.le_succ _) (List.subset_cons_self _ _)
              ?_ (by omega) (Nat.le_succ _)
            intro mapping hmapping
            rcases List.mem_cons.mp hmapping with rfl | hbefore
            · exact Or.inr ⟨rfl, List.mem_cons_self⟩
            · exact Or.inl hbefore
          · exact h.grows.adds rfl

/-- The position of a file changes. -/
theorem Driver.Sound.seek (h : driver.Sound header reserved) {file : File}
    (hfile : file ∈ driver.files) (pos : Nat) :
    driver.Adds header reserved (driver.seek file pos) :=
  h.put_file_adds (Or.inl ⟨file, hfile, rfl⟩)

/-- `mbuff_llseek` asks for the size of the area. -/
def File.asksSize (file : File) (offset : Int) (origin : Nat) : Prop :=
  origin = 0 ∧ 0 ≤ offset ∨ origin = 1 ∧ 0 ≤ int64 (offset + file.pos) ∨ origin = 2

instance (file : File) (offset : Int) (origin : Nat) : Decidable (file.asksSize offset origin) :=
  inferInstanceAs (Decidable (_ ∨ _))

/-- The end of `mbuff_llseek`. -/
theorem Driver.Sound.seek_to (h : driver.Sound header reserved) {file : File}
    (hfile : file ∈ driver.files) (offset : Int) :
    (file.Selects driver → ((driver.seekTo file offset).isSome ↔
      ¬ (file.privateData = none ∧ 0 ≤ offset))) ∧
      ∀ answer, driver.seekTo file offset = some answer →
        driver.Adds header reserved answer.2 := by
  unfold Driver.seekTo
  split
  case isTrue hoffset =>
    refine ⟨fun _ => iff_of_true rfl fun hfollows => absurd hfollows.2 (Int.not_le.mpr hoffset),
      fun answer hanswer => ?_⟩
    obtain rfl := Option.some.inj hanswer
    exact h.grows.adds rfl
  case isFalse hoffset =>
    refine ⟨fun hselects => ?_, fun answer hanswer => ?_⟩
    · rw [Option.isSome_map, h.area_isSome_iff hselects, and_iff_left (Int.not_lt.mp hoffset)]
    · obtain ⟨mbuff, -, rfl⟩ := Option.map_eq_some_iff.mp hanswer
      split
      · exact h.seek hfile _
      · exact h.grows.adds rfl

/-- `mbuff_llseek` follows the null pointer where it asks for the size of an area that the file has
not selected. -/
theorem Driver.Sound.llseek (h : driver.Sound header reserved) {file : File}
    (hfile : file ∈ driver.files) (offset : Int) (origin : Nat) :
    (file.Selects driver → ((driver.llseek file offset origin).isSome ↔
      ¬ (file.privateData = none ∧ file.asksSize offset origin))) ∧
      ∀ answer, driver.llseek file offset origin = some answer →
        driver.Adds header reserved answer.2 := by
  match origin with
  | 0 =>
      have hasks : file.asksSize offset 0 ↔ 0 ≤ offset := by simp [File.asksSize]
      rw [hasks]
      exact h.seek_to hfile offset
  | 1 =>
      have hasks : file.asksSize offset 1 ↔ 0 ≤ int64 (offset + file.pos) := by
        simp [File.asksSize]
      rw [hasks]
      exact h.seek_to hfile (int64 (offset + file.pos))
  | 2 =>
      have hasks : file.asksSize offset 2 := Or.inr (Or.inr rfl)
      refine ⟨fun hselects => ?_, fun answer hanswer => ?_⟩
      · rw [and_iff_left hasks]
        show (Option.bind (driver.area file) _).isSome ↔ ¬ file.privateData = none
        rw [← ne_eq, ← h.area_isSome_iff hselects]
        cases harea : driver.area file with
        | none => exact Iff.rfl
        | some mbuff =>
            have hdata := (h.area_isSome_iff hselects).mp (Option.isSome_of_eq_some harea)
            refine iff_of_true ?_ rfl
            exact ((h.seek_to hfile _).1 hselects).mpr fun hfollows => hdata hfollows.1
      · obtain ⟨mbuff, -, hseek⟩ := Option.bind_eq_some_iff.mp hanswer
        exact (h.seek_to hfile _).2 answer hseek
  | origin + 3 =>
      have hasks : ¬ file.asksSize offset (origin + 3) := by
        rw [File.asksSize]
        omega
      refine ⟨fun _ => iff_of_true rfl fun hfollows => hasks hfollows.2, fun answer hanswer => ?_⟩
      obtain rfl := Option.some.inj hanswer
      exact h.grows.adds rfl

/-- `mbuff_read`. -/
theorem Driver.Sound.read (h : driver.Sound header reserved) {file : File}
    (hfile : file ∈ driver.files) (count room : Nat) :
    (file.Selects driver → (driver.read file count room).isSome) ∧
      ∀ answer, driver.read file count room = some answer →
        driver.Adds header reserved answer.2 := by
  unfold Driver.read
  split
  case isTrue =>
    refine ⟨fun _ => rfl, fun answer hanswer => ?_⟩
    obtain rfl := Option.some.inj hanswer
    exact h.grows.adds rfl
  case isFalse hdata =>
    refine ⟨fun hselects => ?_, fun answer hanswer => ?_⟩
    · rw [Option.isSome_map]
      exact (h.area_isSome_iff hselects).mpr hdata
    · obtain ⟨mbuff, -, rfl⟩ := Option.map_eq_some_iff.mp hanswer
      dsimp only
      split
      · exact h.grows.adds rfl
      · split
        · exact h.grows.adds rfl
        · exact h.seek hfile _

/-! ## Calls that take away -/

/-- What is left of the area that a call takes a holder away from. -/
def Call.less (header : MbuffH) (driver : Driver) : Call → Option Mbuff
  | .shmDeallocate buf =>
      (driver.lookupBuf buf).map fun mbuff => { mbuff with kcount := mbuff.kcount - 1 }
  | .ioctlDeallocate id name =>
      if (Table.lookup File.id id driver.files).isSome then
        (driver.lookupName header name).map fun mbuff => { mbuff with count := mbuff.count - 1 }
      else none
  | .unmap vma =>
      if (Table.lookup Mapping.vma vma driver.mappings).isSome then
        (driver.mbuffList.find? fun mbuff => vma ∈ mbuff.vmArea).map fun mbuff =>
          { mbuff with vmArea := mbuff.vmArea.erase vma }
      else none
  | .shmAllocate _ _ _ | .openFile _ _ | .closeFile _ | .ioctlAllocate _ _ _ _ | .ioctlSelect _ _
    | .mmap _ _ | .llseek _ _ _ | .read _ _ _ => none

/-- The area that a call takes a holder away from, and its release, if that was the last one. -/
structure Driver.Drops (header : MbuffH) (reserved : List Command.Byte → Prop)
    (driver next : Driver) (less : Mbuff) : Prop where
  sound : next.Sound header reserved
  list : next.mbuffList =
    if less.holds = 0 then Table.remove Mbuff.address less.address driver.mbuffList
    else Table.put Mbuff.address less driver.mbuffList

theorem Mbuff.holds_eq_zero {mbuff : Mbuff} :
    mbuff.holds = 0 ↔ mbuff.count = 0 ∧ mbuff.vmArea = [] ∧ mbuff.kcount = 0 := by
  rw [Mbuff.holds, ← List.length_eq_zero_iff]
  omega

/-- `__shm_deallocate` releases an area that nothing holds, and returns 0 for it alone. -/
theorem shm_release_eq (driver : Driver) (mbuff : Mbuff) :
    (driver.shmRelease mbuff).2 = (if mbuff.holds = 0 then driver.free mbuff else driver) ∧
      ((driver.shmRelease mbuff).1 = .ok 0 ↔ mbuff.holds = 0) := by
  rw [Driver.shmRelease]
  by_cases hcount : mbuff.count = 0
  · rw [if_pos hcount]
    by_cases hrest : mbuff.vmArea = [] ∧ mbuff.kcount = 0
    · have hholds := Mbuff.holds_eq_zero.mpr ⟨hcount, hrest⟩
      rw [if_pos hrest, if_pos hholds]
      exact ⟨rfl, iff_of_true rfl hholds⟩
    · have hholds : mbuff.holds ≠ 0 := fun h => hrest (Mbuff.holds_eq_zero.mp h).2
      rw [if_neg hrest, if_neg hholds]
      exact ⟨rfl, iff_of_false nofun hholds⟩
  · have hholds : mbuff.holds ≠ 0 := fun h => hcount (Mbuff.holds_eq_zero.mp h).1
    rw [if_neg hcount, if_neg hholds]
    exact ⟨rfl, iff_of_false (fun h => hcount (Except.ok.inj h)) hholds⟩

/-- Taking away a holder of an area keeps the accounts. -/
theorem Driver.Sound.drop (h : driver.Sound header reserved) {old less : Mbuff}
    (hold : old ∈ driver.mbuffList) (hsame : less.Same old) {mappings : List Mapping}
    (hmappings : ∀ mapping ∈ mappings, mapping ∈ driver.mappings ∧
      (mapping.buf = old.buf → mapping.vma ∈ less.vmArea))
    {useCount : Nat} (huse : useCount + old.holds = driver.useCount + less.holds) :
    driver.Drops header reserved
      ((({ driver with mappings := mappings, useCount := useCount } : Driver).put less).shmRelease
        less).2 less := by
  rw [(shm_release_eq _ less).1]
  by_cases hlast : less.holds = 0
  · rw [if_pos hlast]
    have hfree : (({ driver with mappings := mappings, useCount := useCount } : Driver).put
        less).free less = { driver.free old with mappings := mappings, useCount := useCount } := by
      simp only [Driver.free, Driver.put, Table.remove_put]
      rw [hsame.address, hsame.buf]
    rw [hfree]
    refine ⟨h.free hold ?_ (by omega), ?_⟩
    · intro mapping hmapping
      obtain ⟨hbefore, hvma⟩ := hmappings mapping hmapping
      refine ⟨hbefore, fun hbuf => ?_⟩
      have hmem := hvma hbuf
      rw [(Mbuff.holds_eq_zero.mp hlast).2.1] at hmem
      cases hmem
    · rw [if_pos hlast, hsame.address]
      rfl
  · rw [if_neg hlast]
    refine ⟨h.change hold hsame (Nat.pos_of_ne_zero hlast) ?_ huse le_rfl, (if_neg hlast).symm⟩
    intro mapping hmapping
    obtain ⟨hbefore, hvma⟩ := hmappings mapping hmapping
    by_cases hbuf : mapping.buf = old.buf
    · exact Or.inr ⟨hbuf.trans hsame.buf.symm, hvma hbuf⟩
    · exact Or.inl ⟨hbefore, fun hnew => hbuf (hnew.trans hsame.buf)⟩

/-- `DECR` and `MOD_DEC_USE_COUNT` go together. -/
theorem discount_eq (driver : Driver) (counter : Nat) :
    driver.discount counter =
      { driver with useCount := if 0 < counter then driver.useCount - 1 else driver.useCount } := by
  rw [Driver.discount]
  split <;> rfl

/-- Each area that is held is counted. -/
theorem Driver.Sound.holds_le (h : driver.Sound header reserved) {mbuff : Mbuff}
    (hmbuff : mbuff ∈ driver.mbuffList) : mbuff.holds ≤ driver.useCount := by
  have hsum := Table.sum_remove Mbuff.holds h.addresses hmbuff
  have huseCount := h.useCount
  omega

/-- `shm_deallocate` takes a module's share of an area away. -/
theorem Driver.Sound.shm_deallocate (h : driver.Sound header reserved) {buf : Nat} {old : Mbuff}
    (hfound : driver.lookupBuf buf = some old) :
    driver.Drops header reserved (driver.shmDeallocate buf).2
        { old with kcount := old.kcount - 1 } ∧
      (driver.shmDeallocate buf).2.files = driver.files := by
  have hold := (Table.lookup_some hfound).1
  have hle := h.holds_le hold
  rw [Driver.shmDeallocate, hfound]
  dsimp only
  have hsame : ({ old with kcount := old.kcount - 1 } : Mbuff).Same old := ⟨rfl, rfl, rfl, rfl⟩
  rw [discount_eq]
  refine ⟨h.drop hold hsame ?_ ?_, ?_⟩
  · exact fun mapping hmapping => ⟨hmapping, h.vma_mem hold hmapping⟩
  · simp only [Mbuff.holds] at hle ⊢
    split <;> omega
  · rw [(shm_release_eq _ _).1]
    split <;> rfl

/-- The part of `IOCTL_MBUFF_DEALLOCATE` before the file selects another area. -/
theorem Driver.Sound.ioctl_release (h : driver.Sound header reserved) {old : Mbuff}
    (hold : old ∈ driver.mbuffList) :
    let less : Mbuff := { old with count := old.count - 1 }
    driver.Drops header reserved (((driver.discount old.count).put less).shmRelease less).2 less ∧
      (((driver.discount old.count).put less).shmRelease less).2.files = driver.files := by
  intro less
  have hle := h.holds_le hold
  have hsame : less.Same old := ⟨rfl, rfl, rfl, rfl⟩
  rw [discount_eq]
  refine ⟨h.drop hold hsame ?_ ?_, ?_⟩
  · exact fun mapping hmapping => ⟨hmapping, h.vma_mem hold hmapping⟩
  · simp only [less, Mbuff.holds] at hle ⊢
    split <;> omega
  · rw [(shm_release_eq _ _).1]
    split <;> rfl

/-- `mb_close` takes a mapping away. -/
theorem Driver.Sound.unmap (h : driver.Sound header reserved) {vma : Nat} {old : Mbuff}
    (hfound : (driver.mbuffList.find? fun mbuff => vma ∈ mbuff.vmArea) = some old) :
    driver.Drops header reserved (driver.unmap vma) { old with vmArea := old.vmArea.erase vma } ∧
      (driver.unmap vma).files = driver.files := by
  have hold := List.mem_of_find?_eq_some hfound
  have hvma : vma ∈ old.vmArea := by simpa using List.find?_some hfound
  have hle := h.holds_le hold
  have hlength := List.length_erase_of_mem hvma
  have hpos := List.length_pos_of_mem hvma
  have hsame : ({ old with vmArea := old.vmArea.erase vma } : Mbuff).Same old :=
    ⟨rfl, rfl, rfl, rfl⟩
  -- the use count plays no part in a release, so that it may be lowered before
  have hunmap : driver.unmap vma = ((({ driver with
      mappings := Table.remove Mapping.vma vma driver.mappings
      useCount := driver.useCount - 1 } : Driver).put
        { old with vmArea := old.vmArea.erase vma }).shmRelease
          { old with vmArea := old.vmArea.erase vma }).2 := by
    rw [Driver.unmap]
    dsimp only
    rw [hfound]
    dsimp only
    rw [(shm_release_eq _ _).1, (shm_release_eq _ _).1]
    split <;> rfl
  rw [hunmap]
  refine ⟨h.drop hold hsame ?_ ?_, ?_⟩
  · intro mapping hmapping
    obtain ⟨hbefore, hne⟩ := Table.mem_remove.mp hmapping
    exact ⟨hbefore, fun hbuf => (List.mem_erase_of_ne hne).mpr (h.vma_mem hold hbefore hbuf)⟩
  · simp only [Mbuff.holds, hlength] at hle ⊢
    omega
  · rw [(shm_release_eq _ _).1]
    split <;> rfl

end FoosballTable.SharedMemory
