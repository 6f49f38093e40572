import FoosballTable.Library.Simulation
import FoosballTable.SharedMemory.Driver

/-!
# The accounts of the driver

What holds an area is what its counters and its `vm_area` say: the allocations of processes, those
of modules, and the mappings. `Driver.Sound` is the invariant: every area of the list is held, the
memory in use is that of the list, every mapping leads to memory in use, and the use count is that
of the open files and of all that holds an area. Every call is one of a few changes to the list,
and each change keeps the accounts (`Sound.change`, `Sound.add`, `Sound.free`).

A name that does not fit into its field is cut, so that two areas may have the same one. Names that
are `reserved` are those to which no allocation is cut: for them there is one area at most.
-/

namespace FoosballTable.SharedMemory

open Library

/-- How much holds an area. -/
def Mbuff.holds (mbuff : Mbuff) : Nat :=
  mbuff.count + mbuff.kcount + mbuff.vmArea.length

/-- The same area, whatever the counters are. -/
structure Mbuff.Same (mbuff other : Mbuff) : Prop where
  address : mbuff.address = other.address
  name : mbuff.name = other.name
  buf : mbuff.buf = other.buf
  size : mbuff.size = other.size

theorem Mbuff.Same.rfl {mbuff : Mbuff} : mbuff.Same mbuff :=
  ⟨Eq.refl _, Eq.refl _, Eq.refl _, Eq.refl _⟩

theorem Mbuff.Same.trans {first second third : Mbuff} (h : first.Same second)
    (h' : second.Same third) : first.Same third :=
  ⟨h.address.trans h'.address, h.name.trans h'.name, h.buf.trans h'.buf, h.size.trans h'.size⟩

/-- The accounts of the driver are in order. -/
structure Driver.Sound (header : MbuffH) (reserved : List Command.Byte → Prop) (driver : Driver) :
    Prop where
  addresses : (driver.mbuffList.map Mbuff.address).Nodup
  bufs : (driver.mbuffList.map Mbuff.buf).Nodup
  names : ∀ mbuff ∈ driver.mbuffList, ∀ other ∈ driver.mbuffList,
    reserved mbuff.name → other.name = mbuff.name → other = mbuff
  short : ∀ mbuff ∈ driver.mbuffList, mbuff.name.length < header.nameLen
  addressLt : ∀ mbuff ∈ driver.mbuffList, mbuff.address < driver.next
  bufLt : ∀ mbuff ∈ driver.mbuffList, mbuff.buf < driver.next
  held : ∀ mbuff ∈ driver.mbuffList, 0 < mbuff.holds
  mapped : ∀ mapping ∈ driver.mappings, ∃ mbuff ∈ driver.mbuffList,
    mbuff.buf = mapping.buf ∧ mapping.vma ∈ mbuff.vmArea
  memory : ∀ buf, buf ∈ driver.memory ↔ ∃ mbuff ∈ driver.mbuffList, mbuff.buf = buf
  files : (driver.files.map File.id).Nodup
  fileLt : ∀ file ∈ driver.files, file.id < driver.next
  useCount : driver.useCount = driver.files.length + (driver.mbuffList.map Mbuff.holds).sum

variable {header : MbuffH} {reserved : List Command.Byte → Prop} {driver : Driver}

theorem sound_init : Driver.init.Sound header reserved := by
  constructor <;> simp [Driver.init]

/-! ## Changes -/

/-- The memory of an area is mapped where its `vm_area` says. -/
theorem Driver.Sound.vma_mem (h : driver.Sound header reserved) {mbuff : Mbuff}
    (hmbuff : mbuff ∈ driver.mbuffList) {mapping : Mapping} (hmapping : mapping ∈ driver.mappings)
    (hbuf : mapping.buf = mbuff.buf) : mapping.vma ∈ mbuff.vmArea := by
  obtain ⟨other, hother, hsame, hvma⟩ := h.mapped mapping hmapping
  rwa [← Table.eq_of_key h.bufs hmbuff hother (hsame.trans hbuf)]

/-- The counters of an area change, and the use count with them. -/
theorem Driver.Sound.change (h : driver.Sound header reserved) {old new : Mbuff}
    (hold : old ∈ driver.mbuffList) (hsame : new.Same old) (hheld : 0 < new.holds)
    {mappings : List Mapping}
    (hmappings : ∀ mapping ∈ mappings, mapping ∈ driver.mappings ∧ mapping.buf ≠ new.buf ∨
      mapping.buf = new.buf ∧ mapping.vma ∈ new.vmArea)
    {useCount next : Nat} (huse : useCount + old.holds = driver.useCount + new.holds)
    (hnext : driver.next ≤ next) :
    ({ driver with
      mbuffList := Table.put Mbuff.address new driver.mbuffList
      mappings := mappings
      useCount := useCount
      next := next } : Driver).Sound header reserved := by
  have hmem : ∀ mbuff, mbuff ∈ Table.put Mbuff.address new driver.mbuffList ↔
      mbuff = new ∨ mbuff ∈ driver.mbuffList ∧ mbuff.address ≠ new.address :=
    fun mbuff => Table.mem_put hold hsame.address.symm
  have hfield : ∀ {β : Type} (field : Mbuff → β), field new = field old →
      (Table.put Mbuff.address new driver.mbuffList).map field = driver.mbuffList.map field := by
    intro β field hnew
    refine Table.map_put fun other hother hkey => ?_
    rw [Table.eq_of_key h.addresses hold hother (hkey.trans hsame.address), hnew]
  have hall : ∀ {property : Mbuff → Prop}, (∀ mbuff ∈ driver.mbuffList, property mbuff) →
      property new → ∀ mbuff ∈ Table.put Mbuff.address new driver.mbuffList, property mbuff := by
    intro property hrest hnew mbuff hmbuff
    rcases (hmem mbuff).mp hmbuff with rfl | ⟨hother, -⟩
    · exact hnew
    · exact hrest mbuff hother
  refine ⟨?_, ?_, ?_, ?_, ?_, ?_, ?_, ?_, ?_, h.files, ?_, ?_⟩
  · exact hfield Mbuff.address hsame.address ▸ h.addresses
  · exact hfield Mbuff.buf hsame.buf ▸ h.bufs
  · intro mbuff hmbuff other hother hreserved hname
    rcases (hmem mbuff).mp hmbuff with rfl | ⟨hlisted, hne⟩ <;>
      rcases (hmem other).mp hother with rfl | ⟨hlisted', hne'⟩
    · rfl
    · have hold' := h.names old hold other hlisted' (hsame.name ▸ hreserved)
        (hname.trans hsame.name)
      exact absurd ((congrArg Mbuff.address hold').trans hsame.address.symm) hne'
    · have hold' := h.names mbuff hlisted old hold hreserved (hsame.name.symm.trans hname)
      exact absurd ((congrArg Mbuff.address hold').symm.trans hsame.address.symm) hne
    · exact h.names mbuff hlisted other hlisted' hreserved hname
  · exact hall h.short (hsame.name ▸ h.short old hold)
  · exact hall (fun mbuff hmbuff => (h.addressLt mbuff hmbuff).trans_le hnext)
      (hsame.address ▸ (h.addressLt old hold).trans_le hnext)
  · exact hall (fun mbuff hmbuff => (h.bufLt mbuff hmbuff).trans_le hnext)
      (hsame.buf ▸ (h.bufLt old hold).trans_le hnext)
  · exact hall h.held hheld
  · intro mapping hmapping
    rcases hmappings mapping hmapping with ⟨hrest, hne⟩ | ⟨hbuf, hvma⟩
    · obtain ⟨mbuff, hmbuff, hsameBuf, hvma⟩ := h.mapped mapping hrest
      refine ⟨mbuff, (hmem mbuff).mpr (Or.inr ⟨hmbuff, fun haddress => hne ?_⟩), hsameBuf, hvma⟩
      rw [← hsameBuf, hsame.buf,
        Table.eq_of_key h.addresses hold hmbuff (haddress.trans hsame.address)]
    · exact ⟨new, (hmem new).mpr (Or.inl rfl), hbuf.symm, hvma⟩
  · intro buf
    have hbufs : ∀ list : List Mbuff,
        (∃ mbuff ∈ list, mbuff.buf = buf) ↔ buf ∈ list.map Mbuff.buf :=
      fun list => List.mem_map.symm
    rw [hbufs, hfield Mbuff.buf hsame.buf, ← hbufs]
    exact h.memory buf
  · exact fun file hfile => (h.fileLt file hfile).trans_le hnext
  · have hsum := Table.sum_put Mbuff.holds h.addresses hold hsame.address.symm
    have huseCount := h.useCount
    show useCount = driver.files.length +
      ((Table.put Mbuff.address new driver.mbuffList).map Mbuff.holds).sum
    omega

/-- An area that nothing holds any more is released, and all memory stays accounted for. -/
theorem Driver.Sound.free (h : driver.Sound header reserved) {old : Mbuff}
    (hold : old ∈ driver.mbuffList) {mappings : List Mapping}
    (hmappings : ∀ mapping ∈ mappings, mapping ∈ driver.mappings ∧ mapping.buf ≠ old.buf)
    {useCount : Nat} (huse : useCount + old.holds = driver.useCount) :
    ({ driver.free old with
      mappings := mappings
      useCount := useCount } : Driver).Sound header reserved := by
  have hmem : ∀ {mbuff}, mbuff ∈ Table.remove Mbuff.address old.address driver.mbuffList ↔
      mbuff ∈ driver.mbuffList ∧ mbuff.address ≠ old.address := Table.mem_remove
  have hother : ∀ {mbuff}, mbuff ∈ driver.mbuffList → mbuff.buf ≠ old.buf →
      mbuff ∈ Table.remove Mbuff.address old.address driver.mbuffList := by
    intro mbuff hmbuff hne
    refine hmem.mpr ⟨hmbuff, fun haddress => hne ?_⟩
    rw [Table.eq_of_key h.addresses hold hmbuff haddress]
  refine ⟨Table.nodup_map_remove h.addresses, Table.nodup_map_remove h.bufs,
    fun mbuff hmbuff other hother => h.names mbuff (hmem.mp hmbuff).1 other (hmem.mp hother).1,
    fun mbuff hmbuff => h.short mbuff (hmem.mp hmbuff).1,
    fun mbuff hmbuff => h.addressLt mbuff (hmem.mp hmbuff).1,
    fun mbuff hmbuff => h.bufLt mbuff (hmem.mp hmbuff).1,
    fun mbuff hmbuff => h.held mbuff (hmem.mp hmbuff).1, ?_, ?_, h.files, h.fileLt, ?_⟩
  · intro mapping hmapping
    obtain ⟨hmapped, hne⟩ := hmappings mapping hmapping
    obtain ⟨mbuff, hmbuff, hbuf, hvma⟩ := h.mapped mapping hmapped
    exact ⟨mbuff, hother hmbuff (hbuf.trans_ne hne), hbuf, hvma⟩
  · intro buf
    show buf ∈ driver.memory.erase old.buf ↔ _
    rw [Finset.mem_erase, h.memory]
    constructor
    · intro hbuf
      obtain ⟨hne, mbuff, hmbuff, rfl⟩ := hbuf
      exact ⟨mbuff, hother hmbuff hne, rfl⟩
    · intro hbuf
      obtain ⟨mbuff, hmbuff, rfl⟩ := hbuf
      obtain ⟨hlisted, hne⟩ := hmem.mp hmbuff
      refine ⟨fun hsame => hne ?_, mbuff, hlisted, rfl⟩
      rw [Table.eq_of_key h.bufs hold hlisted hsame]
  · have hsum := Table.sum_remove Mbuff.holds h.addresses hold
    have huseCount := h.useCount
    show useCount = driver.files.length +
      ((Table.remove Mbuff.address old.address driver.mbuffList).map Mbuff.holds).sum
    omega

/-- A new area with fresh memory is held once. A reserved name of it is new. -/
theorem Driver.Sound.add (h : driver.Sound header reserved) {new : Mbuff}
    (haddress : new.address = driver.next) (hbuf : new.buf = driver.next + 1)
    (hname : reserved new.name → ∀ mbuff ∈ driver.mbuffList, mbuff.name ≠ new.name)
    (hshort : new.name.length < header.nameLen) (hheld : new.holds = 1) :
    ({ driver with
      mbuffList := new :: driver.mbuffList
      useCount := driver.useCount + 1
      memory := insert new.buf driver.memory
      next := driver.next + 2 } : Driver).Sound header reserved := by
  have hfresh : ∀ {β : Type} (field : Mbuff → β), (∀ mbuff ∈ driver.mbuffList,
      field mbuff ≠ field new) → field new ∉ driver.mbuffList.map field := by
    intro β field hne hmem
    obtain ⟨mbuff, hmbuff, hsame⟩ := List.mem_map.mp hmem
    exact hne mbuff hmbuff hsame
  have hall : ∀ {property : Mbuff → Prop}, property new → (∀ mbuff ∈ driver.mbuffList,
      property mbuff) → ∀ mbuff ∈ new :: driver.mbuffList, property mbuff :=
    fun hnew hrest => List.forall_mem_cons.mpr ⟨hnew, hrest⟩
  have haddressLt := h.addressLt
  have hbufLt := h.bufLt
  have hlater : driver.next < driver.next + 2 := Nat.lt_add_of_pos_right Nat.two_pos
  refine ⟨List.nodup_cons.mpr ⟨hfresh Mbuff.address fun mbuff hmbuff hsame => ?_, h.addresses⟩,
    List.nodup_cons.mpr ⟨hfresh Mbuff.buf fun mbuff hmbuff hsame => ?_, h.bufs⟩,
    ?_, hall hshort h.short, hall ?_ fun mbuff hmbuff => (haddressLt mbuff hmbuff).trans hlater,
    hall ?_ fun mbuff hmbuff => (hbufLt mbuff hmbuff).trans hlater, hall (by omega) h.held, ?_, ?_,
    h.files, fun file hfile => (h.fileLt file hfile).trans hlater, ?_⟩
  · have hlt := haddressLt mbuff hmbuff
    omega
  · have hlt := hbufLt mbuff hmbuff
    omega
  · intro mbuff hmbuff other hother hreserved hsame
    rcases List.mem_cons.mp hmbuff with rfl | hlisted <;>
      rcases List.mem_cons.mp hother with rfl | hlisted'
    · rfl
    · exact absurd hsame (hname hreserved other hlisted')
    · exact absurd hsame.symm (hname (hsame ▸ hreserved) mbuff hlisted)
    · exact h.names mbuff hlisted other hlisted' hreserved hsame
  · show new.address < driver.next + 2
    omega
  · show new.buf < driver.next + 2
    omega
  · intro mapping hmapping
    obtain ⟨mbuff, hmbuff, hmapped⟩ := h.mapped mapping hmapping
    exact ⟨mbuff, List.mem_cons_of_mem new hmbuff, hmapped⟩
  · intro buf
    show buf ∈ insert new.buf driver.memory ↔ _
    rw [Finset.mem_insert, h.memory, List.exists_mem_cons_iff, eq_comm]
  · have huseCount := h.useCount
    show driver.useCount + 1 =
      driver.files.length + ((new :: driver.mbuffList).map Mbuff.holds).sum
    rw [List.map_cons, List.sum_cons, huseCount, hheld]
    omega

/-- A file is opened. -/
theorem Driver.Sound.open_file (h : driver.Sound header reserved) (address : Option Nat) :
    ({ driver with
      files := ⟨driver.next, address, 0⟩ :: driver.files
      useCount := driver.useCount + 1
      next := driver.next + 1 } : Driver).Sound header reserved := by
  have hlt : driver.next < driver.next + 1 := Nat.lt_succ_self _
  have hfresh : driver.next ∉ driver.files.map File.id := by
    intro hmem
    obtain ⟨file, hfile, hsame⟩ := List.mem_map.mp hmem
    exact (h.fileLt file hfile).ne hsame
  refine ⟨h.addresses, h.bufs, h.names, h.short,
    fun mbuff hmbuff => (h.addressLt mbuff hmbuff).trans hlt,
    fun mbuff hmbuff => (h.bufLt mbuff hmbuff).trans hlt, h.held, h.mapped, h.memory,
    List.nodup_cons.mpr ⟨hfresh, h.files⟩,
    List.forall_mem_cons.mpr ⟨hlt, fun file hfile => (h.fileLt file hfile).trans hlt⟩, ?_⟩
  show driver.useCount + 1 =
    driver.files.length + 1 + (driver.mbuffList.map Mbuff.holds).sum
  rw [h.useCount]
  omega

/-- A file is closed. -/
theorem Driver.Sound.close_file (h : driver.Sound header reserved) {file : File}
    (hfile : file ∈ driver.files) :
    ({ driver with
      files := Table.remove File.id file.id driver.files
      useCount := driver.useCount - 1 } : Driver).Sound header reserved := by
  refine ⟨h.addresses, h.bufs, h.names, h.short, h.addressLt, h.bufLt, h.held, h.mapped, h.memory,
    Table.nodup_map_remove h.files,
    fun other hother => h.fileLt other (Table.mem_remove.mp hother).1, ?_⟩
  have hlength := Table.length_remove h.files hfile
  have huseCount := h.useCount
  show driver.useCount - 1 = (Table.remove File.id file.id driver.files).length +
    (driver.mbuffList.map Mbuff.holds).sum
  omega

/-- A file selects another area, or is read from. -/
theorem Driver.Sound.put_file (h : driver.Sound header reserved) (file : File) :
    (driver.putFile file).Sound header reserved := by
  have hids : (driver.putFile file).files.map File.id = driver.files.map File.id :=
    Table.keys_put
  refine ⟨h.addresses, h.bufs, h.names, h.short, h.addressLt, h.bufLt, h.held, h.mapped, h.memory,
    hids ▸ h.files, fun other hother => ?_, ?_⟩
  · have hmem : other.id ∈ driver.files.map File.id := hids ▸ List.mem_map_of_mem hother
    obtain ⟨first, hfirst, hsame⟩ := List.mem_map.mp hmem
    exact hsame ▸ h.fileLt first hfirst
  · show driver.useCount = (Table.put File.id file driver.files).length + _
    rw [Table.length_put]
    exact h.useCount

end FoosballTable.SharedMemory
