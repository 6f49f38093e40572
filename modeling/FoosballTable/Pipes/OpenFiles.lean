import FoosballTable.Pipes.Lifetime

/-!
# Open files and memory of pipes

`Rtfs.Sound` is the invariant of all calls: the counters of pipes and modules are those of the open
files, a file is open only on a pipe that has been created and for the process that is its opener,
and every pipe that has been created has memory of its own. A call of a module writes the entry of
one pipe (`Rtfs.Writes`), and a call of a process leaves what modules have written (`Rtfs.Leaves`).
-/

namespace FoosballTable.Pipes

open Library

/-! ## Accounts of files -/

/-- The counters of pipes and modules are those of the open files, a pipe that is open has been
created and is open for its opener, and a pipe that has not been created has no handler. -/
structure Rtfs.Accounts (maxFifo : Nat) (rtfs : Rtfs) : Prop where
  ids : (rtfs.files.map RtfFile.id).Nodup
  idLt : ∀ file ∈ rtfs.files, file.id < rtfs.next
  userOpen : ∀ minor,
    (rtfs.fifos minor).userOpen = rtfs.files.countP fun file => file.minor = minor
  useCount : ∀ id,
    rtfs.useCount id = rtfs.files.countP fun file => (rtfs.fifos file.minor).creator = some id
  opener : ∀ file ∈ rtfs.files, (rtfs.fifos file.minor).allocated = true ∧
    (rtfs.fifos file.minor).opener = some file.process
  unused : ∀ minor, (rtfs.fifos minor).allocated = false →
    (rtfs.fifos minor).creator = none ∧ (rtfs.fifos minor).handler = none
  bound : ∀ minor, (rtfs.fifos minor).allocated = true → minor < maxFifo

variable {maxFifo minor : Nat} {rtfs next : Rtfs} {rtf : Rtf}

/-- A pipe with an open file is counted as open. -/
theorem Rtfs.Accounts.open_pos (h : rtfs.Accounts maxFifo) {file : RtfFile}
    (hfile : file ∈ rtfs.files) : 0 < (rtfs.fifos file.minor).userOpen := by
  rw [h.userOpen, List.countP_pos_iff]
  exact ⟨file, hfile, decide_eq_true rfl⟩

/-- A pipe that has not been created is not open. -/
theorem Rtfs.Accounts.closed (h : rtfs.Accounts maxFifo)
    (hunused : (rtfs.fifos minor).allocated = false) : (rtfs.fifos minor).userOpen = 0 := by
  rw [h.userOpen, List.countP_eq_zero]
  intro file hfile hminor
  obtain rfl := of_decide_eq_true hminor
  rw [(h.opener file hfile).1] at hunused
  cases hunused

/-- What a call that opens and releases nothing may write to the entry of a pipe. -/
structure Rtf.Change (maxFifo minor : Nat) (old rtf : Rtf) : Prop where
  userOpen : rtf.userOpen = old.userOpen
  keeps : old.userOpen ≠ 0 → rtf.allocated = old.allocated ∧ rtf.creator = old.creator ∧
    rtf.opener = old.opener
  unused : rtf.allocated = false → rtf.creator = none ∧ rtf.handler = none
  bound : rtf.allocated = true → minor < maxFifo

/-- The entry of one pipe is written, and the files and modules stay as they are. -/
structure Rtfs.Writes (rtfs : Rtfs) (minor : Nat) (rtf : Rtf) (next : Rtfs) : Prop where
  fifos : next.fifos = Function.update rtfs.fifos minor rtf
  files : next.files = rtfs.files
  useCount : next.useCount = rtfs.useCount
  loaded : next.loaded = rtfs.loaded
  next : rtfs.next ≤ next.next

theorem Rtfs.Writes.self (h : rtfs.Writes minor rtf next) : next.fifos minor = rtf := by
  rw [h.fifos]
  exact Function.update_self minor rtf rtfs.fifos

theorem Rtfs.Writes.other (h : rtfs.Writes minor rtf next) {other : Nat} (hother : other ≠ minor) :
    next.fifos other = rtfs.fifos other := by
  rw [h.fifos]
  exact Function.update_of_ne hother rtf rtfs.fifos

/-- Nothing is written. -/
theorem Rtfs.writes_rfl : rtfs.Writes minor (rtfs.fifos minor) rtfs :=
  ⟨(Function.update_eq_self minor rtfs.fifos).symm, rfl, rfl, rfl, le_rfl⟩

/-- An entry is written twice. -/
theorem Rtfs.Writes.trans {middle : Rtfs} {first second : Rtf}
    (h : rtfs.Writes minor first middle) (h' : middle.Writes minor second next) :
    rtfs.Writes minor second next where
  fifos := by
    rw [h'.fifos, h.fifos]
    exact Function.update_idem first second rtfs.fifos
  files := h'.files.trans h.files
  useCount := h'.useCount.trans h.useCount
  loaded := h'.loaded.trans h.loaded
  next := h.next.trans h'.next

/-- The accounts stay in order through such a call. -/
theorem Rtfs.Accounts.change (h : rtfs.Accounts maxFifo) (hwrites : rtfs.Writes minor rtf next)
    (hchange : (rtfs.fifos minor).Change maxFifo minor rtf) : next.Accounts maxFifo := by
  -- the entries of pipes with open files are as they were
  have hkeeps : ∀ file ∈ rtfs.files,
      (next.fifos file.minor).allocated = (rtfs.fifos file.minor).allocated ∧
        (next.fifos file.minor).creator = (rtfs.fifos file.minor).creator ∧
        (next.fifos file.minor).opener = (rtfs.fifos file.minor).opener := by
    intro file hfile
    by_cases hminor : file.minor = minor
    · subst hminor
      rw [hwrites.self]
      exact hchange.keeps (h.open_pos hfile).ne'
    · rw [hwrites.other hminor]
      exact ⟨rfl, rfl, rfl⟩
  constructor
  case ids =>
    rw [hwrites.files]
    exact h.ids
  case idLt =>
    rw [hwrites.files]
    exact fun file hfile => (h.idLt file hfile).trans_le hwrites.next
  case userOpen =>
    intro other
    rw [hwrites.files, ← h.userOpen other]
    by_cases hother : other = minor
    · rw [hother, hwrites.self]
      exact hchange.userOpen
    · rw [hwrites.other hother]
  case useCount =>
    intro id
    rw [hwrites.files, hwrites.useCount, h.useCount id]
    refine List.countP_congr fun file hfile => ?_
    rw [(hkeeps file hfile).2.1]
  case opener =>
    rw [hwrites.files]
    intro file hfile
    rw [(hkeeps file hfile).1, (hkeeps file hfile).2.2]
    exact h.opener file hfile
  case unused =>
    intro other
    by_cases hother : other = minor
    · rw [hother, hwrites.self]
      exact hchange.unused
    · rw [hwrites.other hother]
      exact h.unused other
  case bound =>
    intro other
    by_cases hother : other = minor
    · rw [hother, hwrites.self]
      exact hchange.bound
    · rw [hwrites.other hother]
      exact h.bound other

/-! ## Memory of pipes -/

/-- A pipe has memory of its own, which has not been given back. -/
def Rtfs.Owns (rtfs : Rtfs) (minor : Nat) : Prop :=
  ∃ base ∈ rtfs.memory, (rtfs.fifos minor).base = some base ∧
    ∀ other, other ≠ minor → (rtfs.fifos other).allocated = true →
      (rtfs.fifos other).base ≠ some base

/-- Every pipe that has been created has memory of its own. -/
structure Rtfs.Buffers (rtfs : Rtfs) : Prop where
  baseLt : ∀ base ∈ rtfs.memory, base < rtfs.next
  owns : ∀ minor, (rtfs.fifos minor).allocated = true → rtfs.Owns minor

/-- Nothing happens to the memory of pipes. -/
theorem Rtfs.Buffers.same (h : rtfs.Buffers)
    (hsame : ∀ other, (next.fifos other).allocated = (rtfs.fifos other).allocated ∧
      (next.fifos other).base = (rtfs.fifos other).base)
    (hmemory : next.memory = rtfs.memory) (hnext : rtfs.next ≤ next.next) : next.Buffers := by
  constructor
  case baseLt =>
    rw [hmemory]
    exact fun base hbase => (h.baseLt base hbase).trans_le hnext
  case owns =>
    intro other hother
    rw [(hsame other).1] at hother
    obtain ⟨base, hbase, hother, hown⟩ := h.owns other hother
    refine ⟨base, hmemory ▸ hbase, (hsame other).2.trans hother, fun third hthird hcreated => ?_⟩
    rw [(hsame third).1] at hcreated
    rw [(hsame third).2]
    exact hown third hthird hcreated

/-- A pipe gets new memory, and its old memory is given back, if it has been created. -/
theorem Rtfs.Buffers.renew (h : rtfs.Buffers) (hwrites : rtfs.Writes minor rtf next)
    (hbase : rtf.base = some rtfs.next)
    (hmemory : ∀ base, base ∈ next.memory ↔ base = rtfs.next ∨ base ∈ rtfs.memory ∧
      ((rtfs.fifos minor).allocated = true → (rtfs.fifos minor).base ≠ some base))
    (hnext : next.next = rtfs.next + 1) : next.Buffers ∧ next.Owns minor := by
  have hself := hwrites.self
  have hother : ∀ other, other ≠ minor → next.fifos other = rtfs.fifos other :=
    fun other hne => hwrites.other hne
  -- no other pipe has had the new memory
  have hfresh : ∀ other, other ≠ minor → (next.fifos other).allocated = true →
      (next.fifos other).base ≠ some rtfs.next := by
    intro other hne hcreated
    rw [hother other hne] at hcreated ⊢
    obtain ⟨base, hmem, hbase, -⟩ := h.owns other hcreated
    rw [hbase]
    exact fun hsame => (h.baseLt base hmem).ne (Option.some.inj hsame)
  have hminor : next.Owns minor :=
    ⟨rtfs.next, (hmemory _).mpr (Or.inl rfl), by rw [hself, hbase], hfresh⟩
  refine ⟨⟨fun base hmem => ?_, fun other hcreated => ?_⟩, hminor⟩
  · rw [hnext, Nat.lt_succ_iff]
    rcases (hmemory base).mp hmem with rfl | ⟨hold, -⟩
    · exact le_rfl
    · exact (h.baseLt base hold).le
  · by_cases hne : other = minor
    · rw [hne]
      exact hminor
    · have hcreatedBefore := hcreated
      rw [hother other hne] at hcreatedBefore
      obtain ⟨base, hmem, hbaseOther, hown⟩ := h.owns other hcreatedBefore
      refine ⟨base, (hmemory base).mpr (Or.inr ⟨hmem, hown minor (Ne.symm hne)⟩), ?_, ?_⟩
      · rw [hother other hne, hbaseOther]
      · intro third hthird hthirdCreated
        by_cases hthirdMinor : third = minor
        · rw [hthirdMinor, hself, hbase]
          exact fun hsame => (h.baseLt base hmem).ne' (Option.some.inj hsame)
        · rw [hother third hthirdMinor] at hthirdCreated ⊢
          exact hown third hthird hthirdCreated

/-- A pipe that has memory of its own is created. -/
theorem Rtfs.Buffers.create (h : rtfs.Buffers) (hown : rtfs.Owns minor)
    (hwrites : rtfs.Writes minor rtf next) (hbase : rtf.base = (rtfs.fifos minor).base)
    (hmemory : next.memory = rtfs.memory) : next.Buffers := by
  have hbases : ∀ other, (next.fifos other).base = (rtfs.fifos other).base := by
    intro other
    by_cases hne : other = minor
    · rw [hne, hwrites.self, hbase]
    · rw [hwrites.other hne]
  constructor
  case baseLt =>
    rw [hmemory]
    exact fun base hmem => (h.baseLt base hmem).trans_le hwrites.next
  case owns =>
    obtain ⟨base, hmem, hminor, hothers⟩ := hown
    intro other hcreated
    by_cases hne : other = minor
    · refine ⟨base, hmemory ▸ hmem, ?_, fun third hthird hthirdCreated => ?_⟩
      · rw [hbases, hne, hminor]
      · rw [hne] at hthird
        rw [hbases]
        rw [hwrites.other hthird] at hthirdCreated
        exact hothers third hthird hthirdCreated
    · have hcreatedBefore := hcreated
      rw [hwrites.other hne] at hcreatedBefore
      obtain ⟨held, hheld, hbaseOther, hownOther⟩ := h.owns other hcreatedBefore
      refine ⟨held, hmemory ▸ hheld, ?_, fun third hthird hthirdCreated => ?_⟩
      · rw [hbases, hbaseOther]
      · rw [hbases]
        by_cases hthirdMinor : third = minor
        · have hdistinct := hothers other hne hcreatedBefore
          rw [hthirdMinor, hminor, ← hbaseOther]
          exact hdistinct.symm
        · rw [hwrites.other hthirdMinor] at hthirdCreated
          exact hownOther third hthird hthirdCreated

/-- A pipe that has been created gives its memory back. -/
theorem Rtfs.Buffers.destroy (h : rtfs.Buffers) (hwrites : rtfs.Writes minor rtf next)
    (hcreated : (rtfs.fifos minor).allocated = true) (hallocated : rtf.allocated = false)
    (hmemory : ∀ base, base ∈ next.memory ↔
      base ∈ rtfs.memory ∧ (rtfs.fifos minor).base ≠ some base) : next.Buffers := by
  constructor
  case baseLt =>
    exact fun base hmem => (h.baseLt base ((hmemory base).mp hmem).1).trans_le hwrites.next
  case owns =>
    have hstays : ∀ other, (next.fifos other).allocated = true →
        other ≠ minor ∧ next.fifos other = rtfs.fifos other := by
      intro other hother
      have hne : other ≠ minor := by
        rintro rfl
        rw [hwrites.self, hallocated] at hother
        cases hother
      exact ⟨hne, hwrites.other hne⟩
    intro other hother
    obtain ⟨hne, hsame⟩ := hstays other hother
    rw [hsame] at hother
    obtain ⟨base, hmem, hbase, hown⟩ := h.owns other hother
    refine ⟨base, (hmemory base).mpr ⟨hmem, hown minor hne.symm hcreated⟩, ?_, ?_⟩
    · rw [hsame, hbase]
    · intro third hthird hthirdCreated
      have hthirdSame := (hstays third hthirdCreated).2
      rw [hthirdSame] at hthirdCreated ⊢
      exact hown third hthird hthirdCreated

/-! ## Calls of modules -/

/-- Files and memory are accounted for. -/
structure Rtfs.Sound (maxFifo : Nat) (rtfs : Rtfs) : Prop
    extends Rtfs.Accounts maxFifo rtfs, Rtfs.Buffers rtfs

theorem Rtfs.sound_init : Rtfs.init.Sound maxFifo := by
  constructor
  all_goals constructor <;> simp [Rtfs.init]

theorem Rtfs.vfree_of_mem {base : Nat} (h : base ∈ rtfs.memory) :
    rtfs.vfree (some base) = some { rtfs with memory := rtfs.memory.erase base } :=
  if_pos h

/-- The memory of a pipe that has been created is in use. -/
theorem Rtfs.Buffers.held (h : rtfs.Buffers) (hcreated : (rtfs.fifos minor).allocated = true) :
    ∃ base, (rtfs.fifos minor).base = some base ∧ base ∈ rtfs.memory := by
  obtain ⟨base, hmem, hbase, -⟩ := h.owns minor hcreated
  exact ⟨base, hbase, hmem⟩

/-- There is memory, and it may be asked for. -/
def Vmalloc.plenty : Vmalloc :=
  ⟨true, true⟩

/-- `rtf_resize` does nothing, or gives a pipe an empty buffer in memory of its own. -/
theorem Rtfs.Sound.resize (h : rtfs.Sound maxFifo) (minor : Nat) (size : Int) (vmalloc : Vmalloc) :
    ∃ result next, rtfs.rtfResize maxFifo minor size vmalloc = some (result, next) ∧
      next.Sound maxFifo ∧
      ((∃ errno, result = .error errno) ∧ next = rtfs ∧
          (0 < size → minor < maxFifo → vmalloc ≠ .plenty) ∨
        (∃ value, result = .ok value) ∧ next.Owns minor ∧ ∃ base,
          rtfs.Writes minor { rtfs.fifos minor with
            base := base
            buffer := ⟨size.toNat, Pipes.rtfCreate size.toNat⟩ } next) := by
  rw [Rtfs.rtfResize]
  by_cases hsize : size ≤ 0
  · rw [if_pos hsize]
    exact ⟨_, rtfs, rfl, h, Or.inl ⟨⟨_, rfl⟩, rfl, fun hpos => absurd hsize hpos.not_ge⟩⟩
  by_cases hminor : maxFifo ≤ minor
  · rw [if_neg hsize, if_pos hminor]
    exact ⟨_, rtfs, rfl, h, Or.inl ⟨⟨_, rfl⟩, rfl, fun _ hlt => absurd hminor hlt.not_ge⟩⟩
  by_cases hidle : vmalloc.idle = false
  · rw [if_neg hsize, if_neg hminor, if_pos hidle]
    refine ⟨_, rtfs, rfl, h, Or.inl ⟨⟨_, rfl⟩, rfl, fun _ _ hplenty => ?_⟩⟩
    rw [hplenty] at hidle
    cases hidle
  by_cases hmemory : vmalloc.memory = false
  · rw [if_neg hsize, if_neg hminor, if_neg hidle, if_pos hmemory]
    refine ⟨_, rtfs, rfl, h, Or.inl ⟨⟨_, rfl⟩, rfl, fun _ _ hplenty => ?_⟩⟩
    rw [hplenty] at hmemory
    cases hmemory
  rw [if_neg hsize, if_neg hminor, if_neg hidle, if_neg hmemory]
  dsimp only
  -- whatever becomes of the memory, the entry is written
  have hwrites : ∀ memory, rtfs.Writes minor { rtfs.fifos minor with
      base := some rtfs.next
      buffer := ⟨size.toNat, Pipes.rtfCreate size.toNat⟩ }
      { rtfs.renew minor size.toNat with memory := memory } :=
    fun _ => ⟨rfl, rfl, rfl, rfl, Nat.le_succ _⟩
  have hchange : (rtfs.fifos minor).Change maxFifo minor { rtfs.fifos minor with
      base := some rtfs.next
      buffer := ⟨size.toNat, Pipes.rtfCreate size.toNat⟩ } :=
    ⟨rfl, fun _ => ⟨rfl, rfl, rfl⟩, h.unused minor, h.bound minor⟩
  by_cases hcreated : (rtfs.fifos minor).allocated = true
  · obtain ⟨old, hold, hmem⟩ := h.held hcreated
    have hlt := h.baseLt old hmem
    rw [if_pos hcreated, hold, Rtfs.vfree]
    have hheld : old ∈ (rtfs.renew minor size.toNat).memory := Finset.mem_insert_of_mem hmem
    rw [if_pos hheld]
    have hrenew := h.renew (hwrites ((insert rtfs.next rtfs.memory).erase old)) rfl
      (fun base => by grind) rfl
    exact ⟨_, _, rfl, ⟨h.change (hwrites _) hchange, hrenew.1⟩,
      Or.inr ⟨⟨_, rfl⟩, hrenew.2, _, hwrites _⟩⟩
  · rw [if_neg hcreated]
    have hrenew := h.renew (hwrites (insert rtfs.next rtfs.memory)) rfl (fun base => by grind) rfl
    exact ⟨_, _, rfl, ⟨h.change (hwrites _) hchange, hrenew.1⟩,
      Or.inr ⟨⟨_, rfl⟩, hrenew.2, _, hwrites _⟩⟩

/-- The entry of a pipe that is destroyed. -/
def Rtf.destroyed (rtf : Rtf) : Rtf :=
  { rtf with allocated := false, creator := none, handler := none }

/-- `rtf_destroy` destroys a pipe that is not open. -/
theorem Rtfs.Sound.destroy (h : rtfs.Sound maxFifo) (minor : Nat) :
    ∃ result next, rtfs.rtfDestroy maxFifo minor = some (result, next) ∧ next.Sound maxFifo ∧
      rtfs.Writes minor (if (rtfs.fifos minor).userOpen = 0 then (rtfs.fifos minor).destroyed
        else rtfs.fifos minor) next := by
  rw [Rtfs.rtfDestroy]
  by_cases hcreated : (rtfs.fifos minor).allocated = true
  case neg =>
    -- there is nothing to destroy
    rw [Bool.not_eq_true] at hcreated
    have hsame : (rtfs.fifos minor).destroyed = rtfs.fifos minor := by
      obtain ⟨hcreator, hhandler⟩ := h.unused minor hcreated
      rw [Rtf.destroyed, ← hcreated, ← hcreator, ← hhandler]
    rw [hsame, ite_self]
    split
    · exact ⟨_, rtfs, rfl, h, Rtfs.writes_rfl⟩
    split
    · exact ⟨_, rtfs, rfl, h, Rtfs.writes_rfl⟩
    exact ⟨_, rtfs, rfl, h, Rtfs.writes_rfl⟩
  case pos =>
    rw [if_neg (h.bound minor hcreated).not_ge]
    by_cases hopen : (rtfs.fifos minor).userOpen = 0
    case neg =>
      rw [if_pos hopen, if_neg hopen]
      exact ⟨_, rtfs, rfl, h, Rtfs.writes_rfl⟩
    case pos =>
      obtain ⟨base, hbase, hmem⟩ := h.held hcreated
      have hvfree := Rtfs.vfree_of_mem hmem
      rw [← hbase] at hvfree
      rw [if_neg (not_not.mpr hopen), if_neg (by rw [hcreated]; decide), hvfree, if_pos hopen]
      have hmemory : ∀ other, other ∈ rtfs.memory.erase base ↔
          other ∈ rtfs.memory ∧ (rtfs.fifos minor).base ≠ some other := by
        intro other
        rw [Finset.mem_erase, hbase]
        grind
      have hwrites : rtfs.Writes minor (rtfs.fifos minor).destroyed
          { rtfs.set minor (rtfs.fifos minor).destroyed with memory := rtfs.memory.erase base } :=
        ⟨rfl, rfl, rfl, rfl, le_rfl⟩
      refine ⟨_, _, rfl, ⟨h.change hwrites ⟨rfl, fun hne => absurd hopen hne, fun _ => ⟨rfl, rfl⟩,
        fun hallocated => ?_⟩, ?_⟩, hwrites⟩
      · cases hallocated
      · exact h.toBuffers.destroy hwrites hcreated rfl hmemory

/-- `rtf_create` does nothing, or creates a pipe with an empty buffer. -/
theorem Rtfs.Sound.create (h : rtfs.Sound maxFifo) (minor : Nat) (size : Int) (creator : Creator)
    (vmalloc : Vmalloc) :
    ∃ result next, rtfs.rtfCreate maxFifo minor size creator vmalloc = some (result, next) ∧
      next.Sound maxFifo ∧
      (next = rtfs ∧ ((rtfs.fifos minor).allocated = false → 0 < size → minor < maxFifo →
          vmalloc ≠ .plenty) ∨
        (rtfs.fifos minor).allocated = false ∧ ∃ rtf, rtfs.Writes minor rtf next ∧
          rtf.allocated = true ∧ rtf.creator = some creator ∧ rtf.handler = none ∧
          rtf.buffer = ⟨size.toNat, Pipes.rtfCreate size.toNat⟩) := by
  rw [Rtfs.rtfCreate]
  split
  case isTrue hminor =>
    exact ⟨_, rtfs, rfl, h, Or.inl ⟨rfl, fun _ _ hlt => absurd hminor hlt.not_ge⟩⟩
  case isFalse hminor =>
    by_cases hcreated : (rtfs.fifos minor).allocated = true
    · rw [if_pos hcreated]
      refine ⟨_, rtfs, rfl, h, Or.inl ⟨rfl, fun hunused => ?_⟩⟩
      rw [hcreated] at hunused
      cases hunused
    · rw [if_neg hcreated]
      rw [Bool.not_eq_true] at hcreated
      obtain ⟨result, resized, hresize, hsound, hresized⟩ := h.resize minor size vmalloc
      rw [hresize]
      rcases hresized with ⟨⟨errno, rfl⟩, rfl, hfailed⟩ | ⟨⟨value, rfl⟩, hown, base, hwrites⟩
      · exact ⟨_, _, rfl, h, Or.inl ⟨rfl, fun _ => hfailed⟩⟩
      · have hself := hwrites.self
        have hwrites' : resized.Writes minor { resized.fifos minor with
            allocated := true
            creator := some creator
            userOpen := 0
            opener := none
            handler := none } (resized.set minor _) := ⟨rfl, rfl, rfl, rfl, le_rfl⟩
        have hclosed : (resized.fifos minor).userOpen = 0 :=
          hsound.closed (by rw [hself]; exact hcreated)
        refine ⟨_, _, rfl, ⟨hsound.change hwrites' ⟨hclosed.symm, fun hne => absurd hclosed hne,
          fun hunused => ?_, fun _ => Nat.lt_of_not_ge hminor⟩, ?_⟩,
          Or.inr ⟨hcreated, _, hwrites.trans hwrites', rfl, rfl, rfl, ?_⟩⟩
        · cases hunused
        · exact hsound.toBuffers.create hown hwrites' rfl rfl
        · rw [hself]

/-- `rtf_create_handler` gives a handler to a pipe that has been created. -/
theorem Rtfs.Sound.create_handler (h : rtfs.Sound maxFifo) (minor : Nat) (handler : RtfHandler) :
    (rtfs.rtfCreateHandler maxFifo minor handler).2.Sound maxFifo ∧
      rtfs.Writes minor (if (rtfs.fifos minor).allocated = true then
        { rtfs.fifos minor with handler := some handler } else rtfs.fifos minor)
        (rtfs.rtfCreateHandler maxFifo minor handler).2 := by
  rw [Rtfs.rtfCreateHandler]
  by_cases hcreated : (rtfs.fifos minor).allocated = true
  · have hminor := (h.bound minor hcreated).not_ge
    rw [if_neg (by simp [hcreated, hminor]), if_pos hcreated]
    have hwrites : rtfs.Writes minor { rtfs.fifos minor with handler := some handler }
        (rtfs.set minor { rtfs.fifos minor with handler := some handler }) :=
      ⟨rfl, rfl, rfl, rfl, le_rfl⟩
    refine ⟨⟨h.change hwrites
      ⟨rfl, fun _ => ⟨rfl, rfl, rfl⟩, fun hunused => ?_, h.bound minor⟩, ?_⟩,
      hwrites⟩
    · rw [hcreated] at hunused
      cases hunused
    · refine h.same (fun other => ?_) rfl le_rfl
      by_cases hne : other = minor
      · rw [hne, hwrites.self]
        exact ⟨rfl, rfl⟩
      · rw [hwrites.other hne]
        exact ⟨rfl, rfl⟩
  · rw [if_neg hcreated, if_pos (Or.inr (Bool.not_eq_true _ ▸ hcreated))]
    exact ⟨h, Rtfs.writes_rfl⟩

/-! ## Calls of processes -/

/-- A call of a process leaves alone what modules write to the entries of pipes. -/
structure Rtfs.Leaves (rtfs next : Rtfs) : Prop where
  allocated : ∀ minor, (next.fifos minor).allocated = (rtfs.fifos minor).allocated
  creator : ∀ minor, (next.fifos minor).creator = (rtfs.fifos minor).creator
  handler : ∀ minor, (next.fifos minor).handler = (rtfs.fifos minor).handler
  base : ∀ minor, (next.fifos minor).base = (rtfs.fifos minor).base
  loaded : next.loaded = rtfs.loaded
  memory : next.memory = rtfs.memory
  next : rtfs.next ≤ next.next

theorem Rtfs.leaves_rfl : rtfs.Leaves rtfs :=
  ⟨fun _ => rfl, fun _ => rfl, fun _ => rfl, fun _ => rfl, rfl, rfl, le_rfl⟩

/-- An entry is written in which only the opener and the counter change. -/
theorem Rtfs.leaves_set {opener : Option Nat} {userOpen : Nat}
    (hfifos : next.fifos = Function.update rtfs.fifos minor
      { rtfs.fifos minor with opener := opener, userOpen := userOpen })
    (hloaded : next.loaded = rtfs.loaded) (hmemory : next.memory = rtfs.memory)
    (hnext : rtfs.next ≤ next.next) : rtfs.Leaves next := by
  have hentry : ∀ other, next.fifos other = rtfs.fifos other ∨ other = minor ∧
      next.fifos other = { rtfs.fifos other with opener := opener, userOpen := userOpen } := by
    intro other
    rw [hfifos]
    by_cases hne : other = minor
    · rw [hne]
      exact Or.inr ⟨rfl, Function.update_self _ _ _⟩
    · exact Or.inl (Function.update_of_ne hne _ _)
  refine ⟨fun other => ?_, fun other => ?_, fun other => ?_, fun other => ?_, hloaded, hmemory,
    hnext⟩
  all_goals rcases hentry other with hsame | ⟨-, hwritten⟩
  all_goals first | rw [hsame] | rw [hwritten]

/-- The accounts that no file is part of. -/
theorem Rtfs.Leaves.unused (h : rtfs.Leaves next) (haccounts : rtfs.Accounts maxFifo) (minor : Nat)
    (hunused : (next.fifos minor).allocated = false) :
    (next.fifos minor).creator = none ∧ (next.fifos minor).handler = none := by
  rw [h.creator, h.handler]
  exact haccounts.unused minor (h.allocated minor ▸ hunused)

theorem Rtfs.Leaves.bound (h : rtfs.Leaves next) (haccounts : rtfs.Accounts maxFifo) (minor : Nat)
    (hcreated : (next.fifos minor).allocated = true) : minor < maxFifo :=
  haccounts.bound minor (h.allocated minor ▸ hcreated)

theorem Rtfs.Leaves.buffers (h : rtfs.Leaves next) (hbuffers : rtfs.Buffers) : next.Buffers :=
  hbuffers.same (fun minor => ⟨h.allocated minor, h.base minor⟩) h.memory h.next

/-- `rtf_open` adds a file of a process that has the pipe for itself. -/
theorem Rtfs.Sound.open_file (h : rtfs.Sound maxFifo) (minor process : Nat) :
    (rtfs.rtfOpen maxFifo minor process).2.Sound maxFifo ∧
      rtfs.Leaves (rtfs.rtfOpen maxFifo minor process).2 := by
  rw [Rtfs.rtfOpen]
  dsimp only
  split
  case isTrue => exact ⟨h, Rtfs.leaves_rfl⟩
  split
  case isTrue => exact ⟨h, Rtfs.leaves_rfl⟩
  split
  case isTrue => exact ⟨h, Rtfs.leaves_rfl⟩
  case isFalse _ hcreated hfree =>
    rw [Bool.not_eq_false] at hcreated
    dsimp only
    generalize hopened : ({ rtfs.set minor { rtfs.fifos minor with
        opener := some process
        userOpen := (rtfs.fifos minor).userOpen + 1 } with
      files := ⟨rtfs.next, minor, process⟩ :: rtfs.files
      useCount := fun id =>
        if (rtfs.fifos minor).creator = some id then rtfs.useCount id + 1 else rtfs.useCount id
      next := rtfs.next + 1 } : Rtfs) = opened
    have hfifos : opened.fifos = Function.update rtfs.fifos minor { rtfs.fifos minor with
        opener := some process
        userOpen := (rtfs.fifos minor).userOpen + 1 } := by
      rw [← hopened]
      rfl
    have hfiles : opened.files = ⟨rtfs.next, minor, process⟩ :: rtfs.files := by
      rw [← hopened]
    have huseCount : ∀ id, opened.useCount id =
        if (rtfs.fifos minor).creator = some id then rtfs.useCount id + 1
        else rtfs.useCount id := by
      rw [← hopened]
      exact fun _ => rfl
    have hleaves : rtfs.Leaves opened := by
      refine Rtfs.leaves_set hfifos ?_ ?_ ?_
      all_goals rw [← hopened]
      · rfl
      · rfl
      · exact Nat.le_succ _
    refine ⟨⟨?_, hleaves.buffers h.toBuffers⟩, hleaves⟩
    constructor
    case ids =>
      rw [hfiles, List.map_cons, List.nodup_cons]
      refine ⟨fun hmem => ?_, h.ids⟩
      obtain ⟨file, hfile, hid⟩ := List.mem_map.mp hmem
      exact (h.idLt file hfile).ne hid
    case idLt =>
      rw [hfiles, ← hopened]
      intro file hfile
      rcases List.mem_cons.mp hfile with rfl | hold
      · exact Nat.lt_succ_self _
      · exact (h.idLt file hold).trans (Nat.lt_succ_self _)
    case userOpen =>
      intro other
      rw [hfiles, hfifos, List.countP_cons, ← h.userOpen other]
      by_cases hother : other = minor
      · rw [hother, Function.update_self]
        simp
      · rw [Function.update_of_ne hother]
        simp [Ne.symm hother]
    case useCount =>
      intro id
      rw [huseCount, hfiles, List.countP_cons]
      simp only [hleaves.creator]
      rw [← h.useCount id]
      split <;> simp [*]
    case opener =>
      rw [hfiles]
      intro file hfile
      rw [hleaves.allocated]
      rcases List.mem_cons.mp hfile with rfl | hold
      · rw [hfifos, Function.update_self]
        exact ⟨hcreated, rfl⟩
      · obtain ⟨hallocated, hopener⟩ := h.opener file hold
        refine ⟨hallocated, ?_⟩
        rw [hfifos]
        by_cases hminor : file.minor = minor
        · -- the pipe was open, so it is the same process
          subst hminor
          rw [Function.update_self, ← hopener]
          exact (not_not.mp (not_and.mp hfree (h.open_pos hold).ne')).symm
        · rw [Function.update_of_ne hminor]
          exact hopener
    case unused => exact hleaves.unused h.toAccounts
    case bound => exact hleaves.bound h.toAccounts

/-- `rtf_release` takes a file away. -/
theorem Rtfs.Sound.release (h : rtfs.Sound maxFifo) {file : RtfFile} (hfile : file ∈ rtfs.files) :
    (rtfs.rtfRelease file).Sound maxFifo ∧ rtfs.Leaves (rtfs.rtfRelease file) := by
  have hfifos : (rtfs.rtfRelease file).fifos = Function.update rtfs.fifos file.minor
      { rtfs.fifos file.minor with userOpen := (rtfs.fifos file.minor).userOpen - 1 } := rfl
  have hfiles : (rtfs.rtfRelease file).files = Table.remove RtfFile.id file.id rtfs.files := rfl
  have hleaves : rtfs.Leaves (rtfs.rtfRelease file) := Rtfs.leaves_set hfifos rfl rfl le_rfl
  refine ⟨⟨?_, hleaves.buffers h.toBuffers⟩, hleaves⟩
  constructor
  case ids => exact Table.nodup_map_remove h.ids
  case idLt => exact fun other hother => h.idLt other (Table.mem_remove.mp hother).1
  case userOpen =>
    intro other
    have hcount := Table.countP_remove (fun file => file.minor = other) h.ids hfile
    rw [← h.userOpen other] at hcount
    rw [hfifos, hfiles]
    by_cases hother : other = file.minor
    · rw [hother, if_pos (decide_eq_true rfl)] at hcount
      rw [hother, Function.update_self]
      exact (Nat.eq_sub_of_add_eq hcount).symm
    · rw [Function.update_of_ne hother]
      simpa [Ne.symm hother] using hcount.symm
  case useCount =>
    intro id
    have hcount := Table.countP_remove
      (fun file => (rtfs.fifos file.minor).creator = some id) h.ids hfile
    rw [← h.useCount id] at hcount
    rw [hfiles]
    simp only [hleaves.creator]
    show (if (rtfs.fifos file.minor).creator = some id then _ else _) = _
    split <;> simp [*] at hcount <;> omega
  case opener =>
    intro other hother
    have hold := (Table.mem_remove.mp hother).1
    rw [hleaves.allocated]
    refine ⟨(h.opener other hold).1, ?_⟩
    rw [hfifos]
    by_cases hminor : other.minor = file.minor
    · rw [hminor, Function.update_self, ← hminor]
      exact (h.opener other hold).2
    · rw [Function.update_of_ne hminor]
      exact (h.opener other hold).2
  case unused => exact hleaves.unused h.toAccounts
  case bound => exact hleaves.bound h.toAccounts

end FoosballTable.Pipes
