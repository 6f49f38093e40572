import FoosballTable.Library.Runs
import FoosballTable.Library.Simulation
import FoosballTable.Pipes.OpenFiles

/-!
# Loading and unloading the module

Runs in which the module of `RTInit.c` is loaded and unloaded while other modules create and destroy
pipes and processes open and release them. `rtf_accounts` says that every run has a result and that
the accounts are always in order. No module looks at what the calls of `init_module` return, so that
it gives its handlers to pipes of other modules too, where they are open: `handlers_loaded_iff` says
exactly when a handler of the module is left behind, and `module_pipes` that none is while other
modules leave its pipes to it.
-/

namespace FoosballTable.Pipes

open Library

variable {maxFifo : Nat} {rtfs next : Rtfs}

/-- No two pipes of the module are the same. -/
theorem minor_inj {first second : Port} (h : first.minor = second.minor) : first = second := by
  cases first <;> cases second <;> first | rfl | cases h

/-- Files, use counts and modules stay as they are. -/
structure Rtfs.Keeps (rtfs next : Rtfs) : Prop where
  files : next.files = rtfs.files
  useCount : next.useCount = rtfs.useCount
  loaded : next.loaded = rtfs.loaded

theorem Rtfs.Keeps.trans {middle : Rtfs} (h : rtfs.Keeps middle) (h' : middle.Keeps next) :
    rtfs.Keeps next :=
  ⟨h'.files.trans h.files, h'.useCount.trans h.useCount, h'.loaded.trans h.loaded⟩

theorem Rtfs.Writes.keeps {minor : Nat} {rtf : Rtf} (h : rtfs.Writes minor rtf next) :
    rtfs.Keeps next :=
  ⟨h.files, h.useCount, h.loaded⟩

/-- The counter of a pipe stays as it is. -/
theorem Rtfs.Keeps.user_open (h : rtfs.Keeps next) (hbefore : rtfs.Sound maxFifo)
    (hafter : next.Sound maxFifo) (minor : Nat) :
    (next.fifos minor).userOpen = (rtfs.fifos minor).userOpen := by
  rw [hafter.userOpen, hbefore.userOpen, h.files]

/-- Destroying pipes one after the other destroys those that are not open. -/
theorem Rtfs.Sound.destroy_all (h : rtfs.Sound maxFifo) (ports : List Port) :
    ∃ next, ports.foldlM (fun (rtfs : Rtfs) port =>
        (rtfs.rtfDestroy maxFifo port.minor).map Prod.snd) rtfs = some next ∧
      next.Sound maxFifo ∧ rtfs.Keeps next ∧ ∀ minor, next.fifos minor =
        if minor ∈ ports.map Port.minor ∧ (rtfs.fifos minor).userOpen = 0 then
          (rtfs.fifos minor).destroyed
        else rtfs.fifos minor := by
  induction ports generalizing rtfs with
  | nil => exact ⟨rtfs, rfl, h, ⟨rfl, rfl, rfl⟩, fun minor => by simp⟩
  | cons port ports ih =>
      obtain ⟨result, first, hfirst, hsound, hwrites⟩ := h.destroy port.minor
      obtain ⟨next, hnext, hlast, hkeeps, hfifos⟩ := ih hsound
      refine ⟨next, ?_, hlast, hwrites.keeps.trans hkeeps, fun minor => ?_⟩
      · rw [List.foldlM_cons, hfirst]
        exact hnext
      · rw [hfifos, hwrites.keeps.user_open h hsound]
        by_cases hminor : minor = port.minor
        · rw [hminor, hwrites.self]
          by_cases hopen : (rtfs.fifos port.minor).userOpen = 0
          · rw [if_pos hopen, if_pos (c := _ ∈ (port :: ports).map Port.minor ∧ _)
              ⟨List.mem_cons_self, hopen⟩]
            split <;> rfl
          · rw [if_neg hopen, if_neg fun hand => hopen hand.2, if_neg fun hand => hopen hand.2]
        · rw [hwrites.other hminor]
          simp [hminor]

/-- The entry of a pipe after `init_module`. If there is a pipe, it has the handler of the module,
and its creator is the module, or the one it had if it was open. A pipe that was not open is there
with an empty buffer, if there is memory for it. -/
structure Rtf.Manned (maxFifo : Nat) (vmalloc : Vmalloc) (old rtf : Rtf) (port : Port) : Prop where
  handler : rtf.allocated = true → rtf.handler = some (.own port)
  creator : rtf.allocated = true →
    rtf.creator = some .foosLogicRT ∨ old.userOpen ≠ 0 ∧ rtf.creator = old.creator
  buffer : old.userOpen = 0 → port.minor < maxFifo → vmalloc = .plenty →
    rtf.allocated = true ∧ rtf.buffer = ⟨100, rtfCreate 100⟩

/-- `init_module` for one pipe. -/
theorem Rtfs.Sound.init_pipe (h : rtfs.Sound maxFifo) (vmalloc : Port → Vmalloc) (port : Port) :
    ∃ rtf next, rtfs.initPipe maxFifo vmalloc port = some next ∧ next.Sound maxFifo ∧
      rtfs.Writes port.minor rtf next ∧
      (rtfs.fifos port.minor).Manned maxFifo (vmalloc port) rtf port := by
  obtain ⟨result, first, hfirst, hsound, hwrites⟩ := h.destroy port.minor
  obtain ⟨result', second, hsecond, hsound', hcreated⟩ :=
    hsound.create port.minor 100 .foosLogicRT (vmalloc port)
  obtain ⟨hsound'', hwrites''⟩ := hsound'.create_handler port.minor (.own port)
  have hinit : rtfs.initPipe maxFifo vmalloc port =
      some (second.rtfCreateHandler maxFifo port.minor (.own port)).2 := by
    rw [Rtfs.initPipe, hfirst]
    show Option.map _ (first.rtfCreate maxFifo port.minor 100 .foosLogicRT (vmalloc port)) = _
    rw [hsecond]
    rfl
  have hself := hwrites.self
  rcases hcreated with ⟨rfl, hfailed⟩ | ⟨-, rtf, hwrites', hallocated, hcreator, -, hbuffer⟩
  · -- nothing was created: the pipe was open, or there is none
    refine ⟨_, _, hinit, hsound'', hwrites.trans hwrites'', ?_⟩
    rw [hself] at hfailed ⊢
    by_cases hopen : (rtfs.fifos port.minor).userOpen = 0
    · rw [if_pos hopen] at hfailed ⊢
      have hnone : (rtfs.fifos port.minor).destroyed.allocated = false := rfl
      rw [if_neg (by rw [hnone]; decide)]
      refine ⟨fun hthere => ?_, fun hthere => ?_, fun _ hminor hplenty => ?_⟩
      · cases hthere
      · cases hthere
      · exact absurd hplenty (hfailed rfl (by decide) hminor)
    · rw [if_neg hopen]
      constructor
      case handler =>
        intro hthere
        split at hthere
        case isTrue hbefore => rw [if_pos hbefore]
        case isFalse hbefore => exact absurd hthere hbefore
      case creator =>
        intro _
        right
        refine ⟨hopen, ?_⟩
        split <;> rfl
      case buffer => exact fun hclosed => absurd hclosed hopen
  · refine ⟨_, _, hinit, hsound'', (hwrites.trans hwrites').trans hwrites'', ?_⟩
    rw [hwrites'.self, if_pos hallocated]
    exact ⟨fun _ => rfl, fun _ => Or.inl hcreator, fun _ _ _ => ⟨hallocated, hbuffer⟩⟩

/-- `init_module`, for pipes one after the other. -/
theorem Rtfs.Sound.init_all (h : rtfs.Sound maxFifo) (vmalloc : Port → Vmalloc)
    {ports : List Port} (hports : ports.Nodup) :
    ∃ next, ports.foldlM (fun (rtfs : Rtfs) port => rtfs.initPipe maxFifo vmalloc port) rtfs =
        some next ∧
      next.Sound maxFifo ∧ rtfs.Keeps next ∧
      (∀ minor ∉ ports.map Port.minor, next.fifos minor = rtfs.fifos minor) ∧
      ∀ port ∈ ports,
        (rtfs.fifos port.minor).Manned maxFifo (vmalloc port) (next.fifos port.minor) port := by
  induction ports generalizing rtfs with
  | nil => exact ⟨rtfs, rfl, h, ⟨rfl, rfl, rfl⟩, fun _ _ => rfl, fun _ hport => by cases hport⟩
  | cons port ports ih =>
      obtain ⟨hport, hrest⟩ := List.nodup_cons.mp hports
      obtain ⟨rtf, first, hfirst, hsound, hwrites, hmanned⟩ := h.init_pipe vmalloc port
      obtain ⟨next, hnext, hlast, hkeeps, hothers, hpipes⟩ := ih hsound hrest
      refine ⟨next, ?_, hlast, hwrites.keeps.trans hkeeps, fun minor hminor => ?_,
        fun later hlater => ?_⟩
      · rw [List.foldlM_cons, hfirst]
        exact hnext
      · rw [List.map_cons, List.mem_cons, not_or] at hminor
        rw [hothers minor hminor.2, hwrites.other hminor.1]
      · rcases List.mem_cons.mp hlater with rfl | hmem
        · have hnot : later.minor ∉ ports.map Port.minor := fun hmem => by
            obtain ⟨other, hother, hminor⟩ := List.mem_map.mp hmem
            exact hport (minor_inj hminor ▸ hother)
          rw [hothers _ hnot, hwrites.self]
          exact hmanned
        · have hne : later.minor ≠ port.minor := fun hminor => hport (minor_inj hminor ▸ hmem)
          have hlaterManned := hpipes later hmem
          rw [hwrites.other hne] at hlaterManned
          exact hlaterManned

/-! ## One call -/

/-- The call of another module creates the pipe or gives it a handler. -/
def RtfCall.Takes (minor : Nat) : RtfCall → Prop
  | .create taken _ _ _ | .createHandler taken _ => taken = minor
  | .destroy _ | .resize _ _ _ | .openFile _ _ | .release _ | .insmod _ | .rmmod => False

/-- What becomes of the entry of a pipe through a call other than the loading or unloading of the
module: what modules have written stays, the pipe is destroyed, or another module takes it. -/
inductive RtfCall.Passes (call : RtfCall) (minor : Nat) (old rtf : Rtf) : Prop
  | stays (allocated : rtf.allocated = old.allocated) (creator : rtf.creator = old.creator)
      (handler : rtf.handler = old.handler)
  | destroyed (allocated : rtf.allocated = false)
  | taken (takes : call.Takes minor)
      (creator : rtf.creator = old.creator ∨ rtf.creator ≠ some .foosLogicRT)
      (handler : ∀ port, rtf.handler ≠ some (.own port))

/-- A call that writes one entry leaves the others alone. -/
theorem Rtfs.Writes.passes {call : RtfCall} {minor : Nat} {rtf : Rtf}
    (h : rtfs.Writes minor rtf next) (hpasses : call.Passes minor (rtfs.fifos minor) rtf)
    (other : Nat) : call.Passes other (rtfs.fifos other) (next.fifos other) := by
  by_cases hother : other = minor
  · rw [hother, h.self]
    exact hpasses
  · rw [h.other hother]
    exact .stays rfl rfl rfl

theorem Rtfs.Leaves.passes (h : rtfs.Leaves next) (call : RtfCall) (minor : Nat) :
    call.Passes minor (rtfs.fifos minor) (next.fifos minor) :=
  .stays (h.allocated minor) (h.creator minor) (h.handler minor)

/-- What a call does: it passes, it loads the module, or it unloads it. -/
inductive Rtfs.Outcome (maxFifo : Nat) (rtfs : Rtfs) (call : RtfCall) (next : Rtfs) : Prop
  | passes (refused : call = .rmmod → ¬ (rtfs.loaded = true ∧ rtfs.useCount .foosLogicRT = 0))
      (loaded : next.loaded = rtfs.loaded)
      (entries : ∀ minor, call.Passes minor (rtfs.fifos minor) (next.fifos minor))
  | loads (vmalloc : Port → Vmalloc) (insmod : call = .insmod vmalloc)
      (before : rtfs.loaded = false) (loaded : next.loaded = true)
      (others : ∀ minor ∉ Port.all.map Port.minor, next.fifos minor = rtfs.fifos minor)
      (ports : ∀ port,
        (rtfs.fifos port.minor).Manned maxFifo (vmalloc port) (next.fifos port.minor) port)
  | unloads (rmmod : call = .rmmod) (before : rtfs.loaded = true)
      (unused : rtfs.useCount .foosLogicRT = 0) (loaded : next.loaded = false)
      (entries : ∀ minor, next.fifos minor =
        if minor ∈ Port.all.map Port.minor ∧ (rtfs.fifos minor).userOpen = 0 then
          (rtfs.fifos minor).destroyed
        else rtfs.fifos minor)

/-- Whether the module is loaded is no part of the accounts. -/
theorem Rtfs.Sound.with_loaded (h : rtfs.Sound maxFifo) (loaded : Bool) :
    ({ rtfs with loaded := loaded } : Rtfs).Sound maxFifo :=
  ⟨⟨h.ids, h.idLt, h.userOpen, h.useCount, h.opener, h.unused, h.bound⟩, ⟨h.baseLt, h.owns⟩⟩

theorem Port.mem_all (port : Port) : port ∈ Port.all := by
  cases port <;> decide

/-- Every call has a result, and keeps the accounts. -/
theorem Rtfs.Sound.step (h : rtfs.Sound maxFifo) (call : RtfCall) :
    ∃ next, rtfs.step maxFifo call = some next ∧ next.Sound maxFifo ∧
      Rtfs.Outcome maxFifo rtfs call next := by
  have hsame : ∀ minor, call.Passes minor (rtfs.fifos minor) (rtfs.fifos minor) :=
    fun _ => .stays rfl rfl rfl
  cases call with
  | create minor size id vmalloc =>
      obtain ⟨result, next, hnext, hsound, hcreated⟩ := h.create minor size (.other id) vmalloc
      refine ⟨next, by rw [Rtfs.step, hnext]; rfl, hsound, ?_⟩
      rcases hcreated with ⟨rfl, -⟩ | ⟨-, rtf, hwrites, -, hcreator, hhandler, -⟩
      · exact .passes (fun hcall => by cases hcall) rfl hsame
      · refine .passes (fun hcall => by cases hcall) hwrites.loaded
          (hwrites.passes (.taken rfl (Or.inr fun hown => ?_) fun port hport => ?_))
        · rw [hcreator] at hown
          cases hown
        · rw [hhandler] at hport
          cases hport
  | destroy minor =>
      obtain ⟨result, next, hnext, hsound, hwrites⟩ := h.destroy minor
      refine ⟨next, by rw [Rtfs.step, hnext]; rfl, hsound,
        .passes (fun hcall => by cases hcall) hwrites.loaded (hwrites.passes ?_)⟩
      split
      · exact .destroyed rfl
      · exact .stays rfl rfl rfl
  | resize minor size vmalloc =>
      obtain ⟨result, next, hnext, hsound, hresized⟩ := h.resize minor size vmalloc
      refine ⟨next, by rw [Rtfs.step, hnext]; rfl, hsound, ?_⟩
      rcases hresized with ⟨-, rfl, -⟩ | ⟨-, -, base, hwrites⟩
      · exact .passes (fun hcall => by cases hcall) rfl hsame
      · exact .passes (fun hcall => by cases hcall) hwrites.loaded
          (hwrites.passes (.stays rfl rfl rfl))
  | createHandler minor entry =>
      obtain ⟨hsound, hwrites⟩ := h.create_handler minor (.other entry)
      refine ⟨_, rfl, hsound, .passes (fun hcall => by cases hcall) hwrites.loaded
        (hwrites.passes ?_)⟩
      split
      · refine .taken rfl (Or.inl rfl) fun port hport => ?_
        cases hport
      · exact .stays rfl rfl rfl
  | openFile minor process =>
      obtain ⟨hsound, hleaves⟩ := h.open_file minor process
      exact ⟨_, rfl, hsound, .passes (fun hcall => by cases hcall) hleaves.loaded
        (hleaves.passes _)⟩
  | release id =>
      rw [Rtfs.step]
      split
      case h_1 file hfound =>
        obtain ⟨hsound, hleaves⟩ := h.release (Table.lookup_some hfound).1
        exact ⟨_, rfl, hsound, .passes (fun hcall => by cases hcall) hleaves.loaded
        (hleaves.passes _)⟩
      case h_2 => exact ⟨rtfs, rfl, h, .passes (fun hcall => by cases hcall) rfl hsame⟩
  | insmod vmalloc =>
      rw [Rtfs.step]
      split
      case isTrue => exact ⟨rtfs, rfl, h, .passes (fun hcall => by cases hcall) rfl hsame⟩
      case isFalse hloaded =>
        obtain ⟨next, hnext, hsound, -, hothers, hports⟩ :=
          h.init_all vmalloc (by decide : Port.all.Nodup)
        rw [Rtfs.initModule, hnext]
        exact ⟨_, rfl, hsound.with_loaded true,
          .loads vmalloc rfl (Bool.not_eq_true _ ▸ hloaded) rfl hothers
          fun port => hports port port.mem_all⟩
  | rmmod =>
      rw [Rtfs.step]
      split
      case isTrue hunloads =>
        obtain ⟨next, hnext, hsound, -, hfifos⟩ := h.destroy_all Port.all
        rw [Rtfs.cleanupModule, hnext]
        exact ⟨_, rfl, hsound.with_loaded false, .unloads rfl hunloads.1 hunloads.2 rfl hfifos⟩
      case isFalse hrefused => exact ⟨rtfs, rfl, h, .passes (fun _ => hrefused) rfl hsame⟩

/-- Loaded while none of its pipes is open, and with memory for them, the module has the pipes that
`Device.init` starts from, with its handlers. -/
theorem insmod_creates (h : rtfs.Sound maxFifo) (hunloaded : rtfs.loaded = false)
    (hmaxFifo : 9 < maxFifo) (hclosed : ∀ port : Port, (rtfs.fifos port.minor).userOpen = 0) :
    ∃ next, rtfs.step maxFifo (.insmod fun _ => .plenty) = some next ∧ ∀ port : Port,
      (next.fifos port.minor).handler = some (.own port) ∧
      (next.fifos port.minor).creator = some .foosLogicRT ∧
      (next.fifos port.minor).buffer = ⟨100, Pipe.create.fifo⟩ := by
  obtain ⟨next, hnext, -, -, -, hports⟩ :=
    h.init_all (fun _ => .plenty) (by decide : Port.all.Nodup)
  refine ⟨{ next with loaded := true }, ?_, fun port => ?_⟩
  · rw [Rtfs.step, if_neg (by rw [hunloaded]; decide), Rtfs.initModule, hnext]
    rfl
  · have hminor : port.minor < maxFifo := by
      cases port <;> exact lt_of_le_of_lt (by decide) hmaxFifo
    have hmanned := hports port port.mem_all
    obtain ⟨hallocated, hbuffer⟩ := hmanned.buffer (hclosed port) hminor rfl
    refine ⟨hmanned.handler hallocated, ?_, hbuffer⟩
    rcases hmanned.creator hallocated with hcreator | ⟨hopen, -⟩
    · exact hcreator
    · exact absurd (hclosed port) hopen

/-! ## Accounts -/

/-- In every run of modules and processes, no memory is given back twice, the counter of a pipe and
the use count of a module are those of the open files, a file is open only on a pipe that has been
created, all files of a pipe are of one process, and a pipe that has been created has memory of its
own. -/
theorem rtf_accounts (maxFifo : Nat) (calls : List RtfCall) :
    ∃ rtfs, calls.foldlM (Rtfs.step maxFifo) Rtfs.init = some rtfs ∧
      (∀ minor, (rtfs.fifos minor).userOpen =
        rtfs.files.countP fun file => file.minor = minor) ∧
      (∀ creator, rtfs.useCount creator =
        rtfs.files.countP fun file => (rtfs.fifos file.minor).creator = some creator) ∧
      (∀ file ∈ rtfs.files, (rtfs.fifos file.minor).allocated = true) ∧
      (∀ first ∈ rtfs.files, ∀ second ∈ rtfs.files, first.minor = second.minor →
        first.process = second.process) ∧
      ∀ minor, (rtfs.fifos minor).allocated = true → ∃ base ∈ rtfs.memory,
        (rtfs.fifos minor).base = some base ∧ ∀ other, other ≠ minor →
          (rtfs.fifos other).allocated = true → (rtfs.fifos other).base ≠ some base := by
  have hstep : ∀ (rtfs : Rtfs) (call : RtfCall), True → rtfs.Sound maxFifo →
      ∃ next, rtfs.step maxFifo call = some next ∧ next.Sound maxFifo := by
    intro rtfs call _ h
    obtain ⟨next, hnext, hsound, -⟩ := h.step call
    exact ⟨next, hnext, hsound⟩
  obtain ⟨rtfs, hrun, h⟩ :=
    foldlM_total hstep Rtfs.sound_init fun call (_ : call ∈ calls) => trivial
  refine ⟨rtfs, hrun, h.userOpen, h.useCount, fun file hfile => (h.opener file hfile).1,
    fun first hfirst second hsecond hminor => ?_, h.owns⟩
  have hopener := (h.opener first hfirst).2
  rw [hminor, (h.opener second hsecond).2] at hopener
  exact (Option.some.inj hopener).symm

/-! ## Handlers of a module that is gone -/

/-- A pipe has a handler of the module only while the module is loaded. -/
def Rtfs.Callable (rtfs : Rtfs) : Prop :=
  ∀ minor port, (rtfs.fifos minor).handler = some (.own port) → rtfs.loaded = true

/-- Only the pipes of `init_module` have its handlers, each one its own. -/
def Rtfs.InPlace (rtfs : Rtfs) : Prop :=
  ∀ minor port, (rtfs.fifos minor).handler = some (.own port) → minor = port.minor

/-- The module is unloaded while a pipe that has its handler is open. -/
def RtfCall.strands (call : RtfCall) (rtfs : Rtfs) : Bool :=
  match call with
  | .rmmod =>
      rtfs.loaded && decide (rtfs.useCount .foosLogicRT = 0) && Port.all.any fun port =>
        decide ((rtfs.fifos port.minor).handler = some (.own port)) &&
          decide ((rtfs.fifos port.minor).userOpen ≠ 0)
  | .create _ _ _ _ | .destroy _ | .resize _ _ _ | .createHandler _ _ | .openFile _ _ | .release _
    | .insmod _ => false

/-- A call that passes gives no pipe a handler of the module. -/
theorem RtfCall.Passes.handler {call : RtfCall} {minor : Nat} {old rtf : Rtf}
    (h : call.Passes minor old rtf) (hunused : rtf.allocated = false → rtf.handler = none)
    {port : Port} (hport : rtf.handler = some (.own port)) :
    old.handler = some (.own port) := by
  cases h with
  | stays _ _ hhandler => rw [← hhandler, hport]
  | destroyed hallocated =>
      rw [hunused hallocated] at hport
      cases hport
  | taken _ _ hhandler => exact absurd hport (hhandler port)

/-- Handlers stay in place. -/
theorem Rtfs.Outcome.in_place {call : RtfCall} (h : Rtfs.Outcome maxFifo rtfs call next)
    (hsound : next.Sound maxFifo) (hplace : rtfs.InPlace) : next.InPlace := by
  intro minor port hport
  have hunused : (next.fifos minor).allocated = false → (next.fifos minor).handler = none :=
    fun hallocated => (hsound.unused minor hallocated).2
  cases h with
  | passes _ _ hentries => exact hplace minor port ((hentries minor).handler hunused hport)
  | loads _ _ _ _ hothers hports =>
      by_cases hminor : minor ∈ Port.all.map Port.minor
      · obtain ⟨other, -, rfl⟩ := List.mem_map.mp hminor
        have hcreated : (next.fifos other.minor).allocated = true := by
          by_contra hnot
          rw [hunused (Bool.not_eq_true _ ▸ hnot)] at hport
          cases hport
        rw [(hports other).handler hcreated] at hport
        obtain rfl := RtfHandler.own.inj (Option.some.inj hport)
        rfl
      · rw [hothers minor hminor] at hport
        exact hplace minor port hport
  | unloads _ _ _ _ hentries =>
      rw [hentries minor] at hport
      split at hport
      · cases hport
      · exact hplace minor port hport

/-- A call leaves a handler behind exactly when it unloads the module while a pipe that has the
handler is open. -/
theorem Rtfs.Outcome.callable_iff {call : RtfCall} (h : Rtfs.Outcome maxFifo rtfs call next)
    (hsound : next.Sound maxFifo) (hplace : rtfs.InPlace) (hcallable : rtfs.Callable) :
    next.Callable ↔ call.strands rtfs = false := by
  have hunused : ∀ minor, (next.fifos minor).allocated = false →
      (next.fifos minor).handler = none :=
    fun minor hallocated => (hsound.unused minor hallocated).2
  cases h with
  | passes hrefused hloaded hentries =>
      refine iff_of_true (fun minor port hport => ?_) ?_
      · rw [hloaded]
        exact hcallable minor port ((hentries minor).handler (hunused minor) hport)
      · cases call with
        | rmmod =>
            rw [← Bool.not_eq_true, RtfCall.strands]
            simp only [Bool.and_eq_true, decide_eq_true_eq]
            exact fun hunloads => hrefused rfl hunloads.1
        | create | destroy | resize | createHandler | openFile | release | insmod => rfl
  | loads _ hcall _ hloaded _ _ =>
      rw [hcall]
      exact iff_of_true (fun _ _ _ => hloaded) rfl
  | unloads hcall hbefore hcount hloaded hentries =>
      subst hcall
      rw [← Bool.not_eq_true, RtfCall.strands]
      simp only [Bool.and_eq_true, decide_eq_true_eq, List.any_eq_true, hbefore, hcount, true_and]
      constructor
      · rintro hnext ⟨port, -, hport, hopen⟩
        have hentry := hentries port.minor
        rw [if_neg fun hand => hopen hand.2] at hentry
        rw [← hentry] at hport
        have hstays := hnext port.minor port hport
        rw [hloaded] at hstays
        cases hstays
      · intro hnone minor port hport
        rw [hentries minor] at hport
        split at hport
        case isTrue => cases hport
        case isFalse hkept =>
          obtain rfl := hplace minor port hport
          refine absurd ⟨port, port.mem_all, hport, fun hclosed => hkept ?_⟩ hnone
          exact ⟨List.mem_map_of_mem port.mem_all, hclosed⟩

/-- In every run, a pipe has a handler of the module only while the module is loaded, at every
point, exactly when the module is never unloaded while a pipe that has its handler is open. -/
theorem handlers_loaded_iff (maxFifo : Nat) (calls : List RtfCall) :
    Throughout (failing (Rtfs.step maxFifo)) (fun state => ∃ rtfs, state = some rtfs ∧
        rtfs.Callable) (some Rtfs.init) calls ↔
      Along (failing (Rtfs.step maxFifo))
        (fun state call => state.any call.strands = false) (some Rtfs.init) calls := by
  have hinv : ∀ (rtfs : Rtfs) (call : RtfCall) (next : Rtfs), True →
      rtfs.Sound maxFifo ∧ rtfs.InPlace → rtfs.step maxFifo call = some next →
      next.Sound maxFifo ∧ next.InPlace := by
    rintro rtfs call next - ⟨h, hplace⟩ hstep
    obtain ⟨_, hnext, hsound, houtcome⟩ := h.step call
    rw [hstep] at hnext
    obtain rfl := Option.some.inj hnext
    exact ⟨hsound, houtcome.in_place hsound hplace⟩
  have hexact : ∀ (rtfs : Rtfs) (call : RtfCall), True → rtfs.Sound maxFifo ∧ rtfs.InPlace →
      rtfs.Callable → ((∃ next, rtfs.step maxFifo call = some next ∧ next.Callable) ↔
        call.strands rtfs = false) := by
    rintro rtfs call - ⟨h, hplace⟩ hcallable
    obtain ⟨next, hnext, hsound, houtcome⟩ := h.step call
    rw [← houtcome.callable_iff hsound hplace hcallable, hnext]
    simp
  exact throughout_some_iff_along hinv hexact
    ⟨Rtfs.sound_init, fun _ _ hport => by cases hport⟩ (fun _ _ hport => by cases hport)
    fun _ _ => trivial

/-- Another module has created the pipe of commands, and a process has it open, when the module of
`RTInit.c` is loaded and unloaded. -/
def foreignPipe : List RtfCall :=
  [.create 7 100 1 .plenty, .openFile 7 1, .insmod fun _ => .plenty, .rmmod]

/-- The other module's pipe is left with a handler of the module. -/
theorem foreign_pipe_strands :
    ¬ Throughout (failing (Rtfs.step 64)) (fun state => ∃ rtfs, state = some rtfs ∧
        rtfs.Callable) (some Rtfs.init) foreignPipe := by
  rw [handlers_loaded_iff 64 foreignPipe]
  decide

/-! ## A module that has its pipes to itself -/

/-- Other modules do not take the pipes of the module. -/
def RtfCall.Elsewhere (call : RtfCall) : Prop :=
  ∀ port : Port, ¬ call.Takes port.minor

/-- The pipes of the module are created by it and have its handlers, while it is loaded. -/
structure Rtfs.Served (rtfs : Rtfs) : Prop where
  ports : ∀ port : Port, (rtfs.fifos port.minor).allocated = true → rtfs.loaded = true ∧
    (rtfs.fifos port.minor).creator = some .foosLogicRT ∧
    (rtfs.fifos port.minor).handler = some (.own port)
  others : ∀ minor, (rtfs.fifos minor).creator = some .foosLogicRT → ∃ port : Port,
    port.minor = minor

/-- Every call that does not take a pipe of the module leaves it served. -/
theorem Rtfs.Outcome.served {call : RtfCall} (h : Rtfs.Outcome maxFifo rtfs call next)
    (hbefore : rtfs.Sound maxFifo) (hsound : next.Sound maxFifo) (hcall : call.Elsewhere)
    (hserved : rtfs.Served) : next.Served := by
  cases h with
  | passes _ hloaded hentries =>
      constructor
      · intro port hcreated
        rw [hloaded]
        cases hentries port.minor with
        | stays hallocated hcreator hhandler =>
            rw [hcreator, hhandler]
            exact hserved.ports port (hallocated ▸ hcreated)
        | destroyed hallocated =>
            rw [hallocated] at hcreated
            cases hcreated
        | taken htakes _ _ => exact absurd htakes (hcall port)
      · intro minor hcreator
        cases hentries minor with
        | stays _ hsame _ => exact hserved.others minor (hsame ▸ hcreator)
        | destroyed hallocated =>
            rw [(hsound.unused minor hallocated).1] at hcreator
            cases hcreator
        | taken _ hother _ =>
            rcases hother with hsame | hne
            · exact hserved.others minor (hsame ▸ hcreator)
            · exact absurd hcreator hne
  | loads _ _ hunloaded hloaded hothers hports =>
      constructor
      · intro port hcreated
        refine ⟨hloaded, ?_, (hports port).handler hcreated⟩
        rcases (hports port).creator hcreated with hcreator | ⟨hopen, -⟩
        · exact hcreator
        · -- no pipe was there, so none was open
          have hnone : (rtfs.fifos port.minor).allocated = false := by
            rw [← Bool.not_eq_true]
            intro hthere
            rw [(hserved.ports port hthere).1] at hunloaded
            cases hunloaded
          exact absurd (hbefore.closed hnone) hopen
      · intro minor hcreator
        by_cases hminor : minor ∈ Port.all.map Port.minor
        · obtain ⟨port, -, hport⟩ := List.mem_map.mp hminor
          exact ⟨port, hport⟩
        · rw [hothers minor hminor] at hcreator
          exact hserved.others minor hcreator
  | unloads _ _ hcount _ hentries =>
      -- the module can be unloaded, so its pipes are closed
      have hclosed : ∀ port : Port, (next.fifos port.minor).allocated = false := by
        intro port
        rw [hentries port.minor]
        by_cases hthere : (rtfs.fifos port.minor).allocated = true
        · have hopen : (rtfs.fifos port.minor).userOpen = 0 := by
            rw [hbefore.userOpen, List.countP_eq_zero]
            intro file hfile hminor
            have hcreator := (hserved.ports port hthere).2.1
            rw [← of_decide_eq_true hminor] at hcreator
            rw [hbefore.useCount, List.countP_eq_zero] at hcount
            exact hcount file hfile (decide_eq_true hcreator)
          rw [if_pos ⟨List.mem_map_of_mem port.mem_all, hopen⟩]
          rfl
        · split
          · rfl
          · exact Bool.not_eq_true _ ▸ hthere
      constructor
      · intro port hcreated
        rw [hclosed port] at hcreated
        cases hcreated
      · intro minor hcreator
        rw [hentries minor] at hcreator
        split at hcreator
        · cases hcreator
        · exact hserved.others minor hcreator

/-- In every run in which no other module creates the pipes 7, 8 and 9 or gives them handlers: each
of them is there only while the module is loaded, and then has its handler; the use count of the
module is that of the open files of the three, so that it cannot be unloaded while a process has one
of them open; and no pipe has a handler of the module while it is not loaded. -/
theorem module_pipes (maxFifo : Nat) (calls : List RtfCall)
    (hcalls : ∀ call ∈ calls, call.Elsewhere) :
    ∃ rtfs, calls.foldlM (Rtfs.step maxFifo) Rtfs.init = some rtfs ∧
      (∀ port : Port, (rtfs.fifos port.minor).allocated = true → rtfs.loaded = true ∧
        (rtfs.fifos port.minor).handler = some (.own port)) ∧
      rtfs.useCount .foosLogicRT =
        rtfs.files.countP (fun file => file.minor ∈ Port.all.map Port.minor) ∧
      rtfs.Callable := by
  have hstep : ∀ (rtfs : Rtfs) (call : RtfCall), call.Elsewhere →
      rtfs.Sound maxFifo ∧ rtfs.InPlace ∧ rtfs.Served → ∃ next,
        rtfs.step maxFifo call = some next ∧ next.Sound maxFifo ∧ next.InPlace ∧ next.Served := by
    rintro rtfs call hcall ⟨h, hplace, hserved⟩
    obtain ⟨next, hnext, hsound, houtcome⟩ := h.step call
    exact ⟨next, hnext, hsound, houtcome.in_place hsound hplace,
      houtcome.served h hsound hcall hserved⟩
  have hstart : Rtfs.init.Sound maxFifo ∧ Rtfs.init.InPlace ∧ Rtfs.init.Served := by
    refine ⟨Rtfs.sound_init, fun _ _ hport => ?_, fun _ hcreated => ?_, fun _ hcreator => ?_⟩
    · cases hport
    · cases hcreated
    · cases hcreator
  obtain ⟨rtfs, hrun, h, hplace, hserved⟩ := foldlM_total hstep hstart hcalls
  refine ⟨rtfs, hrun, fun port hcreated => ?_, ?_, fun minor port hport => ?_⟩
  · obtain ⟨hloaded, -, hhandler⟩ := hserved.ports port hcreated
    exact ⟨hloaded, hhandler⟩
  · rw [h.useCount]
    refine List.countP_congr fun file hfile => ?_
    rw [decide_eq_true_iff, decide_eq_true_iff, List.mem_map]
    constructor
    · intro hcreator
      obtain ⟨port, hport⟩ := hserved.others file.minor hcreator
      exact ⟨port, port.mem_all, hport⟩
    · rintro ⟨port, -, hport⟩
      have hcreated := (h.opener file hfile).1
      rw [← hport] at hcreated ⊢
      exact (hserved.ports port hcreated).2.1
  · obtain rfl := hplace minor port hport
    have hcreated : (rtfs.fifos port.minor).allocated = true := by
      by_contra hnot
      rw [(h.unused _ (Bool.not_eq_true _ ▸ hnot)).2] at hport
      cases hport
    exact (hserved.ports port hcreated).1

/-- A process opens the pipe of commands of the module twice, which cannot be unloaded before both
files are released, while another module has a pipe of its own. -/
def ownPipes : List RtfCall :=
  [.insmod fun _ => .plenty, .openFile 7 1, .create 1 8 1 .plenty, .openFile 7 1, .rmmod,
    .release 3, .rmmod]

/-- Nothing in that session takes a pipe of the module. -/
theorem own_pipes_elsewhere : ∀ call ∈ ownPipes, call.Elsewhere := by
  simp only [ownPipes, List.forall_mem_cons]
  refine ⟨?_, ?_, ?_, ?_, ?_, ?_, ?_, fun _ hmem => by cases hmem⟩
  all_goals
    intro port htakes
    cases port <;> cases htakes

/-- One file is left, and the module is still loaded. -/
theorem own_pipes_served :
    ∃ rtfs, ownPipes.foldlM (Rtfs.step 64) Rtfs.init = some rtfs ∧
      (∀ port : Port, (rtfs.fifos port.minor).allocated = true → rtfs.loaded = true ∧
        (rtfs.fifos port.minor).handler = some (.own port)) ∧
      rtfs.useCount .foosLogicRT =
        rtfs.files.countP (fun file => file.minor ∈ Port.all.map Port.minor) ∧
      rtfs.Callable ∧ rtfs.loaded = true ∧ rtfs.useCount .foosLogicRT = 1 := by
  obtain ⟨rtfs, hrun, hports, hcount, hcallable⟩ := module_pipes 64 ownPipes own_pipes_elsewhere
  have hlast : (ownPipes.foldlM (Rtfs.step 64) Rtfs.init).map (fun rtfs =>
      (rtfs.loaded, rtfs.useCount .foosLogicRT)) = some (true, 1) := by decide
  rw [hrun] at hlast
  obtain ⟨hloaded, hone⟩ := Prod.mk.inj (Option.some.inj hlast)
  exact ⟨rtfs, hrun, hports, hcount, hcallable, hloaded, hone⟩

end FoosballTable.Pipes
