import WsHyper.Directory.NetworkRest

/-!
# What becomes of the source of a rename

An event tells the path that a rename leaves; one that comes later may tell where it leads.
The watcher hands the first to `RenameControl`, which reports a removal after a while, and
with the second it declines that.  Here each path is counted: a source that the watcher is
through with waits, was reported, or was spared by an event that told both paths.
-/

namespace WsHyper.Directory

open WsHyper.Lib

/-- The path that a rename leaves, from an event that tells no other. -/
def Event.source (event : Event) : Option Path :=
  match event.kind with
  | .modifyName .fromMode => event.paths.getLast?
  | _ => none

/-- The path that a rename leaves, from an event that tells both. -/
def Event.paired (event : Event) : Option Path :=
  match event.kind with
  | .modifyName .both => event.paths.reverse[1]?
  | _ => none

def Told.rename : Told → List RenameControl.Rename
  | .renameControl message => [message]
  | _ => []

/-! ## The sources at the control -/

namespace RenameControl

variable {control control' : RenameControl} {path : Path} {task : TaskId}

def timers (control : RenameControl) (path : Path) (status : TaskStatus) : Nat :=
  control.pool.count ⟨path, status⟩

def waiting (control : RenameControl) (path : Path) : Nat :=
  control.mailbox.count (.fromPath path) + control.timers path .sleeping

def reported (control : RenameControl) (path : Path) : Nat :=
  control.sent.countP fun report => decide (report.2 = path)

def spared (control : RenameControl) (path : Path) : Nat := control.timers path .aborted

def declines (control : RenameControl) (path : Path) : Nat :=
  control.mailbox.count (.decline path) + control.spared path

def SlotsOwn (control : RenameControl) : Prop :=
  ∀ path task, control.tasks.lookup path = some task →
    ∃ status, control.pool[task]? = some ⟨path, status⟩

/-- A timer that goes on is counted anew. -/
theorem count_set {tasks : List RenameTask} {timer : RenameTask}
    (htask : tasks[task]? = some timer) (timer' other : RenameTask) :
    (tasks.set task timer').count other + (if timer = other then 1 else 0) =
      tasks.count other + (if timer' = other then 1 else 0) := by
  obtain ⟨hlt, htimer⟩ := List.getElem?_eq_some_iff.1 htask
  have hset := List.count_set (a := timer') (b := other) hlt
  have hle := List.boole_getElem_le_count (a := other) hlt
  simp only [htimer, beq_iff_eq] at hset hle
  omega

theorem modify_abort {tasks : List RenameTask} {timer : RenameTask}
    (htask : tasks[task]? = some timer) :
    tasks.modify task RenameTask.abort = tasks.set task timer.abort := by
  apply List.ext_getElem?
  intro i
  rw [List.getElem?_modify, List.getElem?_set]
  split_ifs with hsame hlt
  · subst hsame
    simp [htask]
  · subst hsame
    simp [List.getElem?_eq_none (not_lt.1 hlt)]
  · cases tasks[i]? <;> rfl

/-- A handler decides for the sources it finds waiting, and the others stay as they are. -/
theorem counts_handle (hslots : control.SlotsOwn) {message : Rename} {mailbox : List Rename}
    (hmailbox : control.mailbox = message :: mailbox) (path : Path) :
    (handle { control with mailbox } message).waiting path +
        (handle { control with mailbox } message).spared path =
        control.waiting path + control.spared path ∧
      (handle { control with mailbox } message).timers path .fired = control.timers path .fired ∧
      (handle { control with mailbox } message).timers path .finished =
        control.timers path .finished ∧
      (handle { control with mailbox } message).declines path ≤ control.declines path := by
  cases message with
  | fromPath source =>
      by_cases hsame : source = path
      · subst hsame
        simp [waiting, declines, spared, timers, handle, hmailbox]
        omega
      · simp [waiting, declines, spared, timers, handle, hmailbox, hsame]
  | expire source => simp [waiting, declines, spared, timers, handle, hmailbox]
  | decline source =>
      rw [handle]
      split
      · next slot hslot =>
          obtain ⟨status, htask⟩ := hslots source slot hslot
          have hcount (status' : TaskStatus) :=
            count_set htask (RenameTask.abort ⟨source, status⟩) ⟨path, status'⟩
          have hsleeping := hcount .sleeping
          have hfired := hcount .fired
          have hfinished := hcount .finished
          have haborted := hcount .aborted
          simp only [waiting, declines, spared, timers, modify_abort htask, hmailbox]
          by_cases hsame : source = path
          · subst hsame
            cases status <;>
              simp [RenameTask.abort] at hsleeping hfired hfinished haborted ⊢ <;> omega
          · cases status <;>
              simp [RenameTask.abort, hsame] at hsleeping hfired hfinished haborted ⊢ <;> omega
      · simp [waiting, declines, spared, timers, hmailbox, List.count_cons]

theorem counts_of_fire (hstep : control.Step (.fire task) control') (path : Path) :
    control'.waiting path + control'.reported path =
        control.waiting path + control.reported path ∧
      control'.timers path .fired + control.reported path =
        control.timers path .fired + control'.reported path ∧
      control'.timers path .finished = control.timers path .finished ∧
      control'.spared path = control.spared path ∧
      control'.declines path = control.declines path := by
  obtain ⟨source, htask, rfl⟩ := step_fire_iff.1 hstep
  have hcount (status : TaskStatus) := count_set htask ⟨source, .fired⟩ ⟨path, status⟩
  have hsleeping := hcount .sleeping
  have hfired := hcount .fired
  have hfinished := hcount .finished
  have haborted := hcount .aborted
  simp only [waiting, declines, spared, timers, reported, List.countP_append,
    List.countP_singleton]
  by_cases hsame : source = path
  · subst hsame
    simp at hsleeping hfired hfinished haborted ⊢
    omega
  · simp [hsame] at hsleeping hfired hfinished haborted ⊢
    omega

theorem counts_of_post (hstep : control.Step (.post task) control') (path : Path) :
    control'.waiting path = control.waiting path ∧
      control'.reported path = control.reported path ∧
      control'.timers path .fired + control'.timers path .finished =
        control.timers path .fired + control.timers path .finished ∧
      control'.spared path = control.spared path ∧
      control'.declines path = control.declines path := by
  obtain ⟨source, htask, rfl⟩ := step_post_iff.1 hstep
  have hcount (status : TaskStatus) := count_set htask ⟨source, .finished⟩ ⟨path, status⟩
  have hsleeping := hcount .sleeping
  have hfired := hcount .fired
  have hfinished := hcount .finished
  have haborted := hcount .aborted
  simp only [waiting, declines, spared, timers, reported, tell]
  by_cases hsame : source = path
  · subst hsame
    simp at hsleeping hfired hfinished haborted ⊢
    omega
  · simp [hsame] at hsleeping hfired hfinished haborted ⊢
    omega

theorem slotsOwn_of_step {act : RenameAct} (hslots : control.SlotsOwn)
    (hstep : control.Step act control') : control'.SlotsOwn := by
  have hkept {path : Path} {task : TaskId}
      (htask : ∃ status, control.pool[task]? = some ⟨path, status⟩) :
      ∃ status, control'.pool[task]? = some ⟨path, status⟩ := by
    obtain ⟨status, htask⟩ := htask
    rcases task_of_step hstep htask with hsame | ⟨-, -, hfired⟩ | ⟨-, -, hfinished⟩ |
      ⟨-, _, _, -, -, habort⟩
    · exact ⟨status, hsame⟩
    · exact ⟨.fired, hfired⟩
    · exact ⟨.finished, hfinished⟩
    · refine ⟨(RenameTask.abort ⟨path, status⟩).status, habort.trans ?_⟩
      cases status <;> rfl
  intro path task hslot
  cases act with
  | tellFrom source =>
      obtain rfl := step_tellFrom_iff.1 hstep
      exact hslots path task hslot
  | tellDecline source =>
      obtain rfl := step_tellDecline_iff.1 hstep
      exact hslots path task hslot
  | fire other =>
      obtain ⟨source, -, rfl⟩ := step_fire_iff.1 hstep
      exact hkept (hslots path task hslot)
  | post other =>
      obtain ⟨source, -, rfl⟩ := step_post_iff.1 hstep
      exact hkept (hslots path task hslot)
  | handle =>
      obtain ⟨message, mailbox, -, rfl⟩ := step_handle_iff.1 hstep
      have herase {source : Path}
          (hslot : (control.tasks.erase source).lookup path = some task) :
          control.tasks.lookup path = some task := by
        by_cases hsame : path = source
        · simp [hsame] at hslot
        · rwa [AssocMap.lookup_erase_of_ne hsame] at hslot
      cases message with
      | fromPath source =>
          simp only [handle, AssocMap.lookup_put] at hslot
          split_ifs at hslot with hsame
          · obtain rfl := Option.some.inj hslot
            exact ⟨.sleeping, by simp [handle, hsame]⟩
          · exact hkept (hslots path task hslot)
      | expire source => exact hkept (hslots path task (herase hslot))
      | decline source =>
          refine hkept (hslots path task ?_)
          simp only [handle] at hslot
          split at hslot
          · exact herase hslot
          · exact hslot

/-- Every source the control was told of is counted, and as many removals of a path were
told as timers of it got past their `sleep`. -/
structure Counts (control : RenameControl) (sources : Path → Nat) : Prop where
  slots : control.SlotsOwn
  sources : ∀ path,
    control.waiting path + control.reported path + control.spared path = sources path
  reported : ∀ path,
    control.reported path = control.timers path .fired + control.timers path .finished

section Counts

variable {sources : Path → Nat}

theorem counts_new : new.Counts fun _ => 0 where
  slots path task hslot := by cases hslot
  sources _ := rfl
  reported _ := rfl

theorem Counts.handle (hcounts : control.Counts sources)
    (hstep : control.Step .handle control') :
    control'.Counts sources ∧ ∀ path, control'.declines path ≤ control.declines path := by
  have hslots := slotsOwn_of_step hcounts.slots hstep
  obtain ⟨message, mailbox, hmailbox, rfl⟩ := step_handle_iff.1 hstep
  have hcount := counts_handle hcounts.slots hmailbox
  have hsent (path : Path) :
      (RenameControl.handle { control with mailbox } message).reported path =
        control.reported path := by
    rw [RenameControl.reported, sent_handle, RenameControl.reported]
  refine ⟨⟨hslots, fun path => ?_, fun path => ?_⟩, fun path => (hcount path).2.2.2⟩
  · have hsources := hcounts.sources path
    have hboth := (hcount path).1
    rw [hsent]
    omega
  · obtain ⟨-, hfired, hfinished, -⟩ := hcount path
    rw [hsent, hfired, hfinished]
    exact hcounts.reported path

theorem Counts.fire (hcounts : control.Counts sources)
    (hstep : control.Step (.fire task) control') :
    control'.Counts sources ∧ ∀ path, control'.declines path = control.declines path := by
  have hcount := counts_of_fire hstep
  refine ⟨⟨slotsOwn_of_step hcounts.slots hstep, fun path => ?_, fun path => ?_⟩,
    fun path => (hcount path).2.2.2.2⟩
  · have hsources := hcounts.sources path
    have hcount := hcount path
    omega
  · have hreported := hcounts.reported path
    have hcount := hcount path
    omega

theorem Counts.post (hcounts : control.Counts sources)
    (hstep : control.Step (.post task) control') :
    control'.Counts sources ∧ ∀ path, control'.declines path = control.declines path := by
  have hcount := counts_of_post hstep
  refine ⟨⟨slotsOwn_of_step hcounts.slots hstep, fun path => ?_, fun path => ?_⟩,
    fun path => (hcount path).2.2.2.2⟩
  · have hsources := hcounts.sources path
    have hcount := hcount path
    omega
  · have hreported := hcounts.reported path
    have hcount := hcount path
    omega

theorem Counts.tell (hcounts : control.Counts sources) (messages : List Rename) :
    Counts { control with mailbox := control.mailbox ++ messages }
      (fun path => sources path + messages.count (.fromPath path)) where
  slots := hcounts.slots
  sources path := by
    have hsources := hcounts.sources path
    simp only [waiting, timers, RenameControl.reported, spared, List.count_append] at hsources ⊢
    omega
  reported := hcounts.reported

end Counts

end RenameControl

namespace EventWatcher

open RenameControl

variable {event : Event} {told : List Told}

/-- Of an event the control is told the source, if it tells a source alone, and no decline
that the event does not stand for. -/
theorem renames_of_leads (hleads : Leads event told) (path : Path) :
    (told.flatMap Told.rename).count (.fromPath path) =
        (if event.source = some path then 1 else 0) ∧
      (told.flatMap Told.rename).count (.decline path) ≤
        (if event.paired = some path then 1 else 0) := by
  have hchange (change : Option Change) :
      (change.toList.map Told.manager).flatMap Told.rename = [] := by
    cases change <;> rfl
  cases hleads with
  | entry change hkind =>
      rw [hchange]
      rcases hkind with ⟨kind, hkind⟩ | hkind | hkind <;> simp [Event.source, hkind]
  | source source hkind hpath =>
      simp [Event.source, Told.rename, hkind, hpath, List.count_singleton]
  | rename source change hkind hpath =>
      rw [List.flatMap_cons, hchange]
      simp [Event.source, Event.paired, Told.rename, hkind, hpath, List.count_singleton]
  | reply kind hasks hkind =>
      have hnot : event.kind ≠ .modifyName .fromMode := by
        intro hfrom
        rw [Event.asks, hfrom] at hasks
        cases hasks
      have hnone : event.source = none := by
        unfold Event.source
        split
        · contradiction
        · rfl
      simp [Told.rename, hnone]
  | nothing hkind =>
      have hnone : event.source = none := by
        unfold Event.source
        split
        · contradiction
        · rfl
      simp [hnone]

theorem renames_of_toldFirst (path : Path) :
    (event.toldFirst.flatMap Told.rename).count (.fromPath path) = 0 := by
  rcases toldFirst_cases event with hnone | ⟨source, hdecline, -⟩
  · rw [hnone]
    rfl
  · rw [hdecline]
    rfl

end EventWatcher

/-! ## The sources in the network -/

namespace Network

variable {s s' : Network} {act : NetworkAct} {disk : Disk} {event : Event} {reply : ManagerReply}

def sources (s : Network) (path : Path) : Nat :=
  (s.handled.map Prod.snd).countP fun event => event.source = some path

def pairs (s : Network) (path : Path) : Nat :=
  (s.handled.map Prod.snd).countP fun event => event.paired = some path

/-- The control counts what the watcher is through with.  A watcher that is lost may have
told a decline last. -/
structure Counted (s : Network) : Prop where
  control : s.control.Counts s.sources
  declines : s.watcher ≠ .gone → ∀ path, s.control.declines path ≤ s.pairs path

theorem counted_start (path : Path) (manager : Manager) : (start path manager).Counted where
  control := RenameControl.counts_new
  declines _ _ := Nat.le_refl 0

theorem Counted.mono (hcounted : s.Counted) (hcontrol : s'.control = s.control)
    (hhandled : s'.handled = s.handled) (hwatcher : s.watcher = .gone → s'.watcher = .gone) :
    s'.Counted where
  control := by
    have hsources : s'.sources = s.sources := by
      funext path
      rw [sources, hhandled, sources]
    rw [hcontrol, hsources]
    exact hcounted.control
  declines hthere path := by
    rw [hcontrol, pairs, hhandled]
    exact hcounted.declines (fun hgone => hthere (hwatcher hgone)) path

theorem control_deliver (event : Event) : (s.deliver event).control = s.control := by
  unfold deliver
  split <;> rfl

@[simp] theorem handled_deliver (event : Event) : (s.deliver event).handled = s.handled := by
  unfold deliver
  split <;> rfl

theorem control_sendManager (message : ManagerMessage) :
    (s.sendManager message).control = s.control := by
  unfold sendManager
  split_ifs <;> rfl

@[simp] theorem handled_sendManager (message : ManagerMessage) :
    (s.sendManager message).handled = s.handled := by
  unfold sendManager
  split_ifs <;> rfl

theorem control_foldl_tell (told : List Told) :
    (told.foldl tell s).control =
      { s.control with mailbox := s.control.mailbox ++ told.flatMap Told.rename } := by
  induction told generalizing s with
  | nil => simp
  | cons first told ih =>
      rw [List.foldl_cons, ih]
      cases first with
      | manager change => simp [tell, control_sendManager, Told.rename]
      | renameControl message => simp [tell, RenameControl.tell, Told.rename]
      | watcher event => simp [tell, control_deliver, Told.rename]

theorem handled_foldl_tell (told : List Told) : (told.foldl tell s).handled = s.handled := by
  induction told generalizing s with
  | nil => rfl
  | cons first told ih =>
      rw [List.foldl_cons, ih]
      cases first with
      | manager change => exact handled_sendManager _
      | renameControl message => rfl
      | watcher event => exact handled_deliver event

theorem Counted.finish (hcounted : s.Counted) (hthere : s.watcher ≠ .gone) :
    (s.finish disk event reply).Counted := by
  unfold Network.finish
  split
  case h_1 told skipper hhandle =>
      have hrenames := EventWatcher.renames_of_leads (EventWatcher.leads_of_handle hhandle)
      constructor
      · have hsources : sources (told.foldl tell { s with
            watcher := .idle, skipper, handled := s.handled ++ [(disk, event)] }) =
            fun path => s.sources path + (told.flatMap Told.rename).count (.fromPath path) := by
          funext path
          rw [(hrenames path).1]
          simp [sources, handled_foldl_tell, List.countP_singleton]
        rw [hsources, control_foldl_tell]
        exact hcounted.control.tell _
      · intro _ path
        have hbefore := hcounted.declines hthere path
        have hpairs : pairs (told.foldl tell { s with
            watcher := .idle, skipper, handled := s.handled ++ [(disk, event)] }) path =
            s.pairs path + if event.paired = some path then 1 else 0 := by
          simp [pairs, handled_foldl_tell, List.countP_singleton]
        have htold := (hrenames path).2
        rw [hpairs, control_foldl_tell]
        simp only [RenameControl.declines, RenameControl.spared, RenameControl.timers,
          List.count_append] at hbefore ⊢
        omega
  case h_2 =>
      refine ⟨?_, fun hgone => absurd rfl hgone⟩
      have hsources : sources (event.toldFirst.foldl tell s).loseWatcher = s.sources := by
        funext path
        simp [sources, loseWatcher, handled_foldl_tell]
      have htold := hcounted.control.tell (event.toldFirst.flatMap Told.rename)
      simp only [EventWatcher.renames_of_toldFirst] at htold
      rw [hsources, loseWatcher, control_foldl_tell]
      exact htold

theorem counted_of_step (s : Network) (act : NetworkAct) (s' : Network) (hcounted : s.Counted)
    (hstep : s.Step act s') : s'.Counted := by
  cases hstep using step_cases with
  | notify event =>
      exact hcounted.mono (control_deliver event) (handled_deliver event) fun hgone => by
        rw [watcher_deliver, hgone]
  | handle disk event inbox _ hidle hinbox hasks =>
      have hcounted' : Counted { s with inbox } := { hcounted with }
      exact hcounted'.finish (by simp [hidle])
  | ask disk event inbox path _ hidle hinbox hasks =>
      refine hcounted.mono (control_sendManager _) (handled_sendManager _) fun hgone => ?_
      simp [hidle] at hgone
  | resume disk event path reply _ hanswered => exact hcounted.finish (by simp [hanswered])
  | noReply => exact hcounted.mono rfl rfl fun _ => rfl
  | change => exact hcounted.mono rfl rfl id
  | changePanics => exact hcounted.mono rfl rfl id
  | whatIs fresh path rest reply =>
      refine hcounted.mono rfl rfl fun hgone => ?_
      simp [hgone, WatcherState.reply]
  | whatIsPanics => exact hcounted.mono rfl rfl id
  | control control _ hcontrol =>
      obtain ⟨hcounts, hdeclines⟩ := hcounted.control.handle hcontrol
      exact ⟨hcounts, fun hthere path => (hdeclines path).trans (hcounted.declines hthere path)⟩
  | fire task timer control _ htimer hcontrol =>
      obtain ⟨hcounts, hdeclines⟩ := hcounted.control.fire hcontrol
      have hcounted' : Counted { s with control } :=
        ⟨hcounts, fun hthere path =>
          (hdeclines path).trans_le (hcounted.declines hthere path)⟩
      refine hcounted'.mono (control_deliver _) (handled_deliver _) fun hgone => ?_
      rw [watcher_deliver, hgone]
  | post task control _ hcontrol =>
      obtain ⟨hcounts, hdeclines⟩ := hcounted.control.post hcontrol
      exact ⟨hcounts, fun hthere path =>
        (hdeclines path).trans_le (hcounted.declines hthere path)⟩

theorem waiting_of_atRest (hrest : s.AtRest) (path : Path) : s.control.waiting path = 0 := by
  have hnone : (⟨path, .sleeping⟩ : RenameTask) ∉ s.control.pool := by
    intro hmem
    rcases hrest.timers _ hmem with hstatus | hstatus <;> cases hstatus
  simp [RenameControl.waiting, RenameControl.timers, hrest.mailbox, List.count_eq_zero.2 hnone]

/-- No source of a rename is lost and none is reported twice: in every run, each that the
watcher is through with waits, was reported as a removal once, or was spared, and at rest none
waits.  No more of a path are spared than events told it with a target. -/
theorem sources_reported {path : Path} {manager : Manager} {acts : List NetworkAct} {s : Network}
    (hrun : Run Step (start path manager) acts s) (source : Path) :
    s.control.waiting source + s.control.reported source + s.control.spared source =
        s.sources source ∧
      (s.watcher ≠ .gone → s.control.spared source ≤ s.pairs source) ∧
      (s.AtRest → s.control.waiting source = 0) := by
  have hcounted : s.Counted :=
    run_keeps counted_of_step (counted_start path manager) hrun
  refine ⟨hcounted.control.sources source, fun hthere => ?_, fun hrest => ?_⟩
  · exact (Nat.le_add_left _ _).trans (hcounted.declines hthere source)
  · exact waiting_of_atRest hrest source

/-! ## The bucket `b` leaves `/d` twice, once to be called `c` -/

def leftB : Event := { kind := .modifyName .fromMode, paths := [[.ofStr ['d'], .ofStr ['b']]] }

def calledC : Event :=
  { kind := .modifyName .both
    paths := [[.ofStr ['d'], .ofStr ['b']], [.ofStr ['d'], .ofStr ['c']]] }

def pathB : Path := [.ofStr ['d'], .ofStr ['b']]

def allDirs : Disk := { Disk.still with isDir := fun _ => true }

/-- The second timer was in the slot when the pair was handled; the first has told. -/
def afterCalledC : Network :=
  { start [.ofStr ['d']] (managerD []) with
    inbox := [.removed pathB]
    control := {
      tasks := []
      mailbox := []
      pool := [⟨pathB, .fired⟩, ⟨pathB, .aborted⟩]
      sent := [(0, pathB)] }
    managerInbox := [.change (.nameBucket ['b'] ['c'])]
    arrived := [leftB, leftB, calledC, .removed pathB]
    handled := [(.still, leftB), (.still, leftB), (allDirs, calledC)] }

theorem run_afterCalledC :
    Run Step (start [.ofStr ['d']] (managerD []))
      [.notify leftB, .take .still, .notify leftB, .take .still, .control, .control,
        .notify calledC, .take allDirs, .control, .fire 0] afterCalledC :=
  .cons rfl <| .cons rfl <| .cons rfl <| .cons rfl <| .cons rfl <| .cons rfl <| .cons rfl <|
    .cons rfl <| .cons rfl <| .cons rfl <| .nil _

theorem afterCalledC_reported :
    afterCalledC.control.spared pathB ≤ 1 ∧ afterCalledC.control.waiting pathB +
      afterCalledC.control.reported pathB + afterCalledC.control.spared pathB = 2 := by
  obtain ⟨hsources, hspared, -⟩ := sources_reported run_afterCalledC pathB
  exact ⟨hspared nofun, hsources⟩

end Network

end WsHyper.Directory
