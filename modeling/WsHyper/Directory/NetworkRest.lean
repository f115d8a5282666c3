import Mathlib.Algebra.GroupWithZero.Nat
import WsHyper.Directory.NetworkOrder

/-!
# The actors come to rest

An event leads to a message or two, a source of a rename to a timer, and a timer to one
more event; nothing leads back to a source.  So every message has a bound for the work
that comes of it, and each step that the actors take by themselves makes the sum smaller.
Where none can take a step all mailboxes are empty: no actor waits for another for ever.
-/

namespace WsHyper.Directory

open WsHyper.Lib

/-! ## How much is to be done -/

def EventKind.work : EventKind → Nat
  | .modifyName .fromMode => 10
  | .modifyName .both => 3
  | .create _ => 2
  | .remove .any | .remove .other => 5
  | .remove _ => 2
  | _ => 1

theorem EventKind.work_pos (kind : EventKind) : 0 < kind.work := by
  cases kind with
  | create kind => cases kind <;> decide
  | modifyName mode => cases mode <;> decide
  | remove kind => cases kind <;> decide
  | _ => decide

def RenameControl.Rename.work : RenameControl.Rename → Nat
  | .fromPath _ => 9
  | .decline _ | .expire _ => 1

def TaskStatus.work : TaskStatus → Nat
  | .sleeping => 8
  | .fired => 2
  | .finished | .aborted => 0

def WatcherState.work : WatcherState → Nat
  | .idle | .gone => 0
  | .asked _ _ _ | .answered _ _ _ _ => 3

def Told.work : Told → Nat
  | .manager _ => 1
  | .renameControl message => message.work
  | .watcher event => event.kind.work

def RenameControl.work (control : RenameControl) : Nat :=
  (control.mailbox.map Rename.work).sum + (control.pool.map fun timer => timer.status.work).sum

def Network.work (s : Network) : Nat :=
  (s.inbox.map fun event => event.kind.work).sum + s.watcher.work + s.managerInbox.length +
    s.control.work

@[simp] theorem WatcherState.work_reply (watcher : WatcherState) (reply : ManagerReply) :
    (watcher.reply reply).work = watcher.work := by
  cases watcher <;> rfl

theorem Event.work_of_asks {event : Event} (hasks : event.asks.isSome) : event.kind.work = 5 := by
  unfold Event.asks at hasks
  split at hasks
  case h_1 hkind =>
      rw [hkind]
      rfl
  case h_2 hkind =>
      rw [hkind]
      rfl
  case h_3 => cases hasks

/-- A step of the actors, not of the file system. -/
def NetworkAct.Internal (act : NetworkAct) : Prop := ∀ event, act ≠ .notify event

/-! ## What one event leads to -/

namespace EventWatcher

inductive Leads (event : Event) : List Told → Prop
  | entry (change : Option Change) (hkind : (∃ kind, event.kind = .create kind) ∨
      event.kind = .remove .folder ∨ event.kind = .remove .file) :
      Leads event (change.toList.map .manager)
  | source (path : Path) (hkind : event.kind = .modifyName .fromMode)
      (hpath : event.paths.getLast? = some path) :
      Leads event [.renameControl (.fromPath path)]
  | rename (fromPath : Path) (change : Option Change) (hkind : event.kind = .modifyName .both)
      (hpath : event.paths.reverse[1]? = some fromPath) :
      Leads event (.renameControl (.decline fromPath) :: change.toList.map .manager)
  | reply (kind : RemoveKind) (hasks : event.asks.isSome) (hkind : kind = .folder ∨ kind = .file) :
      Leads event [.watcher { kind := .remove kind, paths := [] }]
  | nothing (hkind : event.kind ≠ .modifyName .fromMode) : Leads event []

variable {disk : Disk} {whatIs : Path → Except Panic ManagerReply} {root : Path}
  {skipper skipper' : Skipper} {told : List Told}

theorem leads_of_tellChange {event : Event} {result : Except Panic (Option Change × Skipper)}
    (hkind : (∃ kind, event.kind = .create kind) ∨ event.kind = .remove .folder ∨
      event.kind = .remove .file)
    (hresult : (do let result ← result; return tellChange result) = .ok (told, skipper')) :
    Leads event told := by
  obtain ⟨⟨change, skipper⟩, -, htell⟩ := bind_eq_ok hresult
  obtain ⟨rfl, -⟩ := Prod.mk.inj (Except.ok.inj htell)
  exact .entry change hkind

theorem leads_of_silent {event : Event} (hkind : event.kind ≠ .modifyName .fromMode)
    (htold : (Except.ok ([], skipper) : Except Panic (List Told × Skipper)) =
      .ok (told, skipper')) : Leads event told := by
  obtain ⟨rfl, -⟩ := Prod.mk.inj (Except.ok.inj htold)
  exact .nothing hkind

theorem leads_of_handle {event : Event}
    (hhandle : handle disk whatIs root skipper event = .ok (told, skipper')) :
    Leads event told := by
  obtain ⟨kind, paths⟩ := event
  unfold handle at hhandle
  split at hhandle
  case h_1 hkind =>
      split at hhandle
      case h_1 => exact leads_of_silent (by simp [show kind = _ from hkind]) hhandle
      case h_2 path hpath => exact leads_of_tellChange (.inl ⟨_, hkind⟩) hhandle
  case h_2 kind' hfolder hkind =>
      split at hhandle
      case h_1 => exact leads_of_silent (by simp [show kind = _ from hkind]) hhandle
      case h_2 path hpath => exact leads_of_tellChange (.inl ⟨_, hkind⟩) hhandle
  case h_3 hkind =>
      obtain ⟨path, hpath, htold⟩ := bind_eq_ok hhandle
      obtain ⟨rfl, -⟩ := Prod.mk.inj (Except.ok.inj htold)
      exact .source path hkind (unwrap_eq_ok_iff.1 hpath)
  case h_4 hkind =>
      split at hhandle
      case h_1 toPath fromPath rest hpaths =>
          dsimp only at hhandle
          -- A directory and a file are renamed alike.
          split_ifs at hhandle
          all_goals
            obtain ⟨⟨change, skipper⟩, -, htold⟩ := bind_eq_ok hhandle
            obtain ⟨rfl, -⟩ := Prod.mk.inj (Except.ok.inj htold)
            exact .rename fromPath change hkind (by rw [hpaths]; rfl)
      case h_2 => exact leads_of_silent (by simp [show kind = _ from hkind]) hhandle
  case h_5 hkind =>
      split at hhandle
      case h_1 => exact leads_of_silent (by simp [show kind = _ from hkind]) hhandle
      case h_2 path hpath =>
          obtain ⟨bucket, -, hrest⟩ := bind_eq_ok hhandle
          split_ifs at hrest
          · obtain ⟨rfl, -⟩ := Prod.mk.inj (Except.ok.inj hrest)
            exact .entry (some _) (.inr (.inl hkind))
          · obtain ⟨key, -, htold⟩ := bind_eq_ok hrest
            obtain ⟨rfl, -⟩ := Prod.mk.inj (Except.ok.inj htold)
            exact .entry (some _) (.inr (.inl hkind))
  case h_6 hkind =>
      split at hhandle
      case h_1 => exact leads_of_silent (by simp [show kind = _ from hkind]) hhandle
      case h_2 path hpath =>
          obtain ⟨bucket, -, hrest⟩ := bind_eq_ok hhandle
          obtain ⟨key, -, hrest⟩ := bind_eq_ok hrest
          obtain ⟨fileName, -, htold⟩ := bind_eq_ok hrest
          obtain ⟨rfl, -⟩ := Prod.mk.inj (Except.ok.inj htold)
          exact .entry (some _) (.inr (.inr hkind))
  case h_7 kind' hfolder hfile hkind =>
      obtain ⟨path, hpath, hrest⟩ := bind_eq_ok hhandle
      obtain ⟨reply, -, htold⟩ := bind_eq_ok hrest
      have hasks : (Event.mk kind paths).asks.isSome := by
        obtain rfl : kind = .remove kind' := hkind
        rw [unwrap_eq_ok_iff] at hpath
        cases kind' with
        | folder => exact absurd rfl hfolder
        | file => exact absurd rfl hfile
        | any => exact Option.isSome_iff_exists.2 ⟨path, hpath⟩
        | other => exact Option.isSome_iff_exists.2 ⟨path, hpath⟩
      cases reply with
      | isDir =>
          obtain ⟨rfl, -⟩ := Prod.mk.inj (Except.ok.inj htold)
          exact .reply .folder hasks (.inl rfl)
      | isFile =>
          obtain ⟨rfl, -⟩ := Prod.mk.inj (Except.ok.inj htold)
          exact .reply .file hasks (.inr rfl)
      | none => exact leads_of_silent (by simp [show kind = _ from hkind]) htold
  case h_8 hcreate hcreate' hfrom hboth hfolder hfile hremove =>
      exact leads_of_silent hfrom hhandle

theorem toldFirst_cases (event : Event) :
    event.toldFirst = [] ∨
      ∃ fromPath, event.toldFirst = [.renameControl (.decline fromPath)] ∧
        Leads event event.toldFirst := by
  unfold Event.toldFirst
  split
  · next fromPath rest hkind hpaths =>
      exact .inr ⟨fromPath, rfl, .rename fromPath none hkind (by rw [hpaths]; rfl)⟩
  · exact .inl rfl

/-- An event that asks nothing leads to less than it stands for. -/
theorem work_of_leads {event : Event} (hasks : event.asks = none) (hleads : Leads event told) :
    (told.map Told.work).sum < event.kind.work := by
  cases hleads with
  | entry change hkind =>
      have hle : ((change.toList.map Told.manager).map Told.work).sum ≤ 1 := by
        cases change <;> simp [Told.work]
      rcases hkind with ⟨kind, hkind⟩ | hkind | hkind
      all_goals
        rw [hkind]
        exact Nat.lt_succ_of_le hle
  | source path hkind hpath =>
      rw [hkind]
      simp [Told.work, RenameControl.Rename.work, EventKind.work]
  | rename fromPath change hkind hpath =>
      rw [hkind]
      cases change <;> simp [Told.work, RenameControl.Rename.work, EventKind.work]
  | reply kind hasks' hkind => simp [hasks] at hasks'
  | nothing hkind => exact event.kind.work_pos

theorem work_of_leads_of_asks {event : Event} (hasks : event.asks.isSome)
    (hleads : Leads event told) : (told.map Told.work).sum ≤ 2 := by
  cases hleads with
  | entry change hkind => cases change <;> simp [Told.work]
  | source path hkind hpath =>
      rw [Event.asks, hkind] at hasks
      cases hasks
  | rename fromPath change hkind hpath =>
      cases change <;> simp [Told.work, RenameControl.Rename.work]
  | reply kind hasks' hkind => rcases hkind with rfl | rfl <;> decide
  | nothing hkind => simp

end EventWatcher

/-! ## A step makes the work less -/

namespace RenameControl

variable {control control' : RenameControl}

@[simp] theorem work_tell (message : Rename) :
    (control.tell message).work = control.work + message.work := by
  simp [work, tell]
  omega

theorem status_abort_work (timer : RenameTask) : timer.abort.status.work ≤ timer.status.work := by
  unfold RenameTask.abort
  split_ifs
  · exact Nat.zero_le _
  · exact le_rfl

theorem sum_modify_le (tasks : List RenameTask) (task : TaskId) :
    ((tasks.modify task RenameTask.abort).map fun timer => timer.status.work).sum ≤
      (tasks.map fun timer => timer.status.work).sum := by
  induction tasks generalizing task with
  | nil => simp
  | cons timer tasks ih =>
      cases task with
      | zero => simpa using status_abort_work timer
      | succ task => simpa using ih task

theorem sum_set {tasks : List RenameTask} {task : TaskId} {timer : RenameTask}
    (htask : tasks[task]? = some timer) (timer' : RenameTask) :
    ((tasks.set task timer').map fun timer => timer.status.work).sum + timer.status.work =
      (tasks.map fun timer => timer.status.work).sum + timer'.status.work := by
  induction tasks generalizing task with
  | nil => simp at htask
  | cons first tasks ih =>
      cases task with
      | zero =>
          obtain rfl : first = timer := by simpa using htask
          simp only [List.set_cons_zero, List.map_cons, List.sum_cons]
          omega
      | succ task =>
          have hrest := ih (by simpa using htask)
          simp only [List.set_cons_succ, List.map_cons, List.sum_cons]
          omega

theorem work_handle (message : Rename) :
    (control.handle message).work < control.work + message.work := by
  cases message with
  | fromPath path =>
      have hsleeping : TaskStatus.sleeping.work = 8 := rfl
      simp [work, handle, hsleeping, Rename.work]
      omega
  | decline path =>
      rw [handle]
      split
      · next task hslot =>
          have hle := sum_modify_le control.pool task
          simp only [work, Rename.work]
          omega
      · simp [Rename.work]
  | expire path => simp [work, handle, Rename.work]

theorem work_of_handle (hstep : control.Step .handle control') : control'.work < control.work := by
  obtain ⟨message, mailbox, hmailbox, rfl⟩ := step_handle_iff.1 hstep
  calc
    _ < work { control with mailbox } + message.work := work_handle message
    _ = control.work := by
      simp [work, hmailbox]
      omega

theorem work_of_fire {task : TaskId} (hstep : control.Step (.fire task) control') :
    control'.work + 6 = control.work := by
  obtain ⟨path, htask, rfl⟩ := step_fire_iff.1 hstep
  have hsum := sum_set htask ⟨path, .fired⟩
  have hsleeping : TaskStatus.sleeping.work = 8 := rfl
  have hfired : TaskStatus.fired.work = 2 := rfl
  simp only [hsleeping, hfired] at hsum
  simp only [work]
  omega

theorem work_of_post {task : TaskId} (hstep : control.Step (.post task) control') :
    control'.work < control.work := by
  obtain ⟨path, htask, rfl⟩ := step_post_iff.1 hstep
  have hsum := sum_set htask ⟨path, .finished⟩
  have hfired : TaskStatus.fired.work = 2 := rfl
  have hfinished : TaskStatus.finished.work = 0 := rfl
  simp only [hfired, hfinished] at hsum
  rw [work_tell]
  simp only [work, Rename.work]
  omega

end RenameControl

namespace Network

variable {s s' : Network} {act : NetworkAct} {disk : Disk} {event : Event} {reply : ManagerReply}

theorem work_deliver_le (event : Event) : (s.deliver event).work ≤ s.work + event.kind.work := by
  unfold deliver
  split
  · exact Nat.le_add_right _ _
  · simp [work]
    omega

theorem work_sendManager_le (message : ManagerMessage) :
    (s.sendManager message).work ≤ s.work + 1 := by
  unfold sendManager
  split_ifs
  · exact Nat.le_add_right _ _
  · simp only [work, List.length_append, List.length_singleton]
    omega

theorem work_tell_le (told : Told) : (s.tell told).work ≤ s.work + told.work := by
  cases told with
  | manager change => exact work_sendManager_le _
  | renameControl message =>
      simp only [tell, work, RenameControl.work_tell, Told.work]
      omega
  | watcher event => exact work_deliver_le event

theorem work_foldl_tell_le (told : List Told) :
    (told.foldl tell s).work ≤ s.work + (told.map Told.work).sum := by
  induction told generalizing s with
  | nil => simp
  | cons first told ih =>
      calc
        (told.foldl tell (s.tell first)).work ≤ (s.tell first).work + (told.map Told.work).sum :=
          ih
        _ ≤ s.work + first.work + (told.map Told.work).sum :=
          Nat.add_le_add_right (work_tell_le first) _
        _ = s.work + ((first :: told).map Told.work).sum := by
          rw [List.map_cons, List.sum_cons, Nat.add_assoc]

theorem watcher_deliver (event : Event) : (s.deliver event).watcher = s.watcher := by
  unfold deliver
  split <;> rfl

theorem watcher_sendManager (message : ManagerMessage) :
    (s.sendManager message).watcher = s.watcher := by
  unfold sendManager
  split_ifs <;> rfl

theorem watcher_foldl_tell (told : List Told) : (told.foldl tell s).watcher = s.watcher := by
  induction told generalizing s with
  | nil => rfl
  | cons first told ih =>
      rw [List.foldl_cons, ih]
      cases first with
      | manager change => exact watcher_sendManager _
      | renameControl message => rfl
      | watcher event => exact watcher_deliver event

theorem work_finish_le {bound : Nat}
    (hleads : ∀ told, EventWatcher.Leads event told → (told.map Told.work).sum ≤ bound) :
    (s.finish disk event reply).work + s.watcher.work ≤ s.work + bound := by
  unfold finish
  split
  case h_1 told skipper hhandle =>
      have hbound := hleads told (EventWatcher.leads_of_handle hhandle)
      have htold := work_foldl_tell_le (s := { s with
        watcher := .idle, skipper, handled := s.handled ++ [(disk, event)] }) told
      have hidle : (Network.work { s with
          watcher := .idle, skipper, handled := s.handled ++ [(disk, event)] }) +
          s.watcher.work = s.work := by
        simp only [work, WatcherState.work]
        omega
      omega
  case h_2 =>
      have hbound : (event.toldFirst.map Told.work).sum ≤ bound := by
        rcases EventWatcher.toldFirst_cases event with hnone | ⟨fromPath, -, hrename⟩
        · rw [hnone]
          exact Nat.zero_le _
        · exact hleads _ hrename
      have htold := work_foldl_tell_le (s := s) event.toldFirst
      have hwatcher : (event.toldFirst.foldl tell s).watcher = s.watcher := watcher_foldl_tell _
      have hlost : (event.toldFirst.foldl tell s).loseWatcher.work + s.watcher.work ≤
          (event.toldFirst.foldl tell s).work := by
        simp only [work, loseWatcher, WatcherState.work, hwatcher, List.map_nil, List.sum_nil]
        omega
      omega

/-! ## Who waits is waited for -/

/-- What the watcher waits for is on its way, and lost tasks have no mailbox. -/
structure Sound (s : Network) : Prop where
  lostManager : s.managerGone = true → s.managerInbox = []
  lostWatcher : s.watcher = .gone → s.inbox = []
  asked : ∀ disk event path, s.watcher = .asked disk event path →
    event.asks.isSome ∧ (s.managerGone = false → .whatIs path ∈ s.managerInbox)
  answered : ∀ disk event path reply, s.watcher = .answered disk event path reply →
    event.asks.isSome

theorem sound_start (path : Path) (manager : Manager) : (start path manager).Sound where
  lostManager hgone := by cases hgone
  lostWatcher hgone := by cases hgone
  asked _ _ _ hasked := by cases hasked
  answered _ _ _ _ hanswered := by cases hanswered

theorem Sound.deliver (hsound : s.Sound) (event : Event) : (s.deliver event).Sound := by
  unfold Network.deliver
  split
  · exact hsound
  · next hthere =>
      exact { hsound with lostWatcher := fun hgone => absurd hgone hthere }

theorem Sound.sendManager (hsound : s.Sound) (message : ManagerMessage) :
    (s.sendManager message).Sound := by
  unfold Network.sendManager
  split_ifs with hgone
  · exact hsound
  · exact {
      lostManager := fun hgone' => absurd hgone' hgone
      lostWatcher := hsound.lostWatcher
      asked := fun disk event path hasked => ⟨(hsound.asked disk event path hasked).1,
        fun hthere => List.mem_append_left _ ((hsound.asked disk event path hasked).2 hthere)⟩
      answered := hsound.answered }

theorem Sound.foldl_tell (hsound : s.Sound) (told : List Told) : (told.foldl tell s).Sound := by
  induction told generalizing s with
  | nil => exact hsound
  | cons first told ih =>
      rw [List.foldl_cons]
      apply ih
      cases first with
      | manager change => exact hsound.sendManager _
      | renameControl message => exact { hsound with }
      | watcher event => exact hsound.deliver event

theorem managerInbox_deliver (event : Event) :
    (s.deliver event).managerInbox = s.managerInbox := by
  unfold Network.deliver
  split <;> rfl

theorem managerInbox_foldl_tell_of_gone (hgone : s.managerGone = true) (told : List Told) :
    (told.foldl tell s).managerInbox = s.managerInbox := by
  induction told generalizing s with
  | nil => rfl
  | cons first told ih =>
      rw [List.foldl_cons, ih (by rw [managerGone_tell, hgone])]
      cases first with
      | manager change => simp [tell, Network.sendManager, hgone]
      | renameControl message => rfl
      | watcher event => exact managerInbox_deliver event

theorem Sound.finish (hlost : s.managerGone = true → s.managerInbox = []) :
    (s.finish disk event reply).Sound := by
  unfold Network.finish
  split
  · refine Sound.foldl_tell ?_ _
    exact {
      lostManager := hlost
      lostWatcher := fun hgone => by cases hgone
      asked := fun _ _ _ hasked => by cases hasked
      answered := fun _ _ _ _ hanswered => by cases hanswered }
  · exact {
      lostManager := fun hgone => by
        have hgone' : s.managerGone = true := (managerGone_foldl_tell _).symm.trans hgone
        exact (managerInbox_foldl_tell_of_gone hgone' _).trans (hlost hgone')
      lostWatcher := fun _ => rfl
      asked := fun _ _ _ hasked => by cases hasked
      answered := fun _ _ _ _ hanswered => by cases hanswered }

theorem Sound.replied (hsound : s.Sound) {path : Path} {rest : List ManagerMessage}
    (hinbox : s.managerInbox = .whatIs path :: rest) (reply : ManagerReply) :
    Sound { s with managerInbox := rest, watcher := s.watcher.reply reply } where
  lostManager hgone := by
    have hnone := hsound.lostManager hgone
    rw [hinbox] at hnone
    cases hnone
  lostWatcher hgone := by
    cases hwatcher : s.watcher with
    | gone => exact hsound.lostWatcher hwatcher
    | _ => simp [hwatcher, WatcherState.reply] at hgone
  asked disk event path hasked := by
    cases hwatcher : s.watcher <;> simp [hwatcher, WatcherState.reply] at hasked
  answered disk event path reply' hanswered := by
    cases hwatcher : s.watcher with
    | asked disk' event' path' =>
        simp only [hwatcher, WatcherState.reply, WatcherState.answered.injEq] at hanswered
        obtain ⟨-, rfl, -, -⟩ := hanswered
        exact (hsound.asked disk' _ path' hwatcher).1
    | answered disk' event' path' reply'' =>
        simp only [hwatcher, WatcherState.reply, WatcherState.answered.injEq] at hanswered
        obtain ⟨-, rfl, -, -⟩ := hanswered
        exact hsound.answered disk' _ path' reply'' hwatcher
    | _ => simp [hwatcher, WatcherState.reply] at hanswered

theorem Sound.loseManager (hsound : s.Sound) : s.loseManager.Sound where
  lostManager _ := rfl
  lostWatcher := hsound.lostWatcher
  asked disk event path hasked :=
    ⟨(hsound.asked disk event path hasked).1, fun hthere => by cases hthere⟩
  answered := hsound.answered

theorem sound_of_step (s : Network) (act : NetworkAct) (s' : Network) (hsound : s.Sound)
    (hstep : s.Step act s') : s'.Sound := by
  cases hstep using step_cases with
  | notify event => exact hsound.deliver event
  | handle disk event inbox _ hidle hinbox hasks => exact Sound.finish hsound.lostManager
  | ask disk event inbox path _ hidle hinbox hasks =>
      refine {
        lostManager := fun hgone => ?_
        lostWatcher := fun hgone => ?_
        asked := fun disk' event' path' hasked => ?_
        answered := fun disk' event' path' reply hanswered => ?_ }
      · rw [managerGone_sendManager] at hgone
        rw [Network.sendManager, if_pos hgone]
        exact hsound.lostManager hgone
      · rw [watcher_sendManager] at hgone
        cases hgone
      · rw [watcher_sendManager] at hasked
        obtain ⟨-, rfl, rfl⟩ := WatcherState.asked.inj hasked
        refine ⟨by rw [hasks]; rfl, fun hthere => ?_⟩
        rw [managerGone_sendManager] at hthere
        simp [Network.sendManager, show s.managerGone = false from hthere]
      · rw [watcher_sendManager] at hanswered
        cases hanswered
  | resume disk event path reply _ hanswered => exact Sound.finish hsound.lostManager
  | noReply disk event path _ hasked hgone =>
      exact {
        lostManager := hsound.lostManager
        lostWatcher := fun _ => rfl
        asked := fun _ _ _ hasked => by cases hasked
        answered := fun _ _ _ _ hanswered => by cases hanswered }
  | change fresh change rest manager _ hinbox hchange =>
      refine { hsound with lostManager := fun hgone => ?_, asked := fun d e p hasked => ?_ }
      · have hnone := hsound.lostManager hgone
        rw [hinbox] at hnone
        cases hnone
      · obtain ⟨hasks, hon⟩ := hsound.asked d e p hasked
        refine ⟨hasks, fun hthere => ?_⟩
        have hmem := hon hthere
        rw [hinbox] at hmem
        simpa using hmem
  | changePanics fresh change rest panic _ hinbox hchange =>
      have hsound' : Sound { s with
          manager := { s.manager with
            localStorage := changeLocalStorage s.manager.localStorage change } } :=
        { hsound with }
      exact hsound'.loseManager
  | whatIs fresh path rest reply _ hinbox hwhatIs => exact hsound.replied hinbox reply
  | whatIsPanics fresh path rest panic _ hinbox hwhatIs => exact hsound.loseManager
  | control control =>
      have hsound' : Sound { s with control } := { hsound with }
      exact hsound'
  | fire task timer control =>
      have hsound' : Sound { s with control } := { hsound with }
      exact hsound'.deliver _
  | post task control =>
      have hsound' : Sound { s with control } := { hsound with }
      exact hsound'

/-- Each step that the actors take by themselves makes the work less. -/
theorem work_of_step (s : Network) (act : NetworkAct) (s' : Network) (hsound : s.Sound)
    (hinternal : act.Internal) (hstep : s.Step act s') : s'.work < s.work := by
  cases hstep using step_cases with
  | notify event => exact absurd rfl (hinternal event)
  | handle disk event inbox _ hidle hinbox hasks =>
      have hpos := event.kind.work_pos
      have hfinish : (Network.finish { s with inbox } disk event .none).work + s.watcher.work ≤
          Network.work { s with inbox } + (event.kind.work - 1) :=
        work_finish_le fun told hleads =>
          Nat.le_sub_one_of_lt (EventWatcher.work_of_leads hasks hleads)
      have hwork : s.work = Network.work { s with inbox } + event.kind.work := by
        simp only [work, hinbox, List.map_cons, List.sum_cons]
        omega
      omega
  | ask disk event inbox path _ hidle hinbox hasks =>
      have hkind := event.work_of_asks (by rw [hasks]; rfl)
      have hsent := work_sendManager_le
        (s := { s with inbox, watcher := .asked disk event path }) (.whatIs path)
      have hwork : s.work + 3 =
          Network.work { s with inbox, watcher := .asked disk event path } + event.kind.work := by
        simp only [work, hinbox, hidle, WatcherState.work, List.map_cons, List.sum_cons]
        omega
      omega
  | resume disk event path reply _ hanswered =>
      have hasks := hsound.answered disk event path reply hanswered
      have hfinish : (s.finish disk event reply).work + s.watcher.work ≤ s.work + 2 :=
        work_finish_le fun told hleads => EventWatcher.work_of_leads_of_asks hasks hleads
      have hwatcher : s.watcher.work = 3 := by rw [hanswered, WatcherState.work]
      omega
  | noReply disk event path _ hasked hgone =>
      simp only [work, loseWatcher, hasked, WatcherState.work, List.map_nil, List.sum_nil]
      omega
  | change fresh change rest manager _ hinbox hchange =>
      simp only [work, hinbox, List.length_cons]
      omega
  | changePanics fresh change rest panic _ hinbox hchange =>
      simp only [work, loseManager, hinbox, List.length_cons, List.length_nil]
      omega
  | whatIs fresh path rest reply _ hinbox hwhatIs =>
      simp only [work, WatcherState.work_reply, hinbox, List.length_cons]
      omega
  | whatIsPanics fresh path rest panic _ hinbox hwhatIs =>
      simp only [work, loseManager, hinbox, List.length_cons, List.length_nil]
      omega
  | control control _ hcontrol =>
      have hless := RenameControl.work_of_handle hcontrol
      simp only [work]
      omega
  | fire task timer control _ htimer hcontrol =>
      have hless := RenameControl.work_of_fire hcontrol
      have htold := work_deliver_le (s := { s with control }) (Event.removed timer.path)
      have hremoved : (Event.removed timer.path).kind.work = 5 := rfl
      have hwork : Network.work { s with control } + 6 = s.work := by
        simp only [work]
        omega
      omega
  | post task control _ hcontrol =>
      have hless := RenameControl.work_of_post hcontrol
      simp only [work]
      omega

/-! ## Rest -/

structure AtRest (s : Network) : Prop where
  inbox : s.inbox = []
  watcher : s.watcher = .idle ∨ s.watcher = .gone
  managerInbox : s.managerInbox = []
  mailbox : s.control.mailbox = []
  timers : ∀ timer ∈ s.control.pool, timer.status = .finished ∨ timer.status = .aborted

theorem exists_manage {message : ManagerMessage} {rest : List ManagerMessage}
    (hinbox : s.managerInbox = message :: rest) (fresh : Broker) :
    ∃ s', s.Step (.manage fresh) s' := by
  cases message with
  | change change =>
      cases hchange : s.manager.handleChange fresh change <;>
        exact ⟨_, by simp only [Step, step, manage, hinbox, hchange]; rfl⟩
  | whatIs path =>
      cases hwhatIs : Manager.whatIs s.manager.state path <;>
        exact ⟨_, by simp only [Step, step, manage, hinbox, hwhatIs]; rfl⟩

theorem exists_take {inbox : List Event} (hidle : s.watcher = .idle)
    (hinbox : s.inbox = event :: inbox) (disk : Disk) : ∃ s', s.Step (.take disk) s' := by
  cases hasks : event.asks <;>
    exact ⟨_, by simp only [Step, step, Network.take, hidle, hinbox, hasks]; rfl⟩

theorem exists_fire {task : TaskId} {path : Path}
    (htask : s.control.pool[task]? = some ⟨path, .sleeping⟩) : ∃ s', s.Step (.fire task) s' :=
  ⟨_, by simp only [Step, step, RenameControl.step, htask]; rfl⟩

theorem exists_post {task : TaskId} {path : Path}
    (htask : s.control.pool[task]? = some ⟨path, .fired⟩) : ∃ s', s.Step (.post task) s' :=
  ⟨_, by simp only [Step, step, RenameControl.step, htask]; rfl⟩

/-- Where no actor can go on, there is nothing to be done: none waits for another. -/
theorem atRest_of_stuck (hsound : s.Sound)
    (hstuck : ∀ act s', act.Internal → ¬ s.Step act s') : s.AtRest := by
  have hmanagerInbox : s.managerInbox = [] := by
    cases hinbox : s.managerInbox with
    | nil => rfl
    | cons message rest =>
        obtain ⟨s', hstep⟩ := exists_manage hinbox 0
        exact absurd hstep (hstuck _ _ (by simp [NetworkAct.Internal]))
  have hwatcher : s.watcher = .idle ∨ s.watcher = .gone := by
    cases hwatcher : s.watcher with
    | idle => exact .inl rfl
    | gone => exact .inr rfl
    | answered disk event path reply =>
        have hstep : s.Step .resume (s.finish disk event reply) := by
          simp only [Step, step, resume, hwatcher]
        exact absurd hstep (hstuck _ _ (by simp [NetworkAct.Internal]))
    | asked disk event path =>
        obtain ⟨-, hon⟩ := hsound.asked disk event path hwatcher
        have hgone : s.managerGone = true := by
          by_contra hthere
          have hmem := hon (Bool.eq_false_iff.2 hthere)
          simp [hmanagerInbox] at hmem
        have hstep : s.Step .resume s.loseWatcher := by
          simp only [Step, step, resume, hwatcher, hgone, if_true]
        exact absurd hstep (hstuck _ _ (by simp [NetworkAct.Internal]))
  refine ⟨?_, hwatcher, hmanagerInbox, ?_, ?_⟩
  · rcases hwatcher with hidle | hgone
    · cases hinbox : s.inbox with
      | nil => rfl
      | cons event inbox =>
          obtain ⟨s', hstep⟩ := exists_take hidle hinbox .still
          exact absurd hstep (hstuck _ _ (by simp [NetworkAct.Internal]))
    · exact hsound.lostWatcher hgone
  · cases hmailbox : s.control.mailbox with
    | nil => rfl
    | cons message mailbox =>
        have hstep : s.Step .control { s with
            control := RenameControl.handle { s.control with mailbox } message } := by
          simp only [Step, step, RenameControl.step, hmailbox, Option.map_some]
        exact absurd hstep (hstuck _ _ (by simp [NetworkAct.Internal]))
  · intro timer hmem
    obtain ⟨task, htask⟩ := List.mem_iff_getElem?.1 hmem
    obtain ⟨path, status⟩ := timer
    cases status with
    | sleeping =>
        obtain ⟨s', hstep⟩ := exists_fire htask
        exact absurd hstep (hstuck _ _ (by simp [NetworkAct.Internal]))
    | fired =>
        obtain ⟨s', hstep⟩ := exists_post htask
        exact absurd hstep (hstuck _ _ (by simp [NetworkAct.Internal]))
    | finished => exact .inl rfl
    | aborted => exact .inr rfl

theorem stuck_of_atRest (hrest : s.AtRest) (hinternal : act.Internal) : ¬ s.Step act s' := by
  intro hstep
  have htimer {task : TaskId} {path : Path} {status : TaskStatus}
      (htask : s.control.pool[task]? = some ⟨path, status⟩) :
      status = .finished ∨ status = .aborted :=
    hrest.timers _ (List.mem_of_getElem? htask)
  cases hstep using step_cases with
  | notify event => exact hinternal event rfl
  | handle disk event inbox _ hidle hinbox hasks => simp [hrest.inbox] at hinbox
  | ask disk event inbox path _ hidle hinbox hasks => simp [hrest.inbox] at hinbox
  | resume disk event path reply _ hanswered =>
      rcases hrest.watcher with hwatcher | hwatcher <;> simp [hwatcher] at hanswered
  | noReply disk event path _ hasked hgone =>
      rcases hrest.watcher with hwatcher | hwatcher <;> simp [hwatcher] at hasked
  | change fresh change rest manager _ hinbox hchange => simp [hrest.managerInbox] at hinbox
  | changePanics fresh change rest panic _ hinbox hchange =>
      simp [hrest.managerInbox] at hinbox
  | whatIs fresh path rest reply _ hinbox hwhatIs => simp [hrest.managerInbox] at hinbox
  | whatIsPanics fresh path rest panic _ hinbox hwhatIs => simp [hrest.managerInbox] at hinbox
  | control control _ hcontrol =>
      obtain ⟨message, mailbox, hmailbox, -⟩ := RenameControl.step_handle_iff.1 hcontrol
      simp [hrest.mailbox] at hmailbox
  | fire task timer control _ _ hcontrol =>
      obtain ⟨path, htask, -⟩ := RenameControl.step_fire_iff.1 hcontrol
      rcases htimer htask with hstatus | hstatus <;> cases hstatus
  | post task control _ hcontrol =>
      obtain ⟨path, htask, -⟩ := RenameControl.step_post_iff.1 hcontrol
      rcases htimer htask with hstatus | hstatus <;> cases hstatus

theorem AtRest.pending (hrest : s.AtRest) : s.pending = [] := by
  simp [Network.pending, pair, hrest.managerInbox, Served.State.pending]

theorem sound_of_run {path : Path} {manager : Manager} {acts : List NetworkAct}
    (hrun : Run Step (start path manager) acts s) : s.Sound :=
  run_keeps sound_of_step (sound_start path manager) hrun

/-- Left alone, the actors come to rest from wherever they are: what they can still do is
bounded, and they stop only where nothing is to be done.  If both are there then, every event
that arrived is handled, as if each was handled in one go when its turn came. -/
theorem comes_to_rest {path : Path} {manager : Manager} {acts : List NetworkAct} {s : Network}
    (hrun : Run Step (start path manager) acts s) :
    (∀ acts' s', (∀ act ∈ acts', act.Internal) → Run Step s acts' s' →
      acts'.length + s'.work ≤ s.work) ∧
    ((∀ act s', act.Internal → ¬ s.Step act s') ↔ s.AtRest) ∧
    (s.AtRest → s.watcher = .idle → s.managerGone = false →
      s.handled.map Prod.snd = s.arrived ∧
        Run (AtOnce path) (.new, manager) s.handled (s.skipper, s.manager)) := by
  have hsound := sound_of_run hrun
  refine ⟨fun acts' s' hinternal hrun' => ?_, ?_, fun hrest hidle hthere => ⟨?_, ?_⟩⟩
  · exact length_le_of_run sound_of_step work_of_step hsound hinternal hrun'
  · exact ⟨atRest_of_stuck hsound, fun hrest _ _ hinternal => stuck_of_atRest hrest hinternal⟩
  · rcases inOrder_of_run hrun with hgone | harrived
    · simp [hidle] at hgone
    · simpa [current, hidle, hrest.inbox] using harrived.symm
  · exact atOnce_of_run hrun hthere (by rw [hrest.pending]; exact .nil _)

theorem afterB_at_rest :
    afterB.AtRest ∧ afterB.work = 0 ∧ ∀ acts s, (∀ act ∈ acts, act.Internal) →
      Run Step afterB acts s → acts = [] := by
  obtain ⟨hbound, -, -⟩ := comes_to_rest run_afterB
  have hrest : afterB.AtRest := ⟨rfl, .inl rfl, rfl, rfl, nofun⟩
  refine ⟨hrest, rfl, fun acts s hinternal hrun => ?_⟩
  have hle := hbound acts s hinternal hrun
  rw [show afterB.work = 0 from rfl] at hle
  exact List.eq_nil_of_length_eq_zero (by omega)

end Network

end WsHyper.Directory
