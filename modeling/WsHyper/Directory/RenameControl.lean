import WsHyper.Lib.AssocMap
import WsHyper.Lib.Path
import WsHyper.Lib.Run

/-!
# Paired and unpaired renames

The watcher tells `RenameControl` the source of every rename.  A timer is started
for it; when it fires, the source is reported as removed.  When the rename turns
out to have a target, the watcher declines the source and the timer is aborted.

The control has one slot for each path, while any number of timers may run for
it.  The state below holds the control, its mailbox, the pool of timers it has
started and the `Remove(Any)` events they have told the watcher.  The mailbox, the
timers and the watcher take their steps in any order.
-/

namespace WsHyper.Directory

open WsHyper.Lib

abbrev TaskId := Nat

inductive TaskStatus
  /-- In `sleep`. -/
  | sleeping
  /-- The event is told, `Expire` is not. -/
  | fired
  | finished
  | aborted
  deriving DecidableEq

structure RenameTask where
  path : Path
  status : TaskStatus
  deriving DecidableEq

/-- `JoinHandle::abort` ends a task where it waits; past `sleep` it never does. -/
def RenameTask.abort (task : RenameTask) : RenameTask :=
  if task.status = .sleeping then { task with status := .aborted } else task

inductive RenameControl.Rename
  | fromPath (path : Path)
  | decline (path : Path)
  | expire (path : Path)
  deriving DecidableEq

structure RenameControl where
  /-- The slot of each path. -/
  tasks : AssocMap Path TaskId
  mailbox : List RenameControl.Rename
  pool : List RenameTask
  /-- The `Remove(Any)` events told to the watcher, each with its timer. -/
  sent : List (TaskId × Path)

inductive RenameAct
  | tellFrom (path : Path)
  | tellDecline (path : Path)
  | handle
  | fire (task : TaskId)
  | post (task : TaskId)
  deriving DecidableEq

namespace RenameControl

def new : RenameControl := { tasks := [], mailbox := [], pool := [], sent := [] }

def tell (s : RenameControl) (message : Rename) : RenameControl :=
  { s with mailbox := s.mailbox ++ [message] }

/-- `Handler::handle`. -/
def handle (s : RenameControl) : Rename → RenameControl
  | .fromPath path =>
      { s with
        tasks := s.tasks.put path s.pool.length
        pool := s.pool ++ [{ path, status := .sleeping }] }
  | .decline path =>
      match s.tasks.lookup path with
      | some task =>
          { s with
            tasks := s.tasks.erase path
            pool := s.pool.modify task RenameTask.abort }
      | none => s
  | .expire path => { s with tasks := s.tasks.erase path }

def step (s : RenameControl) : RenameAct → Option RenameControl
  | .tellFrom path => some (s.tell (.fromPath path))
  | .tellDecline path => some (s.tell (.decline path))
  | .handle =>
      match s.mailbox with
      | [] => none
      | message :: mailbox => some (handle { s with mailbox } message)
  | .fire task =>
      match s.pool[task]? with
      | some { path, status := .sleeping } =>
          some { s with
            pool := s.pool.set task { path, status := .fired }
            sent := s.sent ++ [(task, path)] }
      | _ => none
  | .post task =>
      match s.pool[task]? with
      | some { path, status := .fired } =>
          some (tell { s with pool := s.pool.set task { path, status := .finished } }
            (.expire path))
      | _ => none

def Step (s : RenameControl) (act : RenameAct) (s' : RenameControl) : Prop :=
  s.step act = some s'

/-! ## What a step can do -/

variable {s s' : RenameControl} {task : TaskId} {path : Path} {message : Rename}

theorem step_tellFrom_iff :
    s.Step (.tellFrom path) s' ↔ s' = s.tell (.fromPath path) := by
  rw [Step, step, Option.some.injEq, eq_comm]

theorem step_tellDecline_iff :
    s.Step (.tellDecline path) s' ↔ s' = s.tell (.decline path) := by
  rw [Step, step, Option.some.injEq, eq_comm]

theorem step_handle_iff :
    s.Step .handle s' ↔ ∃ message mailbox, s.mailbox = message :: mailbox ∧
      s' = handle { s with mailbox } message := by
  rw [Step, step]
  cases s.mailbox with
  | nil => simp
  | cons message mailbox => simp [eq_comm]

theorem step_fire_iff :
    s.Step (.fire task) s' ↔ ∃ path, s.pool[task]? = some ⟨path, .sleeping⟩ ∧
      s' = { s with
        pool := s.pool.set task ⟨path, .fired⟩
        sent := s.sent ++ [(task, path)] } := by
  rw [Step, step]
  constructor
  · intro hstep
    split at hstep
    · next path htask => exact ⟨path, htask, (Option.some.inj hstep).symm⟩
    · cases hstep
  · rintro ⟨path, htask, rfl⟩
    simp [htask]

theorem step_post_iff :
    s.Step (.post task) s' ↔ ∃ path, s.pool[task]? = some ⟨path, .fired⟩ ∧
      s' = tell { s with pool := s.pool.set task ⟨path, .finished⟩ } (.expire path) := by
  rw [Step, step]
  constructor
  · intro hstep
    split at hstep
    · next path htask => exact ⟨path, htask, (Option.some.inj hstep).symm⟩
    · cases hstep
  · rintro ⟨path, htask, rfl⟩
    simp [htask]

@[simp] theorem sent_handle : (s.handle message).sent = s.sent := by
  cases message with
  | fromPath path => rfl
  | decline path =>
      rw [handle]
      cases s.tasks.lookup path <;> rfl
  | expire path => rfl

/-- A handler changes a timer only where it declines the slot the timer is in. -/
theorem pool_handle (message : Rename) {entry : RenameTask} (htask : s.pool[task]? = some entry) :
    (s.handle message).pool[task]? = some entry ∨
      ∃ path, message = .decline path ∧ s.tasks.lookup path = some task ∧
        (s.handle message).pool[task]? = some entry.abort := by
  have hlt : task < s.pool.length := (List.getElem?_eq_some_iff.1 htask).1
  cases message with
  | fromPath path =>
      left
      rw [handle, List.getElem?_append_left hlt, htask]
  | decline path =>
      rw [handle]
      cases hslot : s.tasks.lookup path with
      | none => exact .inl htask
      | some slot =>
          by_cases hsame : slot = task
          · right
            refine ⟨path, rfl, by rw [hslot, hsame], ?_⟩
            simp [htask, hsame]
          · left
            simp [htask, hsame]
  | expire path => exact .inl htask

theorem task_of_step {act : RenameAct} {entry : RenameTask} (hstep : s.Step act s')
    (htask : s.pool[task]? = some entry) :
    s'.pool[task]? = some entry ∨
      (act = .fire task ∧ entry.status = .sleeping ∧
        s'.pool[task]? = some { entry with status := .fired }) ∨
      (act = .post task ∧ entry.status = .fired ∧
        s'.pool[task]? = some { entry with status := .finished }) ∨
      (act = .handle ∧ ∃ path rest, s.mailbox = .decline path :: rest ∧
        s.tasks.lookup path = some task ∧ s'.pool[task]? = some entry.abort) := by
  have hlt : task < s.pool.length := (List.getElem?_eq_some_iff.1 htask).1
  cases act with
  | tellFrom path =>
      obtain rfl := step_tellFrom_iff.1 hstep
      exact .inl htask
  | tellDecline path =>
      obtain rfl := step_tellDecline_iff.1 hstep
      exact .inl htask
  | handle =>
      obtain ⟨message, mailbox, hmailbox, rfl⟩ := step_handle_iff.1 hstep
      rcases pool_handle (s := { s with mailbox }) message htask with
        hsame | ⟨path, rfl, hslot, habort⟩
      · exact .inl hsame
      · exact .inr (.inr (.inr ⟨rfl, path, mailbox, hmailbox, hslot, habort⟩))
  | fire other =>
      obtain ⟨path, hother, rfl⟩ := step_fire_iff.1 hstep
      by_cases hsame : other = task
      · subst hsame
        obtain rfl := Option.some.inj (hother.symm.trans htask)
        exact .inr (.inl ⟨rfl, rfl, List.getElem?_set_self hlt⟩)
      · exact .inl (by rw [List.getElem?_set_ne hsame, htask])
  | post other =>
      obtain ⟨path, hother, rfl⟩ := step_post_iff.1 hstep
      by_cases hsame : other = task
      · subst hsame
        obtain rfl := Option.some.inj (hother.symm.trans htask)
        exact .inr (.inr (.inl ⟨rfl, rfl, List.getElem?_set_self hlt⟩))
      · left
        rw [tell, List.getElem?_set_ne hsame, htask]

theorem sent_of_step {act : RenameAct} (hstep : s.Step act s')
    (hsent : (task, path) ∈ s'.sent) :
    (task, path) ∈ s.sent ∨
      (act = .fire task ∧ s.pool[task]? = some ⟨path, .sleeping⟩ ∧
        s'.pool[task]? = some ⟨path, .fired⟩) := by
  cases act with
  | tellFrom path =>
      obtain rfl := step_tellFrom_iff.1 hstep
      exact .inl hsent
  | tellDecline path =>
      obtain rfl := step_tellDecline_iff.1 hstep
      exact .inl hsent
  | handle =>
      obtain ⟨message, mailbox, hmailbox, rfl⟩ := step_handle_iff.1 hstep
      rw [sent_handle] at hsent
      exact .inl hsent
  | fire other =>
      obtain ⟨path', hother, rfl⟩ := step_fire_iff.1 hstep
      rw [List.mem_append, List.mem_singleton] at hsent
      rcases hsent with hold | hnew
      · exact .inl hold
      · obtain ⟨rfl, rfl⟩ := Prod.mk.inj hnew
        have hlt : task < s.pool.length := (List.getElem?_eq_some_iff.1 hother).1
        exact .inr ⟨rfl, hother, List.getElem?_set_self hlt⟩
  | post other =>
      obtain ⟨path', hother, rfl⟩ := step_post_iff.1 hstep
      exact .inl hsent

/-! ## A paired rename is not a deletion -/

def SentFired (s : RenameControl) : Prop :=
  ∀ task path, (task, path) ∈ s.sent →
    ∃ status, s.pool[task]? = some ⟨path, status⟩ ∧ (status = .fired ∨ status = .finished)

def Silenced (task : TaskId) (s : RenameControl) : Prop :=
  (∃ path, s.pool[task]? = some ⟨path, .aborted⟩) ∧ ∀ path, (task, path) ∉ s.sent

def Declines (s : RenameControl) (act : RenameAct) (path : Path) : Prop :=
  act = .handle ∧ s.mailbox.head? = some (.decline path)

/-- If `path` is declined, no timer that sleeps for it ever tells a removal,
whatever happens next. -/
def DeclineKept (s : RenameControl) (act : RenameAct) : Prop :=
  ∀ path, s.Declines act path → ∀ task, s.pool[task]? = some ⟨path, .sleeping⟩ →
    ∀ acts s', Run Step s (act :: acts) s' → ∀ path', (task, path') ∉ s'.sent

/-- If `path` is declined, its slot holds the only timer that sleeps for it. -/
def SlotHoldsSleeper (s : RenameControl) (act : RenameAct) : Prop :=
  ∀ path, s.Declines act path → ∀ task, s.pool[task]? = some ⟨path, .sleeping⟩ →
    s.tasks.lookup path = some task

theorem sentFired_of_step (s : RenameControl) (act : RenameAct) (s' : RenameControl)
    (hinv : s.SentFired) (hstep : s.Step act s') : s'.SentFired := by
  intro task path hsent
  rcases sent_of_step hstep hsent with hold | ⟨-, -, hfired⟩
  · obtain ⟨status, htask, hstatus⟩ := hinv task path hold
    rcases task_of_step hstep htask with hsame | ⟨-, hsleeping, -⟩ | ⟨-, -, hfinished⟩ |
      ⟨-, _, _, -, -, habort⟩
    · exact ⟨status, hsame, hstatus⟩
    · rcases hstatus with rfl | rfl <;> cases hsleeping
    · exact ⟨.finished, hfinished, .inr rfl⟩
    · refine ⟨status, ?_, hstatus⟩
      rw [habort]
      rcases hstatus with rfl | rfl <;> rfl
  · exact ⟨.fired, hfired, .inl rfl⟩

theorem silenced_of_step (task : TaskId) (s : RenameControl) (act : RenameAct)
    (s' : RenameControl) (hinv : s.Silenced task) (hstep : s.Step act s') :
    s'.Silenced task := by
  obtain ⟨⟨path, htask⟩, hunsent⟩ := hinv
  constructor
  · rcases task_of_step hstep htask with hsame | ⟨-, hstatus, -⟩ | ⟨-, hstatus, -⟩ |
      ⟨-, _, _, -, -, habort⟩
    · exact ⟨path, hsame⟩
    · cases hstatus
    · cases hstatus
    · exact ⟨path, habort⟩
  · intro path' hsent
    rcases sent_of_step hstep hsent with hold | ⟨-, hsleeping, -⟩
    · exact hunsent path' hold
    · rw [htask] at hsleeping
      cases hsleeping

theorem declineKept_iff (s : RenameControl) (act : RenameAct) (hinv : s.SentFired) :
    s.DeclineKept act ↔ s.SlotHoldsSleeper act := by
  constructor
  · intro hkept path hdeclines task htask
    by_contra hslot
    obtain ⟨rfl, hhead⟩ := hdeclines
    obtain ⟨mailbox, hmailbox⟩ := List.head?_eq_some_iff.1 hhead
    have hstep : s.Step .handle (handle { s with mailbox } (.decline path)) :=
      step_handle_iff.2 ⟨_, mailbox, hmailbox, rfl⟩
    -- the timer outside the slot sleeps on, and may fire next
    have hsleeps : (handle { s with mailbox } (.decline path)).pool[task]? =
        some ⟨path, .sleeping⟩ := by
      rcases pool_handle (s := { s with mailbox }) (.decline path) htask with
        hsame | ⟨path', hpath', hslot', -⟩
      · exact hsame
      · cases hpath'
        exact absurd hslot' hslot
    have hfire := step_fire_iff.2 ⟨path, hsleeps, rfl⟩
    have hsilent := hkept path ⟨rfl, hhead⟩ task htask [.fire task] _
      (.cons hstep (.cons hfire (.nil _))) path
    simp at hsilent
  · intro hholds path hdeclines task htask acts s' hrun path'
    have hslot := hholds path hdeclines task htask
    obtain ⟨rfl, hhead⟩ := hdeclines
    obtain ⟨mailbox, hmailbox⟩ := List.head?_eq_some_iff.1 hhead
    obtain ⟨t, hstep, hrest⟩ := run_cons_iff.1 hrun
    obtain ⟨message, mailbox', hmailbox', rfl⟩ := step_handle_iff.1 hstep
    rw [hmailbox] at hmailbox'
    obtain ⟨rfl, rfl⟩ := List.cons.inj hmailbox'
    have hsilenced : (handle { s with mailbox } (.decline path)).Silenced task := by
      constructor
      · refine ⟨path, ?_⟩
        simp [handle, hslot, htask, RenameTask.abort]
      · intro path'' hsent
        rw [sent_handle] at hsent
        obtain ⟨status, hentry, hstatus⟩ := hinv task path'' hsent
        rw [htask] at hentry
        cases hentry
        simp at hstatus
    exact (run_keeps (silenced_of_step task) hsilenced hrest).2 path'

theorem sentFired_new : new.SentFired := by
  intro task path hsent
  simp [new] at hsent

/-- In every run, a decline silences every timer that sleeps for its path exactly
if the path's slot holds the only such timer whenever a decline is handled. -/
theorem declines_kept_iff (acts : List RenameAct) :
    EachStep Step DeclineKept new acts ↔ EachStep Step SlotHoldsSleeper new acts :=
  eachStep_congr_of_keeps sentFired_of_step sentFired_new declineKept_iff

/-- Two sources of one path, then a decline: the timer of the first one runs on. -/
theorem decline_after_two_froms :
    ¬EachStep Step DeclineKept new
      [.tellFrom [], .tellFrom [], .tellDecline [], .handle, .handle, .handle, .fire 0] := by
  intro hkept
  have hdecline := hkept [.tellFrom [], .tellFrom [], .tellDecline [], .handle, .handle]
    .handle [.fire 0] _ rfl (.cons rfl (.cons rfl (.cons rfl (.cons rfl (.cons rfl (.nil _))))))
  have hsilent := hdecline [] ⟨rfl, rfl⟩ 0 rfl [.fire 0] _
    (.cons rfl (.cons rfl (.nil _))) []
  exact hsilent (by decide)

end RenameControl

end WsHyper.Directory
