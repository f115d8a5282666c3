import WsHyper.Directory.Browsing
import WsHyper.Directory.ObjectLookup
import WsHyper.Lib.FairLock

/-!
# The lock on the tree

The tree is behind a fair lock.  `entry` and `file_name` read it, and so does the manager,
which also changes it.  They are done as soon as they have the lock, so it makes no difference
that readers may have it together.  An upgrade is not: it holds the lock while it waits for
its websocket, and the websocket is there once the upgrade is answered.  So no upgrade is ever
answered, and whoever comes after it waits until its connection is closed.
-/

namespace WsHyper.Directory

open WsHyper.Lib

inductive TreeTask
  | entry (request : TreeRequest)
  | fileName (request : FileNameReq)
  | whatIs (path : Path)
  | change (fresh : Broker) (change : Change)

inductive TreeReply
  | entry (answer : Except Panic TreeAnswer)
  | fileName (reply : Except NotFound FileNameReply)
  | whatIs (reply : Except Panic ManagerReply)
  | change (result : Except Panic Unit)

/-- `entry` comes to the lock; other requests are answered without the tree. -/
def TreeRequest.locks (request : TreeRequest) : Bool :=
  (stripTree request.path).any fun path =>
    request.method = .get && path ≠ [] && (!request.isUpgrade || request.upgrades)

/-- The request comes to `subscriber`. -/
def TreeRequest.Subscribes (request : TreeRequest) : Prop :=
  request.isUpgrade = true ∧ request.locks = true

def TreeTask.Subscribes : TreeTask → Prop
  | .entry request => request.Subscribes
  | .fileName _ | .whatIs _ | .change _ _ => False

/-- Nothing of the tree is in the reply. -/
def TreeReply.Bare : TreeReply → Prop
  | .entry (.ok (.response _ none)) => True
  | .entry (.error _) => True
  | _ => False

def TreeReply.Starts : TreeReply → Prop
  | .entry (.ok (.switches (some _))) => True
  | _ => False

section Tasks

variable (rfc3339 : OffsetDateTime → Option Str)
  (websocket : Nat → List Nat → Nat → Option (Except Str Unit))

/-- The tasks of the service.  `websocket` is what the future of `upgrade` gives, by the number
of the request, the numbers of those that were answered, and the time. -/
def treeTasks : Tasks BucketMap TreeTask TreeReply where
  free tree
    | .entry request =>
        if request.locks then none else some (.entry (entry rfc3339 tree request))
    | .fileName _ | .whatIs _ | .change _ _ => none
  run s id
    | .entry request =>
        match entry rfc3339 s.value
          { request with websocket := websocket id s.answered s.polls } with
        | .error .pending => none
        | answer => some (s.value, .entry answer)
    | .fileName request => some (s.value, .fileName (BucketGrpcSrv.fileName s.value request))
    | .whatIs path => some (s.value, .whatIs (Manager.whatIs s.value path))
    | .change fresh change =>
        match s.value.change fresh change with
        | .ok tree => some (tree, .change (.ok ()))
        -- a change that panics has not changed anything yet
        | .error panic => some (s.value, .change (.error panic))
  leaves
    | .entry _ | .fileName _ => true
    | .whatIs _ | .change _ _ => false

abbrev TreeLock := FairLock BucketMap TreeTask TreeReply

/-! ## What a request comes to -/

variable {request : TreeRequest}

/-- What `entry` does once it has the lock. -/
theorem entry_of_locks (hlocks : request.locks = true) (tree : BucketMap) :
    ∃ bucket key, entry rfc3339 tree request =
      if request.isUpgrade then
        (do
          let broker ← tree.subscriber (some bucket) (some key) request.websocket
          .ok (.switches broker))
      else
        (do
          let found ← unwrap (tree.getEntry bucket key)
          let body ← json rfc3339 (.ofEntry found)
          .ok (.response 200 (some body))) := by
  unfold TreeRequest.locks at hlocks
  unfold entry
  cases hpath : stripTree request.path with
  | none => simp [hpath] at hlocks
  | some path =>
      simp only [hpath, Option.any_some, Bool.and_eq_true, decide_eq_true_eq] at hlocks
      obtain ⟨⟨hmethod, hempty⟩, hupgrades⟩ := hlocks
      refine ⟨(addressed path).1, (addressed path).2, ?_⟩
      dsimp only
      rw [if_neg (not_not.2 hmethod), if_neg hempty]
      cases hupgrade : request.isUpgrade with
      | false => rfl
      | true =>
          rw [hupgrade] at hupgrades
          rw [if_pos rfl, if_pos rfl, if_pos (by simpa using hupgrades)]

theorem entry_of_not_locks (hlocks : request.locks = false) (tree : BucketMap) :
    (TreeReply.entry (entry rfc3339 tree request)).Bare ∧
      entry rfc3339 tree request ≠ .error .pending := by
  unfold TreeRequest.locks at hlocks
  unfold entry
  cases hpath : stripTree request.path with
  | none => exact ⟨trivial, by simp⟩
  | some path =>
      simp only [hpath, Option.any_some, Bool.and_eq_false_iff, decide_eq_false_iff_not] at hlocks
      dsimp only
      split_ifs with hmethod hempty hupgrade hupgrades
      · exact ⟨trivial, by simp⟩
      · exact ⟨trivial, by simp⟩
      · simp [hempty, hupgrades, not_not.1 hmethod] at hlocks
      · exact ⟨trivial, by simp⟩
      · simp [hempty, hupgrade, not_not.1 hmethod] at hlocks

/-- An upgrade waits for its websocket. -/
theorem entry_of_subscribes (hsubscribes : request.Subscribes) (tree : BucketMap) :
    entry rfc3339 tree { request with websocket := none } = .error .pending := by
  obtain ⟨hupgrade, hlocks⟩ := hsubscribes
  obtain ⟨bucket, key, hentry⟩ :=
    entry_of_locks rfc3339 (show TreeRequest.locks { request with websocket := none } from hlocks)
      tree
  rw [hentry, if_pos hupgrade]
  rfl

theorem TreeReply.Bare.not_starts {reply : TreeReply} (hbare : reply.Bare) : ¬reply.Starts := by
  intro hstarts
  unfold Starts at hstarts
  split at hstarts
  · exact hbare
  · exact hstarts

theorem entry_of_not_subscribes (hnot : ¬request.Subscribes) (tree : BucketMap) :
    entry rfc3339 tree request ≠ .error .pending ∧
      ¬(TreeReply.entry (entry rfc3339 tree request)).Starts := by
  cases hlocks : request.locks with
  | false =>
      obtain ⟨hbare, hpending⟩ := entry_of_not_locks rfc3339 hlocks tree
      exact ⟨hpending, hbare.not_starts⟩
  | true =>
      have hupgrade : ¬request.isUpgrade = true := fun hupgrade => hnot ⟨hupgrade, hlocks⟩
      obtain ⟨bucket, key, hentry⟩ := entry_of_locks rfc3339 hlocks tree
      rw [hentry, if_neg hupgrade]
      cases tree.getEntry bucket key with
      | none => exact ⟨by simp, not_false⟩
      | some found =>
          rw [unwrap_some, ok_bind, json]
          split_ifs
          · exact ⟨by simp, not_false⟩
          · exact ⟨by simp, not_false⟩

/-! ## The lock -/

variable {rfc3339 websocket} {s : TreeLock} {id : Nat} {task : TreeTask} {tree : BucketMap}
  {reply : TreeReply}

/-- The websocket of a request is not there before its answer. -/
def After (websocket : Nat → List Nat → Nat → Option (Except Str Unit)) : Prop :=
  ∀ id answered time, id ∉ answered → websocket id answered time = none

theorem run_of_subscribes (hafter : After websocket) (hsubscribes : task.Subscribes)
    (hanswered : id ∉ s.answered) : (treeTasks rfc3339 websocket).run s id task = none := by
  cases task with
  | entry request =>
      simp only [treeTasks, hafter id s.answered s.polls hanswered,
        entry_of_subscribes rfc3339 hsubscribes s.value]
  | fileName request => exact hsubscribes.elim
  | whatIs path => exact hsubscribes.elim
  | change fresh change => exact hsubscribes.elim

theorem exists_run_of_not_subscribes (hnot : ¬task.Subscribes) :
    ∃ value reply, (treeTasks rfc3339 websocket).run s id task = some (value, reply) ∧
      ¬reply.Starts := by
  cases task with
  | fileName request => exact ⟨_, _, rfl, not_false⟩
  | whatIs path => exact ⟨_, _, rfl, not_false⟩
  | change fresh change =>
      simp only [treeTasks]
      cases s.value.change fresh change with
      | ok tree => exact ⟨_, _, rfl, not_false⟩
      | error panic => exact ⟨_, _, rfl, not_false⟩
  | entry request =>
      have hnot' : ¬TreeRequest.Subscribes { request with
        websocket := websocket id s.answered s.polls } := hnot
      obtain ⟨hpending, hstarts⟩ := entry_of_not_subscribes rfc3339 hnot' s.value
      simp only [treeTasks]
      cases hentry : entry rfc3339 s.value
          { request with websocket := websocket id s.answered s.polls } with
      | ok answer =>
          rw [hentry] at hstarts
          exact ⟨_, _, rfl, hstarts⟩
      | error panic =>
          rw [hentry] at hpending
          cases panic with
          | pending => exact absurd rfl hpending
          | _ => exact ⟨_, _, rfl, not_false⟩

theorem bare_of_free (hfree : (treeTasks rfc3339 websocket).free tree task = some reply) :
    reply.Bare ∧ ¬task.Subscribes := by
  cases task with
  | entry request =>
      simp only [treeTasks] at hfree
      split_ifs at hfree with hlocks
      obtain rfl := Option.some.inj hfree
      rw [Bool.not_eq_true] at hlocks
      refine ⟨(entry_of_not_locks rfc3339 hlocks tree).1, fun hsubscribes => ?_⟩
      rw [hsubscribes.2] at hlocks
      cases hlocks
  | fileName request => cases hfree
  | whatIs path => cases hfree
  | change fresh change => cases hfree

end Tasks

/-- What is to be said of a state of the lock. -/
structure HeldUp (tasks : Tasks BucketMap TreeTask TreeReply) (s : TreeLock) : Prop where
  /-- No upgrade is answered, and no websocket is started. -/
  unanswered : ∀ done ∈ s.replied, ¬done.task.Subscribes ∧ ¬done.reply.Starts
  /-- Until its connection is closed, an upgrade that has the lock has it to itself. -/
  blocked : ∀ id task, s.Has id task → task.Subscribes → ∀ acts s',
    Run (FairLock.Step tasks) s acts s' → .goes id ∉ acts →
      s'.Has id task ∧ s'.value = s.value ∧ ∃ bare : List (Replied TreeTask TreeReply),
        s'.replied = s.replied ++ bare ∧ ∀ done ∈ bare, done.reply.Bare
  released : ∀ id task queue, s.queue = (id, task) :: queue → task.Subscribes →
    (s.step tasks (.goes id)).queue = queue
  /-- Whoever else has the lock is done with the next poll. -/
  passed : ∀ id task queue, s.queue = (id, task) :: queue → ¬task.Subscribes →
    (s.step tasks .polls).queue = queue ∧
      ∃ reply, (s.step tasks .polls).replied = s.replied ++ [⟨id, task, reply⟩]

/-- The websocket of a peer that is there as soon as it is answered. -/
def whenAnswered (id : Nat) (answered : List Nat) (_ : Nat) : Option (Except Str Unit) :=
  if id ∈ answered then some (.ok ()) else none

theorem after_whenAnswered : After whenAnswered := fun _ _ _ hanswered => if_neg hanswered

def upgradeTo (path : String) : TreeRequest :=
  { getTree path with isUpgrade := true, upgrades := true }

end WsHyper.Directory
