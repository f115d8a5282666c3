import WsHyper.Lib.Spelling
import WsHyper.Directory.NetworkCrash
import WsHyper.Directory.Operations

/-!
# The tree follows the directory

The events that arrive tell what is done to the directory, and between them half renames, new
contents and removals that tell nothing.  `tree_follows`: whatever the actors do side by side,
at rest the tree lists what was done, unless a folder was made where the tree has no keys.
Then the manager is lost.
-/

namespace WsHyper.Directory

open WsHyper.Lib

/-- A path in the root directory, at whatever depth. -/
def Below (root : List Name) (path : Path) : Prop :=
  ∃ bucket folder, path = placeOf root bucket folder

/-- The event tells of no operation. -/
def Event.Quiet (root : List Name) (event : Event) : Prop :=
  match event.kind with
  | .any | .access | .modify | .other => True
  | .modifyName .any | .modifyName .toMode | .modifyName .other => True
  | .modifyName .fromMode | .remove .any | .remove .other =>
      ∃ path, event.paths = [path] ∧ Below root path
  | .create _ | .remove .folder | .remove .file => event.paths = []
  | .modifyName .both => False

def ManagerMessage.Quiet (root : List Name) : ManagerMessage → Prop
  | .change _ => False
  | .whatIs path => Below root path

def ManagerMessage.Means : ManagerMessage → Operation → Prop
  | .change c, operation => operation.Sends c
  | .whatIs _, _ => False

/-- The event tells the operation, with names that need no normalising. -/
def Event.Means (root : List Name) (event : Event) (operation : Operation) : Prop :=
  operation.event root = event ∧ operation.Plain root

/-- What operations have led to, and whether one of them made a folder where the tree has no
keys. -/
structure Outcome where
  listing : Listing
  unkeyed : Prop

def Outcome.after (outcome : Outcome) (operation : Operation) : Outcome :=
  { listing := operation.effect outcome.listing
    unkeyed := outcome.unkeyed ∨ operation.OpensUnkeyed outcome.listing }

def Outcome.Step (outcome : Outcome) (operation : Operation) (outcome' : Outcome) : Prop :=
  operation.Fits outcome.listing ∧ outcome' = outcome.after operation

theorem Outcome.unkeyed_of_run {outcome outcome' : Outcome} {operations : List Operation}
    (hrun : Run Outcome.Step outcome operations outcome') (hunkeyed : outcome.unkeyed) :
    outcome'.unkeyed := by
  refine run_keeps (fun outcome operation outcome' hunkeyed hstep => ?_) hunkeyed hrun
  rw [hstep.2]
  exact .inl hunkeyed

/-! ## Quiet events -/

section Quiet

variable {root : List Name} {event : Event} {path : Path} {disk : Disk} {reply : ManagerReply}

theorem not_quiet_event (operation : Operation) : ¬(operation.event root).Quiet root := by
  cases operation <;> simp [Operation.event, Event.Quiet]

theorem not_means_of_quiet (hquiet : event.Quiet root) (operation : Operation) :
    ¬event.Means root operation := by
  rintro ⟨rfl, -⟩
  exact not_quiet_event operation hquiet

theorem not_means_whatIs (operation : Operation) :
    ¬(ManagerMessage.whatIs path).Means operation := id

theorem asks_operation (operation : Operation) : (operation.event root).asks = none := by
  cases operation <;> rfl

theorem source_operation (operation : Operation) : (operation.event root).source = none := by
  cases operation <;> rfl

theorem below_of_asks (hquiet : event.Quiet root) (hasks : event.asks = some path) :
    Below root path := by
  have hlast (hpaths : ∃ path, event.paths = [path] ∧ Below root path)
      (hpath : event.paths.getLast? = some path) : Below root path := by
    obtain ⟨path', hpaths, hbelow⟩ := hpaths
    rw [hpaths, List.getLast?_singleton, Option.some.injEq] at hpath
    rwa [← hpath]
  unfold Event.asks at hasks
  split at hasks
  case h_1 hkind =>
      simp only [Event.Quiet, hkind] at hquiet
      exact hlast hquiet hasks
  case h_2 hkind =>
      simp only [Event.Quiet, hkind] at hquiet
      exact hlast hquiet hasks
  case h_3 => cases hasks

theorem below_of_source (hquiet : event.Quiet root) (hsource : event.source = some path) :
    Below root path := by
  unfold Event.source at hsource
  split at hsource
  case h_1 hkind =>
      simp only [Event.Quiet, hkind] at hquiet
      obtain ⟨path', hpaths, hbelow⟩ := hquiet
      rw [hpaths, List.getLast?_singleton, Option.some.injEq] at hsource
      rwa [← hsource]
  case h_2 => cases hsource

theorem quiet_removed (hbelow : Below root path) : (Event.removed path).Quiet root :=
  ⟨path, rfl, hbelow⟩

theorem handle_quiet (hquiet : event.Quiet root) :
    ∃ (renames : List RenameControl.Rename) (events : List Event),
      EventWatcher.handle disk (fun _ => .ok reply) (Path.ofNames root) .new event =
        .ok (renames.map .renameControl ++ events.map .watcher, .new) ∧
      ∀ e ∈ events, e.Quiet root := by
  obtain ⟨kind, paths⟩ := event
  cases kind with
  | any | access | modify | other => exact ⟨[], [], rfl, by simp⟩
  | create kind =>
      obtain rfl : paths = [] := hquiet
      cases kind <;> exact ⟨[], [], rfl, by simp⟩
  | modifyName mode =>
      cases mode with
      | any | toMode | other => exact ⟨[], [], rfl, by simp⟩
      | fromMode =>
          obtain ⟨path, hpaths, -⟩ := hquiet
          obtain rfl : paths = [path] := hpaths
          exact ⟨[.fromPath path], [], rfl, by simp⟩
      | both => exact absurd hquiet id
  | remove kind =>
      cases kind with
      | folder | file =>
          obtain rfl : paths = [] := hquiet
          exact ⟨[], [], rfl, by simp⟩
      | any | other =>
          obtain ⟨path, hpaths, -⟩ := hquiet
          obtain rfl : paths = [path] := hpaths
          cases reply with
          | none => exact ⟨[], [], rfl, by simp⟩
          | isDir =>
              exact ⟨[], [{ kind := .remove .folder, paths := [] }], rfl, by simp [Event.Quiet]⟩
          | isFile =>
              exact ⟨[], [{ kind := .remove .file, paths := [] }], rfl, by simp [Event.Quiet]⟩

theorem completes_whatIs {tree : BucketMap} (hpath : tree.path = Path.ofNames root)
    (hbelow : Below root path) : Completes (Manager.whatIs tree path) := by
  obtain ⟨bucket, folder, rfl⟩ := hbelow
  rw [Manager.whatIs]
  split_ifs
  · exact completes_ok _
  · rw [hpath, placeOf, Bucket.findBucket_below, ok_bind, unwrap_some, ok_bind,
      Key.fromBucket_below, unwrap_some, ok_bind]
    split_ifs <;> exact completes_ok _

end Quiet

def Told.event? : Told → Option Event
  | .watcher event => some event
  | _ => none

section Told

variable (renames : List RenameControl.Rename) (events : List Event) (change : Change)

theorem change?_quiet :
    (renames.map Told.renameControl ++ events.map Told.watcher).filterMap Told.change? = [] := by
  simp [List.filterMap_eq_nil_iff, Told.change?]

theorem event?_quiet :
    (renames.map Told.renameControl ++ events.map Told.watcher).filterMap Told.event? = events := by
  have hnone : (renames.map Told.renameControl).filterMap Told.event? = [] := by
    simp [List.filterMap_eq_nil_iff, Told.event?]
  rw [List.filterMap_append, hnone, List.nil_append, List.filterMap_map]
  exact List.filterMap_some

theorem change?_manager :
    (renames.map Told.renameControl ++ [Told.manager change]).filterMap Told.change? =
      [change] := by
  have hnone := change?_quiet renames []
  rw [List.map_nil, List.append_nil] at hnone
  rw [List.filterMap_append, hnone]
  rfl

theorem event?_manager :
    (renames.map Told.renameControl ++ [Told.manager change]).filterMap Told.event? = [] := by
  have hnone := event?_quiet renames []
  rw [List.map_nil, List.append_nil] at hnone
  rw [List.filterMap_append, hnone]
  rfl

end Told

namespace Network

variable {s s' : Network} {act : NetworkAct} {disk : Disk} {event : Event}
  {reply : ManagerReply} {told : List Told} {skipper : Skipper}

/-! ## What telling does to the mailboxes -/

theorem deliver_of_there (hthere : s.watcher ≠ .gone) (event : Event) :
    s.deliver event =
      { s with inbox := s.inbox ++ [event], arrived := s.arrived ++ [event] } := by
  unfold deliver
  split
  · contradiction
  · rfl

theorem foldl_tell_of_there (hmanager : s.managerGone = false) (hwatcher : s.watcher ≠ .gone)
    (told : List Told) :
    told.foldl tell s =
      { s with
        inbox := s.inbox ++ told.filterMap Told.event?
        arrived := s.arrived ++ told.filterMap Told.event?
        control := { s.control with
          mailbox := s.control.mailbox ++ told.flatMap Told.rename }
        managerInbox :=
          s.managerInbox ++ (told.filterMap Told.change?).map .change } := by
  induction told generalizing s with
  | nil => simp
  | cons first told ih =>
      rw [List.foldl_cons]
      cases first with
      | manager change =>
          rw [tell, sendManager, if_neg (by simp [hmanager]), ih (by exact hmanager)
            (by exact hwatcher)]
          simp [List.filterMap_cons, Told.change?, Told.event?, Told.rename]
      | renameControl message =>
          rw [tell, ih (by exact hmanager) (by exact hwatcher)]
          simp [List.filterMap_cons, Told.change?, Told.event?, Told.rename, RenameControl.tell]
      | watcher event =>
          rw [tell, deliver_of_there hwatcher, ih (by exact hmanager) (by exact hwatcher)]
          simp [List.filterMap_cons, Told.change?, Told.event?, Told.rename]

theorem finish_of_handle (hmanager : s.managerGone = false)
    (hhandle : EventWatcher.handle disk (fun _ => .ok reply) s.path s.skipper event =
      .ok (told, skipper)) :
    s.finish disk event reply =
      { s with
        watcher := .idle
        skipper
        handled := s.handled ++ [(disk, event)]
        inbox := s.inbox ++ told.filterMap Told.event?
        arrived := s.arrived ++ told.filterMap Told.event?
        control := { s.control with
          mailbox := s.control.mailbox ++ told.flatMap Told.rename }
        managerInbox :=
          s.managerInbox ++ (told.filterMap Told.change?).map .change } := by
  rw [finish, hhandle]
  dsimp only
  rw [foldl_tell_of_there (by exact hmanager) (by simp)]

end Network

/-! ## The directory and the actors -/

structure Watched where
  outcome : Outcome
  /-- The operations whose events the watcher has still to take. -/
  ahead : List Operation
  network : Network

namespace Watched

def start (root : List Name) (manager : Manager) : Watched :=
  { outcome := { listing := manager.state.listing, unkeyed := False }
    ahead := []
    network := .start (Path.ofNames root) manager }

/-- A step of the actors.  The events from outside are those of operations or quiet, the disk
is as an operation left it when the watcher takes its event, and a broker that is started is
a new one. -/
def Step (root : List Name) (new : Broker → Prop) (w : Watched) (act : NetworkAct)
    (w' : Watched) : Prop :=
  w.network.Step act w'.network ∧
  match act with
  | .notify event =>
      event.Quiet root ∧ w'.outcome = w.outcome ∧ w'.ahead = w.ahead ∨
      ∃ operation, event.Means root operation ∧ w.outcome.Step operation w'.outcome ∧
        w'.ahead = w.ahead ++ [operation]
  | .take disk =>
      w'.outcome = w.outcome ∧ ∀ event rest, w.network.inbox = event :: rest →
        event.Quiet root ∧ w'.ahead = w.ahead ∨
        ∃ operation, event.Means root operation ∧ operation.SeenOn root disk ∧
          w.ahead = operation :: w'.ahead
  | .manage fresh => new fresh ∧ w'.outcome = w.outcome ∧ w'.ahead = w.ahead
  | _ => w'.outcome = w.outcome ∧ w'.ahead = w.ahead

/-- The manager is there, and what is in the mailboxes leads from the tree to the outcome. -/
structure Going (root : List Name) (keyed : Broker → Bool) (w : Watched) : Prop where
  manager : w.network.managerGone = false
  watcher : w.network.watcher ≠ .gone
  path : w.network.path = Path.ofNames root
  treePath : w.network.manager.state.path = Path.ofNames root
  skipper : w.network.skipper = .new
  current : ∀ event ∈ w.network.current, event.Quiet root
  sources : ∀ input ∈ w.network.handled, ∀ path, input.2.source = some path → Below root path
  keyedBy : w.network.manager.state.KeyedBy keyed
  course : ∃ operations,
    Spells (ManagerMessage.Quiet root) ManagerMessage.Means w.network.managerInbox operations ∧
    Spells (Event.Quiet root) (Event.Means root) w.network.inbox w.ahead ∧
    Run Outcome.Step { listing := w.network.manager.state.listing, unkeyed := False }
      (operations ++ w.ahead) w.outcome

theorem going_start {root : List Name} {keyed : Broker → Bool} {manager : Manager}
    (hpath : manager.state.path = Path.ofNames root) (hkeyed : manager.state.KeyedBy keyed) :
    Going root keyed (start root manager) where
  manager := rfl
  watcher := by simp [start, Network.start]
  path := rfl
  treePath := hpath
  skipper := rfl
  current := by simp [start, Network.start, Network.current]
  sources := by simp [start, Network.start]
  keyedBy := hkeyed
  course := ⟨[], .nil, .nil, .nil _⟩

section Steps

variable {root : List Name} {keyed : Broker → Bool} {new : Broker → Prop} {w w' : Watched}
  {disk : Disk} {event : Event} {inbox : List Event} {path : Path} {reply : ManagerReply}
  {outcome : Outcome} {ahead operations : List Operation} {fresh : Broker} {change : Change}
  {rest : List ManagerMessage}

/-! Each step of an actor, with what it leaves. -/

/-- The watcher is through with an event, and what it told leads on to the outcome. -/
theorem Going.finish (hgoing : w.Going root keyed) {told : List Told}
    (hhandle : EventWatcher.handle disk (fun _ => .ok reply) (Path.ofNames root) .new event =
      .ok (told, .new))
    (hsource : ∀ path, event.source = some path → Below root path)
    (hmessages : Spells (ManagerMessage.Quiet root) ManagerMessage.Means
      (w.network.managerInbox ++ (told.filterMap Told.change?).map .change) operations)
    (hinbox : Spells (Event.Quiet root) (Event.Means root) (inbox ++ told.filterMap Told.event?)
      ahead)
    (hrun : Run Outcome.Step { listing := w.network.manager.state.listing, unkeyed := False }
      (operations ++ ahead) w.outcome) :
    Going root keyed { w with
      ahead, network := Network.finish { w.network with inbox } disk event reply } := by
  rw [Network.finish_of_handle (by exact hgoing.manager)
    (by rw [hgoing.path, hgoing.skipper]; exact hhandle)]
  refine { hgoing with
    watcher := by simp
    skipper := rfl
    current := by simp [Network.current]
    sources := fun input hinput => ?_
    course := ⟨operations, hmessages, hinbox, hrun⟩ }
  rcases List.mem_append.1 hinput with hold | hlast
  · exact hgoing.sources input hold
  · rw [List.mem_singleton.1 hlast]
    exact hsource

theorem Going.finish_quiet (hgoing : w.Going root keyed) (hquiet : event.Quiet root)
    (hmessages : Spells (ManagerMessage.Quiet root) ManagerMessage.Means w.network.managerInbox
      operations)
    (hinbox : Spells (Event.Quiet root) (Event.Means root) inbox ahead)
    (hrun : Run Outcome.Step { listing := w.network.manager.state.listing, unkeyed := False }
      (operations ++ ahead) w.outcome) :
    Going root keyed { w with
      ahead, network := Network.finish { w.network with inbox } disk event reply } := by
  obtain ⟨renames, events, hhandle, hquiets⟩ := handle_quiet hquiet
  refine hgoing.finish hhandle (fun _ => below_of_source hquiet) ?_ ?_ hrun
  · rw [change?_quiet, List.map_nil, List.append_nil]
    exact hmessages
  · rw [event?_quiet]
    exact hinbox.append_quiet hquiets

theorem Going.deliver (hgoing : w.Going root keyed)
    (hevent : event.Quiet root ∧ outcome = w.outcome ∧ ahead = w.ahead ∨
      ∃ operation, event.Means root operation ∧ w.outcome.Step operation outcome ∧
        ahead = w.ahead ++ [operation]) :
    Going root keyed { outcome, ahead, network := w.network.deliver event } := by
  obtain ⟨operations, hmessages, hinbox, hrun⟩ := hgoing.course
  rw [Network.deliver_of_there hgoing.watcher]
  rcases hevent with ⟨hquiet, rfl, rfl⟩ | ⟨operation, hmeans, hdone, rfl⟩
  · have hquiets : ∀ event' ∈ [event], event'.Quiet root := by simpa using hquiet
    exact { hgoing with course := ⟨operations, hmessages, hinbox.append_quiet hquiets, hrun⟩ }
  · have hrun' := hrun.concat hdone
    rw [List.append_assoc] at hrun'
    exact { hgoing with course := ⟨operations, hmessages, hinbox.concat hmeans, hrun'⟩ }

theorem Going.handle (hgoing : w.Going root keyed) (hinbox : w.network.inbox = event :: inbox)
    (hevent : event.Quiet root ∧ ahead = w.ahead ∨
      ∃ operation, event.Means root operation ∧ operation.SeenOn root disk ∧
        w.ahead = operation :: ahead) :
    Going root keyed { w with
      ahead, network := Network.finish { w.network with inbox } disk event .none } := by
  obtain ⟨operations, hmessages, hspells, hrun⟩ := hgoing.course
  rw [hinbox] at hspells
  rcases hevent with ⟨hquiet, rfl⟩ | ⟨operation, ⟨rfl, hplain⟩, hseen, hahead⟩
  · obtain ⟨-, hrest⟩ := hspells.of_cons_of_not_means (not_means_of_quiet hquiet)
    exact hgoing.finish_quiet hquiet hmessages hrest hrun
  · obtain ⟨operation', rest, hwords, -, hrest⟩ :=
      hspells.of_cons_of_not_quiet (not_quiet_event operation)
    rw [hahead] at hwords hrun
    obtain ⟨rfl, rfl⟩ := List.cons.inj hwords
    obtain ⟨renames, change, hsends, hhandle⟩ := Operation.handle_event hplain hseen
    have hmessages' : Spells (ManagerMessage.Quiet root) ManagerMessage.Means
        (w.network.managerInbox ++ ((renames.map Told.renameControl ++
          [Told.manager change]).filterMap Told.change?).map .change)
        (operations ++ [operation]) := by
      rw [change?_manager]
      exact hmessages.concat hsends
    refine hgoing.finish hhandle (fun path hsource => ?_) hmessages' ?_ ?_
    · rw [source_operation] at hsource
      cases hsource
    · rw [event?_manager, List.append_nil]
      exact hrest
    · rw [List.append_assoc]
      exact hrun

theorem Going.ask (hgoing : w.Going root keyed) (hinbox : w.network.inbox = event :: inbox)
    (hasks : event.asks = some path)
    (hevent : event.Quiet root ∧ ahead = w.ahead ∨
      ∃ operation, event.Means root operation ∧ operation.SeenOn root disk ∧
        w.ahead = operation :: ahead) :
    Going root keyed { w with
      ahead, network := Network.sendManager
        { w.network with inbox, watcher := .asked disk event path } (.whatIs path) } := by
  obtain ⟨operations, hmessages, hspells, hrun⟩ := hgoing.course
  have hnot (operation : Operation) : ¬event.Means root operation := by
    rintro ⟨rfl, -⟩
    rw [asks_operation] at hasks
    cases hasks
  obtain ⟨hquiet, rfl⟩ := hevent.resolve_right fun h => h.elim fun operation hmeans =>
    hnot operation hmeans.1
  rw [hinbox] at hspells
  obtain ⟨-, hrest⟩ := hspells.of_cons_of_not_means hnot
  rw [Network.sendManager, if_neg (by simp [hgoing.manager])]
  refine { hgoing with
    watcher := by simp
    current := by simpa [Network.current] using hquiet
    course := ⟨operations, hmessages.append_quiet fun message hmessage => ?_, hrest, hrun⟩ }
  rw [List.mem_singleton.1 hmessage]
  exact below_of_asks hquiet hasks

theorem Going.resume (hgoing : w.Going root keyed)
    (hwatcher : w.network.watcher = .answered disk event path reply) :
    Going root keyed { w with network := w.network.finish disk event reply } := by
  obtain ⟨operations, hmessages, hspells, hrun⟩ := hgoing.course
  have hquiet : event.Quiet root := by
    apply hgoing.current
    simp [Network.current, hwatcher]
  exact hgoing.finish_quiet hquiet hmessages hspells hrun

theorem Going.answer (hgoing : w.Going root keyed)
    (hinbox : w.network.managerInbox = .whatIs path :: rest) :
    Going root keyed { w with
      network := { w.network with
        managerInbox := rest
        watcher := w.network.watcher.reply reply } } := by
  obtain ⟨operations, hmessages, hspells, hrun⟩ := hgoing.course
  rw [hinbox] at hmessages
  obtain ⟨-, hrest⟩ := hmessages.of_cons_of_not_means not_means_whatIs
  have hwatcher := hgoing.watcher
  have hcurrent := hgoing.current
  exact { hgoing with
    watcher := by cases hstate : w.network.watcher <;> simp_all [WatcherState.reply]
    current := by
      cases hstate : w.network.watcher <;> simp_all [WatcherState.reply, Network.current]
    course := ⟨operations, hrest, hspells, hrun⟩ }

/-- The change in front is that of an operation: it is done, or the manager is lost at it. -/
theorem Going.change_cases (hgoing : w.Going root keyed) (hfresh : keyed fresh = false)
    (hinbox : w.network.managerInbox = .change change :: rest) :
    (∃ state, w.network.manager.state.change fresh change = .ok state ∧
      ∃ operations, Spells (ManagerMessage.Quiet root) ManagerMessage.Means rest operations ∧
        Run Outcome.Step { listing := state.listing, unkeyed := False }
          (operations ++ w.ahead) w.outcome) ∨
    (∃ panic, w.network.manager.state.change fresh change = .error panic) ∧
      w.outcome.unkeyed := by
  obtain ⟨operations, hmessages, hspells, hrun⟩ := hgoing.course
  rw [hinbox] at hmessages
  obtain ⟨operation, operations', rfl, hsends, hrest⟩ := hmessages.of_cons_of_not_quiet id
  rw [List.cons_append] at hrun
  obtain ⟨outcome, ⟨hfits, rfl⟩, hrun⟩ := run_cons_iff.1 hrun
  obtain ⟨hdone, hlost⟩ := BucketMap.change_of_fits hfresh hgoing.keyedBy hfits hsends
  by_cases hopens : operation.OpensUnkeyed w.network.manager.state.listing
  · exact .inr ⟨hlost hopens, Outcome.unkeyed_of_run hrun (.inr hopens)⟩
  · obtain ⟨state, hchange, hlisting⟩ := hdone hopens
    refine .inl ⟨state, hchange, operations', hrest, ?_⟩
    simpa only [Outcome.after, hlisting, hopens, or_false] using hrun

theorem Going.apply (hgoing : w.Going root keyed) {manager : Manager}
    (hfresh : keyed fresh = false) (hinbox : w.network.managerInbox = .change change :: rest)
    (hchange : w.network.manager.handleChange fresh change = .ok manager) :
    Going root keyed { w with network := { w.network with manager, managerInbox := rest } } := by
  obtain ⟨state, hstate, hmanager⟩ := bind_eq_ok hchange
  obtain rfl := Except.ok.inj hmanager
  rcases hgoing.change_cases hfresh hinbox with
    ⟨state', hstate', operations, hmessages, hrun⟩ | ⟨⟨panic, hpanic⟩, -⟩
  · obtain rfl := Except.ok.inj (hstate.symm.trans hstate')
    obtain ⟨-, -, hspells, -⟩ := hgoing.course
    exact { hgoing with
      treePath := (BucketMap.path_of_change hstate).trans hgoing.treePath
      keyedBy := BucketMap.keyedBy_of_change hfresh hgoing.keyedBy hstate
      course := ⟨operations, hmessages, hspells, hrun⟩ }
  · rw [hstate] at hpanic
    cases hpanic

theorem Going.control (hgoing : w.Going root keyed) (control : RenameControl) :
    Going root keyed { w with network := { w.network with control } } :=
  { hgoing with }

/-- A timer that sleeps is one of a source that the watcher handled. -/
theorem Going.below_of_sleeping (hgoing : w.Going root keyed) (hcounted : w.network.Counted)
    {task : TaskId}
    (htask : w.network.control.pool[task]? = some ⟨path, .sleeping⟩) : Below root path := by
  have hsources := hcounted.control.sources path
  have htimers : 0 < w.network.control.timers path .sleeping :=
    List.count_pos_iff.2 (List.mem_of_getElem? htask)
  have hpos : 0 < w.network.sources path := by
    rw [← hsources, RenameControl.waiting]
    omega
  obtain ⟨event, hevent, hsource⟩ := List.countP_pos_iff.1 hpos
  obtain ⟨input, hinput, rfl⟩ := List.mem_map.1 hevent
  exact hgoing.sources input hinput path (by simpa using hsource)

def Followed (root : List Name) (keyed : Broker → Bool) (w : Watched) : Prop :=
  w.network.Counted ∧
    (w.Going root keyed ∨ w.network.managerGone = true ∧ w.outcome.unkeyed)

theorem unkeyed_of_step (act : NetworkAct) (hstep : Step root new w act w')
    (hunkeyed : w.outcome.unkeyed) : w'.outcome.unkeyed := by
  have hsame (houtcome : w'.outcome = w.outcome) : w'.outcome.unkeyed := by
    rwa [houtcome]
  cases act with
  | notify event =>
      rcases hstep.2 with ⟨-, houtcome, -⟩ | ⟨operation, -, hdone, -⟩
      · exact hsame houtcome
      · rw [hdone.2]
        exact .inl hunkeyed
  | take disk => exact hsame hstep.2.1
  | resume => exact hsame hstep.2.1
  | manage fresh => exact hsame hstep.2.2.1
  | control => exact hsame hstep.2.1
  | fire task => exact hsame hstep.2.1
  | post task => exact hsame hstep.2.1

theorem going_of_step (hnew : ∀ broker, new broker → keyed broker = false) {act : NetworkAct}
    (hcounted : w.network.Counted) (hgoing : w.Going root keyed)
    (hstep : Step root new w act w') :
    w'.Going root keyed ∨ w'.network.managerGone = true ∧ w'.outcome.unkeyed := by
  obtain ⟨outcome, ahead, network⟩ := w'
  obtain ⟨hnetwork, hact⟩ := hstep
  dsimp only at hnetwork hact
  cases hnetwork using Network.step_cases with
  | notify event => exact .inl (hgoing.deliver hact)
  | handle disk event inbox _ hidle hinbox hasks =>
      obtain ⟨rfl, hevent⟩ := hact
      exact .inl (hgoing.handle hinbox (hevent event inbox hinbox))
  | ask disk event inbox path _ hidle hinbox hasks =>
      obtain ⟨rfl, hevent⟩ := hact
      exact .inl (hgoing.ask hinbox hasks (hevent event inbox hinbox))
  | resume disk event path reply _ hwatcher =>
      obtain ⟨rfl, rfl⟩ := hact
      exact .inl (hgoing.resume hwatcher)
  | noReply disk event path _ hwatcher hgone =>
      rw [hgoing.manager] at hgone
      cases hgone
  | change fresh change rest manager _ hinbox hchange =>
      obtain ⟨hfresh, rfl, rfl⟩ := hact
      exact .inl (hgoing.apply (hnew fresh hfresh) hinbox hchange)
  | changePanics fresh change rest panic _ hinbox hchange =>
      obtain ⟨hfresh, rfl, rfl⟩ := hact
      rcases hgoing.change_cases (hnew fresh hfresh) hinbox with
        ⟨state, hstate, -⟩ | ⟨-, hunkeyed⟩
      · rw [Manager.handleChange, hstate] at hchange
        cases hchange
      · exact .inr ⟨rfl, hunkeyed⟩
  | whatIs fresh path rest reply _ hinbox hwhatIs =>
      obtain ⟨-, rfl, rfl⟩ := hact
      exact .inl (hgoing.answer hinbox)
  | whatIsPanics fresh path rest panic _ hinbox hwhatIs =>
      obtain ⟨operations, hmessages, -⟩ := hgoing.course
      rw [hinbox] at hmessages
      obtain ⟨hbelow, -⟩ := hmessages.of_cons_of_not_means not_means_whatIs
      obtain ⟨reply, hreply⟩ := completes_whatIs hgoing.treePath hbelow
      rw [hreply] at hwhatIs
      cases hwhatIs
  | control control =>
      obtain ⟨rfl, rfl⟩ := hact
      exact .inl (hgoing.control control)
  | fire task timer control _ htask hfire =>
      obtain ⟨rfl, rfl⟩ := hact
      obtain ⟨path, hsleeping, -⟩ := RenameControl.step_fire_iff.1 hfire
      obtain rfl := Option.some.inj (htask.symm.trans hsleeping)
      have hbelow := hgoing.below_of_sleeping hcounted hsleeping
      exact .inl ((hgoing.control control).deliver (.inl ⟨quiet_removed hbelow, rfl, rfl⟩))
  | post task control =>
      obtain ⟨rfl, rfl⟩ := hact
      exact .inl (hgoing.control control)

theorem followed_of_step (hnew : ∀ broker, new broker → keyed broker = false) (w : Watched)
    (act : NetworkAct) (w' : Watched) (hinv : w.Followed root keyed)
    (hstep : Step root new w act w') : w'.Followed root keyed := by
  obtain ⟨hcounted, hgoing | ⟨hgone, hunkeyed⟩⟩ := hinv
  · exact ⟨Network.counted_of_step _ _ _ hcounted hstep.1,
      going_of_step hnew hcounted hgoing hstep⟩
  · refine ⟨Network.counted_of_step _ _ _ hcounted hstep.1, .inr ⟨?_, ?_⟩⟩
    · by_contra hthere
      rw [Network.managerGone_of_step hstep.1 (Bool.eq_false_iff.2 hthere)] at hgone
      cases hgone
    · exact unkeyed_of_step act hstep hunkeyed

end Steps

/-- In every run, whatever the actors do side by side: as long as no folder was made in one
without keys, the manager and the watcher are there, and at rest the tree lists what the
operations led to.  Once one was, the manager is lost at rest. -/
theorem tree_follows {root : List Name} {manager : Manager} {new : Broker → Prop}
    (hpath : manager.state.path = Path.ofNames root) (hapart : manager.state.BrokersApart)
    (hnew : ∀ broker, new broker →
      ∀ place, ¬manager.state.view.At (BucketMap.HasBroker broker) place)
    {acts : List NetworkAct} {w : Watched}
    (hrun : Run (Step root new) (start root manager) acts w) :
    (¬w.outcome.unkeyed → w.network.managerGone = false ∧ w.network.watcher ≠ .gone ∧
      (w.network.AtRest → w.network.manager.state.listing = w.outcome.listing)) ∧
    (w.outcome.unkeyed → w.network.AtRest → w.network.managerGone = true) := by
  obtain ⟨keyed, hkeyed, hfresh⟩ := BucketMap.exists_keyedBy hapart
  have hstart : (start root manager).Followed root keyed :=
    ⟨Network.counted_start _ _, .inl (going_start hpath hkeyed)⟩
  obtain ⟨-, hfollowed⟩ := run_keeps
    (followed_of_step fun broker hbroker => hfresh broker (hnew broker hbroker)) hstart hrun
  -- with empty mailboxes nothing is left between the tree and the outcome
  have hrest (hgoing : w.Going root keyed) (hrest : w.network.AtRest) :
      w.outcome = { listing := w.network.manager.state.listing, unkeyed := False } := by
    obtain ⟨operations, hmessages, hspells, hrun⟩ := hgoing.course
    rw [hrest.managerInbox, Spells.nil_iff] at hmessages
    rw [hrest.inbox, Spells.nil_iff] at hspells
    rw [hmessages, hspells] at hrun
    exact (run_nil_iff.1 hrun).symm
  constructor
  · intro hkeys
    have hgoing := hfollowed.resolve_right fun h => hkeys h.2
    exact ⟨hgoing.manager, hgoing.watcher, fun h => by rw [hrest hgoing h]⟩
  · intro hunkeyed h
    rcases hfollowed with hgoing | ⟨hgone, -⟩
    · rw [hrest hgoing h] at hunkeyed
      exact hunkeyed.elim
    · exact hgone

/-! ## The folder `l` of the bucket `b` is made, and becomes `m` -/

def managerB : Manager :=
  Network.managerD [(['b'], { objects := none, keys := some [], broker := 1 })]

def newL : Operation := .newKey bucketB [] ⟨['l'], by decide⟩

def lToM : Operation := .nameKey bucketB [] ⟨['l'], by decide⟩ ⟨['m'], by decide⟩

def toldM : Watched :=
  { outcome := ((start EventWatcher.rootD managerB).outcome.after newL).after lToM
    ahead := [newL, lToM]
    network := { Network.start [.ofStr ['d']] managerB with
      inbox := [newL.event EventWatcher.rootD, lToM.event EventWatcher.rootD]
      arrived := [newL.event EventWatcher.rootD, lToM.event EventWatcher.rootD] } }

def takenL : Watched :=
  { toldM with
    ahead := [lToM]
    network := { toldM.network with
      inbox := [lToM.event EventWatcher.rootD]
      managerInbox := [.change (.newKey ['b'] ['l'])]
      handled := [(Network.allDirs, newL.event EventWatcher.rootD)] } }

def afterM : Watched :=
  { toldM with
    ahead := []
    network := { toldM.network with
      inbox := []
      manager := Network.managerD [(['b'],
        { objects := none, keys := some [(['m'], .default 2)], broker := 1 })]
      handled := [(Network.allDirs, newL.event EventWatcher.rootD),
        (Network.allDirs, lToM.event EventWatcher.rootD)] } }

theorem legible_bucketB : Legible EventWatcher.rootD bucketB := by
  unfold Legible
  decide

theorem means_newL : (newL.event EventWatcher.rootD).Means EventWatcher.rootD newL :=
  ⟨rfl, legible_bucketB, by decide⟩

theorem means_lToM : (lToM.event EventWatcher.rootD).Means EventWatcher.rootD lToM :=
  ⟨rfl, legible_bucketB, by decide⟩

theorem step_take {w : Watched} {event : Event} {rest : List Event} {operation : Operation}
    {ahead : List Operation} {network : Network} {new : Broker → Prop}
    (hinbox : w.network.inbox = event :: rest)
    (hmeans : event.Means EventWatcher.rootD operation)
    (hseen : operation.SeenOn EventWatcher.rootD Network.allDirs)
    (hahead : w.ahead = operation :: ahead)
    (htake : w.network.Step (.take Network.allDirs) network) :
    Step EventWatcher.rootD new w (.take Network.allDirs) ⟨w.outcome, ahead, network⟩ := by
  refine ⟨htake, rfl, fun event' rest' hinbox' => .inr ⟨operation, ?_, hseen, hahead⟩⟩
  obtain ⟨rfl, -⟩ := List.cons.inj (hinbox.symm.trans hinbox')
  exact hmeans

theorem run_toldM {new : Broker → Prop} :
    Run (Step EventWatcher.rootD new) (start EventWatcher.rootD managerB)
      [.notify (newL.event EventWatcher.rootD), .notify (lToM.event EventWatcher.rootD)] toldM :=
  .cons (show Step _ _ _ _ ⟨_, _, _⟩ from
    ⟨rfl, .inr ⟨newL, means_newL, ⟨rfl, rfl⟩, rfl⟩⟩) <|
  .cons (show Step _ _ _ _ ⟨_, _, _⟩ from
    ⟨rfl, .inr ⟨lToM, means_lToM, ⟨⟨rfl, rfl⟩, rfl⟩, rfl⟩⟩) <| .nil _

/-- The watcher is ahead of the manager, and the events are ahead of both. -/
theorem run_afterM {new : Broker → Prop} (hnew : new 2 ∧ new 3) :
    Run (Step EventWatcher.rootD new) toldM
      [.take Network.allDirs, .take Network.allDirs, .manage 2, .manage 3, .control] afterM :=
  .cons (show Step _ _ _ _ takenL from step_take rfl means_newL trivial rfl rfl) <|
  .cons (step_take rfl means_lToM rfl rfl rfl) <|
  .cons (show Step _ _ _ _ ⟨_, _, _⟩ from ⟨rfl, hnew.1, rfl, rfl⟩) <|
  .cons (show Step _ _ _ _ ⟨_, _, _⟩ from ⟨rfl, hnew.2, rfl, rfl⟩) <|
  .cons (show Step _ _ _ _ ⟨_, _, _⟩ from ⟨rfl, rfl, rfl⟩) <| .nil _

theorem place_of_managerB {bucket : Bucket} {path : List Segment}
    {content : Multiset Object × Broker}
    (hview : managerB.state.view bucket path = some content) :
    bucket = ['b'] ∧ path = [] ∧ content.2 = 1 := by
  obtain ⟨entry, hentry, hplace⟩ := Option.bind_eq_some_iff.1 hview
  obtain ⟨rfl, rfl⟩ := Prod.mk.inj (List.mem_singleton.1 (AssocMap.mem_of_lookup hentry))
  cases path with
  | nil =>
      obtain rfl := Option.some.inj hplace
      exact ⟨rfl, rfl, rfl⟩
  | cons segment path => cases hplace

theorem l_followed_to_m :
    afterM.network.managerGone = false ∧ afterM.network.manager.state.listing =
      lToM.effect (newL.effect managerB.state.listing) := by
  have hapart : managerB.state.BrokersApart := by
    rintro broker ⟨bucket, path⟩ ⟨bucket', path'⟩ ⟨content, hview, -⟩ ⟨content', hview', -⟩
    obtain ⟨rfl, rfl, -⟩ := place_of_managerB hview
    obtain ⟨rfl, rfl, -⟩ := place_of_managerB hview'
    rfl
  have hnew (broker : Broker) (hbroker : 2 ≤ broker) (place : Place) :
      ¬managerB.state.view.At (BucketMap.HasBroker broker) place := by
    rintro ⟨content, hview, rfl⟩
    obtain ⟨-, -, hone⟩ := place_of_managerB hview
    rw [hone] at hbroker
    exact absurd hbroker (by decide)
  have hrun := run_append_iff.2 ⟨toldM, run_toldM, run_afterM ⟨Nat.le_refl 2, Nat.le_succ 2⟩⟩
  have hkeys : ¬afterM.outcome.unkeyed := by
    rintro ((hfalse | ⟨files, hfiles⟩) | hfalse)
    · exact hfalse
    · have hlisted : managerB.state.listing ['b'] [] = some (0, true) := rfl
      have hkeyed := (Prod.mk.inj (Option.some.inj (hlisted.symm.trans hfiles))).2
      cases hkeyed
    · exact hfalse
  obtain ⟨hthere, -, hlisting⟩ := (tree_follows rfl hapart hnew hrun).1 hkeys
  have hrest : afterM.network.AtRest :=
    ⟨rfl, .inl rfl, rfl, rfl, by simp [afterM, toldM, Network.start, RenameControl.new]⟩
  exact ⟨hthere, hlisting hrest⟩

end Watched

end WsHyper.Directory
