import WsHyper.Lib.Served
import WsHyper.Directory.EventWatcher

/-!
# The actors side by side

The watcher, `RenameControl` and the manager are tasks with mailboxes of their own,
and they take their steps in any order.  The watcher tells the manager changes and goes
on at once; only `WhatIs` it asks, and waits for the reply.  A handler that panics ends
its task: what is in its mailbox is lost, and so is what is sent to it later.
-/

namespace WsHyper.Directory

open WsHyper.Lib

inductive ManagerMessage
  | change (change : Change)
  | whatIs (path : Path)

inductive WatcherState
  | idle
  | asked (disk : Disk) (event : Event) (path : Path)
  | answered (disk : Disk) (event : Event) (path : Path) (reply : ManagerReply)
  | gone

def WatcherState.reply (reply : ManagerReply) : WatcherState → WatcherState
  | .asked disk event path => .answered disk event path reply
  | state => state

def Event.asks (event : Event) : Option Path :=
  match event.kind with
  | .remove .any | .remove .other => event.paths.getLast?
  | _ => none

def Event.toldFirst (event : Event) : List Told :=
  match event.kind, event.paths.reverse with
  | .modifyName .both, _ :: fromPath :: _ => [.renameControl (.decline fromPath)]
  | _, _ => []

def Event.removed (path : Path) : Event := { kind := .remove .any, paths := [path] }

structure Network where
  path : Path
  inbox : List Event
  watcher : WatcherState
  skipper : Skipper
  control : RenameControl
  managerInbox : List ManagerMessage
  manager : Manager
  managerGone : Bool
  /-- The events that got into the mailbox of the watcher, the oldest first. -/
  arrived : List Event
  /-- The events that the watcher is done with, each with what the disk answered. -/
  handled : List (Disk × Event)

def Disk.still : Disk :=
  { rename := fun _ _ => false
    isDir := fun _ => false
    file := fun _ => { metadata := none, checkSum := none }
    now := .epoch
    nanoid := [] }

inductive NetworkAct
  | notify (event : Event)
  | take (disk : Disk)
  /-- The watcher goes on after `ask`. -/
  | resume
  /-- The manager handles the next message, maybe with a new broker. -/
  | manage (fresh : Broker)
  | control
  | fire (task : TaskId)
  | post (task : TaskId)

namespace Network

/-- `Manager::start`. -/
def start (path : Path) (manager : Manager) : Network :=
  { path
    inbox := []
    watcher := .idle
    skipper := .new
    control := .new
    managerInbox := []
    manager
    managerGone := false
    arrived := []
    handled := [] }

def deliver (s : Network) (event : Event) : Network :=
  match s.watcher with
  | .gone => s
  | _ => { s with inbox := s.inbox ++ [event], arrived := s.arrived ++ [event] }

def sendManager (s : Network) (message : ManagerMessage) : Network :=
  if s.managerGone then s else { s with managerInbox := s.managerInbox ++ [message] }

def tell (s : Network) : Told → Network
  | .manager change => s.sendManager (.change change)
  | .renameControl message => { s with control := s.control.tell message }
  | .watcher event => s.deliver event

def loseWatcher (s : Network) : Network := { s with watcher := .gone, inbox := [] }

def loseManager (s : Network) : Network := { s with managerGone := true, managerInbox := [] }

def finish (s : Network) (disk : Disk) (event : Event) (reply : ManagerReply) : Network :=
  match EventWatcher.handle disk (fun _ => .ok reply) s.path s.skipper event with
  | .ok (told, skipper) =>
      told.foldl tell { s with
        watcher := .idle, skipper, handled := s.handled ++ [(disk, event)] }
  | .error _ => (event.toldFirst.foldl tell s).loseWatcher

def take (s : Network) (disk : Disk) : Option Network :=
  match s.watcher, s.inbox with
  | .idle, event :: inbox =>
      match event.asks with
      | none => some ({ s with inbox }.finish disk event .none)
      | some path =>
          some ({ s with inbox, watcher := .asked disk event path }.sendManager (.whatIs path))
  | _, _ => none

/-- Without the manager there is no reply, and its `unwrap` panics. -/
def resume (s : Network) : Option Network :=
  match s.watcher with
  | .answered disk event _ reply => some (s.finish disk event reply)
  | .asked _ _ _ => if s.managerGone then some s.loseWatcher else none
  | _ => none

/-- A change that panics in the tree has gone to the database before. -/
def manage (s : Network) (fresh : Broker) : Option Network :=
  match s.managerInbox with
  | [] => none
  | .change change :: rest =>
      match s.manager.handleChange fresh change with
      | .ok manager => some { s with manager, managerInbox := rest }
      | .error _ =>
          let localStorage := changeLocalStorage s.manager.localStorage change
          some { s with manager := { s.manager with localStorage } }.loseManager
  | .whatIs path :: rest =>
      match Manager.whatIs s.manager.state path with
      | .ok reply => some { s with managerInbox := rest, watcher := s.watcher.reply reply }
      | .error _ => some s.loseManager

def step (s : Network) : NetworkAct → Option Network
  | .notify event => some (s.deliver event)
  | .take disk => s.take disk
  | .resume => s.resume
  | .manage fresh => s.manage fresh
  | .control => (s.control.step .handle).map fun control => { s with control }
  | .fire task =>
      match s.control.pool[task]? with
      | none => none
      | some timer =>
          (s.control.step (.fire task)).map fun control =>
            { s with control }.deliver (.removed timer.path)
  | .post task => (s.control.step (.post task)).map fun control => { s with control }

def Step (s : Network) (act : NetworkAct) (s' : Network) : Prop := s.step act = some s'

@[elab_as_elim] theorem step_cases {s : Network}
    {motive : ∀ act s', s.Step act s' → Prop}
    (notify : ∀ event hstep, motive (.notify event) (s.deliver event) hstep)
    (handle : ∀ disk event inbox hstep, s.watcher = .idle → s.inbox = event :: inbox →
      event.asks = none →
      motive (.take disk) ({ s with inbox }.finish disk event .none) hstep)
    (ask : ∀ disk event inbox path hstep, s.watcher = .idle → s.inbox = event :: inbox →
      event.asks = some path →
      motive (.take disk)
        ({ s with inbox, watcher := .asked disk event path }.sendManager (.whatIs path)) hstep)
    (resume : ∀ disk event path reply hstep, s.watcher = .answered disk event path reply →
      motive .resume (s.finish disk event reply) hstep)
    (noReply : ∀ disk event path hstep, s.watcher = .asked disk event path →
      s.managerGone = true → motive .resume s.loseWatcher hstep)
    (change : ∀ fresh change rest manager hstep, s.managerInbox = .change change :: rest →
      s.manager.handleChange fresh change = .ok manager →
      motive (.manage fresh) { s with manager, managerInbox := rest } hstep)
    (changePanics : ∀ fresh change rest panic hstep, s.managerInbox = .change change :: rest →
      s.manager.handleChange fresh change = .error panic →
      motive (.manage fresh)
        { s with
          manager := { s.manager with
            localStorage := changeLocalStorage s.manager.localStorage change } }.loseManager
        hstep)
    (whatIs : ∀ fresh path rest reply hstep, s.managerInbox = .whatIs path :: rest →
      Manager.whatIs s.manager.state path = .ok reply →
      motive (.manage fresh)
        { s with managerInbox := rest, watcher := s.watcher.reply reply } hstep)
    (whatIsPanics : ∀ fresh path rest panic hstep, s.managerInbox = .whatIs path :: rest →
      Manager.whatIs s.manager.state path = .error panic →
      motive (.manage fresh) s.loseManager hstep)
    (control : ∀ control hstep, s.control.Step .handle control →
      motive .control { s with control } hstep)
    (fire : ∀ task timer control hstep, s.control.pool[task]? = some timer →
      s.control.Step (.fire task) control →
      motive (.fire task) ({ s with control }.deliver (.removed timer.path)) hstep)
    (post : ∀ task control hstep, s.control.Step (.post task) control →
      motive (.post task) { s with control } hstep)
    {act : NetworkAct} {s' : Network} (hstep : s.Step act s') : motive act s' hstep := by
  have hgiven := hstep
  unfold Step step at hgiven
  split at hgiven
  case h_1 event =>
      obtain rfl := Option.some.inj hgiven
      exact notify event hstep
  case h_2 disk =>
      unfold Network.take at hgiven
      split at hgiven
      case h_1 event inbox hwatcher hinbox =>
          split at hgiven
          case h_1 hasks =>
              obtain rfl := Option.some.inj hgiven
              exact handle disk event inbox hstep hwatcher hinbox hasks
          case h_2 path hasks =>
              obtain rfl := Option.some.inj hgiven
              exact ask disk event inbox path hstep hwatcher hinbox hasks
      case h_2 => cases hgiven
  case h_3 =>
      unfold Network.resume at hgiven
      split at hgiven
      case h_1 disk event path reply hwatcher =>
          obtain rfl := Option.some.inj hgiven
          exact resume disk event path reply hstep hwatcher
      case h_2 disk event path hwatcher =>
          split_ifs at hgiven with hgone
          obtain rfl := Option.some.inj hgiven
          exact noReply disk event path hstep hwatcher hgone
      case h_3 => cases hgiven
  case h_4 fresh =>
      unfold Network.manage at hgiven
      split at hgiven
      case h_1 => cases hgiven
      case h_2 c rest hinbox =>
          split at hgiven
          case h_1 manager hchange =>
              obtain rfl := Option.some.inj hgiven
              exact change fresh c rest manager hstep hinbox hchange
          case h_2 panic hchange =>
              obtain rfl := Option.some.inj hgiven
              exact changePanics fresh c rest panic hstep hinbox hchange
      case h_3 path rest hinbox =>
          split at hgiven
          case h_1 reply hwhatIs =>
              obtain rfl := Option.some.inj hgiven
              exact whatIs fresh path rest reply hstep hinbox hwhatIs
          case h_2 panic hwhatIs =>
              obtain rfl := Option.some.inj hgiven
              exact whatIsPanics fresh path rest panic hstep hinbox hwhatIs
  case h_5 =>
      obtain ⟨c, hcontrol, rfl⟩ := Option.map_eq_some_iff.1 hgiven
      exact control c hstep hcontrol
  case h_6 task =>
      split at hgiven
      case h_1 => cases hgiven
      case h_2 timer htimer =>
          obtain ⟨c, hcontrol, rfl⟩ := Option.map_eq_some_iff.1 hgiven
          exact fire task timer c hstep htimer hcontrol
  case h_7 task =>
      obtain ⟨c, hcontrol, rfl⟩ := Option.map_eq_some_iff.1 hgiven
      exact post task c hstep hcontrol

end Network

end WsHyper.Directory
