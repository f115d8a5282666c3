import WsHyper.Directory.Network

/-!
# One event after the other

Watcher and manager work side by side, and the manager may lag behind.  Still nothing
else comes of it than if every event was handled in one go: with the reply of a manager
who has done all changes of the earlier events, and all its own changes done at its end.
-/

namespace WsHyper.Directory

open WsHyper.Lib

def Told.change? : Told → Option Change
  | .manager change => some change
  | _ => none

def Manager.Applies (manager : Manager) (change : Change) (manager' : Manager) : Prop :=
  ∃ fresh, manager.handleChange fresh change = .ok manager'

def WatcherState.waiting : WatcherState → Served.Waiting (Disk × Event) Path ManagerReply
  | .idle | .gone => .idle
  | .asked disk event path => .asked (disk, event) path
  | .answered disk event path reply => .answered (disk, event) path reply

def ManagerMessage.message : ManagerMessage → Served.Message Change Path
  | .change c => .command c
  | .whatIs path => .question path

namespace EventWatcher

variable {disk : Disk} {root : Path} {skipper : Skipper} {event : Event}
  {whatIs whatIs' : Path → Except Panic ManagerReply}

theorem handle_congr (hwhatIs : ∀ path, event.asks = some path → whatIs path = whatIs' path) :
    handle disk whatIs root skipper event = handle disk whatIs' root skipper event := by
  obtain ⟨kind, paths⟩ := event
  cases kind with
  | remove kind =>
      cases kind with
      | folder => rfl
      | file => rfl
      | any =>
          cases hpath : paths.getLast? with
          | none => simp [handle, hpath]
          | some path => simp [handle, hpath, hwhatIs path hpath]
      | other =>
          cases hpath : paths.getLast? with
          | none => simp [handle, hpath]
          | some path => simp [handle, hpath, hwhatIs path hpath]
  | create kind => cases kind <;> rfl
  | modifyName mode => cases mode <;> rfl
  | any => rfl
  | access => rfl
  | modify => rfl
  | other => rfl

theorem completes_handle_of_asks {path : Path} {reply : ManagerReply}
    (hasks : event.asks = some path) :
    Completes (handle disk (fun _ => .ok reply) root skipper event) := by
  obtain ⟨kind, paths⟩ := event
  unfold Event.asks at hasks
  split at hasks
  case h_1 hkind =>
      obtain rfl : kind = .remove .any := hkind
      cases reply <;> simp [handle, show paths.getLast? = some path from hasks, Completes]
  case h_2 hkind =>
      obtain rfl : kind = .remove .other := hkind
      cases reply <;> simp [handle, show paths.getLast? = some path from hasks, Completes]
  case h_3 => cases hasks

end EventWatcher

namespace Network

def watching (path : Path) :
    Served Skipper Manager (Disk × Event) Change Path ManagerReply where
  asks input := input.2.asks
  handle skipper input reply skipper' changes := ∃ told,
    EventWatcher.handle input.1 (fun _ => .ok (reply.getD .none)) path skipper input.2 =
      .ok (told, skipper') ∧ changes = told.filterMap Told.change?
  apply := Manager.Applies
  answer manager path reply := Manager.whatIs manager.state path = .ok reply

/-- An event is handled with the reply of the manager as it is, who then does the changes. -/
def AtOnce (path : Path) (state : Skipper × Manager) (input : Disk × Event)
    (state' : Skipper × Manager) : Prop :=
  ∃ told, EventWatcher.handle input.1 (Manager.whatIs state.2.state) path state.1 input.2 =
      .ok (told, state'.1) ∧
    Run Manager.Applies state.2 (told.filterMap Told.change?) state'.2

theorem atOnce_of_watching {path : Path} {state state' : Skipper × Manager}
    {input : Disk × Event} (honce : (watching path).AtOnce state input state') :
    AtOnce path state input state' := by
  cases honce with
  | plain hasks hhandle happly =>
      obtain ⟨told, htold, rfl⟩ := hhandle
      refine ⟨told, ?_, happly⟩
      rw [← htold]
      refine EventWatcher.handle_congr fun p hp => ?_
      rw [show input.2.asks = none from hasks] at hp
      cases hp
  | @asking _ _ _ _ _ question answer _ hasks hanswer hhandle happly =>
      obtain ⟨told, htold, rfl⟩ := hhandle
      refine ⟨told, ?_, happly⟩
      rw [← htold]
      refine EventWatcher.handle_congr fun p hp => ?_
      obtain rfl := Option.some.inj ((show input.2.asks = some question from hasks).symm.trans hp)
      exact hanswer

def pair (s : Network) : Served.State Skipper Manager (Disk × Event) Change Path ManagerReply :=
  { client := s.skipper
    waiting := s.watcher.waiting
    queue := s.managerInbox.map ManagerMessage.message
    server := s.manager
    handled := s.handled }

def pending (s : Network) : List Change := s.pair.pending

section Telling

variable {s : Network}

theorem pair_deliver (event : Event) : (s.deliver event).pair = s.pair := by
  unfold deliver
  split <;> rfl

@[simp] theorem managerGone_deliver (event : Event) :
    (s.deliver event).managerGone = s.managerGone := by
  unfold deliver
  split <;> rfl

@[simp] theorem managerGone_sendManager (message : ManagerMessage) :
    (s.sendManager message).managerGone = s.managerGone := by
  unfold sendManager
  split_ifs <;> rfl

@[simp] theorem managerGone_tell (told : Told) : (s.tell told).managerGone = s.managerGone := by
  cases told with
  | manager change => exact managerGone_sendManager _
  | renameControl message => rfl
  | watcher event => exact managerGone_deliver event

@[simp] theorem managerGone_foldl_tell (told : List Told) :
    (told.foldl tell s).managerGone = s.managerGone := by
  induction told generalizing s with
  | nil => rfl
  | cons first told ih => rw [List.foldl_cons, ih, managerGone_tell]

theorem pair_sendManager (hthere : s.managerGone = false) (message : ManagerMessage) :
    (s.sendManager message).pair =
      { s.pair with queue := s.pair.queue ++ [message.message] } := by
  rw [sendManager, hthere]
  simp [pair]

theorem pair_tell (hthere : s.managerGone = false) (told : Told) :
    (s.tell told).pair =
      { s.pair with queue := s.pair.queue ++ told.change?.toList.map .command } := by
  cases told with
  | manager change => exact pair_sendManager hthere (.change change)
  | renameControl message => simp [tell, pair, Told.change?]
  | watcher event =>
      rw [tell, pair_deliver]
      simp [Told.change?]

/-- Of all that is told, the manager gets the changes, in order. -/
theorem pair_foldl_tell (hthere : s.managerGone = false) (told : List Told) :
    (told.foldl tell s).pair =
      { s.pair with
        queue := s.pair.queue ++ (told.filterMap Told.change?).map .command } := by
  induction told generalizing s with
  | nil => simp
  | cons first told ih =>
      have hfirst : (first :: told).filterMap Told.change? =
          first.change?.toList ++ told.filterMap Told.change? := by
        cases first <;> rfl
      rw [List.foldl_cons, ih (by rw [managerGone_tell, hthere]), pair_tell hthere, hfirst]
      simp

theorem toldFirst_change? (event : Event) : event.toldFirst.filterMap Told.change? = [] := by
  unfold Event.toldFirst
  split <;> rfl

end Telling

/-! ## The pair in a step -/

section Steps

variable {s s' : Network} {act : NetworkAct} {disk : Disk} {event : Event}
  {reply : ManagerReply}

theorem path_deliver : (s.deliver event).path = s.path := by
  unfold deliver
  split <;> rfl

theorem path_sendManager (message : ManagerMessage) : (s.sendManager message).path = s.path := by
  unfold sendManager
  split_ifs <;> rfl

theorem path_tell (told : Told) : (s.tell told).path = s.path := by
  cases told with
  | manager change => exact path_sendManager _
  | renameControl message => rfl
  | watcher event => exact path_deliver

@[simp] theorem path_foldl_tell (told : List Told) : (told.foldl tell s).path = s.path := by
  induction told generalizing s with
  | nil => rfl
  | cons first told ih => rw [List.foldl_cons, ih, path_tell]

theorem path_finish : (s.finish disk event reply).path = s.path := by
  unfold finish
  split
  · exact path_foldl_tell _
  · exact path_foldl_tell _

theorem pair_finish (hthere : s.managerGone = false) {told : List Told} {skipper : Skipper}
    (hhandle : EventWatcher.handle disk (fun _ => .ok reply) s.path s.skipper event =
      .ok (told, skipper)) :
    (s.finish disk event reply).pair =
      { client := skipper
        waiting := .idle
        queue := s.pair.queue ++ (told.filterMap Told.change?).map .command
        server := s.manager
        handled := s.handled ++ [(disk, event)] } := by
  rw [finish, hhandle]
  dsimp only
  rw [pair_foldl_tell (by exact hthere)]
  rfl

theorem pair_finish_error (hthere : s.managerGone = false) (hidle : s.watcher.waiting = .idle)
    {panic : Panic}
    (hhandle : EventWatcher.handle disk (fun _ => .ok reply) s.path s.skipper event =
      .error panic) :
    (s.finish disk event reply).pair = s.pair := by
  have htold := pair_foldl_tell hthere event.toldFirst
  rw [toldFirst_change?] at htold
  rw [finish, hhandle]
  calc
    _ = { (event.toldFirst.foldl tell s).pair with waiting := .idle } := rfl
    _ = s.pair := by
      rw [htold]
      simp [pair, hidle]

@[simp] theorem managerGone_finish : (s.finish disk event reply).managerGone = s.managerGone := by
  unfold finish
  split
  · rw [managerGone_foldl_tell]
  · exact managerGone_foldl_tell event.toldFirst

theorem managerGone_of_step (hstep : s.Step act s') (hthere : s'.managerGone = false) :
    s.managerGone = false := by
  cases hstep using step_cases with
  | notify event => rwa [managerGone_deliver] at hthere
  | handle disk event inbox => rwa [managerGone_finish] at hthere
  | ask disk event inbox path => rwa [managerGone_sendManager] at hthere
  | resume disk event path reply => rwa [managerGone_finish] at hthere
  | noReply => exact hthere
  | change => exact hthere
  | changePanics => cases hthere
  | whatIs => exact hthere
  | whatIsPanics => cases hthere
  | control => exact hthere
  | fire task timer control => rwa [managerGone_deliver] at hthere
  | post => exact hthere

theorem path_of_step (s : Network) (act : NetworkAct) (s' : Network) {path : Path}
    (hpath : s.path = path) (hstep : s.Step act s') : s'.path = path := by
  subst hpath
  cases hstep using step_cases with
  | notify event => exact path_deliver
  | handle disk event inbox => exact path_finish
  | ask disk event inbox path => exact path_sendManager _
  | resume disk event path reply => exact path_finish
  | noReply => rfl
  | change => rfl
  | changePanics => rfl
  | whatIs => rfl
  | whatIsPanics => rfl
  | control => rfl
  | fire task timer control => exact path_deliver
  | post => rfl

/-- Only a watcher that waits has a question in the mailbox of the manager. -/
theorem asked_of_question {path : Path} {rest : List (Served.Message Change Path)}
    (hsettled : (watching s.path).Settled s.pair)
    (hqueue : s.pair.queue = .question path :: rest) :
    ∃ disk event, s.watcher = .asked disk event path := by
  have hcommands : ∀ commands : List Change, s.pair.queue ≠ commands.map .command := by
    intro commands hcommands
    rw [hqueue] at hcommands
    cases commands <;> cases hcommands
  unfold Served.Settled at hsettled
  cases hwatcher : s.watcher with
  | asked disk event asked =>
      simp only [pair, hwatcher, WatcherState.waiting] at hsettled
      obtain ⟨-, commands, hasked⟩ := hsettled
      have hlast := hqueue.symm.trans hasked
      cases commands with
      | nil =>
          obtain rfl := Served.Message.question.inj (List.cons.inj hlast).1
          exact ⟨disk, event, rfl⟩
      | cons command commands => cases (List.cons.inj hlast).1
  | answered disk event asked reply =>
      simp only [pair, hwatcher, WatcherState.waiting] at hsettled
      have hempty := hqueue.symm.trans hsettled.2.1
      cases hempty
  | idle =>
      simp only [pair, hwatcher, WatcherState.waiting] at hsettled
      exact absurd hsettled.choose_spec (hcommands _)
  | gone =>
      simp only [pair, hwatcher, WatcherState.waiting] at hsettled
      exact absurd hsettled.choose_spec (hcommands _)

/-- As long as the manager is there, a step of the network is one of the pair or none. -/
theorem pair_of_step (hsettled : (watching s.path).Settled s.pair) (hstep : s.Step act s')
    (hthere : s'.managerGone = false) :
    s'.pair = s.pair ∨ ∃ label, (watching s.path).Step s.pair label s'.pair := by
  have hthere₀ := managerGone_of_step hstep hthere
  cases hstep using step_cases with
  | notify event => exact .inl (pair_deliver event)
  | handle disk event inbox _ hidle hinbox hasks =>
      cases hhandle : EventWatcher.handle disk (fun _ => .ok .none) s.path s.skipper event with
      | error panic =>
          left
          rw [pair_finish_error (s := { s with inbox }) hthere₀ (by simp [hidle,
            WatcherState.waiting]) hhandle]
          rfl
      | ok result =>
          right
          refine ⟨.take (disk, event), ?_⟩
          rw [pair_finish (s := { s with inbox }) hthere₀ hhandle]
          have hpair : s.pair = ⟨s.skipper, .idle, s.pair.queue, s.manager, s.handled⟩ := by
            simp [pair, hidle, WatcherState.waiting]
          rw [hpair]
          exact .take hasks ⟨_, hhandle, rfl⟩
  | ask disk event inbox path _ hidle hinbox hasks =>
      right
      refine ⟨.ask (disk, event), ?_⟩
      rw [pair_sendManager (by exact hthere₀)]
      have hpair : s.pair = ⟨s.skipper, .idle, s.pair.queue, s.manager, s.handled⟩ := by
        simp [pair, hidle, WatcherState.waiting]
      rw [hpair]
      exact .ask hasks
  | resume disk event path reply _ hanswered =>
      right
      refine ⟨.resume, ?_⟩
      have hpair : s.pair = ⟨s.skipper, .answered (disk, event) path reply, s.pair.queue,
          s.manager, s.handled⟩ := by
        simp [pair, hanswered, WatcherState.waiting]
      rw [hpair] at hsettled
      have hcompletes : Completes
          (EventWatcher.handle disk (fun _ => .ok reply) s.path s.skipper event) :=
        EventWatcher.completes_handle_of_asks hsettled.1
      obtain ⟨⟨told, skipper⟩, hhandle⟩ := hcompletes
      rw [pair_finish hthere₀ hhandle, hpair]
      exact .resume ⟨told, hhandle, rfl⟩
  | noReply disk event path _ _ hgone => rw [hgone] at hthere₀; cases hthere₀
  | change fresh change rest manager _ hinbox hchange =>
      right
      refine ⟨.serve, ?_⟩
      have hpair : s.pair = ⟨s.skipper, s.watcher.waiting,
          .command change :: rest.map ManagerMessage.message, s.manager, s.handled⟩ := by
        simp [pair, hinbox, ManagerMessage.message]
      rw [hpair]
      exact .apply ⟨fresh, hchange⟩
  | changePanics => cases hthere
  | whatIs fresh path rest reply _ hinbox hwhatIs =>
      right
      refine ⟨.serve, ?_⟩
      have hqueue : s.pair.queue = .question path :: rest.map ManagerMessage.message := by
        simp [pair, hinbox, ManagerMessage.message]
      obtain ⟨disk, event, hwatcher⟩ := asked_of_question hsettled hqueue
      have hpair : s.pair = ⟨s.skipper, .asked (disk, event) path,
          .question path :: rest.map ManagerMessage.message, s.manager, s.handled⟩ := by
        rw [← hqueue]
        simp [pair, hwatcher, WatcherState.waiting]
      rw [hpair]
      have hreplied : s.watcher.reply reply = .answered disk event path reply := by
        rw [hwatcher]
        rfl
      have hpair' : pair { s with
          managerInbox := rest, watcher := s.watcher.reply reply } =
          ⟨s.skipper, .answered (disk, event) path reply, rest.map ManagerMessage.message,
            s.manager, s.handled⟩ := by
        simp [pair, hreplied, WatcherState.waiting]
      rw [hpair']
      exact .answer hwhatIs
  | whatIsPanics => cases hthere
  | control => exact .inl rfl
  | fire task timer control => exact .inl (pair_deliver _)
  | post => exact .inl rfl

end Steps

/-! ## The order of the events -/

section Order

variable {s s' : Network} {act : NetworkAct}

def current (s : Network) : List Event :=
  match s.watcher with
  | .asked _ event _ | .answered _ event _ _ => [event]
  | _ => []

/-- The events are handled in the order in which they got into the mailbox, and none is left
out, as long as the watcher is there. -/
def InOrder (s : Network) : Prop :=
  s.watcher = .gone ∨ s.arrived = s.handled.map Prod.snd ++ s.current ++ s.inbox

theorem inOrder_deliver (hinv : s.InOrder) (event : Event) : (s.deliver event).InOrder := by
  unfold deliver
  split
  case h_1 hgone => exact .inl hgone
  case h_2 hthere =>
      rcases hinv with hgone | horder
      · exact absurd hgone hthere
      · right
        calc
          s.arrived ++ [event] = s.handled.map Prod.snd ++ s.current ++ (s.inbox ++ [event]) := by
            rw [horder, List.append_assoc _ s.inbox]
          _ = _ := rfl

theorem inOrder_sendManager (hinv : s.InOrder) (message : ManagerMessage) :
    (s.sendManager message).InOrder := by
  unfold sendManager
  split_ifs
  · exact hinv
  · exact hinv

theorem inOrder_foldl_tell (hinv : s.InOrder) (told : List Told) : (told.foldl tell s).InOrder := by
  induction told generalizing s with
  | nil => exact hinv
  | cons first told ih =>
      rw [List.foldl_cons]
      apply ih
      cases first with
      | manager change => exact inOrder_sendManager hinv _
      | renameControl message => exact hinv
      | watcher event => exact inOrder_deliver hinv event

theorem inOrder_finish {disk : Disk} {event : Event} {reply : ManagerReply}
    (harrived : s.arrived = s.handled.map Prod.snd ++ [event] ++ s.inbox) :
    (s.finish disk event reply).InOrder := by
  unfold finish
  split
  · refine inOrder_foldl_tell (.inr ?_) _
    simp [current, harrived]
  · exact .inl rfl

theorem inOrder_of_step (s : Network) (act : NetworkAct) (s' : Network) (hinv : s.InOrder)
    (hstep : s.Step act s') : s'.InOrder := by
  have harrived (hthere : s.watcher ≠ .gone) :
      s.arrived = s.handled.map Prod.snd ++ s.current ++ s.inbox :=
    hinv.resolve_left hthere
  cases hstep using step_cases with
  | notify event => exact inOrder_deliver hinv event
  | handle disk event inbox _ hidle hinbox hasks =>
      have hbefore := harrived (by simp [hidle])
      refine inOrder_finish ?_
      simpa [current, hidle, hinbox] using hbefore
  | ask disk event inbox path _ hidle hinbox hasks =>
      have hbefore := harrived (by simp [hidle])
      refine inOrder_sendManager (.inr ?_) _
      simpa [current, hidle, hinbox] using hbefore
  | resume disk event path reply _ hanswered =>
      have hbefore := harrived (by simp [hanswered])
      refine inOrder_finish ?_
      simpa [current, hanswered] using hbefore
  | noReply => exact .inl rfl
  | change => exact hinv
  | changePanics => exact hinv
  | whatIs fresh path rest reply =>
      rcases hinv with hgone | horder
      · exact .inl (by simp [hgone, WatcherState.reply])
      · right
        cases hwatcher : s.watcher <;> simp [current, horder, hwatcher, WatcherState.reply]
  | whatIsPanics => exact hinv
  | control => exact hinv
  | fire task timer control => exact inOrder_deliver (by exact hinv) _
  | post => exact hinv

end Order

def Paired (path : Path) (manager : Manager) (s : Network) : Prop :=
  s.path = path ∧ (s.managerGone = false →
    ∃ labels, Run (watching path).Step (Served.start .new manager) labels s.pair)

theorem paired_of_step {path : Path} {manager : Manager} (s : Network) (act : NetworkAct)
    (s' : Network) (hinv : s.Paired path manager) (hstep : s.Step act s') :
    s'.Paired path manager := by
  obtain ⟨rfl, hpair⟩ := hinv
  refine ⟨path_of_step s act s' rfl hstep, fun hthere => ?_⟩
  obtain ⟨labels, hrun⟩ := hpair (managerGone_of_step hstep hthere)
  rcases pair_of_step (Served.settled_of_run hrun) hstep hthere with hsame | ⟨label, hserved⟩
  · exact ⟨labels, by rwa [hsame]⟩
  · exact ⟨labels ++ [label], hrun.concat hserved⟩

theorem inOrder_of_run {path : Path} {manager : Manager} {acts : List NetworkAct} {s : Network}
    (hrun : Run Step (start path manager) acts s) : s.InOrder :=
  run_keeps inOrder_of_step (.inr rfl) hrun

theorem atOnce_of_run {path : Path} {manager manager' : Manager} {acts : List NetworkAct}
    {s : Network} (hrun : Run Step (start path manager) acts s) (hthere : s.managerGone = false)
    (hrest : Run Manager.Applies s.manager s.pending manager') :
    Run (AtOnce path) (.new, manager) s.handled (s.skipper, manager') := by
  have hpaired : s.Paired path manager :=
    run_keeps paired_of_step ⟨rfl, fun _ => ⟨[], .nil _⟩⟩ hrun
  obtain ⟨labels, hserved⟩ := hpaired.2 hthere
  exact (Served.linearised_of_run hserved manager' hrest).mono fun _ _ _ => atOnce_of_watching

/-- In every run, whatever the actors do side by side: the watcher handles the events in the
order in which they arrived, and what the manager still has to do leads to where the events
lead that are handled one after the other, each in one go. -/
theorem handled_at_once {path : Path} {manager : Manager} {acts : List NetworkAct} {s : Network}
    (hrun : Run Step (start path manager) acts s) :
    s.InOrder ∧ (s.managerGone = false → ∀ manager',
      Run Manager.Applies s.manager s.pending manager' →
        Run (AtOnce path) (.new, manager) s.handled (s.skipper, manager')) :=
  ⟨inOrder_of_run hrun, fun hthere _ hrest => atOnce_of_run hrun hthere hrest⟩

/-! ## The bucket `b` is made in `/d`, and then the manager is asked what it is -/

def folderB : Event := { kind := .create .folder, paths := [[.ofStr ['d'], .ofStr ['b']]] }

def removedB : Event := Event.removed [.ofStr ['d'], .ofStr ['b']]

def removedFolder : Event := { kind := .remove .folder, paths := [] }

def managerD (tree : AssocMap Bucket KeyEntry) : Manager :=
  { state := { path := [.ofStr ['d']], tree, broker := 0 }, localStorage := .empty }

def afterB : Network :=
  { start [.ofStr ['d']] (managerD [(['b'], .default 1)]) with
    arrived := [folderB, removedB, removedFolder]
    handled := [(.still, folderB), (.still, removedB), (.still, removedFolder)] }

/-- The manager lags behind: it makes the bucket when the watcher waits for it already. -/
theorem run_afterB :
    Run Step (start [.ofStr ['d']] (managerD []))
      [.notify folderB, .take .still, .notify removedB, .take .still, .manage 1, .manage 2,
        .resume, .take .still] afterB :=
  .cons rfl <| .cons rfl <| .cons rfl <| .cons rfl <| .cons rfl <| .cons rfl <| .cons rfl <|
    .cons rfl <| .nil _

theorem afterB_handled_at_once :
    Run (AtOnce [.ofStr ['d']]) (.new, managerD [])
      [(.still, folderB), (.still, removedB), (.still, removedFolder)]
      (.new, managerD [(['b'], .default 1)]) :=
  (handled_at_once run_afterB).2 rfl _ (.nil _)

end Network

end WsHyper.Directory
