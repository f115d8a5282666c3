import WsHyper.Directory.NetworkRenames

/-!
# A task that is lost

Nobody starts the task of a manager or of a watcher again.  A manager that panics leaves
the database one change ahead of the tree, and the watcher does not notice: it goes on
until an event makes it ask, and ends with that event.  Then no event arrives any more.
-/

namespace WsHyper.Directory

open WsHyper.Lib

/-- The manager panicked at a change that had gone to the database before. -/
def Manager.PanicsTo (manager manager' : Manager) : Prop :=
  ∃ fresh change panic, manager.handleChange fresh change = .error panic ∧
    manager' = { manager with localStorage := changeLocalStorage manager.localStorage change }

namespace Network

variable {s₀ s s' : Network} {act : NetworkAct} {disk : Disk} {event : Event}
  {reply : ManagerReply}

/-- The manager has done changes, and lags behind its database only if it is lost. -/
def Lags (manager : Manager) (s : Network) : Prop :=
  ∃ changes last, Run Manager.Applies manager changes last ∧
    (s.manager = last ∨ s.managerGone = true ∧ last.PanicsTo s.manager)

/-! ## What telling leaves -/

@[simp] theorem manager_deliver (event : Event) : (s.deliver event).manager = s.manager := by
  unfold deliver
  split <;> rfl

@[simp] theorem manager_sendManager (message : ManagerMessage) :
    (s.sendManager message).manager = s.manager := by
  unfold sendManager
  split_ifs <;> rfl

@[simp] theorem manager_foldl_tell (told : List Told) :
    (told.foldl tell s).manager = s.manager := by
  induction told generalizing s with
  | nil => rfl
  | cons first told ih =>
      rw [List.foldl_cons, ih]
      cases first with
      | manager change => exact manager_sendManager _
      | renameControl message => rfl
      | watcher event => exact manager_deliver event

@[simp] theorem manager_finish : (s.finish disk event reply).manager = s.manager := by
  unfold finish
  split
  · exact manager_foldl_tell _
  · exact manager_foldl_tell _

theorem finish_cases (s : Network) (disk : Disk) (event : Event) (reply : ManagerReply) :
    (s.finish disk event reply).watcher = .idle ∧
        (s.finish disk event reply).handled = s.handled ++ [(disk, event)] ∨
      (s.finish disk event reply).watcher = .gone ∧
        (s.finish disk event reply).handled = s.handled := by
  unfold finish
  split
  · exact .inl ⟨watcher_foldl_tell _, handled_foldl_tell _⟩
  · exact .inr ⟨rfl, handled_foldl_tell _⟩

/-! ## The manager is lost -/

theorem lags_of_step {manager : Manager} (s : Network) (act : NetworkAct) (s' : Network)
    (hinv : s.Sound ∧ s.Lags manager) (hstep : s.Step act s') : s'.Sound ∧ s'.Lags manager := by
  refine ⟨sound_of_step s act s' hinv.1 hstep, ?_⟩
  obtain ⟨hsound, changes, last, hrun, hlast⟩ := hinv
  have hthere {message : ManagerMessage} {rest : List ManagerMessage}
      (hinbox : s.managerInbox = message :: rest) : s.manager = last := by
    refine hlast.resolve_right fun ⟨hgone, _⟩ => ?_
    simp [hsound.lostManager hgone] at hinbox
  cases hstep using step_cases with
  | notify event => exact ⟨changes, last, hrun, by simpa using hlast⟩
  | handle disk event inbox => exact ⟨changes, last, hrun, by simpa using hlast⟩
  | ask disk event inbox path => exact ⟨changes, last, hrun, by simpa using hlast⟩
  | resume disk event path reply => exact ⟨changes, last, hrun, by simpa using hlast⟩
  | noReply => exact ⟨changes, last, hrun, hlast⟩
  | change fresh change rest manager' _ hinbox hchange =>
      obtain rfl := hthere hinbox
      exact ⟨changes ++ [change], manager', hrun.concat ⟨fresh, hchange⟩, .inl rfl⟩
  | changePanics fresh change rest panic _ hinbox hchange =>
      obtain rfl := hthere hinbox
      exact ⟨changes, s.manager, hrun, .inr ⟨rfl, fresh, change, panic, hchange, rfl⟩⟩
  | whatIs => exact ⟨changes, last, hrun, hlast⟩
  | whatIsPanics fresh path rest panic _ hinbox =>
      exact ⟨changes, last, hrun, .inl (hthere hinbox)⟩
  | control => exact ⟨changes, last, hrun, hlast⟩
  | fire task timer control => exact ⟨changes, last, hrun, by simpa using hlast⟩
  | post => exact ⟨changes, last, hrun, hlast⟩

/-- The events among these that the manager is asked about. -/
def asking (handled : List (Disk × Event)) : List Event :=
  (handled.map Prod.snd).filter fun event => event.asks.isSome

def replied (s : Network) : List Event :=
  match s.watcher with
  | .answered _ event _ _ => [event]
  | _ => []

theorem length_replied_le (s : Network) : s.replied.length ≤ s.current.length := by
  unfold replied current
  cases s.watcher <;> simp

/-- How it goes on after a state `s₀` without a manager: only the reply that the watcher has
already is of use. -/
structure Unanswered (s₀ s : Network) : Prop where
  sound : s.Sound
  gone : s.managerGone = true
  manager : s.manager = s₀.manager
  handled : ∃ more, s.handled = s₀.handled ++ more ∧ asking more <+: s₀.replied ∧
    ∀ disk event path reply, s.watcher = .answered disk event path reply →
      s₀.replied = [event] ∧ asking more = []

theorem asking_concat (handled : List (Disk × Event)) (input : Disk × Event) :
    asking (handled ++ [input]) =
      asking handled ++ if input.2.asks.isSome then [input.2] else [] := by
  simp [asking, List.filter_singleton]

theorem unanswered_finish {more : List (Disk × Event)}
    (hsound : (s.finish disk event reply).Sound) (hgone : s.managerGone = true)
    (hmanager : s.manager = s₀.manager) (hhandled : s.handled = s₀.handled ++ more)
    (hmore : asking more <+: s₀.replied)
    (hevent : asking (more ++ [(disk, event)]) <+: s₀.replied) :
    Unanswered s₀ (s.finish disk event reply) where
  sound := hsound
  gone := by rw [managerGone_finish, hgone]
  manager := by rw [manager_finish, hmanager]
  handled := by
    obtain ⟨hwatcher, hdone⟩ | ⟨hwatcher, hdone⟩ := finish_cases s disk event reply
    · refine ⟨more ++ [(disk, event)], by rw [hdone, hhandled, List.append_assoc], hevent, ?_⟩
      intro _ _ _ _ hanswered
      simp [hwatcher] at hanswered
    · refine ⟨more, by rw [hdone, hhandled], hmore, fun _ _ _ _ hanswered => ?_⟩
      simp [hwatcher] at hanswered

theorem unanswered_of_step (s : Network) (act : NetworkAct) (s' : Network)
    (hinv : Unanswered s₀ s) (hstep : s.Step act s') : Unanswered s₀ s' := by
  have hsound' := sound_of_step s act s' hinv.sound hstep
  have hempty := hinv.sound.lostManager hinv.gone
  obtain ⟨hsound, hgone, hmanager, more, hhandled, hmore, hanswered⟩ := hinv
  cases hstep using step_cases with
  | notify event =>
      refine ⟨hsound', by simpa using hgone, by simpa using hmanager, more, by simpa using hhandled,
        hmore, ?_⟩
      simpa [watcher_deliver] using hanswered
  | handle disk event inbox _ hidle hinbox hasks =>
      refine unanswered_finish hsound' hgone hmanager hhandled hmore ?_
      simpa [asking_concat, hasks] using hmore
  | ask disk event inbox path _ hidle hinbox hasks =>
      refine ⟨hsound', by simpa using hgone, by simpa using hmanager, more, by simpa using hhandled,
        hmore, fun _ _ _ _ hwatcher => ?_⟩
      simp [watcher_sendManager] at hwatcher
  | resume disk event path reply _ hwatcher =>
      obtain ⟨hreplied, hnone⟩ := hanswered disk event path reply hwatcher
      refine unanswered_finish hsound' hgone hmanager hhandled hmore ?_
      have hasks := hsound.answered disk event path reply hwatcher
      simp [asking_concat, hnone, hasks, hreplied]
  | noReply =>
      exact ⟨hsound', hgone, hmanager, more, hhandled, hmore, fun _ _ _ _ hwatcher => by
        cases hwatcher⟩
  | change fresh change rest manager _ hinbox => simp [hempty] at hinbox
  | changePanics fresh change rest panic _ hinbox => simp [hempty] at hinbox
  | whatIs fresh path rest reply _ hinbox => simp [hempty] at hinbox
  | whatIsPanics fresh path rest panic _ hinbox => simp [hempty] at hinbox
  | control => exact ⟨hsound', hgone, hmanager, more, hhandled, hmore, hanswered⟩
  | fire task timer control =>
      refine ⟨hsound', by simpa using hgone, by simpa using hmanager, more, by simpa using hhandled,
        hmore, ?_⟩
      simpa [watcher_deliver] using hanswered
  | post => exact ⟨hsound', hgone, hmanager, more, hhandled, hmore, hanswered⟩

theorem unanswered_self (hsound : s.Sound) (hgone : s.managerGone = true) : Unanswered s s where
  sound := hsound
  gone := hgone
  manager := rfl
  handled := by
    refine ⟨[], (List.append_nil _).symm, List.nil_prefix, fun _ _ _ _ hwatcher => ?_⟩
    simp [replied, hwatcher, asking]

/-! ## The watcher is lost -/

/-- How it goes on after a state `s₀` without a watcher. -/
structure Unwatched (s₀ s : Network) : Prop where
  gone : s.watcher = .gone
  arrived : s.arrived = s₀.arrived
  handled : s.handled = s₀.handled
  managerInbox : s.managerInbox <:+ s₀.managerInbox

theorem deliver_of_gone (hgone : s.watcher = .gone) (event : Event) : s.deliver event = s := by
  rw [deliver, hgone]

theorem unwatched_of_step (s : Network) (act : NetworkAct) (s' : Network)
    (hinv : Unwatched s₀ s) (hstep : s.Step act s') : Unwatched s₀ s' := by
  have hinv' := hinv
  obtain ⟨hgone, harrived, hhandled, hsuffix⟩ := hinv
  have hrest {message : ManagerMessage} {rest : List ManagerMessage}
      (hinbox : s.managerInbox = message :: rest) : rest <:+ s₀.managerInbox :=
    (List.suffix_cons message rest).trans (hinbox ▸ hsuffix)
  cases hstep using step_cases with
  | notify event => rwa [deliver_of_gone hgone]
  | handle disk event inbox _ hidle => simp [hgone] at hidle
  | ask disk event inbox path _ hidle => simp [hgone] at hidle
  | resume disk event path reply _ hanswered => simp [hgone] at hanswered
  | noReply disk event path _ hasked => simp [hgone] at hasked
  | change fresh change rest manager _ hinbox =>
      exact ⟨hgone, harrived, hhandled, hrest hinbox⟩
  | changePanics => exact ⟨hgone, harrived, hhandled, List.nil_suffix⟩
  | whatIs fresh path rest reply _ hinbox =>
      exact ⟨by rw [hgone]; rfl, harrived, hhandled, hrest hinbox⟩
  | whatIsPanics => exact ⟨hgone, harrived, hhandled, List.nil_suffix⟩
  | control => exact ⟨hgone, harrived, hhandled, hsuffix⟩
  | fire task timer control =>
      rw [deliver_of_gone (by exact hgone)]
      exact ⟨hgone, harrived, hhandled, hsuffix⟩
  | post => exact ⟨hgone, harrived, hhandled, hsuffix⟩

/-! ## Lost for good -/

theorem arrived_deliver (event : Event) : s.arrived <+: (s.deliver event).arrived := by
  unfold deliver
  split
  · exact List.prefix_rfl
  · exact List.prefix_append _ _

theorem arrived_foldl_tell (told : List Told) : s.arrived <+: (told.foldl tell s).arrived := by
  induction told generalizing s with
  | nil => exact List.prefix_rfl
  | cons first told ih =>
      rw [List.foldl_cons]
      refine List.IsPrefix.trans ?_ ih
      cases first with
      | manager change =>
          rw [tell, sendManager]
          split_ifs <;> exact List.prefix_rfl
      | renameControl message => exact List.prefix_rfl
      | watcher event => exact arrived_deliver event

theorem arrived_finish : s.arrived <+: (s.finish disk event reply).arrived := by
  unfold finish
  split
  case h_1 told skipper _ =>
      exact arrived_foldl_tell (s := { s with
        watcher := .idle, skipper, handled := s.handled ++ [(disk, event)] }) told
  case h_2 => exact arrived_foldl_tell (s := s) event.toldFirst

theorem arrived_of_step {arrived : List Event} (s : Network) (act : NetworkAct) (s' : Network)
    (hinv : arrived <+: s.arrived) (hstep : s.Step act s') : arrived <+: s'.arrived := by
  refine hinv.trans ?_
  cases hstep using step_cases with
  | notify event => exact arrived_deliver event
  | handle disk event inbox => exact arrived_finish (s := { s with inbox })
  | ask disk event inbox path =>
      rw [sendManager]
      split_ifs <;> exact List.prefix_rfl
  | resume disk event path reply => exact arrived_finish
  | noReply => exact List.prefix_rfl
  | change => exact List.prefix_rfl
  | changePanics => exact List.prefix_rfl
  | whatIs => exact List.prefix_rfl
  | whatIsPanics => exact List.prefix_rfl
  | control => exact List.prefix_rfl
  | fire task timer control => exact arrived_deliver (s := { s with control }) _
  | post => exact List.prefix_rfl

theorem Sound.filter_current (hsound : s.Sound) :
    s.current.filter (fun event => event.asks.isSome) = s.current := by
  unfold current
  split
  · next disk event path hasked =>
      simpa using (hsound.asked disk event path hasked).1
  · next disk event path reply hanswered =>
      simpa using hsound.answered disk event path reply hanswered
  · rfl

/-- A watcher that is still there at rest has found nothing to ask about. -/
theorem Unanswered.no_question (hunanswered : Unanswered s₀ s) (hsound₀ : s₀.Sound)
    (horder₀ : s₀.InOrder) (horder : s.InOrder) (hthere₀ : s₀.watcher ≠ .gone)
    (hidle : s.watcher = .idle) (hinbox : s.inbox = []) {new : List Event}
    (hnew : s.arrived = s₀.arrived ++ new) :
    ∀ event ∈ s₀.inbox ++ new, event.asks = none := by
  obtain ⟨-, -, -, more, hhandled, hmore, -⟩ := hunanswered
  have harrived : s.arrived = s.handled.map Prod.snd := by
    simpa [current, hidle, hinbox] using horder.resolve_left (by simp [hidle])
  have hevents : more.map Prod.snd = s₀.current ++ (s₀.inbox ++ new) := by
    have hall := horder₀.resolve_left hthere₀
    rw [hnew, hall, hhandled, List.map_append] at harrived
    simpa using harrived.symm
  have hnone : (s₀.inbox ++ new).filter (fun event => event.asks.isSome) = [] := by
    rw [asking, hevents, List.filter_append, hsound₀.filter_current] at hmore
    have hlength := hmore.length_le.trans (length_replied_le s₀)
    rw [List.length_append] at hlength
    exact List.eq_nil_of_length_eq_zero (by omega)
  intro event hmem
  have hasks := List.filter_eq_nil_iff.1 hnone event hmem
  simpa using hasks

/-- A task that is lost stays so.  The tree has all changes that the database has, but for the
one at which the manager was lost.  Without the manager nothing changes any more, and the
watcher handles only what it needs not ask about and the event whose reply it already has:
if it is there at rest, nothing else arrived.  Without the watcher nothing arrives, and the
manager does what was told before. -/
theorem lost_for_good {path : Path} {manager : Manager} {acts : List NetworkAct} {s : Network}
    (hrun : Run Step (start path manager) acts s) :
    s.Lags manager ∧
    (s.managerGone = true → ∀ acts' s', Run Step s acts' s' →
      s'.managerGone = true ∧ s'.manager = s.manager ∧
        (∃ more, s'.handled = s.handled ++ more ∧ asking more <+: s.replied) ∧
        (s'.AtRest → s'.watcher = .idle → ∃ new, s'.arrived = s.arrived ++ new ∧
          ∀ event ∈ s.inbox ++ new, event.asks = none)) ∧
    (s.watcher = .gone → ∀ acts' s', Run Step s acts' s' → Unwatched s s') := by
  have hsound := sound_of_run hrun
  refine ⟨?_, fun hgone acts' s' hrun' => ?_, fun hgone acts' s' hrun' => ?_⟩
  · have hlags : Lags manager (start path manager) := ⟨[], manager, .nil _, .inl rfl⟩
    exact (run_keeps lags_of_step ⟨sound_start path manager, hlags⟩ hrun).2
  · have hunanswered : Unanswered s s' :=
      run_keeps unanswered_of_step (unanswered_self hsound hgone) hrun'
    obtain ⟨more, hhandled, hmore, -⟩ := hunanswered.handled
    refine ⟨hunanswered.gone, hunanswered.manager, ⟨more, hhandled, hmore⟩,
      fun hrest hidle => ?_⟩
    obtain ⟨new, hnew⟩ := run_keeps arrived_of_step List.prefix_rfl hrun'
    have hthere : s.watcher ≠ .gone := fun hlost => by
      have hunwatched : Unwatched s s' :=
        run_keeps unwatched_of_step ⟨hlost, rfl, rfl, List.suffix_rfl⟩ hrun'
      simpa [hidle] using hunwatched.gone
    have horder' : s'.InOrder := run_keeps inOrder_of_step (inOrder_of_run hrun) hrun'
    exact ⟨new, hnew.symm, hunanswered.no_question hsound (inOrder_of_run hrun) horder' hthere
      hidle hrest.inbox hnew.symm⟩
  · exact run_keeps unwatched_of_step ⟨hgone, rfl, rfl, List.suffix_rfl⟩ hrun'

/-! ## The bucket `b` has no keys yet when the key `k` is made in it -/

def folderK : Event :=
  { kind := .create .folder, paths := [[.ofStr ['d'], .ofStr ['b'], .ofStr ['k']]] }

def lostAtK : Network :=
  { start [.ofStr ['d']] (managerD [(['b'], .default 1)]) with
    managerGone := true
    watcher := .asked .still removedB [.ofStr ['d'], .ofStr ['b']]
    arrived := [folderB, folderK, removedB]
    handled := [(.still, folderB), (.still, folderK)] }

theorem run_lostAtK :
    Run Step (start [.ofStr ['d']] (managerD []))
      [.notify folderB, .take .still, .notify folderK, .take .still, .manage 1, .manage 2,
        .notify removedB, .take .still] lostAtK :=
  .cons rfl <| .cons rfl <| .cons rfl <| .cons rfl <| .cons rfl <| .cons rfl <| .cons rfl <|
    .cons rfl <| .nil _

theorem lostAtK_for_good :
    lostAtK.Step .resume lostAtK.loseWatcher ∧ ∀ acts s, Run Step lostAtK acts s →
      s.managerGone = true ∧ s.manager = managerD [(['b'], .default 1)] := by
  obtain ⟨-, hlost, -⟩ := lost_for_good run_lostAtK
  refine ⟨rfl, fun acts s hrun => ?_⟩
  obtain ⟨hgone, hmanager, -, -⟩ := hlost rfl acts s hrun
  exact ⟨hgone, hmanager⟩

end Network

end WsHyper.Directory
