import WsHyper.Directory.Broadcast

/-!
# A broker and a handler that wait for each other

The broker waits until a handler has room for a message, also while this handler is
out of its loop and waits until the broker has room for its `Ubsubscriber`.  Then
neither of them goes on, and nobody else is served.
-/

namespace WsHyper.Directory.WebSocket

open WsHyper.Lib

section Deadlock

variable {ι μ : Type*}

def BrokerState.observer : BrokerState μ → Option UserObserver
  | .receiving => none
  | .updating _ observer _ => some observer

/-- It waits for room in the mailbox of the broker, and nobody reads its full mailbox. -/
def WebSocketHandler.Stuffed (handler : WebSocketHandler ι μ) : Prop :=
  (∃ id, handler.state = .leaving id) ∧ handler.mailbox.Full

def Deadlocked (s : System ι μ) : Prop :=
  s.mailbox.Full ∧ ∃ h, s.broker.observer = some h ∧ (s.handlers h).Stuffed

def HandlerAct.Leaves : HandlerAct → Prop
  | .sendFails _ => True
  | .closeDone => True
  | _ => False

/-- The step is the last one to the deadlock: the handler for whose full mailbox the
broker waits leaves its loop, or the last place of the broker's mailbox is taken while it
waits for such a handler, or it comes to such a handler while its mailbox is full. -/
def Closes (s : System ι μ) : Label ι μ → Prop
  | .handler h act =>
      act.Leaves ∧ s.broker.observer = some h ∧ (s.handlers h).mailbox.Full ∧ s.mailbox.Full
  | .post _ =>
      s.mailbox.items.length + 1 = capacity ∧
        ∃ h, s.broker.observer = some h ∧ (s.handlers h).Stuffed
  | .ask g | .tell g =>
      s.mailbox.items.length + 1 = capacity ∧
        ∃ h, h ≠ g ∧ s.broker.observer = some h ∧ (s.handlers h).Stuffed
  | .take _ _ => False
  | .update =>
      s.mailbox.Full ∧
        ∃ h, s.broker.observers.tail.head? = some h ∧ (s.handlers h).Stuffed

variable [DecidableEq ι] {s s' : System ι μ} {label : Label ι μ} {h g : HandlerId}
  {handler handler' : WebSocketHandler ι μ} {act : HandlerAct} {message : μ} {id : ι}

@[simp] theorem observer_goOn (message : μ) (rest : List UserObserver) :
    (BrokerState.goOn message rest).observer = rest.head? := by
  cases rest <;> rfl

omit [DecidableEq ι] in
/-- A handler gets in the way only when it leaves its loop. -/
theorem stuffed_iff_of_act (hact : handler.act act = some handler') (hfree : ¬handler.Stuffed) :
    handler'.Stuffed ↔ act.Leaves ∧ handler.mailbox.Full := by
  cases hact using WebSocketHandler.act_cases with
  | shutdown => exact iff_of_false hfree fun h => h.1
  | start | recv | sendDone | sendFails | rxShut | closeDone =>
      simp [WebSocketHandler.Stuffed, HandlerAct.Leaves]

/-! ## One step -/

omit [DecidableEq ι] in
theorem deadlocked_iff_of_handler (hfree : ¬Deadlocked s)
    (hact : (s.handlers g).act act = some handler') :
    Deadlocked (s.setHandler g handler') ↔ Closes s (.handler g act) := by
  constructor
  · rintro ⟨hfull, h, hobserver, hstuffed⟩
    rcases eq_or_ne h g with rfl | hne
    · simp only [System.setHandler, Function.update_self] at hstuffed
      have hloose : ¬(s.handlers h).Stuffed := fun h' => hfree ⟨hfull, h, hobserver, h'⟩
      obtain ⟨hleaves, hmailbox⟩ := (stuffed_iff_of_act hact hloose).1 hstuffed
      exact ⟨hleaves, hobserver, hmailbox, hfull⟩
    · simp only [System.setHandler, Function.update_of_ne hne] at hstuffed
      exact absurd ⟨hfull, h, hobserver, hstuffed⟩ hfree
  · rintro ⟨hleaves, hobserver, hmailbox, hfull⟩
    refine ⟨hfull, g, hobserver, ?_⟩
    have hloose : ¬(s.handlers g).Stuffed := fun h' => hfree ⟨hfull, g, hobserver, h'⟩
    simpa [System.setHandler] using (stuffed_iff_of_act hact hloose).2 ⟨hleaves, hmailbox⟩

omit [DecidableEq ι] in
/-- What is sent to the broker closes the circle only in the last place. -/
theorem deadlocked_iff_of_send {mailbox : Mailbox (Envelope ι μ) capacity}
    {envelope : Envelope ι μ} (hsend : s.mailbox.send envelope = some mailbox) :
    Deadlocked { s with mailbox } ↔
      s.mailbox.items.length + 1 = capacity ∧
        ∃ h, s.broker.observer = some h ∧ (s.handlers h).Stuffed :=
  and_congr_left' (Mailbox.full_of_send_iff hsend)

omit [DecidableEq ι] in
theorem stuffed_setHandler_iff (hloose : ¬handler'.Stuffed) :
    ((s.setHandler g handler').handlers h).Stuffed ↔ h ≠ g ∧ (s.handlers h).Stuffed := by
  rcases eq_or_ne h g with rfl | hne
  · simpa [System.setHandler] using hloose
  · simp [System.setHandler, hne]

omit [DecidableEq ι] in
/-- A handler that sends its own envelope goes on, so it is another one that is in the way. -/
theorem deadlocked_iff_of_sends {mailbox : Mailbox (Envelope ι μ) capacity}
    {envelope : Envelope ι μ} (hloose : ¬handler'.Stuffed)
    (hsend : s.mailbox.send envelope = some mailbox) :
    Deadlocked { s.setHandler g handler' with mailbox } ↔
      s.mailbox.items.length + 1 = capacity ∧
        ∃ h, h ≠ g ∧ s.broker.observer = some h ∧ (s.handlers h).Stuffed := by
  rw [deadlocked_iff_of_send (s := s.setHandler g handler') hsend]
  simp only [stuffed_setHandler_iff hloose]
  exact and_congr_right fun _ => exists_congr fun h => and_left_comm

omit [DecidableEq ι] in
theorem not_deadlocked_of_room (hroom : ¬s.mailbox.Full) : ¬Deadlocked s :=
  fun h => hroom h.1

theorem not_deadlocked_of_take {order : AssocMap ι UserObserver} {envelope : Envelope ι μ}
    {mailbox : Mailbox (Envelope ι μ) capacity}
    (hrecv : s.mailbox.recv = some (envelope, mailbox))
    (htake : { s with mailbox }.take envelope id order = some s') : ¬Deadlocked s' := by
  have hroom : ¬mailbox.Full := Mailbox.not_full_of_recv hrecv
  unfold System.take System.subscriber at htake
  apply not_deadlocked_of_room
  split at htake
  case h_1 =>
      obtain rfl := Option.some.inj htake
      exact hroom
  case h_2 =>
      split at htake
      case h_1 =>
          split_ifs at htake
          obtain rfl := Option.some.inj htake
          exact hroom
      case h_2 =>
          obtain rfl := Option.some.inj htake
          exact hroom
  case h_3 =>
      split_ifs at htake
      obtain rfl := Option.some.inj htake
      exact hroom

omit [DecidableEq ι] in
/-- The observer that the broker comes to is another one than the one it was with. -/
theorem deadlocked_iff_of_update {rest : List UserObserver}
    (hbroker : s.broker = .updating message g rest) (hg : g ∉ rest) :
    Deadlocked { s.setHandler g handler' with broker := .goOn message rest } ↔
      Closes s .update := by
  have hother : ∀ h, rest.head? = some h → h ≠ g := by
    rintro h hhead rfl
    exact hg (List.mem_of_mem_head? hhead)
  unfold Deadlocked Closes
  simp only [observer_goOn, hbroker, BrokerState.observers, List.tail_cons]
  refine and_congr_right fun _ => exists_congr fun h => and_congr_right fun hhead => ?_
  simp [System.setHandler, hother h hhead]

theorem deadlocked_iff_of_step (hs : Consistent s) (hfree : ¬Deadlocked s)
    (hstep : s.Step label s') : Deadlocked s' ↔ Closes s label := by
  cases hstep using System.step_cases with
  | handler h act handler' _ hact => exact deadlocked_iff_of_handler hfree hact
  | post message mailbox _ hsend => exact deadlocked_iff_of_send hsend
  | ask h mailbox _ hasking hsend =>
      exact deadlocked_iff_of_sends (by simp [WebSocketHandler.Stuffed]) hsend
  | take id order envelope mailbox t _ hbroker hrecv htake =>
      exact iff_of_false (not_deadlocked_of_take hrecv htake) fun h => h
  | update message observer rest handler' _ hbroker hupdate =>
      have hnodup := hs.told_once
      rw [hbroker, BrokerState.observers, List.nodup_cons] at hnodup
      exact deadlocked_iff_of_update hbroker hnodup.1
  | tell h id mailbox _ hleaving hsend =>
      exact deadlocked_iff_of_sends (by simp [WebSocketHandler.Stuffed]) hsend

/-! ## After a deadlock -/

/-- In a deadlock only the other handlers move: nothing is taken, sent or delivered. -/
theorem deadlocked_step (hdead : Deadlocked s) (hstep : s.Step label s') :
    Deadlocked s' ∧ s'.taken = s.taken := by
  obtain ⟨hfull, h, hobserver, ⟨id, hleaving⟩, hmailbox⟩ := hdead
  obtain ⟨message, rest, hbroker⟩ : ∃ message rest, s.broker = .updating message h rest := by
    cases hstate : s.broker with
    | receiving => simp [hstate, BrokerState.observer] at hobserver
    | updating message observer rest =>
        obtain rfl : observer = h := by simpa [hstate, BrokerState.observer] using hobserver
        exact ⟨message, rest, rfl⟩
  have hfull' : ∀ envelope mailbox, s.mailbox.send envelope ≠ some mailbox :=
    fun envelope mailbox hsend => (Mailbox.send_eq_some_iff.1 hsend).1 hfull
  cases hstep using System.step_cases with
  | handler g act handler' _ hact =>
      refine ⟨⟨hfull, h, hobserver, ?_⟩, rfl⟩
      rcases eq_or_ne h g with rfl | hne
      · cases hact using WebSocketHandler.act_cases with
        | shutdown => simpa [System.setHandler] using ⟨⟨id, hleaving⟩, hmailbox⟩
        | start _ hstate | recv _ _ _ _ hstate | sendDone _ _ _ hstate | sendFails _ _ _ _ hstate
        | rxShut _ _ hstate | closeDone _ _ hstate =>
            rw [hleaving] at hstate
            cases hstate
      · simpa [System.setHandler, hne] using ⟨⟨id, hleaving⟩, hmailbox⟩
  | post message mailbox _ hsend => exact absurd hsend (hfull' _ _)
  | ask g mailbox _ hasking hsend => exact absurd hsend (hfull' _ _)
  | tell g id mailbox _ hstate hsend => exact absurd hsend (hfull' _ _)
  | take id order envelope mailbox t _ hreceiving =>
      rw [hbroker] at hreceiving
      cases hreceiving
  | update message' observer rest' handler' _ hupdating hupdate =>
      rw [hbroker] at hupdating
      obtain ⟨rfl, rfl, rfl⟩ := BrokerState.updating.inj hupdating
      simp [WebSocketHandler.update, hleaving, Mailbox.send_of_full hmailbox] at hupdate

theorem deadlocked_run {labels : List (Label ι μ)} (hdead : Deadlocked s)
    (hrun : Run System.Step s labels s') : Deadlocked s' ∧ s'.taken = s.taken := by
  induction hrun with
  | nil s => exact ⟨hdead, rfl⟩
  | cons hstep _ ih =>
      obtain ⟨hnext, htaken⟩ := deadlocked_step hdead hstep
      obtain ⟨hlast, hrest⟩ := ih hnext
      exact ⟨hlast, hrest.trans htaken⟩

/-! ## Runs -/

/-- A run has no deadlock exactly if it has no step that closes the circle. -/
theorem no_deadlock_iff (labels : List (Label ι μ)) (s : System ι μ)
    (hrun : Run System.Step System.start labels s) :
    EachState System.Step (fun t => ¬Deadlocked t) System.start labels ↔
      EachStep System.Step (fun t label => ¬Closes t label) System.start labels := by
  have hboth := eachState_iff_of_run (I := fun t => Consistent t ∧ ¬Deadlocked t)
    (P := fun t label => ¬Closes t label) System.step_det
    (fun t label u ht hstep => ?_) hrun
  · have hstart : ¬Deadlocked (System.start : System ι μ) := by
      rintro ⟨-, h, hobserver, -⟩
      cases hobserver
    constructor
    · intro hfree
      refine (hboth.1 fun done t hdone hto => ⟨?_, hfree done t hdone hto⟩).2
      exact run_keeps (fun _ _ _ => consistent_step) consistent_start hto
    · intro hopen
      exact (hboth.2 ⟨⟨consistent_start, hstart⟩, hopen⟩).mono fun t ht => ht.2
  · have hu := consistent_step ht.1 hstep
    rw [← deadlocked_iff_of_step ht.1 ht.2 hstep]
    exact and_iff_right hu

/-- Nobody closes the circle when one message is sent to one websocket. -/
theorem no_deadlock_first :
    EachState System.Step (fun t => ¬Deadlocked t) (System.start : System Nat Nat)
      [.handler 0 .start, .ask 0, .take 5 [], .post (.message 7), .take 0 [(5, 0)], .update] := by
  have hrun : ∃ s : System Nat Nat, Run System.Step System.start
      [.handler 0 .start, .ask 0, .take 5 [], .post (.message 7), .take 0 [(5, 0)],
        .update] s :=
    ⟨_, .cons rfl (.cons rfl (.cons rfl (.cons rfl (.cons rfl (.cons rfl (.nil _))))))⟩
  obtain ⟨s, hrun⟩ := hrun
  refine (no_deadlock_iff _ s hrun).2 ?_
  iterate 6
    refine Iff.mpr (eachStep_cons_of_step System.step_det rfl) ⟨?_, ?_⟩
    · first | exact fun h => h | exact fun h => h.1 | exact fun h => absurd h.1 (by decide)
  exact eachStep_nil

/-! ## A deadlock -/

theorem step_post {mailbox : Mailbox (Envelope ι μ) capacity} {message : WSBrokerMessage ι μ}
    (hsend : s.mailbox.send (.tell message) = some mailbox) :
    s.Step (.post message) { s with mailbox } := by
  simp [System.Step, System.step, hsend]

theorem step_take (id : ι) (mailbox : Mailbox (Envelope ι μ) capacity)
    (hbroker : s.broker = .receiving)
    (hitems : s.mailbox.items = .tell (.message message) :: mailbox.items) :
    s.Step (.take id s.observers)
      { s with
        mailbox
        broker := .goOn message (s.observers.map Prod.snd)
        taken := s.taken ++ [.message message] } := by
  have hrecv := Mailbox.recv_eq_some_iff.2 hitems
  simp [System.Step, System.step, hbroker, hrecv, System.take, Envelope.tell]

theorem step_update {mailbox : Mailbox μ capacity} (rest : List UserObserver)
    (hbroker : s.broker = .updating message g rest)
    (hstate : (s.handlers g).state = .receiving id)
    (hsend : (s.handlers g).mailbox.send message = some mailbox) :
    s.Step .update
      { s.setHandler g { s.handlers g with mailbox } with broker := .goOn message rest } := by
  simp [System.Step, System.step, hbroker, WebSocketHandler.update, hstate, hsend]

omit [DecidableEq ι] in
@[simp] theorem handlers_setHandler : (s.setHandler h handler).handlers h = handler :=
  Function.update_self ..

omit [DecidableEq ι] in
@[simp] theorem setHandler_setHandler :
    (s.setHandler h handler).setHandler h handler' = s.setHandler h handler' := by
  simp [System.setHandler]

theorem step_handler (hact : (s.handlers h).act act = some handler) :
    s.Step (.handler h act) (s.setHandler h handler) := by
  simp [System.Step, System.step, hact]

theorem exists_run_left {start : System ι μ} {labels : List (Label ι μ)}
    (hrun : Run System.Step start labels s) (hstate : (s.handlers h).state = .receiving id) :
    ∃ labels', Run System.Step start labels'
      (s.setHandler h { s.handlers h with shutdown := true, state := .leaving id }) := by
  have hshutdown : s.Step (.handler h .shutdown)
      (s.setHandler h { s.handlers h with shutdown := true }) :=
    step_handler (by simp [WebSocketHandler.act, hstate])
  have hshut : (s.setHandler h { s.handlers h with shutdown := true }).Step
      (.handler h .rxShut) ((s.setHandler h { s.handlers h with shutdown := true }).setHandler h
        { s.handlers h with shutdown := true, state := .closing id }) :=
    step_handler (by simp [WebSocketHandler.act, hstate])
  rw [setHandler_setHandler] at hshut
  have hclose : (s.setHandler h
      { s.handlers h with shutdown := true, state := .closing id }).Step
      (.handler h .closeDone) ((s.setHandler h
        { s.handlers h with shutdown := true, state := .closing id }).setHandler h
          { s.handlers h with shutdown := true, state := .leaving id }) :=
    step_handler (by simp [WebSocketHandler.act])
  rw [setHandler_setHandler] at hclose
  exact ⟨_, ((hrun.concat hshutdown).concat hshut).concat hclose⟩

theorem exists_run_posted {start : System ι μ} {labels : List (Label ι μ)} (msg : μ)
    (hrun : Run System.Step start labels s) (hempty : s.mailbox.items = []) (n : Nat)
    (hn : n ≤ capacity) :
    ∃ labels' mailbox, Run System.Step start labels' { s with mailbox } ∧
      mailbox.items.length = n := by
  induction n with
  | zero => exact ⟨labels, s.mailbox, hrun, by rw [hempty]; rfl⟩
  | succ n ih =>
      obtain ⟨labels', mailbox, hrun', hlength⟩ := ih (Nat.le_of_succ_le hn)
      have hroom : ¬mailbox.Full := by
        rw [Mailbox.not_full_iff, hlength]
        exact hn
      obtain ⟨mailbox', hsend, hitems⟩ := Mailbox.exists_send hroom (.tell (.message msg))
      exact ⟨_, mailbox', hrun'.concat (step_post hsend), by simp [hitems, hlength]⟩

end Deadlock

/-- A websocket that takes nothing is sent as many messages as its handler has places. -/
theorem exists_run_filled (n : Nat) (hn : n ≤ capacity) :
    ∃ (labels : List (Label Nat Unit)) (s : System Nat Unit),
      Run System.Step System.start labels s ∧ s.broker = .receiving ∧ s.mailbox.items = [] ∧
        s.observers = [(0, 0)] ∧ (s.handlers 0).state = .receiving 0 ∧
        (s.handlers 0).mailbox.items.length = n := by
  induction n with
  | zero =>
      exact ⟨[.handler 0 .start, .ask 0, .take 0 []], _,
        .cons rfl (.cons rfl (.cons rfl (.nil _))), rfl, rfl, rfl, rfl, rfl⟩
  | succ n ih =>
      obtain ⟨labels, s, hrun, hbroker, hitems, hobservers, hstate, hlength⟩ :=
        ih (Nat.le_of_succ_le hn)
      have hempty : ¬s.mailbox.Full := by
        rw [Mailbox.not_full_iff, hitems]
        decide
      have hroom : ¬(s.handlers 0).mailbox.Full := by
        rw [Mailbox.not_full_iff, hlength]
        exact hn
      obtain ⟨mailbox, hpost, hposted⟩ := Mailbox.exists_send hempty (.tell (.message ()))
      obtain ⟨mailbox', hsend, hsent⟩ := Mailbox.exists_send hroom ()
      rw [hitems, List.nil_append] at hposted
      have htake := step_take (s := { s with mailbox }) 0 .empty hbroker
        hposted
      have hupdate := step_update (s := { s with
          mailbox := .empty, broker := .goOn () (s.observers.map Prod.snd)
          taken := s.taken ++ [.message ()] }) []
        (by rw [hobservers]; rfl) hstate hsend
      refine ⟨_, _, ((hrun.concat (step_post hpost)).concat htake).concat hupdate, rfl, rfl,
        hobservers, ?_, ?_⟩
      · simpa [System.setHandler] using hstate
      · simp [System.setHandler, hsent, hlength]

/-- One slow websocket, one sender: the peer goes away while the broker waits for room in
the mailbox of its handler and the sender has filled the mailbox of the broker. -/
theorem deadlock_reached :
    ∃ (labels : List (Label Nat Unit)) (s : System Nat Unit),
      Run System.Step System.start labels s ∧ Deadlocked s := by
  obtain ⟨labels, s, hrun, hbroker, hitems, hobservers, hstate, hlength⟩ :=
    exists_run_filled capacity le_rfl
  have hempty : ¬s.mailbox.Full := by
    rw [Mailbox.not_full_iff, hitems]
    decide
  -- One message more: the broker waits in `update`.
  obtain ⟨mailbox, hpost, hposted⟩ := Mailbox.exists_send hempty (.tell (.message ()))
  rw [hitems, List.nil_append] at hposted
  have htake := step_take (s := { s with mailbox }) 0 .empty hbroker hposted
  have hwaits := (hrun.concat (step_post hpost)).concat htake
  obtain ⟨labels', mailbox', hfilled, hfull⟩ := exists_run_posted () hwaits rfl capacity le_rfl
  -- The peer goes away now.
  obtain ⟨labels'', hleft⟩ := exists_run_left (h := 0) hfilled hstate
  refine ⟨labels'', _, hleft, hfull, 0, ?_, ⟨0, ?_⟩, ?_⟩
  · simp [System.setHandler, hobservers]
  · rw [handlers_setHandler]
  · rw [handlers_setHandler]
    exact hlength

end WsHyper.Directory.WebSocket
