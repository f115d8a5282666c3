import WsHyper.Lib.AssocMap
import WsHyper.Lib.Mailbox
import WsHyper.Lib.Run
import Mathlib.Data.List.Perm.Basic
import Mathlib.Logic.Function.Basic

/-!
# The broker of a key and its websockets

Every key has a `WSBroker`, and every websocket that was opened for the key has a
`WebSocketHandler`.  A handler asks the broker to be subscribed, writes to its
websocket what the broker tells it, and when the websocket fails or the peer has
gone it tells the broker its `Ubsubscriber`.  All mailboxes have 32 places, and
whoever sends to a full one waits.

The broker, the handlers and whoever else sends to the broker take their steps in
any order.  A step goes from one `await` to the next one; where the source leaves
open what happens there (which branch `select!` takes, how a write to the websocket
ends, the order of a `HashMap`, the drawn uuid), the label of the step says it.
No `recv` gives `None`: each task holds, in its `Context`, a sender to its own mailbox.
-/

namespace WsHyper.Directory.WebSocket

open WsHyper.Lib

/-! ## Messages -/

abbrev HandlerId := Nat

def capacity : Nat := 32

abbrev UserObserver := HandlerId

inductive WSBrokerMessage (ι μ : Type*)
  | subscriber (newUser : UserObserver)
  | ubsubscriber (id : ι)
  | message (msg : μ)

/-- A message to the broker; the reply goes to the handler that waits for it. -/
structure Envelope (ι μ : Type*) where
  message : WSBrokerMessage ι μ
  replyTo : Option HandlerId

def Envelope.tell {ι μ : Type*} (message : WSBrokerMessage ι μ) : Envelope ι μ :=
  { message, replyTo := none }

def Envelope.ask {ι μ : Type*} (message : WSBrokerMessage ι μ) (asker : HandlerId) :
    Envelope ι μ :=
  { message, replyTo := some asker }

/-! ## Handlers -/

inductive HandlerState (ι μ : Type*)
  | notStarted
  /-- `ask` waits for room in the mailbox of the broker. -/
  | asking
  /-- `ask` waits for the reply. -/
  | asked
  /-- In `select!`. -/
  | receiving (id : ι)
  /-- In `self.user.send`. -/
  | writing (id : ι) (message : μ)
  /-- In `self.user.close`. -/
  | closing (id : ι)
  /-- Out of the loop, `tell` waits for room in the mailbox of the broker. -/
  | leaving (id : ι)
  /-- The task has ended and its mailbox is closed. -/
  | gone

structure WebSocketHandler (ι μ : Type*) where
  state : HandlerState ι μ
  mailbox : Mailbox μ capacity
  /-- What was sent on `rx_shut`. -/
  shutdown : Bool
  written : List μ

inductive HandlerAct
  | start
  /-- `select!` takes the branch of the mailbox. -/
  | recv
  | sendDone
  /-- `self.user.send` fails, maybe after the message was written. -/
  | sendFails (wrote : Bool)
  /-- The peer has gone: `actor_ref.shutdown()`. -/
  | shutdown
  /-- `select!` takes the branch of `rx_shut`. -/
  | rxShut
  | closeDone

namespace WebSocketHandler

variable {ι μ : Type*}

def new : WebSocketHandler ι μ :=
  { state := .notStarted, mailbox := .empty, shutdown := false, written := [] }

def act (handler : WebSocketHandler ι μ) (act : HandlerAct) : Option (WebSocketHandler ι μ) :=
  match act, handler.state with
  | .start, .notStarted => some { handler with state := .asking }
  | .recv, .receiving id =>
      handler.mailbox.recv.map fun (message, mailbox) =>
        { handler with state := .writing id message, mailbox }
  | .sendDone, .writing id message =>
      some { handler with state := .receiving id, written := handler.written ++ [message] }
  | .sendFails wrote, .writing id message =>
      let written := if wrote then handler.written ++ [message] else handler.written
      some { handler with state := .leaving id, written }
  | .shutdown, .notStarted => none
  | .shutdown, _ => some { handler with shutdown := true }
  | .rxShut, .receiving id =>
      if handler.shutdown then some { handler with state := .closing id } else none
  | .closeDone, .closing id => some { handler with state := .leaving id }
  | _, _ => none

/-- The reply to `ask` comes; only the handler that asked waits for it. -/
def reply (handler : WebSocketHandler ι μ) (id : ι) : WebSocketHandler ι μ :=
  match handler.state with
  | .asked => { handler with state := .receiving id }
  | _ => handler

/-- `UserObserver::update`, when it goes on: with room in the mailbox, or at once when
the mailbox is closed. -/
def update (handler : WebSocketHandler ι μ) (message : μ) : Option (WebSocketHandler ι μ) :=
  match handler.state with
  | .gone => some handler
  | _ => (handler.mailbox.send message).map fun mailbox => { handler with mailbox }

@[elab_as_elim] theorem act_cases {handler : WebSocketHandler ι μ}
    {motive : ∀ act handler', handler.act act = some handler' → Prop}
    (start : ∀ hact, handler.state = .notStarted →
      motive .start { handler with state := .asking } hact)
    (recv : ∀ id message mailbox hact, handler.state = .receiving id →
      handler.mailbox.items = message :: mailbox.items →
      motive .recv { handler with state := .writing id message, mailbox } hact)
    (sendDone : ∀ id message hact, handler.state = .writing id message →
      motive .sendDone
        { handler with state := .receiving id, written := handler.written ++ [message] } hact)
    (sendFails : ∀ wrote id message hact, handler.state = .writing id message →
      motive (.sendFails wrote)
        { handler with
          state := .leaving id
          written := if wrote then handler.written ++ [message] else handler.written } hact)
    (shutdown : ∀ hact, motive .shutdown { handler with shutdown := true } hact)
    (rxShut : ∀ id hact, handler.state = .receiving id →
      motive .rxShut { handler with state := .closing id } hact)
    (closeDone : ∀ id hact, handler.state = .closing id →
      motive .closeDone { handler with state := .leaving id } hact)
    {act : HandlerAct} {handler' : WebSocketHandler ι μ} (hact : handler.act act = some handler') :
    motive act handler' hact := by
  have hgiven := hact
  unfold WebSocketHandler.act at hgiven
  split at hgiven
  case h_1 hstate =>
      obtain rfl := Option.some.inj hgiven
      exact start hact hstate
  case h_2 id hstate =>
      obtain ⟨⟨message, mailbox⟩, hrecv, rfl⟩ := Option.map_eq_some_iff.1 hgiven
      exact recv id message mailbox hact hstate (Mailbox.recv_eq_some_iff.1 hrecv)
  case h_3 id message hstate =>
      obtain rfl := Option.some.inj hgiven
      exact sendDone id message hact hstate
  case h_4 wrote id message hstate =>
      obtain rfl := Option.some.inj hgiven
      exact sendFails wrote id message hact hstate
  case h_5 => cases hgiven
  case h_6 =>
      obtain rfl := Option.some.inj hgiven
      exact shutdown hact
  case h_7 id hstate =>
      split_ifs at hgiven
      obtain rfl := Option.some.inj hgiven
      exact rxShut id hact hstate
  case h_8 id hstate =>
      obtain rfl := Option.some.inj hgiven
      exact closeDone id hact hstate
  case h_9 => cases hgiven

end WebSocketHandler

/-! ## The broker and its steps -/

inductive BrokerState (μ : Type*)
  | receiving
  /-- In `update` of `observer`, with `rest` still to come. -/
  | updating (message : μ) (observer : UserObserver) (rest : List UserObserver)

def BrokerState.goOn {μ : Type*} (message : μ) : List UserObserver → BrokerState μ
  | [] => .receiving
  | observer :: rest => .updating message observer rest

inductive Taken (ι μ : Type*)
  | registered (id : ι) (observer : UserObserver)
  | removed (id : ι)
  | message (msg : μ)

def Taken.uuid {ι μ : Type*} : Taken ι μ → Option ι
  | .registered id _ => some id
  | _ => none

structure System (ι μ : Type*) where
  mailbox : Mailbox (Envelope ι μ) capacity
  broker : BrokerState μ
  observers : AssocMap ι UserObserver
  handlers : HandlerId → WebSocketHandler ι μ
  /-- What the broker has taken so far, the oldest first; a fresh uuid is none of these. -/
  taken : List (Taken ι μ)

inductive Label (ι μ : Type*)
  | handler (h : HandlerId) (act : HandlerAct)
  | post (message : WSBrokerMessage ι μ)
  /-- The `Subscriber` of a handler gets into the mailbox of the broker. -/
  | ask (h : HandlerId)
  | take (id : ι) (order : AssocMap ι UserObserver)
  /-- The broker is through with the observer it waits for. -/
  | update
  /-- The `Ubsubscriber` of a handler gets into the mailbox of the broker. -/
  | tell (h : HandlerId)

namespace System

variable {ι μ : Type*}

def start : System ι μ :=
  { mailbox := .empty, broker := .receiving, observers := [], handlers := fun _ => .new,
    taken := [] }

def setHandler (s : System ι μ) (h : HandlerId) (handler : WebSocketHandler ι μ) :
    System ι μ :=
  { s with handlers := Function.update s.handlers h handler }

variable [DecidableEq ι]

def subscriber (s : System ι μ) (newUser : UserObserver) (replyTo : Option HandlerId) (id : ι) :
    Option (System ι μ) :=
  match replyTo with
  | some asker =>
      if id ∈ s.taken.filterMap Taken.uuid then
        none
      else
        some { s.setHandler asker ((s.handlers asker).reply id) with
          observers := s.observers.put id newUser
          taken := s.taken ++ [.registered id newUser] }
  | none => some s

/-- One round of the loop of the broker. -/
def take (s : System ι μ) (envelope : Envelope ι μ) (id : ι) (order : AssocMap ι UserObserver) :
    Option (System ι μ) :=
  match envelope.message with
  | .ubsubscriber gone =>
      some { s with observers := s.observers.erase gone, taken := s.taken ++ [.removed gone] }
  | .subscriber newUser => s.subscriber newUser envelope.replyTo id
  | .message msg =>
      if order.Perm s.observers then
        some { s with
          broker := .goOn msg (order.map Prod.snd)
          taken := s.taken ++ [.message msg] }
      else
        none

def step (s : System ι μ) : Label ι μ → Option (System ι μ)
  | .handler h act => ((s.handlers h).act act).map (s.setHandler h)
  | .post message => (s.mailbox.send (.tell message)).map fun mailbox => { s with mailbox }
  | .ask h =>
      match (s.handlers h).state with
      | .asking =>
          (s.mailbox.send (.ask (.subscriber h) h)).map fun mailbox =>
            { s.setHandler h { s.handlers h with state := .asked } with mailbox }
      | _ => none
  | .take id order =>
      match s.broker with
      | .receiving =>
          s.mailbox.recv.bind fun (envelope, mailbox) =>
            { s with mailbox }.take envelope id order
      | .updating _ _ _ => none
  | .update =>
      match s.broker with
      | .receiving => none
      | .updating message observer rest =>
          ((s.handlers observer).update message).map fun handler =>
            { s.setHandler observer handler with broker := .goOn message rest }
  | .tell h =>
      match (s.handlers h).state with
      | .leaving id =>
          (s.mailbox.send (.tell (.ubsubscriber id))).map fun mailbox =>
            { s.setHandler h { s.handlers h with state := .gone, mailbox := .empty } with
              mailbox }
      | _ => none

def Step (s : System ι μ) (label : Label ι μ) (s' : System ι μ) : Prop :=
  s.step label = some s'

theorem step_det (s : System ι μ) (label : Label ι μ) (t u : System ι μ)
    (ht : s.Step label t) (hu : s.Step label u) : t = u :=
  Option.some.inj (ht.symm.trans hu)

@[elab_as_elim] theorem step_cases {s : System ι μ}
    {motive : ∀ label s', s.Step label s' → Prop}
    (handler : ∀ h act handler' hstep, (s.handlers h).act act = some handler' →
      motive (.handler h act) (s.setHandler h handler') hstep)
    (post : ∀ message mailbox hstep, s.mailbox.send (.tell message) = some mailbox →
      motive (.post message) { s with mailbox } hstep)
    (ask : ∀ h mailbox hstep, (s.handlers h).state = .asking →
      s.mailbox.send (.ask (.subscriber h) h) = some mailbox →
      motive (.ask h) { s.setHandler h { s.handlers h with state := .asked } with mailbox }
        hstep)
    (take : ∀ id order envelope mailbox t hstep, s.broker = .receiving →
      s.mailbox.recv = some (envelope, mailbox) →
      { s with mailbox }.take envelope id order = some t → motive (.take id order) t hstep)
    (update : ∀ message observer rest handler' hstep,
      s.broker = .updating message observer rest →
      (s.handlers observer).update message = some handler' →
      motive .update { s.setHandler observer handler' with broker := .goOn message rest } hstep)
    (tell : ∀ h id mailbox hstep, (s.handlers h).state = .leaving id →
      s.mailbox.send (.tell (.ubsubscriber id)) = some mailbox →
      motive (.tell h)
        { s.setHandler h { s.handlers h with state := .gone, mailbox := .empty } with
          mailbox } hstep)
    {label : Label ι μ} {s' : System ι μ} (hstep : s.Step label s') : motive label s' hstep := by
  have hgiven := hstep
  unfold Step step at hgiven
  split at hgiven
  case h_1 h act =>
      obtain ⟨handler', hact, rfl⟩ := Option.map_eq_some_iff.1 hgiven
      exact handler h act handler' hstep hact
  case h_2 message =>
      obtain ⟨mailbox, hsend, rfl⟩ := Option.map_eq_some_iff.1 hgiven
      exact post message mailbox hstep hsend
  case h_3 h =>
      split at hgiven
      case h_1 hasking =>
          obtain ⟨mailbox, hsend, rfl⟩ := Option.map_eq_some_iff.1 hgiven
          exact ask h mailbox hstep hasking hsend
      case h_2 => cases hgiven
  case h_4 id order =>
      split at hgiven
      case h_1 hbroker =>
          obtain ⟨⟨envelope, mailbox⟩, hrecv, htake⟩ := Option.bind_eq_some_iff.1 hgiven
          exact take id order envelope mailbox s' hstep hbroker hrecv htake
      case h_2 => cases hgiven
  case h_5 =>
      split at hgiven
      case h_1 => cases hgiven
      case h_2 message observer rest hbroker =>
          obtain ⟨handler', hupdate, rfl⟩ := Option.map_eq_some_iff.1 hgiven
          exact update message observer rest handler' hstep hbroker hupdate
  case h_6 h =>
      split at hgiven
      case h_1 id hleaving =>
          obtain ⟨mailbox, hsend, rfl⟩ := Option.map_eq_some_iff.1 hgiven
          exact tell h id mailbox hstep hleaving hsend
      case h_2 => cases hgiven

end System

end WsHyper.Directory.WebSocket
