import WsHyper.Directory.WebSocket

/-!
# What a websocket gets

A handler hears the messages that the broker takes while it is subscribed.  Those that
it has heard are, in this order: written to its websocket, in its hand, in its
mailbox, and with the broker.
-/

namespace WsHyper.Directory.WebSocket

open WsHyper.Lib

/-! ## The messages of a subscription -/

inductive Subscription (ι : Type*)
  | notYet
  | opened (id : ι)
  | closed

structure Hearing (ι μ : Type*) where
  subscription : Subscription ι
  messages : List μ

section Hearing

variable {ι μ : Type*} [DecidableEq ι]

def Hearing.after (h : HandlerId) (hearing : Hearing ι μ) (taken : Taken ι μ) : Hearing ι μ :=
  match hearing.subscription, taken with
  | .notYet, .registered id observer =>
      if observer = h then { hearing with subscription := .opened id } else hearing
  | .opened id, .removed gone =>
      if gone = id then { hearing with subscription := .closed } else hearing
  | .opened _, .message msg => { hearing with messages := hearing.messages ++ [msg] }
  | _, _ => hearing

/-- What the broker took for `h`: the messages after its `Subscriber` was registered
and before its `Ubsubscriber` was taken. -/
def heard (h : HandlerId) (taken : List (Taken ι μ)) : Hearing ι μ :=
  taken.foldl (Hearing.after h) { subscription := .notYet, messages := [] }

variable {h : HandlerId} {id gone : ι} {msg : μ} {hearing : Hearing ι μ}
  {taken : List (Taken ι μ)}

@[simp] theorem heard_nil :
    heard h ([] : List (Taken ι μ)) = { subscription := .notYet, messages := [] } := rfl

@[simp] theorem heard_concat (h : HandlerId) (taken : List (Taken ι μ)) (last : Taken ι μ) :
    heard h (taken ++ [last]) = (heard h taken).after h last := by
  rw [heard, List.foldl_concat, heard]

theorem after_registered_self (hnew : hearing.subscription = .notYet) :
    hearing.after h (.registered id h) = { hearing with subscription := .opened id } := by
  unfold Hearing.after
  rw [hnew]
  exact if_pos rfl

theorem after_registered_of_ne {observer : HandlerId} (hne : observer ≠ h) :
    hearing.after h (.registered id observer) = hearing := by
  unfold Hearing.after
  cases hearing.subscription with
  | notYet => exact if_neg hne
  | opened id => rfl
  | closed => rfl

theorem after_message_of_opened (hopened : hearing.subscription = .opened id) :
    hearing.after h (.message msg) =
      { hearing with messages := hearing.messages ++ [msg] } := by
  unfold Hearing.after
  rw [hopened]

theorem after_message_of_not_opened (hclosed : ∀ id, hearing.subscription ≠ .opened id) :
    hearing.after h (.message msg) = hearing := by
  unfold Hearing.after
  cases hsubscription : hearing.subscription with
  | notYet => rfl
  | opened id => exact absurd hsubscription (hclosed id)
  | closed => rfl

@[simp] theorem subscription_after_message :
    (hearing.after h (.message msg)).subscription = hearing.subscription := by
  unfold Hearing.after
  cases hsubscription : hearing.subscription with
  | notYet => exact hsubscription
  | opened id => rfl
  | closed => exact hsubscription

@[simp] theorem messages_after_removed :
    (hearing.after h (.removed gone)).messages = hearing.messages := by
  unfold Hearing.after
  cases hearing.subscription with
  | notYet => rfl
  | opened id => exact apply_ite Hearing.messages _ _ _ |>.trans (ite_self _)
  | closed => rfl

theorem after_removed_of_notYet (hnew : hearing.subscription = .notYet) :
    hearing.after h (.removed gone) = hearing := by
  unfold Hearing.after
  rw [hnew]

theorem opened_after_removed_iff :
    (hearing.after h (.removed gone)).subscription = .opened id ↔
      hearing.subscription = .opened id ∧ id ≠ gone := by
  unfold Hearing.after
  cases hsubscription : hearing.subscription with
  | notYet => simp [hsubscription]
  | closed => simp [hsubscription]
  | opened own =>
      by_cases hgone : gone = own
      · simp only [if_pos hgone, Subscription.opened.injEq]
        grind
      · simp only [if_neg hgone, hsubscription, Subscription.opened.injEq]
        grind

theorem uuid_of_opened (hopened : (heard h taken).subscription = .opened id) :
    id ∈ taken.filterMap Taken.uuid := by
  induction taken using List.reverseRecOn with
  | nil => simp at hopened
  | append_singleton taken last ih =>
      rw [heard_concat] at hopened
      rw [List.filterMap_append, List.mem_append]
      cases last with
      | registered new observer =>
          by_cases hnew : (heard h taken).subscription = .notYet ∧ observer = h
          · obtain ⟨hnew, rfl⟩ := hnew
            rw [after_registered_self hnew] at hopened
            right
            simpa [Taken.uuid] using (Subscription.opened.inj hopened).symm
          · left
            apply ih
            unfold Hearing.after at hopened
            split at hopened <;> grind
      | removed gone => exact .inl (ih (opened_after_removed_iff.1 hopened).1)
      | message msg => exact .inl (ih (by simpa using hopened))

end Hearing

/-! ## The invariant -/

section Invariant

variable {ι μ : Type*}

/-- What is written, in the hand of a handler, in its mailbox and still `pending` is
what it heard. -/
def WebSocketHandler.Follows (handler : WebSocketHandler ι μ) (hearing : Hearing ι μ)
    (pending : List μ) : Prop :=
  match handler.state with
  | .receiving _ => handler.written ++ handler.mailbox.items ++ pending = hearing.messages
  | .writing _ message =>
      handler.written ++ message :: handler.mailbox.items ++ pending = hearing.messages
  | .closing _ => handler.written <+: hearing.messages
  | .leaving _ => handler.written <+: hearing.messages
  | .gone => handler.written <+: hearing.messages
  | _ => hearing = { subscription := .notYet, messages := [] } ∧ handler.written = [] ∧
      handler.mailbox.items = [] ∧ pending = []

def BrokerState.observers : BrokerState μ → List UserObserver
  | .receiving => []
  | .updating _ observer rest => observer :: rest

def BrokerState.pending (broker : BrokerState μ) (h : HandlerId) : List μ :=
  match broker with
  | .receiving => []
  | .updating message observer rest => if h ∈ observer :: rest then [message] else []

variable [DecidableEq ι]

structure Consistent (s : System ι μ) : Prop where
  observers : ∀ id h, (id, h) ∈ s.observers ↔ (heard h s.taken).subscription = .opened id
  observers_nodup : (s.observers.map Prod.snd).Nodup
  told_once : s.broker.observers.Nodup
  asks : ∀ envelope ∈ s.mailbox.items, ∀ h, envelope.replyTo = some h →
    envelope.message = .subscriber h ∧ (s.handlers h).state = .asked
  asks_nodup : (s.mailbox.items.filterMap Envelope.replyTo).Nodup
  follows : ∀ h, (s.handlers h).Follows (heard h s.taken) (s.broker.pending h)

variable {s s' : System ι μ} {h g : HandlerId} {handler handler' : WebSocketHandler ι μ}
  {hearing : Hearing ι μ} {pending : List μ} {act : HandlerAct} {message : μ} {id : ι}

@[simp] theorem observers_goOn (rest : List UserObserver) :
    (BrokerState.goOn message rest).observers = rest := by
  cases rest <;> rfl

@[simp] theorem pending_goOn (rest : List UserObserver) :
    (BrokerState.goOn message rest).pending h = if h ∈ rest then [message] else [] := by
  cases rest <;> rfl

omit [DecidableEq ι] in
theorem written_of_follows (hfollows : handler.Follows hearing pending) :
    handler.written <+: hearing.messages := by
  unfold WebSocketHandler.Follows at hfollows
  split at hfollows
  · rw [List.append_assoc] at hfollows
    exact ⟨_, hfollows⟩
  · rw [List.append_assoc] at hfollows
    exact ⟨_, hfollows⟩
  · exact hfollows
  · exact hfollows
  · exact hfollows
  · rw [hfollows.2.1]
    exact List.nil_prefix

omit [DecidableEq ι] in
/-- What a handler does on its own only moves messages on, in their order. -/
theorem follows_of_act (hact : handler.act act = some handler')
    (hfollows : handler.Follows hearing pending) : handler'.Follows hearing pending := by
  have hwritten := written_of_follows hfollows
  cases hact using WebSocketHandler.act_cases with
  | start _ hstate => simpa [WebSocketHandler.Follows, hstate] using hfollows
  | recv id message mailbox _ hstate hitems =>
      simpa [WebSocketHandler.Follows, hstate, hitems] using hfollows
  | sendDone id message _ hstate => simpa [WebSocketHandler.Follows, hstate] using hfollows
  | sendFails wrote id message _ hstate =>
      have hall : handler.written ++ [message] ++ (handler.mailbox.items ++ pending) =
          hearing.messages := by
        simpa [WebSocketHandler.Follows, hstate] using hfollows
      cases wrote with
      | false => exact hwritten
      | true => exact ⟨_, hall⟩
  | shutdown => exact hfollows
  | rxShut => exact hwritten
  | closeDone => exact hwritten

omit [DecidableEq ι] in
theorem asked_of_act (hact : handler.act act = some handler') (hasked : handler.state = .asked) :
    handler'.state = .asked := by
  cases hact using WebSocketHandler.act_cases with
  | shutdown => exact hasked
  | start _ hstate | recv _ _ _ _ hstate | sendDone _ _ _ hstate | sendFails _ _ _ _ hstate
  | rxShut _ _ hstate | closeDone _ _ hstate =>
      rw [hasked] at hstate
      cases hstate

omit [DecidableEq ι] in
theorem follows_reply (id : ι) (hasked : handler.state = .asked)
    (hfollows : handler.Follows hearing pending) :
    hearing.subscription = .notYet ∧
      (handler.reply id).Follows { hearing with subscription := .opened id } pending := by
  unfold WebSocketHandler.Follows at hfollows
  rw [hasked] at hfollows
  obtain ⟨hhearing, hwritten, hmailbox, hpending⟩ := hfollows
  refine ⟨by rw [hhearing], ?_⟩
  simp [WebSocketHandler.reply, WebSocketHandler.Follows, hasked, hhearing, hwritten, hmailbox,
    hpending]

omit [DecidableEq ι] in
theorem follows_of_update (hupdate : handler.update message = some handler')
    (hfollows : handler.Follows hearing [message]) : handler'.Follows hearing [] := by
  unfold WebSocketHandler.update at hupdate
  split at hupdate
  case h_1 hstate =>
      obtain rfl := Option.some.inj hupdate
      have hwritten := written_of_follows hfollows
      simpa [WebSocketHandler.Follows, hstate] using hwritten
  case h_2 =>
      obtain ⟨mailbox, hsend, rfl⟩ := Option.map_eq_some_iff.1 hupdate
      have hitems := (Mailbox.send_eq_some_iff.1 hsend).2
      unfold WebSocketHandler.Follows at hfollows ⊢
      cases hstate : handler.state with
      | notStarted | asking | asked => simp [hstate] at hfollows
      | receiving id | writing id message => simpa [hstate, hitems] using hfollows
      | closing id | leaving id | gone => simpa [hstate] using hfollows

omit [DecidableEq ι] in
theorem state_of_update (hupdate : handler.update message = some handler') :
    handler'.state = handler.state := by
  unfold WebSocketHandler.update at hupdate
  split at hupdate
  case h_1 => rw [Option.some.inj hupdate]
  case h_2 =>
      obtain ⟨mailbox, -, rfl⟩ := Option.map_eq_some_iff.1 hupdate
      rfl

theorem follows_message (hfollows : handler.Follows hearing [])
    (hopened : hearing.subscription = .opened id) :
    handler.Follows (hearing.after h (.message message)) [message] := by
  rw [after_message_of_opened hopened]
  unfold WebSocketHandler.Follows at hfollows ⊢
  cases hstate : handler.state with
  | notStarted | asking | asked =>
      simp only [hstate] at hfollows
      rw [hfollows.1] at hopened
      cases hopened
  | receiving id | writing id message =>
      simp only [hstate, List.append_nil] at hfollows
      simp [← hfollows]
  | closing id | leaving id | gone =>
      simp only [hstate] at hfollows ⊢
      exact hfollows.trans (List.prefix_append _ _)

theorem follows_removed {gone : ι} (hfollows : handler.Follows hearing pending) :
    handler.Follows (hearing.after h (.removed gone)) pending := by
  unfold WebSocketHandler.Follows at hfollows ⊢
  cases hstate : handler.state with
  | notStarted | asking | asked =>
      simp only [hstate] at hfollows ⊢
      rwa [after_removed_of_notYet (by rw [hfollows.1])]
  | receiving id | writing id message | closing id | leaving id | gone =>
      simpa [hstate] using hfollows

/-! ## Steps of the handlers -/

theorem consistent_start : Consistent (System.start : System ι μ) where
  observers := by simp [System.start]
  observers_nodup := List.nodup_nil
  told_once := List.nodup_nil
  asks := by simp [System.start]
  asks_nodup := List.nodup_nil
  follows := fun _ => ⟨rfl, rfl, rfl, rfl⟩

theorem asks_setHandler (hs : Consistent s)
    (hasked : (s.handlers g).state = .asked → handler'.state = .asked) :
    ∀ envelope ∈ s.mailbox.items, ∀ h, envelope.replyTo = some h →
      envelope.message = .subscriber h ∧
        ((s.setHandler g handler').handlers h).state = .asked := by
  intro envelope hmem h hreply
  obtain ⟨hmessage, hstate⟩ := hs.asks envelope hmem h hreply
  refine ⟨hmessage, ?_⟩
  rcases eq_or_ne h g with rfl | hne
  · simpa [System.setHandler] using hasked hstate
  · simpa [System.setHandler, hne] using hstate

theorem consistent_setHandler (hs : Consistent s)
    (hasked : (s.handlers g).state = .asked → handler'.state = .asked)
    (hfollows : handler'.Follows (heard g s.taken) (s.broker.pending g)) :
    Consistent (s.setHandler g handler') where
  observers := hs.observers
  observers_nodup := hs.observers_nodup
  told_once := hs.told_once
  asks := asks_setHandler hs hasked
  asks_nodup := hs.asks_nodup
  follows := by
    intro h
    rcases eq_or_ne h g with rfl | hne
    · simpa [System.setHandler] using hfollows
    · simpa [System.setHandler, hne] using hs.follows h

theorem consistent_tell {mailbox : Mailbox (Envelope ι μ) capacity}
    {message : WSBrokerMessage ι μ} (hs : Consistent s)
    (hsend : s.mailbox.send (.tell message) = some mailbox) :
    Consistent { s with mailbox } := by
  have hitems := (Mailbox.send_eq_some_iff.1 hsend).2
  refine { hs with asks := ?_, asks_nodup := ?_ }
  · intro envelope hmem h hreply
    rw [hitems, List.mem_append, List.mem_singleton] at hmem
    rcases hmem with hmem | rfl
    · exact hs.asks envelope hmem h hreply
    · cases hreply
  · rw [hitems]
    simpa [Envelope.tell] using hs.asks_nodup

theorem consistent_ask {mailbox : Mailbox (Envelope ι μ) capacity} (hs : Consistent s)
    (hasking : (s.handlers h).state = .asking)
    (hsend : s.mailbox.send (.ask (.subscriber h) h) = some mailbox) :
    Consistent { s.setHandler h { s.handlers h with state := .asked } with mailbox } := by
  have hitems := (Mailbox.send_eq_some_iff.1 hsend).2
  have hnone : ∀ envelope ∈ s.mailbox.items, envelope.replyTo ≠ some h := by
    intro envelope hmem hreply
    have hasked := (hs.asks envelope hmem h hreply).2
    rw [hasking] at hasked
    cases hasked
  have hfollows := hs.follows h
  have hset : Consistent (s.setHandler h { s.handlers h with state := .asked }) := by
    refine consistent_setHandler hs (fun _ => rfl) ?_
    simpa [WebSocketHandler.Follows, hasking] using hfollows
  refine { hset with asks := ?_, asks_nodup := ?_ }
  · intro envelope hmem g hreply
    rw [hitems, List.mem_append, List.mem_singleton] at hmem
    rcases hmem with hmem | rfl
    · exact hset.asks envelope hmem g hreply
    · obtain rfl := Option.some.inj hreply
      exact ⟨rfl, by simp [System.setHandler]⟩
  · rw [hitems, List.filterMap_append, List.nodup_append]
    refine ⟨hs.asks_nodup, by simp [Envelope.ask], ?_⟩
    rintro asker hasker _ hself rfl
    obtain ⟨envelope, hmem, hreply⟩ := List.mem_filterMap.1 hasker
    have hself : asker = h := by simpa [Envelope.ask] using hself
    exact hnone envelope hmem (hself ▸ hreply)

theorem consistent_leave {mailbox : Mailbox (Envelope ι μ) capacity} (hs : Consistent s)
    (hleaving : (s.handlers h).state = .leaving id)
    (hsend : s.mailbox.send (.tell (.ubsubscriber id)) = some mailbox) :
    Consistent { s.setHandler h { s.handlers h with state := .gone, mailbox := .empty } with
      mailbox } := by
  have hset : Consistent
      (s.setHandler h { s.handlers h with state := .gone, mailbox := .empty }) := by
    refine consistent_setHandler hs (by simp [hleaving]) ?_
    have hwritten := written_of_follows (hs.follows h)
    exact hwritten
  exact consistent_tell hset hsend

/-! ## Steps of the broker -/

theorem consistent_update {rest : List UserObserver} (hs : Consistent s)
    (hbroker : s.broker = .updating message g rest)
    (hupdate : (s.handlers g).update message = some handler') :
    Consistent { s.setHandler g handler' with broker := .goOn message rest } := by
  have hnodup := hs.told_once
  rw [hbroker, BrokerState.observers, List.nodup_cons] at hnodup
  refine ⟨hs.observers, hs.observers_nodup, by simpa using hnodup.2, ?_, hs.asks_nodup, ?_⟩
  · exact asks_setHandler hs fun hasked => (state_of_update hupdate).trans hasked
  · intro h
    have hfollows := hs.follows h
    rw [hbroker] at hfollows
    rcases eq_or_ne h g with rfl | hne
    · have htold : handler'.Follows (heard h s.taken) [] :=
        follows_of_update hupdate (by simpa [BrokerState.pending] using hfollows)
      simpa [System.setHandler, hnodup.1] using htold
    · have hpending : (BrokerState.updating message g rest).pending h =
          (BrokerState.goOn message rest).pending h := by
        rw [pending_goOn]
        simp [BrokerState.pending, hne]
      rw [hpending] at hfollows
      simpa [System.setHandler, hne] using hfollows

theorem consistent_recv {envelope : Envelope ι μ} {mailbox : Mailbox (Envelope ι μ) capacity}
    (hs : Consistent s) (hrecv : s.mailbox.recv = some (envelope, mailbox)) :
    Consistent { s with mailbox } := by
  have hitems := Mailbox.recv_eq_some_iff.1 hrecv
  refine { hs with asks := ?_, asks_nodup := ?_ }
  · intro other hmem
    exact hs.asks other (by rw [hitems]; exact List.mem_cons_of_mem _ hmem)
  · have hnodup := hs.asks_nodup
    rw [hitems] at hnodup
    exact hnodup.sublist ((List.sublist_cons_self _ _).filterMap _)

theorem consistent_removed {gone : ι} (hs : Consistent s) :
    Consistent { s with
      observers := s.observers.erase gone, taken := s.taken ++ [.removed gone] } where
  observers := by
    intro id h
    simp only [heard_concat]
    rw [AssocMap.mem_erase, opened_after_removed_iff, hs.observers]
  observers_nodup := hs.observers_nodup.sublist (List.filter_sublist.map _)
  told_once := hs.told_once
  asks := hs.asks
  asks_nodup := hs.asks_nodup
  follows := by
    intro h
    simp only [heard_concat]
    exact follows_removed (hs.follows h)

/-- Everybody with an open subscription is told the message, each of them once. -/
theorem consistent_message {order : AssocMap ι UserObserver} (hs : Consistent s)
    (hbroker : s.broker = .receiving) (horder : order.Perm s.observers) :
    Consistent { s with
      broker := .goOn message (order.map Prod.snd)
      taken := s.taken ++ [.message message] } where
  observers := by
    intro id h
    simp only [heard_concat, subscription_after_message]
    exact hs.observers id h
  observers_nodup := hs.observers_nodup
  told_once := by
    simpa using (horder.map Prod.snd).nodup_iff.2 hs.observers_nodup
  asks := hs.asks
  asks_nodup := hs.asks_nodup
  follows := by
    intro h
    have hfollows := hs.follows h
    simp only [hbroker, BrokerState.pending] at hfollows
    simp only [heard_concat, pending_goOn]
    have hmem : h ∈ order.map Prod.snd ↔
        ∃ id, (heard h s.taken).subscription = .opened id := by
      rw [(horder.map Prod.snd).mem_iff, List.mem_map]
      constructor
      · rintro ⟨⟨id, h⟩, hmem, rfl⟩
        exact ⟨id, (hs.observers id h).1 hmem⟩
      · rintro ⟨id, hopened⟩
        exact ⟨(id, h), (hs.observers id h).2 hopened, rfl⟩
    split_ifs with hobserver
    · obtain ⟨id, hopened⟩ := hmem.1 hobserver
      exact follows_message hfollows hopened
    · rw [after_message_of_not_opened fun id hopened => hobserver (hmem.2 ⟨id, hopened⟩)]
      exact hfollows

theorem consistent_registered (hs : Consistent s) (hasked : (s.handlers g).state = .asked)
    (hanswered : ∀ envelope ∈ s.mailbox.items, envelope.replyTo ≠ some g)
    (hfresh : id ∉ s.taken.filterMap Taken.uuid) :
    Consistent { s.setHandler g ((s.handlers g).reply id) with
      observers := s.observers.put id g
      taken := s.taken ++ [.registered id g] } := by
  obtain ⟨hnew, hfollows⟩ := follows_reply id hasked (hs.follows g)
  have hunused : ∀ h, (heard h s.taken).subscription ≠ .opened id :=
    fun h hopened => hfresh (uuid_of_opened hopened)
  have hheard : ∀ h, heard h (s.taken ++ [.registered id g]) =
      if h = g then { heard g s.taken with subscription := .opened id } else heard h s.taken := by
    intro h
    rw [heard_concat]
    split_ifs with hself
    · rw [hself, after_registered_self hnew]
    · exact after_registered_of_ne (Ne.symm hself)
  have herase : s.observers.erase id = s.observers := by
    apply AssocMap.erase_eq_self
    intro hmem
    obtain ⟨⟨other, h⟩, hobserver, rfl⟩ := List.mem_map.1 hmem
    exact hunused h ((hs.observers other h).1 hobserver)
  refine ⟨?_, ?_, hs.told_once, ?_, hs.asks_nodup, ?_⟩
  · intro other h
    simp only [hheard, AssocMap.put, herase, List.mem_cons, Prod.mk.injEq, hs.observers]
    split_ifs with hself
    · subst hself
      simp [hnew, eq_comm]
    · simp [hself]
  · simp only [AssocMap.put, herase, List.map_cons, List.nodup_cons]
    refine ⟨?_, hs.observers_nodup⟩
    intro hmem
    obtain ⟨⟨other, h⟩, hobserver, rfl⟩ := List.mem_map.1 hmem
    have hopened := (hs.observers other h).1 hobserver
    rw [hnew] at hopened
    cases hopened
  · intro envelope hmem h hreply
    obtain ⟨hmessage, hstate⟩ := hs.asks envelope hmem h hreply
    have hne : h ≠ g := by
      rintro rfl
      exact hanswered envelope hmem hreply
    exact ⟨hmessage, by simpa [System.setHandler, hne] using hstate⟩
  · intro h
    simp only [hheard]
    rcases eq_or_ne h g with rfl | hne
    · simpa [System.setHandler] using hfollows
    · simpa [System.setHandler, hne] using hs.follows h

/-- The envelope that is taken is the only one whose reply its handler waits for. -/
theorem only_ask {envelope : Envelope ι μ} {mailbox : Mailbox (Envelope ι μ) capacity}
    (hs : Consistent s) (hrecv : s.mailbox.recv = some (envelope, mailbox))
    (hreply : envelope.replyTo = some h) :
    ∀ other ∈ mailbox.items, other.replyTo ≠ some h := by
  intro other hmem hother
  have hnodup := hs.asks_nodup
  rw [Mailbox.recv_eq_some_iff.1 hrecv, List.filterMap_cons_some hreply,
    List.nodup_cons] at hnodup
  exact hnodup.1 (List.mem_filterMap.2 ⟨other, hmem, hother⟩)

theorem consistent_take {order : AssocMap ι UserObserver} {envelope : Envelope ι μ}
    {mailbox : Mailbox (Envelope ι μ) capacity} (hs : Consistent s)
    (hbroker : s.broker = .receiving) (hrecv : s.mailbox.recv = some (envelope, mailbox))
    (htake : { s with mailbox }.take envelope id order = some s') : Consistent s' := by
  have hrest := consistent_recv hs hrecv
  have hfirst : envelope ∈ s.mailbox.items := by
    rw [Mailbox.recv_eq_some_iff.1 hrecv]
    exact List.mem_cons_self
  unfold System.take at htake
  split at htake
  case h_1 gone =>
      obtain rfl := Option.some.inj htake
      exact consistent_removed hrest
  case h_2 newUser hsubscriber =>
      unfold System.subscriber at htake
      split at htake
      case h_1 asker hreply =>
          obtain ⟨hmessage, hasked⟩ := hs.asks envelope hfirst asker hreply
          obtain rfl : newUser = asker :=
            WSBrokerMessage.subscriber.inj (hsubscriber.symm.trans hmessage)
          split_ifs at htake with hdrawn
          obtain rfl := Option.some.inj htake
          exact consistent_registered hrest hasked (only_ask hs hrecv hreply) hdrawn
      case h_2 =>
          obtain rfl := Option.some.inj htake
          exact hrest
  case h_3 msg hmessage =>
      split_ifs at htake with horder
      obtain rfl := Option.some.inj htake
      exact consistent_message hrest hbroker horder

/-! ## Runs -/

theorem consistent_step {label : Label ι μ} (hs : Consistent s) (hstep : s.Step label s') :
    Consistent s' := by
  cases hstep using System.step_cases with
  | handler h act handler' _ hact =>
      exact consistent_setHandler hs (asked_of_act hact) (follows_of_act hact (hs.follows h))
  | post message mailbox _ hsend => exact consistent_tell hs hsend
  | ask h mailbox _ hasking hsend => exact consistent_ask hs hasking hsend
  | take id order envelope mailbox t _ hbroker hrecv htake =>
      exact consistent_take hs hbroker hrecv htake
  | update message observer rest handler' _ hbroker hupdate =>
      exact consistent_update hs hbroker hupdate
  | tell h id mailbox _ hleaving hsend => exact consistent_leave hs hleaving hsend

/-- What a handler has written is the first part of what the broker took for it. -/
theorem written_heard (labels : List (Label ι μ)) (s : System ι μ)
    (hrun : Run System.Step System.start labels s) (h : HandlerId) :
    (s.handlers h).written <+: (heard h s.taken).messages := by
  have hs : Consistent s := run_keeps (fun _ _ _ => consistent_step) consistent_start hrun
  exact written_of_follows (hs.follows h)

end Invariant

/-- One of two messages is written, the other one is still on its way. -/
theorem written_heard_first :
    ∃ s : System Nat Nat, (s.handlers 0).written = [7] ∧
      (heard 0 s.taken).messages = [7, 8] ∧
      (s.handlers 0).written <+: (heard 0 s.taken).messages := by
  have hrun : ∃ s : System Nat Nat, Run System.Step System.start
      [.handler 0 .start, .ask 0, .take 5 [], .post (.message 7), .take 0 [(5, 0)], .update,
        .handler 0 .recv, .handler 0 .sendDone, .post (.message 8), .take 0 [(5, 0)]] s ∧
      (s.handlers 0).written = [7] ∧ (heard 0 s.taken).messages = [7, 8] :=
    ⟨_, .cons rfl (.cons rfl (.cons rfl (.cons rfl (.cons rfl (.cons rfl (.cons rfl (.cons rfl
      (.cons rfl (.cons rfl (.nil _)))))))))), rfl, rfl⟩
  obtain ⟨s, hrun, hwritten, hheard⟩ := hrun
  exact ⟨s, hwritten, hheard, written_heard _ s hrun 0⟩

end WsHyper.Directory.WebSocket
