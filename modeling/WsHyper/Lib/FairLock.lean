import WsHyper.Lib.Run

/-!
# A fair lock

Tasks ask for a lock on a value and get it in the order of their coming.  The first of the
queue has the lock.  Whenever it is polled, it may be done, with a reply and a new value, or
go on holding the lock.  A task that needs no lock is replied to at once, and some may go
away before they are done.
-/

namespace WsHyper.Lib

variable {σ τ ρ : Type*}

theorem forall_mem_concat {α : Type*} {P : α → Prop} {xs : List α} {last : α}
    (hxs : ∀ x ∈ xs, P x) (hlast : P last) : ∀ x ∈ xs ++ [last], P x :=
  List.forall_mem_append.2 ⟨hxs, List.forall_mem_singleton.2 hlast⟩

/-- A task that was replied to, by its number. -/
structure Replied (τ ρ : Type*) where
  id : Nat
  task : τ
  reply : ρ

/-- A value under a lock, the tasks in front of it by their numbers, and those behind it. -/
structure FairLock (σ τ ρ : Type*) where
  value : σ
  queue : List (Nat × τ)
  replied : List (Replied τ ρ)
  arrived : Nat
  polls : Nat

structure Tasks (σ τ ρ : Type*) where
  /-- The reply to a task that needs no lock. -/
  free : σ → τ → Option ρ
  /-- What a poll of the task that has the lock comes to; `none` when it is not done. -/
  run : FairLock σ τ ρ → Nat → τ → Option (σ × ρ)
  /-- Whether the task may go away. -/
  leaves : τ → Bool

namespace FairLock

inductive Act (τ : Type*)
  | comes (task : τ)
  | polls
  | goes (id : Nat)

def start (value : σ) : FairLock σ τ ρ :=
  { value, queue := [], replied := [], arrived := 0, polls := 0 }

def answered (s : FairLock σ τ ρ) : List Nat := s.replied.map Replied.id

def Has (s : FairLock σ τ ρ) (id : Nat) (task : τ) : Prop := s.queue.head? = some (id, task)

def step (tasks : Tasks σ τ ρ) (s : FairLock σ τ ρ) : Act τ → FairLock σ τ ρ
  | .comes task =>
      match tasks.free s.value task with
      | some reply =>
          { s with
            replied := s.replied ++ [{ id := s.arrived, task, reply }]
            arrived := s.arrived + 1 }
      | none => { s with queue := s.queue ++ [(s.arrived, task)], arrived := s.arrived + 1 }
  | .polls =>
      match s.queue with
      | [] => s
      | (id, task) :: queue =>
          match tasks.run s id task with
          | some (value, reply) =>
              { s with
                value, queue
                replied := s.replied ++ [{ id, task, reply }]
                polls := s.polls + 1 }
          | none => { s with polls := s.polls + 1 }
  | .goes id =>
      { s with
        queue := s.queue.filter fun waiting =>
          waiting.1 ≠ id ∨ tasks.leaves waiting.2 = false }

def Step (tasks : Tasks σ τ ρ) (s : FairLock σ τ ρ) (act : Act τ) (s' : FairLock σ τ ρ) : Prop :=
  s.step tasks act = s'

/-- The tasks have numbers of their own, and one that waits was not replied to. -/
structure Numbered (s : FairLock σ τ ρ) : Prop where
  queued : ∀ waiting ∈ s.queue, waiting.1 < s.arrived
  nodup : (s.queue.map Prod.fst).Nodup
  behind : ∀ done ∈ s.replied, done.id < s.arrived
  apart : ∀ waiting ∈ s.queue, waiting.1 ∉ s.answered

variable {tasks : Tasks σ τ ρ} {s s' : FairLock σ τ ρ} {id : Nat} {task : τ} {reply : ρ}
  {act : Act τ} {acts : List (Act τ)}

theorem answered_concat (done : Replied τ ρ) :
    (s.replied ++ [done]).map Replied.id = s.answered ++ [done.id] := by
  rw [List.map_append, answered, List.map_singleton]

theorem Numbered.start (value : σ) : Numbered (start value : FairLock σ τ ρ) where
  queued := by simp [FairLock.start]
  nodup := by simp [FairLock.start]
  behind := by simp [FairLock.start]
  apart := by simp [FairLock.start]

theorem Numbered.comes (hs : s.Numbered) (task : τ) : (s.step tasks (.comes task)).Numbered := by
  have hqueued (waiting : Nat × τ) (hmem : waiting ∈ s.queue) : waiting.1 ≠ s.arrived :=
    (hs.queued waiting hmem).ne
  have hwaits (waiting : Nat × τ) (hmem : waiting ∈ s.queue) : waiting.1 < s.arrived + 1 :=
    (hs.queued waiting hmem).trans (Nat.lt_succ_self _)
  have hdone (done : Replied τ ρ) (hmem : done ∈ s.replied) : done.id < s.arrived + 1 :=
    (hs.behind done hmem).trans (Nat.lt_succ_self _)
  simp only [step]
  cases tasks.free s.value task with
  | some reply =>
      refine ⟨hwaits, hs.nodup, forall_mem_concat hdone (Nat.lt_succ_self _),
        fun waiting hmem => ?_⟩
      rw [answered, answered_concat, List.mem_append, List.mem_singleton]
      exact not_or.2 ⟨hs.apart waiting hmem, hqueued waiting hmem⟩
  | none =>
      refine ⟨forall_mem_concat hwaits (Nat.lt_succ_self _), ?_, hdone,
        forall_mem_concat hs.apart fun hanswered => ?_⟩
      · simp only [List.map_append, List.map_singleton]
        refine List.nodup_append.2 ⟨hs.nodup, by simp, fun id hmem last hlast => ?_⟩
        obtain ⟨waiting, hwaiting, rfl⟩ := List.mem_map.1 hmem
        rw [List.mem_singleton.1 hlast]
        exact hqueued waiting hwaiting
      · obtain ⟨done, hdone, hid⟩ := List.mem_map.1 hanswered
        exact (hs.behind done hdone).ne hid

theorem Numbered.polls (hs : s.Numbered) : (s.step tasks .polls).Numbered := by
  obtain ⟨hqueued, hnodup, hbehind, hapart⟩ := hs
  simp only [step]
  cases hqueue : s.queue with
  | nil => exact ⟨hqueued, hnodup, hbehind, hapart⟩
  | cons first queue =>
      obtain ⟨id, task⟩ := first
      rw [hqueue] at hqueued hnodup hapart
      dsimp only
      cases tasks.run s id task with
      | none => exact ⟨hqueued, hnodup, hbehind, hapart⟩
      | some done =>
          rw [List.map_cons, List.nodup_cons] at hnodup
          refine ⟨fun waiting hmem => hqueued waiting (List.mem_cons_of_mem _ hmem), hnodup.2,
            forall_mem_concat hbehind (hqueued _ List.mem_cons_self), fun waiting hmem => ?_⟩
          rw [answered, answered_concat, List.mem_append, List.mem_singleton]
          refine not_or.2 ⟨hapart waiting (List.mem_cons_of_mem _ hmem), fun hid => ?_⟩
          exact hnodup.1 (List.mem_map.2 ⟨waiting, hmem, hid⟩)

theorem Numbered.goes (hs : s.Numbered) (id : Nat) : (s.step tasks (.goes id)).Numbered where
  queued waiting hmem := hs.queued waiting (List.mem_of_mem_filter hmem)
  nodup := hs.nodup.sublist (List.filter_sublist.map Prod.fst)
  behind := hs.behind
  apart waiting hmem := hs.apart waiting (List.mem_of_mem_filter hmem)

theorem Numbered.step (hs : s.Numbered) (act : Act τ) : (s.step tasks act).Numbered := by
  cases act with
  | comes task => exact hs.comes task
  | polls => exact hs.polls
  | goes id => exact hs.goes id

theorem Numbered.run (hs : s.Numbered) (hrun : Run (Step tasks) s acts s') : s'.Numbered :=
  run_keeps (I := Numbered) (fun s act s' hs hstep => by
    rw [← show s.step tasks act = s' from hstep]
    exact hs.step act) hs hrun

/-! ## Holding the lock -/

theorem Numbered.not_answered (hs : s.Numbered) (hhas : s.Has id task) : id ∉ s.answered :=
  hs.apart (id, task) (List.mem_of_mem_head? hhas)

/-- From `s` to `s'` the task has held the lock: nothing is new but replies without the lock. -/
structure Holds (tasks : Tasks σ τ ρ) (id : Nat) (task : τ) (s s' : FairLock σ τ ρ) : Prop where
  has : s'.Has id task
  value : s'.value = s.value
  replied : ∃ free : List (Replied τ ρ), s'.replied = s.replied ++ free ∧
    ∀ done ∈ free, tasks.free s.value done.task = some done.reply

theorem Holds.of_same (hhas : s'.Has id task) (hvalue : s'.value = s.value)
    (hreplied : s'.replied = s.replied) : Holds tasks id task s s' :=
  ⟨hhas, hvalue, [], by rw [hreplied, List.append_nil], by simp⟩

theorem Holds.trans {t : FairLock σ τ ρ} (hfirst : Holds tasks id task s t)
    (hsecond : Holds tasks id task t s') : Holds tasks id task s s' := by
  obtain ⟨-, hvalue, free, hreplied, hfree⟩ := hfirst
  obtain ⟨hhas, hvalue', free', hreplied', hfree'⟩ := hsecond
  refine ⟨hhas, hvalue'.trans hvalue, free ++ free', ?_, fun done hmem => ?_⟩
  · rw [hreplied', hreplied, List.append_assoc]
  · rcases List.mem_append.1 hmem with hmem | hmem
    · exact hfree done hmem
    · rw [← hvalue]
      exact hfree' done hmem

theorem holds_step (hhas : s.Has id task) (hrun : tasks.run s id task = none)
    (hstays : act ≠ .goes id) : Holds tasks id task s (s.step tasks act) := by
  obtain ⟨queue, hqueue⟩ := List.head?_eq_some_iff.1 hhas
  cases act with
  | comes next =>
      simp only [step]
      cases hfree : tasks.free s.value next with
      | some reply =>
          refine ⟨hhas, rfl, [{ id := s.arrived, task := next, reply }], rfl, fun done hmem => ?_⟩
          rw [List.mem_singleton.1 hmem]
          exact hfree
      | none =>
          refine .of_same ?_ rfl rfl
          rw [Has, hqueue]
          rfl
  | polls =>
      simp only [step, hqueue, hrun]
      exact .of_same (by rw [Has, List.head?_cons]) rfl rfl
  | goes other =>
      have hne : id ≠ other := fun heq => hstays (by rw [heq])
      refine .of_same ?_ rfl rfl
      rw [Has, step, hqueue, List.filter_cons_of_pos (by simp [hne])]
      rfl

/-- A task that is done only after its reply holds the lock until it goes away. -/
theorem holds_run (hwaits : ∀ s, id ∉ s.answered → tasks.run s id task = none)
    (hs : s.Numbered) (hhas : s.Has id task) (hrun : Run (Step tasks) s acts s')
    (hstays : .goes id ∉ acts) : Holds tasks id task s s' := by
  induction hrun with
  | nil s => exact .of_same hhas rfl rfl
  | @cons s next _ act acts hstep _ ih =>
      have hfirst := holds_step hhas (hwaits s (hs.not_answered hhas))
        fun heq => hstays (List.mem_cons.2 (.inl heq.symm))
      have hnext : (s.step tasks act).Numbered := hs.step act
      rw [show s.step tasks act = next from hstep] at hfirst hnext
      exact hfirst.trans (ih hnext hfirst.has fun hmem => hstays (List.mem_cons_of_mem _ hmem))

theorem queue_goes {queue : List (Nat × τ)} (hs : s.Numbered)
    (hqueue : s.queue = (id, task) :: queue) (hleaves : tasks.leaves task = true) :
    (s.step tasks (.goes id)).queue = queue := by
  have hnodup := hs.nodup
  rw [hqueue, List.map_cons, List.nodup_cons] at hnodup
  rw [step, hqueue, List.filter_cons_of_neg (by simp [hleaves]), List.filter_eq_self]
  intro waiting hmem
  have hne : waiting.1 ≠ id := fun heq => hnodup.1 (List.mem_map.2 ⟨waiting, hmem, heq⟩)
  simp [hne]

theorem step_polls {queue : List (Nat × τ)} {value : σ}
    (hqueue : s.queue = (id, task) :: queue) (hrun : tasks.run s id task = some (value, reply)) :
    s.step tasks .polls = { s with
      value, queue
      replied := s.replied ++ [{ id, task, reply }]
      polls := s.polls + 1 } := by
  simp only [step, hqueue, hrun]

/-- What holds of each reply when it is given holds of all of them. -/
theorem replied_run {P : Replied τ ρ → Prop}
    (hfree : ∀ (s : FairLock σ τ ρ) task reply, tasks.free s.value task = some reply →
      P { id := s.arrived, task, reply })
    (hrun : ∀ (s : FairLock σ τ ρ) id task value reply, id ∉ s.answered →
      tasks.run s id task = some (value, reply) → P { id, task, reply })
    (hs : s.Numbered) (hreplied : ∀ done ∈ s.replied, P done)
    (hruns : Run (Step tasks) s acts s') : ∀ done ∈ s'.replied, P done := by
  have hkeeps : s'.Numbered ∧ ∀ done ∈ s'.replied, P done := by
    refine run_keeps (I := fun s => s.Numbered ∧ ∀ done ∈ s.replied, P done)
      (fun s act t hboth hstep => ?_) ⟨hs, hreplied⟩ hruns
    obtain ⟨hs, hreplied⟩ := hboth
    rw [← show s.step tasks act = t from hstep]
    refine ⟨hs.step act, ?_⟩
    cases act with
    | comes task =>
        simp only [step]
        cases hreply : tasks.free s.value task with
        | none => exact hreplied
        | some reply => exact forall_mem_concat hreplied (hfree s task reply hreply)
    | polls =>
        cases hqueue : s.queue with
        | nil =>
            simp only [step, hqueue]
            exact hreplied
        | cons first queue =>
            obtain ⟨id, task⟩ := first
            have hhas : s.Has id task := by rw [Has, hqueue, List.head?_cons]
            cases hdone : tasks.run s id task with
            | none =>
                simp only [step, hqueue, hdone]
                exact hreplied
            | some found =>
                obtain ⟨value, reply⟩ := found
                rw [step_polls hqueue hdone]
                exact forall_mem_concat hreplied
                  (hrun s id task value reply (hs.not_answered hhas) hdone)
    | goes id => exact hreplied
  exact hkeeps.2

end FairLock

end WsHyper.Lib
