import WsHyper.Lib.Run

/-!
# A client and its server

A client works off inputs.  It sends commands to a server, which takes them from a
queue in its own time, and sometimes it asks the server a question and waits for the
answer.  Since the question stands in the same queue, the answer is about all that was
commanded before: whatever the two do side by side, it is as if the server had done
every command at once (`linearised_of_run`).
-/

namespace WsHyper.Lib

/-- How a client of states `κ` handles inputs `ι`, with commands `γ` and questions `ρ`
for a server of states `σ` that answers `α`. -/
structure Served (κ σ ι γ ρ α : Type*) where
  /-- The question that the client asks before it handles an input. -/
  asks : ι → Option ρ
  handle : κ → ι → Option α → κ → List γ → Prop
  apply : σ → γ → σ → Prop
  answer : σ → ρ → α → Prop

namespace Served

variable {κ σ ι γ ρ α : Type*}

inductive Waiting (ι ρ α : Type*)
  | idle
  | asked (input : ι) (question : ρ)
  | answered (input : ι) (question : ρ) (answer : α)

inductive Message (γ ρ : Type*)
  | command (command : γ)
  | question (question : ρ)

def Message.command? : Message γ ρ → Option γ
  | .command c => some c
  | .question _ => none

structure State (κ σ ι γ ρ α : Type*) where
  client : κ
  waiting : Waiting ι ρ α
  queue : List (Message γ ρ)
  server : σ
  /-- The inputs that the client is done with, the oldest first. -/
  handled : List ι

inductive Label (ι : Type*)
  | take (input : ι)
  | ask (input : ι)
  | serve
  | resume

variable (served : Served κ σ ι γ ρ α)

inductive Step : State κ σ ι γ ρ α → Label ι → State κ σ ι γ ρ α → Prop
  | take {client client' : κ} {queue : List (Message γ ρ)} {server : σ} {handled : List ι}
      {input : ι} {commands : List γ} (hasks : served.asks input = none)
      (hhandle : served.handle client input none client' commands) :
      Step ⟨client, .idle, queue, server, handled⟩ (.take input)
        ⟨client', .idle, queue ++ commands.map .command, server, handled ++ [input]⟩
  | ask {client : κ} {queue : List (Message γ ρ)} {server : σ} {handled : List ι}
      {input : ι} {question : ρ} (hasks : served.asks input = some question) :
      Step ⟨client, .idle, queue, server, handled⟩ (.ask input)
        ⟨client, .asked input question, queue ++ [.question question], server, handled⟩
  | apply {client : κ} {waiting : Waiting ι ρ α} {queue : List (Message γ ρ)}
      {server server' : σ} {handled : List ι} {command : γ}
      (happly : served.apply server command server') :
      Step ⟨client, waiting, .command command :: queue, server, handled⟩ .serve
        ⟨client, waiting, queue, server', handled⟩
  | answer {client : κ} {queue : List (Message γ ρ)} {server : σ} {handled : List ι}
      {input : ι} {question : ρ} {answer : α}
      (hanswer : served.answer server question answer) :
      Step ⟨client, .asked input question, .question question :: queue, server, handled⟩ .serve
        ⟨client, .answered input question answer, queue, server, handled⟩
  | resume {client client' : κ} {queue : List (Message γ ρ)} {server : σ} {handled : List ι}
      {input : ι} {question : ρ} {answer : α} {commands : List γ}
      (hhandle : served.handle client input (some answer) client' commands) :
      Step ⟨client, .answered input question answer, queue, server, handled⟩ .resume
        ⟨client', .idle, queue ++ commands.map .command, server, handled ++ [input]⟩

def start (client : κ) (server : σ) : State κ σ ι γ ρ α :=
  { client, waiting := .idle, queue := [], server, handled := [] }

inductive AtOnce : κ × σ → ι → κ × σ → Prop
  | plain {client client' : κ} {server server' : σ} {input : ι} {commands : List γ}
      (hasks : served.asks input = none)
      (hhandle : served.handle client input none client' commands)
      (happly : Run served.apply server commands server') :
      AtOnce (client, server) input (client', server')
  | asking {client client' : κ} {server server' : σ} {input : ι} {question : ρ} {answer : α}
      {commands : List γ} (hasks : served.asks input = some question)
      (hanswer : served.answer server question answer)
      (hhandle : served.handle client input (some answer) client' commands)
      (happly : Run served.apply server commands server') :
      AtOnce (client, server) input (client', server')

def State.pending (s : State κ σ ι γ ρ α) : List γ := s.queue.filterMap Message.command?

/-- A question is the last in the queue, and nothing is behind an answer. -/
def Settled (s : State κ σ ι γ ρ α) : Prop :=
  match s.waiting with
  | .idle => ∃ commands : List γ, s.queue = commands.map .command
  | .asked input question => served.asks input = some question ∧
      ∃ commands : List γ, s.queue = commands.map .command ++ [.question question]
  | .answered input question answer => served.asks input = some question ∧ s.queue = [] ∧
      served.answer s.server question answer

/-- Once the server has done what is in the queue, it is where it would be if every input
had been handled in one go. -/
def Linearised (client : κ) (server : σ) (s : State κ σ ι γ ρ α) : Prop :=
  ∀ server', Run served.apply s.server s.pending server' →
    Run served.AtOnce (client, server) s.handled (s.client, server')

@[simp] theorem filterMap_command (commands : List γ) :
    (commands.map (Message.command (ρ := ρ))).filterMap Message.command? = commands := by
  rw [List.filterMap_map]
  exact List.filterMap_some

section Steps

variable {served} {client₀ : κ} {server₀ : σ}

theorem settled_of_step (s : State κ σ ι γ ρ α) (label : Label ι) (s' : State κ σ ι γ ρ α)
    (hsettled : served.Settled s) (hstep : served.Step s label s') : served.Settled s' := by
  cases hstep with
  | @take client _ queue _ _ input commands hasks hhandle =>
      obtain ⟨before, rfl⟩ := hsettled
      exact ⟨before ++ commands, List.map_append.symm⟩
  | ask hasks =>
      obtain ⟨before, rfl⟩ := hsettled
      exact ⟨hasks, before, rfl⟩
  | @apply _ waiting queue server _ _ command happly =>
      cases waiting with
      | idle =>
          obtain ⟨commands, hqueue⟩ := hsettled
          cases commands with
          | nil => cases hqueue
          | cons c rest => exact ⟨rest, (List.cons.inj hqueue).2⟩
      | asked input question =>
          obtain ⟨hasks, commands, hqueue⟩ := hsettled
          cases commands with
          | nil => cases hqueue
          | cons c rest => exact ⟨hasks, rest, (List.cons.inj hqueue).2⟩
      | answered input question answer =>
          obtain ⟨-, hqueue, -⟩ := hsettled
          cases hqueue
  | @answer _ queue _ _ input question _ hanswer =>
      obtain ⟨hasks, commands, hqueue⟩ := hsettled
      cases commands with
      | nil => exact ⟨hasks, (List.cons.inj hqueue).2, hanswer⟩
      | cons c rest => cases (List.cons.inj hqueue).1
  | @resume _ _ queue _ _ _ _ _ commands hhandle =>
      obtain ⟨-, rfl, -⟩ := hsettled
      exact ⟨commands, rfl⟩

/-- What the server does later is what it would have done at once. -/
theorem linearised_of_step (s : State κ σ ι γ ρ α) (label : Label ι) (s' : State κ σ ι γ ρ α)
    (hsettled : served.Settled s) (hlinear : served.Linearised client₀ server₀ s)
    (hstep : served.Step s label s') : served.Linearised client₀ server₀ s' := by
  intro server' hrest
  cases hstep with
  | @take _ _ queue _ _ _ commands hasks hhandle =>
      rw [State.pending, List.filterMap_append, filterMap_command] at hrest
      obtain ⟨server'', hbefore, hafter⟩ := run_append_iff.1 hrest
      exact (hlinear server'' hbefore).concat (.plain hasks hhandle hafter)
  | @ask _ queue _ _ _ question hasks =>
      have hquestion : (queue ++ [Message.question question]).filterMap Message.command? =
          queue.filterMap Message.command? := by
        rw [List.filterMap_append]
        exact List.append_nil _
      rw [State.pending, hquestion] at hrest
      exact hlinear server' hrest
  | apply happly => exact hlinear server' (.cons happly hrest)
  | answer hanswer => exact hlinear server' hrest
  | @resume _ _ queue _ _ _ _ _ commands hhandle =>
      obtain ⟨hasks, rfl, hanswer⟩ := hsettled
      rw [State.pending, List.nil_append, filterMap_command] at hrest
      exact (hlinear _ (.nil _)).concat (.asking hasks hanswer hhandle hrest)

theorem settled_of_run {labels : List (Label ι)} {s : State κ σ ι γ ρ α}
    (hrun : Run served.Step (start client₀ server₀) labels s) : served.Settled s := by
  have hstart : served.Settled (start client₀ server₀) := ⟨[], rfl⟩
  exact run_keeps settled_of_step hstart hrun

/-- In every run, the commands that are still in the queue lead to where the inputs lead
that are handled one after the other, each in one go. -/
theorem linearised_of_run {labels : List (Label ι)} {s : State κ σ ι γ ρ α}
    (hrun : Run served.Step (start client₀ server₀) labels s) :
    served.Linearised client₀ server₀ s := by
  have hsteps : ∀ s label s', served.Settled s ∧ served.Linearised client₀ server₀ s →
      served.Step s label s' → served.Settled s' ∧ served.Linearised client₀ server₀ s' :=
    fun s label s' ⟨hsettled, hlinear⟩ hstep =>
      ⟨settled_of_step s label s' hsettled hstep,
        linearised_of_step s label s' hsettled hlinear hstep⟩
  refine (run_keeps hsteps ⟨settled_of_run (.nil _), ?_⟩ hrun).2
  intro server' hrest
  obtain rfl := run_nil_iff.1 hrest
  exact .nil _

end Steps

end Served

end WsHyper.Lib
