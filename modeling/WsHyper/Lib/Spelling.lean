import Mathlib.Data.List.Basic

/-!
# Mailboxes that spell something out

A mailbox holds messages that stand for something, one after the other, and others between
them that stand for nothing.
-/

namespace WsHyper.Lib

variable {μ τ : Type*} {Quiet : μ → Prop} {Means : μ → τ → Prop}

/-- The messages mean the words in order, and are quiet between them. -/
inductive Spells (Quiet : μ → Prop) (Means : μ → τ → Prop) : List μ → List τ → Prop
  | nil : Spells Quiet Means [] []
  | quiet {message : μ} {messages : List μ} {words : List τ} (hquiet : Quiet message)
      (hrest : Spells Quiet Means messages words) : Spells Quiet Means (message :: messages) words
  | word {message : μ} {messages : List μ} {word : τ} {words : List τ}
      (hmeans : Means message word) (hrest : Spells Quiet Means messages words) :
      Spells Quiet Means (message :: messages) (word :: words)

namespace Spells

variable {message : μ} {messages messages' : List μ} {word : τ} {words words' : List τ}

theorem nil_iff : Spells Quiet Means [] words ↔ words = [] := by
  constructor
  · rintro ⟨⟩
    rfl
  · rintro rfl
    exact .nil

theorem of_cons_of_not_means (hspells : Spells Quiet Means (message :: messages) words)
    (hnot : ∀ word, ¬Means message word) :
    Quiet message ∧ Spells Quiet Means messages words := by
  cases hspells with
  | quiet hquiet hrest => exact ⟨hquiet, hrest⟩
  | word hmeans hrest => exact absurd hmeans (hnot _)

theorem of_cons_of_not_quiet (hspells : Spells Quiet Means (message :: messages) words)
    (hnot : ¬Quiet message) :
    ∃ word rest, words = word :: rest ∧ Means message word ∧
      Spells Quiet Means messages rest := by
  cases hspells with
  | quiet hquiet hrest => exact absurd hquiet hnot
  | word hmeans hrest => exact ⟨_, _, rfl, hmeans, hrest⟩

theorem append (hfront : Spells Quiet Means messages words)
    (hback : Spells Quiet Means messages' words') :
    Spells Quiet Means (messages ++ messages') (words ++ words') := by
  induction hfront with
  | nil => exact hback
  | quiet hquiet _ ih => exact .quiet hquiet ih
  | word hmeans _ ih => exact .word hmeans ih

theorem of_quiet (hquiet : ∀ message ∈ messages, Quiet message) :
    Spells Quiet Means messages [] := by
  induction messages with
  | nil => exact .nil
  | cons message messages ih =>
      obtain ⟨hfirst, hlater⟩ := List.forall_mem_cons.1 hquiet
      exact .quiet hfirst (ih hlater)

/-- Messages that are quiet at the end change nothing. -/
theorem append_quiet (hfront : Spells Quiet Means messages words)
    (hquiet : ∀ message ∈ messages', Quiet message) :
    Spells Quiet Means (messages ++ messages') words := by
  rw [← List.append_nil words]
  exact hfront.append (of_quiet hquiet)

theorem concat (hfront : Spells Quiet Means messages words) (hmeans : Means message word) :
    Spells Quiet Means (messages ++ [message]) (words ++ [word]) :=
  hfront.append (.word hmeans .nil)

end Spells

end WsHyper.Lib
