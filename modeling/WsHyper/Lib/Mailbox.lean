import Mathlib.Data.List.Basic
import Mathlib.Data.List.Infix

/-!
# Bounded mailboxes

A first-in first-out channel of `capacity` places.  A full mailbox takes nothing, so
who sends to it waits; an empty one gives nothing, so who receives from it waits.
-/

namespace WsHyper.Lib

/-- A channel with at most `capacity` items in it, the oldest first. -/
structure Mailbox (α : Type*) (capacity : Nat) where
  items : List α
  bounded : items.length ≤ capacity

namespace Mailbox

variable {α : Type*} {capacity : Nat} {mailbox mailbox' : Mailbox α capacity} {item : α}

def empty : Mailbox α capacity := ⟨[], Nat.zero_le capacity⟩

def Full (mailbox : Mailbox α capacity) : Prop := mailbox.items.length = capacity

instance (mailbox : Mailbox α capacity) : Decidable mailbox.Full :=
  inferInstanceAs (Decidable (mailbox.items.length = capacity))

def send (mailbox : Mailbox α capacity) (item : α) : Option (Mailbox α capacity) :=
  if hroom : mailbox.items.length < capacity then
    some ⟨mailbox.items ++ [item], by simpa using Nat.succ_le_of_lt hroom⟩
  else
    none

def recv (mailbox : Mailbox α capacity) : Option (α × Mailbox α capacity) :=
  match mailbox with
  | ⟨[], _⟩ => none
  | ⟨item :: items, bounded⟩ => some (item, ⟨items, Nat.le_of_succ_le bounded⟩)

@[ext] theorem ext (hitems : mailbox.items = mailbox'.items) : mailbox = mailbox' := by
  cases mailbox
  cases mailbox'
  simpa using hitems

@[simp] theorem items_empty : (empty : Mailbox α capacity).items = [] := rfl

theorem not_full_iff : ¬mailbox.Full ↔ mailbox.items.length < capacity := by
  have hbounded := mailbox.bounded
  unfold Full
  omega

theorem send_eq_some_iff :
    mailbox.send item = some mailbox' ↔
      ¬mailbox.Full ∧ mailbox'.items = mailbox.items ++ [item] := by
  rw [not_full_iff, send]
  constructor
  · intro hsend
    split_ifs at hsend with hroom
    obtain rfl := Option.some.inj hsend
    exact ⟨hroom, rfl⟩
  · rintro ⟨hroom, hitems⟩
    rw [dif_pos hroom, Option.some.injEq]
    exact ext hitems.symm

theorem recv_eq_some_iff :
    mailbox.recv = some (item, mailbox') ↔ mailbox.items = item :: mailbox'.items := by
  obtain ⟨items, bounded⟩ := mailbox
  cases items with
  | nil => simp [recv]
  | cons first items =>
      simp only [recv, Option.some.injEq, Prod.mk.injEq, List.cons.injEq]
      exact and_congr_right fun _ => ⟨fun h => by rw [← h], fun h => ext h⟩

theorem exists_send (hroom : ¬mailbox.Full) (item : α) :
    ∃ mailbox', mailbox.send item = some mailbox' ∧
      mailbox'.items = mailbox.items ++ [item] :=
  ⟨⟨mailbox.items ++ [item], by simpa using Nat.succ_le_of_lt (not_full_iff.1 hroom)⟩,
    send_eq_some_iff.2 ⟨hroom, rfl⟩, rfl⟩

theorem send_of_full (hfull : mailbox.Full) (item : α) : mailbox.send item = none := by
  rw [send, dif_neg (by rw [hfull]; exact lt_irrefl _)]

theorem not_full_of_recv (hrecv : mailbox.recv = some (item, mailbox')) :
    ¬mailbox'.Full := by
  have hitems := recv_eq_some_iff.1 hrecv
  have hbounded := mailbox.bounded
  rw [hitems, List.length_cons] at hbounded
  exact not_full_iff.2 hbounded

theorem full_of_send_iff (hsend : mailbox.send item = some mailbox') :
    mailbox'.Full ↔ mailbox.items.length + 1 = capacity := by
  rw [Full, (send_eq_some_iff.1 hsend).2, List.length_append, List.length_singleton]

end Mailbox

end WsHyper.Lib
