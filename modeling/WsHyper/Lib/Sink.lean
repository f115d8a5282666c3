import Mathlib.Data.List.Infix

/-!
# Polled calls and append-only sinks

A call that is polled is answered by its environment: not yet, done, done in part,
or failed.  A list of answers is what the environment does from now on, and a call
for which there is no answer is pending.  Sinks are handles, named by their position;
each keeps what it has received and how much of it the last flush has seen.  Several
may lead to one place, which is emptied whenever a sink is opened on it.
-/

namespace WsHyper.Lib

inductive Poll (α : Type*)
  | ready (value : α)
  | pending

/-- How a polled call is answered; only a write can be done in part. -/
inductive Answer (ε : Type*)
  | pending
  | done
  | accepted (n : Nat)
  | failed (error : ε)

namespace Answer

def waits {ε : Type*} : Answer ε → Bool
  | .pending => true
  | _ => false

/-- The next answer; when there is none left, the call is pending. -/
def next {ε : Type*} : List (Answer ε) → Answer ε × List (Answer ε)
  | [] => (.pending, [])
  | answer :: answers => (answer, answers)

end Answer

/-- An open handle: the label it was opened under, and what was written through it. -/
structure Sink (ι α : Type*) where
  label : ι
  received : List α
  /-- How much of it had been received at the last flush. -/
  flushed : Nat

abbrev Sinks (ι α : Type*) := List (Sink ι α)

namespace Sinks

variable {ι α ε : Type*}

/-- A sink is opened; its position is the number of sinks before. -/
def create (sinks : Sinks ι α) (label : ι) : Sinks ι α :=
  sinks ++ [{ label, received := [], flushed := 0 }]

def receive (sinks : Sinks ι α) (i : Nat) (items : List α) : Sinks ι α :=
  sinks.modify i fun sink => { sink with received := sink.received ++ items }

def flush (sinks : Sinks ι α) (i : Nat) : Sinks ι α :=
  sinks.modify i fun sink => { sink with flushed := sink.received.length }

/-- A write takes a prefix of what it is given. -/
def pollWrite (sinks : Sinks ι α) (i : Nat) (items : List α) :
    Answer ε → Poll (Except ε Nat) × Sinks ι α
  | .pending => (.pending, sinks)
  | .done => (.ready (.ok items.length), sinks.receive i items)
  | .accepted n => (.ready (.ok (min n items.length)), sinks.receive i (items.take n))
  | .failed e => (.ready (.error e), sinks)

def pollFlush (sinks : Sinks ι α) (i : Nat) : Answer ε → Poll (Except ε Unit) × Sinks ι α
  | .pending => (.pending, sinks)
  | .done | .accepted _ => (.ready (.ok ()), sinks.flush i)
  | .failed e => (.ready (.error e), sinks)

variable {sinks : Sinks ι α} {i : Nat} {items items' : List α}

@[simp] theorem length_create (label : ι) : (sinks.create label).length = sinks.length + 1 := by
  simp [create]

@[simp] theorem length_receive : (sinks.receive i items).length = sinks.length := by
  simp [receive]

@[simp] theorem length_flush : (sinks.flush i).length = sinks.length := by
  simp [flush]

@[simp] theorem receive_nil : sinks.receive i [] = sinks := by
  simp only [receive, List.append_nil]
  exact List.modify_id i sinks

theorem receive_receive :
    (sinks.receive i items).receive i items' = sinks.receive i (items ++ items') := by
  rw [receive, receive, receive, List.modify_modify_eq]
  congr 1
  funext sink
  simp

theorem getElem?_receive_self {sink : Sink ι α} (hsink : sinks[i]? = some sink) :
    (sinks.receive i items)[i]? = some { sink with received := sink.received ++ items } := by
  simp [receive, hsink]

theorem getElem?_receive_of_ne {j : Nat} (hne : i ≠ j) :
    (sinks.receive i items)[j]? = sinks[j]? := by
  simp [receive, hne]

theorem getElem?_flush_self {sink : Sink ι α} (hsink : sinks[i]? = some sink) :
    (sinks.flush i)[i]? = some { sink with flushed := sink.received.length } := by
  simp [flush, hsink]

theorem getElem?_flush_of_ne {j : Nat} (hne : i ≠ j) : (sinks.flush i)[j]? = sinks[j]? := by
  simp [flush, hne]

theorem getElem?_create_self (label : ι) :
    (sinks.create label)[sinks.length]? = some { label, received := [], flushed := 0 } := by
  simp [create]

theorem getElem?_create_of_lt {label : ι} {j : Nat} (hlt : j < sinks.length) :
    (sinks.create label)[j]? = sinks[j]? := by
  rw [create, List.getElem?_append_left hlt]

/-! ### What is found where the sinks lead to -/

section Places

variable {κ : Type*} [DecidableEq κ] (leads : ι → κ)

/-- The sink that was opened last on a place.  The place has what this one has received, as
long as no sink before it is written to again. -/
def lastAt (sinks : Sinks ι α) (place : κ) : Option (Sink ι α) :=
  sinks.reverse.find? fun sink => leads sink.label = place

/-- The sinks, each with what is found where it leads to. -/
def inPlace (sinks : Sinks ι α) : Sinks ι α :=
  sinks.map fun sink =>
    match sinks.lastAt leads (leads sink.label) with
    | some last => { last with label := sink.label }
    | none => sink

theorem lastAt_concat (sink : Sink ι α) (place : κ) :
    Sinks.lastAt leads (sinks ++ [sink]) place =
      if leads sink.label = place then some sink else sinks.lastAt leads place := by
  rw [lastAt, List.reverse_append, List.reverse_singleton, List.singleton_append,
    List.find?_cons]
  split_ifs with hplace
  · rw [decide_eq_true hplace]
  · rw [decide_eq_false hplace, lastAt]

theorem lastAt_create_self (sinks : Sinks ι α) (label : ι) :
    (sinks.create label).lastAt leads (leads label) =
      some { label, received := [], flushed := 0 } := by
  rw [create, lastAt_concat, if_pos rfl]

/-- Where a sink leads to, it or a later one was opened last. -/
theorem exists_lastAt {sink : Sink ι α} (hsink : sinks[i]? = some sink) :
    ∃ j last, i ≤ j ∧ sinks[j]? = some last ∧ leads last.label = leads sink.label ∧
      sinks.lastAt leads (leads sink.label) = some last := by
  induction sinks using List.reverseRecOn with
  | nil => simp at hsink
  | append_singleton sinks newest ih =>
      simp only [lastAt_concat]
      have hlt := (List.getElem?_eq_some_iff.1 hsink).1
      rw [List.length_append, List.length_singleton] at hlt
      split_ifs with hplace
      · exact ⟨sinks.length, newest, by omega, by simp, hplace, rfl⟩
      · have hold : i < sinks.length := by
          by_contra hnot
          obtain rfl : i = sinks.length := by omega
          rw [List.getElem?_concat_length, Option.some.injEq] at hsink
          exact hplace (congrArg (leads ∘ Sink.label) hsink)
        rw [List.getElem?_append_left hold] at hsink
        obtain ⟨j, last, hle, hlast, hsame, hfound⟩ := ih hsink
        have hj := (List.getElem?_eq_some_iff.1 hlast).1
        exact ⟨j, last, hle, by rw [List.getElem?_append_left hj, hlast], hsame, hfound⟩

theorem getElem?_inPlace {sink last : Sink ι α} (hsink : sinks[i]? = some sink)
    (hlast : sinks.lastAt leads (leads sink.label) = some last) :
    (sinks.inPlace leads)[i]? = some { last with label := sink.label } := by
  rw [inPlace, List.getElem?_map, hsink, Option.map_some, hlast]

/-- Where later sinks on one place leave what the earlier ones did, all of it is found. -/
theorem inPlace_eq_self (hagree : sinks.Pairwise fun sink later =>
    leads sink.label = leads later.label →
      later.received = sink.received ∧ later.flushed = sink.flushed) :
    sinks.inPlace leads = sinks := by
  rw [List.pairwise_iff_getElem] at hagree
  refine List.ext_getElem? fun i => ?_
  cases hsink : sinks[i]? with
  | none => rw [inPlace, List.getElem?_map, hsink, Option.map_none]
  | some sink =>
      obtain ⟨j, last, hle, hlast, hsame, hfound⟩ := exists_lastAt leads hsink
      obtain ⟨hi, rfl⟩ := List.getElem?_eq_some_iff.1 hsink
      obtain ⟨hj, rfl⟩ := List.getElem?_eq_some_iff.1 hlast
      rw [getElem?_inPlace leads hsink hfound, Option.some.injEq]
      rcases hle.eq_or_lt with rfl | hlt
      · rfl
      · obtain ⟨hreceived, hflushed⟩ := hagree i j hi hj hlt hsame.symm
        rw [hreceived, hflushed]

theorem exists_of_getElem?_inPlace {sink : Sink ι α}
    (hsink : (sinks.inPlace leads)[i]? = some sink) :
    ∃ handle, sinks[i]? = some handle ∧ handle.label = sink.label := by
  rw [inPlace, List.getElem?_map, Option.map_eq_some_iff] at hsink
  obtain ⟨handle, hhandle, hsink⟩ := hsink
  refine ⟨handle, hhandle, ?_⟩
  rw [← hsink]
  split <;> rfl

end Places

theorem pollWrite_cases (sinks : Sinks ι α) (i : Nat) (items : List α) (answer : Answer ε) :
    sinks.pollWrite i items answer = (.pending, sinks) ∨
      (∃ e, sinks.pollWrite i items answer = (.ready (.error e), sinks)) ∨
      ∃ n ≤ items.length, sinks.pollWrite i items answer =
        (.ready (.ok n), sinks.receive i (items.take n)) := by
  cases answer with
  | pending => exact .inl rfl
  | failed e => exact .inr (.inl ⟨e, rfl⟩)
  | done => exact .inr (.inr ⟨items.length, le_rfl, by rw [pollWrite, List.take_length]⟩)
  | accepted n =>
      refine .inr (.inr ⟨min n items.length, Nat.min_le_right _ _, ?_⟩)
      rw [pollWrite, List.take_eq_take_min]

theorem pollFlush_cases (sinks : Sinks ι α) (i : Nat) (answer : Answer ε) :
    sinks.pollFlush i answer = (.pending, sinks) ∨
      (∃ e, sinks.pollFlush i answer = (.ready (.error e), sinks)) ∨
      sinks.pollFlush i answer = (.ready (.ok ()), sinks.flush i) := by
  cases answer with
  | pending => exact .inl rfl
  | failed e => exact .inr (.inl ⟨e, rfl⟩)
  | done => exact .inr (.inr rfl)
  | accepted n => exact .inr (.inr rfl)

end Sinks

end WsHyper.Lib
