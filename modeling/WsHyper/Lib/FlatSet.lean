import Mathlib.Data.List.Induction

/-!
# Sets that answer

Inserting an item answers whether it is new, and removing it whether it was
there.  An item is pending after a sequence of calls when the last call on it
was an insert.  `IsFlatSet` says of any machine what a single call does to the
items it holds; over whole sequences of calls the answers follow.
-/

namespace WsHyper.Lib

inductive SetCall (ι : Type*)
  | insert (item : ι)
  | remove (item : ι)
  deriving DecidableEq

namespace SetCall

variable {ι : Type*}

def item : SetCall ι → ι
  | insert item => item
  | remove item => item

def Pending (calls : List (SetCall ι)) (item : ι) : Prop :=
  ∃ before after, calls = before ++ .insert item :: after ∧ ∀ call ∈ after, call.item ≠ item

@[simp] theorem not_pending_nil (item : ι) : ¬Pending [] item := by
  rintro ⟨before, after, heq, -⟩
  simp at heq

theorem pending_concat_iff (calls : List (SetCall ι)) (call : SetCall ι) (item : ι) :
    Pending (calls ++ [call]) item ↔
      call = .insert item ∨ call.item ≠ item ∧ Pending calls item := by
  constructor
  · rintro ⟨before, after, heq, hafter⟩
    cases after using List.reverseRecOn with
    | nil =>
        obtain ⟨-, hcall⟩ := List.append_inj' heq rfl
        exact .inl (List.head_eq_of_cons_eq hcall)
    | append_singleton after last =>
        have hsplit : calls ++ [call] = (before ++ .insert item :: after) ++ [last] := by
          simpa using heq
        obtain ⟨rfl, hlast⟩ := List.append_inj' hsplit rfl
        obtain rfl := List.head_eq_of_cons_eq hlast
        refine .inr ⟨hafter call (by simp), before, after, rfl, fun c hc => ?_⟩
        exact hafter c (by simp [hc])
  · rintro (rfl | ⟨hne, before, after, rfl, hafter⟩)
    · exact ⟨calls, [], rfl, by simp⟩
    · refine ⟨before, after ++ [call], by simp, fun c hc => ?_⟩
      rcases List.mem_append.1 hc with hc | hc
      · exact hafter c hc
      · rwa [List.mem_singleton.1 hc]

theorem pending_append_cons_iff (before after : List (SetCall ι)) {call : SetCall ι} {item : ι}
    (hne : call.item ≠ item) :
    Pending (before ++ call :: after) item ↔ Pending (before ++ after) item := by
  induction after using List.reverseRecOn with
  | nil =>
      rw [pending_concat_iff, List.append_nil]
      constructor
      · rintro (rfl | ⟨-, hpending⟩)
        · exact absurd rfl hne
        · exact hpending
      · exact fun hpending => .inr ⟨hne, hpending⟩
  | append_singleton after last ih =>
      have hleft : before ++ call :: (after ++ [last]) = (before ++ call :: after) ++ [last] := by
        simp
      rw [hleft, ← List.append_assoc, pending_concat_iff, pending_concat_iff, ih]

end SetCall

open SetCall (Pending)

variable {ι σ : Type*}

/-- What a single call answers and what is held after it. -/
structure IsFlatSet (call : SetCall ι → σ → Bool × σ) (Holds : σ → ι → Prop) : Prop where
  insert_fst : ∀ s item, (call (.insert item) s).1 = true ↔ ¬Holds s item
  remove_fst : ∀ s item, (call (.remove item) s).1 = true ↔ Holds s item
  holds_insert : ∀ s item other,
    Holds (call (.insert item) s).2 other ↔ other = item ∨ Holds s other
  holds_remove : ∀ s item other,
    Holds (call (.remove item) s).2 other ↔ other ≠ item ∧ Holds s other

def afterCalls (call : SetCall ι → σ → Bool × σ) (s : σ) (calls : List (SetCall ι)) : σ :=
  calls.foldl (fun s c => (call c s).2) s

@[simp] theorem afterCalls_concat (call : SetCall ι → σ → Bool × σ) (s : σ)
    (calls : List (SetCall ι)) (c : SetCall ι) :
    afterCalls call s (calls ++ [c]) = (call c (afterCalls call s calls)).2 := by
  simp [afterCalls]

namespace IsFlatSet

variable {call : SetCall ι → σ → Bool × σ} {Holds : σ → ι → Prop}

theorem holds_call_iff (hset : IsFlatSet call Holds) (s : σ) (c : SetCall ι) (item : ι) :
    Holds (call c s).2 item ↔ c = .insert item ∨ c.item ≠ item ∧ Holds s item := by
  cases c with
  | insert other =>
      rw [hset.holds_insert, SetCall.insert.injEq]
      constructor
      · rintro (rfl | hholds)
        · exact .inl rfl
        · by_cases heq : other = item
          · exact .inl heq
          · exact .inr ⟨heq, hholds⟩
      · rintro (rfl | ⟨-, hholds⟩)
        · exact .inl rfl
        · exact .inr hholds
  | remove other =>
      rw [hset.holds_remove]
      constructor
      · exact fun ⟨hne, hholds⟩ => .inr ⟨Ne.symm hne, hholds⟩
      · rintro (heq | ⟨hne, hholds⟩)
        · cases heq
        · exact ⟨Ne.symm hne, hholds⟩

/-- Started empty, the machine holds the items whose last call was an insert. -/
theorem holds_afterCalls_iff (hset : IsFlatSet call Holds) {s : σ}
    (hempty : ∀ item, ¬Holds s item) (calls : List (SetCall ι)) (item : ι) :
    Holds (afterCalls call s calls) item ↔ Pending calls item := by
  induction calls using List.reverseRecOn with
  | nil => simp [afterCalls, hempty item]
  | append_singleton calls c ih =>
      rw [afterCalls_concat, hset.holds_call_iff, SetCall.pending_concat_iff, ih]

theorem remove_afterCalls_fst_iff (hset : IsFlatSet call Holds) {s : σ}
    (hempty : ∀ item, ¬Holds s item) (calls : List (SetCall ι)) (item : ι) :
    (call (.remove item) (afterCalls call s calls)).1 = true ↔ Pending calls item := by
  rw [hset.remove_fst, hset.holds_afterCalls_iff hempty]

theorem insert_afterCalls_fst_iff (hset : IsFlatSet call Holds) {s : σ}
    (hempty : ∀ item, ¬Holds s item) (calls : List (SetCall ι)) (item : ι) :
    (call (.insert item) (afterCalls call s calls)).1 = true ↔ ¬Pending calls item := by
  rw [hset.insert_fst, hset.holds_afterCalls_iff hempty]

end IsFlatSet

end WsHyper.Lib
