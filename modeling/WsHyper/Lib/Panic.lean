import Mathlib.Data.List.Forall2

/-!
# Computations that may panic

A computation gives its result or the kind of panic it stops with.  The lemmas
take a bind apart into its two steps.
-/

namespace WsHyper.Lib

/-- How a computation stops without a result. -/
inductive Panic
  /-- `unwrap` of a `None`. -/
  | unwrapNone
  /-- `unwrap` of an `Err`. -/
  | unwrapErr
  /-- `unreachable!()`. -/
  | unreachable
  /-- `todo!()`. -/
  | todo
  /-- The depth a model was given did not suffice; no source panic. -/
  | outOfFuel
  /-- `await` of what is not there yet; no source panic. -/
  | pending
  deriving DecidableEq, Repr

/-- `Option::unwrap`. -/
def unwrap {α : Type*} : Option α → Except Panic α
  | some a => .ok a
  | none => .error .unwrapNone

@[simp] theorem unwrap_some {α : Type*} (a : α) : unwrap (some a) = .ok a := rfl

@[simp] theorem unwrap_none {α : Type*} :
    unwrap (none : Option α) = .error .unwrapNone := rfl

theorem unwrap_eq_ok_iff {α : Type*} {x : Option α} {a : α} :
    unwrap x = .ok a ↔ x = some a := by
  cases x <;> simp

/-- `Result::unwrap`, where the `Err` holds nothing that is read. -/
def unwrapResult {α : Type} : Option α → Except Panic α
  | some a => .ok a
  | none => .error .unwrapErr

@[simp] theorem unwrapResult_some {α : Type} (a : α) : unwrapResult (some a) = .ok a := rfl

@[simp] theorem unwrapResult_none {α : Type} :
    unwrapResult (none : Option α) = .error .unwrapErr := rfl

theorem unwrapResult_eq_ok_iff {α : Type} {x : Option α} {a : α} :
    unwrapResult x = .ok a ↔ x = some a := by
  cases x <;> simp

@[simp] theorem ok_bind {ε α β : Type} (a : α) (f : α → Except ε β) :
    (Except.ok a >>= f) = f a := rfl

@[simp] theorem error_bind {ε α β : Type} (e : ε) (f : α → Except ε β) :
    (Except.error e >>= f) = .error e := rfl

theorem bind_eq_ok {ε α β : Type} {x : Except ε α} {f : α → Except ε β} {b : β}
    (h : x >>= f = .ok b) : ∃ a, x = .ok a ∧ f a = .ok b := by
  cases x with
  | error e => cases h
  | ok a => exact ⟨a, rfl, h⟩

theorem mapM_eq_ok {ε α β : Type} {f : α → Except ε β} {as : List α} {bs : List β}
    (h : as.mapM f = .ok bs) : List.Forall₂ (fun a b => f a = .ok b) as bs := by
  induction as generalizing bs with
  | nil =>
      obtain rfl := Except.ok.inj h
      exact .nil
  | cons a as ih =>
      rw [List.mapM_cons] at h
      obtain ⟨b, hb, h⟩ := bind_eq_ok h
      obtain ⟨bs', hbs, h⟩ := bind_eq_ok h
      obtain rfl := Except.ok.inj h
      exact .cons hb (ih hbs)

theorem mapM_ok {ε α β : Type} {f : α → Except ε β} {as : List α} {bs : List β}
    (h : List.Forall₂ (fun a b => f a = .ok b) as bs) : as.mapM f = .ok bs := by
  induction h with
  | nil => rfl
  | cons hb _ ih =>
      rw [List.mapM_cons, hb, ih]
      rfl

theorem exists_of_mapM_eq_ok {ε α β : Type} {f : α → Except ε β} {as : List α} {bs : List β}
    (h : as.mapM f = .ok bs) {a : α} (hmem : a ∈ as) : ∃ b, f a = .ok b := by
  induction mapM_eq_ok h with
  | nil => cases hmem
  | cons hb hrest ih =>
      rcases List.mem_cons.1 hmem with rfl | hmem
      · exact ⟨_, hb⟩
      · exact ih (mapM_ok hrest) hmem

/-- What every round of a loop keeps holds of its result. -/
theorem foldlM_keeps {ε α β : Type} {f : β → α → Except ε β} {I : β → Prop}
    (hround : ∀ b a b', I b → f b a = .ok b' → I b') {as : List α} {b b' : β} (hb : I b)
    (hloop : as.foldlM f b = .ok b') : I b' := by
  induction as generalizing b with
  | nil =>
      obtain rfl := Except.ok.inj hloop
      exact hb
  | cons a as ih =>
      rw [List.foldlM_cons] at hloop
      obtain ⟨b₁, hfirst, hrest⟩ := bind_eq_ok hloop
      exact ih (hround b a b₁ hb hfirst) hrest

/-- A result is reached. -/
def Completes {ε α : Type*} (x : Except ε α) : Prop := ∃ a, x = .ok a

@[simp] theorem completes_ok {ε α : Type*} (a : α) : Completes (.ok a : Except ε α) :=
  ⟨a, rfl⟩

@[simp] theorem not_completes_error {ε α : Type*} (e : ε) :
    ¬Completes (.error e : Except ε α) := by
  rintro ⟨a, ha⟩
  cases ha

theorem completes_bind {ε α β : Type} {x : Except ε α} {f : α → Except ε β} :
    Completes (x >>= f) ↔ ∃ a, x = .ok a ∧ Completes (f a) := by
  constructor
  · rintro ⟨b, hb⟩
    obtain ⟨a, ha, hfa⟩ := bind_eq_ok hb
    exact ⟨a, ha, b, hfa⟩
  · rintro ⟨a, rfl, hfa⟩
    exact hfa

theorem completes_bind_ok {ε α β : Type} {x : Except ε α} {f : α → β} :
    Completes (x >>= fun a => .ok (f a)) ↔ Completes x := by
  rw [completes_bind]
  constructor
  · rintro ⟨a, ha, -⟩
    exact ⟨a, ha⟩
  · rintro ⟨a, ha⟩
    exact ⟨a, ha, completes_ok _⟩

theorem completes_mapM {ε α β : Type} {f : α → Except ε β} {as : List α} :
    Completes (as.mapM f) ↔ ∀ a ∈ as, Completes (f a) := by
  induction as with
  | nil => simp [pure, Except.pure]
  | cons a as ih =>
      rw [List.mapM_cons, completes_bind, List.forall_mem_cons]
      constructor
      · rintro ⟨b, hb, hrest⟩
        obtain ⟨bs, hbs, -⟩ := completes_bind.1 hrest
        exact ⟨⟨b, hb⟩, ih.1 ⟨bs, hbs⟩⟩
      · rintro ⟨⟨b, hb⟩, hrest⟩
        obtain ⟨bs, hbs⟩ := ih.2 hrest
        exact ⟨b, hb, completes_bind.2 ⟨bs, hbs, completes_ok _⟩⟩

/-- A loop whose rounds fail without regard to the state fails on its own elements. -/
theorem foldlM_bind_ok {ε α β γ : Type} (f : α → Except ε γ) (g : β → γ → β) (b : β)
    (as : List α) :
    as.foldlM (fun b a => f a >>= fun c => .ok (g b c)) b =
      as.mapM f >>= fun cs => .ok (cs.foldl g b) := by
  induction as generalizing b with
  | nil => rfl
  | cons a as ih =>
      rw [List.foldlM_cons, List.mapM_cons]
      cases f a with
      | error e => rfl
      | ok c =>
          rw [ok_bind, ok_bind, ok_bind, ih]
          cases as.mapM f <;> rfl

end WsHyper.Lib
