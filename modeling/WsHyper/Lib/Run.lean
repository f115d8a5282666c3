import Mathlib.Data.List.Basic
import Mathlib.Data.List.Infix

/-!
# Runs of a labelled step relation

`Run R s labels s'` takes one step for each label.  `EachStep` and `EachState`
say that something holds at every step that a run comes to, and in every state
it reaches; the rules reduce both to single steps.
-/

namespace WsHyper.Lib

variable {σ α : Type*}

/-- The states `s` and `s'` are connected by steps with the given labels. -/
inductive Run (R : σ → α → σ → Prop) : σ → List α → σ → Prop
  | nil (s : σ) : Run R s [] s
  | cons {s s' s'' : σ} {a : α} {labels : List α} (hstep : R s a s')
      (hrun : Run R s' labels s'') : Run R s (a :: labels) s''

/-- `P` holds of every label and the state in which the run comes to it. -/
def EachStep (R : σ → α → σ → Prop) (P : σ → α → Prop) (s : σ) (labels : List α) : Prop :=
  ∀ done a rest s', labels = done ++ a :: rest → Run R s done s' → P s' a

/-- `I` holds in every state that the run reaches. -/
def EachState (R : σ → α → σ → Prop) (I : σ → Prop) (s : σ) (labels : List α) : Prop :=
  ∀ done s', done <+: labels → Run R s done s' → I s'

variable {R : σ → α → σ → Prop} {P Q : σ → α → Prop} {I : σ → Prop} {s s' : σ} {a : α}
  {labels : List α}

@[simp] theorem run_nil_iff : Run R s [] s' ↔ s = s' := by
  constructor
  · rintro ⟨⟩
    rfl
  · rintro rfl
    exact .nil s

theorem run_cons_iff :
    Run R s (a :: labels) s' ↔ ∃ t, R s a t ∧ Run R t labels s' := by
  constructor
  · rintro (_ | ⟨hstep, hrun⟩)
    exact ⟨_, hstep, hrun⟩
  · rintro ⟨t, hstep, hrun⟩
    exact .cons hstep hrun

@[simp] theorem eachStep_nil : EachStep R P s [] := by
  intro done a rest s' hlabels
  simp at hlabels

theorem eachStep_cons :
    EachStep R P s (a :: labels) ↔ P s a ∧ ∀ t, R s a t → EachStep R P t labels := by
  constructor
  · intro h
    refine ⟨h [] a labels s rfl (.nil s), fun t hstep done b rest s' hlabels hrun => ?_⟩
    exact h (a :: done) b rest s' (by rw [hlabels, List.cons_append]) (.cons hstep hrun)
  · rintro ⟨hfirst, hlater⟩ done b rest s' hlabels hrun
    cases done with
    | nil =>
        obtain ⟨rfl, rfl⟩ := List.cons.inj hlabels
        rw [← run_nil_iff.1 hrun]
        exact hfirst
    | cons c done =>
        obtain ⟨rfl, rfl⟩ := List.cons.inj hlabels
        obtain ⟨t, hstep, hrun⟩ := run_cons_iff.1 hrun
        exact hlater t hstep done b rest s' rfl hrun

theorem eachState_nil : EachState R I s [] ↔ I s := by
  constructor
  · intro h
    exact h [] s List.prefix_rfl (.nil s)
  · intro h done s' hdone hrun
    rw [List.prefix_nil] at hdone
    subst hdone
    rwa [← run_nil_iff.1 hrun]

theorem eachState_cons :
    EachState R I s (a :: labels) ↔ I s ∧ ∀ t, R s a t → EachState R I t labels := by
  constructor
  · intro h
    refine ⟨h [] s List.nil_prefix (.nil s), fun t hstep done s' hdone hrun => ?_⟩
    exact h (a :: done) s' (List.cons_prefix_cons.2 ⟨rfl, hdone⟩) (.cons hstep hrun)
  · rintro ⟨hfirst, hlater⟩ done s' hdone hrun
    cases done with
    | nil =>
        rw [← run_nil_iff.1 hrun]
        exact hfirst
    | cons b done =>
        obtain ⟨rfl, hpre⟩ := List.cons_prefix_cons.1 hdone
        obtain ⟨t, hstep, hrun⟩ := run_cons_iff.1 hrun
        exact hlater t hstep done s' hpre hrun

theorem eachStep_cons_of_step (hdet : ∀ s a t u, R s a t → R s a u → t = u) {t : σ}
    (hstep : R s a t) : EachStep R P s (a :: labels) ↔ P s a ∧ EachStep R P t labels := by
  rw [eachStep_cons]
  constructor
  · exact fun ⟨ha, hlater⟩ => ⟨ha, hlater t hstep⟩
  · rintro ⟨ha, hlater⟩
    refine ⟨ha, fun u hu => ?_⟩
    rwa [hdet s a u t hu hstep]

theorem eachStep_congr (hiff : ∀ s a, P s a ↔ Q s a) :
    EachStep R P s labels ↔ EachStep R Q s labels := by
  have hPQ : P = Q := by
    funext s a
    exact propext (hiff s a)
  rw [hPQ]

theorem Run.concat {t : σ} (hrun : Run R s labels s') (hstep : R s' a t) :
    Run R s (labels ++ [a]) t := by
  induction hrun with
  | nil s => exact .cons hstep (.nil t)
  | cons hfirst _ ih => exact .cons hfirst (ih hstep)

theorem run_append_iff {labels' : List α} :
    Run R s (labels ++ labels') s' ↔ ∃ t, Run R s labels t ∧ Run R t labels' s' := by
  induction labels generalizing s with
  | nil => simp
  | cons a labels ih =>
      rw [List.cons_append, run_cons_iff]
      constructor
      · rintro ⟨u, hstep, hrest⟩
        obtain ⟨t, hrun, hrun'⟩ := ih.1 hrest
        exact ⟨t, .cons hstep hrun, hrun'⟩
      · rintro ⟨t, hrun, hrun'⟩
        obtain ⟨u, hstep, hrest⟩ := run_cons_iff.1 hrun
        exact ⟨u, hstep, ih.2 ⟨t, hrest, hrun'⟩⟩

theorem Run.mono {Q : σ → α → σ → Prop} (h : ∀ s a t, R s a t → Q s a t)
    (hrun : Run R s labels s') : Run Q s labels s' := by
  induction hrun with
  | nil s => exact .nil s
  | cons hstep _ ih => exact .cons (h _ _ _ hstep) ih

/-- Where, under an invariant, each step with a label in `L` makes `size` smaller, it bounds
the length of a run of such steps. -/
theorem length_le_of_run {size : σ → Nat} {L : α → Prop} (hkeeps : ∀ s a t, I s → R s a t → I t)
    (hless : ∀ s a t, I s → L a → R s a t → size t < size s) (hs : I s)
    (hlabels : ∀ a ∈ labels, L a) (hrun : Run R s labels s') :
    labels.length + size s' ≤ size s := by
  induction hrun with
  | nil s => simp
  | cons hstep _ ih =>
      have hlt := hless _ _ _ hs (hlabels _ List.mem_cons_self) hstep
      have hrest := ih (hkeeps _ _ _ hs hstep) fun a ha => hlabels a (List.mem_cons_of_mem _ ha)
      rw [List.length_cons]
      omega

theorem run_keeps (hstep : ∀ s a t, I s → R s a t → I t) (hs : I s)
    (hrun : Run R s labels s') : I s' := by
  induction hrun with
  | nil s => exact hs
  | cons h _ ih => exact ih (hstep _ _ _ hs h)

/-- Where a state alone decides its step, of two runs one goes on from the other. -/
theorem run_comparable (hdet : ∀ s a b t u, R s a t → R s b u → a = b ∧ t = u)
    {labels' : List α} {t : σ} (hrun : Run R s labels s') (hrun' : Run R s labels' t) :
    (∃ rest, labels' = labels ++ rest ∧ Run R s' rest t) ∨
      ∃ rest, labels = labels' ++ rest ∧ Run R t rest s' := by
  induction hrun generalizing labels' with
  | nil s => exact .inl ⟨labels', rfl, hrun'⟩
  | @cons s u s' a labels hstep hrest ih =>
      cases hrun' with
      | nil => exact .inr ⟨a :: labels, rfl, .cons hstep hrest⟩
      | @cons _ u' _ b labels' hstep' hrest' =>
          obtain ⟨rfl, rfl⟩ := hdet s a b u u' hstep hstep'
          rcases ih hrest' with ⟨rest, rfl, hlater⟩ | ⟨rest, rfl, hlater⟩
          · exact .inl ⟨rest, rfl, hlater⟩
          · exact .inr ⟨rest, rfl, hlater⟩

/-- Under an invariant, what is equivalent for a step is equivalent along a run. -/
theorem eachStep_congr_of_keeps (hstep : ∀ s a t, I s → R s a t → I t) (hs : I s)
    (hiff : ∀ s a, I s → (P s a ↔ Q s a)) :
    EachStep R P s labels ↔ EachStep R Q s labels := by
  constructor
  · intro h done a rest t hlabels hrun
    exact (hiff t a (run_keeps hstep hs hrun)).1 (h done a rest t hlabels hrun)
  · intro h done a rest t hlabels hrun
    exact (hiff t a (run_keeps hstep hs hrun)).2 (h done a rest t hlabels hrun)

theorem eachStep_of_forall_mem (h : ∀ a ∈ labels, ∀ s, P s a) : EachStep R P s labels := by
  intro done a rest t hlabels _
  exact h a (by simp [hlabels]) t

theorem eachStep_and :
    EachStep R (fun s a => P s a ∧ Q s a) s labels ↔
      EachStep R P s labels ∧ EachStep R Q s labels := by
  constructor
  · intro h
    exact ⟨fun done a rest s' hlabels hrun => (h done a rest s' hlabels hrun).1,
      fun done a rest s' hlabels hrun => (h done a rest s' hlabels hrun).2⟩
  · rintro ⟨hP, hQ⟩ done a rest s' hlabels hrun
    exact ⟨hP done a rest s' hlabels hrun, hQ done a rest s' hlabels hrun⟩

/-- A deterministic run goes through exactly if no step it comes to is stuck. -/
theorem exists_run_iff (hdet : ∀ s a t u, R s a t → R s a u → t = u) :
    (∃ s', Run R s labels s') ↔ EachStep R (fun s a => ∃ t, R s a t) s labels := by
  induction labels generalizing s with
  | nil => simp
  | cons a labels ih =>
      simp only [run_cons_iff, eachStep_cons, ← ih]
      constructor
      · rintro ⟨s', t, hstep, hrun⟩
        refine ⟨⟨t, hstep⟩, fun u hu => ?_⟩
        rw [← hdet s a t u hstep hu]
        exact ⟨s', hrun⟩
      · rintro ⟨⟨t, hstep⟩, hlater⟩
        obtain ⟨s', hrun⟩ := hlater t hstep
        exact ⟨s', t, hstep, hrun⟩

theorem eachState_of_eachStep (hstep : ∀ s a t, I s → P s a → R s a t → I t) (hs : I s)
    (hsteps : EachStep R P s labels) : EachState R I s labels := by
  induction labels generalizing s with
  | nil => exact eachState_nil.2 hs
  | cons a labels ih =>
      obtain ⟨ha, hlater⟩ := eachStep_cons.1 hsteps
      exact eachState_cons.2 ⟨hs, fun t ht => ih (hstep s a t hs ha ht) (hlater t ht)⟩

theorem EachState.mono {J : σ → Prop} (h : EachState R I s labels) (hIJ : ∀ t, I t → J t) :
    EachState R J s labels :=
  fun done t hdone hrun => hIJ t (h done t hdone hrun)

/-- Where `P` is exactly what a step needs to keep `I`, `I` holds in every state
of a run exactly if it holds at its start and `P` at each of its steps. -/
theorem eachState_iff (hstep : ∀ s a, I s → ((∀ t, R s a t → I t) ↔ P s a)) :
    EachState R I s labels ↔ I s ∧ EachStep R P s labels := by
  induction labels generalizing s with
  | nil => simp [eachState_nil]
  | cons a labels ih =>
      rw [eachState_cons, eachStep_cons]
      constructor
      · rintro ⟨hs, hlater⟩
        refine ⟨hs, (hstep s a hs).1 fun t ht => (ih.1 (hlater t ht)).1, fun t ht => ?_⟩
        exact (ih.1 (hlater t ht)).2
      · rintro ⟨hs, ha, hlater⟩
        exact ⟨hs, fun t ht => ih.2 ⟨(hstep s a hs).2 ha t ht, hlater t ht⟩⟩

/-- In a run that goes through, where `P` is exactly what a step that is taken needs
to keep `I`. -/
theorem eachState_iff_of_run (hdet : ∀ s a t u, R s a t → R s a u → t = u)
    (hstep : ∀ s a t, I s → R s a t → (I t ↔ P s a)) (hrun : Run R s labels s') :
    EachState R I s labels ↔ I s ∧ EachStep R P s labels := by
  induction hrun with
  | nil s => simp [eachState_nil]
  | @cons s t s' a labels htaken hrest ih =>
      have honly {Q : σ → Prop} : (∀ u, R s a u → Q u) ↔ Q t := by
        constructor
        · exact fun h => h t htaken
        · intro h u hu
          rwa [hdet s a u t hu htaken]
      rw [eachState_cons, eachStep_cons, honly, honly, ih]
      constructor
      · rintro ⟨hs, ht, hlater⟩
        exact ⟨hs, (hstep s a t hs htaken).1 ht, hlater⟩
      · rintro ⟨hs, ha, hlater⟩
        exact ⟨hs, (hstep s a t hs htaken).2 ha, hlater⟩

/-! ## Something carried along -/

section Carrying

variable {τ : Type*} {carry : σ → α → τ → Option τ} {t : σ} {x : τ} {last : σ × τ}

/-- A step that takes a value with it, where `carry` says what becomes of the value. -/
def Carrying (R : σ → α → σ → Prop) (carry : σ → α → τ → Option τ) (p : σ × τ) (a : α)
    (p' : σ × τ) : Prop :=
  R p.1 a p'.1 ∧ carry p.1 a p.2 = some p'.2

theorem run_carrying_cons_iff (hdet : ∀ s a t u, R s a t → R s a u → t = u) (hstep : R s a t) :
    Run (Carrying R carry) (s, x) (a :: labels) last ↔
      ∃ y, carry s a x = some y ∧ Run (Carrying R carry) (t, y) labels last := by
  rw [run_cons_iff]
  constructor
  · rintro ⟨⟨u, y⟩, ⟨hfirst, hcarry⟩, hrest⟩
    obtain rfl := hdet _ _ _ _ hfirst hstep
    exact ⟨y, hcarry, hrest⟩
  · rintro ⟨y, hcarry, hrest⟩
    exact ⟨(t, y), ⟨hstep, hcarry⟩, hrest⟩

end Carrying

end WsHyper.Lib
