import Mathlib.Data.Option.Basic

/-!
# Machines that keep to a language

A language is given by an automaton that reads a word letter by letter and stops at
a letter that does not fit.  A machine answers each input with a letter; it speaks
the language if all its answers, to any inputs, can be read.
-/

namespace WsHyper.Lib

variable {π τ ι σ : Type*}

/-- The automaton reads the word from a place on. -/
def Spoken (next : π → τ → Option π) : π → List τ → Prop
  | _, [] => True
  | place, letter :: word =>
      match next place letter with
      | some place => Spoken next place word
      | none => False

def tells (step : σ → ι → τ × σ) : σ → List ι → List τ
  | _, [] => []
  | s, input :: inputs => (step s input).1 :: tells step (step s input).2 inputs

def Speaks (next : π → τ → Option π) (step : σ → ι → τ × σ) (place : π) (s : σ) : Prop :=
  ∀ inputs, Spoken next place (tells step s inputs)

variable {next : π → τ → Option π} {step : σ → ι → τ × σ} {place : π} {s : σ}

theorem exists_next_of_speaks (hspeaks : Speaks next step place s) (input : ι) :
    ∃ place', next place (step s input).1 = some place' ∧
      Speaks next step place' (step s input).2 := by
  cases hnext : next place (step s input).1 with
  | none =>
      have hfirst := hspeaks [input]
      simp only [tells, Spoken, hnext] at hfirst
  | some place' =>
      refine ⟨place', rfl, fun inputs => ?_⟩
      have hlater := hspeaks (input :: inputs)
      simp only [tells, Spoken, hnext] at hlater
      exact hlater

/-- A machine speaks the language if a relation to the places goes along with its steps. -/
theorem speaks_of_simulation {Good : π → σ → Prop}
    (hstep : ∀ place s input, Good place s →
      ∃ place', next place (step s input).1 = some place' ∧ Good place' (step s input).2)
    (hgood : Good place s) : Speaks next step place s := by
  intro inputs
  induction inputs generalizing place s with
  | nil => trivial
  | cons input inputs ih =>
      obtain ⟨place', hnext, hgood'⟩ := hstep place s input hgood
      simp only [tells, Spoken, hnext]
      exact ih hgood'

end WsHyper.Lib
