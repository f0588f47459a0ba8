import Mathlib

/-!
# Labelled transition systems and their runs

A component is modelled by its initial states and its labelled steps. A run is
built at its end, one step at a time, so that an invariant is proved by looking
at the last step only (`System.Run.invariant`).

A relation to the reachable states of a more abstract system is carried along a run by
`System.Run.simulation`. Two constructions on systems are used throughout:

* `System.ofFun` turns an executable step function into a system, and
  `System.Run.of_exec` turns an evaluation of that function over a list of
  labels into a run;
* `System.guard` keeps the steps that meet a condition on the state before the
  step and on the label. A statement about every run whose steps all meet a
  condition is a statement about the runs of the guarded system.
-/

namespace NeurDB

/-- An entry of a log that has grown by one is an old one or the new one. -/
theorem mem_append_singleton {α : Type*} {a b : α} {l : List α} : a ∈ l ++ [b] ↔ a ∈ l ∨ a = b := by
  rw [List.mem_append, List.mem_singleton]

/-- A labelled transition system. -/
structure System (State Label : Type) where
  /-- The states a run may start from. -/
  init : State → Prop
  step : State → Label → State → Prop

namespace System

variable {State Label : Type} {sys : System State Label}

/-- `sys.Run s₀ ls s`: the labels `ls` lead, in this order, from `s₀` to `s`. -/
inductive Run (sys : System State Label) (s₀ : State) : List Label → State → Prop
  | nil : Run sys s₀ [] s₀
  | snoc {ls : List Label} {s s' : State} {l : Label} :
      Run sys s₀ ls s → sys.step s l s' → Run sys s₀ (ls ++ [l]) s'

/-- A state some run reaches from an initial state. -/
def Reachable (sys : System State Label) (s : State) : Prop :=
  ∃ s₀ ls, sys.init s₀ ∧ sys.Run s₀ ls s

variable {s s₀ : State} {ls : List Label} {G : State → Label → Prop} {init : State → Prop}
  {I : State → Prop}

/-- **The invariant rule.** What holds where the run starts and survives every
step holds where the run ends. -/
theorem Run.invariant (hrun : sys.Run s₀ ls s) (h₀ : I s₀)
    (hstep : ∀ s l s', I s → sys.step s l s' → I s') : I s := by
  induction hrun with
  | nil => exact h₀
  | snoc _ hlast ih => exact hstep _ _ _ ih hlast

theorem Reachable.invariant (hs : sys.Reachable s)
    (hinit : ∀ s, sys.init s → I s) (hstep : ∀ s l s', I s → sys.step s l s' → I s') : I s := by
  obtain ⟨s₀, ls, h₀, hrun⟩ := hs
  exact hrun.invariant (hinit s₀ h₀) hstep

theorem Reachable.step {s' : State} {l : Label} (hs : sys.Reachable s) (hstep : sys.step s l s') :
    sys.Reachable s' := by
  obtain ⟨s₀, ls, h₀, hrun⟩ := hs
  exact ⟨s₀, ls ++ [l], h₀, hrun.snoc hstep⟩

/-! ### Simulation -/

/-- **The simulation rule.** A relation that holds between initial states and that every step
of `sys` keeps, against no step or one step of `abs`, relates every state a run of `sys`
reaches to a reachable state of `abs`. -/
theorem Run.simulation {AState ALabel : Type} {abs : System AState ALabel}
    {R : State → AState → Prop} (hrun : sys.Run s₀ ls s) (h₀ : ∃ a, abs.Reachable a ∧ R s₀ a)
    (hstep : ∀ s l s' a, R s a → abs.Reachable a → sys.step s l s' →
      ∃ a', (a' = a ∨ ∃ l', abs.step a l' a') ∧ R s' a') :
    ∃ a, abs.Reachable a ∧ R s a := by
  induction hrun with
  | nil => exact h₀
  | snoc _ hlast ih =>
    obtain ⟨a, ha, hR⟩ := ih
    obtain ⟨a', hmove, hR'⟩ := hstep _ _ _ a hR ha hlast
    rcases hmove with rfl | ⟨l', hl'⟩
    · exact ⟨a', ha, hR'⟩
    · exact ⟨a', ha.step hl', hR'⟩

/-! ### Executable step functions -/

/-- The system of an executable step function: `none` means that the label is
not enabled. -/
def ofFun (init : State → Prop) (step : State → Label → Option State) :
    System State Label where
  init := init
  step s l s' := step s l = some s'

/-- Run a step function over a list of labels. -/
def exec (step : State → Label → Option State) : State → List Label → Option State
  | s, [] => some s
  | s, l :: ls => (step s l).bind fun s' => exec step s' ls

theorem exec_append (step : State → Label → Option State) (s : State) (ls ls' : List Label) :
    exec step s (ls ++ ls') = (exec step s ls).bind fun s' => exec step s' ls' := by
  induction ls generalizing s with
  | nil => rfl
  | cons l ls ih =>
    rw [List.cons_append, exec, exec, Option.bind_assoc]
    simp only [ih]

theorem Run.cons {s₁ : State} {l : Label} (hstep : sys.step s₀ l s₁) (hrun : sys.Run s₁ ls s) :
    sys.Run s₀ (l :: ls) s := by
  induction hrun with
  | nil =>
    have h : sys.Run s₀ ([] ++ [l]) s₁ := Run.nil.snoc hstep
    exact h
  | snoc _ hlast ih => exact ih.snoc hlast

theorem Run.of_exec {step : State → Label → Option State} (h : exec step s₀ ls = some s) :
    (ofFun init step).Run s₀ ls s := by
  induction ls generalizing s₀ with
  | nil =>
    obtain rfl : s₀ = s := Option.some.inj h
    exact .nil
  | cons l ls ih =>
    obtain ⟨s₁, h₁, hrest⟩ := Option.bind_eq_some_iff.mp h
    exact (ih hrest).cons h₁

/-- An evaluation that ends in a state where `P` holds gives a run to such a state, with
what follows from the two. -/
theorem exists_run_of_exec {step : State → Label → Option State}
    {P Q : State → Prop} [DecidablePred P] (h : (exec step s₀ ls).any (fun s => P s) = true)
    (hQ : ∀ s, (ofFun init step).Run s₀ ls s → P s → Q s) :
    ∃ s, (ofFun init step).Run s₀ ls s ∧ Q s := by
  cases hs : exec step s₀ ls with
  | none => rw [hs] at h; cases h
  | some s =>
    rw [hs] at h
    exact ⟨s, .of_exec hs, hQ s (.of_exec hs) (of_decide_eq_true h)⟩

/-! ### Guarded systems -/

/-- The steps of `sys` that meet `G`, a condition on the state before the step
and on the label. -/
def guard (sys : System State Label) (G : State → Label → Prop) : System State Label where
  init := sys.init
  step s l s' := sys.step s l s' ∧ G s l

theorem Run.to_guard (h : sys.Run s₀ ls s) (hG : ∀ s l, G s l) : (sys.guard G).Run s₀ ls s := by
  induction h with
  | nil => exact .nil
  | snoc _ hlast ih => exact ih.snoc ⟨hlast, hG _ _⟩

theorem Run.of_guard (h : (sys.guard G).Run s₀ ls s) : sys.Run s₀ ls s := by
  induction h with
  | nil => exact .nil
  | snoc _ hlast ih => exact ih.snoc hlast.1

/-- **Guarded runs by a mark.** If a step from a state that can be reached leaves the mark `T`
exactly where it was there already or where the step does not meet the guard, then the guarded runs
are the runs that end without the mark. -/
theorem run_guard_iff {T : State → Prop} (h₀ : ¬ T s₀) (hI : ∀ ls s, sys.Run s₀ ls s → I s)
    (hstep : ∀ s l s', I s → sys.step s l s' → (T s' ↔ T s ∨ ¬ G s l)) :
    (sys.guard G).Run s₀ ls s ↔ sys.Run s₀ ls s ∧ ¬ T s := by
  constructor
  · intro h
    refine ⟨h.of_guard, ?_⟩
    induction h with
    | nil => exact h₀
    | snoc hrun hlast ih =>
      rw [hstep _ _ _ (hI _ _ hrun.of_guard) hlast.1]
      exact not_or_intro ih (not_not_intro hlast.2)
  · rintro ⟨h, hT⟩
    induction h with
    | nil => exact .nil
    | snoc hrun hlast ih =>
      have hnot := mt (hstep _ _ _ (hI _ _ hrun) hlast).mpr hT
      rw [not_or, not_not] at hnot
      exact (ih hnot.1).snoc ⟨hlast, hnot.2⟩

/-- An evaluation that checks the guard before each step gives a guarded run. -/
theorem exists_guard_run_of_exec {step : State → Label → Option State}
    [∀ s l, Decidable (G s l)] {P Q : State → Prop} [DecidablePred P]
    (h : (exec (fun s l => if G s l then step s l else none) s₀ ls).any (fun s => P s) = true)
    (hQ : ∀ s, ((ofFun init step).guard G).Run s₀ ls s → P s → Q s) :
    ∃ s, ((ofFun init step).guard G).Run s₀ ls s ∧ Q s := by
  obtain ⟨s, hrun, hP⟩ : ∃ s, (ofFun init _).Run s₀ ls s ∧ P s :=
    exists_run_of_exec h fun _ _ hP => hP
  suffices hguard : ((ofFun init step).guard G).Run s₀ ls s from ⟨s, hguard, hQ s hguard hP⟩
  clear h hP hQ
  induction hrun with
  | nil => exact .nil
  | @snoc ls s s' l _ hlast ih =>
    refine ih.snoc ?_
    change (if G s l then step s l else none) = some s' at hlast
    split at hlast
    · next hG => exact ⟨hlast, hG⟩
    · cases hlast

end System

end NeurDB
