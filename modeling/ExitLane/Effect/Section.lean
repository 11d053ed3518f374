import ExitLane.Effect.Basic

/-!
# A procedure in progress

While a procedure runs under a lock, the others see its state move step by step. A `Section` is
such a procedure with the state in which it began and the signals that its steps have had so far.
What the others see is what would be left if it stopped before its next step.
-/

namespace Effect

variable {σ ρ ε α : Type}

structure Section (σ ρ ε α : Type) where
  body : Proc σ ρ ε α
  start : σ
  script : List (Signal ρ ε)

namespace Section

/-- The section stops in its next step, at the progress `k` of this step. -/
def stop (c : Section σ ρ ε α) (k : Nat) : Outcome ε α × σ × List (Signal ρ ε) :=
  c.body c.start (c.script ++ [.crash k])

def seen (c : Section σ ρ ε α) : σ := (c.stop 0).2.1

/-- The result, if no step is left. -/
def result (c : Section σ ρ ε α) : Option (Except ε α) :=
  match (c.stop 0).1 with
  | .ok a => some (.ok a)
  | .raised e => some (.error e)
  | .crashed => none

variable [Inhabited ρ] {c : Section σ ρ ε α} {I : σ → Prop}

/-- What every outcome of the body has holds wherever the section stops. -/
theorem stop_of_wp {E : ε → σ → Prop} {Q : α → σ → Prop} {C : σ → Prop}
    (h : wp Regime.any c.body Q E C c.start) (k : Nat) : (c.stop k).1.Holds Q E C (c.stop k).2.1 :=
  h.holds (any_script _)

theorem stop_of_preserves (h : Preserves I c.body) (hs : I c.start) (k : Nat) : I (c.stop k).2.1 :=
  (h Regime.any c.start hs).always (any_script _)

/-- The postcondition of a section that has returned. -/
theorem result_ok {Q : α → σ → Prop} {E : ε → σ → Prop} {C : σ → Prop} {a : α}
    (h : wp Regime.any c.body Q E C c.start) (hr : c.result = some (.ok a)) : Q a c.seen := by
  have hpost := stop_of_wp h 0
  unfold result at hr
  unfold seen
  revert hr hpost
  cases (c.stop 0).1 with
  | ok b =>
    intro hr hpost
    cases hr
    exact hpost
  | raised e => exact nofun
  | crashed => exact nofun

end Section

end Effect
