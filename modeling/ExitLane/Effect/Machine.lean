import Mathlib.Logic.Basic

/-!
# Machines that take step after step

A machine moves from state to state by actions and emits events. Its `Run`s carry
the events so far, the latest first, so that "only after" is a statement about the
rest of the list. A trace is `Lawful` for a rule if the rule allows every event
after the events before it.
-/

namespace Effect

/-- `step s a` is `none` where the action `a` is not enabled; new events come latest first. -/
structure Machine (σ α ε : Type) where
  init : σ
  step : σ → α → Option (σ × List ε)

variable {σ α ε : Type} {M : Machine σ α ε} {s : σ} {past : List ε} {d e : ε} {p : ε → Prop}

/-- The states that a machine reaches, each with the events on the way to it. -/
inductive Machine.Run (M : Machine σ α ε) : σ → List ε → Prop where
  | start : M.Run M.init []
  | next {s : σ} {past : List ε} {a : α} {s' : σ} {new : List ε} (h : M.Run s past)
      (hstep : M.step s a = some (s', new)) : M.Run s' (new ++ past)

/-- What holds at the start and is kept by every step holds along every run. -/
theorem Machine.Run.invariant {I : σ → List ε → Prop} (hinit : I M.init [])
    (hstep : ∀ {s past a s' new}, I s past → M.step s a = some (s', new) → I s' (new ++ past))
    (h : M.Run s past) : I s past := by
  induction h with
  | start => exact hinit
  | next _ hs ih => exact hstep ih hs

/-- The run of a list of actions from a state, with the events before it. -/
def Machine.drive (M : Machine σ α ε) : List α → σ → List ε → Option (σ × List ε)
  | [], s, past => some (s, past)
  | a :: rest, s, past =>
    match M.step s a with
    | none => none
    | some (s', new) => M.drive rest s' (new ++ past)

/-- What `drive` reaches is reached by a run. -/
theorem Machine.Run.drive (h : M.Run s past) {actions : List α} {s' : σ} {past' : List ε}
    (hd : M.drive actions s past = some (s', past')) : M.Run s' past' := by
  induction actions generalizing s past with
  | nil =>
    cases hd
    exact h
  | cons a rest ih =>
    rw [Machine.drive] at hd
    cases hs : M.step s a with
    | none =>
      rw [hs] at hd
      cases hd
    | some r =>
      rw [hs] at hd
      exact ih (h.next hs) hd

/-- What the actions of a list keep holds after the list. -/
theorem Machine.drive_invariant {I : σ → Prop} {actions : List α}
    (hstep : ∀ a ∈ actions, ∀ {s s' new}, I s → M.step s a = some (s', new) → I s') {s' : σ}
    {past' : List ε} (hs : I s) (hd : M.drive actions s past = some (s', past')) : I s' := by
  induction actions generalizing s past with
  | nil =>
    cases hd
    exact hs
  | cons a rest ih =>
    rw [List.forall_mem_cons] at hstep
    rw [Machine.drive] at hd
    cases ha : M.step s a with
    | none =>
      rw [ha] at hd
      cases hd
    | some r =>
      rw [ha] at hd
      exact ih hstep.2 (hstep.1 hs ha) hd

theorem Machine.drive_cons (M : Machine σ α ε) (a : α) (rest : List α) (s : σ) (past : List ε) :
    M.drive (a :: rest) s past =
      (M.step s a).bind fun r => M.drive rest r.1 (r.2 ++ past) := by
  rw [Machine.drive]
  cases M.step s a <;> rfl

theorem Machine.drive_append (M : Machine σ α ε) (front back : List α) (s : σ) (past : List ε) :
    M.drive (front ++ back) s past =
      (M.drive front s past).bind fun r => M.drive back r.1 r.2 := by
  induction front generalizing s past with
  | nil => rfl
  | cons a rest ih =>
    rw [List.cons_append, Machine.drive_cons, Machine.drive_cons]
    cases M.step s a with
    | none => rfl
    | some r => exact ih _ _

/-- Every event is allowed by the events before it. -/
def Lawful (allowed : List ε → ε → Prop) : List ε → Prop
  | [] => True
  | e :: past => allowed past e ∧ Lawful allowed past

/-- `e` has happened after a `d`. -/
def After (past : List ε) (d e : ε) : Prop :=
  ∃ newer older, past = newer ++ d :: older ∧ e ∈ newer

theorem After.cons (h : After past d e) (x : ε) : After (x :: past) d e := by
  obtain ⟨newer, older, rfl, he⟩ := h
  exact ⟨x :: newer, older, rfl, List.mem_cons_of_mem _ he⟩

theorem After.of_mem (h : d ∈ past) (e : ε) : After (e :: past) d e := by
  obtain ⟨newer, older, rfl⟩ := List.append_of_mem h
  exact ⟨e :: newer, older, rfl, List.mem_cons_self⟩

/-- `d` has happened, and nothing since then satisfies `p`. -/
def Unspent (p : ε → Prop) (past : List ε) (d : ε) : Prop :=
  ∃ newer older, past = newer ++ d :: older ∧ ∀ e ∈ newer, ¬ p e

theorem Unspent.start (p : ε → Prop) (past : List ε) (d : ε) : Unspent p (d :: past) d :=
  ⟨[], past, rfl, fun _ h => by cases h⟩

theorem Unspent.cons (h : Unspent p past d) (he : ¬ p e) : Unspent p (e :: past) d := by
  obtain ⟨newer, older, rfl, hnewer⟩ := h
  exact ⟨e :: newer, older, rfl, List.forall_mem_cons.mpr ⟨he, hnewer⟩⟩

theorem unspent_cons_iff : Unspent p (e :: past) d ↔ e = d ∨ ¬ p e ∧ Unspent p past d := by
  constructor
  · rintro ⟨newer, older, heq, hnewer⟩
    cases newer with
    | nil => exact .inl (List.cons.inj heq).1
    | cons x newer =>
      obtain ⟨rfl, rfl⟩ := List.cons.inj heq
      rw [List.forall_mem_cons] at hnewer
      exact .inr ⟨hnewer.1, newer, older, rfl, hnewer.2⟩
  · rintro (rfl | ⟨he, h⟩)
    · exact .start p past e
    · exact h.cons he

theorem Unspent.append {new : List ε} (h : Unspent p past d) (hnew : ∀ e ∈ new, ¬ p e) :
    Unspent p (new ++ past) d := by
  induction new with
  | nil => exact h
  | cons e new ih =>
    rw [List.forall_mem_cons] at hnew
    exact (ih hnew.2).cons hnew.1

end Effect
