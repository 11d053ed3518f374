import Mathlib.Logic.Basic

/-!
# Procedures that can fail or be cut at every step

A procedure runs over a state and reads a script: one signal for each primitive
step. A step goes through, with a reply from outside; or it raises after some
progress of its effect; or the process dies there. A script that has run out lets
every step through with the default reply.

`wp` is the weakest precondition with one postcondition for each kind of outcome.
It is relative to a `Regime`, the signals that a script may hold: under
`Regime.any` it is partial correctness against every fault, and under a regime
without faults, with `False` as the other postconditions, it is total correctness.
-/

namespace Effect

/-- What happens to one primitive step. -/
inductive Signal (ρ ε : Type) where
  | go (reply : ρ)
  | fail (progress : Nat) (error : ε)
  | crash (progress : Nat)

inductive Outcome (ε α : Type) where
  | ok (value : α)
  | raised (error : ε)
  | crashed
  deriving DecidableEq

/-- A procedure over the state `σ`; the result carries the rest of the script. -/
def Proc (σ ρ ε α : Type) : Type :=
  σ → List (Signal ρ ε) → Outcome ε α × σ × List (Signal ρ ε)

variable {σ ρ ε α β : Type}

/-! ## Exceptions of pure code -/

@[simp] theorem bind_eq_ok {x : Except ε α} {f : α → Except ε β} {b : β} :
    (x >>= f) = .ok b ↔ ∃ a, x = .ok a ∧ f a = .ok b := by
  cases x with
  | error e => simp [bind, Except.bind]
  | ok a => simp [bind, Except.bind]

@[simp] theorem forM_eq_ok {f : α → Except ε Unit} {l : List α} {u : Unit} :
    forM l f = .ok u ↔ ∀ a ∈ l, f a = .ok () := by
  induction l with
  | nil => simp [pure, Except.pure]
  | cons a l ih =>
    rw [List.forM_cons, bind_eq_ok, List.forall_mem_cons, ← ih]
    exact ⟨fun ⟨(), h⟩ => h, fun h => ⟨(), h⟩⟩

/-! ## Procedures -/

namespace Proc

protected def pure (a : α) : Proc σ ρ ε α := fun s ks => (.ok a, s, ks)

protected def bind (p : Proc σ ρ ε α) (f : α → Proc σ ρ ε β) : Proc σ ρ ε β := fun s ks =>
  match p s ks with
  | (.ok a, s', ks') => f a s' ks'
  | (.raised e, s', ks') => (.raised e, s', ks')
  | (.crashed, s', ks') => (.crashed, s', ks')

instance : Monad (Proc σ ρ ε) where
  pure := Proc.pure
  bind := Proc.bind

def raise (e : ε) : Proc σ ρ ε α := fun s ks => (.raised e, s, ks)

/-- `try p except: h`. A crash passes every handler. -/
def handle (p : Proc σ ρ ε α) (h : ε → Proc σ ρ ε α) : Proc σ ρ ε α := fun s ks =>
  match p s ks with
  | (.raised e, s', ks') => h e s' ks'
  | done => done

/-- `try p finally: g`, for a `g` that only changes the state. -/
def lastly (p : Proc σ ρ ε α) (g : σ → σ) : Proc σ ρ ε α := fun s ks =>
  match p s ks with
  | (.crashed, s', ks') => (.crashed, s', ks')
  | (o, s', ks') => (o, g s', ks')

/-- The outcome of a step that goes through; it may still refuse. -/
def settle (r : Except ε α × σ) (ks : List (Signal ρ ε)) : Outcome ε α × σ × List (Signal ρ ε) :=
  match r with
  | (.ok a, s) => (.ok a, s, ks)
  | (.error e, s) => (.raised e, s, ks)

/-- A primitive step. `part k` is what is left of the effect when it stops at progress `k`. -/
def prim [Inhabited ρ] (run : ρ → σ → Except ε α × σ) (part : Nat → σ → σ) : Proc σ ρ ε α :=
  fun s ks =>
    match ks with
    | [] => settle (run default s) []
    | .go r :: ks => settle (run r s) ks
    | .fail k e :: ks => (.raised e, part k s, ks)
    | .crash k :: ks => (.crashed, part k s, ks)

/-- A step that only reads, and may refuse what it reads. -/
def check [Inhabited ρ] (f : σ → Except ε α) : Proc σ ρ ε α :=
  prim (fun _ s => (f s, s)) fun _ s => s

/-- An effect with intermediate states. -/
def effect [Inhabited ρ] (full : σ → σ) (part : Nat → σ → σ) : Proc σ ρ ε Unit :=
  prim (fun _ s => (.ok (), full s)) part

/-- An effect that happens at once, before or after the point of failure. -/
def atomic [Inhabited ρ] (full : σ → σ) : Proc σ ρ ε Unit :=
  effect full fun k s => if k = 0 then s else full s

/-- Changes what lives in memory only; nothing can go wrong with it. -/
def modify (f : σ → σ) : Proc σ ρ ε Unit := fun s ks => (.ok (), f s, ks)

/-- `if` on the current state. -/
def branch (c : σ → Bool) (p q : Proc σ ρ ε α) : Proc σ ρ ε α := fun s ks =>
  if c s then p s ks else q s ks

/-- Refuses with `e` unless `b`. -/
def demand (b : Bool) (e : ε) : Proc σ ρ ε Unit := if b then .pure () else raise e

/-- `if b: p`. -/
def when (b : Bool) (p : Proc σ ρ ε Unit) : Proc σ ρ ε Unit := if b then p else .pure ()

/-- `if x is not None: p`. -/
def optionally (x : Option α) (p : α → Proc σ ρ ε Unit) : Proc σ ρ ε Unit :=
  match x with
  | none => .pure ()
  | some a => p a

/-- The current state, without a step of its own. -/
def look (f : σ → α) : Proc σ ρ ε α := fun s ks => (.ok (f s), s, ks)

section Run
variable {p : Proc σ ρ ε α} {f : α → Proc σ ρ ε β} {s s' : σ} {ks ks' : List (Signal ρ ε)} {e : ε}

theorem bind_assoc {γ : Type} {g : β → Proc σ ρ ε γ} :
    p >>= f >>= g = p >>= fun a => f a >>= g := by
  funext s ks
  change Proc.bind (Proc.bind p f) g s ks = Proc.bind p (fun a => Proc.bind (f a) g) s ks
  unfold Proc.bind
  rcases p s ks with ⟨_ | _ | _, _, _⟩
  · rfl
  · rfl
  · rfl

theorem bind_of_ok {a : α} (h : p s ks = (.ok a, s', ks')) : (p >>= f) s ks = f a s' ks' := by
  change Proc.bind p f s ks = _
  rw [Proc.bind, h]

theorem bind_of_raised (h : p s ks = (.raised e, s', ks')) :
    (p >>= f) s ks = (.raised e, s', ks') := by
  change Proc.bind p f s ks = _
  rw [Proc.bind, h]

theorem handle_of_raised {g : ε → Proc σ ρ ε α} (h : p s ks = (.raised e, s', ks')) :
    p.handle g s ks = g e s' ks' := by
  rw [handle, h]

theorem lastly_of_raised {g : σ → σ} (h : p s ks = (.raised e, s', ks')) :
    p.lastly g s ks = (.raised e, g s', ks') := by
  rw [lastly, h]

end Run

end Proc

/-! ## Weakest preconditions -/

/-- The signals that a script may hold. -/
structure Regime (ρ ε : Type) [Inhabited ρ] where
  allows : Signal ρ ε → Prop
  allows_default : allows (.go default)

section
variable [Inhabited ρ] {A : Regime ρ ε} {p : Proc σ ρ ε α} {f : α → Proc σ ρ ε β} {Q : α → σ → Prop}
  {E : ε → σ → Prop} {C : σ → Prop} {s : σ}

/-- Every step may fail or be cut. -/
def Regime.any : Regime ρ ε := ⟨fun _ => True, trivial⟩

/-- Every step goes through, with a reply that is `good`. -/
def Regime.faultFree (good : ρ → Prop) (h : good default) : Regime ρ ε :=
  ⟨fun k => ∃ r, k = .go r ∧ good r, default, rfl, h⟩

/-- A script of the regime. -/
def Regime.Script (A : Regime ρ ε) (ks : List (Signal ρ ε)) : Prop := ∀ k ∈ ks, A.allows k

theorem any_script (ks : List (Signal ρ ε)) : (Regime.any : Regime ρ ε).Script ks :=
  fun _ _ => trivial

/-- The postconditions of the three kinds of outcome. -/
def Outcome.Holds (o : Outcome ε α) (Q : α → σ → Prop) (E : ε → σ → Prop) (C : σ → Prop)
    (s : σ) : Prop :=
  match o with
  | .ok a => Q a s
  | .raised e => E e s
  | .crashed => C s

def wp (A : Regime ρ ε) (p : Proc σ ρ ε α) (Q : α → σ → Prop) (E : ε → σ → Prop)
    (C : σ → Prop) (s : σ) : Prop :=
  ∀ ks, A.Script ks → A.Script (p s ks).2.2 ∧ (p s ks).1.Holds Q E C (p s ks).2.1

/-- A return with `Q`, and every other end with `X`. -/
abbrev wpElse (A : Regime ρ ε) (p : Proc σ ρ ε α) (Q : α → σ → Prop) (X : σ → Prop) (s : σ) :
    Prop :=
  wp A p Q (fun _ => X) X s

/-! ### Use -/

theorem wp.holds (h : wp A p Q E C s) {ks} (hks : A.Script ks) :
    (p s ks).1.Holds Q E C (p s ks).2.1 :=
  (h ks hks).2

/-- A postcondition of every outcome. -/
theorem wp.always {I : σ → Prop} (h : wpElse A p (fun _ => I) I s) {ks}
    (hks : A.Script ks) : I (p s ks).2.1 := by
  have hh := h.holds hks
  revert hh
  cases (p s ks).1 <;> exact id

/-- Without faults the procedure returns. -/
theorem wp.returns (h : wpElse A p Q (fun _ => False) s) {ks}
    (hks : A.Script ks) : ∃ a, (p s ks).1 = .ok a ∧ Q a (p s ks).2.1 := by
  have hh := h.holds hks
  revert hh
  cases (p s ks).1 with
  | ok a => exact fun hq => ⟨a, rfl, hq⟩
  | raised e => exact False.elim
  | crashed => exact False.elim

/-! ### Rules -/

theorem wp_pure {a : α} (h : Q a s) : wp A (pure a) Q E C s := fun _ hks => ⟨hks, h⟩

theorem wp_raise {e : ε} (h : E e s) : wp A (.raise e) Q E C s := fun _ hks => ⟨hks, h⟩

theorem wp_look {g : σ → α} (h : Q (g s) s) : wp A (.look g) Q E C s := fun _ hks => ⟨hks, h⟩

theorem wp_modify {g : σ → σ} {Q : Unit → σ → Prop} (h : Q () (g s)) : wp A (.modify g) Q E C s :=
  fun _ hks => ⟨hks, h⟩

theorem wp_branch {c : σ → Bool} {q : Proc σ ρ ε α} (htrue : c s = true → wp A p Q E C s)
    (hfalse : c s = false → wp A q Q E C s) : wp A (.branch c p q) Q E C s := by
  intro ks hks
  unfold Proc.branch
  cases hc : c s with
  | true => exact htrue hc ks hks
  | false => exact hfalse hc ks hks

theorem wp_demand {b : Bool} {e : ε} {Q : Unit → σ → Prop} (htrue : b = true → Q () s)
    (hfalse : b = false → E e s) : wp A (.demand b e) Q E C s := by
  cases b with
  | true => exact wp_pure (htrue rfl)
  | false => exact wp_raise (hfalse rfl)

theorem wp_when {b : Bool} {p : Proc σ ρ ε Unit} {Q : Unit → σ → Prop}
    (htrue : b = true → wp A p Q E C s) (hfalse : b = false → Q () s) :
    wp A (.when b p) Q E C s := by
  cases b with
  | true => exact htrue rfl
  | false => exact wp_pure (hfalse rfl)

theorem wp_optionally {x : Option α} {p : α → Proc σ ρ ε Unit} {Q : Unit → σ → Prop}
    (hnone : x = none → Q () s) (hsome : ∀ a, x = some a → wp A (p a) Q E C s) :
    wp A (.optionally x p) Q E C s := by
  cases x with
  | none => exact wp_pure (hnone rfl)
  | some a => exact hsome a rfl

theorem wp_mono {Q' : α → σ → Prop} {E' : ε → σ → Prop} {C' : σ → Prop}
    (h : wp A p Q' E' C' s) (hq : ∀ a s', Q' a s' → Q a s') (he : ∀ e s', E' e s' → E e s')
    (hc : ∀ s', C' s' → C s') : wp A p Q E C s := by
  intro ks hks
  obtain ⟨hrest, hpost⟩ := h ks hks
  refine ⟨hrest, ?_⟩
  revert hpost
  cases (p s ks).1 with
  | ok a => exact hq a _
  | raised e => exact he e _
  | crashed => exact hc _

theorem wp_post {Q' : α → σ → Prop} (h : wp A p Q' E C s) (hq : ∀ a s', Q' a s' → Q a s') :
    wp A p Q E C s :=
  wp_mono h hq (fun _ _ => id) fun _ => id

theorem wp_mono_else {Q' : α → σ → Prop} {X X' : σ → Prop} (h : wpElse A p Q' X' s)
    (hq : ∀ a s', Q' a s' → Q a s') (hx : ∀ s', X' s' → X s') : wpElse A p Q X s :=
  wp_mono h hq (fun _ => hx) hx

theorem wp_else {X X' : σ → Prop} (h : wpElse A p Q X' s) (hx : ∀ s', X' s' → X s') :
    wpElse A p Q X s :=
  wp_mono_else h (fun _ _ => id) hx

theorem wp_bind {Q : β → σ → Prop} (h : wp A p (fun a s' => wp A (f a) Q E C s') E C s) :
    wp A (p >>= f) Q E C s := by
  intro ks hks
  obtain ⟨hrest, hpost⟩ := h ks hks
  change A.Script (Proc.bind p f s ks).2.2 ∧
    (Proc.bind p f s ks).1.Holds Q E C (Proc.bind p f s ks).2.1
  revert hrest hpost
  unfold Proc.bind
  rcases p s ks with ⟨_ | _ | _, s', ks'⟩
  · exact fun hrest hpost => hpost ks' hrest
  · exact fun hrest hpost => ⟨hrest, hpost⟩
  · exact fun hrest hpost => ⟨hrest, hpost⟩

/-- `wp_bind` with the assertion in between written out. -/
theorem wp_seq {Q : β → σ → Prop} {R : α → σ → Prop} (hp : wp A p R E C s)
    (hf : ∀ a s', R a s' → wp A (f a) Q E C s') : wp A (p >>= f) Q E C s :=
  wp_bind (wp_post hp hf)

/-- `wp_seq` for a first part that leads to one state. -/
theorem wp_seq_eq {Q : β → σ → Prop} {t : σ} (hp : wp A p (fun _ s' => s' = t) E C s)
    (hf : ∀ a, wp A (f a) Q E C t) : wp A (p >>= f) Q E C s :=
  wp_seq hp fun a s' hs => by rw [hs]; exact hf a

/-- `wp_seq` for a first part that reads. -/
theorem wp_seq_read {Q : β → σ → Prop} {a : α} (hp : wp A p (fun x s' => s' = s ∧ x = a) E C s)
    (hf : wp A (f a) Q E C s) : wp A (p >>= f) Q E C s :=
  wp_seq hp fun _ _ h => by rw [h.1, h.2]; exact hf

theorem wp_handle {g : ε → Proc σ ρ ε α}
    (h : wp A p Q (fun e s' => wp A (g e) Q E C s') C s) : wp A (p.handle g) Q E C s := by
  intro ks hks
  obtain ⟨hrest, hpost⟩ := h ks hks
  revert hrest hpost
  unfold Proc.handle
  rcases p s ks with ⟨_ | _ | _, s', ks'⟩
  · exact fun hrest hpost => ⟨hrest, hpost⟩
  · exact fun hrest hpost => hpost ks' hrest
  · exact fun hrest hpost => ⟨hrest, hpost⟩

/-- `wp_handle` with the assertion in between written out. -/
theorem wp_try {g : ε → Proc σ ρ ε α} {E' : ε → σ → Prop} (hp : wp A p Q E' C s)
    (hg : ∀ e s', E' e s' → wp A (g e) Q E C s') : wp A (p.handle g) Q E C s :=
  wp_handle (wp_mono hp (fun _ _ => id) hg fun _ => id)

theorem wp_lastly {g : σ → σ}
    (h : wp A p (fun a s' => Q a (g s')) (fun e s' => E e (g s')) C s) :
    wp A (p.lastly g) Q E C s := by
  intro ks hks
  obtain ⟨hrest, hpost⟩ := h ks hks
  revert hrest hpost
  unfold Proc.lastly
  rcases p s ks with ⟨_ | _ | _, s', ks'⟩ <;> exact fun hrest hpost => ⟨hrest, hpost⟩

theorem wp_prim {run : ρ → σ → Except ε α × σ} {part : Nat → σ → σ}
    (hgo : ∀ r, A.allows (.go r) → match run r s with
      | (.ok a, s') => Q a s'
      | (.error e, s') => E e s')
    (hfail : ∀ k e, A.allows (.fail k e) → E e (part k s))
    (hcrash : ∀ k, A.allows (.crash k) → C (part k s)) : wp A (.prim run part) Q E C s := by
  have hsettle (r : ρ) (hr : A.allows (.go r)) (ks : List (Signal ρ ε)) (hks : A.Script ks) :
      A.Script (Proc.settle (run r s) ks).2.2 ∧
        (Proc.settle (run r s) ks).1.Holds Q E C (Proc.settle (run r s) ks).2.1 := by
    have hpost := hgo r hr
    revert hpost
    rcases run r s with ⟨_ | _, s'⟩
    · exact fun hpost => ⟨hks, hpost⟩
    · exact fun hpost => ⟨hks, hpost⟩
  intro ks hks
  match ks, hks with
  | [], hks => exact hsettle default A.allows_default [] hks
  | .go r :: ks, hks =>
    exact hsettle r (hks _ List.mem_cons_self) ks fun k hk => hks k (List.mem_cons_of_mem _ hk)
  | .fail k e :: ks, hks =>
    exact ⟨fun k hk => hks k (List.mem_cons_of_mem _ hk), hfail k e (hks _ List.mem_cons_self)⟩
  | .crash k :: ks, hks =>
    exact ⟨fun k hk => hks k (List.mem_cons_of_mem _ hk), hcrash k (hks _ List.mem_cons_self)⟩

theorem wp_check {g : σ → Except ε α} (hok : ∀ a, g s = .ok a → Q a s)
    (herror : ∀ e, g s = .error e → E e s) (hfail : ∀ k e, A.allows (.fail k e) → E e s)
    (hcrash : ∀ k, A.allows (.crash k) → C s) : wp A (.check g) Q E C s := by
  refine wp_prim (fun r _ => ?_) hfail hcrash
  cases hg : g s with
  | ok a => exact hok a hg
  | error e => exact herror e hg

/-- A check leaves the state alone, and so does a fault in it. -/
theorem wp_check_post {I : σ → Prop} {g : σ → Except ε α} (h : I s)
    (hok : ∀ a, g s = .ok a → Q a s) : wpElse A (.check g) Q I s :=
  wp_check hok (fun _ _ => h) (fun _ _ _ => h) fun _ _ => h

theorem wp_seq_check {I : σ → Prop} {g : σ → Except ε α} {Q : β → σ → Prop} (h : I s)
    (hf : ∀ a, g s = .ok a → wpElse A (f a) Q I s) : wpElse A (.check g >>= f) Q I s :=
  wp_bind (wp_check_post h hf)

theorem wp_effect {full : σ → σ} {part : Nat → σ → σ} {Q : Unit → σ → Prop}
    (hgo : Q () (full s)) (hfail : ∀ k e, A.allows (.fail k e) → E e (part k s))
    (hcrash : ∀ k, A.allows (.crash k) → C (part k s)) : wp A (.effect full part) Q E C s :=
  wp_prim (fun _ _ => hgo) hfail hcrash

theorem wp_atomic {full : σ → σ} {Q : Unit → σ → Prop} (hgo : Q () (full s))
    (hfail : ∀ k e, A.allows (.fail k e) → E e s ∧ E e (full s))
    (hcrash : ∀ k, A.allows (.crash k) → C s ∧ C (full s)) : wp A (.atomic full) Q E C s := by
  refine wp_effect hgo (fun k e hk => ?_) fun k hk => ?_
  · by_cases h0 : k = 0
    · simpa [h0] using (hfail k e hk).1
    · simpa [h0] using (hfail k e hk).2
  · by_cases h0 : k = 0
    · simpa [h0] using (hcrash k hk).1
    · simpa [h0] using (hcrash k hk).2

/-- A loop keeps `J`, which speaks about the items still to come. -/
theorem wp_forM {g : α → Proc σ ρ ε PUnit} (J : List α → σ → Prop)
    (hstep : ∀ a rest s, J (a :: rest) s → wp A (g a) (fun _ => J rest) E C s) (l : List α)
    (h : J l s) : wp A (l.forM g) (fun _ => J []) E C s := by
  induction l generalizing s with
  | nil => exact wp_pure h
  | cons a l ih => exact wp_bind (wp_post (hstep a l s h) fun _ _ => ih)

/-- Two postconditions at once. -/
theorem wp_and {Q' : α → σ → Prop} {E' : ε → σ → Prop} {C' : σ → Prop} (h : wp A p Q E C s)
    (h' : wp A p Q' E' C' s) :
    wp A p (fun a s => Q a s ∧ Q' a s) (fun e s => E e s ∧ E' e s) (fun s => C s ∧ C' s) s := by
  intro ks hks
  obtain ⟨hrest, hpost⟩ := h ks hks
  have hpost' := (h' ks hks).2
  refine ⟨hrest, ?_⟩
  revert hpost hpost'
  cases (p s ks).1 <;> exact fun h h' => ⟨h, h'⟩

/-- A second postcondition for the return. -/
theorem wp_with {Q' : α → σ → Prop} {E' : ε → σ → Prop} {C' : σ → Prop} (h : wp A p Q E C s)
    (h' : wp A p Q' E' C' s) : wp A p (fun a s => Q a s ∧ Q' a s) E C s :=
  wp_mono (wp_and h h') (fun _ _ => id) (fun _ _ => And.left) fun _ => And.left

/-! ### Faults that need no proof -/

/-- The faults of the regime lead to outcomes about which nothing is asked. -/
structure Absorbs (A : Regime ρ ε) (E : ε → σ → Prop) (C : σ → Prop) : Prop where
  fail : ∀ k e, A.allows (.fail k e) → ∀ s, E e s
  crash : ∀ k, A.allows (.crash k) → ∀ s, C s

theorem absorbs_true : Absorbs A (fun _ (_ : σ) => True) fun _ => True :=
  ⟨fun _ _ _ _ => trivial, fun _ _ _ => trivial⟩

theorem absorbs_faultFree {good : ρ → Prop} {h : good default} :
    Absorbs (Regime.faultFree good h) E C := by
  constructor
  · rintro k e ⟨r, hr, -⟩
    cases hr
  · rintro k ⟨r, hr, -⟩
    cases hr

namespace Absorbs

theorem check (h : Absorbs A E C) {g : σ → Except ε α} (hok : ∀ a, g s = .ok a → Q a s)
    (herror : ∀ e, g s = .error e → E e s) : wp A (.check g) Q E C s :=
  wp_check hok herror (fun k e hk => h.fail k e hk s) fun k hk => h.crash k hk s

theorem prim (h : Absorbs A E C) {run : ρ → σ → Except ε α × σ} {part : Nat → σ → σ}
    (hgo : ∀ r, A.allows (.go r) → match run r s with
      | (.ok a, s') => Q a s'
      | (.error e, s') => E e s') : wp A (.prim run part) Q E C s :=
  wp_prim hgo (fun k e hk => h.fail k e hk _) fun k hk => h.crash k hk _

theorem effect (h : Absorbs A E C) {full : σ → σ} {part : Nat → σ → σ} {Q : Unit → σ → Prop}
    (hgo : Q () (full s)) : wp A (.effect full part) Q E C s :=
  wp_effect hgo (fun k e hk => h.fail k e hk _) fun k hk => h.crash k hk _

theorem atomic (h : Absorbs A E C) {full : σ → σ} {Q : Unit → σ → Prop} (hgo : Q () (full s)) :
    wp A (.atomic full) Q E C s :=
  h.effect hgo

end Absorbs

end

/-! ## Invariants -/

section
variable [Inhabited ρ] {I : σ → Prop} {E : ε → σ → Prop} {p : Proc σ ρ ε α} {f : α → Proc σ ρ ε β}

/-- Under every regime `p` keeps `I`, and where it raises it leaves `E`. -/
def Keeps (I : σ → Prop) (E : ε → σ → Prop) (p : Proc σ ρ ε α) : Prop :=
  ∀ (A : Regime ρ ε) s, I s → wp A p (fun _ => I) E I s

/-- Every outcome of `p`, under every regime, has `I` if the start has it. -/
def Preserves (I : σ → Prop) (p : Proc σ ρ ε α) : Prop :=
  ∀ (A : Regime ρ ε) s, I s → wp A p (fun _ => I) (fun _ => I) I s

section Keeps

theorem keeps_pure (a : α) : Keeps I E (pure a : Proc σ ρ ε α) := fun _ _ h => wp_pure h

theorem keeps_raise {e : ε} (h : ∀ s, I s → E e s) : Keeps I E (.raise e : Proc σ ρ ε α) :=
  fun _ s hs => wp_raise (h s hs)

theorem keeps_demand (b : Bool) {e : ε} (h : ∀ s, I s → E e s) :
    Keeps I E (.demand b e : Proc σ ρ ε Unit) :=
  fun _ s hs => wp_demand (fun _ => hs) fun _ => h s hs

theorem keeps_when (b : Bool) {p : Proc σ ρ ε Unit} (hp : Keeps I E p) : Keeps I E (.when b p) :=
  fun A s hs => wp_when (fun _ => hp A s hs) fun _ => hs

theorem keeps_optionally (x : Option α) {p : α → Proc σ ρ ε Unit} (hp : ∀ a, Keeps I E (p a)) :
    Keeps I E (.optionally x p) :=
  fun A s hs => wp_optionally (fun _ => hs) fun a _ => hp a A s hs

theorem keeps_bind (hp : Keeps I E p) (hf : ∀ a, Keeps I E (f a)) : Keeps I E (p >>= f) :=
  fun A s hs => wp_seq (hp A s hs) fun a m => hf a A m

theorem keeps_prim {run : ρ → σ → Except ε α × σ} {part : Nat → σ → σ}
    (hrun : ∀ r s, I s → match run r s with
      | (.ok _, s') => I s'
      | (.error e, s') => E e s')
    (hfail : ∀ k e s, I s → E e (part k s)) (hpart : ∀ k s, I s → I (part k s)) :
    Keeps I E (.prim run part) :=
  fun _ s hs => wp_prim (fun r _ => hrun r s hs) (fun k e _ => hfail k e s hs) fun k _ =>
    hpart k s hs

theorem keeps_forM_mem {g : α → Proc σ ρ ε PUnit} {l : List α} (hg : ∀ a ∈ l, Keeps I E (g a)) :
    Keeps I E (l.forM g) := by
  induction l with
  | nil => exact keeps_pure _
  | cons a l ih =>
    exact keeps_bind (hg a List.mem_cons_self) fun _ =>
      ih fun b hb => hg b (List.mem_cons_of_mem _ hb)

theorem keeps_forM {g : α → Proc σ ρ ε PUnit} (hg : ∀ a, Keeps I E (g a)) (l : List α) :
    Keeps I E (l.forM g) :=
  keeps_forM_mem fun a _ => hg a

end Keeps

/-- An invariant through one step of a proof that asks less of the other outcomes. -/
theorem Preserves.through {A : Regime ρ ε} {J : σ → Prop} {s : σ} (hp : Preserves I p) (hs : I s)
    (h : ∀ s, I s → J s) : wpElse A p (fun _ => I) J s :=
  wp_mono_else (hp A s hs) (fun _ _ => id) h

theorem preserves_pure (a : α) : Preserves I (pure a : Proc σ ρ ε α) := keeps_pure a

theorem preserves_raise (e : ε) : Preserves I (.raise e : Proc σ ρ ε α) := keeps_raise fun _ => id

theorem preserves_look (g : σ → α) : Preserves I (.look g : Proc σ ρ ε α) := fun _ _ h => wp_look h

theorem preserves_modify {g : σ → σ} (h : ∀ s, I s → I (g s)) :
    Preserves I (.modify g : Proc σ ρ ε Unit) :=
  fun _ s hs => wp_modify (h s hs)

theorem preserves_branch {c : σ → Bool} {q : Proc σ ρ ε α} (hp : Preserves I p)
    (hq : Preserves I q) : Preserves I (.branch c p q) :=
  fun A s hs => wp_branch (fun _ => hp A s hs) fun _ => hq A s hs

theorem preserves_demand (b : Bool) (e : ε) : Preserves I (.demand b e : Proc σ ρ ε Unit) :=
  keeps_demand b fun _ => id

theorem preserves_when (b : Bool) {p : Proc σ ρ ε Unit} (hp : Preserves I p) :
    Preserves I (.when b p) :=
  keeps_when b hp

theorem preserves_optionally (x : Option α) {p : α → Proc σ ρ ε Unit}
    (hp : ∀ a, Preserves I (p a)) : Preserves I (.optionally x p) :=
  keeps_optionally x hp

theorem preserves_bind (hp : Preserves I p) (hf : ∀ a, Preserves I (f a)) : Preserves I (p >>= f) :=
  keeps_bind hp hf

/-- `preserves_bind` where the result of the first part is not used. -/
theorem preserves_seq {q : Proc σ ρ ε β} (hp : Preserves I p) (hq : Preserves I q) :
    Preserves I (p >>= fun _ => q) :=
  preserves_bind hp fun _ => hq

theorem preserves_handle {g : ε → Proc σ ρ ε α} (hp : Preserves I p) (hg : ∀ e, Preserves I (g e)) :
    Preserves I (p.handle g) := by
  intro A s hs
  exact wp_try (hp A s hs) fun e s' => hg e A s'

theorem preserves_prim {run : ρ → σ → Except ε α × σ} {part : Nat → σ → σ}
    (hrun : ∀ r s, I s → I (run r s).2) (hpart : ∀ k s, I s → I (part k s)) :
    Preserves I (.prim run part) := by
  refine keeps_prim (fun r s hs => ?_) (fun k _ => hpart k) hpart
  have hr := hrun r s hs
  revert hr
  rcases run r s with ⟨_ | _, s'⟩ <;> exact id

theorem preserves_check (g : σ → Except ε α) : Preserves I (.check g : Proc σ ρ ε α) :=
  preserves_prim (fun _ _ => id) fun _ _ => id

theorem preserves_seq_check {g : σ → Except ε α} {q : Proc σ ρ ε β} (hq : Preserves I q) :
    Preserves I (.check g >>= fun _ => q) :=
  preserves_seq (preserves_check g) hq

theorem preserves_effect {full : σ → σ} {part : Nat → σ → σ} (hfull : ∀ s, I s → I (full s))
    (hpart : ∀ k s, I s → I (part k s)) : Preserves I (.effect full part : Proc σ ρ ε Unit) :=
  preserves_prim (fun _ => hfull) hpart

theorem preserves_atomic {full : σ → σ} (hfull : ∀ s, I s → I (full s)) :
    Preserves I (.atomic full : Proc σ ρ ε Unit) := by
  refine preserves_effect hfull fun k s hs => ?_
  by_cases h0 : k = 0
  · simpa [h0] using hs
  · simpa [h0] using hfull s hs

theorem preserves_forM_mem {g : α → Proc σ ρ ε PUnit} {l : List α}
    (hg : ∀ a ∈ l, Preserves I (g a)) : Preserves I (l.forM g) :=
  keeps_forM_mem hg

theorem preserves_forM {g : α → Proc σ ρ ε PUnit} (hg : ∀ a, Preserves I (g a)) (l : List α) :
    Preserves I (l.forM g) :=
  keeps_forM hg l

end

end Effect
