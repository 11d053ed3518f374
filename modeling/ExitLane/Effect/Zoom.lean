import ExitLane.Effect.Basic

/-!
# Procedures on a part of the state

A lens picks a part out of a state. A procedure over the part runs on the whole state and leaves
the rest alone; its rule takes a postcondition of the whole back to one of the part. Where nothing
is known of the procedure, every fault may come, and what it does not reach is all that is left to
say: `Stable` is the invariant rule for such procedures.
-/

namespace Effect

variable {σ τ ρ ε α β : Type}

structure Lens (σ τ : Type) where
  get : σ → τ
  set : τ → σ → σ
  get_set : ∀ t s, get (set t s) = t
  set_get : ∀ s, set (get s) s = s

/-- Runs `p` on the part. -/
def Proc.zoom (l : Lens σ τ) (p : Proc τ ρ ε α) : Proc σ ρ ε α := fun s ks =>
  ((p (l.get s) ks).1, l.set (p (l.get s) ks).2.1 s, (p (l.get s) ks).2.2)

section
variable [Inhabited ρ] {A : Regime ρ ε} {l : Lens σ τ} {Q : α → σ → Prop} {E : ε → σ → Prop}
  {C : σ → Prop} {I : σ → Prop} {s : σ} {p : Proc σ ρ ε α} {f : α → Proc σ ρ ε β}

theorem wp_zoom {p : Proc τ ρ ε α} (h : wp A p (fun a t => Q a (l.set t s))
    (fun e t => E e (l.set t s)) (fun t => C (l.set t s)) (l.get s)) : wp A (p.zoom l) Q E C s := by
  intro ks hks
  obtain ⟨hrest, hpost⟩ := h ks hks
  refine ⟨hrest, ?_⟩
  unfold Proc.zoom
  revert hpost
  cases (p (l.get s) ks).1 <;> exact id

/-- Under every fault a postcondition is one of each outcome. -/
theorem wp_any {p : Proc σ ρ ε α} (h : ∀ ks, (p s ks).1.Holds Q E C (p s ks).2.1) :
    wp Regime.any p Q E C s :=
  fun ks _ => ⟨any_script _, h ks⟩

/-- Every outcome of `p` has `I` if the start has it; nothing is asked of the rest of the script. -/
def Stable (I : σ → Prop) (p : Proc σ ρ ε α) : Prop :=
  ∀ s, I s → wp Regime.any p (fun _ => I) (fun _ => I) I s

theorem Preserves.stable (h : Preserves I p) : Stable I p := h Regime.any

theorem stable_of (h : ∀ s ks, I s → I (p s ks).2.1) : Stable I p := by
  intro s hs
  refine wp_any fun ks => ?_
  have hi := h s ks hs
  cases (p s ks).1 <;> exact hi

theorem stable_pure (a : α) : Stable I (pure a : Proc σ ρ ε α) := (preserves_pure a).stable

theorem stable_raise (e : ε) : Stable I (.raise e : Proc σ ρ ε α) := (preserves_raise e).stable

theorem stable_bind (hp : Stable I p) (hf : ∀ a, Stable I (f a)) : Stable I (p >>= f) :=
  fun s hs => wp_seq (hp s hs) fun a m => hf a m

theorem stable_handle {g : ε → Proc σ ρ ε α} (hp : Stable I p) (hg : ∀ e, Stable I (g e)) :
    Stable I (p.handle g) :=
  fun s hs => wp_try (hp s hs) fun e m => hg e m

theorem stable_when (b : Bool) {p : Proc σ ρ ε Unit} (hp : Stable I p) : Stable I (.when b p) :=
  fun s hs => wp_when (fun _ => hp s hs) fun _ => hs

/-- What a procedure on a part cannot reach. -/
theorem stable_zoom_frame {p : Proc τ ρ ε α} (h : ∀ s t, I s → I (l.set t s)) :
    Stable I (p.zoom l) :=
  stable_of fun s ks => h s (p (l.get s) ks).2.1

theorem stable_zoom {p : Proc τ ρ ε α} (h : ∀ s, Stable (fun t => I (l.set t s)) p) :
    Stable I (p.zoom l) := by
  intro s hs
  exact wp_zoom (h s (l.get s) (by simpa only [l.set_get] using hs))

end

end Effect
