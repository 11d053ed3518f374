import ExitLane.Control.Authority

/-!
# Lease safety

The invariant relates the authority to the events so far. The lock is held by the owner
and by nobody else, a borrowed operation that still runs belongs to the owner, and a
session in its final quiesce has no such operation left; so whoever gives the lock back
leaves nothing behind. Each step of the source keeps it: the steps are put together from
`goto`, `abandon`, `prune` and the events, and each of these has one lemma.
-/

namespace ExitLane.Control

open Effect

/-! ## What the authority promises -/

/-- What must have happened before an event: a grant comes after every earlier section has been
left, every borrowed operation has finished and every loss has been answered by a successful
quiesce, and never after the authority was poisoned; an acknowledgement comes after its section. -/
def Allowed (past : List Event) : Event → Prop
  | .granted _ =>
    (∀ t, .granted t ∈ past → .left t ∈ past) ∧
    (∀ i t, .began i t ∈ past → .finished i ∈ past) ∧
    (∀ t, .lost t ∈ past → After past (.lost t) (.quiesced t .ownerLost true)) ∧
    .poisoned ∉ past
  | .acknowledged s => .left s ∈ past
  | _ => True

/-- In the cleanup of `exclusive`, where `revoking` is set. -/
def Pc.outgoing : Pc → Bool
  | .losing _ _ | .leaving _ _ | .closing _ _ => true
  | _ => false

def Pc.isClosing : Pc → Bool
  | .closing _ _ => true
  | _ => false

/-- A loss that quiesce has not answered yet. -/
def Pc.unanswered : Pc → Bool
  | .losing (.draining _) _ | .losing .quiescing _ => true
  | _ => false

def Pc.released : Pc → Bool
  | .answering (.ok ()) => true
  | _ => false

/-- A loss of this session has been answered, or nobody is granted any more. -/
def Settled (st : State) (past : List Event) (s : SessionId) : Prop :=
  .lost s ∈ past → st.poisoned = true ∨ After past (.lost s) (.quiesced s .ownerLost true)

/-- The invariant of the authority along its runs. -/
structure Inv (st : State) (past : List Event) : Prop where
  inside : ∀ s, (st.session s).pc.inside = true → st.owner = some s
  owner : ∀ s, st.owner = some s → (st.session s).pc.inside = true
  lock : st.lock = st.owner
  live : ∀ i, (st.operation i).phase.live = true →
    st.owner = some (st.operation i).owner ∧ i ∈ st.subordinates
  revoking : ∀ s, (st.session s).pc.outgoing = true → st.revoking = true
  quiet : ∀ s, (st.session s).pc.isClosing = true → ∀ i, (st.operation i).phase.live = false
  poisoned : st.poisoned = true ↔ .poisoned ∈ past
  granted : ∀ s, .granted s ∈ past → (st.session s).pc.inside = true ∨ .left s ∈ past
  began : ∀ i s, .began i s ∈ past → (st.operation i).phase.live = true ∨ .finished i ∈ past
  lost : ∀ s, (st.session s).pc.unanswered = true ∨ Settled st past s
  released : ∀ s, (st.session s).pc.released = true → .left s ∈ past
  lawful : Lawful Allowed past

variable {st : State} {past : List Event} {s : SessionId} {pc : Pc} {i : OperationId}

@[simp] theorem State.goto_pc (st : State) (s t : SessionId) (pc : Pc) :
    ((st.goto s pc).session t).pc = if t = s then pc else (st.session t).pc := by
  by_cases h : t = s
  · subst h
    simp [State.goto]
  · simp [State.goto, h]

/-- A session walks on. Only the ends of its section need more than this. -/
theorem Inv.goto (h : Inv st past) (pc : Pc) (hin : pc.inside = (st.session s).pc.inside)
    (hrevoking : pc.outgoing = true → st.revoking = true)
    (hquiet : pc.isClosing = true → ∀ i, (st.operation i).phase.live = false)
    (hlost : (st.session s).pc.unanswered = true → pc.unanswered = true ∨ Settled st past s)
    (hreleased : pc.released = true → .left s ∈ past) : Inv (st.goto s pc) past where
  inside t ht := by
    rw [State.goto_pc] at ht
    split at ht
    · next hts => exact h.inside t (by rw [hts, ← hin]; exact ht)
    · exact h.inside t ht
  owner t ht := by
    rw [State.goto_pc]
    split
    · next hts => exact hin.trans (hts ▸ h.owner t ht)
    · exact h.owner t ht
  lock := h.lock
  live := h.live
  revoking t ht := by
    rw [State.goto_pc] at ht
    split at ht
    · exact hrevoking ht
    · exact h.revoking t ht
  quiet t ht := by
    rw [State.goto_pc] at ht
    split at ht
    · exact hquiet ht
    · exact h.quiet t ht
  poisoned := h.poisoned
  granted t ht := by
    rw [State.goto_pc]
    split
    · next hts =>
      rcases h.granted t ht with hi | hl
      · exact .inl (hin.trans (hts ▸ hi))
      · exact .inr hl
    · exact h.granted t ht
  began := h.began
  lost t := by
    rw [State.goto_pc]
    split
    · next hts =>
      subst hts
      rcases h.lost t with hu | hs
      · exact hlost hu
      · exact .inr hs
    · exact h.lost t
  released t ht := by
    rw [State.goto_pc] at ht
    split at ht
    · next hts => exact hts ▸ hreleased ht
    · exact h.released t ht
  lawful := h.lawful

theorem Settled.cons {e : Event} (h : Settled st past s) (he : e ≠ .lost s) :
    Settled st (e :: past) s := by
  intro hmem
  rcases List.mem_cons.mp hmem with heq | hmem
  · exact absurd heq.symm he
  · exact (h hmem).imp id fun ha => ha.cons e

section
variable (h : Inv st past)
include h

/-- An event that says nothing about grants, losses, operations or poison. -/
theorem Inv.emit {e : Event} (hgranted : ∀ t, e ≠ .granted t)
    (hbegan : ∀ i t, e ≠ .began i t) (hlost : ∀ t, e ≠ .lost t) (hpoisoned : e ≠ .poisoned)
    (hallowed : Allowed past e) : Inv st (e :: past) where
  inside := h.inside
  owner := h.owner
  lock := h.lock
  live := h.live
  revoking := h.revoking
  quiet := h.quiet
  poisoned := by
    rw [List.mem_cons, or_iff_right fun heq => hpoisoned heq.symm]
    exact h.poisoned
  granted t ht := by
    rw [List.mem_cons, or_iff_right fun heq => hgranted t heq.symm] at ht
    exact (h.granted t ht).imp id (List.mem_cons_of_mem e)
  began i t ht := by
    rw [List.mem_cons, or_iff_right fun heq => hbegan i t heq.symm] at ht
    exact (h.began i t ht).imp id (List.mem_cons_of_mem e)
  lost t := (h.lost t).imp id fun hs => hs.cons (hlost t)
  released t ht := List.mem_cons_of_mem e (h.released t ht)
  lawful := ⟨hallowed, h.lawful⟩

theorem Inv.revoke : Inv { st with revoking := true } past :=
  { h with revoking := fun _ _ => rfl }

theorem Inv.setCallback (running : Bool) : Inv (st.setCallback s running) past := by
  have hpc (t : SessionId) : ((st.setCallback s running).session t).pc = (st.session t).pc := by
    by_cases hts : t = s
    · subst hts
      simp [State.setCallback]
    · simp [State.setCallback, hts]
  constructor
  · exact fun t ht => h.inside t (hpc t ▸ ht)
  · exact fun t ht => (hpc t).symm ▸ h.owner t ht
  · exact h.lock
  · exact h.live
  · exact fun t ht => h.revoking t (hpc t ▸ ht)
  · exact fun t ht => h.quiet t (hpc t ▸ ht)
  · exact h.poisoned
  · exact fun t ht => (hpc t).symm ▸ h.granted t ht
  · exact h.began
  · exact fun t => (hpc t).symm ▸ h.lost t
  · exact fun t ht => h.released t (hpc t ▸ ht)
  · exact h.lawful

theorem Inv.prune : Inv st.prune past :=
  { h with
    live := by
      intro i hi
      obtain ⟨howner, hmem⟩ := h.live i hi
      refine ⟨howner, List.mem_filter.mpr ⟨hmem, ?_⟩⟩
      change (st.operation i).phase.live = true at hi
      revert hi
      cases (st.operation i).phase <;> decide }

theorem Inv.poison : Inv { st with poisoned := true } (.poisoned :: past) where
  inside := h.inside
  owner := h.owner
  lock := h.lock
  live := h.live
  revoking := h.revoking
  quiet := h.quiet
  poisoned := ⟨fun _ => List.mem_cons_self, fun _ => rfl⟩
  granted t ht := by
    rcases List.mem_cons.mp ht with heq | ht
    · cases heq
    · exact (h.granted t ht).imp id (List.mem_cons_of_mem _)
  began i t ht := by
    rcases List.mem_cons.mp ht with heq | ht
    · cases heq
    · exact (h.began i t ht).imp id (List.mem_cons_of_mem _)
  lost _ := .inr fun _ => .inl rfl
  released t ht := List.mem_cons_of_mem _ (h.released t ht)
  lawful := ⟨trivial, h.lawful⟩

theorem Inv.abandon (reason : Reason) (safe : Bool) :
    Inv (st.abandon s reason safe).1 ((st.abandon s reason safe).2 ++ past) := by
  have hq : Inv st (.quiesced s reason safe :: past) :=
    h.emit nofun nofun nofun nofun trivial
  cases safe with
  | true => exact hq
  | false => exact hq.poison

end

/-- A successful quiesce of a lost owner answers its loss; a failed one ends all grants. -/
theorem settled_abandon (safe : Bool) :
    Settled (st.abandon s .ownerLost safe).1 ((st.abandon s .ownerLost safe).2 ++ past) s := by
  cases safe with
  | true =>
    intro hmem
    rcases List.mem_cons.mp hmem with heq | hmem
    · cases heq
    · exact .inr (After.of_mem hmem _)
  | false => exact fun _ => .inl rfl

/-! ### The ends of a section -/

theorem Pc.inside_of_outgoing (h : pc.outgoing = true) : pc.inside = true := by
  cases pc <;> first | rfl | cases h

theorem Pc.inside_of_isClosing (h : pc.isClosing = true) : pc.inside = true := by
  cases pc <;> first | rfl | cases h

theorem Pc.inside_of_unanswered (h : pc.unanswered = true) : pc.inside = true := by
  cases pc <;> first | rfl | cases h

section
variable (h : Inv st past)
include h

/-- Nobody but the owner is inside. -/
theorem Inv.outside (hs : st.owner = some s) {t : SessionId} (hts : t ≠ s) :
    (st.session t).pc.inside = false := by
  cases ht : (st.session t).pc.inside with
  | false => rfl
  | true =>
    have := h.inside t ht
    rw [hs] at this
    exact absurd (Option.some.inj this).symm hts

theorem Inv.vacant (hs : st.owner = none) (t : SessionId) : (st.session t).pc.inside = false := by
  cases ht : (st.session t).pc.inside with
  | false => rfl
  | true =>
    have := h.inside t ht
    rw [hs] at this
    cases this

theorem Inv.lose (fault : Fault) (hin : (st.session s).pc.inside = true) :
    Inv (st.lose s fault).1 ((st.lose s fault).2 ++ past) := by
  have hg : Inv (st.lose s fault).1 past :=
    h.revoke.goto (.losing (.draining st.subordinates) fault) hin.symm (fun _ => rfl) nofun
      (fun _ => .inl rfl) nofun
  have hu : ((st.lose s fault).1.session s).pc.unanswered = true := by
    simp [State.lose, Pc.unanswered]
  exact
    { hg with
      poisoned := by
        change _ ↔ Event.poisoned ∈ Event.lost s :: past
        rw [List.mem_cons, or_iff_right nofun]
        exact hg.poisoned
      granted := by
        intro t ht
        rcases List.mem_cons.mp ht with heq | ht
        · cases heq
        · exact (hg.granted t ht).imp id (List.mem_cons_of_mem _)
      began := by
        intro i t ht
        rcases List.mem_cons.mp ht with heq | ht
        · cases heq
        · exact (hg.began i t ht).imp id (List.mem_cons_of_mem _)
      lost := by
        intro t
        by_cases hts : t = s
        · exact .inl (hts ▸ hu)
        · exact (hg.lost t).imp id fun hl =>
            hl.cons fun heq => hts (Event.lost.inj heq).symm
      released := fun t ht => List.mem_cons_of_mem _ (hg.released t ht)
      lawful := ⟨trivial, hg.lawful⟩ }

theorem Inv.leave (result : Result) (hin : (st.session s).pc.inside = true)
    (hanswered : (st.session s).pc.unanswered = false) : Inv (st.leave s result) past :=
  h.revoke.goto (.leaving st.subordinates result) hin.symm (fun _ => rfl) nofun
    (fun hu => by rw [hanswered] at hu; cases hu) nofun

/-- The lock is given back by a session without operations. -/
theorem Inv.unlock (result : Result) (hin : (st.session s).pc.inside = true)
    (hanswered : (st.session s).pc.unanswered = false)
    (hidle : ∀ i, (st.operation i).phase.live = false) :
    Inv (st.unlock s result).1 ((st.unlock s result).2 ++ past) := by
  have hs := h.inside s hin
  have hpc (t : SessionId) : ((st.unlock s result).1.session t).pc =
      if t = s then .answering result else (st.session t).pc := State.goto_pc _ _ _ _
  have hout (t : SessionId) : ((st.unlock s result).1.session t).pc.inside = false := by
    rw [hpc]
    split
    · rfl
    · next hts => exact h.outside hs hts
  constructor
  · intro t ht
    rw [hout] at ht
    cases ht
  · exact nofun
  · rfl
  · intro i hi
    rw [show ((st.unlock s result).1.operation i).phase.live = false from hidle i] at hi
    cases hi
  · intro t ht
    have := Pc.inside_of_outgoing ht
    rw [hout] at this
    cases this
  · exact fun _ _ => hidle
  · change _ ↔ Event.poisoned ∈ Event.left s :: past
    rw [List.mem_cons, or_iff_right nofun]
    exact h.poisoned
  · intro t ht
    rcases List.mem_cons.mp ht with heq | ht
    · cases heq
    · by_cases hts : t = s
      · exact .inr (hts ▸ List.mem_cons_self)
      · refine .inr (List.mem_cons_of_mem _ ((h.granted t ht).resolve_left fun hi => ?_))
        rw [h.outside hs hts] at hi
        cases hi
  · intro i t ht
    rcases List.mem_cons.mp ht with heq | ht
    · cases heq
    · exact (h.began i t ht).imp id (List.mem_cons_of_mem _)
  · intro t
    rw [hpc]
    split
    · next hts =>
      subst hts
      refine .inr (Settled.cons ((h.lost t).resolve_left fun hu => ?_) nofun)
      rw [hanswered] at hu
      cases hu
    · exact (h.lost t).imp id fun hl => Settled.cons hl nofun
  · intro t ht
    rw [hpc] at ht
    split at ht
    · next hts => exact hts ▸ List.mem_cons_self
    · exact List.mem_cons_of_mem _ (h.released t ht)
  · exact ⟨trivial, h.lawful⟩

/-- With the lock free, nothing of an earlier owner is left and the grant is allowed. -/
theorem Inv.allowed_granted (hs : st.owner = none)
    (hpoisoned : st.poisoned = false) (s : SessionId) : Allowed past (.granted s) := by
  refine ⟨fun t ht => ?_, fun i t ht => ?_, fun t ht => ?_, fun hp => ?_⟩
  · refine (h.granted t ht).resolve_left fun hi => ?_
    rw [h.vacant hs] at hi
    cases hi
  · refine (h.began i t ht).resolve_left fun hi => ?_
    have := (h.live i hi).1
    rw [hs] at this
    cases this
  · rcases h.lost t with hu | hl
    · have := Pc.inside_of_unanswered hu
      rw [h.vacant hs] at this
      cases this
    · refine (hl ht).resolve_left fun hp => ?_
      rw [hpoisoned] at hp
      cases hp
  · rw [h.poisoned.mpr hp] at hpoisoned
    cases hpoisoned

theorem Inv.grant (hpc : (st.session s).pc = .waiting) (hlock : st.lock = none) :
    Inv (st.grant s).1 ((st.grant s).2 ++ past) := by
  have hs : st.owner = none := h.lock.symm.trans hlock
  have hidle (i : OperationId) : (st.operation i).phase.live = false := by
    cases hi : (st.operation i).phase.live with
    | false => rfl
    | true =>
      have := (h.live i hi).1
      rw [hs] at this
      cases this
  cases hp : st.poisoned with
  | true =>
    simp only [State.grant, hp, if_true, List.nil_append]
    exact h.goto _ (by rw [hpc]; rfl) nofun nofun (by rw [hpc]; nofun) nofun
  | false =>
    obtain ⟨pc, hgrant, hin, hout, hreleased⟩ : ∃ pc : Pc,
        st.grant s = ((st.enter s).goto s pc, [.granted s]) ∧ pc.inside = true ∧
        pc.outgoing = false ∧ pc.released = false := by
      simp only [State.grant, hp]
      refine ⟨_, rfl, ?_⟩
      cases (st.session s).label <;> exact ⟨rfl, rfl, rfl⟩
    rw [hgrant]
    have hother (t : SessionId) : ((st.enter s).session t).pc.inside = false := h.vacant hs t
    constructor
    · intro t ht
      rw [State.goto_pc] at ht
      split at ht
      · next hts => rw [hts]; rfl
      · rw [hother] at ht
        cases ht
    · intro t ht
      obtain rfl : s = t := Option.some.inj ht
      rw [State.goto_pc, if_pos rfl]
      exact hin
    · rfl
    · intro i hi
      rw [show (((st.enter s).goto s pc).operation i).phase.live = false from hidle i] at hi
      cases hi
    · intro t ht
      rw [State.goto_pc] at ht
      split at ht
      · rw [hout] at ht
        cases ht
      · have := Pc.inside_of_outgoing ht
        rw [hother] at this
        cases this
    · exact fun _ _ => hidle
    · change _ ↔ Event.poisoned ∈ Event.granted s :: past
      rw [List.mem_cons, or_iff_right nofun]
      exact h.poisoned
    · intro t ht
      rw [State.goto_pc]
      rcases List.mem_cons.mp ht with heq | ht
      · rw [if_pos (Event.granted.inj heq)]
        exact .inl hin
      · exact .inr (List.mem_cons_of_mem _ ((h.allowed_granted hs hp s).1 t ht))
    · intro i t ht
      rcases List.mem_cons.mp ht with heq | ht
      · cases heq
      · exact (h.began i t ht).imp id (List.mem_cons_of_mem _)
    · intro t
      refine .inr fun hl => .inr ?_
      rcases List.mem_cons.mp hl with heq | hl
      · cases heq
      · exact ((h.allowed_granted hs hp s).2.2.1 t hl).cons _
    · intro t ht
      rw [State.goto_pc] at ht
      split at ht
      · rw [hreleased] at ht
        cases ht
      · exact List.mem_cons_of_mem _ (h.released t ht)
    · exact ⟨h.allowed_granted hs hp s, h.lawful⟩

end

/-! ### Borrowed operations -/

theorem State.setPhase_phase (st : State) (i j : OperationId) (phase : Phase) :
    ((st.setPhase i phase).operation j).phase =
      if j = i then phase else (st.operation j).phase := by
  by_cases h : j = i
  · subst h
    simp [State.setPhase]
  · simp [State.setPhase, h]

theorem State.setPhase_owner (st : State) (i j : OperationId) (phase : Phase) :
    ((st.setPhase i phase).operation j).owner = (st.operation j).owner := by
  by_cases h : j = i
  · subst h
    simp [State.setPhase]
  · simp [State.setPhase, h]

section
variable (h : Inv st past) {st' : State} {new : List Event}
include h

/-- An operation that is already live goes on, or ends. -/
theorem Inv.setPhase (phase : Phase) (hlive : (st.operation i).phase.live = true)
    (hfinished : phase.live = true ∨ .finished i ∈ past) : Inv (st.setPhase i phase) past :=
  { h with
    live := by
      intro j hj
      rw [State.setPhase_phase] at hj
      rw [State.setPhase_owner]
      split at hj
      · next hji => exact h.live j (hji ▸ hlive)
      · exact h.live j hj
    quiet := by
      intro t ht
      have := h.quiet t ht i
      rw [hlive] at this
      cases this
    began := by
      intro j t ht
      rw [State.setPhase_phase]
      split
      · next hji => exact hji ▸ hfinished
      · exact h.began j t ht }

theorem Inv.borrow (hs : st.owner = some s) (hrevoking : st.revoking = false) :
    Inv { st with
      subordinates := i :: st.subordinates
      operation := Function.update st.operation i ⟨s, .running⟩ } (.began i s :: past) where
  inside := h.inside
  owner := h.owner
  lock := h.lock
  live j hj := by
    by_cases hji : j = i
    · subst hji
      exact ⟨by simpa using hs, List.mem_cons_self⟩
    · simp only [Function.update_of_ne hji] at hj ⊢
      exact ⟨(h.live j hj).1, List.mem_cons_of_mem _ (h.live j hj).2⟩
  revoking := h.revoking
  quiet t ht := by
    have hout : (st.session t).pc.outgoing = true := by
      revert ht
      dsimp only
      cases (st.session t).pc <;> first | exact fun _ => rfl | nofun
    rw [h.revoking t hout] at hrevoking
    cases hrevoking
  poisoned := by
    rw [List.mem_cons, or_iff_right nofun]
    exact h.poisoned
  granted t ht := by
    rcases List.mem_cons.mp ht with heq | ht
    · cases heq
    · exact (h.granted t ht).imp id (List.mem_cons_of_mem _)
  began j t ht := by
    by_cases hji : j = i
    · subst hji
      exact .inl (by simp [Phase.live])
    · rcases List.mem_cons.mp ht with heq | ht
      · exact absurd (Event.began.inj heq).1 hji
      · simp only [Function.update_of_ne hji]
        exact (h.began j t ht).imp id (List.mem_cons_of_mem _)
  lost t := (h.lost t).imp id fun hl => Settled.cons hl nofun
  released t ht := List.mem_cons_of_mem _ (h.released t ht)
  lawful := ⟨trivial, h.lawful⟩

theorem Inv.discard (hi : (st.operation i).phase = .done) :
    Inv { st with subordinates := st.subordinates.erase i } past :=
  { h with
    live := by
      intro j hj
      refine ⟨(h.live j hj).1, (List.mem_erase_of_ne ?_).mpr (h.live j hj).2⟩
      rintro rfl
      change (st.operation j).phase.live = true at hj
      rw [hi] at hj
      cases hj }

/-! ### Every step keeps the invariant -/

theorem Inv.raiseIn {fault : Fault}
    (hstep : st.raiseIn s fault = some (st', new)) : Inv st' (new ++ past) := by
  unfold State.raiseIn at hstep
  split at hstep
  case h_5 hpc =>
    -- a callback is interrupted first; the supervisor's own body is lost at once
    split at hstep
    all_goals cases hstep
    · exact h.goto _ (by rw [hpc]; rfl) nofun nofun (by rw [hpc]; nofun) nofun
    · exact h.goto _ (by rw [hpc]; rfl) nofun nofun (by rw [hpc]; nofun) nofun
    · exact h.lose fault (by rw [hpc]; rfl)
    · exact h.lose fault (by rw [hpc]; rfl)
    · exact h.lose fault (by rw [hpc]; rfl)
  case h_6 => cases hstep
  all_goals
    next hpc =>
      cases hstep
      exact h.lose fault (by rw [hpc]; rfl)

/-- After a drain no borrowed operation is live. -/
theorem Inv.idle_of_drained (hempty : st.prune.subordinates.isEmpty = true)
    (i : OperationId) : (st.prune.operation i).phase.live = false := by
  cases hi : (st.prune.operation i).phase.live with
  | false => rfl
  | true =>
    have := (h.prune.live i hi).2
    rw [List.isEmpty_iff.mp hempty] at this
    cases this

theorem Inv.afterDrain (hstep : st.afterDrain s = some (st', new)) : Inv st' (new ++ past) := by
  unfold State.afterDrain at hstep
  split at hstep
  · next snapshot fault hpc =>
    have hrevoking : st.prune.revoking = true := h.revoking s (by rw [hpc]; rfl)
    split at hstep
    · dsimp only at hstep
      split at hstep
      all_goals
        cases hstep
        exact h.prune.goto _ (by rw [show st.prune.session s = st.session s from rfl, hpc]; rfl)
          (fun _ => hrevoking) nofun (fun _ => .inl rfl) nofun
    · cases hstep
  · next snapshot result hpc =>
    have hrevoking : st.prune.revoking = true := h.revoking s (by rw [hpc]; rfl)
    have hpc' : (st.prune.session s).pc = .leaving snapshot result := hpc
    split at hstep
    · dsimp only at hstep
      split at hstep
      · next hempty =>
        have hidle := h.idle_of_drained hempty
        split at hstep
        · cases hstep
          exact h.prune.goto _ (by rw [hpc']; rfl) (fun _ => hrevoking) (fun _ => hidle)
            (by rw [hpc']; nofun) nofun
        · cases hstep
          exact h.prune.unlock result (by rw [hpc']; rfl) (by rw [hpc']; rfl) hidle
      · cases hstep
        exact h.prune.goto _ (by rw [hpc']; rfl) (fun _ => hrevoking) nofun
          (by rw [hpc']; nofun) nofun
    · cases hstep
  · cases hstep

end

theorem State.abandon_session (st : State) (s : SessionId) (reason : Reason) (safe : Bool) :
    (st.abandon s reason safe).1.session = st.session := by
  cases safe <;> rfl

theorem State.abandon_operation (st : State) (s : SessionId) (reason : Reason) (safe : Bool) :
    (st.abandon s reason safe).1.operation = st.operation := by
  cases safe <;> rfl

theorem State.abandon_revoking (st : State) (s : SessionId) (reason : Reason) (safe : Bool) :
    (st.abandon s reason safe).1.revoking = st.revoking := by
  cases safe <;> rfl

theorem Inv.afterQuiesce (h : Inv st past) {safe : Bool}
    (hstep : st.afterQuiesce s safe = some (st', new)) : Inv st' (new ++ past) := by
  unfold State.afterQuiesce at hstep
  split at hstep
  · next fault hpc =>
    cases hstep
    refine (h.abandon .operationInterrupted safe).goto _ ?_ nofun nofun ?_ nofun
    · rw [State.abandon_session, hpc]
      rfl
    · rw [State.abandon_session, hpc]
      nofun
  · next fault hpc =>
    cases hstep
    refine (h.abandon .ownerLost safe).goto _ ?_ (fun _ => ?_) nofun
      (fun _ => .inr (settled_abandon safe)) nofun
    · rw [State.abandon_session, hpc]
      rfl
    · rw [State.abandon_revoking]
      exact h.revoking s (by rw [hpc]; rfl)
  · next result hpc =>
    cases hstep
    refine (h.abandon .operationInterrupted safe).goto _ ?_ (fun _ => ?_) (fun _ => ?_) ?_ nofun
    · rw [State.abandon_session, hpc]
      rfl
    · rw [State.abandon_revoking]
      exact h.revoking s (by rw [hpc]; rfl)
    · rw [State.abandon_operation]
      exact h.quiet s (by rw [hpc]; rfl)
    · rw [State.abandon_session, hpc]
      nofun
  · cases hstep

theorem Inv.afterCleanup (h : Inv st past) (hstep : st.afterCleanup s = some (st', new)) :
    Inv st' (new ++ past) := by
  unfold State.afterCleanup at hstep
  split at hstep
  · next safe fault hpc =>
    split at hstep
    · cases hstep
    · cases hstep
      exact h.goto _ (by rw [hpc]; rfl) nofun nofun (by rw [hpc]; nofun) nofun
  · next safe fault hpc =>
    cases hstep
    exact h.leave _ (by rw [hpc]; rfl) (by rw [hpc]; rfl)
  · next safe result hpc =>
    cases hstep
    exact h.unlock _ (by rw [hpc]; rfl) (by rw [hpc]; rfl) (h.quiet s (by rw [hpc]; rfl))
  · cases hstep

/-- A session that has not been granted walks among the pcs outside. -/
theorem Inv.stayOutside (h : Inv st past) (pc : Pc) (hout : (st.session s).pc.inside = false)
    (hin : pc.inside = false) (hreleased : pc.released = true → .left s ∈ past) :
    Inv (st.goto s pc) past := by
  refine h.goto pc (hin.trans hout.symm) (fun ho => ?_) (fun hc => ?_) (fun hu => ?_) hreleased
  · rw [Pc.inside_of_outgoing ho] at hin
    cases hin
  · rw [Pc.inside_of_isClosing hc] at hin
    cases hin
  · rw [Pc.inside_of_unanswered hu] at hout
    cases hout

theorem Inv.arrive (h : Inv st past) (label : Label) (hpc : (st.session s).pc = .fresh) :
    Inv { st with session := Function.update st.session s ⟨label, .waiting, false⟩ } past := by
  have hw := h.stayOutside (s := s) .waiting (by rw [hpc]; rfl) rfl nofun
  have heq (t : SessionId) : (Function.update st.session s ⟨label, .waiting, false⟩ t).pc =
      ((st.goto s .waiting).session t).pc := by
    rw [State.goto_pc]
    by_cases hts : t = s
    · subst hts
      simp
    · simp [hts]
  exact
    { hw with
      inside := fun t ht => hw.inside t (heq t ▸ ht)
      owner := fun t ht => (heq t).symm ▸ hw.owner t ht
      revoking := fun t ht => hw.revoking t (heq t ▸ ht)
      quiet := fun t ht => hw.quiet t (heq t ▸ ht)
      granted := fun t ht => (heq t).symm ▸ hw.granted t ht
      lost := fun t => (heq t).symm ▸ hw.lost t
      released := fun t ht => hw.released t (heq t ▸ ht) }

theorem Inv.step (h : Inv st past) {a : Action} (hstep : step st a = some (st', new)) :
    Inv st' (new ++ past) := by
  cases a with
  | arrive s label =>
    simp only [Control.step] at hstep
    split at hstep
    · next hpc => cases hstep; exact h.arrive label hpc
    · cases hstep
  | giveUp s =>
    simp only [Control.step] at hstep
    split at hstep
    · next hpc => cases hstep; exact h.stayOutside _ (by rw [hpc]; rfl) rfl nofun
    · cases hstep
  | take s =>
    simp only [Control.step] at hstep
    split at hstep
    · next hpc hlock =>
      have heq := Option.some.inj hstep
      have hgrant := h.grant hpc hlock
      rw [heq] at hgrant
      exact hgrant
    · cases hstep
  | wrote s =>
    simp only [Control.step] at hstep
    split at hstep
    · next hpc =>
      cases hstep
      exact h.goto _ (by rw [hpc]; rfl) nofun nofun (by rw [hpc]; nofun) nofun
    · cases hstep
  | finish s =>
    simp only [Control.step] at hstep
    split at hstep
    all_goals first
      | next hpc => cases hstep; exact h.leave _ (by rw [hpc]; rfl) (by rw [hpc]; rfl)
      | next hpc _ => cases hstep; exact h.leave _ (by rw [hpc]; rfl) (by rw [hpc]; rfl)
      | cases hstep
  | fail s fault => exact h.raiseIn hstep
  | cancel s =>
    simp only [Control.step] at hstep
    split at hstep
    · next hpc => cases hstep; exact h.stayOutside _ (by rw [hpc]; rfl) rfl nofun
    · next hpc => cases hstep; exact h.stayOutside _ (by rw [hpc]; rfl) rfl nofun
    · exact h.raiseIn hstep
  | dispatch s =>
    simp only [Control.step] at hstep
    split at hstep
    · next hpc =>
      cases hstep
      have hpc' : ((st.setCallback s true).session s).pc = .dispatching := by
        simpa [State.setCallback] using hpc
      exact (h.setCallback true).goto _ (by rw [hpc']; rfl) nofun nofun (by rw [hpc']; nofun) nofun
    · cases hstep
  | callbackDone s =>
    simp only [Control.step] at hstep
    split at hstep
    · cases hstep; exact h.setCallback false
    · cases hstep
  | collect s =>
    simp only [Control.step] at hstep
    split at hstep
    all_goals first
      | next hpc _ _ =>
        cases hstep
        exact h.goto _ (by rw [hpc]; rfl) nofun nofun (by rw [hpc]; nofun) nofun
      | cases hstep
  | settle s valid =>
    simp only [Control.step] at hstep
    split at hstep
    · next hpc =>
      split at hstep
      · cases hstep; exact h.leave _ (by rw [hpc]; rfl) (by rw [hpc]; rfl)
      · cases hstep; exact h.lose _ (by rw [hpc]; rfl)
    · next hpc => cases hstep; exact h.lose _ (by rw [hpc]; rfl)
    · cases hstep
  | drained s => exact h.afterDrain hstep
  | quiesced s safe => exact h.afterQuiesce hstep
  | resume s => exact h.afterCleanup hstep
  | answer s =>
    simp only [Control.step] at hstep
    split at hstep
    · next hpc _ => cases hstep; exact h.stayOutside _ (by rw [hpc]; rfl) rfl nofun
    · next hpc _ => cases hstep; exact h.stayOutside _ (by rw [hpc]; rfl) rfl nofun
    · next hpc _ _ =>
      cases hstep
      have hleft : .left s ∈ past := h.released s (by rw [hpc]; rfl)
      exact (h.stayOutside .ended (by rw [hpc]; rfl) rfl nofun).emit nofun nofun nofun nofun hleft
    · next hpc _ _ => cases hstep; exact h.stayOutside _ (by rw [hpc]; rfl) rfl nofun
    · cases hstep
  | borrow i =>
    simp only [Control.step] at hstep
    split at hstep
    · next s hs _ =>
      split at hstep
      · next hguard => cases hstep; exact h.borrow hs hguard.2.2
      · cases hstep
    · cases hstep
  | operationDone i =>
    simp only [Control.step] at hstep
    split at hstep
    · next hrunning =>
      cases hstep
      have hf : Inv st (.finished i :: past) := h.emit nofun nofun nofun nofun trivial
      exact hf.setPhase .done (by rw [hrunning]; rfl) (.inr List.mem_cons_self)
    · cases hstep
  | operationFailed i =>
    simp only [Control.step] at hstep
    split at hstep
    · next hrunning =>
      cases hstep
      have hr : Inv { st with revoking := true, subordinateFailed := true } past :=
        { h.revoke with }
      exact hr.setPhase .cleaning (by rw [hrunning]; rfl) (.inl rfl)
    · cases hstep
  | operationQuiesced i safe =>
    simp only [Control.step] at hstep
    split at hstep
    · next hcleaning =>
      cases hstep
      have ha := h.abandon (s := (st.operation i).owner) .operationInterrupted safe
      have hf := ha.emit (e := .finished i) nofun nofun nofun nofun trivial
      exact hf.setPhase .done (by rw [State.abandon_operation, hcleaning]; rfl)
        (.inr List.mem_cons_self)
    · cases hstep
  | discard i =>
    simp only [Control.step] at hstep
    split at hstep
    · next hdone => cases hstep; exact h.discard hdone
    · cases hstep
  | requireRecovery =>
    cases hstep
    exact h.poison

theorem inv_initial : Inv initial [] where
  inside := nofun
  owner := nofun
  lock := rfl
  live := nofun
  revoking := nofun
  quiet := nofun
  poisoned := ⟨nofun, nofun⟩
  granted := nofun
  began := nofun
  lost _ := .inr nofun
  released := nofun
  lawful := trivial

theorem inv_run (h : authority.Run st past) : Inv st past :=
  h.invariant inv_initial fun hi hstep => hi.step hstep

/-- In every interleaving at most one session is inside the exclusive section, it is the owner, and
every grant and every acknowledgement comes after what `Allowed` asks for it. -/
theorem lease_safe (h : authority.Run st past) :
    (∀ s t, (st.session s).pc.inside = true → (st.session t).pc.inside = true → s = t) ∧
    (∀ s, st.owner = some s ↔ (st.session s).pc.inside = true) ∧
    (st.poisoned = true ↔ .poisoned ∈ past) ∧ Lawful Allowed past := by
  have hi := inv_run h
  refine ⟨fun s t hs ht => ?_, fun s => ⟨hi.owner s, hi.inside s⟩, hi.poisoned, hi.lawful⟩
  have := hi.inside s hs
  rw [hi.inside t ht] at this
  exact (Option.some.inj this).symm

/-- Two clients: the first borrows an operation and loses its connection, the second waits and
gets the lease when the operation has finished and quiesce has succeeded. -/
def handover : List Action :=
  [.arrive 0 .acquire, .take 0, .wrote 0, .borrow 7, .arrive 1 .acquire,
    .fail 0 (.control .connectionFailed), .operationDone 7, .drained 0, .quiesced 0 true, .resume 0,
    .drained 0, .answer 0, .take 1, .wrote 1, .finish 1, .drained 1, .answer 1]

theorem lease_safe_handover : ∃ st past, authority.drive handover initial [] = some (st, past) ∧
    past = [.acknowledged 1, .left 1, .granted 1, .left 0, .quiesced 0 .ownerLost true, .finished 7,
      .lost 0, .began 7 0, .granted 0] ∧ Lawful Allowed past :=
  ⟨_, _, rfl, rfl, (lease_safe (Machine.Run.drive .start
    (show authority.drive handover initial [] = _ from rfl))).2.2.2⟩

end ExitLane.Control
