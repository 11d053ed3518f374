import ExitLane.Recovery.Coordinator
import Mathlib.Data.List.Basic

/-!
# What the file procedures do

One specification for each procedure that builds or publishes a tree. The
statements are relative to a regime whose faults are absorbed, so the same lemma
serves when every fault is possible and nothing is asked of a failed run, and
when there are none and the run must not be refused (`Passes`).
-/

namespace ExitLane.Recovery
open Python Effect

/-! ## Directories -/

namespace Dir

variable {d : Dir} {name : Text} {f g : File}

theorem ext_entries {d e : Dir} (h : d.entries = e.entries) : d = e := by
  cases d
  cases e
  simpa using h

theorem mem_names_iff : name ∈ d.entries.map Prod.fst ↔ (d.get name).isSome = true := by
  rw [get, List.lookup_isSome_iff]
  simp

theorem mem_of_get (h : d.get name = some f) : (name, f) ∈ d.entries := by
  rw [get, List.lookup_eq_some_iff] at h
  obtain ⟨l1, l2, he, -⟩ := h
  simp [he]

theorem get_eq_of_mem (h : (name, f) ∈ d.entries) : d.get name = some f := by
  have hsome := mem_names_iff.mp (List.mem_map_of_mem (f := Prod.fst) h)
  obtain ⟨g, hg⟩ := Option.isSome_iff_exists.mp hsome
  have := List.inj_on_of_nodup_map d.nodup (mem_of_get hg) h rfl
  rw [hg]
  exact congrArg (fun e => some e.2) this

theorem put_entries (h : name ∉ d.entries.map Prod.fst) :
    (d.put name f).entries = d.entries ++ [(name, f)] := by
  rw [put, dif_neg h]

theorem put_entries_of_mem (h : name ∈ d.entries.map Prod.fst) :
    (d.put name f).entries = d.entries.map fun e => if e.1 = name then (name, f) else e := by
  rw [put, dif_pos h]

theorem put_put : (d.put name f).put name g = d.put name g := by
  apply ext_entries
  by_cases h : name ∈ d.entries.map Prod.fst
  · have h' : name ∈ (d.put name f).entries.map Prod.fst := by
      rw [put_entries_of_mem h]
      obtain ⟨e, he, rfl⟩ := List.mem_map.mp h
      exact List.mem_map.mpr ⟨_, List.mem_map.mpr ⟨e, he, rfl⟩, by simp⟩
    rw [put_entries_of_mem h', put_entries_of_mem h, put_entries_of_mem h, List.map_map]
    apply List.map_congr_left
    intro e _
    by_cases he : e.1 = name <;> simp [he]
  · have h' : name ∈ (d.put name f).entries.map Prod.fst := by
      rw [put_entries h]
      simp
    have hkeep : (d.entries.map fun e => if e.1 = name then (name, g) else e) = d.entries := by
      conv_rhs => rw [← List.map_id d.entries]
      apply List.map_congr_left
      intro e he
      rw [if_neg, id]
      rintro rfl
      exact h (List.mem_map_of_mem he)
    rw [put_entries_of_mem h', put_entries h, put_entries h, List.map_append, hkeep,
      List.map_singleton, if_pos rfl]

theorem erase_names {rest : List Text} (h : d.entries.map Prod.fst = name :: rest) :
    (d.erase name).entries.map Prod.fst = rest := by
  have hnd : (name :: rest).Nodup := h ▸ d.nodup
  have hfilter : (d.erase name).entries.map Prod.fst =
      (d.entries.map Prod.fst).filter fun n => n ≠ name := by
    rw [erase, List.filter_map]
    rfl
  rw [hfilter, h, List.filter_cons_of_neg (by simp), List.filter_eq_self]
  intro n hn
  have : n ≠ name := fun he => (List.nodup_cons.mp hnd).1 (he ▸ hn)
  simpa using this

end Dir

/-- The copy that `_copy_file` makes of an entry. -/
def copyOf (d : Dir) (name : Text) : Text × File :=
  (name, ⟨((d.contents name).getD []), privateMode⟩)

theorem lookup_map_copyOf (d : Dir) (names : List Text) (name : Text) :
    (names.map (copyOf d)).lookup name = if name ∈ names then some (copyOf d name).2 else none := by
  induction names with
  | nil => rfl
  | cons n names ih =>
    rw [List.map_cons, show copyOf d n = (n, (copyOf d n).2) from rfl, List.lookup_cons]
    by_cases hn : name = n
    · subst hn
      simp
    · simp [beq_false_of_ne hn, hn, ih]

/-- A directory that holds a copy of every entry has the same contents. -/
theorem contents_eq_of_copies {d e : Dir} {names : List Text}
    (hnames : ∀ n, n ∈ names ↔ n ∈ d.entries.map Prod.fst) (he : e.entries = names.map (copyOf d)) :
    e.contents = d.contents := by
  funext n
  rw [Dir.contents, Dir.get, he, lookup_map_copyOf]
  cases hd : d.get n with
  | none =>
    have : n ∉ names := by simp [hnames, Dir.mem_names_iff, hd]
    simp [this, Dir.contents, hd]
  | some f =>
    have : n ∈ names := by simp [hnames, Dir.mem_names_iff, hd]
    simp [this, Dir.contents, hd, copyOf]

/-- Private copies of the entries of `d`, in some order. -/
def IsCopy (d e : Dir) : Prop :=
  ∃ names : List Text, names.Perm (d.entries.map Prod.fst) ∧ e.entries = names.map (copyOf d)

namespace IsCopy

variable {d e : Dir}

theorem contents (h : IsCopy d e) : e.contents = d.contents := by
  obtain ⟨names, hperm, he⟩ := h
  exact contents_eq_of_copies (fun n => hperm.mem_iff) he

theorem mem (h : IsCopy d e) {x : Text × File} (hx : x ∈ e.entries) :
    x.2.isPrivate = true ∧ ∃ f, (x.1, f) ∈ d.entries ∧ x.2.bytes = f.bytes := by
  obtain ⟨names, hperm, he⟩ := h
  rw [he] at hx
  obtain ⟨n, hn, rfl⟩ := List.mem_map.mp hx
  have hsome := Dir.mem_names_iff.mp (hperm.mem_iff.mp hn)
  obtain ⟨f, hf⟩ := Option.isSome_iff_exists.mp hsome
  refine ⟨isPrivate_privateMode _, f, Dir.mem_of_get hf, ?_⟩
  simp [copyOf, Dir.contents, hf]

theorem isWireguard (h : IsCopy d e) (hd : d.IsWireguard) : e.IsWireguard where
  count := by
    obtain ⟨names, hperm, he⟩ := h
    rw [he, List.length_map, hperm.length_eq, List.length_map]
    exact hd.count
  isPrivate x hx := (h.mem hx).1
  size x hx := by
    obtain ⟨-, f, hf, hbytes⟩ := h.mem hx
    rw [hbytes]
    exact hd.size _ hf

theorem isEgress (h : IsCopy d e) (hd : d.IsEgress) : e.IsEgress := by
  intro x hx
  obtain ⟨hp, f, hf, -⟩ := h.mem hx
  exact ⟨(hd _ hf).1, hp⟩

end IsCopy

/-! ## Layouts and places -/

namespace Layout

variable (l : Layout) (c : Component) (d : Sub) (name : Text) (f g : Option File)

@[simp] theorem set_file_files : (l.set (.file c) f).files = Function.update l.files c f := rfl
@[simp] theorem set_file_dirs : (l.set (.file c) f).dirs = l.dirs := rfl
@[simp] theorem set_file_folders : (l.set (.file c) f).folders = l.folders := rfl
@[simp] theorem set_entry_dirs : (l.set (.entry d name) f).dirs =
    Function.update l.dirs d ((l.dirs d).map fun e => e.set name f) := rfl
@[simp] theorem mkDir_dirs : (l.mkDir d).dirs = Function.update l.dirs d (some .empty) := rfl

/-- The layout with one directory replaced. -/
def withDir (d : Sub) (e : Dir) (l : Layout) : Layout :=
  { l with dirs := Function.update l.dirs d (some e) }

theorem withDir_comp (e e' : Dir) : withDir d e' ∘ withDir d e = withDir d e' := by
  funext l
  simp [withDir]

theorem set_entry_withDir (e : Dir) (f : File) :
    (l.withDir d e).set (.entry d name) (some f) = l.withDir d (e.put name f) := by
  simp [set, withDir, Dir.set]

theorem erase_entry_withDir (e : Dir) :
    (l.withDir d e).set (.entry d name) none = l.withDir d (e.erase name) := by
  simp [set, withDir, Dir.set]

theorem withDir_eq_self {l : Layout} {d : Sub} {e : Dir} (h : l.dirs d = some e) :
    l.withDir d e = l := by
  rw [withDir, ← h, Function.update_eq_self]

theorem set_set (slot : Slot) (f g : File) :
    (l.set slot (some f)).set slot (some g) = l.set slot (some g) := by
  cases slot with
  | file c => simp [set]
  | entry d name =>
    simp only [set, Function.update_self, Function.update_idem, Option.map_map]
    congr 2
    cases l.dirs d with
    | none => rfl
    | some e => simp [Dir.set, Dir.put_put]

end Layout

namespace Machine

variable (m : Machine)

@[simp] theorem layout_live : m.layout .live = some m.live := rfl

@[simp] theorem set_live (slot : Slot) (f : Option File) :
    m.set ⟨.live, slot⟩ f = { m with live := m.live.set slot f } := rfl

@[simp] theorem get_live (slot : Slot) : m.get ⟨.live, slot⟩ = m.live.get slot := rfl

variable (place : Place) (l : Option Layout)

@[simp] theorem setLayout_journal :
    (m.setLayout place l).journal = m.journal := by cases place <;> rfl
@[simp] theorem setLayout_journalled : (m.setLayout place l).journalled = m.journalled := by
  cases place <;> rfl
@[simp] theorem setLayout_trace : (m.setLayout place l).trace = m.trace := by cases place <;> rfl

@[simp] theorem setLayout_txn_isSome : (m.setLayout place l).txn.isSome = m.txn.isSome := by
  cases place <;> simp [setLayout]

variable {m place l}

theorem setLayout_live (h : place ≠ .live) : (m.setLayout place l).live = m.live := by
  cases place with
  | live => exact absurd rfl h
  | archive | candidate | previous => rfl

theorem layout_setLayout (h : place ≠ .live) (ht : m.txn.isSome = true) :
    (m.setLayout place l).layout place = l := by
  obtain ⟨t, ht⟩ := Option.isSome_iff_exists.mp ht
  cases place with
  | live => exact absurd rfl h
  | archive | candidate | previous => simp [setLayout, layout, ht]

theorem layout_setLayout_ne {place' : Place} (h : place' ≠ place) :
    (m.setLayout place l).layout place' = m.layout place' := by
  cases place <;> cases place' <;> first
    | exact absurd rfl h
    | (cases ht : m.txn <;> simp [setLayout, layout, ht])

theorem setLayout_setLayout (h : place ≠ .live) {l' : Option Layout} :
    (m.setLayout place l).setLayout place l' = m.setLayout place l' := by
  cases place with
  | live => exact absurd rfl h
  | archive | candidate | previous => cases ht : m.txn <;> simp [setLayout, ht]

theorem onLayout_setLayout (h : place ≠ .live) (ht : m.txn.isSome = true) {l : Layout}
    {f : Layout → Layout} :
    (m.setLayout place (some l)).onLayout place f = m.setLayout place (some (f l)) := by
  rw [onLayout, layout_setLayout h ht, setLayout_setLayout h]
  rfl

/-- The trees of the transaction are in its directory. -/
theorem layout_congr {m' : Machine} (h : place ≠ .live) (ht : m'.txn = m.txn) :
    m'.layout place = m.layout place := by
  cases place with
  | live => exact absurd rfl h
  | archive | candidate | previous => simp [layout, ht]

theorem layout_isSome_txn (place : Place) (hl : place ≠ .live)
    (h : (m.layout place).isSome = true) : m.txn.isSome = true := by
  cases place with
  | live => exact absurd rfl hl
  | archive | candidate | previous => cases ht : m.txn <;> simp [layout, ht] at h ⊢

theorem onLayout_onLayout (f g : Layout → Layout) :
    (m.onLayout place f).onLayout place g = m.onLayout place (g ∘ f) := by
  cases place with
  | live => rfl
  | archive | candidate | previous =>
    cases ht : m.txn <;> simp [onLayout, setLayout, layout, ht, Function.comp_def]

theorem set_set (p : Path) (f g : File) : (m.set p (some f)).set p (some g) = m.set p (some g) := by
  rw [set, set, onLayout_onLayout, set]
  congr 1
  funext l
  exact l.set_set p.slot f g

/-- A change of one tree, seen in that tree. -/
theorem layout_onLayout (f : Layout → Layout) : (m.onLayout place f).layout place =
    (m.layout place).map f := by
  cases place with
  | live => rfl
  | archive | candidate | previous => cases ht : m.txn <;> simp [onLayout, setLayout, layout, ht]

theorem onLayout_eq_self {f : Layout → Layout} (h : ∀ l, m.layout place = some l → f l = l) :
    m.onLayout place f = m := by
  have hmap : (m.layout place).map f = m.layout place := by
    cases hl : m.layout place with
    | none => rfl
    | some l => rw [Option.map_some, h l hl]
  rw [onLayout, hmap]
  cases place with
  | live => rfl
  | archive | candidate | previous =>
    cases m with
    | mk live txn journal journalNew worker journalled trace =>
      cases txn <;> rfl

theorem layout_onLayout_ne {place' : Place} (f : Layout → Layout) (h : place' ≠ place) :
    (m.onLayout place f).layout place' = m.layout place' :=
  layout_setLayout_ne h

end Machine

/-! ## Copies -/

variable {destination : Place}

section
variable {A : Regime Reply Code} {E : Code → Machine → Prop} {C : Machine → Prop} {m : Machine}
  {Q : Unit → Machine → Prop} {w : Platform} {st : State} {inventory : StateInventory}

/-- Either a refusal cannot happen because `P` holds, or nothing is asked of it. -/
def Passes (E : Code → Machine → Prop) (P : Prop) : Prop := P ∨ ∀ e m, E e m

theorem Passes.refuse {P : Prop} (h : Passes E P) (hP : ¬ P) (e : Code) (m : Machine) : E e m :=
  h.elim (fun hp => absurd hp hP) fun hall => hall e m

theorem Passes.mono {P P' : Prop} (h : Passes E P) (hP : P → P') : Passes E P' := h.imp_left hP

section
variable (h : Absorbs A E C) {place source : Place}
include h

theorem wp_sync (hq : Q () m) : wp A sync Q E C m :=
  h.check (fun _ _ => hq) fun e he => by cases he

theorem wp_leased (hq : Q () m) : wp A leased Q E C m :=
  h.check (fun _ _ => hq) fun e he => by cases he

theorem wp_create {exists_ : Machine → Bool} {make : Machine → Machine}
    (hpass : Passes E (exists_ m = false)) (hq : exists_ m = false → Q () (make m)) :
    wp A (create exists_ make) Q E C m := by
  refine h.prim fun r _ => ?_
  cases he : exists_ m with
  | true => exact hpass.refuse (by simp [he]) _ _
  | false => exact hq he

theorem wp_checkPrivate {p : Path}
    (hpass : Passes E (∃ f, m.get p = some f ∧ f.isPrivate = true))
    (hq : ∀ f, m.get p = some f → f.isPrivate = true → Q () m) : wp A (checkPrivate p) Q E C m := by
  refine h.check (fun _ hok => ?_) fun e he => ?_
  · split at hok
    · cases hok
    · next f hf =>
      split at hok
      · next hp => exact hq f hf hp
      · cases hok
  · refine hpass.refuse ?_ e m
    rintro ⟨f, hf, hp⟩
    simp [hf, hp] at he

/-- `_copy_file` leaves a private file with the same bytes. -/
theorem wp_copyFile {source destination : Path}
    (hpass : Passes E ((∃ f, m.get source = some f ∧ f.isPrivate = true) ∧
      m.get destination = none)) :
    wp A (copyFile source destination)
      (fun _ m' => ∃ f, m.get source = some f ∧ m.get destination = none ∧
        m' = m.set destination (some ⟨f.bytes, privateMode⟩)) E C m := by
  refine wp_seq (R := fun _ m' => m' = m ∧ (m.get source).isSome = true)
    (wp_checkPrivate h (hpass.mono And.left) fun f hf _ => ⟨rfl, by rw [hf]; rfl⟩) ?_
  rintro _ m ⟨rfl, hsome⟩
  obtain ⟨f, hf⟩ := Option.isSome_iff_exists.mp hsome
  refine wp_seq (R := fun bytes m' => m' = m ∧ bytes = f.bytes) (h.check ?_ ?_) ?_
  · intro bytes hok
    simp only [hf, Except.ok.injEq] at hok
    exact ⟨rfl, hok.symm⟩
  · intro e he
    simp [hf] at he
  rintro bytes m ⟨rfl, rfl⟩
  refine wp_seq (R := fun _ m' => m.get destination = none ∧
    m' = m.set destination (some ⟨[], privateMode⟩)) (wp_create h ?_ ?_) ?_
  · exact hpass.mono fun hp => by simp [hp.2]
  · intro hnone
    exact ⟨by simpa using hnone, rfl⟩
  rintro _ _ ⟨hnone, rfl⟩
  exact h.effect ⟨f, hf, hnone, Machine.set_set ..⟩

/-- The listing of a directory that is there. -/
theorem wp_listDir {d : Sub}
    (hpass : Passes E ((m.layout place).bind fun l => l.dirs d).isSome) :
    wp A (listDir place d) (fun names m' => m' = m ∧ ∃ e,
      ((m.layout place).bind fun l => l.dirs d) = some e ∧ names = e.entries.map Prod.fst)
      E C m := by
  refine h.check (fun names hok => ?_) fun e he => ?_
  · split at hok
    · cases hok
    · next e hd =>
      cases hok
      exact ⟨rfl, e, hd, rfl⟩
  · refine hpass.refuse (fun hsome => ?_) e m
    obtain ⟨d', hd⟩ := Option.isSome_iff_exists.mp hsome
    simp only [hd] at he
    cases he

/-- The loop that copies listed files into an empty directory. -/
theorem wp_copyEntries {d : Sub} {e : Dir}
    (hne : source ≠ destination) (hsource : ((m.layout source).bind fun l => l.dirs d) = some e)
    (hempty : ∀ l, m.layout destination = some l → l.dirs d = some .empty)
    (hsome : (m.layout destination).isSome = true) (names : List Text)
    (hpass : Passes E (names.Nodup ∧ ∀ n ∈ names, ∃ f, e.get n = some f ∧ f.isPrivate = true)) :
    wp A (names.forM fun name => copyFile ⟨source, .entry d name⟩ ⟨destination, .entry d name⟩)
      (fun _ m' => ∃ e', m' = m.onLayout destination (Layout.withDir d e') ∧
        e'.entries = names.map (copyOf e)) E C m := by
  -- the loop invariant: the copied names are in the directory, in order
  let J (rest : List Text) (m' : Machine) : Prop := ∃ copied e', names = copied ++ rest ∧
    m' = m.onLayout destination (Layout.withDir d e') ∧ e'.entries = copied.map (copyOf e)
  have hstart : J names m := by
    refine ⟨[], .empty, rfl, (Machine.onLayout_eq_self fun l hl => ?_).symm, rfl⟩
    exact Layout.withDir_eq_self (hempty l hl)
  obtain ⟨l, hl⟩ := Option.isSome_iff_exists.mp hsome
  refine wp_post (wp_forM J ?_ names hstart) ?_
  · rintro n rest _ ⟨copied, e', hnames, rfl, he'⟩
    have hget : (m.onLayout destination (Layout.withDir d e')).get ⟨source, .entry d n⟩ =
        e.get n := by
      rw [Machine.get, Machine.layout_onLayout_ne _ hne]
      cases hs : m.layout source with
      | none => simp [hs] at hsource
      | some ls =>
        simp only [hs, Option.bind_some] at hsource ⊢
        simp [Layout.get, hsource]
    have htarget : (m.onLayout destination (Layout.withDir d e')).get ⟨destination, .entry d n⟩ =
        e'.get n := by
      rw [Machine.get, Machine.layout_onLayout, hl]
      simp [Layout.get, Layout.withDir]
    refine wp_post (wp_copyFile h ?_) ?_
    · refine hpass.mono fun ⟨hnd, hall⟩ => ⟨?_, ?_⟩
      · rw [hget]
        exact hall n (by simp [hnames])
      · rw [htarget, ← Option.not_isSome_iff_eq_none, ← Dir.mem_names_iff, he']
        have hn : n ∉ copied := by
          rw [hnames, List.nodup_append] at hnd
          exact fun hn => hnd.2.2 n hn n List.mem_cons_self rfl
        simpa [copyOf, List.mem_map] using hn
    · rintro - m' ⟨f, hf, hnone, rfl⟩
      rw [hget] at hf
      rw [htarget] at hnone
      refine ⟨copied ++ [n], e'.put n ⟨f.bytes, privateMode⟩, by simp [hnames], ?_, ?_⟩
      · rw [Machine.set, Machine.onLayout_onLayout]
        congr 1
        funext l
        exact l.set_entry_withDir d n e' _
      · have hn : n ∉ e'.entries.map Prod.fst := by
          rw [Dir.mem_names_iff, hnone]
          simp
        rw [Dir.put_entries hn, he', List.map_append]
        simp [copyOf, Dir.contents, hf]
  · rintro - m' ⟨copied, e', hnames, rfl, he'⟩
    rw [List.append_nil] at hnames
    exact ⟨e', rfl, hnames ▸ he'⟩

/-- `_copy_directory`. -/
theorem wp_copyDirectory {d : Sub}
    (hne : source ≠ destination) (hsome : (m.layout destination).isSome = true)
    (hpass : Passes E (∃ e, ((m.layout source).bind fun l => l.dirs d) = some e ∧
      ((m.layout destination).bind fun l => l.dirs d) = none ∧ e.entries.length ≤ 256 ∧
      ∀ x ∈ e.entries, x.2.isPrivate = true)) :
    wp A (copyDirectory source destination d)
      (fun _ m' => ∃ e e', ((m.layout source).bind fun l => l.dirs d) = some e ∧ IsCopy e e' ∧
        m' = m.onLayout destination (Layout.withDir d e')) E C m := by
  refine wp_seq (wp_listDir h (hpass.mono fun ⟨e, he, _⟩ => by simp [he])) ?_
  rintro names m ⟨rfl, e, he, rfl⟩
  refine wp_seq_eq (t := m.onLayout destination (·.mkDir d))
    (wp_create h (hpass.mono fun ⟨_, _, hnone, _⟩ => by simp [hnone]) fun _ => rfl) fun _ => ?_
  refine wp_seq_eq (t := m.onLayout destination (·.mkDir d))
    (wp_demand (fun _ => rfl) fun hfalse => ?_) fun _ => ?_
  · refine hpass.refuse ?_ _ _
    rintro ⟨e', he', -, hcount, -⟩
    rw [he] at he'
    cases he'
    simp only [List.length_map, decide_eq_false_iff_not] at hfalse
    exact hfalse hcount
  obtain ⟨l, hl⟩ := Option.isSome_iff_exists.mp hsome
  have hperm : ((e.entries.map Prod.fst).insertionSort (· ≤ ·)).Perm
      (e.entries.map Prod.fst) := List.perm_insertionSort ..
  refine wp_seq (wp_copyEntries h hne (e := e) ?_ ?_ ?_ _ ?_) ?_
  · rw [Machine.layout_onLayout_ne _ hne]
    exact he
  · intro l' hl'
    rw [Machine.layout_onLayout, hl] at hl'
    cases hl'
    simp
  · rw [Machine.layout_onLayout, hl]
    rfl
  · refine hpass.mono fun ⟨e', he', _, _, hprivate⟩ => ⟨hperm.nodup_iff.mpr e.nodup, fun n hn => ?_⟩
    rw [he] at he'
    cases he'
    obtain ⟨f, hf⟩ := Option.isSome_iff_exists.mp (Dir.mem_names_iff.mp (hperm.mem_iff.mp hn))
    exact ⟨f, hf, hprivate _ (Dir.mem_of_get hf)⟩
  rintro - _ ⟨e', rfl, he'⟩
  refine wp_sync h ⟨e, e', he, ⟨_, hperm, he'⟩, ?_⟩
  rw [Machine.onLayout_onLayout]
  congr 1
  exact Layout.withDir_comp d .empty e'

/-! ## Publication -/

/-- The loop that empties a live directory. -/
theorem wp_emptyDir {d : Sub} {e : Dir} (he : m.live.dirs d = some e)
    (hpass : Passes E (∀ x ∈ e.entries, x.2.isPrivate = true)) :
    wp A ((e.entries.map Prod.fst).forM fun name => do
        checkPrivate ⟨.live, .entry d name⟩
        unlink ⟨.live, .entry d name⟩)
      (fun _ m' => m' = m.onLayout .live (Layout.withDir d .empty)) E C m := by
  let J (rest : List Text) (m' : Machine) : Prop :=
    ∃ e', m' = m.onLayout .live (Layout.withDir d e') ∧
      e'.entries.map Prod.fst = rest ∧ ∀ x ∈ e'.entries, x ∈ e.entries
  have hstart : J (e.entries.map Prod.fst) m := by
    refine ⟨e, (Machine.onLayout_eq_self fun l hl => ?_).symm, rfl, fun _ => id⟩
    cases hl
    exact Layout.withDir_eq_self he
  refine wp_post (wp_forM J ?_ _ hstart) ?_
  · rintro n rest _ ⟨e', rfl, hnames, hsub⟩
    have hget : (m.onLayout .live (Layout.withDir d e')).get ⟨.live, .entry d n⟩ = e'.get n := by
      rw [Machine.get, Machine.layout_onLayout]
      simp [Layout.get, Layout.withDir]
    refine wp_seq_eq (t := m.onLayout .live (Layout.withDir d e'))
      (wp_checkPrivate h ?_ fun _ _ _ => rfl) fun _ => ?_
    · refine hpass.mono fun hall => ?_
      obtain ⟨f, hf⟩ := Option.isSome_iff_exists.mp
        (Dir.mem_names_iff.mp (show n ∈ e'.entries.map Prod.fst by simp [hnames]))
      exact ⟨f, by rw [hget, hf], hall _ (hsub _ (Dir.mem_of_get hf))⟩
    refine h.atomic ⟨e'.erase n, ?_, Dir.erase_names hnames, fun x hx =>
      hsub x (List.mem_filter.mp hx).1⟩
    rw [Machine.set, Machine.onLayout_onLayout]
    congr 1
    funext l
    exact l.erase_entry_withDir d n e'
  · rintro - _ ⟨e', rfl, hnames, -⟩
    rw [List.map_eq_nil_iff] at hnames
    rw [show e' = .empty from Dir.ext_entries hnames]

theorem wp_publishDir {d : Sub} (hne : source ≠ .live)
    (hpass : Passes E ((∃ e, m.live.dirs d = some e ∧ ∀ x ∈ e.entries, x.2.isPrivate = true) ∧
      ∃ e, ((m.layout source).bind fun l => l.dirs d) = some e ∧
        ∀ x ∈ e.entries, x.2.isPrivate = true)) :
    wp A (publishDir source d)
      (fun _ m' => ∃ e e', ((m.layout source).bind fun l => l.dirs d) = some e ∧ IsCopy e e' ∧
        m' = m.onLayout .live (Layout.withDir d e')) E C m := by
  refine wp_seq (wp_listDir h (hpass.mono fun ⟨⟨e, he, _⟩, _⟩ => by simp [he])) ?_
  rintro names m ⟨rfl, old, hold, rfl⟩
  refine wp_seq (wp_emptyDir h hold (hpass.mono fun ⟨⟨e, he, hp⟩, _⟩ => ?_)) ?_
  · rw [show m.live.dirs d = some old from hold] at he
    cases he
    exact hp
  rintro - _ rfl
  have hsource : ((m.onLayout .live (Layout.withDir d .empty)).layout source) = m.layout source :=
    Machine.layout_onLayout_ne _ hne
  refine wp_seq (wp_listDir h (hpass.mono fun ⟨_, e, he, _⟩ => by simp [hsource, he])) ?_
  rintro names _ ⟨rfl, e, he, rfl⟩
  rw [hsource] at he
  refine wp_seq (wp_copyEntries h hne (e := e) (by rw [hsource]; exact he) ?_ rfl _ ?_) ?_
  · rintro l hl
    rw [Machine.layout_onLayout, Machine.layout_live] at hl
    cases hl
    simp [Layout.withDir]
  · refine hpass.mono fun ⟨_, e', he', hp⟩ => ⟨e.nodup, fun n hn => ?_⟩
    rw [he] at he'
    cases he'
    obtain ⟨f, hf⟩ := Option.isSome_iff_exists.mp (Dir.mem_names_iff.mp hn)
    exact ⟨f, hf, hp _ (Dir.mem_of_get hf)⟩
  rintro - _ ⟨e', rfl, he'⟩
  refine wp_sync h ⟨e, e', he, ⟨_, List.Perm.refl _, he'⟩, ?_⟩
  rw [Machine.onLayout_onLayout]
  congr 1
  exact Layout.withDir_comp d .empty e'

/-- A leftover is gone. -/
theorem wp_removeStale {c : Component}
    (hpass : Passes E (∀ f, m.live.files c = some f → f.isPrivate = true)) :
    wp A (removeStale ⟨.live, .file c⟩) (fun _ m' => m' = m.set ⟨.live, .file c⟩ none) E C m := by
  refine wp_branch (fun hsome => ?_) fun hnone => ?_
  · refine wp_seq (R := fun _ m' => m' = m) (wp_checkPrivate h ?_ fun _ _ _ => rfl) ?_
    · refine hpass.mono fun hall => ?_
      obtain ⟨f, hf⟩ := Option.isSome_iff_exists.mp hsome
      exact ⟨f, hf, hall f hf⟩
    · rintro - m rfl
      exact h.atomic rfl
  · refine wp_pure ?_
    have : m.live.files c = none := by simpa [Layout.get] using hnone
    simp [Layout.set, ← this]

end

/-- The live tree after the replacement of one file. -/
def replaceFile (m : Machine) (c temporary : Component) (bytes : Bytes) : Machine :=
  { m with
    live := (m.live.set (.file c) (some ⟨bytes, privateMode⟩)).set (.file temporary) none
    trace := m.trace ++ [.replaced c] }

theorem wp_publishFile (h : Absorbs A E C) {c temporary : Component} (hne : source ≠ .live)
    (hct : c ≠ temporary) {l : Layout} {f : File} (hl : m.layout source = some l)
    (hf : l.files c = some f) (hp : f.isPrivate = true)
    (hpass : Passes E ((∀ f, m.live.files c = some f → f.isPrivate = true) ∧
      ∀ f, m.live.files temporary = some f → f.isPrivate = true)) :
    wp A (publishFile source c temporary)
      (fun _ m' => m' = replaceFile m c temporary f.bytes) E C m := by
  refine wp_seq_eq (t := m) (wp_branch (fun hsome => ?_) fun _ => wp_pure rfl) fun _ => ?_
  · refine wp_checkPrivate h (hpass.mono fun ⟨hall, _⟩ => ?_) fun _ _ _ => rfl
    obtain ⟨f, hf⟩ := Option.isSome_iff_exists.mp hsome
    exact ⟨f, hf, hall f hf⟩
  refine wp_seq (wp_removeStale h (hpass.mono And.right)) ?_
  rintro - _ rfl
  have hsource : (m.set ⟨.live, .file temporary⟩ none).get ⟨source, .file c⟩ = some f := by
    rw [Machine.get, Machine.set, Machine.layout_onLayout_ne _ hne, hl, ← hf]
    rfl
  refine wp_seq (wp_copyFile h (hpass.mono fun _ => ⟨⟨f, hsource, hp⟩, by simp [Layout.get]⟩)) ?_
  rintro - _ ⟨g, hg, -, rfl⟩
  rw [hsource] at hg
  cases hg
  refine wp_seq_eq (t := replaceFile m c temporary f.bytes) (h.atomic ?_) fun _ => wp_sync h rfl
  simp only [Machine.set_live, replaceFile, Layout.set, Function.update_self, Function.update_idem]
  rw [Function.update_comm hct, Function.update_idem, Function.update_comm hct]

/-- Nothing in the live tree stands in the way of a publication. -/
structure Clean (l : Layout) : Prop where
  files : ∀ c f, l.files c = some f → f.isPrivate = true
  dirs : ∀ d, ∃ e, l.dirs d = some e ∧ ∀ x ∈ e.entries, x.2.isPrivate = true

/-- What a publication from `source` has made of the tree `old`. -/
structure Published (source old new : Layout) : Prop where
  folders : new.folders = old.folders
  cold : new.files .databaseJournal = none
  files : ∀ c ∈ [Component.database, .masterKey, .manifest], ∃ f, source.files c = some f ∧
    new.files c = some ⟨f.bytes, privateMode⟩
  temporaries : ∀ c ∈ [Component.databaseNew, .masterKeyNew, .manifestNew], new.files c = none
  dirs : ∀ d, ∃ e e', source.dirs d = some e ∧ IsCopy e e' ∧ new.dirs d = some e'

theorem wp_validateAt (h : Absorbs A E C)
    (hpass : Passes E (∃ l st inventory, m.layout place = some l ∧ Valid w l st inventory)) :
    wp A (validateAt w place) (fun inventory m' => m' = m ∧ ∃ l st, m.layout place = some l ∧
      Valid w l st inventory) E C m := by
  refine h.check (fun inventory hok => ?_) fun e he => ?_
  · split at hok
    · cases hok
    · next l hl =>
      obtain ⟨st, hvalid⟩ := validate_eq_ok.mp hok
      exact ⟨rfl, l, st, hl, hvalid⟩
  · refine hpass.refuse ?_ e m
    rintro ⟨l, st, inventory, hl, hvalid⟩
    rw [hl] at he
    simp only [validate_eq_ok.mpr ⟨st, hvalid⟩] at he
    cases he

theorem Valid.private_files {l : Layout} (h : Valid w l st inventory) :
    ∀ c ∈ [Component.database, .masterKey, .manifest], ∃ f, l.files c = some f ∧
      f.isPrivate = true := by
  obtain ⟨db, hdb, hdbp, -⟩ := h.pair.database
  obtain ⟨k, hk, hkp, -⟩ := h.pair.masterKey
  obtain ⟨f, hf, hfp, -⟩ := h.manifest
  simp only [List.mem_cons, List.not_mem_nil, or_false]
  rintro c (rfl | rfl | rfl)
  · exact ⟨db, hdb, hdbp⟩
  · exact ⟨k, hk, hkp⟩
  · exact ⟨f, hf, hfp⟩

theorem Valid.private_dirs {l : Layout} (h : Valid w l st inventory) (d : Sub) :
    ∃ e, l.dirs d = some e ∧ ∀ x ∈ e.entries, x.2.isPrivate = true := by
  obtain ⟨wg, hwg, hvalid, -⟩ := h.pair.files
  obtain ⟨egress, hegress, hall⟩ := h.egress
  cases d with
  | wireguard => exact ⟨wg, hwg, hvalid.isPrivate⟩
  | providerEgress => exact ⟨egress, hegress, fun x hx => (hall x hx).2⟩

/-- The events of a complete publication. -/
def publication : List Event := [.replaced .database, .replaced .masterKey, .replaced .manifest]

theorem wp_publish (h : Absorbs A E C) (hne : source ≠ .live)
    (hpass : Passes E (Clean m.live ∧ ∃ l st inventory, m.layout source = some l ∧
      Valid w l st inventory)) :
    wp A (publish w source) (fun _ m' => ∃ l st inventory, m.layout source = some l ∧
      Valid w l st inventory ∧ Published l m.live m'.live ∧
      m' = { m with live := m'.live, trace := m.trace ++ publication }) E C m := by
  refine wp_seq_eq (t := m) (wp_leased h rfl) fun _ => ?_
  refine wp_seq (wp_validateAt h (hpass.mono And.right)) ?_
  rintro inventory m ⟨rfl, l, st, hl, hvalid⟩
  have hclean : Passes E (Clean m.live) := hpass.mono And.left
  obtain ⟨db, hdb, hdbp⟩ := hvalid.private_files .database (by simp)
  obtain ⟨key, hkey, hkeyp⟩ := hvalid.private_files .masterKey (by simp)
  obtain ⟨manifest, hmanifest, hmanifestp⟩ := hvalid.private_files .manifest (by simp)
  refine wp_seq (wp_removeStale h (hclean.mono fun hc f hf => hc.files _ f hf)) fun _ m1 hm1 => ?_
  have hl1 : m1.layout source = some l := hl ▸ hm1 ▸ Machine.layout_congr hne rfl
  refine wp_seq (wp_publishFile h hne (by decide) hl1 hdb hdbp (hclean.mono fun hc => ?_))
    fun _ m2 hm2 => ?_
  · exact hm1 ▸ ⟨hc.files _, hc.files _⟩
  have hl2 : m2.layout source = some l := hl1 ▸ hm2 ▸ Machine.layout_congr hne rfl
  refine wp_seq (wp_publishFile h hne (by decide) hl2 hkey hkeyp (hclean.mono fun hc => ?_))
    fun _ m3 hm3 => ?_
  · exact hm2 ▸ hm1 ▸ ⟨hc.files _, hc.files _⟩
  have hl3 : m3.layout source = some l := hl2 ▸ hm3 ▸ Machine.layout_congr hne rfl
  refine wp_seq (wp_publishFile h hne (by decide) hl3 hmanifest hmanifestp
    (hclean.mono fun hc => ?_)) fun _ m4 hm4 => ?_
  · exact hm3 ▸ hm2 ▸ hm1 ▸ ⟨hc.files _, hc.files _⟩
  have hl4 : m4.layout source = some l := hl3 ▸ hm4 ▸ Machine.layout_congr hne rfl
  have hdirs : m4.live.dirs = m.live.dirs := by rw [hm4, hm3, hm2, hm1]; rfl
  refine wp_seq (wp_publishDir h hne (hclean.mono fun hc => ⟨?_, ?_⟩)) ?_
  · rw [hdirs]
    exact hc.dirs .wireguard
  · rw [hl4]
    exact hvalid.private_dirs .wireguard
  rintro - m5 ⟨wg, wg', hwg, hwgcopy, hm5⟩
  rw [hl4] at hwg
  have hl5 : m5.layout source = some l := by
    rw [hm5, ← hl4]
    exact Machine.layout_onLayout_ne _ hne
  refine wp_post (wp_publishDir h hne (hclean.mono fun hc => ⟨?_, ?_⟩)) ?_
  · obtain ⟨e, he, hp⟩ := hc.dirs .providerEgress
    refine ⟨e, ?_, hp⟩
    rw [hm5, ← he, ← hdirs]
    rfl
  · rw [hl5]
    exact hvalid.private_dirs .providerEgress
  rintro - m6 ⟨egress, egress', hegress, hegresscopy, hm6⟩
  rw [hl5] at hegress
  refine ⟨l, st, inventory, hl, hvalid, ?_, ?_⟩
  · subst hm6 hm5 hm4 hm3 hm2 hm1
    constructor
    · rfl
    · rfl
    · simp only [List.mem_cons, List.not_mem_nil, or_false]
      rintro c (rfl | rfl | rfl)
      · exact ⟨db, hdb, rfl⟩
      · exact ⟨key, hkey, rfl⟩
      · exact ⟨manifest, hmanifest, rfl⟩
    · simp only [List.mem_cons, List.not_mem_nil, or_false]
      rintro c (rfl | rfl | rfl) <;> rfl
    · intro d
      cases d with
      | wireguard => exact ⟨wg, wg', hwg, hwgcopy, rfl⟩
      | providerEgress => exact ⟨egress, egress', hegress, hegresscopy, rfl⟩
  · subst hm6 hm5 hm4 hm3 hm2 hm1
    simp [publication, replaceFile, Machine.onLayout, Machine.setLayout]

/-- A published tree is as valid as its source. -/
theorem Published.valid {l old new : Layout} (h : Published l old new)
    (hvalid : Valid w l st inventory) (hfolders : ∀ folder, old.folders folder = true) :
    Valid w new st inventory := by
  obtain ⟨db, hdb, -, hdec⟩ := hvalid.pair.database
  obtain ⟨key, hkey, -, hkeyb⟩ := hvalid.pair.masterKey
  obtain ⟨manifest, hmanifest, -, hmanifestb⟩ := hvalid.manifest
  obtain ⟨wg, hwg, hiswg, hcontents⟩ := hvalid.pair.files
  obtain ⟨egress, hegress, hisegress⟩ := hvalid.egress
  have hfile {c : Component} {f : File} (hc : c ∈ [Component.database, .masterKey, .manifest])
      (hf : l.files c = some f) : new.files c = some ⟨f.bytes, privateMode⟩ := by
    obtain ⟨g, hg, hnew⟩ := h.files c hc
    rw [hf] at hg
    cases hg
    exact hnew
  obtain ⟨wg1, wg', hwg1, hwgcopy, hwg'⟩ := h.dirs .wireguard
  rw [hwg] at hwg1
  cases hwg1
  obtain ⟨egress1, egress', hegress1, hegresscopy, hegress'⟩ := h.dirs .providerEgress
  rw [hegress] at hegress1
  cases hegress1
  exact
    { folders := fun folder => by rw [h.folders]; exact hfolders folder
      egress := ⟨egress', hegress', hegresscopy.isEgress hisegress⟩
      pair :=
        { cold := h.cold
          database := ⟨_, hfile (by simp) hdb, isPrivate_privateMode _, hdec⟩
          masterKey := ⟨_, hfile (by simp) hkey, isPrivate_privateMode _, hkeyb⟩
          keyLength := hvalid.pair.keyLength
          files := ⟨wg', hwg', hwgcopy.isWireguard hiswg, by rw [hwgcopy.contents, hcontents]⟩
          inspected := hvalid.pair.inspected }
      manifest := ⟨_, hfile (by simp) hmanifest, isPrivate_privateMode _, hmanifestb⟩
      manifestLength := hvalid.manifestLength
      manifestMatches := hvalid.manifestMatches }

theorem Published.logical {l old new : Layout} (h : Published l old new)
    (hvalid : Valid w l st inventory) : logical w new = some st := by
  -- the meaning does not depend on the other directories of the tree
  have hall : Published l { old with folders := fun _ => true }
      { new with folders := fun _ => true } := ⟨rfl, h.cold, h.files, h.temporaries, h.dirs⟩
  exact (hall.valid hvalid fun _ => rfl).logical

/-! ## Trees that are built from another -/

theorem readDatabase_eq_some {b : Bytes} :
    readDatabase m place = some b ↔ (∃ f, m.get ⟨place, .file .database⟩ = some f ∧ f.bytes = b) ∧
      m.get ⟨place, .file .databaseJournal⟩ = none := by
  unfold readDatabase
  split
  · next f hf hj => simp [hf, hj]
  · next hno =>
    simp only [reduceCtorEq, false_iff]
    rintro ⟨⟨f, hf, -⟩, hj⟩
    exact hno f hf hj

/-- The previous tree once the pair is in it has the meaning of the live one. -/
theorem wp_snapshotPair (ht : m.txn.isSome = true) (hst : logical w m.live = some st) :
    wpElse A (snapshotPair w) (fun _ m' => m.live.files .databaseJournal = none ∧
      ∃ l, m'.layout .previous = some l ∧ logical w l = some st)
      (fun _ => True) m := by
  have h : Absorbs A (fun _ (_ : Machine) => True) fun _ => True := absorbs_true
  have pass {P : Prop} : Passes (fun _ _ => True) P := Or.inr fun _ _ => trivial
  obtain ⟨himage, hkey, hmanifest, hwg⟩ := logical_eq_some_iff.mp hst
  refine wp_seq_eq (t := m) (wp_leased h rfl) fun _ => ?_
  refine wp_seq_eq (t := m.setLayout .previous (some .bare))
    (wp_create h pass fun _ => rfl) fun _ => ?_
  -- the folders do not matter for the meaning
  let J (m' : Machine) : Prop := m'.live = m.live ∧ ∃ l, m'.layout .previous = some l ∧
    l.files = Layout.bare.files
  refine wp_seq (R := fun _ => J) (wp_forM (fun _ => J) ?_ _ ⟨rfl, _,
    Machine.layout_setLayout (by decide) ht, rfl⟩) ?_
  · rintro folder rest m' ⟨hlive, l, hl, hfiles⟩
    refine wp_create h pass fun _ => ⟨hlive, l.mkFolder folder, ?_, hfiles⟩
    rw [Machine.layout_onLayout, hl]
    rfl
  rintro - m1 ⟨hlive1, l1, hl1, hfiles1⟩
  -- the database
  refine wp_seq (R := fun _ m' => m'.live = m.live ∧ m.live.files .databaseJournal = none ∧
    ∃ l, m'.layout .previous = some l ∧ l.image.bind w.decode = some st.content ∧
      l.files .databaseJournal = none) ?_ ?_
  · refine wp_seq (R := fun b m' => m' = m1 ∧ m.live.files .databaseJournal = none ∧
      m.live.image = some b) (h.check ?_ fun _ _ => trivial) ?_
    · intro b hb
      split at hb
      · cases hb
      · next b' hb' =>
        cases hb
        obtain ⟨⟨f, hf, rfl⟩, hj⟩ := readDatabase_eq_some.mp hb'
        rw [Machine.get_live, hlive1] at hf hj
        refine ⟨rfl, hj, ?_⟩
        simp [Layout.image, show m.live.files .databaseJournal = none from hj,
          show m.live.files .database = some f from hf]
    rintro b m1 ⟨rfl, hj, hb⟩
    refine wp_seq (h.effect (Q := fun _ m' => m' = m1.set ⟨.previous, .file .database⟩
      (some ⟨w.backup b, defaultMode⟩)) rfl) ?_
    rintro - _ rfl
    refine h.atomic ⟨hlive1, hj, (l1.set (.file .database) (some ⟨w.backup b, defaultMode⟩)).set
      (.file .database) (some ⟨w.backup b, privateMode⟩), ?_, ?_, ?_⟩
    · simp only [Machine.set, Machine.get, Machine.layout_onLayout, hl1, Option.map_some,
        Option.bind_some]
      simp [Layout.get]
    · rw [hb, Option.bind_some] at himage
      simp [Layout.image, hfiles1, Layout.bare, w.decode_backup, himage]
    · simp [hfiles1, Layout.bare]
  rintro - m2 ⟨hlive2, hcold, l2, hl2, himage2, hcold2⟩
  refine wp_seq (wp_copyFile h pass) ?_
  rintro - _ ⟨k, hk, -, rfl⟩
  rw [Machine.get_live, hlive2] at hk
  refine wp_seq (wp_copyFile h pass) ?_
  rintro - _ ⟨f, hf, -, rfl⟩
  have hf' : m.live.files .manifest = some f := by rw [← hlive2]; exact hf
  refine wp_post (wp_copyDirectory h (by decide) ?_ pass) ?_
  · simp [Machine.set, Machine.layout_onLayout, hl2]
  rintro - _ ⟨e, e', he, hcopy, rfl⟩
  have he' : m.live.dirs .wireguard = some e := by rw [← hlive2]; exact he
  simp only [Machine.set, Machine.layout_onLayout, hl2, Option.map_some, Option.some.injEq,
    exists_eq_left']
  refine ⟨hcold, ?_⟩
  rw [logical_eq_some_iff]
  refine ⟨?_, ?_, ?_, ?_⟩
  · rw [← himage2]
    simp [Layout.image, Layout.withDir, hcold2]
  · rw [← hkey, show m.live.files .masterKey = some k from hk]
    simp [Layout.withDir]
  · rw [← hmanifest, hf']
    simp [Layout.withDir]
  · rw [← hwg, he']
    simp [Layout.withDir, hcopy.contents]

/-- The emptied tables of the live database. -/
theorem wp_revokeSessions (hst : logical w m.live = some st) :
    wpElse A (revokeSessions w) (fun _ m' => logical w m'.live = some st.revoke ∧
      m'.txn = m.txn ∧ m'.journal = m.journal ∧ m'.trace = m.trace)
      (fun _ => True) m := by
  have h : Absorbs A (fun _ (_ : Machine) => True) fun _ => True := absorbs_true
  refine wp_seq (R := fun _ m' => m' = m ∧ (readDatabase m .live).isSome = true)
    (h.check ?_ fun _ _ => trivial) ?_
  · intro _ hok
    refine ⟨rfl, ?_⟩
    by_contra hno
    simp [hno] at hok
  rintro - m ⟨rfl, hsome⟩
  obtain ⟨bytes, hbytes⟩ := Option.isSome_iff_exists.mp hsome
  obtain ⟨⟨f, hf, rfl⟩, hj⟩ := readDatabase_eq_some.mp hbytes
  refine h.effect ⟨?_, rfl, rfl, rfl⟩
  have hf' : m.live.files .database = some f := hf
  have hj' : m.live.files .databaseJournal = none := hj
  obtain ⟨himage, hkey, hmanifest, hwg⟩ := logical_eq_some_iff.mp hst
  rw [logical_eq_some_iff]
  refine ⟨?_, by simpa [State.revoke, hf] using hkey, by simpa [State.revoke, hf] using hmanifest,
    by simpa [State.revoke, hf] using hwg⟩
  simp only [Layout.image, hj', hf', Option.map_some, Option.bind_some] at himage
  simp [Layout.image, Layout.get, hj', hf', w.decode_revoke, himage, State.revoke]

/-- What a backup means once its candidate has a manifest. -/
def Backup.state (w : Platform) (b : Backup) (content : Content) : State :=
  ⟨content, b.masterKey, w.dumpManifest (buildManifest w b.masterKey), b.files.contents⟩

theorem wp_writeManifest (h : Absorbs A E C)
    (hpass : Passes E (∃ key, m.get ⟨place, .file .masterKey⟩ = some key ∧ key.isPrivate = true ∧
      key.bytes.length = 32)) :
    wp A (writeManifest w place) (fun _ m' => ∃ key, m.get ⟨place, .file .masterKey⟩ = some key ∧
      m' = m.set ⟨place, .file .manifest⟩
        (some ⟨w.dumpManifest (buildManifest w key.bytes), privateMode⟩)) E C m := by
  refine wp_seq (R := fun bytes m' => m' = m ∧ ∃ key, m.get ⟨place, .file .masterKey⟩ = some key ∧
    key.bytes = bytes) (h.check (fun bytes hok => ?_) fun e he => ?_) ?_
  · simp only [bind_eq_ok, facts_eq_ok, pure, Except.pure, Except.ok.injEq] at hok
    obtain ⟨key, ⟨hkey, -⟩, -, -, -, -, hbytes⟩ := hok
    exact ⟨rfl, key, hkey, hbytes⟩
  · refine hpass.refuse ?_ e m
    rintro ⟨key, hkey, hp, hlength⟩
    simp [facts, hkey, hp, hlength, require, bind, Except.bind, pure, Except.pure] at he
  · rintro bytes m ⟨rfl, key, hkey, rfl⟩
    exact h.atomic ⟨key, hkey, rfl⟩

/-- The candidate has the meaning of the backup. -/
theorem wp_stageState {b : Backup} {content : Content} (ht : m.txn.isSome = true)
    (harchive : m.layout .archive = some b.unpacked)
    (hcontent : w.decode b.database = some content) :
    wpElse A (stageState w)
      (fun _ m' => ∃ l, m'.layout .candidate = some l ∧ logical w l = some (b.state w content))
      (fun _ => True) m := by
  have h : Absorbs A (fun _ (_ : Machine) => True) fun _ => True := absorbs_true
  have pass {P : Prop} : Passes (fun _ _ => True) P := Or.inr fun _ _ => trivial
  let J (m' : Machine) : Prop := m'.layout .archive = some b.unpacked ∧
    ∃ l, m'.layout .candidate = some l ∧ l.files = Layout.bare.files
  have hkeep {m' : Machine} {f : Layout → Layout} (hf : ∀ l, (f l).files = l.files) (hJ : J m') :
      J (m'.onLayout .candidate f) := by
    obtain ⟨ha, l, hl, hfiles⟩ := hJ
    refine ⟨by rw [Machine.layout_onLayout_ne _ (by decide), ha], f l, ?_, by rw [hf, hfiles]⟩
    rw [Machine.layout_onLayout, hl]
    rfl
  have hfolder {m' : Machine} (folder : Folder) (hJ : J m') :
      wpElse A (makeFolder .candidate folder) (fun _ => J) (fun _ => True) m' :=
    wp_create h pass fun _ => hkeep (fun _ => rfl) hJ
  refine wp_seq (R := fun _ => J) (wp_create h pass fun _ => ?_) ?_
  · exact ⟨by rw [Machine.layout_setLayout_ne (by decide), harchive], _,
      Machine.layout_setLayout (by decide) ht, rfl⟩
  intro _ m1 hJ1
  refine wp_seq (hfolder .config hJ1) fun _ m2 hJ2 => ?_
  refine wp_seq (hfolder .state hJ2) fun _ m3 hJ3 => ?_
  refine wp_seq (R := fun _ => J) (wp_create h pass fun _ => hkeep (fun _ => rfl) hJ3)
    fun _ m4 hJ4 => ?_
  refine wp_seq (hfolder .recovery hJ4) fun _ m5 hJ5 => ?_
  refine wp_seq (hfolder .backups hJ5) ?_
  rintro - m6 ⟨ha, l, hl, hfiles⟩
  refine wp_seq (wp_copyFile h pass) ?_
  rintro - m7 ⟨f, hf, -, hm7⟩
  rw [Machine.get, ha] at hf
  cases hf
  have ha7 : m7.layout .archive = some b.unpacked := by
    rw [hm7, Machine.set, Machine.layout_onLayout_ne _ (by decide), ha]
  refine wp_seq (wp_copyFile h pass) ?_
  rintro - m8 ⟨f, hf, -, hm8⟩
  rw [Machine.get, ha7] at hf
  cases hf
  have ha8 : m8.layout .archive = some b.unpacked := by
    rw [hm8, Machine.set, Machine.layout_onLayout_ne _ (by decide), ha7]
  have hl8 : m8.layout .candidate = some ((l.set (.file .database)
      (some ⟨b.database, privateMode⟩)).set (.file .masterKey)
        (some ⟨b.masterKey, privateMode⟩)) := by
    simp only [hm8, hm7, Machine.set, Machine.layout_onLayout, hl]
    rfl
  refine wp_seq (wp_copyDirectory h (by decide) (by rw [hl8]; rfl) pass) ?_
  rintro - m9 ⟨e, e', he, hcopy, hm9⟩
  rw [ha8] at he
  cases he
  have hl9 := hm9 ▸ (Machine.layout_onLayout (Layout.withDir .wireguard e')).trans
    (congrArg (Option.map _) hl8)
  refine wp_seq (wp_writeManifest h pass) ?_
  rintro - m10 ⟨key, hkey, hm10⟩
  rw [Machine.get, hl9] at hkey
  cases hkey
  have hstaged : ∃ l', m10.layout .candidate = some l' ∧
      logical w l' = some (b.state w content) := by
    rw [hm10, Machine.set, Machine.layout_onLayout, hl9]
    refine ⟨_, rfl, logical_eq_some_iff.mpr ⟨?_, ?_, ?_, ?_⟩⟩
    · simp [Layout.image, Layout.withDir, hfiles, Layout.bare, Backup.state, hcontent]
    · simp [Layout.withDir, Backup.state]
    · simp [Layout.withDir, Backup.state]
    · simp [Layout.withDir, Backup.state, hcopy.contents]
  exact h.check (fun _ _ => hstaged) fun _ _ => trivial

/-- What the stages before the first receipt have established about a backup. -/
structure Backup.Checked (w : Platform) (b : Backup) (content : Content) : Prop where
  decoded : w.decode b.database = some content
  inspected : ∃ inventory, w.inspect content b.masterKey b.files.contents = .ok inventory ∧
    inventory.recoveryRequired = false
  ingress : ∃ ids, w.ingress content = .ok ids

theorem wp_prepare {b : Backup} (ht : m.txn.isSome = true) :
    wpElse A (prepare w b) (fun _ m' => ∃ content, b.Checked w content ∧
      ∃ l, m'.layout .candidate = some l ∧ logical w l = some (b.state w content))
      (fun _ => True) m := by
  have h : Absorbs A (fun _ (_ : Machine) => True) fun _ => True := absorbs_true
  have harchive : (m.setLayout .archive (some b.unpacked)).layout .archive = some b.unpacked :=
    Machine.layout_setLayout (by decide) ht
  refine wp_seq_eq (t := m.setLayout .archive (some b.unpacked)) (h.atomic rfl) fun _ => ?_
  refine wp_seq (R := fun inventory m' => m' = m.setLayout .archive (some b.unpacked) ∧
    ∃ content, w.decode b.database = some content ∧
      w.inspect content b.masterKey b.files.contents = .ok inventory)
        (h.check ?_ fun _ _ => trivial) ?_
  · intro inventory hok
    rw [harchive] at hok
    obtain ⟨content, key, wireguard, hpair⟩ := validatePair_eq_ok.mp hok
    obtain ⟨db, hdb, -, hdec⟩ := hpair.database
    obtain ⟨k, hk, -, hkey⟩ := hpair.masterKey
    obtain ⟨d, hd, -, hcontents⟩ := hpair.files
    cases hdb
    cases hk
    cases hd
    refine ⟨rfl, content, hdec, ?_⟩
    rw [show b.masterKey = key from hkey, hcontents]
    exact hpair.inspected
  rintro inventory _ ⟨rfl, content, hdec, hinspect⟩
  refine wp_seq (R := fun _ m' => m' = m.setLayout .archive (some b.unpacked) ∧
    inventory.recoveryRequired = false) (wp_demand (fun hrr => ⟨rfl, by simpa using hrr⟩)
      fun _ => trivial) ?_
  rintro - _ ⟨rfl, hrr⟩
  refine wp_seq (wp_stageState (by simpa using ht) harchive hdec) ?_
  rintro - m1 ⟨l, hl, hst⟩
  refine wp_seq_eq (t := m1) (h.check (fun _ _ => rfl) fun _ _ => trivial) fun current => ?_
  refine wp_seq (R := fun _ m' => m' = m1 ∧ ∃ ids, w.ingress content = .ok ids)
    (h.check (fun ids hok => ⟨rfl, ids, ?_⟩) fun _ _ => trivial) ?_
  · split at hok
    · cases hok
    · next content' hc =>
      obtain ⟨bytes, hread, hdec'⟩ := Option.bind_eq_some_iff.mp hc
      obtain ⟨⟨f, hf, rfl⟩, hj⟩ := readDatabase_eq_some.mp hread
      rw [Machine.get, hl] at hf hj
      have himage := (logical_eq_some_iff.mp hst).1
      rw [Layout.image, show l.files .databaseJournal = none from hj,
        show l.files .database = some f from hf] at himage
      rw [show w.decode f.bytes = some content from himage] at hdec'
      cases hdec'
      exact hok
  rintro staged m1 ⟨rfl, hingress⟩
  exact wp_pure ⟨content, ⟨hdec, ⟨inventory, hinspect, hrr⟩, hingress⟩, l, hl, hst⟩

end

/-! ## What the procedures leave alone -/

section
variable {w : Platform} {I : Machine → Prop} {p : Path} {source : Place}

theorem preserves_create {exists_ : Machine → Bool} {make : Machine → Machine}
    (h : ∀ m, I m → I (make m)) : Preserves I (create exists_ make) := by
  refine preserves_prim (fun r m hm => ?_) fun k m hm => ?_
  · cases exists_ m
    · exact h m hm
    · exact hm
  · by_cases hk : (k = 0 || exists_ m) = true
    · simpa [hk] using hm
    · simpa [hk] using h m hm

theorem preserves_unlink (h : ∀ m, I m → I (m.set p none)) : Preserves I (unlink p) :=
  preserves_atomic h

theorem preserves_removeStale (h : ∀ m, I m → I (m.set p none)) : Preserves I (removeStale p) :=
  preserves_branch (preserves_seq_check <| preserves_unlink h) (preserves_pure _)

theorem preserves_chmod {mode : Nat} (h : ∀ m f, I m → I (m.set p f)) :
    Preserves I (chmod p mode) :=
  preserves_atomic fun m => h m _

theorem preserves_copyFile {source destination : Path}
    (h : ∀ m bytes, I m → I (m.set destination (some ⟨bytes, privateMode⟩))) :
    Preserves I (copyFile source destination) := by
  refine preserves_seq_check <| preserves_bind (preserves_check _) fun bytes => ?_
  refine preserves_seq (preserves_create fun m => h m _) ?_
  exact preserves_effect (fun m => h m _) fun k m => h m _

theorem preserves_copyDirectory {d : Sub}
    (hmake : ∀ m, I m → I (m.onLayout destination (·.mkDir d)))
    (hset : ∀ name m f, I m → I (m.set ⟨destination, .entry d name⟩ f)) :
    Preserves I (copyDirectory source destination d) := by
  refine preserves_bind (preserves_check _) fun names => ?_
  refine preserves_seq (preserves_create hmake) ?_
  refine preserves_seq (preserves_demand _ _) ?_
  exact preserves_seq (preserves_forM (fun name => preserves_copyFile fun m _ => hset name m _) _)
    (preserves_check _)

theorem preserves_databaseSnapshot
    (h : ∀ m f, I m → I (m.set ⟨destination, .file .database⟩ f)) :
    Preserves I (databaseSnapshot w source destination) := by
  refine preserves_bind (preserves_check _) fun bytes => ?_
  refine preserves_seq (preserves_effect (fun m => h m _) fun k m hm => ?_) <|
    preserves_chmod h
  match k with
  | 0 => exact hm
  | 1 => exact h m _ hm
  | _ + 2 => exact h m _ hm

/-- The pair is copied to the previous tree, and its projections are not touched. -/
theorem preserves_snapshotPair (hroot : ∀ m, I m → I (m.setLayout .previous (some .bare)))
    (hlocal : ∀ m (f : Layout → Layout),
      (∀ l, (f l).dirs .providerEgress = l.dirs .providerEgress) →
      I m → I (m.onLayout .previous f)) : Preserves I (snapshotPair w) := by
  have hfile (c : Component) (m : Machine) (f : Option File) (hm : I m) :
      I (m.set ⟨.previous, .file c⟩ f) := hlocal m _ (fun _ => rfl) hm
  have hfolder (folder : Folder) : Preserves I (makeFolder .previous folder) :=
    preserves_create fun m => hlocal m _ fun _ => rfl
  refine preserves_seq_check ?_
  refine preserves_seq (preserves_create hroot) ?_
  refine preserves_seq (preserves_forM hfolder _) ?_
  refine preserves_seq (preserves_databaseSnapshot (hfile .database)) ?_
  refine preserves_seq (preserves_copyFile fun m _ => hfile .masterKey m _) ?_
  refine preserves_seq (preserves_copyFile fun m _ => hfile .manifest m _) ?_
  exact preserves_copyDirectory (fun m => hlocal m _ fun l => by simp)
    fun name m f => hlocal m _ fun l => by simp

theorem preserves_snapshot (h : ∀ m l, I m → I (m.setLayout .previous l)) :
    Preserves I (snapshot w) := by
  refine preserves_seq (preserves_snapshotPair (fun m => h m _) fun m _ _ => h m _) ?_
  refine preserves_seq (preserves_copyDirectory (fun m => h m _) fun _ m _ => h m _) ?_
  exact preserves_seq_check <| preserves_check _

theorem preserves_publishFile (c temporary : Component)
    (hlive : ∀ m l, l.folders = m.live.folders → I m → I { m with live := l })
    (htrace : ∀ m c, I m → I { m with trace := m.trace ++ [.replaced c] }) :
    Preserves I (publishFile source c temporary) := by
  refine preserves_seq (preserves_branch (preserves_check _) (preserves_pure _)) ?_
  refine preserves_seq (preserves_removeStale fun m => hlive m _ rfl) ?_
  refine preserves_seq (preserves_copyFile fun m _ => hlive m _ rfl) ?_
  exact preserves_seq (preserves_atomic fun m hm => hlive
    { m with trace := m.trace ++ [.replaced c] }
    ((m.live.set (.file c) (m.live.files temporary)).set (.file temporary) none) rfl
    (htrace m c hm)) <| preserves_check _

theorem preserves_publishDir (d : Sub)
    (hlive : ∀ m l, l.folders = m.live.folders → I m → I { m with live := l }) :
    Preserves I (publishDir source d) := by
  have hset (name : Text) (m : Machine) (f : Option File) (hm : I m) :
      I (m.set ⟨.live, .entry d name⟩ f) := hlive m (m.live.set (.entry d name) f) rfl hm
  refine preserves_bind (preserves_check _) fun old => ?_
  refine preserves_seq (preserves_forM (fun name => preserves_seq_check <|
    preserves_unlink fun m => hset name m none) _) ?_
  refine preserves_bind (preserves_check _) fun new => ?_
  exact preserves_seq
    (preserves_forM (fun name => preserves_copyFile fun m _ => hset name m _) _) <|
    preserves_check _

/-- A publication changes the files of the live tree and the trace. -/
theorem preserves_publish (hlive : ∀ m l, l.folders = m.live.folders → I m → I { m with live := l })
    (htrace : ∀ m c, I m → I { m with trace := m.trace ++ [.replaced c] }) :
    Preserves I (publish w source) := by
  have hfile (c temporary : Component) : Preserves I (publishFile source c temporary) :=
    preserves_publishFile c temporary hlive htrace
  refine preserves_seq_check <| preserves_seq_check ?_
  refine preserves_seq (preserves_removeStale fun m => hlive m _ rfl) ?_
  refine preserves_seq (hfile _ _) <| preserves_seq (hfile _ _) ?_
  refine preserves_seq (hfile _ _) ?_
  exact preserves_seq (preserves_publishDir _ hlive) <| preserves_publishDir _ hlive

/-- `_cleanup` changes the receipt and the transaction directory. -/
theorem preserves_cleanup (hjournal : ∀ m, I m → I { m with journal := none })
    (htxn : ∀ m t, I m → I { m with txn := t }) : Preserves I cleanup := by
  refine preserves_seq_check <| preserves_seq_check ?_
  refine preserves_seq (preserves_atomic hjournal) ?_
  refine preserves_seq_check ?_
  exact preserves_seq (preserves_effect (fun m => htxn m _) fun _ m => htxn m _) <|
    preserves_check _

theorem preserves_revokeSessions
    (hlive : ∀ m l, l.folders = m.live.folders → I m → I { m with live := l }) :
    Preserves I (revokeSessions w) := by
  refine preserves_seq_check <| preserves_effect (fun m => hlive m _ rfl)
    fun k m hm => ?_
  have htear : I (m.tear w) := by
    unfold Machine.tear
    split
    · exact hlive m _ rfl hm
    · exact hm
  match k with
  | 0 => exact hm
  | 1 => exact htear
  | _ + 2 => exact hlive m _ rfl hm

theorem preserves_stageState (h : ∀ m l, I m → I (m.setLayout .candidate l)) :
    Preserves I (stageState w) := by
  have hfolder (folder : Folder) : Preserves I (makeFolder .candidate folder) :=
    preserves_create fun m => h m _
  have hset (slot : Slot) (m : Machine) (f : Option File) (hm : I m) :
      I (m.set ⟨.candidate, slot⟩ f) := h m _ hm
  refine preserves_seq (preserves_create fun m => h m _) ?_
  refine preserves_seq (hfolder _) <| preserves_seq (hfolder _) ?_
  refine preserves_seq (preserves_create fun m => h m _) ?_
  refine preserves_seq (hfolder _) <| preserves_seq (hfolder _) ?_
  refine preserves_seq (preserves_copyFile fun m _ => hset _ m _) ?_
  refine preserves_seq (preserves_copyFile fun m _ => hset _ m _) ?_
  refine preserves_seq (preserves_copyDirectory (fun m => h m _) fun _ => hset _) ?_
  refine preserves_bind (preserves_bind (preserves_check _) fun _ =>
    preserves_atomic fun m => hset _ m _) fun _ => ?_
  exact preserves_check _

/-- The stages before the first receipt work in the transaction directory. -/
theorem preserves_prepare {b : Backup} (harchive : ∀ m l, I m → I (m.setLayout .archive l))
    (hcandidate : ∀ m l, I m → I (m.setLayout .candidate l)) : Preserves I (prepare w b) := by
  refine preserves_seq (preserves_atomic fun m => harchive m _) ?_
  refine preserves_bind (preserves_check _) fun _ =>
    preserves_bind (preserves_demand _ _) fun _ => ?_
  refine preserves_seq (preserves_stageState hcandidate) ?_
  exact preserves_bind (preserves_check _) fun _ => preserves_bind (preserves_check _) fun _ =>
    preserves_pure _

theorem preserves_stageEmpty (h : ∀ m l, I m → I (m.setLayout .candidate l)) :
    Preserves I (stageEmpty w) := by
  have hmake {exists_ : Machine → Bool} {f : Layout → Layout} : Preserves I
      (create exists_ fun m => m.onLayout .candidate f) := preserves_create fun m => h m _
  refine preserves_seq_check ?_
  refine preserves_seq (preserves_create fun m => h m _) ?_
  refine preserves_seq hmake <| preserves_seq hmake <| preserves_seq hmake ?_
  refine preserves_seq hmake <| preserves_seq hmake <| preserves_seq hmake ?_
  refine preserves_seq hmake ?_
  refine preserves_seq (preserves_prim (fun _ m => h m _) fun _ _ => id) ?_
  refine preserves_seq (preserves_effect (fun m => h m _) fun k m hm => ?_) ?_
  · match k with
    | 0 => exact hm
    | 1 => exact h m _ hm
    | _ + 2 => exact h m _ hm
  refine preserves_seq (preserves_atomic fun m => h m _) ?_
  refine preserves_bind (preserves_bind (preserves_check _) fun _ =>
    preserves_atomic fun m => h m _) fun _ => ?_
  exact preserves_seq_check <| preserves_pure _

/-! ### Hooks -/

section
variable (h : ∀ m d, I m → I (m.project d))
include h

theorem preserves_hook : Preserves I hook :=
  preserves_seq (preserves_prim (fun _ m => h m _) fun _ _ => id) <| preserves_check _

theorem preserves_quiesce
    (hstop : ∀ m killed, I m → I (m.stopWorker w killed)) : Preserves I (quiesce w) := by
  refine preserves_seq (preserves_hook h) ?_
  refine preserves_prim (fun _ m => hstop m _) fun k m hm => ?_
  by_cases hk : k = 0
  · simpa [hk] using hm
  · simpa [hk] using hstop m _ hm

theorem preserves_health
    (hstart : ∀ m, I m → I { m with worker := true }) : Preserves I health := by
  refine preserves_seq (preserves_hook h) ?_
  refine preserves_prim (fun _ m => hstart m) fun k m hm => ?_
  by_cases hk : k = 0
  · simpa [hk] using hm
  · simpa [hk] using hstart m hm

theorem preserves_resume
    (hstart : ∀ m, I m → I { m with worker := true }) (pending : Bool) :
    Preserves I (resume w pending) := by
  have hfinalize : Preserves I (finalizeSetup pending) := by
    cases pending
    · exact preserves_pure _
    · exact preserves_hook h
  refine preserves_bind (preserves_check _) fun _ =>
    preserves_bind (preserves_demand _ _) fun _ => ?_
  refine preserves_seq (preserves_hook h) <| preserves_seq hfinalize ?_
  refine preserves_bind (preserves_health h hstart) fun _ => ?_
  exact preserves_seq (preserves_demand _ _) <| preserves_seq (preserves_hook h) <|
    preserves_pure _

end

theorem preserves_recoverDatabase (hroll : ∀ m, I m → I (rollBackJournal m))
    (hhalf : ∀ m j, m.live.files .databaseJournal = some j → I m →
      I (m.set ⟨.live, .file .database⟩ (some { j with bytes := w.torn }))) :
    Preserves I (recoverDatabase w) := by
  refine preserves_handle (preserves_check _) fun e => preserves_seq (preserves_demand _ _) ?_
  refine preserves_seq (preserves_effect hroll fun k m hm => ?_) <|
    preserves_seq_check <| preserves_check _
  match k with
  | 0 => exact hm
  | 1 =>
    -- the pages are half rolled back, and the journal is still there
    cases hj : m.live.files .databaseJournal with
    | none => simpa [hj] using hm
    | some j => simpa only [hj] using hhalf m j hj hm
  | _ + 2 => exact hroll m hm

theorem preserves_startWithoutReceipt (h : ∀ m d, I m → I (m.project d))
    (hstop : ∀ m killed, I m → I (m.stopWorker w killed))
    (hstart : ∀ m, I m → I { m with worker := true }) (hroll : ∀ m, I m → I (rollBackJournal m))
    (hhalf : ∀ m j, m.live.files .databaseJournal = some j → I m →
      I (m.set ⟨.live, .file .database⟩ (some { j with bytes := w.torn }))) :
    Preserves I (startWithoutReceipt w) := by
  have hhook : Preserves I hook := preserves_hook h
  have hquiesce : Preserves I (quiesce w) := preserves_quiesce h hstop
  refine preserves_bind (preserves_prim (fun _ _ => id) fun _ _ => id) fun pending => ?_
  refine preserves_seq (preserves_handle (preserves_check _) fun e => ?_) ?_
  · refine preserves_seq (preserves_demand _ _) <| preserves_seq hhook ?_
    exact preserves_seq hquiesce <| preserves_seq_check <|
      preserves_recoverDatabase hroll hhalf
  · refine preserves_seq_check <| preserves_seq hhook ?_
    exact preserves_seq hquiesce <| preserves_seq hhook <|
      preserves_resume h hstart pending

end

end ExitLane.Recovery
