import Mathlib.Algebra.Ring.Nat
import Mathlib.Data.Char
import Mathlib.Data.List.DropRight
import Mathlib.Data.List.Lex

/-!
# Python text and dictionaries

The `str` operations that configuration parsers rely on, over lists of
characters: `strip`, `splitlines`, `partition`, `split`, the newline translation
of files opened in text mode, and the equality of dictionaries. Parsers built on
top of them look only at stripped lines that are not blank (`contentLines`); the
laws proved here say how that list behaves under concatenation
(`contentLines_append_break`) and trailing white space
(`contentLines_append_space`).
-/

namespace Python

abbrev Text := List Char

instance : LawfulBEq Text := inferInstance

/-! ## Characters -/

/-- `str.isspace` on one character: what `str.strip` removes and `\s` matches. -/
def isSpace (c : Char) : Bool :=
  (9 ≤ c.toNat && c.toNat ≤ 13) || (28 ≤ c.toNat && c.toNat ≤ 32) || c.toNat == 0x85 ||
    c.toNat == 0xa0 || c.toNat == 0x1680 || (0x2000 ≤ c.toNat && c.toNat ≤ 0x200a) ||
    c.toNat == 0x2028 || c.toNat == 0x2029 || c.toNat == 0x202f || c.toNat == 0x205f ||
    c.toNat == 0x3000

/-- The characters at which `str.splitlines` ends a line. -/
def isLineBreak (c : Char) : Bool :=
  (10 ≤ c.toNat && c.toNat ≤ 13) || (28 ≤ c.toNat && c.toNat ≤ 30) || c.toNat == 0x85 ||
    c.toNat == 0x2028 || c.toNat == 0x2029

variable {t : Text} {c : Char} {w : Text} {sep : Char}

/-- A property of the characters of a text, from the check that runs over the text. -/
theorem forall_mem_of_all {p : Char → Bool} {b : Bool} (h : (t.all fun c => p c == b) = true) :
    ∀ c ∈ t, p c = b :=
  fun c hc => by simpa using List.all_eq_true.mp h c hc

theorem isAlphanum_iff : c.isAlphanum = true ↔
    ((65 ≤ c.toNat ∧ c.toNat ≤ 90) ∨ (97 ≤ c.toNat ∧ c.toNat ≤ 122)) ∨
      (48 ≤ c.toNat ∧ c.toNat ≤ 57) := by
  delta Char.isAlphanum Char.isAlpha Char.isUpper Char.isLower Char.isDigit
  simp only [Bool.or_eq_true, Bool.and_eq_true, decide_eq_true_eq]
  rfl

theorem isSpace_of_isLineBreak (h : isLineBreak c = true) : isSpace c = true := by
  simp only [isLineBreak, isSpace, Bool.or_eq_true, Bool.and_eq_true, decide_eq_true_eq,
    beq_iff_eq] at *
  omega

def AllSpace (t : Text) : Prop := ∀ c ∈ t, isSpace c = true
def NoBreak (t : Text) : Prop := ∀ c ∈ t, isLineBreak c = false

/-! ## Parsing every item of a list -/

theorem mapM_eq_some_iff {α β : Type} {f : α → Option β} : ∀ {l : List α} {r : List β},
    l.mapM f = some r ↔ l.map f = r.map some
  | [], r => by cases r <;> simp
  | a :: l, r => by
    simp only [List.mapM_cons, Option.bind_eq_bind, Option.bind_eq_some_iff, Option.pure_def,
      Option.some.injEq, mapM_eq_some_iff, List.map_cons]
    constructor
    · rintro ⟨b, hb, bs, hbs, rfl⟩
      simp [hb, hbs]
    · cases r with
      | nil => simp
      | cons b bs => simp +contextual

theorem mem_of_mapM_eq_some {α β : Type} {f : α → Option β} {l : List α} {r : List β}
    (h : l.mapM f = some r) : ∀ b ∈ r, ∃ a ∈ l, f a = some b := by
  intro b hb
  have hmem : some b ∈ l.map f := mapM_eq_some_iff.mp h ▸ List.mem_map_of_mem hb
  exact List.mem_map.mp hmem

theorem exists_of_mapM_eq_some {α β : Type} {f : α → Option β} {l : List α} {r : List β}
    (h : l.mapM f = some r) : ∀ a ∈ l, ∃ b ∈ r, f a = some b := by
  intro a ha
  have hmem : f a ∈ r.map some := mapM_eq_some_iff.mp h ▸ List.mem_map_of_mem ha
  obtain ⟨b, hb, hab⟩ := List.mem_map.mp hmem
  exact ⟨b, hb, hab.symm⟩

/-! ## Stripping -/

def lstrip (t : Text) : Text := t.dropWhile isSpace
def rstrip (t : Text) : Text := t.rdropWhile isSpace
def strip (t : Text) : Text := rstrip (lstrip t)

/-- A text that `strip` leaves alone. -/
def Stripped (t : Text) : Prop := strip t = t

instance (t : Text) : Decidable (Stripped t) := inferInstanceAs (Decidable (strip t = t))

theorem rstrip_decompose (t : Text) : ∃ w, AllSpace w ∧ t = rstrip t ++ w :=
  ⟨t.rtakeWhile isSpace, fun _ hc => List.mem_rtakeWhile_imp hc,
    (List.rdropWhile_append_rtakeWhile ..).symm⟩

theorem lstrip_decompose (t : Text) : ∃ w, AllSpace w ∧ t = w ++ lstrip t :=
  ⟨t.takeWhile isSpace, fun _ hc => List.mem_takeWhile_imp hc,
    (List.takeWhile_append_dropWhile ..).symm⟩

theorem infix_strip (t : Text) : strip t <:+: t := by
  obtain ⟨w, _, hw⟩ := lstrip_decompose t
  obtain ⟨v, _, hv⟩ := rstrip_decompose (lstrip t)
  refine ⟨w, v, ?_⟩
  rw [strip, List.append_assoc, ← hv, ← hw]

theorem noBreak_strip (h : NoBreak t) : NoBreak (strip t) :=
  fun c hc => h c ((infix_strip t).subset hc)

theorem rstrip_append_space (x : Text) (hw : AllSpace w) : rstrip (x ++ w) = rstrip x := by
  unfold rstrip List.rdropWhile
  rw [List.reverse_append, List.dropWhile_append_of_pos]
  intro c hc
  exact hw c (List.mem_reverse.mp hc)

theorem rstrip_rstrip (t : Text) : rstrip (rstrip t) = rstrip t := by
  obtain ⟨w, hw, ht⟩ := rstrip_decompose t
  conv_rhs => rw [ht, rstrip_append_space _ hw]

theorem rstrip_eq_nil (hw : AllSpace w) : rstrip w = [] := by
  simpa [rstrip] using rstrip_append_space [] hw

theorem strip_append_space (x : Text) (hw : AllSpace w) : strip (x ++ w) = strip x := by
  unfold strip lstrip
  rw [List.dropWhile_append]
  split
  · next h =>
    have hx : x.dropWhile isSpace = [] := by simpa using h
    have hs : AllSpace (w.dropWhile isSpace) :=
      fun c hc => hw c ((List.dropWhile_suffix _).subset hc)
    rw [hx, rstrip_eq_nil hs]
    rfl
  · exact rstrip_append_space _ hw

/-- The two ends decide whether a text is stripped. -/
theorem stripped_of_ends (hh : ∀ c, t.head? = some c → isSpace c = false)
    (hl : ∀ c, t.getLast? = some c → isSpace c = false) : Stripped t := by
  have hL : lstrip t = t := by
    cases t with
    | nil => rfl
    | cons c t => simp [lstrip, hh c rfl]
  rw [Stripped, strip, hL, rstrip, List.rdropWhile_eq_self_iff]
  intro hne
  simp [hl _ (List.getLast?_eq_some_getLast hne)]

theorem lstrip_head (t : Text) (c : Char) (h : (lstrip t).head? = some c) : isSpace c = false := by
  have := List.head?_dropWhile_not isSpace t
  rw [show t.dropWhile isSpace = lstrip t from rfl, h] at this
  simpa using this

theorem rstrip_last (t : Text) (c : Char) (h : (rstrip t).getLast? = some c) :
    isSpace c = false := by
  have hne : rstrip t ≠ [] := by
    intro h0
    rw [h0] at h
    simp at h
  have hl := List.rdropWhile_last_not isSpace t hne
  rw [List.getLast?_eq_some_getLast hne] at h
  cases h
  exact Bool.eq_false_iff.mpr hl

theorem strip_head (t : Text) (c : Char) (h : (strip t).head? = some c) : isSpace c = false := by
  obtain ⟨w, hw⟩ : strip t <+: lstrip t := List.rdropWhile_prefix ..
  apply lstrip_head t c
  rw [← hw]
  cases hs : strip t with
  | nil => simp [hs] at h
  | cons d s => rw [hs] at h; simpa using h

theorem stripped_strip (t : Text) : Stripped (strip t) :=
  stripped_of_ends (strip_head t) (rstrip_last (lstrip t))

theorem Stripped.head (h : Stripped t) (c : Char) (hc : t.head? = some c) : isSpace c = false :=
  strip_head t c (by rw [h]; exact hc)

theorem Stripped.last (h : Stripped t) (c : Char) (hc : t.getLast? = some c) : isSpace c = false :=
  rstrip_last (lstrip t) c (by rw [show rstrip (lstrip t) = t from h]; exact hc)

/-! ## Lines -/

/-- `str.splitlines`; the pair `\r\n` ends one line. -/
def splitlines : Text → List Text
  | [] => []
  | c :: t =>
    if c = '\r' ∧ t.head? = some '\n' then splitlines t
    else if isLineBreak c then [] :: splitlines t
    else match splitlines t with
      | [] => [[c]]
      | l :: ls => (c :: l) :: ls

/-- The stripped lines that are not blank. -/
def contentLines (t : Text) : List Text :=
  ((splitlines t).map strip).filter fun l => !l.isEmpty

private def keep (ls : List Text) : List Text := (ls.map strip).filter fun l => !l.isEmpty

private def prepend (u : Text) : List Text → List Text
  | [] => [u]
  | l :: ls => (u ++ l) :: ls

private theorem keep_cons (l : Text) (ls : List Text) : keep (l :: ls) = keep [l] ++ keep ls := by
  simp only [keep, List.map_cons, List.map_nil, List.filter_cons]
  split <;> simp

private theorem keep_nil_line : keep [[]] = [] := by decide

private theorem keep_prepend_nil (ls : List Text) : keep (prepend [] ls) = keep ls := by
  cases ls with
  | nil => decide
  | cons l ls => rfl

/-- `splitlines` and the plain split at every break differ by blank lines only. -/
private theorem keep_splitlines (t : Text) : ∀ u,
    keep (prepend u (splitlines t)) = keep (prepend u (t.splitOnP isLineBreak)) := by
  induction t with
  | nil => intro u; simp [splitlines, prepend, List.splitOnP_nil]
  | cons c t ih =>
    intro u
    have hflat : keep (splitlines t) = keep (t.splitOnP isLineBreak) := by
      have h := ih []
      rwa [keep_prepend_nil, keep_prepend_nil] at h
    rw [splitlines, List.splitOnP_cons_eq_if_modifyHead]
    by_cases hcr : c = '\r' ∧ t.head? = some '\n'
    · -- the `\r` of a pair: the plain split has one more blank line
      obtain ⟨rfl, hn⟩ := hcr
      obtain ⟨t', rfl⟩ : ∃ t', t = '\n' :: t' := by
        cases t with
        | nil => simp at hn
        | cons d t' => simp at hn; exact ⟨t', by rw [hn]⟩
      have hb : isLineBreak '\r' = true := by decide
      have hb' : isLineBreak '\n' = true := by decide
      have hstep : ('\n' :: t').splitOnP isLineBreak = [] :: t'.splitOnP isLineBreak := by
        rw [List.splitOnP_cons_eq_if_modifyHead, if_pos hb']
      rw [if_pos ⟨rfl, hn⟩, if_pos hb, ih u, hstep]
      simp only [prepend, List.append_nil]
      rw [keep_cons u (_ :: _), keep_cons [], keep_nil_line, List.nil_append, ← keep_cons]
    · rw [if_neg hcr]
      cases hb : isLineBreak c with
      | true =>
        simp only [if_true, prepend, List.append_nil]
        rw [keep_cons u (splitlines t), hflat, ← keep_cons]
      | false =>
        have h := ih (u ++ [c])
        simp only [Bool.false_eq_true, if_false]
        obtain ⟨m, ms, hm⟩ := List.exists_cons_of_ne_nil (List.splitOnP_ne_nil isLineBreak t)
        rw [hm] at h ⊢
        cases hs : splitlines t with
        | nil => rw [hs] at h; simpa [prepend] using h
        | cons l ls => rw [hs] at h; simpa [prepend] using h

private theorem contentLines_eq (t : Text) : contentLines t = keep (t.splitOnP isLineBreak) := by
  have h := keep_splitlines t []
  rwa [keep_prepend_nil, keep_prepend_nil] at h

@[simp] theorem contentLines_nil : contentLines [] = [] := rfl

/-- A line break cuts the content lines in two. -/
theorem contentLines_append_break (x y : Text) {b : Char} (hb : isLineBreak b = true) :
    contentLines (x ++ b :: y) = contentLines x ++ contentLines y := by
  simp only [contentLines_eq, List.splitOnP_append_cons x y hb]
  simp [keep]

theorem contentLines_of_noBreak (h : NoBreak t) :
    contentLines t = if strip t = [] then [] else [strip t] := by
  rw [contentLines_eq, List.splitOnP_eq_singleton h]
  by_cases hs : strip t = []
  · simp [keep, hs]
  · simp [keep, hs]

/-- A text either avoids a class of characters or has a last one in that class. -/
theorem split_last (p : Char → Bool) (x : Text) :
    (∀ c ∈ x, p c = false) ∨ ∃ y b z, x = y ++ b :: z ∧ p b = true ∧ ∀ c ∈ z, p c = false := by
  induction x with
  | nil => exact Or.inl (by simp)
  | cons c x ih =>
    rcases ih with h | ⟨y, b, z, rfl, hb, hz⟩
    · cases hc : p c with
      | true => exact Or.inr ⟨[], c, x, rfl, hc, h⟩
      | false =>
        refine Or.inl fun d hd => ?_
        rcases List.mem_cons.mp hd with rfl | hd
        · exact hc
        · exact h d hd
    · exact Or.inr ⟨c :: y, b, z, rfl, hb, hz⟩

private theorem contentLines_append_spaceChar (x : Text) (hs : isSpace c = true)
    (hb : isLineBreak c = false) : contentLines (x ++ [c]) = contentLines x := by
  have hone (z : Text) (hz : NoBreak z) : contentLines (z ++ [c]) = contentLines z := by
    have hzc : NoBreak (z ++ [c]) := by
      intro d hd
      rcases List.mem_append.mp hd with hd | hd
      · exact hz d hd
      · rw [List.mem_singleton.mp hd]; exact hb
    rw [contentLines_of_noBreak hzc, contentLines_of_noBreak hz,
      strip_append_space z (by intro d hd; rw [List.mem_singleton.mp hd]; exact hs)]
  rcases split_last isLineBreak x with h | ⟨y, b, z, rfl, hbr, hz⟩
  · exact hone x h
  · rw [List.append_assoc, List.cons_append, contentLines_append_break _ _ hbr,
      contentLines_append_break _ _ hbr, hone z hz]

/-- Trailing white space, line breaks included, adds no content line. -/
theorem contentLines_append_space (x : Text) (hw : AllSpace w) :
    contentLines (x ++ w) = contentLines x := by
  induction w generalizing x with
  | nil => simp
  | cons c w ih =>
    have hw' : AllSpace w := fun d hd => hw d (List.mem_cons_of_mem _ hd)
    cases hb : isLineBreak c with
    | true =>
      have h0 := ih [] hw'
      rw [List.nil_append, contentLines_nil] at h0
      rw [contentLines_append_break _ _ hb, h0, List.append_nil]
    | false =>
      rw [show x ++ c :: w = (x ++ [c]) ++ w by simp, ih _ hw',
        contentLines_append_spaceChar x (hw c (List.mem_cons_self ..)) hb]

theorem contentLines_rstrip (x : Text) : contentLines (rstrip x) = contentLines x := by
  obtain ⟨w, hw, hx⟩ := rstrip_decompose x
  conv_rhs => rw [hx]
  exact (contentLines_append_space _ hw).symm

theorem of_mem_splitOnP (p : Char → Bool) (t : Text) (l : Text) (hl : l ∈ t.splitOnP p) :
    (∀ c ∈ l, p c = false) ∧ l <:+: t := by
  -- cut off the last line and recurse on the text before it
  rcases split_last p t with h | ⟨y, b, z, rfl, hb, hz⟩
  · rw [List.splitOnP_eq_singleton h, List.mem_singleton] at hl
    subst hl
    exact ⟨h, List.infix_rfl⟩
  · rw [List.splitOnP_append_cons y z hb, List.splitOnP_eq_singleton hz, List.mem_append,
      List.mem_singleton] at hl
    rcases hl with hl | rfl
    · obtain ⟨hn, hin⟩ := of_mem_splitOnP p y l hl
      exact ⟨hn, hin.trans (List.prefix_append ..).isInfix⟩
    · exact ⟨hz, ((List.suffix_cons b l).trans (List.suffix_append ..)).isInfix⟩
termination_by t.length
decreasing_by simp_all

theorem not_mem_of_mem_splitOn {l : Text} (h : l ∈ t.splitOn sep) : sep ∉ l := by
  intro hm
  have := (of_mem_splitOnP (· == sep) t l h).1 sep hm
  simp at this

theorem mem_contentLines {l : Text} (h : l ∈ contentLines t) :
    l ≠ [] ∧ Stripped l ∧ NoBreak l ∧ l <:+: t := by
  rw [contentLines_eq] at h
  obtain ⟨hm, hne⟩ := List.mem_filter.mp h
  obtain ⟨m, hsplit, rfl⟩ := List.mem_map.mp hm
  obtain ⟨hb, hin⟩ := of_mem_splitOnP isLineBreak t m hsplit
  exact ⟨by simpa using hne, stripped_strip m, noBreak_strip hb, (infix_strip m).trans hin⟩

/-- The lines joined again, each with a line feed after it. -/
def unlines (ls : List Text) : Text := ls.flatMap fun l => l ++ ['\n']

theorem contentLines_unlines (ls : List Text) :
    contentLines (unlines ls) = ls.flatMap contentLines := by
  induction ls with
  | nil => rfl
  | cons l ls ih =>
    rw [unlines, List.flatMap_cons, List.append_assoc, List.singleton_append,
      contentLines_append_break _ _ (by decide), List.flatMap_cons, ← ih]
    rfl

theorem unlines_splitOn (t : Text) : unlines (t.splitOn '\n') = t ++ ['\n'] := by
  have join (ls : List Text) (h : ls ≠ []) : unlines ls = ['\n'].intercalate ls ++ ['\n'] := by
    induction ls with
    | nil => exact absurd rfl h
    | cons l ls ih =>
      cases ls with
      | nil => simp [unlines]
      | cons m ms =>
        have hm := ih (by simp)
        rw [unlines, List.flatMap_cons, ← unlines, hm, List.intercalate_cons_cons]
        simp
  rw [join _ (List.splitOn_ne_nil '\n' t), List.intercalate_splitOn]

theorem splitOn_unlines {ls : List Text} (h : ∀ l ∈ ls, '\n' ∉ l) :
    (unlines ls).splitOn '\n' = ls ++ [[]] := by
  induction ls with
  | nil => rfl
  | cons l ls ih =>
    rw [unlines, List.flatMap_cons, List.append_assoc, List.singleton_append, ← unlines,
      List.splitOn_append_cons_self_of_not_mem (h l (List.mem_cons_self ..)),
      ih fun m hm => h m (List.mem_cons_of_mem _ hm)]
    rfl

/-! ## Splitting -/

/-- `str.partition` and `str.split(sep, 1)` at one character; `none` when the
separator does not occur. -/
def partition (sep : Char) : Text → Option (Text × Text)
  | [] => none
  | c :: t => if c = sep then some ([], t) else (partition sep t).map fun p => (c :: p.1, p.2)

/-- `str.rpartition` at one character. -/
def rpartition (sep : Char) (t : Text) : Option (Text × Text) :=
  (partition sep t.reverse).map fun p => (p.2.reverse, p.1.reverse)

theorem partition_append (a b : Text) (h : sep ∉ a) :
    partition sep (a ++ sep :: b) = some (a, b) := by
  induction a with
  | nil => simp [partition]
  | cons c a ih =>
    have hc : c ≠ sep := fun e => h (by simp [e])
    have ha : sep ∉ a := fun e => h (List.mem_cons_of_mem _ e)
    simp [partition, hc, ih ha]

theorem rpartition_append (a b : Text) (h : sep ∉ b) :
    rpartition sep (a ++ sep :: b) = some (a, b) := by
  have hreverse : (a ++ sep :: b).reverse = b.reverse ++ sep :: a.reverse := by simp
  rw [rpartition, hreverse, partition_append _ _ (by simpa using h)]
  simp

/-- What follows the first separator does not move it. -/
theorem partition_append_right {a b : Text} (h : partition sep t = some (a, b)) (rest : Text) :
    partition sep (t ++ rest) = some (a, b ++ rest) := by
  induction t generalizing a with
  | nil => simp [partition] at h
  | cons c t ih =>
    rw [List.cons_append]
    by_cases hc : c = sep
    · simp only [partition, hc, if_true, Option.some.injEq, Prod.mk.injEq] at h ⊢
      exact ⟨h.1, by rw [h.2]⟩
    · simp only [partition, hc, if_false, Option.map_eq_some_iff] at h ⊢
      obtain ⟨p, hp, he⟩ := h
      cases he
      exact ⟨_, ih hp, rfl⟩

theorem partition_eq_some {a b : Text} (h : partition sep t = some (a, b)) : t = a ++ sep :: b := by
  induction t generalizing a with
  | nil => simp [partition] at h
  | cons c t ih =>
    by_cases hc : c = sep
    · simp only [partition, hc, if_true, Option.some.injEq, Prod.mk.injEq] at h
      rw [← h.1, ← h.2, hc]
      rfl
    · simp only [partition, hc, if_false, Option.map_eq_some_iff] at h
      obtain ⟨⟨a', b'⟩, hp, he⟩ := h
      simp only [Prod.mk.injEq] at he
      obtain ⟨rfl, rfl⟩ := he
      rw [ih hp]
      rfl

/-! ## Files opened in text mode -/

/-- The universal-newline translation of a file read in text mode. -/
def universalNewlines : Text → Text
  | [] => []
  | c :: t =>
    if c = '\r' then
      if t.head? = some '\n' then universalNewlines t else '\n' :: universalNewlines t
    else c :: universalNewlines t

theorem cr_not_mem_universalNewlines (t : Text) : '\r' ∉ universalNewlines t := by
  induction t with
  | nil => simp [universalNewlines]
  | cons c t ih =>
    unfold universalNewlines
    split
    · split
      · exact ih
      · simpa using ih
    · next hc =>
      intro hm
      rcases List.mem_cons.mp hm with h | h
      · exact hc h.symm
      · exact ih h

theorem universalNewlines_of_not_mem (h : '\r' ∉ t) : universalNewlines t = t := by
  induction t with
  | nil => rfl
  | cons c t ih =>
    have hc : c ≠ '\r' := fun e => h (by simp [e])
    rw [universalNewlines, if_neg hc, ih fun e => h (List.mem_cons_of_mem _ e)]

/-- The translation never joins or splits content lines. -/
theorem contentLines_universalNewlines (t : Text) :
    contentLines (universalNewlines t) = contentLines t := by
  -- the line read so far is carried along as `x`
  suffices h : ∀ x, contentLines (x ++ universalNewlines t) = contentLines (x ++ t) from h []
  induction t with
  | nil => intro x; rfl
  | cons c t ih =>
    intro x
    have hn : isLineBreak '\n' = true := by decide
    have hr : isLineBreak '\r' = true := by decide
    have h0 := ih []
    rw [List.nil_append, List.nil_append] at h0
    rw [universalNewlines]
    split
    · next hc =>
      subst hc
      rw [contentLines_append_break _ _ hr]
      split
      · next hh =>
        obtain ⟨t', rfl⟩ : ∃ t', t = '\n' :: t' := by
          cases t with
          | nil => simp at hh
          | cons d t' => simp at hh; exact ⟨t', by rw [hh]⟩
        rw [ih x, contentLines_append_break _ _ hn]
        rfl
      · rw [contentLines_append_break _ _ hn, h0]
    · rw [List.append_cons, ih (x ++ [c]), ← List.append_cons]

/-- Reading loses information exactly on files that hold a carriage return. -/
theorem universalNewlines_eq_self_iff (t : Text) : universalNewlines t = t ↔ '\r' ∉ t :=
  ⟨fun h => h ▸ cr_not_mem_universalNewlines t, universalNewlines_of_not_mem⟩

/-- The number of bytes of a text written as UTF-8. -/
def utf8Length (t : Text) : Nat := (t.map Char.utf8Size).sum

@[simp] theorem utf8Length_append (x y : Text) :
    utf8Length (x ++ y) = utf8Length x + utf8Length y := by
  simp [utf8Length]

theorem utf8Length_take_le (t : Text) (n : Nat) : utf8Length (t.take n) ≤ utf8Length t := by
  conv_rhs => rw [← List.take_append_drop n t, utf8Length_append]
  exact Nat.le_add_right ..

theorem utf8Length_of_ascii (h : ∀ c ∈ t, c.toNat ≤ 127) : utf8Length t = t.length := by
  have hsize : ∀ c ∈ t, c.utf8Size = 1 := fun c hc => Char.utf8Size_eq_one_iff.mpr (h c hc)
  rw [utf8Length, List.map_congr_left hsize]
  simp

/-! ## Numbers -/

/-- The zero of every decimal digit range of the Unicode database. -/
def decimalZeros : List Nat :=
  [0x30, 0x660, 0x6f0, 0x7c0, 0x966, 0x9e6, 0xa66, 0xae6, 0xb66, 0xbe6, 0xc66, 0xce6, 0xd66,
    0xde6, 0xe50, 0xed0, 0xf20, 0x1040, 0x1090, 0x17e0, 0x1810, 0x1946, 0x19d0, 0x1a80, 0x1a90,
    0x1b50, 0x1bb0, 0x1c40, 0x1c50, 0xa620, 0xa8d0, 0xa900, 0xa9d0, 0xa9f0, 0xaa50, 0xabf0,
    0xff10, 0x104a0, 0x10d30, 0x11066, 0x110f0, 0x11136, 0x111d0, 0x112f0, 0x11450, 0x114d0,
    0x11650, 0x116c0, 0x11730, 0x118e0, 0x11950, 0x11c50, 0x11d50, 0x11da0, 0x16a60, 0x16ac0,
    0x16b50, 0x1d7ce, 0x1d7d8, 0x1d7e2, 0x1d7ec, 0x1d7f6, 0x1e140, 0x1e2f0, 0x1e950, 0x1fbf0]

def decimalDigit (c : Char) : Option Nat :=
  decimalZeros.findSome? fun z =>
    if z ≤ c.toNat ∧ c.toNat < z + 10 then some (c.toNat - z) else none

/-- Digits with single underscores between them. The flag says whether the last
character was a digit, so that an underscore may follow and the text may end. -/
def digitsValue : Bool → Nat → Text → Option Nat
  | afterDigit, acc, [] => if afterDigit then some acc else none
  | afterDigit, acc, c :: t =>
    if c = '_' then if afterDigit then digitsValue false acc t else none
    else (decimalDigit c).bind fun d => digitsValue true (10 * acc + d) t

/-- `int(text)`, with the interpreter's limit of 4300 digits. -/
def parseInt (t : Text) : Option Int :=
  if 4300 < (t.filter fun c => (decimalDigit c).isSome).length then none
  else match strip t with
    | '-' :: ds => (digitsValue false 0 ds).map fun n => -(n : Int)
    | '+' :: ds => (digitsValue false 0 ds).map fun n => (n : Int)
    | ds => (digitsValue false 0 ds).map fun n => (n : Int)

/-- `str` of a natural number. -/
def natText (n : Nat) : Text := Nat.toDigits 10 n

theorem isSpace_of_isDigit (h : c.isDigit = true) : isSpace c = false := by
  simp only [Char.isDigit, Bool.and_eq_true, decide_eq_true_eq] at h
  have h1 : 48 ≤ c.toNat := h.1
  have h2 : c.toNat ≤ 57 := h.2
  simp only [isSpace, Bool.or_eq_false_iff, Bool.and_eq_false_iff, decide_eq_false_iff_not,
    beq_eq_false_iff_ne]
  omega

theorem decimalDigit_of_isDigit (h : c.isDigit = true) :
    decimalDigit c = some (c.toNat - '0'.toNat) := by
  have hle : '0'.toNat ≤ c.toNat ∧ c.toNat ≤ '9'.toNat := by
    simpa [Char.isDigit, Char.le_def, UInt32.le_iff_toNat_le] using h
  have hrange : 0x30 ≤ c.toNat ∧ c.toNat < 0x30 + 10 :=
    ⟨hle.1, Nat.lt_succ_of_le hle.2⟩
  rw [decimalDigit, decimalZeros, List.findSome?_cons, if_pos hrange]
  rfl

/-- Plain digits are read as a number of base ten. -/
theorem digitsValue_of_isDigit (h : ∀ c ∈ t, c.isDigit = true) (afterDigit : Bool) (acc : Nat)
    (hne : afterDigit = true ∨ t ≠ []) :
    digitsValue afterDigit acc t = some (Nat.ofDigitChars 10 t acc) := by
  induction t generalizing afterDigit acc with
  | nil =>
    obtain rfl : afterDigit = true := by simpa using hne
    rfl
  | cons c t ih =>
    rw [List.forall_mem_cons] at h
    have hc : c ≠ '_' := by
      rintro rfl
      exact absurd h.1 (by decide)
    rw [digitsValue, if_neg hc, decimalDigit_of_isDigit h.1, Option.bind_some,
      ih h.2 true _ (Or.inl rfl), Nat.ofDigitChars_cons]

theorem parseInt_natText {n : Nat} (h : (natText n).length ≤ 4300) :
    parseInt (natText n) = some (n : Int) := by
  have hdigits : ∀ c ∈ natText n, c.isDigit = true := fun c hc =>
    Nat.isDigit_of_mem_toDigits (by decide) (by decide) hc
  have hstrip : strip (natText n) = natText n := by
    exact stripped_of_ends
      (fun c hc => isSpace_of_isDigit (hdigits c (List.mem_of_mem_head? hc)))
      (fun c hc => isSpace_of_isDigit (hdigits c (List.mem_of_getLast? hc)))
  have hlength : ¬ 4300 < ((natText n).filter fun c => (decimalDigit c).isSome).length := by
    have := List.length_filter_le (fun c => (decimalDigit c).isSome) (natText n)
    omega
  have hvalue : digitsValue false 0 (natText n) = some n := by
    rw [digitsValue_of_isDigit hdigits false 0 (Or.inr Nat.toDigits_ne_nil), natText,
      Nat.ofDigitChars_toDigits (by decide) (by decide)]
  rw [parseInt, if_neg hlength, hstrip]
  split
  · next ds heq =>
    have := hdigits '-' (by simp [heq])
    exact absurd this (by decide)
  · next ds heq =>
    have := hdigits '+' (by simp [heq])
    exact absurd this (by decide)
  · rw [hvalue]
    rfl

/-- `str` of an integer. -/
def intText (i : Int) : Text := if i < 0 then '-' :: natText i.natAbs else natText i.natAbs

/-! ## Dictionaries -/

section FromKeys
variable {α : Type} [BEq α] [LawfulBEq α]

-- `tuple(dict.fromkeys(l))` is `l.eraseDups`: the first of equal entries stays
theorem nodup_eraseDups (l : List α) : l.eraseDups.Nodup := by
  induction hlength : l.length using Nat.strongRecOn generalizing l with
  | ind k ih =>
    subst hlength
    cases l with
    | nil => exact List.nodup_nil
    | cons a rest =>
      rw [List.eraseDups_cons]
      refine List.nodup_cons.mpr ⟨fun ha => ?_, ih _ ?_ _ rfl⟩
      · simp at ha
      · exact Nat.lt_succ_of_le (List.length_filter_le _ _)

end FromKeys

/-- Where each name stands once, a lookup finds what the list holds. -/
theorem lookup_eq_some_iff_mem {κ β : Type} [BEq κ] [LawfulBEq κ] {l : List (κ × β)}
    (hnodup : (l.map Prod.fst).Nodup) {k : κ} {v : β} : l.lookup k = some v ↔ (k, v) ∈ l := by
  induction l with
  | nil => simp
  | cons p l ih =>
    obtain ⟨k', v'⟩ := p
    rw [List.map_cons, List.nodup_cons] at hnodup
    by_cases hk : k = k'
    · subst hk
      have hnot : (k, v) ∉ l := fun hm => hnodup.1 (List.mem_map.mpr ⟨_, hm, rfl⟩)
      simp [hnot, eq_comm]
    · have hbeq : (k == k') = false := by simpa using hk
      simp [List.lookup_cons, hbeq, ih hnodup.2, hk]

section Dict
variable {κ β : Type} [DecidableEq κ] [DecidableEq β]

/-- `d.get(key)` for a dictionary built from the listed items: the last one wins. -/
def dictGet (d : List (κ × β)) (k : κ) : Option β := d.reverse.lookup k

/-- `==` of two dictionaries. -/
def dictEq (d e : List (κ × β)) : Bool :=
  (d.map Prod.fst ++ e.map Prod.fst).all fun k => dictGet d k == dictGet e k

omit [DecidableEq β] in
theorem dictGet_eq_some_iff {d : List (κ × β)} (h : (d.map Prod.fst).Nodup) (k : κ) (v : β) :
    dictGet d k = some v ↔ (k, v) ∈ d := by
  rw [dictGet, lookup_eq_some_iff_mem, List.mem_reverse]
  rw [List.map_reverse]
  exact List.pairwise_reverse.mpr (h.imp fun hne => hne.symm)

/-- Without repeated keys, equal dictionaries are equal sets of items. -/
theorem dictEq_iff {d e : List (κ × β)} (hd : (d.map Prod.fst).Nodup)
    (he : (e.map Prod.fst).Nodup) : dictEq d e = true ↔ ∀ p, p ∈ d ↔ p ∈ e := by
  rw [dictEq, List.all_eq_true]
  constructor
  · rintro h ⟨k, v⟩
    rw [← dictGet_eq_some_iff hd, ← dictGet_eq_some_iff he]
    by_cases hk : k ∈ d.map Prod.fst ++ e.map Prod.fst
    · rw [beq_iff_eq.mp (h k hk)]
    · have none_of {f : List (κ × β)} (hf : (f.map Prod.fst).Nodup) (hn : k ∉ f.map Prod.fst) :
          dictGet f k ≠ some v := by
        rw [Ne, dictGet_eq_some_iff hf]
        exact fun hm => hn (List.mem_map_of_mem hm)
      rw [List.mem_append, not_or] at hk
      exact iff_of_false (none_of hd hk.1) (none_of he hk.2)
  · intro h k _
    rw [beq_iff_eq]
    ext v
    rw [dictGet_eq_some_iff hd, dictGet_eq_some_iff he, h]

end Dict

end Python
