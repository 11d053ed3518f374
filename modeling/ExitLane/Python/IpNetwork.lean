import ExitLane.Python.IpAddress
import Mathlib.Data.List.GetD
import Mathlib.Data.List.Nodup
import Mathlib.Data.List.Range
import Mathlib.Tactic.Ring

/-!
# Networks and the text of IPv6 addresses

`str` of an IPv6 address leaves out the longest run of zero hextets. What is printed is read back
as the same address (`parseIPv6Int_text`): the empty part between the two colons is the only one
inside the list, wherever the run stands. `ip_network` accepts a scope after the address, and `str`
of the network repeats the scope as it was given.
-/

namespace IpAddress
open Python

/-! ## Hextets -/

def hexText (h : Nat) : Text := Nat.toDigits 16 h

/-- The value of hextets, the highest one first. -/
def joinHextets (hs : List Nat) : Nat := hs.foldl (fun n h => 65536 * n + h) 0

def hextets (n : Nat) : List Nat := (List.range 8).map fun k => n / 65536 ^ (7 - k) % 65536

theorem hexDigit_digitChar {d : Nat} (h : d < 16) : hexDigit (Nat.digitChar d) = some d := by
  have key : ∀ k : Fin 16, hexDigit (Nat.digitChar k) = some k.val := by decide
  exact key ⟨d, h⟩

private theorem hexDigits_value (h : Nat) :
    ∃ ds, (hexText h).mapM hexDigit = some ds ∧ ds.foldl (fun n d => 16 * n + d) 0 = h := by
  induction h using Nat.strongRecOn with
  | _ h ih =>
    by_cases hlt : h < 16
    · refine ⟨[h], ?_, by simp⟩
      simp [hexText, Nat.toDigits_of_lt_base hlt, hexDigit_digitChar hlt]
    · obtain ⟨ds, hds, hvalue⟩ := ih (h / 16) (by omega)
      refine ⟨ds ++ [h % 16], ?_, ?_⟩
      · rw [hexText, Nat.toDigits_of_base_le (by decide) (by omega), List.mapM_append]
        rw [hexText] at hds
        simp [hds, hexDigit_digitChar (Nat.mod_lt h (by decide))]
      · rw [List.foldl_append, hvalue]
        simp only [List.foldl_cons, List.foldl_nil]
        omega

variable {c : Char} {hs : List Nat} {n k : Nat} {high low : List Text} {t part : Text}
  {parts : List Text}

theorem isSome_hexDigit (h : c.isDigit = true) : (hexDigit c).isSome = true := by
  have hrange : 48 ≤ c.toNat ∧ c.toNat ≤ 57 := by
    simpa [Char.isDigit, UInt32.le_iff_toNat_le] using h
  simp [hexDigit, hrange]

theorem isAlphanum_of_hexDigit (h : (hexDigit c).isSome = true) : c.isAlphanum = true := by
  unfold hexDigit at h
  rw [isAlphanum_iff]
  split at h
  · omega
  · split at h
    · omega
    · split at h
      · omega
      · cases h

theorem not_mem_hexText (h : hexDigit c = none) (n : Nat) : c ∉ hexText n := by
  intro hc
  obtain ⟨ds, hds, -⟩ := hexDigits_value n
  obtain ⟨d, -, hd⟩ := exists_of_mapM_eq_some hds c hc
  cases h.symm.trans hd

theorem hexText_ne_nil (h : Nat) : hexText h ≠ [] := Nat.toDigits_ne_nil

theorem parseHextet_text {h : Nat} (hlt : h < 65536) : parseHextet (hexText h) = some h := by
  obtain ⟨ds, hds, hvalue⟩ := hexDigits_value h
  have hlen : (hexText h).length ≤ 4 :=
    (Nat.length_toDigits_le_iff (by decide) (by decide)).mpr (by simpa using hlt)
  have hguard : ((hexText h).isEmpty || decide (4 < (hexText h).length)) = false := by
    simp [hexText_ne_nil, hlen]
  rw [parseHextet, hguard, hds]
  simp [hvalue]

theorem hextetsValue_texts (h : ∀ x ∈ hs, x < 65536) :
    hextetsValue (hs.map hexText) = some (joinHextets hs) := by
  have hmap : (hs.map hexText).mapM parseHextet = some hs := by
    induction hs with
    | nil => rfl
    | cons x hs ih =>
      rw [List.forall_mem_cons] at h
      simp [parseHextet_text h.1, ih h.2]
  simp [hextetsValue, hmap, joinHextets]

private theorem foldl_hextets (hs : List Nat) (n : Nat) :
    hs.foldl (fun n h => 65536 * n + h) n = n * 65536 ^ hs.length + joinHextets hs := by
  induction hs generalizing n with
  | nil => simp [joinHextets]
  | cons h hs ih =>
    rw [joinHextets, List.foldl_cons, List.foldl_cons, ih, ih (65536 * 0 + h), List.length_cons,
      Nat.pow_succ]
    ring

theorem joinHextets_append (xs ys : List Nat) :
    joinHextets (xs ++ ys) = joinHextets xs * 65536 ^ ys.length + joinHextets ys := by
  rw [joinHextets, List.foldl_append, foldl_hextets]
  rfl

theorem joinHextets_replicate_zero (k : Nat) : joinHextets (List.replicate k 0) = 0 := by
  induction k with
  | zero => rfl
  | succ k ih =>
    rw [List.replicate_succ, show (0 :: List.replicate k 0) = [0] ++ List.replicate k 0 from rfl,
      joinHextets_append, ih]
    simp [joinHextets]

theorem joinHextets_hextets (h : n < 2 ^ 128) : joinHextets (hextets n) = n := by
  simp only [hextets, List.range, List.range.loop, List.map_cons, List.map_nil, joinHextets,
    List.foldl_cons, List.foldl_nil, Nat.reduceSub, Nat.reducePow]
  omega

theorem hextets_lt (n : Nat) : ∀ h ∈ hextets n, h < 65536 := by
  intro h hh
  obtain ⟨k, -, rfl⟩ := List.mem_map.mp hh
  exact Nat.mod_lt _ (by decide)

@[simp] theorem length_hextets (n : Nat) : (hextets n).length = 8 := by simp [hextets]

/-! ## The longest run of zeros -/

/-- The loop of `_compress_hextets`: start and length of the best run, then of the current one. -/
def scanZeros : List Nat → Nat → Nat × Nat → Nat × Nat → Nat × Nat
  | [], _, best, _ => best
  | h :: hs, index, best, run =>
    if h = 0 then
      let run := (if run.2 = 0 then index else run.1, run.2 + 1)
      scanZeros hs (index + 1) (if best.2 < run.2 then run else best) run
    else scanZeros hs (index + 1) best (0, 0)

/-- The zeros of the run stand at its start. -/
def IsRun (hs : List Nat) (run : Nat × Nat) : Prop :=
  ∃ high low, hs = high ++ List.replicate run.2 0 ++ low ∧ high.length = run.1

theorem IsRun.append {run : Nat × Nat} (h : IsRun hs run) (more : List Nat) :
    IsRun (hs ++ more) run := by
  obtain ⟨high, low, rfl, hlen⟩ := h
  exact ⟨high, low ++ more, by simp, hlen⟩

theorem isRun_scanZeros (hs seen : List Nat) (best run : Nat × Nat) (hbest : IsRun seen best)
    (hrun : ∃ high, seen = high ++ List.replicate run.2 0 ∧ (run.2 ≠ 0 → high.length = run.1)) :
    IsRun (seen ++ hs) (scanZeros hs seen.length best run) := by
  -- `hrun`: the current run ends where the loop stands
  induction hs generalizing seen best run with
  | nil => simpa [scanZeros] using hbest
  | cons h hs ih =>
    rw [show seen ++ h :: hs = (seen ++ [h]) ++ hs by simp, scanZeros,
      show seen.length + 1 = (seen ++ [h]).length by simp]
    split
    · next hzero =>
      subst hzero
      obtain ⟨high, hseen, hlen⟩ := hrun
      have hnext : seen ++ [0] = high ++ List.replicate (run.2 + 1) 0 := by
        rw [List.replicate_succ', ← List.append_assoc, ← hseen]
      have hstart : high.length = if run.2 = 0 then seen.length else run.1 := by
        split
        · next hz => simp [hseen, hz]
        · next hz => exact hlen hz
      refine ih _ _ _ ?_ ⟨high, hnext, fun _ => hstart⟩
      by_cases hlonger : best.2 < run.2 + 1
      · rw [if_pos hlonger]
        exact ⟨high, [], by simpa using hnext, hstart⟩
      · rw [if_neg hlonger]
        exact hbest.append [0]
    · exact ih _ _ _ (hbest.append [h]) ⟨seen ++ [h], by simp, fun h => absurd rfl h⟩

def zeroRun (hs : List Nat) : Nat × Nat := scanZeros hs 0 (0, 0) (0, 0)

theorem isRun_zeroRun (hs : List Nat) : IsRun hs (zeroRun hs) :=
  isRun_scanZeros hs [] (0, 0) (0, 0) ⟨[], [], rfl, rfl⟩ ⟨[], rfl, fun h => absurd rfl h⟩

/-- `_compress_hextets`. -/
def compressHextets (hs : List Nat) : List Text :=
  let texts := hs.map hexText
  let (start, length) := zeroRun hs
  if length ≤ 1 then texts
  else
    (if start = 0 then [[]] else []) ++ texts.take start ++ [[]] ++ texts.drop (start + length) ++
      (if start + length = hs.length then [[]] else [])

/-- `str` of an IPv6 address without a scope; an IPv4-mapped one ends in a dotted quad. -/
def ipv6Text (n : Nat) : Text :=
  if n / 2 ^ 32 = 0xffff then "::ffff:".toList ++ ipv4Text (n % 2 ^ 32)
  else [':'].intercalate (compressHextets (hextets n))

/-! ## What is printed is read back -/

/-- The parts around `::`; an end of the address that is left out is one more empty part. -/
def aroundGap (high low : List Text) : List Text :=
  (if high = [] then [[]] else high) ++ [] :: (if low = [] then [[]] else low)

private theorem filter_range_eq {p : Nat → Bool} {start length : Nat}
    (hk : start ≤ k ∧ k < start + length)
    (hp : ∀ j, start ≤ j → j < start + length → (p j = true ↔ j = k)) :
    (List.range' start length).filter p = [k] := by
  have hcongr : (List.range' start length).filter p =
      (List.range' start length).filter (· == k) := by
    refine List.filter_congr fun j hj => ?_
    obtain ⟨hle, hlt⟩ := List.mem_range'_1.mp hj
    rw [Bool.eq_iff_iff, hp j hle hlt, beq_iff_eq]
  have hcount : (List.range' start length).count k = 1 :=
    List.count_eq_one_of_mem List.nodup_range' (List.mem_range'_1.mpr hk)
  rw [hcongr, List.filter_beq, hcount]
  rfl

private theorem aroundGap_isEmpty (hh : ∀ t ∈ high, t ≠ []) (hl : ∀ t ∈ low, t ≠ []) {j : Nat}
    (hj : 1 ≤ j) (hlt : j + 1 < (aroundGap high low).length) :
    ((aroundGap high low).getD j []).isEmpty = true ↔
      j = (if high = [] then [[]] else high).length := by
  unfold aroundGap at *
  generalize hfront : (if high = [] then [[]] else high) = front at *
  generalize hback : (if low = [] then [[]] else low) = back at *
  have hinside {side other : List Text} (hs : (if side = [] then [[]] else side) = other)
      (hne : ∀ t ∈ side, t ≠ []) {k : Nat} (hk : k < other.length) (hlong : 1 < other.length) :
      other.getD k [] ≠ [] := by
    split at hs
    · subst hs
      simp at hlong
    · subst hs
      rw [List.getD_eq_getElem _ _ hk]
      exact hne _ (List.getElem_mem hk)
  rw [List.isEmpty_iff]
  rw [List.length_append, List.length_cons] at hlt
  rcases Nat.lt_trichotomy j front.length with hlow | heq | hhigh
  · rw [List.getD_append _ _ _ _ hlow]
    exact iff_of_false (hinside hfront hh hlow (by omega)) (by omega)
  · subst heq
    simp
  · rw [List.getD_append_right _ _ _ _ (by omega),
      show j - front.length = (j - front.length - 1) + 1 by omega, List.getD_cons_succ]
    exact iff_of_false (hinside hback hl (by omega) (by omega)) (by omega)

/-- An address with a gap is the hextets before it and the hextets behind it. -/
theorem parseIPv6Int_gap (hcolons : 3 ≤ (t.splitOn ':').length)
    (hparts : expandDottedQuad (t.splitOn ':') = some (aroundGap high low))
    (hh : ∀ x ∈ high, x ≠ []) (hl : ∀ x ∈ low, x ≠ []) (hlen : high.length + low.length < 8) :
    parseIPv6Int t = (hextetsValue high).bind fun hi => (hextetsValue low).map fun lo =>
      hi * 65536 ^ (8 - high.length) + lo := by
  have hfront : (if high = [] then [[]] else high).length = max 1 high.length := by
    split
    · next h => simp [h]
    · next h => have := List.length_pos_iff.mpr h; omega
  have hback : (if low = [] then [[]] else low).length = max 1 low.length := by
    split
    · next h => simp [h]
    · next h => have := List.length_pos_iff.mpr h; omega
  have hn : (aroundGap high low).length = max 1 high.length + 1 + max 1 low.length := by
    rw [aroundGap, List.length_append, List.length_cons, hfront, hback]
    omega
  have hhead : (aroundGap high low).head? = some [] ↔ high = [] := by
    cases high with
    | nil => simp [aroundGap]
    | cons a rest => simpa [aroundGap] using hh a List.mem_cons_self
  have hlast : (aroundGap high low).getLast? = some [] ↔ low = [] := by
    rcases List.eq_nil_or_concat' low with rfl | ⟨rest, a, rfl⟩
    · simp [aroundGap]
    · have ha := hl a (by simp)
      have hne : rest ++ [a] ≠ [] := by simp
      rw [aroundGap, if_neg hne, ← List.cons_append, ← List.append_assoc, List.getLast?_concat]
      simpa using ha
  have hskip : (List.range' 1 ((aroundGap high low).length - 2)).filter
      (fun k => ((aroundGap high low).getD k []).isEmpty) = [max 1 high.length] := by
    refine filter_range_eq (by omega) fun j hj hlt => ?_
    rw [aroundGap_isEmpty hh hl hj (by omega), hfront]
  unfold parseIPv6Int
  rw [if_neg (by omega), hparts, Option.bind_some]
  have hhigh : (if (aroundGap high low).head? = some [] then []
      else (aroundGap high low).take (max 1 high.length)) = high := by
    split
    · next h => exact (hhead.mp h).symm
    · next h =>
      rw [hhead] at h
      rw [← hfront, aroundGap, List.take_left', if_neg h]
      rfl
  have hlow : (if (aroundGap high low).getLast? = some [] then []
      else (aroundGap high low).drop (max 1 high.length + 1)) = low := by
    split
    · next h => exact (hlast.mp h).symm
    · next h =>
      rw [hlast] at h
      rw [← hfront, aroundGap, List.drop_append, List.drop_of_length_le (by omega),
        Nat.add_sub_cancel_left, if_neg h]
      rfl
  simp only [hskip, hhigh, hlow]
  rw [if_neg (by omega), if_neg, if_neg, if_neg (by omega)]
  · rw [hlast]
    rintro ⟨rfl, h⟩
    simp only [List.length_nil] at hn
    omega
  · rw [hhead]
    rintro ⟨rfl, h⟩
    exact h rfl

private theorem splitOn_part (c : Char) (h : c ∉ part) (rest : Text) :
    (part ++ c :: rest).splitOn c = part :: rest.splitOn c :=
  List.splitOn_append_cons_self_of_not_mem h rest

private theorem parse_mapped {m : Nat} (h : m < 2 ^ 32) :
    parseIPv6Int ("::ffff:".toList ++ ipv4Text m) = some (0xffff * 2 ^ 32 + m) := by
  have hcolon : ':' ∉ ipv4Text m := fun hm => by
    rcases mem_ipv4Text hm with hd | hd
    · exact absurd hd (by decide)
    · exact absurd hd (by decide)
  have hsplit : ("::ffff:".toList ++ ipv4Text m).splitOn ':' =
      [[], [], "ffff".toList, ipv4Text m] := by
    change ([] ++ ':' :: ([] ++ ':' :: ("ffff".toList ++ ':' :: ipv4Text m))).splitOn ':' = _
    rw [splitOn_part _ (by simp), splitOn_part _ (by simp), splitOn_part _ (by decide),
      List.splitOn_eq_singleton hcolon]
  have hdot : (ipv4Text m).contains '.' = true := by simp [ipv4Text]
  have hquad : expandDottedQuad [[], [], "ffff".toList, ipv4Text m] =
      some (aroundGap [] ([0xffff, m / 65536, m % 65536].map hexText)) := by
    simp only [expandDottedQuad, List.getLast?_cons_cons, List.getLast?_singleton, hdot, if_true,
      parseIPv4_text h]
    rfl
  have hsmall : ∀ x ∈ [0xffff, m / 65536, m % 65536], x < 65536 := by
    intro x hx
    simp only [List.mem_cons, List.not_mem_nil, or_false] at hx
    omega
  rw [parseIPv6Int_gap (by rw [hsplit]; simp) (by rw [hsplit]; exact hquad) (by simp)
    (by simp [hexText_ne_nil]) (by simp), hextetsValue_texts hsmall]
  simp only [hextetsValue, List.mapM_nil, joinHextets, List.foldl_cons, List.foldl_nil,
    Option.pure_def, Option.map_some, Option.bind_some, Option.some.injEq]
  omega

private theorem expandDottedQuad_plain (hne : parts ≠ []) (h : ∀ part ∈ parts, '.' ∉ part) :
    expandDottedQuad parts = some parts := by
  obtain ⟨last, hlast⟩ := Option.isSome_iff_exists.mp (List.getLast?_isSome.mpr hne)
  have hdot : last.contains '.' = false := by
    simpa using h last (List.mem_of_getLast? hlast)
  simp only [expandDottedQuad, hlast, hdot, Bool.false_eq_true, if_false]

/-- Without a gap all eight hextets are written. -/
private theorem parse_full (hlen : hs.length = 8) (h : ∀ x ∈ hs, x < 65536) :
    parseIPv6Int ([':'].intercalate (hs.map hexText)) = some (joinHextets hs) := by
  have hne : ∀ x ∈ hs.map hexText, x ≠ [] := by simp [hexText_ne_nil]
  have hnil : hs.map hexText ≠ [] := by
    intro h0
    rw [List.map_eq_nil_iff] at h0
    simp [h0] at hlen
  have hfree {c : Char} (hc : hexDigit c = none) : ∀ part ∈ hs.map hexText, c ∉ part := by
    intro part hpart
    obtain ⟨x, -, rfl⟩ := List.mem_map.mp hpart
    exact not_mem_hexText hc x
  have hsplit : ([':'].intercalate (hs.map hexText)).splitOn ':' = hs.map hexText :=
    List.splitOn_intercalate ':' (hfree (by decide)) hnil
  have hskip : (List.range' 1 ((hs.map hexText).length - 2)).filter
      (fun k => ((hs.map hexText).getD k []).isEmpty) = [] := by
    rw [List.filter_eq_nil_iff]
    intro k hk
    have hlt : k < (hs.map hexText).length := by
      have := (List.mem_range'_1.mp hk)
      omega
    rw [List.isEmpty_iff, List.getD_eq_getElem _ _ hlt]
    exact hne _ (List.getElem_mem hlt)
  unfold parseIPv6Int
  rw [hsplit, expandDottedQuad_plain hnil (hfree (by decide)), Option.bind_some]
  simp only [hskip]
  rw [if_neg (by simp [hlen]), if_neg (by simp [hlen]), if_neg, hextetsValue_texts h]
  rintro (h8 | hhead | hlast)
  · exact h8 (by simp [hlen])
  · exact hne [] (List.mem_of_mem_head? hhead) rfl
  · exact hne [] (List.mem_of_getLast? hlast) rfl

private theorem compress_gap {high low : List Nat} (hk : 1 < k)
    (hhs : hs = high ++ List.replicate k 0 ++ low) (hrun : zeroRun hs = (high.length, k)) :
    compressHextets hs = aroundGap (high.map hexText) (low.map hexText) := by
  have hhigh : (hs.map hexText).take high.length = high.map hexText := by simp [hhs]
  have hlow : (hs.map hexText).drop (high.length + k) = low.map hexText := by
    rw [hhs, List.map_append]
    exact List.drop_left' (by simp)
  have hend : high.length + k = hs.length ↔ low = [] := by
    rw [hhs]
    simp
  simp only [compressHextets, hrun, if_neg (Nat.not_le.mpr hk), hhigh, hlow, hend, aroundGap,
    List.map_eq_nil_iff, List.length_eq_zero_iff]
  rcases high with _ | ⟨a, high⟩
  · rcases low with _ | ⟨b, low⟩
    · rfl
    · simp
  · rcases low with _ | ⟨b, low⟩
    · simp
    · simp

private theorem mem_aroundGap (h : part ∈ aroundGap high low) :
    part = [] ∨ part ∈ high ∨ part ∈ low := by
  have hside {side : List Text} (hm : part ∈ if side = [] then [[]] else side) :
      part = [] ∨ part ∈ side := by
    split at hm
    · exact .inl (List.mem_singleton.mp hm)
    · exact .inr hm
  rw [aroundGap, List.mem_append, List.mem_cons] at h
  rcases h with h | h | h
  · exact (hside h).imp id .inl
  · exact .inl h
  · exact (hside h).imp id .inr

/-- With a gap the zeros are those that are missing. -/
private theorem parse_gap {high low : List Nat} (hk : 1 < k)
    (hlen : high.length + k + low.length = 8) (hh : ∀ x ∈ high, x < 65536)
    (hl : ∀ x ∈ low, x < 65536) :
    parseIPv6Int ([':'].intercalate (aroundGap (high.map hexText) (low.map hexText))) =
      some (joinHextets (high ++ List.replicate k 0 ++ low)) := by
  have hne (hs : List Nat) : ∀ x ∈ hs.map hexText, x ≠ [] := by simp [hexText_ne_nil]
  have hfree {c : Char} (hc : hexDigit c = none) :
      ∀ part ∈ aroundGap (high.map hexText) (low.map hexText), c ∉ part := by
    intro part hpart
    have hhex {hs : List Nat} (hm : part ∈ hs.map hexText) : c ∉ part := by
      obtain ⟨x, -, rfl⟩ := List.mem_map.mp hm
      exact not_mem_hexText hc x
    rcases mem_aroundGap hpart with rfl | hm | hm
    · exact List.not_mem_nil
    · exact hhex hm
    · exact hhex hm
  have hnil : aroundGap (high.map hexText) (low.map hexText) ≠ [] := by simp [aroundGap]
  have hsplit := List.splitOn_intercalate ':' (hfree (by decide)) hnil
  have hlong : 3 ≤ (aroundGap (high.map hexText) (low.map hexText)).length := by
    rw [aroundGap, List.length_append, List.length_cons]
    have hside (side : List Text) : 1 ≤ (if side = [] then [[]] else side).length := by
      split
      · simp
      · next h => exact List.length_pos_iff.mpr h
    have := hside (high.map hexText)
    have := hside (low.map hexText)
    omega
  rw [parseIPv6Int_gap (by rw [hsplit]; exact hlong)
    (by rw [hsplit]; exact expandDottedQuad_plain hnil (hfree (by decide))) (hne high) (hne low)
    (by simp only [List.length_map]; omega), hextetsValue_texts hh, hextetsValue_texts hl]
  simp only [Option.bind_some, Option.map_some, List.length_map, Option.some.injEq]
  rw [joinHextets_append, joinHextets_append, joinHextets_replicate_zero, Nat.add_zero,
    List.length_replicate, show 8 - high.length = k + low.length by omega, Nat.pow_add,
    Nat.mul_assoc]

theorem parseIPv6Int_text (h : n < 2 ^ 128) : parseIPv6Int (ipv6Text n) = some n := by
  unfold ipv6Text
  split
  · next hmapped =>
    rw [parse_mapped (Nat.mod_lt n (by decide)), Option.some.injEq, ← hmapped]
    exact Nat.div_add_mod' n (2 ^ 32)
  · have hvalue := joinHextets_hextets h
    have hsmall := hextets_lt n
    have hlen := length_hextets n
    generalize hextets n = hs at *
    obtain ⟨high, low, hhs, hstart⟩ := isRun_zeroRun hs
    by_cases hk : (zeroRun hs).2 ≤ 1
    · have hall : compressHextets hs = hs.map hexText := by
        rw [compressHextets]
        exact if_pos hk
      rw [hall, parse_full hlen hsmall, hvalue]
    · have hsum := congrArg List.length hhs
      simp only [hlen, List.length_append, List.length_replicate] at hsum
      rw [compress_gap (by omega) hhs (Prod.ext hstart.symm rfl),
        parse_gap (k := (zeroRun hs).2) (by omega) hsum.symm, ← hhs, hvalue]
      · exact fun x hx => hsmall x (by rw [hhs]; simp [hx])
      · exact fun x hx => hsmall x (by rw [hhs]; simp [hx])

example : ipv6Text 0x20010db8000000000000000000000001 = "2001:db8::1".toList := by decide

private theorem mem_intercalate {sep : Char} (h : c ∈ [sep].intercalate parts) :
    c = sep ∨ ∃ part ∈ parts, c ∈ part := by
  induction parts with
  | nil => simp [List.intercalate] at h
  | cons part parts ih =>
    cases parts with
    | nil => exact .inr ⟨part, List.mem_singleton_self part, by simpa [List.intercalate] using h⟩
    | cons next parts =>
      rw [List.intercalate_cons_cons] at h
      simp only [List.mem_append, List.mem_singleton] at h
      rcases h with (h | h) | h
      · exact .inr ⟨part, List.mem_cons_self, h⟩
      · exact .inl h
      · exact (ih h).imp id fun ⟨x, hx, hc⟩ => ⟨x, List.mem_cons_of_mem _ hx, hc⟩

private theorem mem_compressHextets (h : part ∈ compressHextets hs) :
    part = [] ∨ ∃ x, part = hexText x := by
  have htexts {l : List Text} (hl : l ⊆ hs.map hexText) (hm : part ∈ l) :
      ∃ x, part = hexText x := by
    obtain ⟨x, -, rfl⟩ := List.mem_map.mp (hl hm)
    exact ⟨x, rfl⟩
  have hpad {c : Prop} [Decidable c] (hm : part ∈ if c then [[]] else []) : part = [] := by
    split at hm
    · exact List.mem_singleton.mp hm
    · cases hm
  unfold compressHextets at h
  simp only at h
  split at h
  · exact .inr (htexts (fun _ => id) h)
  · simp only [List.mem_append] at h
    rcases h with (((h | h) | h) | h) | h
    · exact .inl (hpad h)
    · exact .inr (htexts (List.take_subset _ _) h)
    · exact .inl (List.mem_singleton.mp h)
    · exact .inr (htexts (List.drop_subset _ _) h)
    · exact .inl (hpad h)

/-- A printed address holds hexadecimal digits, colons and dots only. -/
theorem mem_ipv6Text (h : c ∈ ipv6Text n) : (hexDigit c).isSome = true ∨ c = ':' ∨ c = '.' := by
  unfold ipv6Text at h
  split at h
  · rcases List.mem_append.mp h with h | h
    · have key : ("::ffff:".toList.all fun c => (hexDigit c).isSome || c == ':' || c == '.') =
          true := by decide
      simpa [or_assoc] using List.all_eq_true.mp key c h
    · rcases mem_ipv4Text h with h | h
      · exact .inl (isSome_hexDigit h)
      · exact .inr (.inr h)
  · rcases mem_intercalate h with h | ⟨part, hpart, hc⟩
    · exact .inr (.inl h)
    · rcases mem_compressHextets hpart with rfl | ⟨x, rfl⟩
      · cases hc
      · obtain ⟨ds, hds, -⟩ := hexDigits_value x
        obtain ⟨d, -, hd⟩ := exists_of_mapM_eq_some hds c hc
        exact .inl (Option.isSome_iff_exists.mpr ⟨d, hd⟩)

/-! ## What is read is an address -/

private theorem hexDigit_lt {d : Nat} (h : hexDigit c = some d) : d < 16 := by
  unfold hexDigit at h
  split at h
  · cases h
    omega
  · split at h
    · cases h
      omega
    · split at h
      · cases h
        omega
      · cases h

private theorem foldl_lt {base : Nat} {ds : List Nat} (h : ∀ d ∈ ds, d < base) :
    ds.foldl (fun n d => base * n + d) 0 < base ^ ds.length := by
  have key (ds : List Nat) (h : ∀ d ∈ ds, d < base) (n : Nat) :
      ds.foldl (fun n d => base * n + d) n < (n + 1) * base ^ ds.length := by
    induction ds generalizing n with
    | nil => simp
    | cons d ds ih =>
      rw [List.forall_mem_cons] at h
      rw [List.foldl_cons, List.length_cons]
      refine (ih h.2 _).trans_le ?_
      have hle : base * n + d + 1 ≤ (n + 1) * base := by
        rw [Nat.add_mul, Nat.one_mul, Nat.mul_comm n base]
        omega
      calc (base * n + d + 1) * base ^ ds.length
          ≤ (n + 1) * base * base ^ ds.length := Nat.mul_le_mul_right _ hle
        _ = (n + 1) * base ^ (ds.length + 1) := by rw [Nat.pow_succ]; ring
  simpa using key ds h 0

private theorem forall_of_mapM {α : Type} {f : α → Option Nat} {bound : Nat}
    (hf : ∀ a d, f a = some d → d < bound) {l : List α} {ds : List Nat} (h : l.mapM f = some ds) :
    ds.length = l.length ∧ ∀ d ∈ ds, d < bound := by
  refine ⟨?_, fun d hd => ?_⟩
  · simpa using (congrArg List.length (mapM_eq_some_iff.mp h)).symm
  · obtain ⟨a, -, ha⟩ := mem_of_mapM_eq_some h d hd
    exact hf a d ha

private theorem parseHextet_lt {h : Nat} (ht : parseHextet t = some h) : h < 65536 := by
  unfold parseHextet at ht
  split at ht
  · cases ht
  · next hguard =>
    obtain ⟨ds, hds, rfl⟩ := Option.map_eq_some_iff.mp ht
    obtain ⟨hlen, hall⟩ := forall_of_mapM (fun _ _ => hexDigit_lt) hds
    simp only [Bool.or_eq_true, decide_eq_true_eq, not_or, Nat.not_lt] at hguard
    calc ds.foldl (fun n d => 16 * n + d) 0 < 16 ^ ds.length := foldl_lt hall
      _ ≤ 16 ^ 4 := Nat.pow_le_pow_right (by decide) (by omega)

private theorem hextetsValue_lt (h : hextetsValue parts = some n) : n < 65536 ^ parts.length := by
  obtain ⟨hs, hmap, rfl⟩ := Option.map_eq_some_iff.mp h
  obtain ⟨hlen, hall⟩ := forall_of_mapM (fun _ _ => parseHextet_lt) hmap
  rw [← hlen]
  exact foldl_lt hall

theorem parseIPv6Int_lt (h : parseIPv6Int t = some n) : n < 2 ^ 128 := by
  unfold parseIPv6Int at h
  split at h
  · cases h
  · obtain ⟨parts, -, h⟩ := Option.bind_eq_some_iff.mp h
    simp only at h
    split at h
    · cases h
    · split at h
      · split at h
        · cases h
        · next hends =>
          have := hextetsValue_lt h
          rw [not_or, not_not] at hends
          rw [hends.1] at this
          exact this
      · next skip _ =>
        split at h
        · cases h
        · split at h
          · cases h
          · generalize (if parts.head? = some [] then [] else parts.take skip) = high at h
            generalize (if parts.getLast? = some [] then [] else parts.drop (skip + 1)) = low at h
            split at h
            · cases h
            · next hlen =>
              obtain ⟨hi, hhi, h⟩ := Option.bind_eq_some_iff.mp h
              obtain ⟨lo, hlo, rfl⟩ := Option.map_eq_some_iff.mp h
              have h1 := hextetsValue_lt hhi
              have h2 := hextetsValue_lt hlo
              have h3 : 65536 ^ low.length ≤ 65536 ^ (8 - high.length) :=
                Nat.pow_le_pow_right (by decide) (by omega)
              calc hi * 65536 ^ (8 - high.length) + lo
                  < (hi + 1) * 65536 ^ (8 - high.length) := by
                    rw [Nat.add_mul, Nat.one_mul]
                    omega
                _ ≤ 65536 ^ high.length * 65536 ^ (8 - high.length) :=
                    Nat.mul_le_mul_right _ h1
                _ = 2 ^ 128 := by
                    rw [← Nat.pow_add, Nat.add_sub_cancel' (by omega)]
                    decide
      · cases h

/-- The characters of a text that is read as an address. -/
def IsAddressChar (c : Char) : Prop := (hexDigit c).isSome = true ∨ c = ':' ∨ c = '.'

private theorem mem_of_hextetsValue (h : hextetsValue parts = some n) (hpart : part ∈ parts)
    (hc : c ∈ part) : (hexDigit c).isSome = true := by
  obtain ⟨hs, hmap, -⟩ := Option.map_eq_some_iff.mp h
  obtain ⟨x, -, hx⟩ := exists_of_mapM_eq_some hmap part hpart
  unfold parseHextet at hx
  split at hx
  · cases hx
  · obtain ⟨ds, hds, -⟩ := Option.map_eq_some_iff.mp hx
    obtain ⟨d, -, hd⟩ := exists_of_mapM_eq_some hds c hc
    exact Option.isSome_iff_exists.mpr ⟨d, hd⟩

/-- Around the one empty part inside the list, the sides cover all characters. -/
private theorem mem_sides {skip : Nat} (hskip : skip < parts.length)
    (hempty : parts.getD skip [] = []) (hhead : parts.head? = some [] → skip = 1)
    (hlast : parts.getLast? = some [] → skip + 2 = parts.length) (hpart : part ∈ parts)
    (hc : c ∈ part) :
    part ∈ (if parts.head? = some [] then [] else parts.take skip) ∨
      part ∈ (if parts.getLast? = some [] then [] else parts.drop (skip + 1)) := by
  rw [List.getD_eq_getElem _ _ hskip] at hempty
  rw [← List.take_append_drop skip parts, List.drop_eq_getElem_cons hskip, hempty,
    List.mem_append, List.mem_cons] at hpart
  rcases hpart with hpart | rfl | hpart
  · by_cases h : parts.head? = some []
    · rw [hhead h] at hpart
      cases parts with
      | nil => cases h
      | cons first rest =>
        cases h
        cases List.mem_singleton.mp hpart
        cases hc
    · exact .inl (by rwa [if_neg h])
  · cases hc
  · by_cases h : parts.getLast? = some []
    · have hone : (parts.drop (skip + 1)).length = 1 := by
        rw [List.length_drop, ← hlast h]
        omega
      have hget : (parts.drop (skip + 1)).getLast? = some [] := by
        rw [List.getLast?_drop, if_neg (by have := hlast h; omega), h]
      obtain ⟨only, honly⟩ := List.length_eq_one_iff.mp hone
      rw [honly] at hpart hget
      cases hget
      cases List.mem_singleton.mp hpart
      cases hc
    · exact .inr (by rwa [if_neg h])

/-- Only hexadecimal digits, colons and dots are read as an address. -/
theorem isAddressChar_of_parseIPv6Int (h : parseIPv6Int t = some n) (hc : c ∈ t) :
    IsAddressChar c := by
  unfold parseIPv6Int at h
  split at h
  · cases h
  · obtain ⟨parts, hparts, h⟩ := Option.bind_eq_some_iff.mp h
    have hinner : ∀ part ∈ parts, ∀ d ∈ part, (hexDigit d).isSome = true := by
      intro part hpart d hd
      simp only at h
      split at h
      · cases h
      · split at h
        · split at h
          · cases h
          · exact mem_of_hextetsValue h hpart hd
        · next skip hfilter =>
          have hmem : skip ∈ (List.range' 1 (parts.length - 2)).filter fun k =>
              (parts.getD k []).isEmpty := hfilter ▸ List.mem_singleton_self skip
          obtain ⟨hrange, hempty⟩ := List.mem_filter.mp hmem
          rw [List.mem_range'_1] at hrange
          split at h
          · cases h
          · next hhead =>
            split at h
            · cases h
            · next hlast =>
              obtain ⟨-, h⟩ := Option.ite_none_left_eq_some.mp h
              obtain ⟨hi, hhi, h⟩ := Option.bind_eq_some_iff.mp h
              obtain ⟨lo, hlo, -⟩ := Option.map_eq_some_iff.mp h
              simp only [not_and, not_not] at hhead hlast
              rcases mem_sides (by omega) (List.isEmpty_iff.mp hempty) hhead
                (fun h => by have := hlast h; omega) hpart hd with hside | hside
              · exact mem_of_hextetsValue hhi hside hd
              · exact mem_of_hextetsValue hlo hside hd
        · cases h
    have hjoin : [':'].intercalate (t.splitOn ':') = t := List.intercalate_splitOn ':'
    rw [← hjoin] at hc
    rcases mem_intercalate hc with hc | ⟨part, hpart, hc⟩
    · exact .inr (.inl hc)
    · unfold expandDottedQuad at hparts
      split at hparts
      · next last hlast =>
        split at hparts
        · -- the last part is a dotted quad, the parts before it are kept
          obtain ⟨m, hm, rfl⟩ := Option.map_eq_some_iff.mp hparts
          rw [← List.dropLast_append_getLast? last hlast, List.mem_append,
            List.mem_singleton] at hpart
          rcases hpart with hpart | rfl
          · exact .inl (hinner part (List.mem_append_left _ hpart) c hc)
          · rw [(parseIPv4_eq_some hm).1] at hc
            rcases mem_ipv4Text hc with hdigit | hdot
            · exact .inl (isSome_hexDigit hdigit)
            · exact .inr (.inr hdot)
        · cases hparts
          exact .inl (hinner part hpart c hc)
      · cases hparts

/-! ## Networks -/

inductive Network where
  | v4 (interface : Interface)
  | v6 (address : IPv6Address) (prefixLength : Nat)
deriving DecidableEq

/-- `IPv6Network(text, strict=True)`. -/
def parseIPv6Network (t : Text) : Option Network :=
  match t.splitOn '/' with
  | [address] => (parseIPv6 address).map (.v6 · 128)
  | [address, mask] =>
    match parseIPv6 address, parsePrefixLength 128 mask with
    | some a, some p => if a.ip % 2 ^ (128 - p) == 0 then some (.v6 a p) else none
    | _, _ => none
  | _ => none

/-- `ip_network(text, strict=True)`. -/
def parseAnyNetwork (t : Text) : Option Network :=
  match parseNetwork t with
  | some i => some (.v4 i)
  | none => parseIPv6Network t

namespace Network

def prefixLength : Network → Nat
  | .v4 i => i.prefixLength
  | .v6 _ p => p

def scopeId : Network → Option Text
  | .v4 _ => none
  | .v6 a _ => a.scopeId

/-- The network address has no host bits. -/
def Valid : Network → Prop
  | .v4 i => i.ip = i.networkAddress
  | .v6 a p => a.ip < 2 ^ 128 ∧ p ≤ 128 ∧ a.ip % 2 ^ (128 - p) = 0

/-- `str` of a network address. -/
def addressText : Network → Text
  | .v4 i => ipv4Text i.networkAddress
  | .v6 a _ => ipv6Text a.ip ++ (match a.scopeId with
    | some scope => '%' :: scope
    | none => [])

/-- `str` of a network. -/
def text (n : Network) : Text := n.addressText ++ '/' :: natText n.prefixLength

end Network

theorem parseIPv6_lt {a : IPv6Address} (h : parseIPv6 t = some a) : a.ip < 2 ^ 128 := by
  unfold parseIPv6 at h
  split at h
  · cases h
  · split at h
    · obtain ⟨n, hn, rfl⟩ := Option.map_eq_some_iff.mp h
      exact parseIPv6Int_lt hn
    · split at h
      · cases h
      · obtain ⟨n, hn, rfl⟩ := Option.map_eq_some_iff.mp h
        exact parseIPv6Int_lt hn

theorem valid_of_parseAnyNetwork {n : Network} (h : parseAnyNetwork t = some n) : n.Valid := by
  unfold parseAnyNetwork at h
  split at h
  · next i hi =>
    cases h
    simpa [Network.Valid] using (Option.filter_eq_some_iff.mp hi).2
  · unfold parseIPv6Network at h
    split at h
    · obtain ⟨a, ha, rfl⟩ := Option.map_eq_some_iff.mp h
      exact ⟨parseIPv6_lt ha, Nat.le_refl _, Nat.mod_one _⟩
    · split at h
      · next a p ha hp =>
        split at h
        · next hbits =>
          cases h
          exact ⟨parseIPv6_lt ha, parsePrefixLength_le hp, by simpa using hbits⟩
        · cases h
      · cases h
    · cases h

theorem parseIPv6_scope {a : IPv6Address} (h : parseIPv6 t = some a) {scope : Text}
    (hscope : a.scopeId = some scope) :
    scope ≠ [] ∧ '%' ∉ scope ∧ '/' ∉ scope ∧ ∀ c ∈ scope, c ∈ t := by
  unfold parseIPv6 at h
  split at h
  · cases h
  · next hslash =>
    split at h
    · obtain ⟨n, -, rfl⟩ := Option.map_eq_some_iff.mp h
      cases hscope
    · next address scope' hpart =>
      split at h
      · cases h
      · next hbad =>
        obtain ⟨n, -, rfl⟩ := Option.map_eq_some_iff.mp h
        cases hscope
        have hsub : ∀ c ∈ scope, c ∈ t := by
          intro c hc
          rw [partition_eq_some hpart]
          simp [hc]
        simp only [Bool.or_eq_true, not_or, List.contains_iff_mem, List.isEmpty_iff] at hbad hslash
        exact ⟨hbad.1, hbad.2, fun hc => hslash (hsub _ hc), hsub⟩

theorem not_mem_of_parseIPv6Int (h : parseIPv6Int t = some n) (hdigit : hexDigit c = none)
    (hcolon : c ≠ ':') (hdot : c ≠ '.') : c ∉ t := by
  intro hc
  rcases isAddressChar_of_parseIPv6Int h hc with hc | hc | hc
  · rw [hdigit] at hc
    cases hc
  · exact hcolon hc
  · exact hdot hc

theorem colon_mem_of_parseIPv6Int (h : parseIPv6Int t = some n) : ':' ∈ t := by
  by_contra hcolon
  rw [parseIPv6Int, List.splitOn_eq_singleton hcolon] at h
  simp at h

/-- A scope after a percent sign, or nothing. -/
def scopeText (scope : Option Text) : Text := scope.elim [] ('%' :: ·)

theorem parseIPv6_join {address : Text} (h : parseIPv6Int address = some n) {scope : Option Text}
    (hscope : ∀ s, scope = some s → s ≠ [] ∧ '%' ∉ s ∧ '/' ∉ s) :
    parseIPv6 (address ++ scopeText scope) = some ⟨n, scope⟩ := by
  have hslash := not_mem_of_parseIPv6Int h (c := '/') (by decide) (by decide) (by decide)
  have hpercent := not_mem_of_parseIPv6Int h (c := '%') (by decide) (by decide) (by decide)
  unfold parseIPv6
  cases scope with
  | none =>
    have hnone : Python.partition '%' address = none := by
      cases hpart : Python.partition '%' address with
      | none => rfl
      | some p =>
        rw [partition_eq_some hpart] at hpercent
        simp at hpercent
    simp [scopeText, hslash, hnone, h]
  | some s =>
    obtain ⟨hne, hp, hs⟩ := hscope s rfl
    have hpart : Python.partition '%' (address ++ '%' :: s) = some (address, s) :=
      partition_append _ _ hpercent
    simp [scopeText, hslash, hs, hpart, hne, hp, h]

theorem parseIPv4_of_colon (h : ':' ∈ t) : parseIPv4 t = none := by
  cases hp : parseIPv4 t with
  | none => rfl
  | some n =>
    rw [(parseIPv4_eq_some hp).1] at h
    rcases mem_ipv4Text h with hd | hd <;> exact absurd hd (by decide)

/-! ## Addresses -/

/-- `str` of an address. -/
def Address.text : Address → Text
  | .v4 ip => ipv4Text ip
  | .v6 a => ipv6Text a.ip ++ scopeText a.scopeId

/-- `address in network`; the scope does not count. -/
def Network.containsAddress : Network → Address → Bool
  | .v4 i, .v4 ip => i.contains ip
  | .v6 n p, .v6 a => a.ip / 2 ^ (128 - p) * 2 ^ (128 - p) == n.ip
  | _, _ => false

/-- What is read as an address is read back from its text. -/
theorem parseAddress_text {a : Address} (h : parseAddress t = some a) :
    parseAddress a.text = some a := by
  unfold parseAddress at h
  split at h
  · next n hn =>
    cases h
    rw [Address.text, parseAddress, parseIPv4_text (parseIPv4_eq_some hn).2]
  · obtain ⟨b, hb, rfl⟩ := Option.map_eq_some_iff.mp h
    have hprint := parseIPv6Int_text (parseIPv6_lt hb)
    have hcolon : ':' ∈ (Address.v6 b).text :=
      List.mem_append_left _ (colon_mem_of_parseIPv6Int hprint)
    have hread : parseIPv6 (Address.v6 b).text = some b := by
      refine parseIPv6_join hprint fun scope hs => ?_
      obtain ⟨h1, h2, h3, -⟩ := parseIPv6_scope hb hs
      exact ⟨h1, h2, h3⟩
    rw [parseAddress, parseIPv4_of_colon hcolon, hread]
    rfl

end IpAddress
