import Mathlib.Data.Nat.Bitwise

/-!
# The answer to the DNS probe

`container_egress.py`: `_valid_dns_response` decides whether the resolver behind the tunnel has
answered with an address. The response comes from outside, so every read is checked here: `none` is
the `IndexError` or `struct.error` of a read outside the response.

* `skipName_of_name`, `name_of_skipName`: the loop over an owner name follows the grammar `Name`;
* `scan_eq`: the loop over the records returns, and is true exactly if an address is reached;
* `dns_response_exact`: the check always returns, and accepts exactly the answers to the query.
-/

namespace ExitLane.Egress.Dns

abbrev Message := List UInt8

/-- A big-endian number of two bytes. -/
def word (a b : UInt8) : Nat := a.toNat * 256 + b.toNat

/-- `response[start:stop]`. -/
def slice (response : Message) (start stop : Nat) : Message := (response.take stop).drop start

/-! ## The check -/

/-- `struct.unpack("!HHH", …)`: the flags and the numbers of questions and answers. -/
def unpackHeader : Message → Option (Nat × Nat × Nat)
  | [a, b, c, d, e, f] => some (word a b, word c d, word e f)
  | _ => none

/-- `struct.unpack("!HHIH", …)`: the type, the class and the size of a record. -/
def unpackRecord : Message → Option (Nat × Nat × Nat)
  | [a, b, c, d, _, _, _, _, e, f] => some (word a b, word c d, word e f)
  | _ => none

/-- `not IPv4Address(data).is_unspecified`. -/
def isSpecified : Message → Option Bool
  | [a, b, c, d] => some ([a, b, c, d] != [0, 0, 0, 0])
  | _ => none

/-- What one round of the loop over an owner name comes to. -/
inductive Part where
  | bad
  | done (offset : Nat)
  | label (offset : Nat)

/-- One round of that loop. A name that is cut off ends it at the end of the response. -/
def readPart (response : Message) (offset : Nat) : Option Part :=
  if offset < response.length then do
    let size := (← response[offset]?).toNat
    if size = 0 then some (.done (offset + 1))
    else if size &&& 0xC0 = 0xC0 then
      if response.length ≤ offset + 1 then some .bad
      else do
        let pointer := (size &&& 0x3F) <<< 8 ||| (← response[offset + 1]?).toNat
        some (if 12 ≤ pointer ∧ pointer < response.length then .done (offset + 2) else .bad)
    else some (if 63 < size ∨ response.length < offset + 1 + size then .bad
      else .label (offset + 1 + size))
  else some (.done offset)

/-- The loop over an owner name, in which so many labels may still come. The inner `none` is a
`return False`. -/
def skipName (response : Message) : Nat → Nat → Option (Option Nat)
  | 0, offset => (readPart response offset).map fun
    | .done next => some next
    | .bad | .label _ => none
  | labels + 1, offset => (readPart response offset).bind fun
    | .done next => some (some next)
    | .bad => some none
    | .label next => skipName response labels next

/-- The loop over the records that are announced. -/
def scan (response : Message) : Nat → Nat → Option Bool
  | 0, _ => some false
  | answers + 1, offset => do
    match ← skipName response 127 offset with
    | none => some false
    | some offset =>
      if response.length < offset + 10 then some false
      else do
        let (kind, klass, size) ← unpackRecord (slice response offset (offset + 10))
        if response.length < offset + 10 + size then some false
        else if kind = 1 ∧ klass = 1 ∧ size = 4 then
          isSpecified (slice response (offset + 10) (offset + 10 + size))
        else scan response answers (offset + 10 + size)

/-- `_valid_dns_response`. -/
def validDnsResponse (response query : Message) : Option Bool :=
  if response.length < query.length ∨ response.take 2 ≠ query.take 2 then some false
  else do
    let (flags, questions, answers) ← unpackHeader (slice response 2 8)
    if flags &&& 0x8000 = 0 ∨ flags &&& 0x020F ≠ 0 ∨ questions ≠ 1 ∨ ¬(1 ≤ answers ∧ answers ≤ 64) ∨
        slice response 12 query.length ≠ query.drop 12 then some false
    else scan response answers query.length

/-! ## The grammar -/

/-- An owner name from `i` up to `j` with at most `labels` labels. -/
inductive Name (response : Message) : Nat → Nat → Nat → Prop
  | root {labels i : Nat} (hbyte : response[i]? = some 0) : Name response labels i (i + 1)
  | pointer {labels i : Nat} {high low : UInt8} (hhigh : response[i]? = some high)
      (hlow : response[i + 1]? = some low) (htag : 192 ≤ high.toNat)
      (hfrom : 12 ≤ (high.toNat - 192) * 256 + low.toNat)
      (hto : (high.toNat - 192) * 256 + low.toNat < response.length) :
      Name response labels i (i + 2)
  | label {labels i j : Nat} {size : UInt8} (hbyte : response[i]? = some size)
      (hpos : 0 < size.toNat) (hsize : size.toNat ≤ 63)
      (hin : i + 1 + size.toNat ≤ response.length)
      (rest : Name response labels (i + 1 + size.toNat) j) :
      Name response (labels + 1) i j

/-- A record with its owner name from `i` up to `j` and its data in the response. -/
structure IsRecord (response : Message) (i j kind klass size : Nat) : Prop where
  name : Name response 127 i j
  fields : unpackRecord (slice response j (j + 10)) = some (kind, klass, size)
  inside : j + 10 + size ≤ response.length

/-- Of the next records, at most so many, the first one that is an A/IN record of four bytes holds
an address other than 0.0.0.0, and the records before it are well formed. -/
inductive Reaches (response : Message) : Nat → Nat → Prop
  | here {answers i j : Nat} (h : IsRecord response i j 1 1 4)
      (hdata : slice response (j + 10) (j + 14) ≠ [0, 0, 0, 0]) : Reaches response (answers + 1) i
  | later {answers i j kind klass size : Nat} (h : IsRecord response i j kind klass size)
      (hother : ¬(kind = 1 ∧ klass = 1 ∧ size = 4))
      (rest : Reaches response answers (j + 10 + size)) :
      Reaches response (answers + 1) i

/-- The response answers the query with an address. -/
structure Answers (response query : Message) (flags questions answers : Nat) : Prop where
  header : unpackHeader (slice response 2 8) = some (flags, questions, answers)
  id : response.take 2 = query.take 2
  question : slice response 12 query.length = query.drop 12
  covers : query.length ≤ response.length
  isResponse : flags.testBit 15 = true
  whole : flags.testBit 9 = false
  rcode : flags % 16 = 0
  single : questions = 1
  announced : 1 ≤ answers ∧ answers ≤ 64
  reaches : Reaches response answers query.length

/-! ## Bits -/

theorem pointerTag_iff (b : UInt8) : b.toNat &&& 0xC0 = 0xC0 ↔ 192 ≤ b.toNat := by
  have hall : ∀ n : Fin 256, (n.val &&& 0xC0 = 0xC0 ↔ 192 ≤ n.val) := by decide +kernel
  exact hall ⟨b.toNat, b.toNat_lt⟩

theorem pointer_eq {high : UInt8} (low : UInt8) (h : 192 ≤ high.toNat) :
    (high.toNat &&& 0x3F) <<< 8 ||| low.toNat = (high.toNat - 192) * 256 + low.toNat := by
  have hlow := low.toNat_lt
  have hhigh := high.toNat_lt
  have hmod : high.toNat &&& 0x3F = high.toNat % 64 := Nat.and_two_pow_sub_one_eq_mod _ 6
  rw [hmod, ← Nat.shiftLeft_add_eq_or_of_lt hlow, Nat.shiftLeft_eq]
  omega

theorem responseFlag_iff (n : Nat) : n &&& 0x8000 = 0 ↔ n.testBit 15 = false := by
  have h : n &&& 0x8000 = (n.testBit 15).toNat * 2 ^ 15 := Nat.and_two_pow n 15
  rw [h]
  cases n.testBit 15 <;> simp

theorem otherFlags_iff (n : Nat) : n &&& 0x020F = 0 ↔ n.testBit 9 = false ∧ n % 16 = 0 := by
  have hmask : 0x020F = 2 ^ 9 ||| (2 ^ 4 - 1) := by decide
  rw [hmask, Nat.and_or_distrib_left, Nat.or_eq_zero_iff, Nat.and_two_pow,
    Nat.and_two_pow_sub_one_eq_mod]
  cases n.testBit 9 <;> simp

/-! ## The loops follow the grammar -/

variable {response : Message}

theorem lt_of_byte {i : Nat} {b : UInt8} (h : response[i]? = some b) : i < response.length :=
  (List.getElem?_eq_some_iff.mp h).1

/-- A round by the productions of the grammar. -/
def part (response : Message) (i : Nat) : Part :=
  match response[i]? with
  | none => .done i
  | some size =>
    if size.toNat = 0 then .done (i + 1)
    else if 192 ≤ size.toNat then
      match response[i + 1]? with
      | none => .bad
      | some low =>
        if 12 ≤ (size.toNat - 192) * 256 + low.toNat ∧
            (size.toNat - 192) * 256 + low.toNat < response.length then .done (i + 2)
        else .bad
    else if 63 < size.toNat ∨ response.length < i + 1 + size.toNat then .bad
    else .label (i + 1 + size.toNat)

/-- A round reads nothing outside the response. -/
theorem readPart_eq (response : Message) (i : Nat) :
    readPart response i = some (part response i) := by
  cases hbyte : response[i]? with
  | none =>
    have hout := List.getElem?_eq_none_iff.mp hbyte
    rw [readPart, if_neg (Nat.not_lt.mpr hout), part, hbyte]
  | some size =>
    rw [readPart, if_pos (lt_of_byte hbyte), part, hbyte]
    by_cases htag : 192 ≤ size.toNat
    · have hne : ¬size.toNat = 0 := by omega
      cases hlow : response[i + 1]? with
      | none =>
        have hout := List.getElem?_eq_none_iff.mp hlow
        simp [hne, htag, hout, pointerTag_iff]
      | some low =>
        have hin := Nat.not_le.mpr (lt_of_byte hlow)
        simp [hne, htag, hin, pointerTag_iff, pointer_eq low htag]
    · by_cases hzero : size.toNat = 0
      · simp [hzero]
      · simp [hzero, htag, pointerTag_iff]

theorem name_of_done {i j : Nat} (h : part response i = .done j) (hj : j < response.length)
    (labels : Nat) : Name response labels i j := by
  unfold part at h
  split at h
  · next hnone =>
    cases h
    exact absurd (List.getElem?_eq_none_iff.mp hnone) (by omega)
  · next size hbyte =>
    split_ifs at h with hzero htag
    · cases h
      have h0 : size = 0 := UInt8.toNat_inj.mp hzero
      exact .root (h0 ▸ hbyte)
    · split at h
      · cases h
      · next low hlow =>
        split_ifs at h with hpointer
        cases h
        exact .pointer hbyte hlow htag hpointer.1 hpointer.2

theorem name_of_label {i next j labels : Nat} (h : part response i = .label next)
    (rest : Name response labels next j) : Name response (labels + 1) i j := by
  unfold part at h
  split at h
  · cases h
  · next size hbyte =>
    split_ifs at h with hzero htag hlong
    · split at h
      · cases h
      · split_ifs at h
    · cases h
      rw [not_or, Nat.not_lt, Nat.not_lt] at hlong
      exact .label hbyte (Nat.pos_of_ne_zero hzero) hlong.1 hlong.2 rest

/-- The loop goes over a well-formed name to its end. -/
theorem skipName_of_name {labels i j : Nat} (h : Name response labels i j) :
    skipName response labels i = some (some j) := by
  induction h with
  | @root labels i hbyte =>
    cases labels <;> simp [skipName, readPart_eq, part, hbyte]
  | @pointer labels i high low hhigh hlow htag hfrom hto =>
    have hne : ¬high.toNat = 0 := by omega
    cases labels <;> simp [skipName, readPart_eq, part, hhigh, hlow, hne, htag, hfrom, hto]
  | @label labels i j size hbyte hpos hsize hin rest ih =>
    have hshort : ¬192 ≤ size.toNat := by omega
    have hfits : ¬(63 < size.toNat ∨ response.length < i + 1 + size.toNat) := by omega
    simp [skipName, readPart_eq, part, hbyte, hpos.ne', hshort, hfits, ih]

/-- Wherever the loop stops before the end of the response, it has seen a well-formed name. -/
theorem name_of_skipName {labels i j : Nat} (h : skipName response labels i = some (some j))
    (hj : j < response.length) : Name response labels i j := by
  induction labels generalizing i with
  | zero =>
    rw [skipName, readPart_eq, Option.map_some] at h
    cases hpart : part response i with
    | bad => simp [hpart] at h
    | label next => simp [hpart] at h
    | done next =>
      simp only [hpart, Option.some.injEq] at h
      exact name_of_done (h ▸ hpart) hj 0
  | succ labels ih =>
    rw [skipName, readPart_eq, Option.bind_some] at h
    cases hpart : part response i with
    | bad => simp [hpart] at h
    | label next =>
      simp only [hpart] at h
      exact name_of_label hpart (ih h)
    | done next =>
      simp only [hpart, Option.some.injEq] at h
      exact name_of_done (h ▸ hpart) hj _

theorem exists_skipName (response : Message) (labels i : Nat) :
    ∃ next, skipName response labels i = some next := by
  induction labels generalizing i with
  | zero => exact ⟨_, by rw [skipName, readPart_eq, Option.map_some]⟩
  | succ labels ih =>
    rw [skipName, readPart_eq, Option.bind_some]
    cases part response i with
    | bad => exact ⟨_, rfl⟩
    | done next => exact ⟨_, rfl⟩
    | label next => exact ih next

theorem length_slice {start stop : Nat} (h : stop ≤ response.length) :
    (slice response start stop).length = stop - start := by
  simp [slice, Nat.min_eq_left h]

theorem exists_unpackRecord {i : Nat} (h : i + 10 ≤ response.length) :
    ∃ kind klass size, unpackRecord (slice response i (i + 10)) = some (kind, klass, size) := by
  have hlength : (slice response i (i + 10)).length = 10 := by
    rw [length_slice h]
    omega
  match hs : slice response i (i + 10), hlength with
  | [a, b, c, d, _, _, _, _, e, f], _ => exact ⟨_, _, _, rfl⟩

theorem isSpecified_eq {data : Message} (h : data.length = 4) :
    isSpecified data = some (data != [0, 0, 0, 0]) := by
  match data, h with
  | [a, b, c, d], _ => rfl

theorem IsRecord.unique {i j j' kind kind' klass klass' size size' : Nat}
    (h : IsRecord response i j kind klass size) (h' : IsRecord response i j' kind' klass' size') :
    j = j' ∧ kind = kind' ∧ klass = klass' ∧ size = size' := by
  have hj : j = j' := by simpa [skipName_of_name h.name] using skipName_of_name h'.name
  subst hj
  simpa [h.fields] using h'.fields

theorem Reaches.record {answers i : Nat} (h : Reaches response answers i) :
    ∃ j kind klass size, IsRecord response i j kind klass size := by
  cases h with
  | here h => exact ⟨_, _, _, _, h⟩
  | later h => exact ⟨_, _, _, _, h⟩

/-- The first record decides, or leaves the decision to the others. -/
theorem reaches_iff {answers i j kind klass size : Nat}
    (h : IsRecord response i j kind klass size) :
    Reaches response (answers + 1) i ↔
      if kind = 1 ∧ klass = 1 ∧ size = 4 then
        slice response (j + 10) (j + 10 + size) ≠ [0, 0, 0, 0]
      else Reaches response answers (j + 10 + size) := by
  constructor
  · intro hreaches
    cases hreaches with
    | here h' hdata =>
      obtain ⟨rfl, rfl, rfl, rfl⟩ := h.unique h'
      simpa using hdata
    | later h' hother rest =>
      obtain ⟨rfl, rfl, rfl, rfl⟩ := h.unique h'
      rwa [if_neg hother]
  · intro hnext
    split_ifs at hnext with haddress
    · obtain ⟨rfl, rfl, rfl⟩ := haddress
      exact .here h hnext
    · exact .later h haddress hnext

/-- The loop over the records returns, and says whether they lead to an address. -/
theorem scan_eq (response : Message) (answers i : Nat) :
    ∃ found, scan response answers i = some found ∧
      (found = true ↔ Reaches response answers i) := by
  induction answers generalizing i with
  | zero => exact ⟨false, rfl, by simp, nofun⟩
  | succ answers ih =>
    obtain ⟨next, hnext⟩ := exists_skipName response 127 i
    -- without a first record the loop ends, and nothing is reached
    have hrefuse (hno : ∀ j kind klass size, ¬IsRecord response i j kind klass size) :
        false = true ↔ Reaches response (answers + 1) i := by
      refine ⟨nofun, fun h => ?_⟩
      obtain ⟨j, kind, klass, size, hrecord⟩ := h.record
      exact absurd hrecord (hno j kind klass size)
    have hend {j kind klass size : Nat} (h : IsRecord response i j kind klass size) :
        next = some j := by
      simpa [hnext] using skipName_of_name h.name
    rw [scan, hnext]
    cases next with
    | none => exact ⟨false, rfl, hrefuse fun _ _ _ _ h => nomatch hend h⟩
    | some j =>
      by_cases hshort : response.length < j + 10
      · refine ⟨false, by simp [hshort], hrefuse fun j' _ _ _ h => ?_⟩
        have hin := h.inside
        cases hend h
        omega
      obtain ⟨kind, klass, size, hfields⟩ := exists_unpackRecord (Nat.not_lt.mp hshort)
      by_cases hcut : response.length < j + 10 + size
      · refine ⟨false, by simp [hshort, hfields, hcut], hrefuse fun j' _ _ _ h => ?_⟩
        cases hend h
        have hin := h.inside
        have heq := h.fields
        rw [hfields] at heq
        cases heq
        omega
      have hrecord : IsRecord response i j kind klass size :=
        ⟨name_of_skipName hnext (by omega), hfields, Nat.not_lt.mp hcut⟩
      rw [reaches_iff hrecord]
      by_cases haddress : kind = 1 ∧ klass = 1 ∧ size = 4
      · have hdata : (slice response (j + 10) (j + 10 + size)).length = 4 := by
          rw [length_slice (Nat.not_lt.mp hcut)]
          omega
        refine ⟨slice response (j + 10) (j + 10 + size) != [0, 0, 0, 0], ?_, ?_⟩
        · obtain ⟨rfl, rfl, rfl⟩ := haddress
          rw [← isSpecified_eq hdata]
          simp [hshort, hfields, hcut]
        · rw [if_pos haddress, bne_iff_ne]
      · obtain ⟨found, hfound, hiff⟩ := ih (j + 10 + size)
        refine ⟨found, by simp [hshort, hfields, hcut, haddress, hfound], ?_⟩
        rwa [if_neg haddress]

theorem exists_unpackHeader (response : Message) (h : 8 ≤ response.length) :
    ∃ flags questions answers,
      unpackHeader (slice response 2 8) = some (flags, questions, answers) := by
  have hlength : (slice response 2 8).length = 6 := length_slice h
  match hs : slice response 2 8, hlength with
  | [a, b, c, d, e, f], _ => exact ⟨_, _, _, rfl⟩

/-- For every response and every query with a header, the check returns without a read outside the
response, and accepts exactly the responses that answer the query with an address. -/
theorem dns_response_exact (response query : Message) (hquery : 12 ≤ query.length) :
    ∃ accepted, validDnsResponse response query = some accepted ∧
      (accepted = true ↔ ∃ flags questions answers,
        Answers response query flags questions answers) := by
  by_cases hstart : response.length < query.length ∨ response.take 2 ≠ query.take 2
  · refine ⟨false, by rw [validDnsResponse, if_pos hstart], nofun, ?_⟩
    rintro ⟨flags, questions, answers, h⟩
    rcases hstart with hshort | hid
    · exact absurd h.covers (Nat.not_le.mpr hshort)
    · exact absurd h.id hid
  obtain ⟨hcovers, hid⟩ := not_or.mp hstart
  obtain ⟨flags, questions, answers, hheader⟩ := exists_unpackHeader response (by omega)
  rw [validDnsResponse, if_neg hstart, hheader]
  by_cases hbad : flags &&& 0x8000 = 0 ∨ flags &&& 0x020F ≠ 0 ∨ questions ≠ 1 ∨
      ¬(1 ≤ answers ∧ answers ≤ 64) ∨ slice response 12 query.length ≠ query.drop 12
  · refine ⟨false, if_pos hbad, nofun, ?_⟩
    rintro ⟨flags', questions', answers', h⟩
    have heq := h.header
    rw [hheader] at heq
    cases heq
    rw [responseFlag_iff, Ne, otherFlags_iff] at hbad
    simp [h.isResponse, h.whole, h.rcode, h.single, h.announced, h.question] at hbad
  · obtain ⟨found, hfound, hiff⟩ := scan_eq response answers query.length
    refine ⟨found, (if_neg hbad).trans hfound, hiff.trans ⟨fun hreaches => ?_, ?_⟩⟩
    · rw [responseFlag_iff, Ne, otherFlags_iff] at hbad
      push Not at hbad
      obtain ⟨hresponse, ⟨hwhole, hrcode⟩, hsingle, hannounced, hquestion⟩ := hbad
      exact ⟨flags, questions, answers, hheader, not_not.mp hid, hquestion, Nat.not_lt.mp hcovers,
        by simpa using hresponse, hwhole, hrcode, hsingle, hannounced, hreaches⟩
    · rintro ⟨flags', questions', answers', h⟩
      have heq := h.header
      rw [hheader] at heq
      cases heq
      exact h.reaches

/-- A query for the root of the tree. -/
def demoQuery : Message := [0xAB, 0xCD, 1, 0, 0, 1, 0, 0, 0, 0, 0, 0, 0, 0, 1, 0, 1]

/-- An answer with the address 10.64.0.1 in its second record, whose owner name is a pointer. -/
def demoResponse : Message :=
  [0xAB, 0xCD, 0x81, 0x80, 0, 1, 0, 2, 0, 0, 0, 0, 0, 0, 1, 0, 1] ++
    [1, 97, 0, 0, 5, 0, 1, 0, 0, 0, 60, 0, 1, 0] ++
    [0xC0, 12, 0, 1, 0, 1, 0, 0, 0, 60, 0, 4, 10, 64, 0, 1]

theorem demoResponse_answers : ∃ flags questions answers,
    Answers demoResponse demoQuery flags questions answers := by
  obtain ⟨accepted, haccepted, hiff⟩ := dns_response_exact demoResponse demoQuery (by decide)
  have htrue : validDnsResponse demoResponse demoQuery = some true := by decide
  rw [htrue] at haccepted
  cases haccepted
  exact hiff.mp rfl

end ExitLane.Egress.Dns
