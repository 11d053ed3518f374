import ExitLane.Nft.Table

/-!
# The text of a table

`nft -f` reads a text in three steps: characters to tokens, tokens to statements and blocks, and
these to sets, chains and rules. The first two are folds, so that the reading of a text is put
together from the readings of its lines (`Lexes`, `Builds`). A character that begins no token, such
as a percent sign, makes the whole text unreadable.

The grammar is the part that occurs in the rulesets of this development: a script destroys a table
and may define it anew.
-/

namespace Nft

open Python IpAddress

/-! ## Tokens -/

inductive Keyword where
  | destroy | table | inet | set | chain | type | ifname | ipv4Addr | ipv6Addr | flags | interval
  | elements | hook | priority | policy | iifname | oifname | metadata | nfproto | ipv4 | ipv6
  | ip | ip6 | saddr | daddr | udp | tcp | dport | ct | state | established | related
  | accept | drop | masquerade | comment
  deriving DecidableEq

/-- The keywords as they are written. -/
def keywords : List (Text × Keyword) :=
  [(['d', 'e', 's', 't', 'r', 'o', 'y'], .destroy), (['t', 'a', 'b', 'l', 'e'], .table),
    (['i', 'n', 'e', 't'], .inet), (['s', 'e', 't'], .set), (['c', 'h', 'a', 'i', 'n'], .chain),
    (['t', 'y', 'p', 'e'], .type), (['i', 'f', 'n', 'a', 'm', 'e'], .ifname),
    (['i', 'p', 'v', '4', '_', 'a', 'd', 'd', 'r'], .ipv4Addr),
    (['i', 'p', 'v', '6', '_', 'a', 'd', 'd', 'r'], .ipv6Addr),
    (['f', 'l', 'a', 'g', 's'], .flags), (['i', 'n', 't', 'e', 'r', 'v', 'a', 'l'], .interval),
    (['e', 'l', 'e', 'm', 'e', 'n', 't', 's'], .elements), (['h', 'o', 'o', 'k'], .hook),
    (['p', 'r', 'i', 'o', 'r', 'i', 't', 'y'], .priority),
    (['p', 'o', 'l', 'i', 'c', 'y'], .policy), (['i', 'i', 'f', 'n', 'a', 'm', 'e'], .iifname),
    (['o', 'i', 'f', 'n', 'a', 'm', 'e'], .oifname), (['m', 'e', 't', 'a'], .metadata),
    (['n', 'f', 'p', 'r', 'o', 't', 'o'], .nfproto), (['i', 'p', 'v', '4'], .ipv4),
    (['i', 'p', 'v', '6'], .ipv6), (['i', 'p'], .ip), (['i', 'p', '6'], .ip6),
    (['s', 'a', 'd', 'd', 'r'], .saddr), (['d', 'a', 'd', 'd', 'r'], .daddr),
    (['u', 'd', 'p'], .udp), (['t', 'c', 'p'], .tcp), (['d', 'p', 'o', 'r', 't'], .dport),
    (['c', 't'], .ct), (['s', 't', 'a', 't', 'e'], .state),
    (['e', 's', 't', 'a', 'b', 'l', 'i', 's', 'h', 'e', 'd'], .established),
    (['r', 'e', 'l', 'a', 't', 'e', 'd'], .related), (['a', 'c', 'c', 'e', 'p', 't'], .accept),
    (['d', 'r', 'o', 'p'], .drop),
    (['m', 'a', 's', 'q', 'u', 'e', 'r', 'a', 'd', 'e'], .masquerade),
    (['c', 'o', 'm', 'm', 'e', 'n', 't'], .comment)]

inductive Token where
  | key (keyword : Keyword)
  | word (text : Text)
  | quoted (text : Text)
  | lbrace
  | rbrace
  | semicolon
  | newline
  | comma
  | equals
  | at
  deriving DecidableEq

/-- The token of a word. -/
def Token.ofWord (w : Text) : Token :=
  match keywords.lookup w with
  | some k => .key k
  | none => .word w

/-- The characters of names, numbers, addresses and prefixes. -/
def isWordChar (c : Char) : Bool := c.isAlphanum || ['_', '.', ':', '/', '-'].contains c

def punctuation : Char → Option Token
  | '\x7b' => some .lbrace
  | '\x7d' => some .rbrace
  | ';' => some .semicolon
  | '\n' => some .newline
  | ',' => some .comma
  | '=' => some .equals
  | '@' => some .at
  | _ => none

/-! ## Reading characters -/

/-- What the lexer is inside of; words and strings come with what has been read of them. -/
inductive Mode where
  | blank
  | word (text : Text)
  | quoted (text : Text)
  deriving DecidableEq

/-- The tokens so far, the latest first. -/
structure Lexer where
  mode : Mode
  tokens : List Token
  deriving DecidableEq

/-- A character outside words and strings. -/
def Lexer.start (tokens : List Token) (c : Char) : Option Lexer :=
  if c = ' ' then some ⟨.blank, tokens⟩
  else if c = '"' then some ⟨.quoted [], tokens⟩
  else if isWordChar c then some ⟨.word [c], tokens⟩
  else (punctuation c).map fun t => ⟨.blank, t :: tokens⟩

def Lexer.feed : Lexer → Char → Option Lexer
  | ⟨.blank, tokens⟩, c => Lexer.start tokens c
  | ⟨.word w, tokens⟩, c =>
    if isWordChar c then some ⟨.word (w ++ [c]), tokens⟩ else Lexer.start (.ofWord w :: tokens) c
  | ⟨.quoted w, tokens⟩, c =>
    if c = '"' then some ⟨.blank, .quoted w :: tokens⟩ else some ⟨.quoted (w ++ [c]), tokens⟩

def Lexer.run : Lexer → Text → Option Lexer
  | l, [] => some l
  | l, c :: t => (l.feed c).bind fun l' => l'.run t

def Lexer.finish : Lexer → Option (List Token)
  | ⟨.blank, tokens⟩ => some tokens.reverse
  | ⟨.word w, tokens⟩ => some (Token.ofWord w :: tokens).reverse
  | ⟨.quoted _, _⟩ => none

def lex (t : Text) : Option (List Token) := (Lexer.run ⟨.blank, []⟩ t).bind Lexer.finish

/-- Between two tokens, the text reads as the tokens `ts`. -/
def Lexes (t : Text) (ts : List Token) : Prop :=
  ∀ tokens, Lexer.run ⟨.blank, tokens⟩ t = some ⟨.blank, ts.reverse ++ tokens⟩

theorem Lexer.run_append (l : Lexer) (t u : Text) :
    l.run (t ++ u) = (l.run t).bind fun l' => l'.run u := by
  induction t generalizing l with
  | nil => rfl
  | cons c t ih =>
    rw [List.cons_append, Lexer.run, Lexer.run]
    cases l.feed c with
    | none => rfl
    | some l' => exact ih l'

variable {t : Text} {ts : List Token} {u w : Text} {c : Char} {ns ms : List Node} {name : Name}
  {rs : List Rule} {r : Rule}

theorem Lexes.lex (h : Lexes t ts) : lex t = some ts := by
  rw [Nft.lex, h [], Option.bind_some, Lexer.finish]
  simp

theorem lexes_nil : Lexes [] [] := fun _ => rfl

theorem Lexes.append {us : List Token} (ht : Lexes t ts) (hu : Lexes u us) :
    Lexes (t ++ u) (ts ++ us) := by
  intro tokens
  rw [Lexer.run_append, ht tokens, Option.bind_some, hu, List.reverse_append, List.append_assoc]

/-- Puts older tokens below those of the lexer. -/
def Lexer.onto (older : List Token) (l : Lexer) : Lexer := ⟨l.mode, l.tokens ++ older⟩

private theorem feed_onto (l : Lexer) (c : Char) (older : List Token) :
    (l.onto older).feed c = (l.feed c).map (Lexer.onto older) := by
  have hstart (tokens : List Token) : Lexer.start (tokens ++ older) c =
      (Lexer.start tokens c).map (Lexer.onto older) := by
    unfold Lexer.start
    split
    · rfl
    · split
      · rfl
      · split
        · rfl
        · cases punctuation c <;> rfl
  obtain ⟨mode, tokens⟩ := l
  cases mode with
  | blank => exact hstart tokens
  | word w =>
    simp only [Lexer.onto, Lexer.feed]
    split
    · rfl
    · exact hstart (_ :: tokens)
  | quoted w =>
    simp only [Lexer.onto, Lexer.feed]
    split <;> rfl

/-- The tokens so far do not matter for what comes next. -/
private theorem run_onto (t : Text) (l : Lexer) (older : List Token) :
    (l.onto older).run t = (l.run t).map (Lexer.onto older) := by
  induction t generalizing l with
  | nil => rfl
  | cons c t ih =>
    rw [Lexer.run, Lexer.run, feed_onto]
    cases l.feed c with
    | none => rfl
    | some l' => exact ih l'

/-- A text without parameters is read by evaluation. -/
theorem lexes_of_eval (h : Lexer.run ⟨.blank, []⟩ t = some ⟨.blank, ts.reverse⟩) : Lexes t ts := by
  intro tokens
  have hrun := run_onto t ⟨.blank, []⟩ tokens
  rw [h] at hrun
  exact hrun

/-- The same for a string literal, which is given to the evaluation as a list. -/
theorem lexes_literal (h : Lexer.run ⟨.blank, []⟩ t = some ⟨.blank, ts.reverse⟩) :
    Lexes (String.ofList t).toList ts := by
  rw [String.toList_ofList]
  exact lexes_of_eval h

theorem lexes_quoted (h : '"' ∉ w) : Lexes ('"' :: (w ++ ['"'])) [.quoted w] := by
  have inside (w seen : Text) (hw : '"' ∉ w) (tokens : List Token) :
      Lexer.run ⟨.quoted seen, tokens⟩ w = some ⟨.quoted (seen ++ w), tokens⟩ := by
    induction w generalizing seen with
    | nil => simp [Lexer.run]
    | cons c w ih =>
      rw [List.mem_cons, not_or] at hw
      rw [Lexer.run, Lexer.feed, if_neg (Ne.symm hw.1), Option.bind_some, ih _ hw.2]
      simp
  intro tokens
  have hopen : Lexer.feed ⟨.blank, tokens⟩ '"' = some ⟨.quoted [], tokens⟩ := rfl
  rw [Lexer.run, hopen, Option.bind_some, Lexer.run_append, inside w [] h]
  rfl

/-- A word ends at the first character that cannot go on with it. -/
theorem lexes_word (hw : w ≠ []) (hall : ∀ x ∈ w, isWordChar x = true) (hc : isWordChar c = false)
    (hstart : ∀ tokens, Lexer.start tokens c = some ⟨.blank, ts.reverse ++ tokens⟩) :
    Lexes (w ++ [c]) (.ofWord w :: ts) := by
  have inside (w seen : Text) (hw : ∀ x ∈ w, isWordChar x = true) (tokens : List Token) :
      Lexer.run ⟨.word seen, tokens⟩ w = some ⟨.word (seen ++ w), tokens⟩ := by
    induction w generalizing seen with
    | nil => simp [Lexer.run]
    | cons c w ih =>
      rw [List.forall_mem_cons] at hw
      rw [Lexer.run, Lexer.feed, if_pos hw.1, Option.bind_some, ih _ hw.2]
      simp
  have first (x : Char) (hx : isWordChar x = true) (tokens : List Token) :
      Lexer.feed ⟨.blank, tokens⟩ x = some ⟨.word [x], tokens⟩ := by
    have hne (y : Char) (hy : isWordChar y = false) : x ≠ y := by
      rintro rfl
      rw [hx] at hy
      cases hy
    rw [Lexer.feed, Lexer.start, if_neg (hne ' ' (by decide)), if_neg (hne '"' (by decide)),
      if_pos hx]
  obtain ⟨x, w, rfl⟩ := List.exists_cons_of_ne_nil hw
  rw [List.forall_mem_cons] at hall
  intro tokens
  rw [List.cons_append, Lexer.run, first x hall.1, Option.bind_some, Lexer.run_append,
    inside w [x] hall.2, Option.bind_some, Lexer.run, Lexer.feed, if_neg (by simp [hc]), hstart]
  simp [Lexer.run]

theorem ofWord_of_mem (hc : c ∈ w) (hkey : ∀ k ∈ keywords, c ∉ k.1) : Token.ofWord w = .word w := by
  have hnone : keywords.lookup w = none := by
    rw [List.lookup_eq_none_iff]
    intro k hk
    rw [bne_iff_ne]
    rintro rfl
    exact hkey k hk hc
  rw [Token.ofWord, hnone]

theorem lexes_newline : Lexes ['\n'] [.newline] := lexes_of_eval rfl

/-- A line with its end. -/
def endLine (t : Text) : Text := t ++ ['\n']

theorem Lexes.endLine (h : Lexes t ts) : Lexes (endLine t) (ts ++ [.newline]) :=
  h.append lexes_newline

theorem lexes_line (ts : List Token)
    (h : Lexer.run ⟨.blank, []⟩ (Nft.endLine t) = some ⟨.blank, .newline :: ts.reverse⟩) :
    Lexes (Nft.endLine (String.ofList t).toList) (ts ++ [.newline]) := by
  rw [String.toList_ofList]
  exact lexes_of_eval (by rw [h, List.reverse_append]; rfl)

/-- Elements with commas between them. -/
theorem lexes_commas {α : Type} {f : α → Text} {g : α → Token} {l : List α} (hne : l ≠ [])
    (hcomma : ∀ a ∈ l, Lexes (f a ++ [',']) [g a, .comma])
    (hlast : ∀ a ∈ l, Lexes (f a ++ [' ']) [g a]) :
    Lexes (", ".toList.intercalate (l.map f) ++ [' ']) ((l.map g).intersperse .comma) := by
  induction l with
  | nil => exact absurd rfl hne
  | cons a l ih =>
    rw [List.forall_mem_cons] at hcomma hlast
    cases l with
    | nil => simpa [List.intercalate] using hlast.1
    | cons b l =>
      have hrest := ih (List.cons_ne_nil b l) hcomma.2 hlast.2
      have hspace : Lexes [' '] [] := lexes_of_eval rfl
      have hall := hcomma.1.append (hspace.append hrest)
      rw [List.map_cons, List.map_cons, List.intercalate_cons_cons]
      simpa using hall

/-- A character that begins no token ends the reading, wherever it stands outside a string. -/
theorem Lexer.run_stuck (hquote : '"' ∉ t) (hword : isWordChar c = false)
    (hstart : ∀ tokens, Lexer.start tokens c = none) {l : Lexer} (hl : ∀ w, l.mode ≠ .quoted w) :
    l.run (t ++ c :: u) = none := by
  have feed_stuck (l : Lexer) (hl : ∀ w, l.mode ≠ .quoted w) : l.feed c = none := by
    obtain ⟨mode, tokens⟩ := l
    cases mode with
    | blank => exact hstart tokens
    | word w => rw [Lexer.feed, if_neg (by simp [hword]), hstart]
    | quoted w => exact absurd rfl (hl w)
  have start_mode (tokens : List Token) {x : Char} (hx : x ≠ '"') {l' : Lexer}
      (h : Lexer.start tokens x = some l') : ∀ w, l'.mode ≠ .quoted w := by
    unfold Lexer.start at h
    rw [if_neg hx] at h
    split at h
    · cases h
      exact fun w => by simp
    · split at h
      · cases h
        exact fun w => by simp
      · obtain ⟨t, -, rfl⟩ := Option.map_eq_some_iff.mp h
        exact fun w => by simp
  induction t generalizing l with
  | nil => rw [List.nil_append, Lexer.run, feed_stuck l hl, Option.bind_none]
  | cons x t ih =>
    rw [List.mem_cons, not_or] at hquote
    rw [List.cons_append, Lexer.run]
    cases hx : l.feed x with
    | none => rfl
    | some l' =>
      refine ih hquote.2 fun w => ?_
      obtain ⟨mode, tokens⟩ := l
      cases mode with
      | blank => exact start_mode tokens (Ne.symm hquote.1) hx w
      | word v =>
        rw [Lexer.feed] at hx
        split at hx
        · cases hx
          simp
        · exact start_mode _ (Ne.symm hquote.1) hx w
      | quoted v => exact absurd rfl (hl v)

/-- Between two tokens, the reading ends inside the text. -/
def Stuck (t : Text) : Prop := ∀ tokens u, Lexer.run ⟨.blank, tokens⟩ (t ++ u) = none

theorem stuck_at (hquote : '"' ∉ t) (hword : isWordChar c = false)
    (hstart : ∀ tokens, Lexer.start tokens c = none) : Stuck (t ++ c :: u) := by
  intro tokens v
  rw [List.append_assoc, List.cons_append]
  exact Lexer.run_stuck hquote hword hstart nofun

theorem Stuck.append (h : Stuck t) (u : Text) : Stuck (t ++ u) := by
  intro tokens v
  rw [List.append_assoc]
  exact h tokens _

theorem Lexes.stuck (ht : Lexes t ts) (hu : Stuck u) : Stuck (t ++ u) := by
  intro tokens v
  rw [List.append_assoc, Lexer.run_append, ht tokens]
  exact hu _ v

theorem Stuck.lex (h : Stuck t) : lex t = none := by
  have hrun := h [] []
  rw [List.append_nil] at hrun
  rw [Nft.lex, hrun, Option.bind_none]

/-! ## Statements and blocks -/

inductive Node where
  | stmt (tokens : List Token)
  | block (head : List Token) (body : List Node)

/-- The statement and the nodes at hand, and the blocks that are still open around them. -/
structure Builder where
  current : List Token
  nodes : List Node
  stack : List (List Token × List Node)

/-- The nodes after the statement at hand; an empty one does not count. -/
def Builder.flush (b : Builder) : List Node :=
  if b.current = [] then b.nodes else b.nodes ++ [.stmt b.current]

def Builder.feed (b : Builder) : Token → Option Builder
  | .semicolon => some ⟨[], b.flush, b.stack⟩
  | .newline => some ⟨[], b.flush, b.stack⟩
  | .lbrace => some ⟨[], [], (b.current, b.nodes) :: b.stack⟩
  | .rbrace =>
    match b.stack with
    | [] => none
    | (head, siblings) :: stack => some ⟨[], siblings ++ [.block head b.flush], stack⟩
  | t => some ⟨b.current ++ [t], b.nodes, b.stack⟩

def Builder.run : Builder → List Token → Option Builder
  | b, [] => some b
  | b, t :: ts => (b.feed t).bind fun b' => b'.run ts

/-- The nodes of a text whose blocks are all closed. -/
def build (ts : List Token) : Option (List Node) :=
  (Builder.run ⟨[], [], []⟩ ts).bind fun b =>
    match b.stack with
    | [] => some b.flush
    | _ :: _ => none

/-- Between two statements, the tokens are the nodes `ns`. -/
def Builds (ts : List Token) (ns : List Node) : Prop :=
  ∀ nodes stack, Builder.run ⟨[], nodes, stack⟩ ts = some ⟨[], nodes ++ ns, stack⟩

theorem Builder.run_append (b : Builder) (ts us : List Token) :
    b.run (ts ++ us) = (b.run ts).bind fun b' => b'.run us := by
  induction ts generalizing b with
  | nil => rfl
  | cons t ts ih =>
    rw [List.cons_append, Builder.run, Builder.run]
    cases b.feed t with
    | none => rfl
    | some b' => exact ih b'

theorem Builds.build (h : Builds ts ns) : build ts = some ns := by
  rw [Nft.build, h [] []]
  rfl

theorem builds_nil : Builds [] [] := fun nodes _ => by rw [Builder.run, List.append_nil]

theorem Builds.append {us : List Token} (hn : Builds ts ns) (hm : Builds us ms) :
    Builds (ts ++ us) (ns ++ ms) := by
  intro nodes stack
  rw [Builder.run_append, hn, Option.bind_some, hm, List.append_assoc]

/-- A token inside a statement. -/
def Token.isPlain : Token → Bool
  | .semicolon | .newline | .lbrace | .rbrace => false
  | _ => true

theorem Builder.run_plain (h : ∀ t ∈ ts, t.isPlain = true) (current : List Token)
    (nodes : List Node) (stack : List (List Token × List Node)) :
    Builder.run ⟨current, nodes, stack⟩ ts = some ⟨current ++ ts, nodes, stack⟩ := by
  induction ts generalizing current with
  | nil => rw [Builder.run, List.append_nil]
  | cons t ts ih =>
    rw [List.forall_mem_cons] at h
    have hfeed : Builder.feed ⟨current, nodes, stack⟩ t = some ⟨current ++ [t], nodes, stack⟩ := by
      have ht := h.1
      cases t <;> first | rfl | cases ht
    rw [Builder.run, hfeed, Option.bind_some, ih h.2, List.append_assoc]
    rfl

theorem isPlain_intersperse (h : ∀ t ∈ ts, t.isPlain = true) :
    ∀ t ∈ ts.intersperse .comma, t.isPlain = true := by
  induction ts with
  | nil => simp
  | cons a ts ih =>
    rw [List.forall_mem_cons] at h
    cases ts with
    | nil => simpa using h.1
    | cons b ts =>
      rw [List.intersperse_cons_cons, List.forall_mem_cons, List.forall_mem_cons]
      exact ⟨h.1, rfl, ih h.2⟩

theorem intersperse_ne_nil (h : ts ≠ []) : ts.intersperse .comma ≠ [] := by
  cases ts with
  | nil => exact absurd rfl h
  | cons a ts => cases ts <;> simp

theorem builds_newline : Builds [.newline] [] := fun nodes _ => by
  rw [List.append_nil]
  rfl

theorem builds_stmt (ts : List Token) (hne : ts ≠ []) (h : ∀ t ∈ ts, t.isPlain = true)
    {sep : Token} (hsep : sep = .newline ∨ sep = .semicolon) : Builds (ts ++ [sep]) [.stmt ts] := by
  intro nodes stack
  have hflush : Builder.flush ⟨ts, nodes, stack⟩ = nodes ++ [.stmt ts] := if_neg hne
  rw [Builder.run_append, Builder.run_plain h, Option.bind_some, List.nil_append]
  rcases hsep with rfl | rfl
  · simp only [Builder.run, Builder.feed, hflush, Option.bind_some]
  · simp only [Builder.run, Builder.feed, hflush, Option.bind_some]

theorem builds_block (head : List Token) {body : List Token} (hhead : ∀ t ∈ head, t.isPlain = true)
    (hbody : Builds body ns) :
    Builds (head ++ .lbrace :: (body ++ [.rbrace])) [.block head ns] := by
  intro nodes stack
  rw [Builder.run_append, Builder.run_plain hhead, Option.bind_some, Builder.run, Builder.feed,
    Option.bind_some, Builder.run_append, hbody]
  rfl

/-- The last statement of a block may go without a separator. -/
theorem builds_block_stmt (head : List Token) {body last : List Token}
    (hhead : ∀ t ∈ head, t.isPlain = true) (hbody : Builds body ns) (hne : last ≠ [])
    (hlast : ∀ t ∈ last, t.isPlain = true) :
    Builds (head ++ .lbrace :: (body ++ (last ++ [.rbrace])))
      [.block head (ns ++ [.stmt last])] := by
  intro nodes stack
  have hflush (stack : List (List Token × List Node)) :
      Builder.flush ⟨last, [] ++ ns, stack⟩ = ns ++ [.stmt last] := if_neg hne
  rw [Builder.run_append, Builder.run_plain hhead, Option.bind_some, Builder.run, Builder.feed,
    Option.bind_some, Builder.run_append, hbody, Option.bind_some, Builder.run_append,
    Builder.run_plain hlast, Option.bind_some]
  simp only [List.nil_append, Builder.run, Builder.feed, Option.bind_some] at hflush ⊢
  rw [hflush]

/-! ## Reading nodes -/

def readAddress : Family → Text → Option Nat
  | .v4, t => parseIPv4 t
  | .v6, t => parseIPv6Int t

/-- A prefix, or an address that stands for the prefix of its full length. -/
def readPrefix (f : Family) (t : Text) : Option Prefix :=
  match t.splitOn '/' with
  | [a] => (readAddress f a).map (.host f)
  | [a, l] => (readAddress f a).bind fun n => (parsePrefixLength f.width l).map fun k => ⟨f, n, k⟩
  | _ => none

/-- The prefix of a network. -/
def Prefix.ofNetwork : Network → Prefix
  | .v4 i => ⟨.v4, i.networkAddress, i.prefixLength⟩
  | .v6 a p => ⟨.v6, a.ip, p⟩

/-- The characters of the text of a network without a scope. -/
theorem isWordChar_of_mem_text {n : Network} (hscope : n.scopeId = none) (h : c ∈ n.text) :
    isWordChar c = true := by
  have hdigit (hc : c.isDigit = true) : isWordChar c = true := by
    simp [isWordChar, Char.isAlphanum, hc]
  have hpunct (hc : c ∈ ['_', '.', ':', '/', '-']) : isWordChar c = true := by
    rw [isWordChar, List.contains_iff_mem.mpr hc, Bool.or_true]
  have hnat {k : Nat} (hc : c ∈ natText k) : isWordChar c = true :=
    hdigit (Nat.isDigit_of_mem_toDigits (by decide) (by decide) hc)
  rw [Network.text, List.mem_append, List.mem_cons] at h
  rcases h with h | rfl | h
  · cases n with
    | v4 i =>
      rcases mem_ipv4Text h with hc | rfl
      · exact hdigit hc
      · exact hpunct (by decide)
    | v6 a p =>
      have ha : Network.addressText (.v6 a p) = ipv6Text a.ip := by
        simp only [Network.scopeId] at hscope
        simp [Network.addressText, hscope]
      rw [ha] at h
      rcases mem_ipv6Text h with hc | rfl | rfl
      · rw [isWordChar, isAlphanum_of_hexDigit hc, Bool.true_or]
      · exact hpunct (by decide)
      · exact hpunct (by decide)
  · exact hpunct (by decide)
  · exact hnat h

theorem text_ne_nil (n : Network) : n.text ≠ [] := by simp [Network.text]

theorem ofWord_text (n : Network) : Token.ofWord n.text = .word n.text :=
  ofWord_of_mem (c := '/') (by simp [Network.text]) (by decide)

/-- The prefix that stands for a network is the network. -/
theorem readPrefix_text {n : Network} (hvalid : n.Valid) (hscope : n.scopeId = none) :
    readPrefix (Prefix.ofNetwork n).family n.text = some (Prefix.ofNetwork n) := by
  have hsplit (a : Text) (ha : '/' ∉ a) (k : Nat) :
      (a ++ '/' :: natText k).splitOn '/' = [a, natText k] := by
    rw [List.splitOn_append_cons_self_of_not_mem ha,
      List.splitOn_eq_singleton (not_mem_natText (by decide) k)]
  cases n with
  | v4 i =>
    have hslash := slash_not_mem_ipv4Text i.networkAddress
    have hlt : i.networkAddress < 2 ^ 32 := by
      rw [← show i.ip = i.networkAddress from hvalid]
      exact i.ip_lt
    simp only [readPrefix, Network.text, Network.addressText, Network.prefixLength,
      Prefix.ofNetwork, hsplit _ hslash, readAddress, parseIPv4_text hlt, Option.bind_some]
    rw [show Family.width .v4 = 32 from rfl, parsePrefixLength_text (by decide) i.prefixLength_le,
      Option.map_some]
  | v6 a p =>
    have hslash : '/' ∉ ipv6Text a.ip := fun hm => by
      rcases mem_ipv6Text hm with hd | hd | hd
      · exact absurd hd (by decide)
      · exact absurd hd (by decide)
      · exact absurd hd (by decide)
    have ha : Network.addressText (.v6 a p) = ipv6Text a.ip := by
      simp only [Network.scopeId] at hscope
      simp [Network.addressText, hscope]
    simp only [readPrefix, Network.text, ha, Network.prefixLength, Prefix.ofNetwork,
      hsplit _ hslash, readAddress, parseIPv6Int_text hvalid.1, Option.bind_some]
    rw [show Family.width .v6 = 128 from rfl, parsePrefixLength_text (by decide) hvalid.2.1,
      Option.map_some]

def readNat (t : Text) : Option Nat :=
  if t.isEmpty || !t.all isAsciiDigit then none else some (Nat.ofDigitChars 10 t 0)

/-- A number, or the name of one. -/
def readPriority : Text → Option Int
  | '-' :: t => (readNat t).map fun n => -(n : Int)
  | t => if t = "srcnat".toList then some 100 else (readNat t).map fun n => (n : Int)

def readHook (t : Text) : Option Hook :=
  [("forward".toList, .forward), ("input".toList, .input), ("output".toList, .output),
    ("postrouting".toList, .postrouting)].lookup t

def readKind (t : Text) : Option Kind :=
  [("filter".toList, .filter), ("nat".toList, .nat)].lookup t

def readVerdict : Token → Option Verdict
  | .key .accept => some .accept
  | .key .drop => some .drop
  | _ => none

/-- The elements of a set, with commas between them. -/
def readItems : List Token → Option (List Token)
  | [t] => some [t]
  | t :: .comma :: rest => (readItems rest).map (t :: ·)
  | _ => none

theorem readItems_intersperse (ts : List Token) (h : ts ≠ []) :
    readItems (ts.intersperse .comma) = some ts := by
  induction ts with
  | nil => exact absurd rfl h
  | cons t ts ih =>
    cases ts with
    | nil => rfl
    | cons u ts =>
      have hu := ih (List.cons_ne_nil u ts)
      rw [List.intersperse_cons_cons]
      generalize hrest : List.intersperse Token.comma (u :: ts) = rest at hu ⊢
      cases rest with
      | nil => cases hu
      | cons v rest => simp [readItems, hu]

def readName : Token → Option Name
  | .quoted n => some n
  | _ => none

def readWord (f : Family) : Token → Option Prefix
  | .word w => readPrefix f w
  | _ => none

def readElements (f : Option Family) (ts : List Token) : Option Elements :=
  (readItems ts).bind fun items =>
    match f with
    | none => (items.mapM readName).map .names
    | some f => (items.mapM (readWord f)).map .prefixes

def readSet (name : Name) : List Node → Option NamedSet
  | [.stmt [.key .type, .key .ifname], .block [.key .elements, .equals] [.stmt ts]] =>
    (readElements none ts).map fun es => ⟨name, es⟩
  | [.stmt [.key .type, .key .ipv4Addr], .stmt [.key .flags, .key .interval],
      .block [.key .elements, .equals] [.stmt ts]] =>
    (readElements (some .v4) ts).map fun es => ⟨name, es⟩
  | [.stmt [.key .type, .key .ipv6Addr], .stmt [.key .flags, .key .interval],
      .block [.key .elements, .equals] [.stmt ts]] =>
    (readElements (some .v6) ts).map fun es => ⟨name, es⟩
  | _ => none

def Rule.select (s : Selector) (r : Rule) : Rule := { r with selectors := s :: r.selectors }

/-- A comment may stand at the end of a rule. -/
def isComment : List Token → Bool
  | [] | [.key .comment, .quoted _] => true
  | _ => false

def readRule : List Token → Option Rule
  | .key .iifname :: .quoted n :: ts => (readRule ts).map (.select (.iif n))
  | .key .iifname :: .at :: .word set :: ts => (readRule ts).map (.select (.iifIn set))
  | .key .oifname :: .quoted n :: ts => (readRule ts).map (.select (.oif n))
  | .key .metadata :: .key .nfproto :: .key .ipv4 :: ts =>
    (readRule ts).map (.select (.nfproto .v4))
  | .key .metadata :: .key .nfproto :: .key .ipv6 :: ts =>
    (readRule ts).map (.select (.nfproto .v6))
  | .key .ip :: .key .saddr :: .word w :: ts =>
    (readPrefix .v4 w).bind fun source => (readRule ts).map (.select (.saddr source))
  | .key .ip :: .key .daddr :: .at :: .word set :: ts =>
    (readRule ts).map (.select (.daddrIn .v4 set))
  | .key .ip6 :: .key .daddr :: .at :: .word set :: ts =>
    (readRule ts).map (.select (.daddrIn .v6 set))
  | .key .udp :: .key .dport :: .word w :: ts =>
    (readNat w).bind fun port => (readRule ts).map (.select (.dport .udp port))
  | .key .tcp :: .key .dport :: .word w :: ts =>
    (readNat w).bind fun port => (readRule ts).map (.select (.dport .tcp port))
  | .key .ct :: .key .state :: .key .established :: .comma :: .key .related :: ts =>
    (readRule ts).map (.select .established)
  | .key .accept :: ts => if isComment ts then some ⟨[], .verdict .accept⟩ else none
  | .key .drop :: ts => if isComment ts then some ⟨[], .verdict .drop⟩ else none
  | .key .masquerade :: ts => if isComment ts then some ⟨[], .masquerade⟩ else none
  | _ => none

def readRuleNode : Node → Option Rule
  | .stmt ts => readRule ts
  | .block _ _ => none

def readChain (name : Name) : List Node → Option Chain
  | .stmt [.key .type, .word kind, .key .hook, .word hook, .key .priority, .word priority] ::
      .stmt [.key .policy, policy] :: rules =>
    (readKind kind).bind fun kind => (readHook hook).bind fun hook =>
      (readPriority priority).bind fun priority => (readVerdict policy).bind fun policy =>
        (rules.mapM readRuleNode).map fun rules => ⟨name, kind, hook, priority, policy, rules⟩
  | _ => none

def readBody : List Node → Option (List NamedSet × List Chain)
  | [] => some ([], [])
  | .block [.key .set, .word name] body :: rest =>
    (readSet name body).bind fun set => (readBody rest).map fun r => (set :: r.1, r.2)
  | .block [.key .chain, .word name] body :: rest =>
    (readChain name body).bind fun chain => (readBody rest).map fun r => (r.1, chain :: r.2)
  | _ => none

/-- A script takes a table away, or puts another one in its place. -/
inductive Script where
  | destroy (name : Name)
  | replace (table : Table)
  deriving DecidableEq

def readScript : List Node → Option Script
  | [.stmt [.key .destroy, .key .table, .key .inet, .word name]] => some (.destroy name)
  | [.stmt [.key .destroy, .key .table, .key .inet, .word old],
      .block [.key .table, .key .inet, .word name] body] =>
    if old = name then (readBody body).map fun r => .replace ⟨name, r.1, r.2⟩ else none
  | _ => none

/-- What the text says. -/
def read (t : Text) : Option Script := (lex t).bind fun ts => (build ts).bind readScript

theorem Stuck.read (h : Stuck t) : read t = none := by
  rw [Nft.read, h.lex, Option.bind_none]

/-- The sets of the script can be built. -/
def Script.loads : Script → Bool
  | .destroy _ => true
  | .replace T => T.loads

/-- What `nft -f` takes. -/
def load (t : Text) : Option Script := (read t).filter Script.loads

/-! ## Reading a text piece by piece -/

/-- Between two statements, the text is the nodes `ns`. -/
def Reads (t : Text) (ns : List Node) : Prop := ∃ ts, Lexes t ts ∧ Builds ts ns

theorem reads_nil : Reads [] [] := ⟨[], lexes_nil, builds_nil⟩

theorem Reads.append (ht : Reads t ns) (hu : Reads u ms) : Reads (t ++ u) (ns ++ ms) := by
  obtain ⟨ts, hlex, hbuild⟩ := ht
  obtain ⟨us, hlex', hbuild'⟩ := hu
  exact ⟨ts ++ us, hlex.append hlex', hbuild.append hbuild'⟩

theorem reads_stmt (h : Lexes t (ts ++ [.newline])) (hne : ts ≠ [])
    (hplain : ∀ t ∈ ts, t.isPlain = true) : Reads t [.stmt ts] :=
  ⟨_, h, builds_stmt ts hne hplain (.inl rfl)⟩

/-- A block over several lines. -/
theorem Reads.block {body : Text} {head first : List Token}
    (ht : Lexes t (head ++ .lbrace :: first)) (hplain : ∀ t ∈ head, t.isPlain = true)
    (hfirst : Builds first ns) (hbody : Reads body ms) (hu : Lexes u [.rbrace, .newline]) :
    Reads (t ++ body ++ u) [.block head (ns ++ ms)] := by
  obtain ⟨ts, hlex, hbuild⟩ := hbody
  refine ⟨_, (ht.append hlex).append hu, ?_⟩
  have hb := (builds_block head hplain (hfirst.append hbuild)).append builds_newline
  simpa using hb

theorem Reads.read (h : Reads t ns) : read t = readScript ns := by
  obtain ⟨ts, hlex, hbuild⟩ := h
  rw [Nft.read, hlex.lex, Option.bind_some, hbuild.build, Option.bind_some]

/-- A set on one line, with its elements in braces at the end. -/
theorem reads_set {items : Text} (decl : List Token)
    (ht : Lexes t ([.key .set, .word name, .lbrace] ++ decl ++ [.key .elements, .equals, .lbrace]))
    (hdecl : Builds decl ns) (hitems : Lexes items ts) (hne : ts ≠ [])
    (hplain : ∀ t ∈ ts, t.isPlain = true) (hu : Lexes u [.rbrace, .rbrace, .newline]) :
    Reads (t ++ items ++ u) [.block [.key .set, .word name]
      (ns ++ [.block [.key .elements, .equals] [.stmt ts]])] := by
  refine ⟨_, (ht.append hitems).append hu, ?_⟩
  have helements := builds_block_stmt [.key .elements, .equals] (by decide) builds_nil hne
    hplain
  have hset := builds_block [.key .set, .word name] (by simp [Token.isPlain])
    (hdecl.append helements)
  simpa using hset.append builds_newline

/-- The text is the rules `rs`. -/
def ReadsRules (t : Text) (rs : List Rule) : Prop :=
  ∃ ns, Reads t ns ∧ ns.mapM readRuleNode = some rs

theorem readsRules_nil : ReadsRules [] [] := ⟨[], reads_nil, rfl⟩

theorem ReadsRules.append {qs : List Rule} (ht : ReadsRules t rs) (hu : ReadsRules u qs) :
    ReadsRules (t ++ u) (rs ++ qs) := by
  obtain ⟨ns, hns, hrs⟩ := ht
  obtain ⟨ms, hms, hqs⟩ := hu
  exact ⟨ns ++ ms, hns.append hms, by simp [List.mapM_append, hrs, hqs]⟩

theorem ReadsRules.cons (ht : ReadsRules t [r]) (hu : ReadsRules u rs) :
    ReadsRules (t ++ u) (r :: rs) :=
  ht.append hu

theorem readsRules_line (ts : List Token) (h : Lexes t (ts ++ [.newline]))
    (hplain : ∀ t ∈ ts, t.isPlain = true) (hr : readRule ts = some r) : ReadsRules t [r] := by
  have hne : ts ≠ [] := by
    rintro rfl
    cases hr
  exact ⟨_, reads_stmt h hne hplain, by simp [readRuleNode, hr]⟩

/-- Evaluation of a line without parameters: the tokens make up one rule. -/
def isRuleLine (t : Text) (r : Rule) : Bool :=
  match Lexer.run ⟨.blank, []⟩ (endLine t) with
  | some ⟨.blank, .newline :: ts⟩ => ts.all (·.isPlain) && readRule ts.reverse == some r
  | _ => false

theorem readsRules_literal (h : isRuleLine t r = true) :
    ReadsRules (endLine (String.ofList t).toList) [r] := by
  unfold isRuleLine at h
  split at h
  · next ts hrun =>
    rw [Bool.and_eq_true, beq_iff_eq, List.all_eq_true] at h
    rw [← List.reverse_reverse ts] at hrun
    exact readsRules_line _ (lexes_line _ hrun)
      (fun t ht => h.1 t (List.mem_reverse.mp ht)) h.2
  · cases h

/-- The text is the sets and chains of a table. -/
def ReadsBody (t : Text) (sets : List NamedSet) (chains : List Chain) : Prop :=
  ∃ ns, Reads t ns ∧ ∀ rest, readBody (ns ++ rest) =
    (readBody rest).map fun r => (sets ++ r.1, chains ++ r.2)

theorem ReadsBody.lexes {sets : List NamedSet} {chains : List Chain} (h : ReadsBody t sets chains) :
    ∃ ts, Lexes t ts := by
  obtain ⟨ns, ⟨ts, hlex, -⟩, -⟩ := h
  exact ⟨ts, hlex⟩

theorem readsBody_nil : ReadsBody [] [] [] :=
  ⟨[], reads_nil, fun rest => by cases h : readBody rest <;> simp [h]⟩

theorem ReadsBody.append {ss ss' : List NamedSet} {cs cs' : List Chain} (ht : ReadsBody t ss cs)
    (hu : ReadsBody u ss' cs') : ReadsBody (t ++ u) (ss ++ ss') (cs ++ cs') := by
  obtain ⟨ns, hns, hbody⟩ := ht
  obtain ⟨ms, hms, hbody'⟩ := hu
  refine ⟨ns ++ ms, hns.append hms, fun rest => ?_⟩
  rw [List.append_assoc, hbody, hbody', Option.map_map]
  simp [Function.comp_def]

theorem readsBody_set {body : List Node} {s : NamedSet}
    (h : Reads t [.block [.key .set, .word name] body]) (hset : readSet name body = some s) :
    ReadsBody t [s] [] :=
  ⟨_, h, fun rest => by simp [readBody, hset]⟩

/-- The header of a chain. -/
theorem builds_header (kind hook priority : Text) :
    Builds [.key .type, .word kind, .key .hook, .word hook, .key .priority, .word priority,
        .semicolon, .key .policy, .key .accept, .semicolon, .newline]
      [.stmt [.key .type, .word kind, .key .hook, .word hook, .key .priority, .word priority],
        .stmt [.key .policy, .key .accept]] := by
  have htype := builds_stmt [.key .type, .word kind, .key .hook, .word hook, .key .priority,
    .word priority] (by simp) (by simp [Token.isPlain]) (.inr rfl)
  have hpolicy := builds_stmt [.key .policy, .key .accept] (by simp) (by decide) (.inr rfl)
  exact htype.append (hpolicy.append builds_newline)

/-- A chain: the header with the policy, then the rules. -/
theorem readsBody_chain {rules : Text} {name kind hook priority : Text} {policy : Token}
    {first : List Token} {k : Kind} {h : Hook} {i : Int} {v : Verdict}
    (ht : Lexes t ([.key .chain, .word name] ++ .lbrace :: first))
    (hfirst : Builds first [.stmt [.key .type, .word kind, .key .hook, .word hook, .key .priority,
      .word priority], .stmt [.key .policy, policy]]) (hrules : ReadsRules rules rs)
    (hu : Lexes u [.rbrace, .newline]) (hk : readKind kind = some k) (hh : readHook hook = some h)
    (hi : readPriority priority = some i) (hv : readVerdict policy = some v) :
    ReadsBody (t ++ rules ++ u) [] [⟨name, k, h, i, v, rs⟩] := by
  obtain ⟨ns, hns, hrs⟩ := hrules
  refine ⟨_, Reads.block ht (by simp [Token.isPlain]) hfirst hns hu, fun rest => ?_⟩
  simp [readBody, readChain, hk, hh, hi, hv, hrs]

/-- A script that puts a table in the place of the one of its name. -/
theorem read_table {body : Text} {sets : List NamedSet} {chains : List Chain}
    (ht : Lexes t [.key .destroy, .key .table, .key .inet, .word name, .newline, .key .table,
      .key .inet, .word name, .lbrace, .newline]) (hbody : ReadsBody body sets chains)
    (hu : Lexes u [.rbrace, .newline]) :
    read (t ++ body ++ u) = some (.replace ⟨name, sets, chains⟩) := by
  obtain ⟨ns, ⟨ts, hlex, hbuild⟩, hread⟩ := hbody
  have hdestroy := builds_stmt [.key .destroy, .key .table, .key .inet, .word name]
    (by simp) (by simp [Token.isPlain]) (.inl rfl)
  have htable := builds_block [.key .table, .key .inet, .word name]
    (by simp [Token.isPlain]) (builds_newline.append hbuild)
  have hall : Reads (t ++ body ++ u) [.stmt [.key .destroy, .key .table, .key .inet, .word name],
      .block [.key .table, .key .inet, .word name] ns] := by
    refine ⟨_, (ht.append hlex).append hu, ?_⟩
    simpa using (hdestroy.append htable).append builds_newline
  have hns := hread []
  rw [List.append_nil] at hns
  rw [hall.read]
  simp [readScript, hns, readBody]

end Nft
