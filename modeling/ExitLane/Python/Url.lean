import ExitLane.Python.IpNetwork

/-!
# `urllib.parse`

`urlsplit` as the standard library computes it.
-/

namespace Url
open Python IpAddress

/-- The characters whose compatibility decomposition (NFKC) holds one of `/?#@:`. -/
def hidesDelimiter (c : Char) : Bool :=
  [0x2047, 0x2048, 0x2049, 0x2100, 0x2101, 0x2105, 0x2106, 0x2a74, 0xfe13, 0xfe16, 0xfe55, 0xfe56,
    0xfe5f, 0xfe6b, 0xff03, 0xff0f, 0xff1a, 0xff1f, 0xff20].contains c.toNat

def isHexDigit (c : Char) : Bool := (hexDigit c).isSome

/-- `_check_bracketed_host`: a versioned literal or an IPv6 address. -/
def checkBracketedHost : Text → Bool
  | 'v' :: rest =>
    !(rest.takeWhile isHexDigit).isEmpty &&
      match rest.dropWhile isHexDigit with
      | '.' :: tail => !tail.isEmpty && !tail.contains '\n'
      | _ => false
  | host =>
    match parseAddress host with
    | some (.v6 _) => true
    | _ => false

/-- `str.partition`: the whole text and an empty one when the separator does not occur. -/
def cut (sep : Char) (t : Text) : Text × Text := (Python.partition sep t).getD (t, [])

def afterUserinfo (netloc : Text) : Text := (rpartition '@' netloc).elim netloc Prod.snd

/-- `_check_bracketed_netloc`. -/
def checkBracketedNetloc (netloc : Text) : Bool :=
  match Python.partition '[' (afterUserinfo netloc) with
  | some (before, bracketed) =>
    before.isEmpty && ((cut ']' bracketed).2.isEmpty || (cut ']' bracketed).2.head? == some ':') &&
      checkBracketedHost (cut ']' bracketed).1
  | none => checkBracketedHost (cut ':' (afterUserinfo netloc)).1

/-- The brackets of a location, and `_checknetloc`. -/
def checkNetloc (netloc : Text) : Bool :=
  (if netloc.contains '[' && netloc.contains ']' then checkBracketedNetloc netloc
    else !netloc.contains '[' && !netloc.contains ']') &&
    !netloc.any hidesDelimiter

structure SplitUrl where
  scheme : Text
  netloc : Text
  path : Text
  query : Text
  fragment : Text
  deriving DecidableEq

def isSchemeChar (c : Char) : Bool := c.isAlphanum || c == '+' || c == '-' || c == '.'

def splitScheme (url : Text) : Text × Text :=
  match Python.partition ':' url with
  | some (scheme, rest) =>
    if scheme.head?.any Char.isAlpha && scheme.all isSchemeChar then
      (scheme.map Char.toLower, rest)
    else ([], url)
  | none => ([], url)

def isUrlDelimiter (c : Char) : Bool := c == '/' || c == '?' || c == '#'

/-- `_splitnetloc`, after the two slashes. -/
def splitNetloc : Text → Text × Text
  | '/' :: '/' :: rest =>
    (rest.takeWhile (!isUrlDelimiter ·), rest.dropWhile (!isUrlDelimiter ·))
  | url => ([], url)

/-- `urlsplit`; `none` is its `ValueError`. -/
def urlsplit (url : Text) : Option SplitUrl :=
  let url := (url.dropWhile (·.toNat ≤ 32)).filter fun c => !(c == '\t' || c == '\r' || c == '\n')
  let (scheme, rest) := splitScheme url
  let (netloc, rest) := splitNetloc rest
  let (rest, fragment) := cut '#' rest
  let (path, query) := cut '?' rest
  if checkNetloc netloc then some ⟨scheme, netloc, path, query, fragment⟩ else none

end Url
