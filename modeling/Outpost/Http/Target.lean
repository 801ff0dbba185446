import Outpost.Text

/-!
# Request targets

What a request line asks for: a path with an optional query, a whole URI, an authority alone, or
a star.  Only the path and the query are kept; a fragment is dropped, and the scheme and the
authority of a whole URI are checked and forgotten.
-/

namespace Outpost.Http

/-! ## Methods -/

abbrev Method := String

namespace Method

def get : Method := "GET"
def head : Method := "HEAD"

def isTokenChar (char : Char) : Bool :=
  char.isAlphanum || "!#$%&'*+-.^_\x60|~".toList.contains char

def parse? (text : String) : Option Method :=
  if text ≠ "" && text.toList.all isTokenChar then some text else none

end Method

/-! ## Targets -/

structure Target where
  path : String
  query : Option String
  /-- Path and query as written; an authority alone has none. -/
  pathAndQuery : Option String
  deriving DecidableEq, Repr, Inhabited

namespace Target

def maxLength : Nat := 65534

def isPathChar (char : Char) : Bool :=
  0x20 < char.toNat && char.toNat ≠ 0x7F && !List.contains ['<', '>', '\x60'] char

def isQueryChar (char : Char) : Bool :=
  0x20 < char.toNat && char.toNat ≠ 0x7F && !List.contains ['"', '<', '>'] char

def isSchemeChar (char : Char) : Bool := char.isAlphanum || "+-.~".toList.contains char

def isAuthorityChar (char : Char) : Bool :=
  char.isAlphanum || "!$&'()*+,-.:;=@[]_~%".toList.contains char

def ofPathAndQuery? (chars : List Char) : Option Target :=
  let visible := chars.takeWhile (· ≠ '#')
  let path := visible.takeWhile (· ≠ '?')
  let query := match visible.dropWhile (· ≠ '?') with
    | [] => none
    | _ :: rest => some rest
  if path.all isPathChar && (query.getD []).all isQueryChar then
    some {
      path := if path.isEmpty then "/" else String.ofList path
      query := query.map String.ofList
      pathAndQuery := some (if visible.isEmpty then "/" else String.ofList visible) }
  else none

structure AuthorityScan where
  colons : Nat
  opened : Bool
  closed : Bool
  percent : Bool
  afterAt : Bool

def AuthorityScan.step (scan : AuthorityScan) (char : Char) : Option AuthorityScan :=
  let scan := { scan with afterAt := false }
  if char = ':' then
    if scan.colons < 8 then some { scan with colons := scan.colons + 1 } else none
  else if char = '[' then
    if scan.percent || scan.opened then none else some { scan with opened := true }
  else if char = ']' then
    if !scan.opened || scan.closed then none
    else some { scan with closed := true, colons := 0, percent := false }
  else if char = '@' then some { scan with colons := 0, percent := false, afterAt := true }
  else if char = '%' then some { scan with percent := true }
  else if isAuthorityChar char then some scan
  else none

/-- An authority has balanced brackets, at most one colon outside brackets and user information,
something after its last at sign, and percent signs only before an at sign or in brackets. -/
def isAuthority (chars : List Char) : Bool :=
  match chars.foldlM AuthorityScan.step ⟨0, false, false, false, false⟩ with
  | none => false
  | some scan => scan.opened == scan.closed && scan.colons ≤ 1 && !scan.afterAt && !scan.percent

def afterScheme (chars : List Char) : Except Unit (Option (List Char)) :=
  let scheme := chars.takeWhile isSchemeChar
  match chars.dropWhile isSchemeChar with
  | ':' :: '/' :: '/' :: rest =>
      if 64 < scheme.length then .error () else .ok (some rest)
  | _ => .ok none

def endsAuthority (char : Char) : Bool := char = '/' || char = '?' || char = '#'

def parse? (text : String) : Option Target :=
  if maxLength < text.utf8ByteSize then none
  else
    match text.toList with
    | [] => none
    | ['*'] => some ⟨"*", none, some "*"⟩
    | '/' :: rest => ofPathAndQuery? ('/' :: rest)
    | chars =>
        match afterScheme chars with
        | .error _ => none
        | .ok none => if isAuthority chars then some ⟨"", none, none⟩ else none
        | .ok (some rest) =>
            let authority := rest.takeWhile fun char => !endsAuthority char
            if authority.isEmpty || !isAuthority authority then none
            else ofPathAndQuery? (rest.dropWhile fun char => !endsAuthority char)

end Target

end Outpost.Http
