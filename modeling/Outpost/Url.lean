import Outpost.Text
import Outpost.Url.Address
import Outpost.Url.Domain

/-!
# URLs

Web addresses over `http` and `https`.  Parsing drops blanks and line breaks, decides the
authority first, resolves the dot segments of the path and percent-encodes what each part may
not hold; a URL of any other scheme is an error once its authority has been looked at.
-/

namespace Outpost

inductive UrlError where
  | relativeWithoutBase
  | emptyHost
  | invalidDomain
  | invalidDomainCharacter
  | invalidIPv4
  | invalidIPv6
  | invalidPort
  | unsupportedScheme (scheme : String)
  deriving DecidableEq, Repr

def UrlError.message : UrlError → String
  | .relativeWithoutBase => "relative URL without a base"
  | .emptyHost => "empty host"
  | .invalidDomain => "invalid international domain name"
  | .invalidDomainCharacter => "invalid domain character"
  | .invalidIPv4 => "invalid IPv4 address"
  | .invalidIPv6 => "invalid IPv6 address"
  | .invalidPort => "invalid port number"
  | .unsupportedScheme scheme => "unsupported scheme " ++ scheme

namespace Url

/-! ## Parts -/

inductive Scheme where
  | http
  | https
  deriving DecidableEq, Repr, Inhabited

def Scheme.name : Scheme → String
  | .http => "http"
  | .https => "https"

def Scheme.defaultPort : Scheme → Nat
  | .http => 80
  | .https => 443

inductive Host where
  | domain (name : String)
  | ipv4 (address : Nat)
  | ipv6 (pieces : List Nat)
  deriving DecidableEq, Repr, Inhabited

def Host.render : Host → String
  | .domain name => name
  | .ipv4 address => IPv4.render address
  | .ipv6 pieces => "[" ++ IPv6.render pieces ++ "]"

structure UserInfo where
  user : String
  password : Option String
  deriving DecidableEq, Repr, Inhabited

structure Authority where
  userInfo : Option UserInfo
  host : Host
  port : Option Nat
  deriving DecidableEq, Repr, Inhabited

end Url

structure Url where
  scheme : Url.Scheme
  authority : Url.Authority
  /-- The segments of the path, of which there is at least one. -/
  path : List String
  query : Option String
  fragment : Option String
  deriving DecidableEq, Repr, Inhabited

namespace Url

/-! ## Escapes -/

def isControl (char : Char) : Bool := char.toNat < 0x20 || 0x7F ≤ char.toNat

def escapesInFragment (char : Char) : Bool :=
  isControl char || " \"<>\x60".toList.contains char

def escapesInPath (char : Char) : Bool :=
  escapesInFragment char || "#?\x7b\x7d".toList.contains char

def escapesInQuery (char : Char) : Bool := isControl char || " \"#<>'".toList.contains char

def escapesInUserInfo (char : Char) : Bool :=
  escapesInPath char || "/:;=@[\\]^|".toList.contains char

def escapeChar (char : Char) : List Char :=
  (Bytes.ofText (String.singleton char)).flatMap fun byte =>
    (Percent.escape byte).map fun code => Char.ofNat code.toNat

def escape (escapes : Char → Bool) (chars : List Char) : String :=
  String.ofList (chars.flatMap fun char => if escapes char then escapeChar char else [char])

/-! ## Paths -/

def plainDots : List Char → List Char
  | '%' :: '2' :: 'e' :: rest => '.' :: plainDots rest
  | '%' :: '2' :: 'E' :: rest => '.' :: plainDots rest
  | char :: rest => char :: plainDots rest
  | [] => []

def isSingleDot (segment : String) : Bool := plainDots segment.toList = ['.']

def isDoubleDot (segment : String) : Bool := plainDots segment.toList = ['.', '.']

/-- A letter and a colon or bar, which stays whatever dot segments follow it. -/
def isDriveLetter (segment : String) : Bool :=
  match segment.toList with
  | [letter, mark] => letter.isAlpha && (mark = ':' || mark = '|')
  | _ => false

def parent (segments : List String) : List String :=
  match segments.getLast? with
  | some last => if isDriveLetter last then segments else segments.dropLast
  | none => []

/-- Takes the segments in order; a dot segment at the end leaves an empty last segment. -/
def resolve : List String → List String → List String
  | done, [] => done
  | done, [last] =>
      if isDoubleDot last then parent done ++ [""]
      else if isSingleDot last then done ++ [""]
      else done ++ [last]
  | done, segment :: rest =>
      if isDoubleDot segment then resolve (parent done) rest
      else if isSingleDot segment then resolve done rest
      else resolve (done ++ [segment]) rest

def isSlash (char : Char) : Bool := char = '/' || char = '\\'

def pathSegments (chars : List Char) : List String :=
  let unrooted := match chars with
    | first :: rest => if isSlash first then rest else first :: rest
    | [] => []
  resolve [] ((unrooted.splitOnP isSlash).map (escape escapesInPath))

/-! ## Authorities -/

def splitUserInfo (chars : List Char) : Option (List Char) × List Char :=
  let reversed := chars.reverse
  match reversed.dropWhile (· ≠ '@') with
  | [] => (none, chars)
  | _ :: before => (some before.reverse, (reversed.takeWhile (· ≠ '@')).reverse)

def userInfo? (chars : List Char) : Option UserInfo :=
  let user := escape escapesInUserInfo (chars.takeWhile (· ≠ ':'))
  let password := match chars.dropWhile (· ≠ ':') with
    | _ :: first :: rest => some (escape escapesInUserInfo (first :: rest))
    | _ => none
  if user = "" ∧ password = none then none else some ⟨user, password⟩

/-- The host, and the rest from the colon before the port on; colons in brackets do not count. -/
def splitPort : Bool → List Char → List Char × List Char
  | _, [] => ([], [])
  | inBrackets, char :: rest =>
      if char = ':' && !inBrackets then ([], char :: rest)
      else
        let inside := if char = '[' then true else if char = ']' then false else inBrackets
        let (host, port) := splitPort inside rest
        (char :: host, port)

def bracketed? (chars : List Char) : Except UrlError Host :=
  if chars.getLast? = some ']' then
    match IPv6.parse? chars.dropLast with
    | some pieces => .ok (.ipv6 pieces)
    | none => .error .invalidIPv6
  else .error .invalidIPv6

def parseHost [Domain.Mapping] : List Char → Except UrlError Host
  | [] => .error .emptyHost
  | '[' :: rest => bracketed? rest
  | chars =>
      match Domain.normalize? chars with
      | none => .error .invalidDomain
      | some [] => .error .emptyHost
      | some domain =>
          if IPv4.endsInNumber domain then
            match IPv4.parse? domain with
            | some address => .ok (.ipv4 address)
            | none => .error .invalidIPv4
          else .ok (.domain (String.ofList domain))

def parsePort : List Char → Except UrlError (Option Nat)
  | [] => .ok none
  | _ :: [] => .ok none
  | _ :: digits =>
      match IPv4.isDecimal digits, IPv4.inBase? 10 digits with
      | true, some port => if port < 65536 then .ok (some port) else .error .invalidPort
      | _, _ => .error .invalidPort

def parseAuthority [Domain.Mapping] (scheme : Scheme) (chars : List Char) : Except UrlError Authority := do
  let (user, hostPort) := splitUserInfo chars
  let (hostText, portText) := splitPort false hostPort
  let host ← parseHost hostText
  let port ← parsePort portText
  return ⟨user.bind userInfo?, host, port.filter (· ≠ scheme.defaultPort)⟩

/-! ## Other schemes -/

def isForbiddenInHost (char : Char) : Bool :=
  char.toNat = 0 || " #/:<>?@[\\]^|".toList.contains char

def checkForeignAuthority (chars : List Char) : Except UrlError Unit := do
  let (user, hostPort) := splitUserInfo chars
  let (hostText, portText) := splitPort false hostPort
  match hostText with
  | [] =>
      if !portText.isEmpty || (user.bind userInfo?).isSome then .error .emptyHost else pure ()
  | '[' :: rest => discard (bracketed? rest)
  | _ => if hostText.any isForbiddenInHost then .error .invalidDomainCharacter else pure ()
  discard (parsePort portText)

/-- The error that a URL of a scheme other than the two understood ones is met with. -/
def refuse [Domain.Mapping] (scheme : String) (rest : List Char) : UrlError :=
  let authorityOf (isEnd : Char → Bool) (chars : List Char) := chars.takeWhile fun c => !isEnd c
  let endsSpecial := fun char : Char => isSlash char || char = '?' || char = '#'
  let endsPlain := fun char : Char => char = '/' || char = '?' || char = '#'
  let checked : Except UrlError Unit :=
    if scheme = "ws" || scheme = "wss" || scheme = "ftp" then
      discard (parseAuthority .http (authorityOf endsSpecial (rest.dropWhile isSlash)))
    else if scheme = "file" then
      match rest with
      | first :: second :: host =>
          if isSlash first && isSlash second then
            match authorityOf endsSpecial host with
            | [] => .ok ()
            | text =>
                if isDriveLetter (String.ofList text) then .ok () else discard (parseHost text)
          else .ok ()
      | _ => .ok ()
    else
      match rest with
      | '/' :: '/' :: authority => checkForeignAuthority (authorityOf endsPlain authority)
      | _ => .ok ()
  match checked with
  | .error error => error
  | .ok _ => .unsupportedScheme scheme

/-! ## Parsing -/

def isEdge (char : Char) : Bool := char.toNat ≤ 0x20

/-- Controls and blanks at the ends and line breaks and tabs anywhere do not count. -/
def strip (text : String) : List Char :=
  let trimmed := ((text.toList.dropWhile isEdge).reverse.dropWhile isEdge).reverse
  trimmed.filter fun char => !(char = '\t' || char = '\n' || char = '\r')

def isSchemeChar (char : Char) : Bool := char.isAlphanum || char = '+' || char = '-' || char = '.'

def splitScheme (chars : List Char) : Option (String × List Char) :=
  match chars.head?, chars.dropWhile isSchemeChar with
  | some first, ':' :: rest =>
      if first.isAlpha then
        some (String.ofList ((chars.takeWhile isSchemeChar).map Char.toLower), rest)
      else none
  | _, _ => none

def endsAuthority (char : Char) : Bool := isSlash char || char = '?' || char = '#'

/-- Parses what follows the scheme; any number of slashes may stand before the authority. -/
def parseAfterScheme [Domain.Mapping] (scheme : Scheme) (chars : List Char) :
    Except UrlError Url := do
  let unslashed := chars.dropWhile isSlash
  let authority ← parseAuthority scheme (unslashed.takeWhile fun char => !endsAuthority char)
  let tail := unslashed.dropWhile fun char => !endsAuthority char
  let visible := tail.takeWhile (· ≠ '#')
  let query := match visible.dropWhile (· ≠ '?') with
    | [] => none
    | _ :: rest => some (escape escapesInQuery rest)
  let fragment := match tail.dropWhile (· ≠ '#') with
    | [] => none
    | _ :: rest => some (escape escapesInFragment rest)
  return ⟨scheme, authority, pathSegments (visible.takeWhile (· ≠ '?')), query, fragment⟩

def parse [Domain.Mapping] (text : String) : Except UrlError Url :=
  match splitScheme (strip text) with
  | none => .error .relativeWithoutBase
  | some ("http", rest) => parseAfterScheme .http rest
  | some ("https", rest) => parseAfterScheme .https rest
  | some (scheme, rest) => .error (refuse scheme rest)

/-! ## Writing -/

def UserInfo.render (info : UserInfo) : String :=
  info.user ++ (match info.password with
    | none => ""
    | some password => ":" ++ password) ++ "@"

def Authority.render (authority : Authority) : String :=
  (match authority.userInfo with
    | none => ""
    | some info => info.render) ++ authority.host.render ++
  (match authority.port with
    | none => ""
    | some port => ":" ++ toString port)

def renderPath (url : Url) : String := "/" ++ "/".intercalate url.path

def render (url : Url) : String :=
  url.scheme.name ++ "://" ++ url.authority.render ++ url.renderPath ++
    (match url.query with
      | none => ""
      | some query => "?" ++ query) ++
    (match url.fragment with
      | none => ""
      | some fragment => "#" ++ fragment)

end Url

end Outpost
