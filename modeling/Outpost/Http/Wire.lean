import Outpost.Http.Message
import Outpost.Http.StatusCode
import Outpost.Http.Target

/-!
# Messages on the wire

The head of a message as it is sent over a connection: a first line, a line for each header
field, and an empty line, after which the body begins.
-/

namespace Outpost.Http

def reasonPhrase? (status : StatusCode) : Option String :=
  [((100 : StatusCode), "Continue"), (101, "Switching Protocols"), (102, "Processing"),
    (200, "OK"), (201, "Created"), (202, "Accepted"), (203, "Non Authoritative Information"),
    (204, "No Content"), (205, "Reset Content"), (206, "Partial Content"), (207, "Multi-Status"),
    (208, "Already Reported"), (226, "IM Used"), (300, "Multiple Choices"),
    (301, "Moved Permanently"), (302, "Found"), (303, "See Other"), (304, "Not Modified"),
    (305, "Use Proxy"), (307, "Temporary Redirect"), (308, "Permanent Redirect"),
    (400, "Bad Request"), (401, "Unauthorized"), (402, "Payment Required"), (403, "Forbidden"),
    (404, "Not Found"), (405, "Method Not Allowed"), (406, "Not Acceptable"),
    (407, "Proxy Authentication Required"), (408, "Request Timeout"), (409, "Conflict"),
    (410, "Gone"), (411, "Length Required"), (412, "Precondition Failed"),
    (413, "Payload Too Large"), (414, "URI Too Long"), (415, "Unsupported Media Type"),
    (416, "Range Not Satisfiable"), (417, "Expectation Failed"), (418, "I'm a teapot"),
    (421, "Misdirected Request"), (422, "Unprocessable Entity"), (423, "Locked"),
    (424, "Failed Dependency"), (426, "Upgrade Required"), (428, "Precondition Required"),
    (429, "Too Many Requests"), (431, "Request Header Fields Too Large"),
    (451, "Unavailable For Legal Reasons"), (500, "Internal Server Error"),
    (501, "Not Implemented"), (502, "Bad Gateway"), (503, "Service Unavailable"),
    (504, "Gateway Timeout"), (505, "HTTP Version Not Supported"),
    (506, "Variant Also Negotiates"), (507, "Insufficient Storage"), (508, "Loop Detected"),
    (510, "Not Extended"), (511, "Network Authentication Required")].lookup status

def statusLine (status : StatusCode) : String :=
  "HTTP/1.1 " ++ toString status.toNat ++ " " ++ (reasonPhrase? status).getD "<none>"

structure Head where
  line : String
  headers : Headers
  rest : Bytes
  deriving Inhabited

namespace Head

def nextLine (bytes : Bytes) : Bytes × Bytes :=
  let line := bytes.takeWhile (· ≠ 0x0A)
  (if line.getLast? = some 0x0D then line.dropLast else line,
    (bytes.dropWhile (· ≠ 0x0A)).drop 1)

def isBlank (byte : UInt8) : Bool := byte = 0x20 || byte = 0x09

def trimValue (value : Bytes) : Bytes :=
  ((value.dropWhile isBlank).reverse.dropWhile isBlank).reverse

def field? (line : Bytes) : Option (String × Bytes) := do
  let name ← Bytes.text? (line.takeWhile (· ≠ 0x3A))
  return (Text.asciiLower name, trimValue ((line.dropWhile (· ≠ 0x3A)).drop 1))

def fields? : Nat → Bytes → Option (Headers × Bytes)
  | 0, _ => none
  | fuel + 1, bytes =>
      match nextLine bytes with
      | ([], rest) => some ([], rest)
      | (line, rest) => do
          let field ← field? line
          let (headers, body) ← fields? fuel rest
          return (field :: headers, body)

def parse? (bytes : Bytes) : Option Head := do
  let (line, rest) := nextLine bytes
  let (headers, body) ← fields? (rest.length + 1) rest
  return ⟨← Bytes.text? line, headers, body⟩

inductive Extent where
  | length (count : Nat)
  | chunked
  | rest
  deriving DecidableEq, Repr

/-- What a head declares; the coding in chunks counts more than a length. -/
def extent? (head : Head) : Option Extent :=
  if head.headers.has "transfer-encoding" then some .chunked
  else ((head.headers.firstText? "content-length").bind fun value =>
    Bytes.word64? (Bytes.ofText value)).map .length

end Head

def hexNumber? : Bytes → Option Nat
  | [] => none
  | digits => digits.foldlM (fun value byte => (Bytes.hexValue? byte).map (16 * value + ·)) 0

/-- What the chunks that are there hold, and what follows the last one, which is empty, and the
fields after it; the length of the data bounds how many there are. -/
def unchunk : Nat → Bytes → Bytes × Option Bytes
  | 0, _ => ([], none)
  | fuel + 1, bytes =>
      let (line, rest) := Head.nextLine bytes
      match hexNumber? (line.takeWhile (· ≠ 0x3B)) with
      | none => ([], none)
      | some 0 => ([], (Head.fields? (rest.length + 1) rest).map (·.2))
      | some count =>
          let (body, after) := unchunk fuel ((rest.drop count).drop 2)
          (rest.take count ++ body, after)

def Head.Extent.split (bytes : Bytes) : Head.Extent → Bytes × Option Bytes
  | .length count =>
      (bytes.take count, if count ≤ bytes.length then some (bytes.drop count) else none)
  | .chunked => unchunk (bytes.length + 1) bytes
  | .rest => (bytes, none)

/-- A request as sent over a connection, and what follows it.  It has a body only if it declares
one. -/
def Request.parse? (bytes : Bytes) : Option (Request × Bytes) := do
  let head ← Head.parse? bytes
  match Text.split ' ' head.line with
  | [method, target, _] =>
      let (body, after) := (head.extent?.getD (.length 0)).split head.rest
      return (⟨← Method.parse? method, ← Target.parse? target, head.headers, body⟩, after.getD [])
  | _ => none

def Request.parseAll : Nat → Bytes → List Request
  | 0, _ => []
  | fuel + 1, bytes =>
      match Request.parse? bytes with
      | none => []
      | some (request, rest) => request :: parseAll fuel rest

def hasBody (method : Method) (status : StatusCode) : Bool :=
  method ≠ .head && 200 ≤ status && status ≠ 204 && status ≠ 304

/-- A response to a request of some method as sent over a connection, which then is closed or
stays open, and what follows its head.  Unless the head says how long the body is, the body ends
with the connection. -/
def Reply.parse? (method : Method) (closes : Bool) (bytes : Bytes) : Option (Reply × Bytes) := do
  let head ← Head.parse? bytes
  match Text.split ' ' head.line with
  | _ :: code :: _ =>
      let status := (← Bytes.word64? (Bytes.ofText code)).toUInt16
      let extent := if hasBody method status then head.extent?.getD .rest else .length 0
      let (body, after) := extent.split head.rest
      let ending : List Stream.Item :=
        if after.isSome then []
        else if !closes then [.silence]
        else if extent = .rest then []
        else [.failure "connection closed before message completed"]
      return (⟨status, head.headers, ⟨(Stream.Source.ofBytes body).items ++ ending⟩⟩, head.rest)
  | _ => none

end Outpost.Http
