import Outpost.Coding.Checksum
import Outpost.Coding.Inflate

/-!
# Compressed members

One gzip member or one zlib stream at the beginning of the data: a header, the compressed blocks,
and the checksums that the contents have to agree with.
-/

namespace Outpost.Coding

inductive Format where
  | gzip
  | zlib
  deriving DecidableEq, Repr, Inhabited

def takeBytes (count : Nat) (data : Bytes) : Except Halt (Bytes × Bytes) :=
  if data.length < count then .error .starved else .ok (data.take count, data.drop count)

def require (condition : Bool) : Except Halt Unit :=
  if condition then .ok () else .error .corrupt

def littleEndian (bytes : Bytes) : Nat :=
  bytes.foldr (fun byte value => byte.toNat + 256 * value) 0

def bigEndian (bytes : Bytes) : Nat :=
  bytes.foldl (fun value byte => 256 * value + byte.toNat) 0

def skipZeroTerminated (data : Bytes) : Except Halt Bytes :=
  match data.dropWhile (· ≠ 0) with
  | [] => .error .starved
  | _ :: rest => .ok rest

def skipExtra (data : Bytes) : Except Halt Bytes := do
  let (length, rest) ← takeBytes 2 data
  return (← takeBytes (littleEndian length) rest).2

def hasFlag (flags : UInt8) (bit : Nat) : Bool := flags.toNat >>> bit % 2 = 1

/-- What follows a gzip header.  Its own check, if there is one, covers all bytes before it. -/
def skipGzipHeader (data : Bytes) : Except Halt Bytes := do
  let (fixed, rest) ← takeBytes 10 data
  require (fixed.take 3 = [0x1F, 0x8B, 0x08])
  let flags := fixed.getD 3 0
  let afterExtra ← if hasFlag flags 2 then skipExtra rest else pure rest
  let afterName ← if hasFlag flags 3 then skipZeroTerminated afterExtra else pure afterExtra
  let afterComment ← if hasFlag flags 4 then skipZeroTerminated afterName else pure afterName
  if hasFlag flags 1 then do
    let (check, rest) ← takeBytes 2 afterComment
    let covered := data.take (data.length - afterComment.length)
    require (littleEndian check = (crc32 covered).toNat % 65536)
    return rest
  else return afterComment

def decodeGzip (data : Bytes) : Except Halt Bytes := do
  let blocks ← skipGzipHeader data
  let (contents, rest) ← inflate blocks
  let (trailer, _) ← takeBytes 8 rest
  require (littleEndian (trailer.take 4) = (crc32 contents).toNat)
  require (littleEndian (trailer.drop 4) = contents.length % Nat.pow 2 32)
  return contents

def decodeZlib (data : Bytes) : Except Halt Bytes := do
  let (header, blocks) ← takeBytes 2 data
  let method := header.getD 0 0
  let flags := header.getD 1 0
  require (method.toNat % 16 = 8 && method.toNat / 16 ≤ 7)
  require ((256 * method.toNat + flags.toNat) % 31 = 0 && !hasFlag flags 5)
  let (contents, rest) ← inflate blocks
  let (trailer, _) ← takeBytes 4 rest
  require (bigEndian trailer = (adler32 contents).toNat)
  return contents

def decode : Format → Bytes → Except Halt Bytes
  | .gzip => decodeGzip
  | .zlib => decodeZlib

end Outpost.Coding
