import Outpost.Bytes

/-!
# Checksums

The cyclic redundancy check and the Adler sum that compressed data ends with.
-/

namespace Outpost.Coding

def crcBit (value : UInt32) : UInt32 :=
  if value &&& 1 = 1 then (value >>> 1) ^^^ 0xEDB88320 else value >>> 1

def crcByte (value : UInt32) (byte : UInt8) : UInt32 :=
  let mixed := value ^^^ byte.toUInt32
  crcBit (crcBit (crcBit (crcBit (crcBit (crcBit (crcBit (crcBit mixed)))))))

def crc32 (bytes : Bytes) : UInt32 := (bytes.foldl crcByte 0xFFFFFFFF) ^^^ 0xFFFFFFFF

def adler32 (bytes : Bytes) : UInt32 :=
  let sums := bytes.foldl (fun (sums : UInt32 × UInt32) byte =>
    let low := (sums.1 + byte.toUInt32) % 65521
    (low, (sums.2 + low) % 65521)) (1, 0)
  (sums.2 <<< 16) ||| sums.1

end Outpost.Coding
