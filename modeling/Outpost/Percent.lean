import Outpost.Bytes

/-!
# Percent coding

A percent sign followed by two hexadecimal digits stands for one byte.  Reading leaves every
other percent sign alone, so it never fails.
-/

namespace Outpost.Percent

open Bytes

def decode : Bytes → Bytes
  | 0x25 :: high :: low :: rest =>
      match hexValue? high, hexValue? low with
      | some first, some second => UInt8.ofNat (16 * first + second) :: decode rest
      | _, _ => 0x25 :: decode (high :: low :: rest)
  | byte :: rest => byte :: decode rest
  | [] => []

def escape (byte : UInt8) : Bytes :=
  [0x25, hexUpper (byte.toNat / 16), hexUpper (byte.toNat % 16)]

end Outpost.Percent
