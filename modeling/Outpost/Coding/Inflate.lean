import Outpost.Bytes

/-!
# Compressed blocks

Reading of the DEFLATE format: blocks of stored bytes, or of literals and matches in Huffman
codes that are fixed or described by the block.  A reader of a part of the data says whether it
has met a fault or only needs more of it.
-/

namespace Outpost.Coding

inductive Halt where
  /-- The data given so far is a beginning of something well formed, as far as can be told. -/
  | starved
  | corrupt
  deriving DecidableEq, Repr

namespace Inflate

/-- Data with the position of the next bit; the low bit of a byte comes first. -/
structure BitReader where
  data : ByteArray
  position : Nat

abbrev Reading := StateT BitReader (Except Halt)

def readBit : Reading Nat := do
  let reader ← get
  let index := reader.position / 8
  if h : index < reader.data.size then
    let byte := reader.data[index]
    set { reader with position := reader.position + 1 }
    return (byte.toNat >>> (reader.position % 8)) % 2
  else throw .starved

def readBits : Nat → Reading Nat
  | 0 => return 0
  | count + 1 => do
      let low ← readBit
      let high ← readBits count
      return low + 2 * high

def alignToByte : Reading Unit :=
  modify fun reader => { reader with position := (reader.position + 7) / 8 * 8 }

/-! ## Huffman codes -/

/-- A canonical code: how many codes there are of each length from one to fifteen, and the
symbols in the order of their codes. -/
structure Huffman where
  counts : Array Nat
  symbols : Array Nat

def maxCodeLength : Nat := 15

/-- The code in which symbol `i` has the `i`-th length; zero means no code.  A code in which some
bit rows mean nothing is taken only if it has at most one symbol. -/
def Huffman.ofLengths? (lengths : List Nat) : Option Huffman :=
  let counts := (List.range (maxCodeLength + 1)).map fun length =>
    if length = 0 then 0 else lengths.count length
  let symbols := (List.range maxCodeLength).flatMap fun shorter =>
    (lengths.zipIdx.filter fun entry => entry.1 == shorter + 1).map (·.2)
  let room := (counts.drop 1).foldl (fun (room : Option Nat) count =>
    room.bind fun left => if 2 * left < count then none else some (2 * left - count)) (some 1)
  if room = none || (room ≠ some 0 && 1 < symbols.length) then none
  else some ⟨counts.toArray, symbols.toArray⟩

/-- Reads bits until they are a code: `first` is the first code of the length, `index` its place
among the symbols. -/
def Huffman.readFrom (code : Huffman) : Nat → Nat → Nat → Nat → Nat → Reading Nat
  | 0, _, _, _, _ => throw .corrupt
  | tries + 1, length, value, first, index => do
      let bit ← readBit
      let value := value + bit
      let count := code.counts.getD length 0
      if value < first + count then
        match code.symbols[index + (value - first)]? with
        | some symbol => return symbol
        | none => throw .corrupt
      else
        code.readFrom tries (length + 1) (2 * value) (2 * (first + count)) (index + count)

def Huffman.read (code : Huffman) : Reading Nat := code.readFrom maxCodeLength 1 0 0 0

/-! ## Blocks -/

def lengthBases : List (Nat × Nat) :=
  [(3, 0), (4, 0), (5, 0), (6, 0), (7, 0), (8, 0), (9, 0), (10, 0), (11, 1), (13, 1), (15, 1),
    (17, 1), (19, 2), (23, 2), (27, 2), (31, 2), (35, 3), (43, 3), (51, 3), (59, 3), (67, 4),
    (83, 4), (99, 4), (115, 4), (131, 5), (163, 5), (195, 5), (227, 5), (258, 0)]

def distanceBases : List (Nat × Nat) :=
  [(1, 0), (2, 0), (3, 0), (4, 0), (5, 1), (7, 1), (9, 2), (13, 2), (17, 3), (25, 3), (33, 4),
    (49, 4), (65, 5), (97, 5), (129, 6), (193, 6), (257, 7), (385, 7), (513, 8), (769, 8),
    (1025, 9), (1537, 9), (2049, 10), (3073, 10), (4097, 11), (6145, 11), (8193, 12), (12289, 12),
    (16385, 13), (24577, 13)]

def readBased (table : List (Nat × Nat)) (symbol : Nat) : Reading Nat := do
  match table[symbol]? with
  | none => throw .corrupt
  | some (base, extra) => return base + (← readBits extra)

def copyBack (distance : Nat) : Nat → Array UInt8 → Array UInt8
  | 0, output => output
  | length + 1, output =>
      copyBack distance length (output.push (output.getD (output.size - distance) 0))

def readCodes (literals distances : Huffman) : Nat → Array UInt8 → Reading (Array UInt8)
  | 0, _ => throw .corrupt
  | fuel + 1, output => do
      let symbol ← literals.read
      if symbol < 256 then readCodes literals distances fuel (output.push symbol.toUInt8)
      else if symbol = 256 then return output
      else
        let length ← readBased lengthBases (symbol - 257)
        let distance ← readBased distanceBases (← distances.read)
        if output.size < distance then throw .corrupt
        else readCodes literals distances fuel (copyBack distance length output)

def readStoredBytes : Nat → Array UInt8 → Reading (Array UInt8)
  | 0, output => return output
  | count + 1, output => do
      let byte ← readBits 8
      readStoredBytes count (output.push byte.toUInt8)

def readStored (output : Array UInt8) : Reading (Array UInt8) := do
  alignToByte
  let length ← readBits 16
  let complement ← readBits 16
  if length + complement = 65535 then readStoredBytes length output else throw .corrupt

def fixedLiterals : List Nat :=
  List.replicate 144 8 ++ List.replicate 112 9 ++ List.replicate 24 7 ++ List.replicate 8 8

def fixedDistances : List Nat := List.replicate 32 5

def lengthOrder : List Nat := [16, 17, 18, 0, 8, 7, 9, 6, 10, 5, 11, 4, 12, 3, 13, 2, 14, 1, 15]

def readLengths (code : Huffman) (total : Nat) : Nat → List Nat → Reading (List Nat)
  | 0, _ => throw .corrupt
  | fuel + 1, reversed =>
      if total < reversed.length then throw .corrupt
      else if reversed.length = total then return reversed.reverse
      else do
        let symbol ← code.read
        if symbol < 16 then readLengths code total fuel (symbol :: reversed)
        else if symbol = 16 then
          match reversed with
          | [] => throw .corrupt
          | last :: _ => do
              let times := 3 + (← readBits 2)
              readLengths code total fuel (List.replicate times last ++ reversed)
        else do
          let times ← if symbol = 17 then (3 + ·) <$> readBits 3 else (11 + ·) <$> readBits 7
          readLengths code total fuel (List.replicate times 0 ++ reversed)

def orThrow (code : Option Huffman) : Reading Huffman :=
  match code with
  | some code => return code
  | none => throw .corrupt

def readDescribed (fuel : Nat) (output : Array UInt8) : Reading (Array UInt8) := do
  let literalCount := 257 + (← readBits 5)
  let distanceCount := 1 + (← readBits 5)
  let lengthCount := 4 + (← readBits 4)
  let written ← (List.range lengthCount).mapM fun _ => readBits 3
  let lengths := (List.range 19).map fun symbol =>
    written.getD (lengthOrder.idxOf symbol) 0
  let lengthCode ← orThrow (Huffman.ofLengths? lengths)
  let all ← readLengths lengthCode (literalCount + distanceCount) 400 []
  let literals ← orThrow (Huffman.ofLengths? (all.take literalCount))
  let distances ← orThrow (Huffman.ofLengths? (all.drop literalCount))
  if 286 < literalCount || 30 < distanceCount || all.getD 256 0 = 0 then throw .corrupt
  else readCodes literals distances fuel output

def readBlock (fuel : Nat) (output : Array UInt8) : Reading (Bool × Array UInt8) := do
  let isLast := (← readBit) = 1
  let kind ← readBits 2
  match kind with
  | 0 => return (isLast, ← readStored output)
  | 1 => do
      let literals ← orThrow (Huffman.ofLengths? fixedLiterals)
      let distances ← orThrow (Huffman.ofLengths? fixedDistances)
      return (isLast, ← readCodes literals distances fuel output)
  | 2 => return (isLast, ← readDescribed fuel output)
  | _ => throw .corrupt

/-- Blocks up to the last one; every symbol takes a bit, which bounds the work. -/
def readBlocks (bits : Nat) : Nat → Array UInt8 → Reading (Array UInt8)
  | 0, _ => throw .corrupt
  | fuel + 1, output => do
      let (isLast, grown) ← readBlock bits output
      if isLast then return grown else readBlocks bits fuel grown

end Inflate

/-- The contents of the blocks at the beginning of the data, and what follows their last byte. -/
def inflate (data : Bytes) : Except Halt (Bytes × Bytes) := do
  let bits := 8 * data.length + 1
  let (output, reader) ← (Inflate.readBlocks bits bits #[]).run ⟨⟨data.toArray⟩, 0⟩
  return (output.toList, data.drop ((reader.position + 7) / 8))

end Outpost.Coding
