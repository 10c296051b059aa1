/-! Numbers in the headers of binary files. -/
namespace PinnedMap.Picture

abbrev Bytes := List UInt8

def takeBytes (count : Nat) (bytes : Bytes) : Option (Bytes × Bytes) :=
  if count ≤ bytes.length then some (bytes.splitAt count) else none

def skipBytes (count : Nat) (bytes : Bytes) : Option Bytes := (takeBytes count bytes).map (·.2)

def fromBig (bytes : Bytes) : Nat := bytes.foldl (fun n byte => n * 256 + byte.toNat) 0

def big (count : Nat) (bytes : Bytes) : Option (Nat × Bytes) :=
  (takeBytes count bytes).map fun (taken,rest) => (fromBig taken,rest)

def little (count : Nat) (bytes : Bytes) : Option (Nat × Bytes) :=
  (takeBytes count bytes).map fun (taken,rest) => (fromBig taken.reverse,rest)

def expect (opening : Bytes) (bytes : Bytes) : Option Bytes :=
  if opening.isPrefixOf bytes then some (bytes.drop opening.length) else none

def ascii (text : String) : Bytes := text.toUTF8.toList

def signed32 (n : Nat) : Int := if n < 0x80000000 then n else (n : Int) - 0x100000000

def crcStep (crc : UInt32) : UInt32 := if crc &&& 1 = 1 then (crc >>> 1) ^^^ 0xEDB88320 else crc >>> 1

def crcByte (crc : UInt32) (byte : UInt8) : UInt32 := Nat.repeat crcStep 8 (crc ^^^ byte.toUInt32)

def crc32 (bytes : Bytes) : UInt32 := bytes.foldl crcByte 0xFFFFFFFF ^^^ 0xFFFFFFFF

abbrev Dimensions := Nat × Nat

end PinnedMap.Picture
