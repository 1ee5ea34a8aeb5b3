import Mathlib.Algebra.Order.Ring.Nat
import Mathlib.Data.List.Sort

-- The MessagePack formats of unsigned integers, strings, bytes, arrays and maps, each
-- in the shortest form.
namespace MessagePack

def bigEndian : Nat → Nat → List UInt8
  | 0,_ => []
  | width+1,n => UInt8.ofNat (n / 256^width) :: bigEndian width n

def uint (n : Nat) : List UInt8 :=
  if n < 2^7 then [UInt8.ofNat n]
  else if n < 2^8 then 0xcc :: bigEndian 1 n
  else if n < 2^16 then 0xcd :: bigEndian 2 n
  else if n < 2^32 then 0xce :: bigEndian 4 n
  else 0xcf :: bigEndian 8 n

def strLen (n : Nat) : List UInt8 :=
  if n < 2^5 then [UInt8.ofNat (0xa0+n)]
  else if n < 2^8 then 0xd9 :: bigEndian 1 n
  else if n < 2^16 then 0xda :: bigEndian 2 n
  else 0xdb :: bigEndian 4 n

def binLen (n : Nat) : List UInt8 :=
  if n < 2^8 then 0xc4 :: bigEndian 1 n
  else if n < 2^16 then 0xc5 :: bigEndian 2 n
  else 0xc6 :: bigEndian 4 n

def arrayLen (n : Nat) : List UInt8 :=
  if n < 2^4 then [UInt8.ofNat (0x90+n)]
  else if n < 2^16 then 0xdc :: bigEndian 2 n
  else 0xdd :: bigEndian 4 n

def mapLen (n : Nat) : List UInt8 :=
  if n < 2^4 then [UInt8.ofNat (0x80+n)]
  else if n < 2^16 then 0xde :: bigEndian 2 n
  else 0xdf :: bigEndian 4 n

def str (text : String) : List UInt8 :=
  let bytes := text.toList.flatMap String.utf8EncodeChar
  strLen bytes.length ++ bytes

def ofBigEndian (bytes : List UInt8) : Nat := bytes.foldl (fun n byte => n*256 + byte.toNat) 0

def sized (width : Nat) (bytes : List UInt8) : Option (List UInt8) :=
  let n := ofBigEndian (bytes.take width)
  let content := (bytes.drop width).take n
  if content.length = n then some content else none

def readStr : List UInt8 → Option (List UInt8)
  | [] => none
  | marker :: bytes =>
    if 0xa0 ≤ marker ∧ marker < 0xc0 then sized 1 ((marker - 0xa0) :: bytes)
    else if marker = 0xd9 then sized 1 bytes
    else if marker = 0xda then sized 2 bytes
    else if marker = 0xdb then sized 4 bytes
    else none

def fixed (width : Nat) (bytes : List UInt8) : Option Nat :=
  if width ≤ bytes.length then some (ofBigEndian (bytes.take width)) else none

def readUint : List UInt8 → Option Nat
  | [] => none
  | marker :: bytes =>
    if marker < 0x80 then some marker.toNat
    else if marker = 0xcc then fixed 1 bytes
    else if marker = 0xcd then fixed 2 bytes
    else if marker = 0xce then fixed 4 bytes
    else if marker = 0xcf then fixed 8 bytes
    else if marker = 0xd0 then (fixed 1 bytes).filter (· < 2^7)
    else if marker = 0xd1 then (fixed 2 bytes).filter (· < 2^15)
    else if marker = 0xd2 then (fixed 4 bytes).filter (· < 2^31)
    else if marker = 0xd3 then (fixed 8 bytes).filter (· < 2^63)
    else none

def array (items : List (List UInt8)) : List UInt8 := arrayLen items.length ++ items.flatten

def map (entries : List (List UInt8 × List UInt8)) : List UInt8 :=
  mapLen entries.length ++ entries.flatMap fun entry => entry.1 ++ entry.2

end MessagePack
