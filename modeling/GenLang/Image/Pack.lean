/-!
# MessagePack

Values of the MessagePack format and their bytes. Writing takes the shortest form for integers and
lengths and the eight-byte form for floats; reading takes every form, but refuses arrays and maps
nested deeper than `Pack.maxDepth`. A map of one entry, as variants are written, does not count.
-/

namespace GenLang

inductive Pack where
  | nil
  | bool (value : Bool)
  | int (value : Int)
  | float (value : Float)
  | str (value : String)
  | bin (bytes : List UInt8)
  | array (items : List Pack)
  | map (entries : List (Pack × Pack))
  | ext (tag : UInt8) (bytes : List UInt8)
deriving Repr, Inhabited

namespace Pack

/-! ## Writing -/

/-- The `n` lowest bytes of a number, the highest first. -/
def bigEndian : Nat → Nat → List UInt8
  | 0, _ => []
  | n + 1, x => bigEndian n (x / 256) ++ [UInt8.ofNat (x % 256)]

/-- An integer in as few bytes as possible; one that is not negative counts as unsigned. -/
def writeInt (n : Int) : List UInt8 :=
  if 0 ≤ n then
    let m := n.toNat
    if m < 128 then [UInt8.ofNat m]
    else if m < UInt8.size then 0xcc :: bigEndian 1 m
    else if m < UInt16.size then 0xcd :: bigEndian 2 m
    else if m < UInt32.size then 0xce :: bigEndian 4 m
    else 0xcf :: bigEndian 8 m
  else if -32 ≤ n then [UInt8.ofNat (256 + n).toNat]
  else if Int8.minValue.toInt ≤ n then 0xd0 :: bigEndian 1 (UInt8.size + n).toNat
  else if Int16.minValue.toInt ≤ n then 0xd1 :: bigEndian 2 (UInt16.size + n).toNat
  else if Int32.minValue.toInt ≤ n then 0xd2 :: bigEndian 4 (UInt32.size + n).toNat
  else 0xd3 :: bigEndian 8 (UInt64.size + n).toNat

/-- The head of a text of so many bytes. -/
def strHead (n : Nat) : List UInt8 :=
  if n < 32 then [UInt8.ofNat (0xa0 + n)]
  else if n < UInt8.size then 0xd9 :: bigEndian 1 n
  else if n < UInt16.size then 0xda :: bigEndian 2 n
  else 0xdb :: bigEndian 4 n

def binHead (n : Nat) : List UInt8 :=
  if n < UInt8.size then 0xc4 :: bigEndian 1 n
  else if n < UInt16.size then 0xc5 :: bigEndian 2 n
  else 0xc6 :: bigEndian 4 n

def arrayHead (n : Nat) : List UInt8 :=
  if n < 16 then [UInt8.ofNat (0x90 + n)]
  else if n < UInt16.size then 0xdc :: bigEndian 2 n
  else 0xdd :: bigEndian 4 n

def mapHead (n : Nat) : List UInt8 :=
  if n < 16 then [UInt8.ofNat (0x80 + n)]
  else if n < UInt16.size then 0xde :: bigEndian 2 n
  else 0xdf :: bigEndian 4 n

def utf8 (s : String) : List UInt8 :=
  s.toUTF8.data.toList

mutual

/-- The bytes of a value. -/
def write : Pack → List UInt8
  | nil => [0xc0]
  | bool false => [0xc2]
  | bool true => [0xc3]
  | int n => writeInt n
  | float x => 0xcb :: bigEndian 8 x.toBits.toNat
  | str s => strHead (utf8 s).length ++ utf8 s
  | bin b => binHead b.length ++ b
  | array items => arrayHead items.length ++ writeAll items
  | map entries => mapHead entries.length ++ writeEntries entries
  | ext tag b => 0xc9 :: bigEndian 4 b.length ++ tag :: b

def writeAll : List Pack → List UInt8
  | [] => []
  | p :: ps => write p ++ writeAll ps

def writeEntries : List (Pack × Pack) → List UInt8
  | [] => []
  | (k, v) :: rest => write k ++ write v ++ writeEntries rest

end

/-! ## Reading -/

/-- Why bytes are not read as a value. -/
inductive ReadError where
  /-- They end where a value has to begin. -/
  | noMarker
  /-- They end inside a value. -/
  | noData
  /-- A value begins with a byte that has no meaning. -/
  | reserved
  /-- Arrays and maps nest deeper than the reader follows. -/
  | tooDeep
deriving DecidableEq, Repr, Inhabited

def ReadError.message : ReadError → String
  | noMarker => "IO error while reading marker: failed to fill whole buffer"
  | noData => "IO error while reading data: failed to fill whole buffer"
  | reserved => "wrong msgpack marker Reserved"
  | tooDeep => "depth limit exceeded"

/-- Reads from the front of some bytes. -/
abbrev Reader := StateT (List UInt8) (Except ReadError)

/-- The next byte, or what is wrong if there is none. -/
def byte (missing : ReadError) : Reader UInt8
  | [] => .error missing
  | b :: bs => .ok (b, bs)

/-- The next `n` bytes of a value. -/
def bytes (n : Nat) : Reader (List UInt8)
  | bs => if n ≤ bs.length then .ok (bs.take n, bs.drop n) else .error .noData

/-- The number that bytes write, the highest first. -/
def ofBigEndian (bs : List UInt8) : Nat :=
  bs.foldl (fun n b => 256 * n + b.toNat) 0

def natural (n : Nat) : Reader Nat := do
  return ofBigEndian (← bytes n)

/-- A number of `n` bytes in two's complement. -/
def integer (n : Nat) : Reader Int := do
  let x ← natural n
  return if x < Nat.pow 2 (8 * n - 1) then (x : Int) else (x : Int) - Nat.pow 2 (8 * n)

/-- A text; bytes that are not UTF-8 stay bytes. -/
def text (n : Nat) : Reader Pack := do
  let bs ← bytes n
  match String.fromUTF8? ⟨bs.toArray⟩ with
  | some s => return str s
  | none => return bin bs

def binary (n : Nat) : Reader Pack := do
  return bin (← bytes n)

def extension (n : Nat) : Reader Pack := do
  let tag ← byte .noData
  return ext tag (← bytes n)

/-- So many items. -/
def items {α : Type} (item : Reader α) : Nat → Reader (List α)
  | 0 => pure []
  | n + 1 => do
    let a ← item
    return a :: (← items item n)

/-- A value whose first byte is `tag`, given how to read a value in an array or map (`none`: there
may be no more of them) and one in a map of one entry. -/
def readTagged (tag : Nat) (item : Option (Reader Pack)) (payload : Reader Pack) :
    Reader Pack := do
  let entries (value : Reader Pack) (n : Nat) : Reader Pack := do
    return map (← items (do
      let k ← value
      return (k, ← value)) n)
  let array' (n : Nat) : Reader Pack :=
    match item with
    | none => throw .tooDeep
    | some value => do return array (← items value n)
  let map' (n : Nat) : Reader Pack :=
    if n = 1 then entries payload 1
    else
      match item with
      | none => throw .tooDeep
      | some value => entries value n
  if tag < 0x80 then return int tag
  else if tag < 0x90 then map' (tag - 0x80)
  else if tag < 0xa0 then array' (tag - 0x90)
  else if tag < 0xc0 then text (tag - 0xa0)
  else if 0xe0 ≤ tag then return int ((tag : Int) - 256)
  else
    match tag with
    | 0xc0 => return nil
    | 0xc2 => return bool false
    | 0xc3 => return bool true
    | 0xc4 => binary (← natural 1)
    | 0xc5 => binary (← natural 2)
    | 0xc6 => binary (← natural 4)
    | 0xc7 => extension (← natural 1)
    | 0xc8 => extension (← natural 2)
    | 0xc9 => extension (← natural 4)
    | 0xca => return float (Float32.ofBits (UInt32.ofNat (← natural 4))).toFloat
    | 0xcb => return float (Float.ofBits (UInt64.ofNat (← natural 8)))
    | 0xcc => return int (← natural 1)
    | 0xcd => return int (← natural 2)
    | 0xce => return int (← natural 4)
    | 0xcf => return int (← natural 8)
    | 0xd0 => return int (← integer 1)
    | 0xd1 => return int (← integer 2)
    | 0xd2 => return int (← integer 4)
    | 0xd3 => return int (← integer 8)
    | 0xd4 => extension 1
    | 0xd5 => extension 2
    | 0xd6 => extension 4
    | 0xd7 => extension 8
    | 0xd8 => extension 16
    | 0xd9 => text (← natural 1)
    | 0xda => text (← natural 2)
    | 0xdb => text (← natural 4)
    | 0xdc => array' (← natural 2)
    | 0xdd => array' (← natural 4)
    | 0xde => map' (← natural 2)
    | 0xdf => map' (← natural 4)
    -- Only 0xc1 is left, which has no meaning.
    | _ => throw .reserved

/-- A value in which arrays and maps nest at most `depth` deep, maps of one entry not counted, and
all containers at most `size` deep. -/
def read : Nat → Nat → Reader Pack
  | 0, _ => throw .noMarker
  | size + 1, depth => do
    let item :=
      match depth with
      | 0 => none
      | depth + 1 => some (read size depth)
    readTagged (← byte .noMarker).toNat item (read size depth)

/-- How deep arrays and maps may nest. -/
def maxDepth : Nat := 1023

/-- The value at the front of some bytes; what is behind it does not matter. Each container takes a
byte at least, so that there cannot be more inside one another than bytes. -/
def ofBytes (bs : List UInt8) : Except ReadError Pack :=
  ((read bs.length maxDepth).run bs).map (·.1)

end Pack

end GenLang
