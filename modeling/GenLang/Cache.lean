import GenLang.Digest.Sha256
import GenLang.Token.Key

/-!
# A cache of sources

A cache of bounded size, under digests of canonical keys: sources that differ only in their layout
and comments share an entry. Looking up and inserting both count as use, and what has not been used
for longest is dropped first.
-/

namespace GenLang

/-- The digest of a canonical key. -/
structure CacheKey where
  digest : List UInt8
deriving DecidableEq, Repr, Inhabited

namespace CacheKey

def ofSource (source : String) : CacheKey :=
  ⟨Sha256.digest (canonicalKey source).toUTF8.data.toList⟩

/-- Two digits for each byte. -/
def hex (bytes : List UInt8) : String :=
  String.ofList (bytes.flatMap fun b =>
    [Nat.digitChar (b.toNat / 16), Nat.digitChar (b.toNat % 16)])

/-- The beginning of the digest, as it is shown. -/
def render (k : CacheKey) : String :=
  hex (k.digest.take 6)

end CacheKey

/-- Values under their keys, and the keys in the order of their use. The two lists are kept in step
by the operations; nothing else ties them together. -/
structure Cache (α : Type) where
  capacity : Nat
  /-- One entry for a key; their order means nothing. -/
  entries : List (CacheKey × α) := []
  /-- A queue, the key not used for longest first. -/
  order : List CacheKey := []
deriving Repr, Inhabited

namespace Cache

variable {α : Type}

/-- Used when nothing else is asked for. -/
def defaultCapacity : Nat := 10

/-- Keys, the one not used for longest first. -/
def keys (c : Cache α) : List CacheKey :=
  c.order

def size (c : Cache α) : Nat :=
  c.entries.length

def contains (c : Cache α) (key : CacheKey) : Bool :=
  (c.entries.lookup key).isSome

/-- The entries without that of a key. -/
def without (entries : List (CacheKey × α)) (key : CacheKey) : List (CacheKey × α) :=
  entries.filter fun e => e.1 != key

/-- The queue with a key at its end, taken from the place it had. -/
def requeue (order : List CacheKey) (key : CacheKey) : List CacheKey :=
  order.erase key ++ [key]

/-- The value of a key, which counts as used when it is there. -/
def get (c : Cache α) (key : CacheKey) : Option α × Cache α :=
  match c.entries.lookup key with
  | some v => (some v, { c with order := requeue c.order key })
  | none => (none, c)

/-- Takes keys from the front of the queue, and drops their entries, while the queue is longer than
the capacity. -/
def evict (capacity : Nat) (entries : List (CacheKey × α)) :
    List CacheKey → List CacheKey × Cache α
  | [] => ([], { capacity, entries, order := [] })
  | oldest :: order =>
    if capacity < (oldest :: order).length then
      let (dropped, c) := evict capacity (without entries oldest) order
      (oldest :: dropped, c)
    else ([], { capacity, entries, order := oldest :: order })

/-- Enters a value; what is dropped for it comes with the new cache. -/
def insert (c : Cache α) (key : CacheKey) (v : α) : List CacheKey × Cache α :=
  if c.capacity = 0 then ([], c)
  else evict c.capacity ((key, v) :: without c.entries key) (requeue c.order key)

def clear (c : Cache α) : Cache α :=
  { c with entries := [], order := [] }

end Cache

end GenLang
