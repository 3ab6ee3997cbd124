/-!
# Fingerprints

The fingerprint of a text is the BLAKE2b digest of its bytes, 256 bits long and written in
lowercase hexadecimal digits. Two versions of a source count as equal when their fingerprints are.
-/

namespace Courtesy.Fingerprint

/-- The initial chaining words. -/
def initial : Array UInt64 :=
  #[0x6a09e667f3bcc908, 0xbb67ae8584caa73b, 0x3c6ef372fe94f82b, 0xa54ff53a5f1d36f1,
    0x510e527fade682d1, 0x9b05688c2b3e6c1f, 0x1f83d9abfb41bd6b, 0x5be0cd19137e2179]

/-- The order in which each round takes the words of a block. The rounds after the tenth start over
at the first order. -/
def schedule : List (List Nat) :=
  [[0, 1, 2, 3, 4, 5, 6, 7, 8, 9, 10, 11, 12, 13, 14, 15],
   [14, 10, 4, 8, 9, 15, 13, 6, 1, 12, 0, 2, 11, 7, 5, 3],
   [11, 8, 12, 0, 5, 2, 15, 13, 10, 14, 3, 6, 7, 1, 9, 4],
   [7, 9, 3, 1, 13, 12, 11, 14, 2, 6, 5, 10, 4, 0, 15, 8],
   [9, 0, 5, 7, 2, 4, 10, 15, 14, 1, 11, 12, 6, 8, 3, 13],
   [2, 12, 6, 10, 0, 11, 8, 3, 4, 13, 7, 5, 15, 14, 1, 9],
   [12, 5, 1, 15, 14, 13, 4, 10, 0, 7, 6, 3, 9, 2, 8, 11],
   [13, 11, 7, 14, 12, 1, 3, 9, 5, 0, 15, 4, 8, 6, 2, 10],
   [6, 15, 14, 9, 11, 3, 0, 8, 12, 2, 13, 7, 1, 4, 10, 5],
   [10, 2, 8, 4, 7, 6, 1, 5, 15, 11, 9, 14, 3, 12, 13, 0],
   [0, 1, 2, 3, 4, 5, 6, 7, 8, 9, 10, 11, 12, 13, 14, 15],
   [14, 10, 4, 8, 9, 15, 13, 6, 1, 12, 0, 2, 11, 7, 5, 3]]

/-- The four state words that each of the eight mixing steps of a round works on: the columns, then
the diagonals. -/
def lanes : List (Nat × Nat × Nat × Nat) :=
  [(0, 4, 8, 12), (1, 5, 9, 13), (2, 6, 10, 14), (3, 7, 11, 15),
   (0, 5, 10, 15), (1, 6, 11, 12), (2, 7, 8, 13), (3, 4, 9, 14)]

/-- A word turned right by `n` bits, `n` between 1 and 63. -/
def rotateRight (w : UInt64) (n : UInt64) : UInt64 := (w >>> n) ||| (w <<< (64 - n))

/-- Word `i` of a state or block, zero outside of it. -/
def word (v : Array UInt64) (i : Nat) : UInt64 := v.getD i 0

/-- Mixes two words of the block into four words of the state. -/
def mix (v : Array UInt64) (lane : Nat × Nat × Nat × Nat) (x y : UInt64) : Array UInt64 :=
  let (i, j, k, l) := lane
  let a := word v i + word v j + x
  let d := rotateRight (word v l ^^^ a) 32
  let c := word v k + d
  let b := rotateRight (word v j ^^^ c) 24
  let a := a + b + y
  let d := rotateRight (d ^^^ a) 16
  let c := c + d
  let b := rotateRight (b ^^^ c) 63
  (((v.setIfInBounds i a).setIfInBounds j b).setIfInBounds k c).setIfInBounds l d

/-- The mixing steps of one round: each lane takes the next two words of the order. -/
def roundWith (block : Array UInt64) :
    List (Nat × Nat × Nat × Nat) → List Nat → Array UInt64 → Array UInt64
  | lane :: rest, i :: j :: order, v =>
    roundWith block rest order (mix v lane (word block i) (word block j))
  | _, _, v => v

/-- Chains one block, `total` bytes having been read with it. -/
def compress (h : Array UInt64) (block : Array UInt64) (total : Nat) (final : Bool) :
    Array UInt64 :=
  let counter := initial.modify 4 (· ^^^ total.toUInt64)
  let start := h ++ (if final then counter.modify 6 (~~~ ·) else counter)
  let v := schedule.foldl (fun v order => roundWith block lanes order v) start
  h.mapIdx fun i w => w ^^^ word v i ^^^ word v (i + 8)

/-- Up to eight bytes as a word, the lowest first. -/
def littleEndian (bytes : List UInt8) : UInt64 :=
  bytes.foldr (fun b w => (w <<< 8) ||| b.toUInt64) 0

/-- The sixteen words of a block of bytes, which is filled up with zeros. -/
def blockWords (bytes : List UInt8) : Array UInt64 :=
  ((List.range 16).map fun i => littleEndian ((bytes.drop (8 * i)).take 8)).toArray

/-- Chains all blocks of 128 bytes; the last one is the one that leaves nothing behind it. The first
argument bounds the number of blocks. -/
def chain : Nat → Array UInt64 → Nat → List UInt8 → Array UInt64
  | 0, h, _, _ => h
  | fuel + 1, h, total, bytes =>
    if bytes.length ≤ 128 then compress h (blockWords bytes) (total + bytes.length) true
    else
      chain fuel (compress h (blockWords (bytes.take 128)) (total + 128) false) (total + 128)
        (bytes.drop 128)

/-- The eight bytes of a word, the lowest first. -/
def wordBytes (w : UInt64) : List UInt8 :=
  (List.range 8).map fun i => (w >>> (8 * i).toUInt64).toUInt8

/-- The digest of given bytes, 32 bytes long. -/
def digest (bytes : List UInt8) : List UInt8 :=
  let h := initial.modify 0 (· ^^^ 0x01010020)
  ((chain (bytes.length / 128 + 1) h 0 bytes).toList.take 4).flatMap wordBytes

/-- A byte as two lowercase hexadecimal digits. -/
def hexByte (b : UInt8) : List Char :=
  [Nat.digitChar (b.toNat / 16), Nat.digitChar (b.toNat % 16)]

end Courtesy.Fingerprint

namespace Courtesy

/-- The fingerprint of a text. -/
def fingerprint (text : String) : String :=
  String.ofList ((Fingerprint.digest text.toUTF8.toList).flatMap Fingerprint.hexByte)

end Courtesy
