/-!
# A mixing hash over words

The state is one word. Adding a word adds it to the state and multiplies by an odd
constant; the last step rotates, because the high bits of a product are the well
mixed ones. Everything wraps at sixty-four bits.

A run of bytes becomes one word first. Two seeds take up the bytes sixteen at a
time: the halves of a block are combined with a seed and with a constant, and the
128-bit product is folded by exclusive or of its halves. The last sixteen bytes of
a run always take part, overlapping the block before them where the length asks
for it; a run of at most sixteen bytes is covered from both ends.
-/

namespace LiveCollections.Hash

def multiplier : UInt64 := 0xf1357aea2e62a9c5
def firstSeed : UInt64 := 0x243f6a8885a308d3
def secondSeed : UInt64 := 0x13198a2e03707344
def blockMask : UInt64 := 0xa4093822299f31d0

def add (state word : UInt64) : UInt64 := (state + word) * multiplier

def finish (state : UInt64) : UInt64 := (state <<< 26) ||| (state >>> 38)

/-- Both halves of the 128-bit product, folded together. -/
def fold (x y : UInt64) : UInt64 :=
  let product := x.toNat * y.toNat
  UInt64.ofNat product ^^^ UInt64.ofNat (product / UInt64.size)

/-- The bytes as one word, the first byte lowest. -/
def word (bytes : List UInt8) : UInt64 :=
  bytes.foldr (fun byte high => high * 256 + byte.toUInt64) 0

/-- Takes up whole blocks while more than sixteen bytes are left. -/
def blocks (s t : UInt64) (bytes : List UInt8) : UInt64 × UInt64 :=
  if 16 < bytes.length then
    let folded := fold (s ^^^ word (bytes.take 8)) (blockMask ^^^ word ((bytes.drop 8).take 8))
    blocks t folded (bytes.drop 16)
  else (s, t)
termination_by bytes.length
decreasing_by simp only [List.length_drop]; omega

def ofBytes (bytes : List UInt8) : UInt64 :=
  let n := bytes.length
  let (s, t) :=
    if 16 < n then
      let (s, t) := blocks firstSeed secondSeed bytes
      (s ^^^ word ((bytes.drop (n - 16)).take 8), t ^^^ word (bytes.drop (n - 8)))
    else if 8 ≤ n then
      (firstSeed ^^^ word (bytes.take 8), secondSeed ^^^ word (bytes.drop (n - 8)))
    else if 4 ≤ n then
      (firstSeed ^^^ word (bytes.take 4), secondSeed ^^^ word (bytes.drop (n - 4)))
    else if 1 ≤ n then
      (firstSeed ^^^ word (bytes.take 1),
        secondSeed ^^^ (word (bytes.drop (n - 1)) <<< 8 ||| word ((bytes.drop (n / 2)).take 1)))
    else (firstSeed, secondSeed)
  fold s t ^^^ UInt64.ofNat n

end LiveCollections.Hash
