/-!
# The MD5 digest

A digest of sixteen bytes for a message of any length.  The message is padded to blocks of 64 bytes;
each block is mixed into a state of four 32-bit words in 64 steps, and the digest is the final state
with the low byte of each word first.
-/

namespace SearchTable.Digest

/-! ## Constants -/

/-- The word added in each step: the integer part of 2 ^ 32 · |sin i| for i = 1, …, 64. -/
def stepWords : List UInt32 :=
   [0xd76aa478, 0xe8c7b756, 0x242070db, 0xc1bdceee, 0xf57c0faf, 0x4787c62a,
    0xa8304613, 0xfd469501, 0x698098d8, 0x8b44f7af, 0xffff5bb1, 0x895cd7be,
    0x6b901122, 0xfd987193, 0xa679438e, 0x49b40821, 0xf61e2562, 0xc040b340,
    0x265e5a51, 0xe9b6c7aa, 0xd62f105d, 0x02441453, 0xd8a1e681, 0xe7d3fbc8,
    0x21e1cde6, 0xc33707d6, 0xf4d50d87, 0x455a14ed, 0xa9e3e905, 0xfcefa3f8,
    0x676f02d9, 0x8d2a4c8a, 0xfffa3942, 0x8771f681, 0x6d9d6122, 0xfde5380c,
    0xa4beea44, 0x4bdecfa9, 0xf6bb4b60, 0xbebfbc70, 0x289b7ec6, 0xeaa127fa,
    0xd4ef3085, 0x04881d05, 0xd9d4d039, 0xe6db99e5, 0x1fa27cf8, 0xc4ac5665,
    0xf4292244, 0x432aff97, 0xab9423a7, 0xfc93a039, 0x655b59c3, 0x8f0ccc92,
    0xffeff47d, 0x85845dd1, 0x6fa87e4f, 0xfe2ce6e0, 0xa3014314, 0x4e0811a1,
    0xf7537e82, 0xbd3af235, 0x2ad7d2bb, 0xeb86d391]

/-- The amounts of rotation in the four rounds; each round repeats its four amounts. -/
def roundRotations : List (List UInt32) :=
  [[7, 12, 17, 22], [5, 9, 14, 20], [4, 11, 16, 23], [6, 10, 15, 21]]

/-- The amount of rotation in a step. -/
def stepRotation (i : Nat) : UInt32 :=
  ((roundRotations[i / 16]?).bind fun amounts => amounts[i % 4]?).getD 0

/-! ## Blocks -/

/-- A number as `count` bytes, the low one first. -/
def lowBytes (count n : Nat) : List UInt8 :=
  (List.range count).map fun i => UInt8.ofNat (n / Nat.pow 256 i % 256)

/-- A message with its padding: the byte 0x80, zero bytes up to eight below a multiple of 64, and
the bit length of the message in eight bytes. -/
def pad (message : List UInt8) : List UInt8 :=
  let length := message.length
  message ++ [0x80] ++ List.replicate ((119 - length % 64) % 64) 0 ++ lowBytes 8 (8 * length)

/-- The words of a run of bytes, four bytes to a word, the low byte first. -/
def toWords : List UInt8 → List UInt32
  | a :: b :: c :: d :: rest =>
    (a.toUInt32 ||| (b.toUInt32 <<< 8) ||| (c.toUInt32 <<< 16) ||| (d.toUInt32 <<< 24)) ::
      toWords rest
  | _ => []

/-! ## Mixing -/

/-- The four words that are carried from block to block. -/
structure State where
  a : UInt32
  b : UInt32
  c : UInt32
  d : UInt32

/-- The state before the first block. -/
def State.start : State := ⟨0x67452301, 0xefcdab89, 0x98badcfe, 0x10325476⟩

/-- Rotates the bits of a word to the left. -/
def rotateLeft (x amount : UInt32) : UInt32 := (x <<< amount) ||| (x >>> (32 - amount))

/-- The mixing function of a step and the index of the message word it takes. -/
def stepInput (s : State) (i : Nat) : UInt32 × Nat :=
  if i < 16 then ((s.b &&& s.c) ||| (~~~s.b &&& s.d), i)
  else if i < 32 then ((s.d &&& s.b) ||| (~~~s.d &&& s.c), (5 * i + 1) % 16)
  else if i < 48 then (s.b ^^^ s.c ^^^ s.d, (3 * i + 5) % 16)
  else (s.c ^^^ (s.b ||| ~~~s.d), 7 * i % 16)

/-- One step: the words move on by one place, and the second one takes in a message word. -/
def step (words : List UInt32) (s : State) (i : Nat) (constant : UInt32) : State :=
  let (mixed, index) := stepInput s i
  let sum := s.a + mixed + constant + (words[index]?).getD 0
  ⟨s.d, s.b + rotateLeft sum (stepRotation i), s.b, s.c⟩

/-- The steps from the one numbered `i` on. -/
def steps (words : List UInt32) : State → Nat → List UInt32 → State
  | s, _, [] => s
  | s, i, constant :: rest => steps words (step words s i constant) (i + 1) rest

/-- Mixes one block of sixteen words into the state. -/
def mixBlock (s : State) (words : List UInt32) : State :=
  let t := steps words s 0 stepWords
  ⟨s.a + t.a, s.b + t.b, s.c + t.c, s.d + t.d⟩

/-- Mixes `count` blocks of sixteen words each. -/
def mixBlocks : Nat → State → List UInt32 → State
  | 0, s, _ => s
  | count + 1, s, words => mixBlocks count (mixBlock s (words.take 16)) (words.drop 16)

/-- The digest of a message. -/
def md5 (message : List UInt8) : List UInt8 :=
  let words := toWords (pad message)
  let s := mixBlocks (words.length / 16) State.start words
  [s.a, s.b, s.c, s.d].flatMap fun word => lowBytes 4 word.toNat

end SearchTable.Digest
