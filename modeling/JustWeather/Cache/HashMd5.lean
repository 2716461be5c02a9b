import JustWeather.CLib.Numerals

/-! # `hash_md5`

The data is hashed in one `m_d5_update`. A step of a round works on the four
words in turn, which is a rotation of the state.
-/

namespace JustWeather.Cache

open CLib

structure Md5State where
  a : UInt32
  b : UInt32
  c : UInt32
  d : UInt32
  deriving DecidableEq

namespace Md5State

def F (x y z : UInt32) : UInt32 := z ^^^ (x &&& (y ^^^ z))
def G (x y z : UInt32) : UInt32 := y ^^^ (z &&& (x ^^^ y))
/-- Also `H2`, which only associates the other way. -/
def H (x y z : UInt32) : UInt32 := (x ^^^ y) ^^^ z
def I (x y z : UInt32) : UInt32 := y ^^^ (x ||| ~~~z)

/-- `STEP`, with the words renamed for the next one. -/
def step (f : UInt32 → UInt32 → UInt32 → UInt32) (x t s : UInt32) (st : Md5State) : Md5State :=
  let a := st.a + (f st.b st.c st.d + x + t)
  ⟨st.d, (a <<< s ||| a >>> (32 - s)) + st.b, st.b, st.c⟩

/-- The four bytes from `n * 4` on, the lowest first. -/
def word (block : Bytes) (n : Nat) : UInt32 :=
  ((block.drop (n * 4)).take 4).foldr (fun byte w => w <<< 8 ||| byte.toUInt32) 0

/-- A round: the words it reads, the constants it adds and the four shifts it repeats. -/
def round (f : UInt32 → UInt32 → UInt32 → UInt32) (block : Bytes) (order : List Nat)
    (consts shifts : List UInt32) (st : Md5State) : Md5State :=
  (order.zip (consts.zip (shifts ++ shifts ++ shifts ++ shifts))).foldl
    (fun st (n, t, s) => st.step f (word block n) t s) st

/-- `body` on one block of 64 bytes. -/
def block (data : Bytes) (saved : Md5State) : Md5State :=
  let st := saved.round F data [0, 1, 2, 3, 4, 5, 6, 7, 8, 9, 10, 11, 12, 13, 14, 15]
    [0xd76aa478, 0xe8c7b756, 0x242070db, 0xc1bdceee, 0xf57c0faf, 0x4787c62a, 0xa8304613,
      0xfd469501, 0x698098d8, 0x8b44f7af, 0xffff5bb1, 0x895cd7be, 0x6b901122, 0xfd987193,
      0xa679438e, 0x49b40821] [7, 12, 17, 22]
  let st := st.round G data [1, 6, 11, 0, 5, 10, 15, 4, 9, 14, 3, 8, 13, 2, 7, 12]
    [0xf61e2562, 0xc040b340, 0x265e5a51, 0xe9b6c7aa, 0xd62f105d, 0x02441453, 0xd8a1e681,
      0xe7d3fbc8, 0x21e1cde6, 0xc33707d6, 0xf4d50d87, 0x455a14ed, 0xa9e3e905, 0xfcefa3f8,
      0x676f02d9, 0x8d2a4c8a] [5, 9, 14, 20]
  let st := st.round H data [5, 8, 11, 14, 1, 4, 7, 10, 13, 0, 3, 6, 9, 12, 15, 2]
    [0xfffa3942, 0x8771f681, 0x6d9d6122, 0xfde5380c, 0xa4beea44, 0x4bdecfa9, 0xf6bb4b60,
      0xbebfbc70, 0x289b7ec6, 0xeaa127fa, 0xd4ef3085, 0x04881d05, 0xd9d4d039, 0xe6db99e5,
      0x1fa27cf8, 0xc4ac5665] [4, 11, 16, 23]
  let st := st.round I data [0, 7, 14, 5, 12, 3, 10, 1, 8, 15, 6, 13, 4, 11, 2, 9]
    [0xf4292244, 0x432aff97, 0xab9423a7, 0xfc93a039, 0x655b59c3, 0x8f0ccc92, 0xffeff47d,
      0x85845dd1, 0x6fa87e4f, 0xfe2ce6e0, 0xa3014314, 0x4e0811a1, 0xf7537e82, 0xbd3af235,
      0x2ad7d2bb, 0xeb86d391] [6, 10, 15, 21]
  ⟨st.a + saved.a, st.b + saved.b, st.c + saved.c, st.d + saved.d⟩

/-- `body` on `count` blocks. -/
def blocks : Nat → Bytes → Md5State → Md5State
  | 0, _, st => st
  | count + 1, data, st => blocks count (data.drop 64) (st.block (data.take 64))

end Md5State

/-- The four bytes of a word, the lowest first. -/
def littleEndian (w : UInt32) : Bytes :=
  [w.toUInt8, (w >>> 8).toUInt8, (w >>> 16).toUInt8, (w >>> 24).toUInt8]

/-- `m_d5_final`: the rest of the data padded to one block or two. -/
def md5Final (rest : Bytes) (lo hi : UInt32) (st : Md5State) : Bytes :=
  let used := rest ++ [0x80]
  let lengths := littleEndian (lo <<< 3) ++ littleEndian hi
  let padded :=
    if 64 - used.length < 8 then
      used ++ List.replicate (64 - used.length) 0 ++ List.replicate 56 0 ++ lengths
    else used ++ List.replicate (56 - used.length) 0 ++ lengths
  let st := st.blocks (padded.length / 64) padded
  littleEndian st.a ++ littleEndian st.b ++ littleEndian st.c ++ littleEndian st.d

def hashMd5Binary (data : Bytes) : Bytes :=
  let start : Md5State := ⟨0x67452301, 0xefcdab89, 0x98badcfe, 0x10325476⟩
  md5Final (data.drop (data.length / 64 * 64)) (UInt32.ofNat (data.length % 2 ^ 29))
    (UInt32.ofNat (data.length / 2 ^ 29)) (start.blocks (data.length / 64) data)

def hashMd5BinaryToString (binary : Bytes) : Bytes :=
  binary.flatMap fun c => [lowerHexDigit (c.toNat / 16), lowerHexDigit (c.toNat % 16)]

def hashMd5String (data : Bytes) : Bytes := hashMd5BinaryToString (hashMd5Binary data)

/-- The empty text. -/
example : hashMd5String [] = ascii "d41d8cd98f00b204e9800998ecf8427e" := by decide +kernel

def CACHE_DIR : Bytes := ascii "src/client/cache"

/-- The path that `get_cache_filepath` writes. -/
def cachePath (key : Bytes) : Bytes := CACHE_DIR ++ ascii "/" ++ hashMd5String key ++ ascii ".json"

end JustWeather.Cache
