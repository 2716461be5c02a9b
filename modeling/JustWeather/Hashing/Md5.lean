import JustWeather.Hashing.Blocks
import JustWeather.Hashing.Sines

/-! # MD5

The hash as it is defined: 64 steps of one form on each block, with constants
from the sines of whole numbers, behind a padding that ends in the length.
-/

namespace JustWeather.Hashing.Md5

/-- A number in so many bytes, the lowest first. -/
def toBytes (count n : Nat) : List UInt8 := (List.range count).map fun i => .ofNat (n / 256 ^ i)

/-- The number in these bytes, the lowest first. -/
def ofBytes (bytes : List UInt8) : Nat := bytes.foldr (fun byte n => byte.toNat + 256 * n) 0

/-- The four words of the state. -/
structure Words where
  a : UInt32
  b : UInt32
  c : UInt32
  d : UInt32
  deriving DecidableEq

namespace Words

def start : Words := ⟨0x67452301, 0xefcdab89, 0x98badcfe, 0x10325476⟩

def add (s t : Words) : Words := ⟨s.a + t.a, s.b + t.b, s.c + t.c, s.d + t.d⟩

def bytes (s : Words) : List UInt8 := [s.a, s.b, s.c, s.d].flatMap fun w => toBytes 4 w.toNat

end Words

/-! ## Steps -/

/-- What step `i` makes of three of the words. -/
def mix (i : Nat) (x y z : UInt32) : UInt32 :=
  match i / 16 with
  | 0 => (x &&& y) ||| (~~~x &&& z)
  | 1 => (x &&& z) ||| (y &&& ~~~z)
  | 2 => x ^^^ y ^^^ z
  | _ => y ^^^ (x ||| ~~~z)

/-- Which of the sixteen words of the block it reads. -/
def index (i : Nat) : Nat :=
  match i / 16 with
  | 0 => i % 16
  | 1 => (5 * i + 1) % 16
  | 2 => (3 * i + 5) % 16
  | _ => 7 * i % 16

/-- By how many bits it rotates. -/
def shift (i : Nat) : Nat :=
  match i / 16, i % 4 with
  | 0, 0 => 7 | 0, 1 => 12 | 0, 2 => 17 | 0, _ => 22
  | 1, 0 => 5 | 1, 1 => 9 | 1, 2 => 14 | 1, _ => 20
  | 2, 0 => 4 | 2, 1 => 11 | 2, 2 => 16 | 2, _ => 23
  | _, 0 => 6 | _, 1 => 10 | _, 2 => 15 | _, _ => 21

/-- What it adds. -/
noncomputable def constant (i : Nat) : UInt32 := .ofNat ⌊2 ^ 32 * |Real.sin (i + 1 : Nat)|⌋₊

def rotateLeft (w : UInt32) (bits : Nat) : UInt32 := ⟨w.toBitVec.rotateLeft bits⟩

/-- A word of the block. -/
def word (block : List UInt8) (i : Nat) : UInt32 := .ofNat (ofBytes ((block.drop (4 * i)).take 4))

noncomputable def step (block : List UInt8) (s : Words) (i : Nat) : Words :=
  ⟨s.d, s.b + rotateLeft (s.a + mix i s.b s.c s.d + word block (index i) + constant i) (shift i),
    s.b, s.c⟩

/-- The state after a block. -/
noncomputable def compress (s : Words) (block : List UInt8) : Words :=
  ((List.range 64).foldl (step block) s).add s

/-! ## Messages -/

/-- A one bit, zeros up to 8 bytes before the end of a block, and the length in bits. -/
def padding (length : Nat) : List UInt8 :=
  0x80 :: (List.replicate ((119 - length % 64) % 64) 0 ++ toBytes 8 (8 * length))

def padded (data : List UInt8) : List (List UInt8) := wholeBlocks 64 (data ++ padding data.length)

noncomputable def hash (data : List UInt8) : List UInt8 := ((padded data).foldl compress .start).bytes

/-! ## The constants -/

/-- The whole parts of 2^32 times the sines of 1 to 64, without their signs. -/
def sines : List UInt32 :=
  [0xd76aa478, 0xe8c7b756, 0x242070db, 0xc1bdceee, 0xf57c0faf, 0x4787c62a, 0xa8304613, 0xfd469501,
    0x698098d8, 0x8b44f7af, 0xffff5bb1, 0x895cd7be, 0x6b901122, 0xfd987193, 0xa679438e, 0x49b40821,
    0xf61e2562, 0xc040b340, 0x265e5a51, 0xe9b6c7aa, 0xd62f105d, 0x02441453, 0xd8a1e681, 0xe7d3fbc8,
    0x21e1cde6, 0xc33707d6, 0xf4d50d87, 0x455a14ed, 0xa9e3e905, 0xfcefa3f8, 0x676f02d9, 0x8d2a4c8a,
    0xfffa3942, 0x8771f681, 0x6d9d6122, 0xfde5380c, 0xa4beea44, 0x4bdecfa9, 0xf6bb4b60, 0xbebfbc70,
    0x289b7ec6, 0xeaa127fa, 0xd4ef3085, 0x04881d05, 0xd9d4d039, 0xe6db99e5, 0x1fa27cf8, 0xc4ac5665,
    0xf4292244, 0x432aff97, 0xab9423a7, 0xfc93a039, 0x655b59c3, 0x8f0ccc92, 0xffeff47d, 0x85845dd1,
    0x6fa87e4f, 0xfe2ce6e0, 0xa3014314, 0x4e0811a1, 0xf7537e82, 0xbd3af235, 0x2ad7d2bb, 0xeb86d391]

theorem constant_eq {i : Nat} (small : i < 64) : constant i = sines.getD i 0 := by
  have tells : ∀ i < 64, TellsSine (i + 1) (sines.getD i 0).toNat := by decide +kernel
  rw [constant, (tells i small).floor_eq (by omega), UInt32.ofNat_toNat]

/-! ## Bytes -/

theorem toBytes_length (count n : Nat) : (toBytes count n).length = count := by simp [toBytes]

theorem toBytes_succ (count n : Nat) :
    toBytes (count + 1) n = .ofNat n :: toBytes count (n / 256) := by
  simp only [toBytes, List.range_succ_eq_map, List.map_cons, List.map_map, pow_zero, Nat.div_one]
  congr 1
  apply List.map_congr_left
  intro i _
  rw [Function.comp_apply, pow_succ', Nat.div_div_eq_div_mul]

/-- Only the low bytes count. -/
theorem toBytes_mod (count n : Nat) : toBytes count (n % 256 ^ count) = toBytes count n := by
  induction count generalizing n with
  | zero => rfl
  | succ count ih =>
      have low : UInt8.ofNat (n % 256 ^ (count + 1)) = UInt8.ofNat n := by
        apply UInt8.toNat_inj.mp
        rw [UInt8.toNat_ofNat', UInt8.toNat_ofNat', pow_succ', Nat.mod_mul_right_mod]
      rw [toBytes_succ, toBytes_succ, low, ← ih (n / 256), pow_succ', Nat.mod_mul_right_div_self]

theorem toBytes_add (m n k : Nat) : toBytes (m + n) k = toBytes m k ++ toBytes n (k / 256 ^ m) := by
  induction m generalizing k with
  | zero => simp [toBytes]
  | succ m ih =>
      have shift : m + 1 + n = m + n + 1 := by omega
      rw [shift, toBytes_succ, toBytes_succ, ih, Nat.div_div_eq_div_mul, ← pow_succ']
      rfl

/-- The bytes of a number tell it, as far as there are enough of them. -/
theorem ofBytes_toBytes (count n : Nat) : ofBytes (toBytes count n) = n % 256 ^ count := by
  induction count generalizing n with
  | zero => simp [toBytes, ofBytes, Nat.mod_one]
  | succ count ih =>
      have rest : ofBytes (toBytes count (n / 256)) = n / 256 % 256 ^ count := ih _
      rw [toBytes_succ, pow_succ', Nat.mod_mul]
      simp only [ofBytes, List.foldr_cons, UInt8.toNat_ofNat'] at rest ⊢
      rw [rest]

theorem toBytes_inj {count m n : Nat} (small : m < 256 ^ count) (small' : n < 256 ^ count)
    (same : toBytes count m = toBytes count n) : m = n := by
  have values := congrArg ofBytes same
  rwa [ofBytes_toBytes, ofBytes_toBytes, Nat.mod_eq_of_lt small, Nat.mod_eq_of_lt small'] at values

theorem Words.bytes_inj {s t : Words} (same : s.bytes = t.bytes) : s = t := by
  obtain ⟨a, b, c, d⟩ := s
  obtain ⟨a', b', c', d'⟩ := t
  have word : ∀ {x y : UInt32}, toBytes 4 x.toNat = toBytes 4 y.toNat → x = y := fun {x y} same =>
    UInt32.toNat_inj.mp (toBytes_inj x.toNat_lt y.toNat_lt same)
  have cut : ∀ {x y : UInt32} {xs ys : List UInt8},
      toBytes 4 x.toNat ++ xs = toBytes 4 y.toNat ++ ys → x = y ∧ xs = ys := fun same =>
    have parts := List.append_inj same (by rw [toBytes_length, toBytes_length])
    ⟨word parts.1, parts.2⟩
  simp only [bytes, List.flatMap_cons, List.flatMap_nil] at same
  obtain ⟨a, behindA⟩ := cut same
  obtain ⟨b, behindB⟩ := cut behindA
  obtain ⟨c, behindC⟩ := cut behindB
  rw [a, b, c, (cut behindC).1]

/-! ## Collisions -/

theorem padding_whole (data : List UInt8) : (data ++ padding data.length).length =
    (data ++ padding data.length).length / 64 * 64 := by
  simp only [padding, List.length_append, List.length_cons, List.length_replicate, toBytes_length]
  omega

theorem flatten_padded (data : List UInt8) : (padded data).flatten = data ++ padding data.length :=
  flatten_blocks (padding_whole data)

theorem padded_ne_nil (data : List UInt8) : padded data ≠ [] := by
  intro none
  have flat := flatten_padded data
  rw [none] at flat
  simp [padding] at flat

/-- The last block ends in the length. -/
theorem suffix_last {data last : List UInt8} (at_ : (padded data).getLast? = some last) :
    toBytes 8 (8 * data.length) <:+ last := by
  obtain ⟨before, split⟩ := List.getLast?_eq_some_iff.mp at_
  have flat := flatten_padded data
  have mem : last ∈ padded data := by
    rw [split]
    exact List.mem_append_right _ List.mem_cons_self
  have size : last.length = 64 := length_of_mem_blocks (padding_whole data).ge mem
  rw [split, List.flatten_append, List.flatten_singleton] at flat
  have ends : toBytes 8 (8 * data.length) <:+ data ++ padding data.length :=
    ⟨data ++ 0x80 :: List.replicate ((119 - data.length % 64) % 64) 0, by simp [padding]⟩
  have whole : last <:+ data ++ padding data.length := ⟨before.flatten, flat⟩
  exact List.suffix_of_suffix_length_le ends whole (by rw [toBytes_length, size]; decide)

/-- Messages whose length in bits fits 64 bits, and which have the same padded end, are of the same
length. -/
theorem length_eq_of_last {data data' : List UInt8} (short : data.length < 2 ^ 61)
    (short' : data'.length < 2 ^ 61) (same : (padded data).getLast? = (padded data').getLast?) :
    data.length = data'.length := by
  obtain ⟨last, at_⟩ := Option.isSome_iff_exists.mp (List.getLast?_isSome.mpr (padded_ne_nil data))
  have ends := suffix_last at_
  have ends' := suffix_last (same.symm.trans at_)
  have bytes : toBytes 8 (8 * data.length) = toBytes 8 (8 * data'.length) :=
    (List.suffix_of_suffix_length_le ends ends' (by rw [toBytes_length, toBytes_length])).eq_of_length
      (by rw [toBytes_length, toBytes_length])
  have := toBytes_inj (by omega) (by omega) bytes
  omega

theorem padded_inj {data data' : List UInt8} (length : data.length = data'.length)
    (same : padded data = padded data') : data = data' := by
  have flat := congrArg List.flatten same
  rw [flatten_padded, flatten_padded] at flat
  exact (List.append_inj flat length).1

/-- Two messages with one hash make two steps of the compression collide, on the way from the start
to that hash. -/
theorem hash_collides {data data' : List UInt8} (short : data.length < 2 ^ 61)
    (short' : data'.length < 2 ^ 61) (differ : data ≠ data') (same : hash data = hash data') :
    Collide compress .start (padded data) .start (padded data') := by
  apply collide_of_ne (padded_ne_nil data) (padded_ne_nil data')
  · intro last
    have length := length_eq_of_last short short' last
    simp only [padded, wholeBlocks, blocks_length, List.length_append, length]
  · intro blocks
    have length := length_eq_of_last short short' (congrArg _ blocks)
    exact differ (padded_inj length blocks)
  · exact Words.bytes_inj same

end JustWeather.Hashing.Md5
