import JustWeather.Cache.HashMd5
import JustWeather.Hashing.Md5

/-! # `body`

The lines of `body` on one block, in the order of the source. A line is a step
of MD5, and the renaming of the words from line to line is its rotation.
-/

namespace JustWeather.Cache

open CLib Hashing

namespace Md5State

def H2 (x y z : UInt32) : UInt32 := x ^^^ (y ^^^ z)

/-- `STEP`: the new value of its first word. -/
def STEP (f : UInt32 → UInt32 → UInt32 → UInt32) (a b c d x t s : UInt32) : UInt32 :=
  let a := a + (f b c d + x + t)
  (a <<< s ||| a >>> (32 - s)) + b

/-- What stands in a line behind the words: which word of the block, the constant and the shift. -/
abbrev Line := Nat × UInt32 × UInt32

/-- Four lines, which assign to `a`, `d`, `c` and `b` in turn. -/
def lines (f g : UInt32 → UInt32 → UInt32 → UInt32) (ptr : Bytes) (first second third fourth : Line)
    (st : Md5State) : Md5State :=
  let a := STEP f st.a st.b st.c st.d (word ptr first.1) first.2.1 first.2.2
  let d := STEP g st.d a st.b st.c (word ptr second.1) second.2.1 second.2.2
  let c := STEP f st.c d a st.b (word ptr third.1) third.2.1 third.2.2
  let b := STEP g st.b c d a (word ptr fourth.1) fourth.2.1 fourth.2.2
  ⟨a, b, c, d⟩

def round1 (ptr : Bytes) (st : Md5State) : Md5State :=
  let st := st.lines F F ptr (0, 0xd76aa478, 7) (1, 0xe8c7b756, 12) (2, 0x242070db, 17) (3, 0xc1bdceee, 22)
  let st := st.lines F F ptr (4, 0xf57c0faf, 7) (5, 0x4787c62a, 12) (6, 0xa8304613, 17) (7, 0xfd469501, 22)
  let st := st.lines F F ptr (8, 0x698098d8, 7) (9, 0x8b44f7af, 12) (10, 0xffff5bb1, 17) (11, 0x895cd7be, 22)
  st.lines F F ptr (12, 0x6b901122, 7) (13, 0xfd987193, 12) (14, 0xa679438e, 17) (15, 0x49b40821, 22)

def round2 (ptr : Bytes) (st : Md5State) : Md5State :=
  let st := st.lines G G ptr (1, 0xf61e2562, 5) (6, 0xc040b340, 9) (11, 0x265e5a51, 14) (0, 0xe9b6c7aa, 20)
  let st := st.lines G G ptr (5, 0xd62f105d, 5) (10, 0x02441453, 9) (15, 0xd8a1e681, 14) (4, 0xe7d3fbc8, 20)
  let st := st.lines G G ptr (9, 0x21e1cde6, 5) (14, 0xc33707d6, 9) (3, 0xf4d50d87, 14) (8, 0x455a14ed, 20)
  st.lines G G ptr (13, 0xa9e3e905, 5) (2, 0xfcefa3f8, 9) (7, 0x676f02d9, 14) (12, 0x8d2a4c8a, 20)

def round3 (ptr : Bytes) (st : Md5State) : Md5State :=
  let st := st.lines H H2 ptr (5, 0xfffa3942, 4) (8, 0x8771f681, 11) (11, 0x6d9d6122, 16) (14, 0xfde5380c, 23)
  let st := st.lines H H2 ptr (1, 0xa4beea44, 4) (4, 0x4bdecfa9, 11) (7, 0xf6bb4b60, 16) (10, 0xbebfbc70, 23)
  let st := st.lines H H2 ptr (13, 0x289b7ec6, 4) (0, 0xeaa127fa, 11) (3, 0xd4ef3085, 16) (6, 0x04881d05, 23)
  st.lines H H2 ptr (9, 0xd9d4d039, 4) (12, 0xe6db99e5, 11) (15, 0x1fa27cf8, 16) (2, 0xc4ac5665, 23)

def round4 (ptr : Bytes) (st : Md5State) : Md5State :=
  let st := st.lines I I ptr (0, 0xf4292244, 6) (7, 0x432aff97, 10) (14, 0xab9423a7, 15) (5, 0xfc93a039, 21)
  let st := st.lines I I ptr (12, 0x655b59c3, 6) (3, 0x8f0ccc92, 10) (10, 0xffeff47d, 15) (1, 0x85845dd1, 21)
  let st := st.lines I I ptr (8, 0x6fa87e4f, 6) (15, 0xfe2ce6e0, 10) (6, 0xa3014314, 15) (13, 0x4e0811a1, 21)
  st.lines I I ptr (4, 0xf7537e82, 6) (11, 0xbd3af235, 10) (2, 0x2ad7d2bb, 15) (9, 0xeb86d391, 21)

/-- A turn of the loop in `body`. -/
def turn (ptr : Bytes) (saved : Md5State) : Md5State :=
  let st := round4 ptr (round3 ptr (round2 ptr (round1 ptr saved)))
  ⟨st.a + saved.a, st.b + saved.b, st.c + saved.c, st.d + saved.d⟩

/-- The lines are steps, which rename the words. -/
theorem lines_eq {f g : UInt32 → UInt32 → UInt32 → UInt32} (same : f = g) (ptr : Bytes)
    (first second third fourth : Line) (st : Md5State) :
    st.lines f g ptr first second third fourth =
      (((st.step f (word ptr first.1) first.2.1 first.2.2).step f (word ptr second.1) second.2.1
        second.2.2).step f (word ptr third.1) third.2.1 third.2.2).step f (word ptr fourth.1) fourth.2.1
          fourth.2.2 := by
  subst same
  rfl

theorem H_eq_H2 : H = H2 := by
  funext x y z
  exact UInt32.xor_assoc x y z

/-- The turn is the one that takes the rounds from lists. -/
theorem turn_eq (ptr : Bytes) (saved : Md5State) : turn ptr saved = saved.block ptr := by
  simp only [turn, round1, round2, round3, round4, lines_eq rfl, lines_eq H_eq_H2]
  rfl

/-! ## The steps of MD5 -/

/-- The state as words of MD5. -/
def words (st : Md5State) : Md5.Words := ⟨st.a, st.b, st.c, st.d⟩

theorem eq_of_bits {u v : UInt32} (same : ∀ i (inside : i < 32), u.toBitVec[i] = v.toBitVec[i]) :
    u = v :=
  UInt32.toBitVec_inj.mp (BitVec.eq_of_getElem_eq same)

theorem F_eq (x y z : UInt32) : F x y z = (x &&& y) ||| (~~~x &&& z) := by
  apply eq_of_bits
  intro i inside
  simp only [F, UInt32.toBitVec_xor, UInt32.toBitVec_and, UInt32.toBitVec_or, UInt32.toBitVec_not,
    BitVec.getElem_xor, BitVec.getElem_and, BitVec.getElem_or, BitVec.getElem_not]
  cases x.toBitVec[i] <;> cases y.toBitVec[i] <;> cases z.toBitVec[i] <;> rfl

theorem G_eq (x y z : UInt32) : G x y z = (x &&& z) ||| (y &&& ~~~z) := by
  apply eq_of_bits
  intro i inside
  simp only [G, UInt32.toBitVec_xor, UInt32.toBitVec_and, UInt32.toBitVec_or, UInt32.toBitVec_not,
    BitVec.getElem_xor, BitVec.getElem_and, BitVec.getElem_or, BitVec.getElem_not]
  cases x.toBitVec[i] <;> cases y.toBitVec[i] <;> cases z.toBitVec[i] <;> rfl

theorem rotate_eq (w s : UInt32) (pos : 0 < s.toNat) (small : s.toNat < 32) :
    w <<< s ||| w >>> (32 - s) = Md5.rotateLeft w s.toNat := by
  apply UInt32.toBitVec_inj.mp
  simp only [Md5.rotateLeft, BitVec.rotateLeft_def, UInt32.toBitVec_or, UInt32.toBitVec_shiftLeft,
    UInt32.toBitVec_shiftRight]
  simp [Nat.mod_eq_of_lt small]
  congr 2
  omega

/-- Four bytes put together by shifts. -/
theorem foldr_shift (bytes : Bytes) (short : bytes.length ≤ 4) :
    (bytes.foldr (fun (byte : UInt8) (w : UInt32) => w <<< 8 ||| byte.toUInt32) 0).toNat =
        Md5.ofBytes bytes ∧
      Md5.ofBytes bytes < 256 ^ bytes.length := by
  induction bytes with
  | nil => exact ⟨rfl, by decide⟩
  | cons c bytes ih =>
      rw [List.length_cons] at short
      obtain ⟨value, bound⟩ := ih (by omega)
      have small := c.toNat_lt
      have room : 256 ^ bytes.length ≤ 256 ^ 3 := Nat.pow_le_pow_right (by decide) (by omega)
      have cons : Md5.ofBytes (c :: bytes) = c.toNat + 256 * Md5.ofBytes bytes := rfl
      rw [List.length_cons, pow_succ, cons]
      refine ⟨?_, by omega⟩
      have fits : Md5.ofBytes bytes <<< 8 < 2 ^ 32 := by
        rw [Nat.shiftLeft_eq]
        omega
      rw [List.foldr_cons, UInt32.toNat_or, UInt32.toNat_shiftLeft, value, UInt8.toNat_toUInt32]
      have eight : UInt32.toNat 8 % 32 = 8 := rfl
      rw [eight, Nat.mod_eq_of_lt fits, ← Nat.shiftLeft_add_eq_or_of_lt small, Nat.shiftLeft_eq]
      omega

theorem word_eq (ptr : Bytes) (n : Nat) : word ptr n = Md5.word ptr n := by
  have short : ((ptr.drop (n * 4)).take 4).length ≤ 4 := List.length_take_le 4 _
  apply UInt32.toNat_inj.mp
  obtain ⟨value, bound⟩ := foldr_shift _ short
  have room : 256 ^ ((ptr.drop (n * 4)).take 4).length ≤ 256 ^ 4 :=
    Nat.pow_le_pow_right (by decide) short
  rw [word, value, Md5.word, Nat.mul_comm 4]
  exact (UInt32.toNat_ofNat_of_lt' (bound.trans_le room)).symm

/-- Step `i`, with this function of the words. -/
def stepOf (f : UInt32 → UInt32 → UInt32 → UInt32) (ptr : Bytes) (st : Md5State) (i : Nat) : Md5State :=
  st.step f (word ptr (Md5.index i)) (Md5.sines.getD i 0) (.ofNat (Md5.shift i))

theorem stepOf_words {f : UInt32 → UInt32 → UInt32 → UInt32} {i : Nat} (small : i < 64)
    (mixes : f = Md5.mix i) (ptr : Bytes) (st : Md5State) :
    (stepOf f ptr st i).words = Md5.step ptr st.words i := by
  have shifts : ∀ i < 64, 0 < (UInt32.ofNat (Md5.shift i)).toNat ∧
      (UInt32.ofNat (Md5.shift i)).toNat < 32 ∧ (UInt32.ofNat (Md5.shift i)).toNat = Md5.shift i := by
    decide
  obtain ⟨pos, below, bits⟩ := shifts i small
  simp only [stepOf, step, words, Md5.step, Md5.Words.mk.injEq, true_and, and_true]
  rw [rotate_eq _ _ pos below, bits, UInt32.add_comm, word_eq, Md5.constant_eq small, mixes,
    ← UInt32.add_assoc, ← UInt32.add_assoc]

theorem foldl_stepOf {f : UInt32 → UInt32 → UInt32 → UInt32} (ptr : Bytes) (is : List Nat)
    (mixes : ∀ i ∈ is, i < 64 ∧ f = Md5.mix i) (st : Md5State) :
    (is.foldl (stepOf f ptr) st).words = is.foldl (Md5.step ptr) st.words := by
  induction is generalizing st with
  | nil => rfl
  | cons i is ih =>
      obtain ⟨small, here⟩ := mixes i List.mem_cons_self
      rw [List.foldl_cons, List.foldl_cons, ih fun j mem => mixes j (List.mem_cons_of_mem i mem),
        stepOf_words small here]

/-- A round is sixteen steps, when its lists say what the steps do. -/
theorem round_words {f : UInt32 → UInt32 → UInt32 → UInt32} {order : List Nat}
    {consts shifts : List UInt32} {is : List Nat}
    (table : order.zip (consts.zip (shifts ++ shifts ++ shifts ++ shifts)) =
      is.map fun i => (Md5.index i, Md5.sines.getD i 0, .ofNat (Md5.shift i)))
    (mixes : ∀ i ∈ is, i < 64 ∧ f = Md5.mix i) (ptr : Bytes) (st : Md5State) :
    (st.round f ptr order consts shifts).words = is.foldl (Md5.step ptr) st.words := by
  rw [round, table, List.foldl_map]
  exact foldl_stepOf ptr is mixes st

theorem F_mix {i : Nat} (first : i / 16 = 0) : F = Md5.mix i := by
  funext x y z
  simp only [F_eq, Md5.mix, first]

theorem G_mix {i : Nat} (second : i / 16 = 1) : G = Md5.mix i := by
  funext x y z
  simp only [G_eq, Md5.mix, second]

theorem H_mix {i : Nat} (third : i / 16 = 2) : H = Md5.mix i := by
  funext x y z
  simp only [H, Md5.mix, third]

theorem I_mix {i : Nat} (fourth : i / 16 = 3) : I = Md5.mix i := by
  funext x y z
  simp only [I, Md5.mix, fourth]

/-- A block is compressed as MD5 says. -/
theorem block_words (ptr : Bytes) (saved : Md5State) :
    (saved.block ptr).words = Md5.compress saved.words ptr := by
  have quarter : ∀ q < 4, ∀ i ∈ List.range' (q * 16) 16, i < 64 ∧ i / 16 = q := by decide
  have first : ∀ i ∈ List.range' 0 16, i < 64 ∧ F = Md5.mix i :=
    fun i mem => (quarter 0 (by decide) i mem).imp_right F_mix
  have second : ∀ i ∈ List.range' 16 16, i < 64 ∧ G = Md5.mix i :=
    fun i mem => (quarter 1 (by decide) i mem).imp_right G_mix
  have third : ∀ i ∈ List.range' 32 16, i < 64 ∧ H = Md5.mix i :=
    fun i mem => (quarter 2 (by decide) i mem).imp_right H_mix
  have fourth : ∀ i ∈ List.range' 48 16, i < 64 ∧ I = Md5.mix i :=
    fun i mem => (quarter 3 (by decide) i mem).imp_right I_mix
  have steps : List.range 64 =
      List.range' 0 16 ++ List.range' 16 16 ++ List.range' 32 16 ++ List.range' 48 16 := by decide
  have sum : ∀ st : Md5State, words ⟨st.a + saved.a, st.b + saved.b, st.c + saved.c, st.d + saved.d⟩ =
      st.words.add saved.words := fun _ => rfl
  rw [block, sum, round_words ?_ fourth, round_words ?_ third, round_words ?_ second,
    round_words ?_ first, Md5.compress, steps, List.foldl_append, List.foldl_append, List.foldl_append]
  all_goals decide

end Md5State

end JustWeather.Cache
