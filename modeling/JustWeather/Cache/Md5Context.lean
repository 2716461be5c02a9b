import JustWeather.Cache.FileNames
import JustWeather.Cache.Md5Blocks

/-! # `MD5Ctx`

Data comes in by calls of `m_d5_update`. What does not fill a block waits in the
buffer, and two counters tell how much has come.
-/

namespace JustWeather.Cache

open CLib Hashing

structure MD5Ctx where
  lo : UInt32
  hi : UInt32
  state : Md5State
  buffer : Buffer 64

/-- `memcpy(&buffer[i], data, n)`, which reads `n` bytes of the data. -/
def memcpy (buffer : Buffer 64) (i : Nat) (data : Bytes) (n : UInt64) : Exec (Buffer 64) :=
  if data.length < n.toNat then .undefined else buffer.storeAll i (data.take n.toNat)

/-- `memset(&buffer[i], 0, n)`. -/
def memset (buffer : Buffer 64) (i : Nat) (n : UInt64) : Exec (Buffer 64) :=
  buffer.storeAll i (List.replicate n.toNat 0)

/-- The loop of `body`. A turn reads a block of what is left of the data, so it has fewer turns than
the data has bytes. -/
def bodyLoop : Nat → Bytes → UInt64 → Md5State → Exec (Md5State × Bytes)
  | 0, _, _, _ => .undefined
  | turns + 1, ptr, size, st =>
      if ptr.length < 64 then .undefined
      else if size - 64 = 0 then .returns (Md5State.turn (ptr.take 64) st, ptr.drop 64)
      else bodyLoop turns (ptr.drop 64) (size - 64) (Md5State.turn (ptr.take 64) st)

/-- `body`: the state, and the data behind what was read. -/
def body (data : Bytes) (size : UInt64) (st : Md5State) : Exec (Md5State × Bytes) :=
  bodyLoop data.length data size st

def mD5Init (buffer : Buffer 64) : MD5Ctx :=
  ⟨0, 0, ⟨0x67452301, 0xefcdab89, 0x98badcfe, 0x10325476⟩, buffer⟩

/-- The counters with `size` more bytes. -/
def MD5Ctx.count (ctx : MD5Ctx) (size : UInt64) : MD5Ctx :=
  let lo := ((ctx.lo.toUInt64 + size) &&& 0x1fffffff).toUInt32
  let hi := if lo < ctx.lo then ctx.hi + 1 else ctx.hi
  { ctx with lo := lo, hi := hi + (size >>> 29).toUInt32 }

/-- `m_d5_update` behind the buffer it had to fill. -/
def updateBlocks (ctx : MD5Ctx) (data : Bytes) (size : UInt64) : Exec MD5Ctx :=
  if 64 ≤ size then do
    let (state, data) ← body data (size &&& ~~~0x3f) ctx.state
    let buffer ← memcpy ctx.buffer 0 data (size &&& 0x3f)
    pure { ctx with state := state, buffer := buffer }
  else do
    let buffer ← memcpy ctx.buffer 0 data size
    pure { ctx with buffer := buffer }

def mD5Update (ctx : MD5Ctx) (data : Bytes) (size : UInt64) : Exec MD5Ctx :=
  let used := (ctx.lo &&& 0x3f).toUInt64
  let ctx := ctx.count size
  if used = 0 then updateBlocks ctx data size
  else
    let available := 64 - used
    if size < available then do
      let buffer ← memcpy ctx.buffer used.toNat data size
      pure { ctx with buffer := buffer }
    else do
      let buffer ← memcpy ctx.buffer used.toNat data available
      let (state, _) ← body buffer.toList 64 ctx.state
      updateBlocks { ctx with state := state, buffer := buffer } (data.drop available.toNat)
        (size - available)

/-- `m_d5_final` from the zeros before the length on. -/
def finalBlock (ctx : MD5Ctx) (buffer : Buffer 64) (state : Md5State) (used available : UInt64) :
    Exec Bytes := do
  let buffer ← memset buffer used.toNat (available - 8)
  let buffer ← buffer.storeAll 56 (littleEndian (ctx.lo <<< 3))
  let buffer ← buffer.storeAll 60 (littleEndian ctx.hi)
  let (state, _) ← body buffer.toList 64 state
  pure (littleEndian state.a ++ littleEndian state.b ++ littleEndian state.c ++ littleEndian state.d)

/-- `m_d5_final`: the sixteen bytes of the result. -/
def mD5Final (ctx : MD5Ctx) : Exec Bytes := do
  let used := (ctx.lo &&& 0x3f).toUInt64
  let buffer ← ctx.buffer.store used.toNat 0x80
  let used := used + 1
  let available := 64 - used
  if available < 8 then do
    let buffer ← memset buffer used.toNat available
    let (state, _) ← body buffer.toList 64 ctx.state
    finalBlock ctx buffer state 0 64
  else finalBlock ctx buffer ctx.state used available

/-- `hash_md5_binary`, with a context that starts out with any buffer. -/
def hashMd5BinaryCtx (buffer : Buffer 64) (data : Bytes) : Exec Bytes := do
  let ctx ← mD5Update (mD5Init buffer) data (UInt64.ofNat data.length)
  mD5Final ctx

/-- `m_d5_update` for one piece after another. -/
def mD5Updates : MD5Ctx → List Bytes → Exec MD5Ctx
  | ctx, [] => pure ctx
  | ctx, piece :: pieces => do
      let ctx ← mD5Update ctx piece (UInt64.ofNat piece.length)
      mD5Updates ctx pieces

/-! ## Blocks -/

-- what a turn computes plays no part below
attribute [local irreducible] Md5State.block Md5State.turn

namespace Md5State

def start : Md5State := ⟨0x67452301, 0xefcdab89, 0x98badcfe, 0x10325476⟩

/-- The state behind one more block. -/
def absorb (st : Md5State) (b : Bytes) : Md5State := st.block b

/-- The state behind all the whole blocks of the data. -/
def after (data : Bytes) : Md5State := (wholeBlocks 64 data).foldl absorb start

theorem blocks_succ (count : Nat) (data : Bytes) (st : Md5State) :
    st.blocks (count + 1) data = (st.absorb (data.take 64)).blocks count (data.drop 64) := by
  delta blocks
  rfl

theorem blocks_eq (count : Nat) (data : Bytes) (st : Md5State) :
    st.blocks count data = (Hashing.blocks 64 count data).foldl absorb st := by
  induction count generalizing data st with
  | zero => rfl
  | succ count ih =>
      rw [blocks_succ, ih, Hashing.blocks, List.foldl_cons]

theorem turn_absorb (b : Bytes) (st : Md5State) : turn b st = st.absorb b := turn_eq b st

theorem foldl_absorb_words (bs : List Bytes) (st : Md5State) :
    (bs.foldl absorb st).words = bs.foldl Md5.compress st.words := by
  induction bs generalizing st with
  | nil => rfl
  | cons b bs ih => rw [List.foldl_cons, List.foldl_cons, ih, absorb, block_words]

end Md5State

open Md5State

/-- `body` takes in so many whole blocks, if the data has them. -/
theorem body_blocks {count : Nat} {data : Bytes} (st : Md5State) (pos : 0 < count)
    (there : count * 64 ≤ data.length) (fits : count * 64 < 2 ^ 64) :
    body data (UInt64.ofNat (count * 64)) st =
      .returns ((Hashing.blocks 64 count data).foldl absorb st, data.drop (count * 64)) := by
  have loop : ∀ turns, count ≤ turns → bodyLoop turns data (UInt64.ofNat (count * 64)) st =
      .returns ((Hashing.blocks 64 count data).foldl absorb st, data.drop (count * 64)) := by
    induction count generalizing data st with
    | zero => exact absurd pos (by decide)
    | succ count ih =>
        intro turns enough
        obtain ⟨turns, rfl⟩ : ∃ n, turns = n + 1 := ⟨turns - 1, by omega⟩
        have left : UInt64.ofNat ((count + 1) * 64) - 64 = UInt64.ofNat (count * 64) := by
          rw [Nat.add_mul, UInt64.ofNat_add]
          exact UInt64.add_sub_cancel _ _
        rw [bodyLoop, if_neg (by omega), left, turn_absorb]
        by_cases last : count = 0
        · subst last
          rfl
        · have more : UInt64.ofNat (count * 64) ≠ 0 := by
            intro zero
            have value : count * 64 % 2 ^ 64 = 0 :=
              (UInt64.toNat_ofNat' ..).symm.trans (congrArg UInt64.toNat zero)
            omega
          have there' : count * 64 ≤ (data.drop 64).length := by
            rw [List.length_drop]
            omega
          have behind : 64 + count * 64 = (count + 1) * 64 := by omega
          rw [if_neg more, ih _ (Nat.pos_of_ne_zero last) there' (by omega) turns (by omega),
            List.drop_drop, behind, Hashing.blocks, List.foldl_cons]
  exact loop data.length (by omega)

/-- The buffer is one block. -/
theorem body_buffer (buffer : Buffer 64) (st : Md5State) :
    body buffer.toList 64 st = .returns (absorb st buffer.toList, []) := by
  have whole : buffer.toList.length = 64 := buffer.length_toList
  have one := @body_blocks 1 buffer.toList st (by decide) (by omega) (by decide)
  rw [Nat.one_mul, List.drop_of_length_le whole.le, Hashing.blocks, Hashing.blocks,
    List.take_of_length_le whole.le] at one
  exact one

/-! ## Counters -/

/-- The context behind this data: whole blocks are in the state, and the rest is in the buffer. -/
structure MD5Ctx.After (ctx : MD5Ctx) (data : Bytes) : Prop where
  lo : ctx.lo.toNat = data.length % 2 ^ 29
  hi : ctx.hi.toNat = data.length / 2 ^ 29 % 2 ^ 32
  state : ctx.state = after data
  rest : remainder 64 data <+: ctx.buffer.toList

variable {ctx : MD5Ctx} {data piece : Bytes} {size : UInt64}

theorem count_lo : (ctx.count size).lo.toNat = (ctx.lo.toNat + size.toNat) % 2 ^ 29 := by
  have mask : UInt64.toNat 0x1fffffff = 2 ^ 29 - 1 := rfl
  simp only [MD5Ctx.count, UInt64.toNat_toUInt32, UInt64.toNat_and, UInt64.toNat_add,
    UInt32.toNat_toUInt64, mask, Nat.and_two_pow_sub_one_eq_mod]
  omega

/-- The low counter is smaller than it was when it has run over. -/
theorem count_hi (small : ctx.lo.toNat < 2 ^ 29) : (ctx.count size).hi.toNat =
    (ctx.hi.toNat + (ctx.lo.toNat + size.toNat) / 2 ^ 29) % 2 ^ 32 := by
  have lo := @count_lo ctx size
  have shift : (size >>> 29).toNat = size.toNat / 2 ^ 29 := by
    rw [UInt64.toNat_shiftRight, Nat.shiftRight_eq_div_pow]
    rfl
  have carry : (ctx.count size).hi = (if (ctx.count size).lo < ctx.lo then ctx.hi + 1 else ctx.hi) +
      (size >>> 29).toUInt32 := rfl
  have one : UInt32.toNat 1 = 1 := rfl
  rw [carry, UInt32.toNat_add, UInt64.toNat_toUInt32, shift]
  split
  · next wraps =>
      rw [UInt32.lt_iff_toNat_lt, lo] at wraps
      rw [UInt32.toNat_add, one]
      omega
  · next under =>
      rw [UInt32.lt_iff_toNat_lt, lo] at under
      omega

/-- How much of the buffer is used. -/
theorem MD5Ctx.After.used (h : ctx.After data) :
    (ctx.lo &&& 0x3f).toUInt64.toNat = data.length % 64 := by
  have mask : UInt32.toNat 0x3f = 2 ^ 6 - 1 := rfl
  rw [UInt32.toNat_toUInt64, UInt32.toNat_and, mask, Nat.and_two_pow_sub_one_eq_mod, h.lo]
  omega

theorem remainder_length (data : Bytes) : (remainder 64 data).length = data.length % 64 := by
  rw [remainder, List.length_drop]
  omega

/-! ## Updates -/

/-- The buffer behind what is left of a text gets more. -/
theorem memcpy_rest {buffer : Buffer 64} {rest : Bytes} {n : UInt64} (before : rest <+: buffer.toList)
    (there : n.toNat ≤ data.length) (fits : rest.length + n.toNat ≤ 64) :
    ∃ b, memcpy buffer rest.length data n = .returns b ∧ rest ++ data.take n.toNat <+: b.toList := by
  have size : (data.take n.toNat).length = n.toNat := List.length_take_of_le there
  rw [memcpy, if_neg (by omega)]
  apply Buffer.storeAll_behind before
  rwa [size]

/-- The mask in `m_d5_update` leaves the whole blocks. -/
theorem mask_block (n : Nat) : UInt64.ofNat n &&& ~~~0x3f = UInt64.ofNat (n / 64 * 64) := by
  have parts : (UInt64.ofNat n &&& ~~~0x3f) + (UInt64.ofNat n &&& 0x3f) = UInt64.ofNat n := by
    apply UInt64.toBitVec_inj.mp
    rw [UInt64.toBitVec_add, UInt64.toBitVec_and, UInt64.toBitVec_and, UInt64.toBitVec_not]
    rw [BitVec.add_eq_or_of_and_eq_zero]
    all_goals
      apply BitVec.eq_of_getElem_eq
      intro i inside
      simp only [BitVec.getElem_and, BitVec.getElem_or, BitVec.getElem_not, BitVec.getElem_zero]
      cases (UInt64.ofNat n).toBitVec[i] <;> cases (UInt64.toBitVec 0x3f)[i] <;> rfl
  have mask : UInt64.toNat 0x3f = 2 ^ 6 - 1 := rfl
  have low : UInt64.ofNat n &&& 0x3f = UInt64.ofNat (n % 64) := by
    apply UInt64.toNat_inj.mp
    rw [UInt64.toNat_and, mask, Nat.and_two_pow_sub_one_eq_mod, UInt64.toNat_ofNat',
      UInt64.toNat_ofNat']
    omega
  have split : UInt64.ofNat n = UInt64.ofNat (n / 64 * 64) + UInt64.ofNat (n % 64) := by
    rw [← UInt64.ofNat_add, Nat.div_add_mod']
  rw [low] at parts
  exact (UInt64.add_left_inj _).mp (parts.trans split)

/-- From an empty buffer on, whole blocks are taken in and the rest is kept. -/
theorem updateBlocks_eq (short : piece.length < 2 ^ 64) :
    ∃ b, updateBlocks ctx piece (UInt64.ofNat piece.length) = .returns
        { ctx with state := (wholeBlocks 64 piece).foldl absorb ctx.state, buffer := b } ∧
      remainder 64 piece <+: b.toList := by
  have size : (UInt64.ofNat piece.length).toNat = piece.length := by
    rw [UInt64.toNat_ofNat']
    omega
  have mask : UInt64.toNat 0x3f = 2 ^ 6 - 1 := rfl
  have block : UInt64.toNat 64 = 64 := rfl
  have copy : ∀ {text : Bytes} {n : UInt64}, n.toNat ≤ text.length → n.toNat ≤ 64 →
      ∃ b, memcpy ctx.buffer 0 text n = .returns b ∧ text.take n.toNat <+: b.toList :=
    fun there fits => memcpy_rest List.nil_prefix there (by rwa [List.length_nil, Nat.zero_add])
  unfold updateBlocks
  split
  · next long =>
      rw [UInt64.le_iff_toNat_le, size, block] at long
      have low : (UInt64.ofNat piece.length &&& 0x3f).toNat = piece.length % 64 := by
        rw [UInt64.toNat_and, size, mask, Nat.and_two_pow_sub_one_eq_mod]
      obtain ⟨b, copied, kept⟩ := @copy (piece.drop (piece.length / 64 * 64))
        (UInt64.ofNat piece.length &&& 0x3f) (by rw [low, List.length_drop]; omega) (by rw [low]; omega)
      have all : (piece.drop (piece.length / 64 * 64)).take (piece.length % 64) = remainder 64 piece :=
        List.take_of_length_le (by rw [List.length_drop]; omega)
      rw [low, all] at kept
      refine ⟨b, ?_, kept⟩
      rw [mask_block, body_blocks ctx.state (by omega) (Nat.div_mul_le_self _ _) (by omega)]
      simp only [Exec.returns_bind]
      rw [copied]
      rfl
  · next less =>
      rw [UInt64.le_iff_toNat_le, size, block] at less
      have short : piece.length < 64 := Nat.lt_of_not_le less
      obtain ⟨b, copied, kept⟩ := copy size.le (by omega)
      rw [size, List.take_length, ← remainder_short short] at kept
      refine ⟨b, ?_, kept⟩
      rw [wholeBlocks_short short, copied]
      rfl

theorem MD5Ctx.After.count (h : ctx.After data) (short : piece.length < 2 ^ 64) :
    (ctx.count (UInt64.ofNat piece.length)).lo.toNat = (data ++ piece).length % 2 ^ 29 ∧
      (ctx.count (UInt64.ofNat piece.length)).hi.toNat = (data ++ piece).length / 2 ^ 29 % 2 ^ 32 := by
  have size : (UInt64.ofNat piece.length).toNat = piece.length := UInt64.toNat_ofNat_of_lt' short
  have small : ctx.lo.toNat < 2 ^ 29 := by
    rw [h.lo]
    omega
  rw [count_lo, count_hi small, size, h.lo, h.hi, List.length_append]
  omega

/-- What was left over is behind whole blocks, together with what comes now. -/
theorem after_append (data piece : Bytes) : after (data ++ piece) =
    (wholeBlocks 64 (remainder 64 data ++ piece)).foldl absorb (after data) := by
  rw [after, wholeBlocks_append (by decide), List.foldl_append]
  rfl

/-- An update keeps the context behind the data, with one more piece of it. -/
theorem mD5Update_after (h : ctx.After data) (short : piece.length < 2 ^ 64) :
    ∃ ctx', mD5Update ctx piece (UInt64.ofNat piece.length) = .returns ctx' ∧
      ctx'.After (data ++ piece) := by
  obtain ⟨lo, hi⟩ := h.count short
  have size : (UInt64.ofNat piece.length).toNat = piece.length := UInt64.toNat_ofNat_of_lt' short
  have used := h.used
  have rest := remainder_length data
  have below : data.length % 64 < 64 := Nat.mod_lt _ (by decide)
  have block : UInt64.toNat 64 = 64 := rfl
  have zero : UInt64.toNat 0 = 0 := rfl
  have append := after_append data piece
  have left : remainder 64 (data ++ piece) = remainder 64 (remainder 64 data ++ piece) :=
    remainder_append (by decide) data piece
  have conclude : ∀ {x : Exec MD5Ctx} {st : Md5State} {b : Buffer 64},
      x = .returns { ctx.count (UInt64.ofNat piece.length) with state := st, buffer := b } →
      st = after (data ++ piece) → remainder 64 (data ++ piece) <+: b.toList →
      ∃ ctx', x = .returns ctx' ∧ ctx'.After (data ++ piece) :=
    fun run state kept => ⟨_, run, lo, hi, state, kept⟩
  simp only [mD5Update]
  split
  · next none =>
      -- the buffer was empty
      have empty : remainder 64 data = [] := by
        rw [none, zero] at used
        rw [← List.length_eq_zero_iff, rest, ← used]
      rw [empty, List.nil_append] at append left
      obtain ⟨b, updated, kept⟩ := @updateBlocks_eq (ctx.count (UInt64.ofNat piece.length)) piece short
      refine conclude updated ?_ (left ▸ kept)
      rw [append, ← h.state]
      rfl
  · have available : (64 - (ctx.lo &&& 0x3f).toUInt64).toNat = 64 - data.length % 64 := by
      rw [UInt64.toNat_sub_of_le _ _ (by rw [UInt64.le_iff_toNat_le, used, block]; omega), used, block]
    split
    · next less =>
        -- the piece does not fill the buffer
        rw [UInt64.lt_iff_toNat_lt, size, available] at less
        obtain ⟨b, copied, kept⟩ := @memcpy_rest piece (ctx.count (UInt64.ofNat piece.length)).buffer
          (remainder 64 data) (UInt64.ofNat piece.length) h.rest size.le (by rw [rest, size]; omega)
        have small : (remainder 64 data ++ piece).length < 64 := by
          rw [List.length_append, rest]
          omega
        rw [rest, ← used] at copied
        rw [size, List.take_length, ← remainder_short small, ← left] at kept
        rw [wholeBlocks_short small] at append
        refine conclude ?_ (h.state.trans append.symm) kept
        rw [copied]
        rfl
    · next enough =>
        -- the buffer is filled and taken in
        rw [UInt64.lt_iff_toNat_lt, size, available] at enough
        obtain ⟨b, copied, kept⟩ := @memcpy_rest piece (ctx.count (UInt64.ofNat piece.length)).buffer
          (remainder 64 data) (64 - (ctx.lo &&& 0x3f).toUInt64) h.rest (by omega) (by omega)
        have full : (remainder 64 data ++ piece.take (64 - data.length % 64)).length = 64 := by
          rw [List.length_append, rest, List.length_take_of_le (by omega)]
          omega
        rw [available] at kept
        have filled := kept.eq_of_length (by rw [full, Vector.length_toList])
        have split : remainder 64 data ++ piece = b.toList ++ piece.drop (64 - data.length % 64) := by
          rw [← filled, List.append_assoc, List.take_append_drop]
        have tail : UInt64.ofNat piece.length - (64 - (ctx.lo &&& 0x3f).toUInt64) =
            UInt64.ofNat (piece.drop (64 - data.length % 64)).length := by
          apply UInt64.toNat_inj.mp
          rw [UInt64.toNat_sub_of_le _ _ (by rw [UInt64.le_iff_toNat_le, size, available]; omega), size,
            available, List.length_drop, UInt64.toNat_ofNat_of_lt' (by omega : _ < 2 ^ 64)]
        obtain ⟨b', updated, kept'⟩ := @updateBlocks_eq
          { ctx.count (UInt64.ofNat piece.length) with state := absorb ctx.state b.toList, buffer := b }
          (piece.drop (64 - data.length % 64)) (by rw [List.length_drop]; omega)
        rw [split, wholeBlocks_cons (by decide) b.length_toList] at append
        rw [split, remainder_cons (by decide) b.length_toList] at left
        rw [rest, ← used] at copied
        have state : (wholeBlocks 64 (piece.drop (64 - data.length % 64))).foldl absorb
            (absorb ctx.state b.toList) = after (data ++ piece) := by
          rw [append, List.foldl_cons, ← h.state]
        apply conclude _ state (left ▸ kept')
        rw [copied]
        simp only [Exec.returns_bind]
        rw [body_buffer]
        simp only [Exec.returns_bind]
        rw [available, tail]
        exact updated

/-! ## The end -/

theorem littleEndian_eq (w : UInt32) : littleEndian w = Md5.toBytes 4 w.toNat := by
  have byte : ∀ {v : UInt32} {n : Nat}, v.toNat = n → v.toUInt8 = UInt8.ofNat n := fun {v n} value => by
    apply UInt8.toNat_inj.mp
    rw [UInt32.toNat_toUInt8, UInt8.toNat_ofNat', value]
  have shift : ∀ s : UInt32, s.toNat < 32 → (w >>> s).toNat = w.toNat / 2 ^ s.toNat := fun s small => by
    rw [UInt32.toNat_shiftRight, Nat.shiftRight_eq_div_pow, Nat.mod_eq_of_lt small]
  simp only [Md5.toBytes_succ, littleEndian]
  rw [byte rfl, byte (shift 8 (by decide)), byte (shift 16 (by decide)), byte (shift 24 (by decide)),
    Nat.div_div_eq_div_mul, Nat.div_div_eq_div_mul]
  rfl

/-- The counters are the length in bits. -/
theorem lengths_eq {lo hi : UInt32} {n : Nat} (low : lo.toNat = n % 2 ^ 29)
    (high : hi.toNat = n / 2 ^ 29 % 2 ^ 32) :
    littleEndian (lo <<< 3) ++ littleEndian hi = Md5.toBytes 8 (8 * n) := by
  have three : UInt32.toNat 3 % 32 = 3 := rfl
  have bits : (lo <<< 3).toNat = 8 * n % 256 ^ 4 := by
    rw [UInt32.toNat_shiftLeft, three, low, Nat.shiftLeft_eq]
    omega
  have rest : hi.toNat = 8 * n / 256 ^ 4 % 256 ^ 4 := by
    rw [high]
    omega
  rw [littleEndian_eq, littleEndian_eq, bits, rest, Md5.toBytes_mod, Md5.toBytes_mod, ← Md5.toBytes_add]

theorem after_words (data : Bytes) :
    (after data).words = (wholeBlocks 64 data).foldl Md5.compress .start :=
  foldl_absorb_words _ start

/-- The end takes in what was left over and the padding. -/
theorem hash_eq (data : Bytes) : Md5.hash data =
    ((wholeBlocks 64 (remainder 64 data ++ Md5.padding data.length)).foldl absorb
      (after data)).words.bytes := by
  rw [foldl_absorb_words, after_words, ← List.foldl_append, ← wholeBlocks_append (by decide)]
  rfl

theorem digest_bytes (st : Md5State) :
    littleEndian st.a ++ littleEndian st.b ++ littleEndian st.c ++ littleEndian st.d =
      st.words.bytes := by
  simp [littleEndian_eq, Md5.Words.bytes, words]

section Padding

variable {front lengths : Bytes}

/-- What was left over, the one bit and the length fit one block. -/
theorem padding_short (marked : remainder 64 data ++ [0x80] = front)
    (bits : lengths = Md5.toBytes 8 (8 * data.length)) (short : front.length ≤ 56) :
    remainder 64 data ++ Md5.padding data.length =
      front ++ List.replicate (56 - front.length) 0 ++ lengths := by
  have size : front.length = data.length % 64 + 1 := by
    rw [← marked, List.length_append, remainder_length, List.length_singleton]
  have zeros : (119 - data.length % 64) % 64 = 56 - front.length := by omega
  rw [← marked] at zeros ⊢
  simp [Md5.padding, zeros, bits]

/-- They do not, and the length comes in another one. -/
theorem padding_long (marked : remainder 64 data ++ [0x80] = front)
    (bits : lengths = Md5.toBytes 8 (8 * data.length)) (long : 56 < front.length) :
    remainder 64 data ++ Md5.padding data.length =
      front ++ List.replicate (64 - front.length) 0 ++ (List.replicate 56 0 ++ lengths) := by
  have below : data.length % 64 < 64 := Nat.mod_lt _ (by decide)
  have size : front.length = data.length % 64 + 1 := by
    rw [← marked, List.length_append, remainder_length, List.length_singleton]
  have zeros : (119 - data.length % 64) % 64 = 64 - front.length + 56 := by omega
  rw [← marked] at zeros ⊢
  rw [Md5.padding, zeros, List.replicate_add, bits]
  simp

theorem wholeBlocks_short_end (eight : lengths.length = 8) (short : front.length ≤ 56) :
    wholeBlocks 64 (front ++ List.replicate (56 - front.length) 0 ++ lengths) =
      [front ++ List.replicate (56 - front.length) 0 ++ lengths] := by
  apply wholeBlocks_one (by decide)
  rw [List.length_append, List.length_append, List.length_replicate, eight]
  omega

theorem wholeBlocks_long_end (eight : lengths.length = 8) (short : front.length ≤ 64) :
    wholeBlocks 64
        (front ++ List.replicate (64 - front.length) 0 ++ (List.replicate 56 0 ++ lengths)) =
      [front ++ List.replicate (64 - front.length) 0, List.replicate 56 0 ++ lengths] := by
  have first : (front ++ List.replicate (64 - front.length) 0).length = 64 := by
    rw [List.length_append, List.length_replicate]
    omega
  rw [wholeBlocks_cons (by decide) first, wholeBlocks_one (by decide)]
  rw [List.length_append, List.length_replicate, eight]

end Padding

/-- `finalBlock` behind what is in the buffer. -/
theorem finalBlock_eq {buffer : Buffer 64} {front : Bytes} {used available : UInt64}
    (before : front <+: buffer.toList) (place : used.toNat = front.length)
    (room : used.toNat + available.toNat = 64) (enough : 8 ≤ available.toNat) (st : Md5State) :
    finalBlock ctx buffer st used available =
      .returns (st.absorb (front ++ List.replicate (56 - front.length) (0 : UInt8) ++
        (littleEndian (ctx.lo <<< 3) ++ littleEndian ctx.hi))).words.bytes := by
  have eight : UInt64.toNat 8 = 8 := rfl
  have four : ∀ w, (littleEndian w).length = 4 := fun _ => rfl
  have zeros : (available - 8).toNat = 56 - front.length := by
    rw [UInt64.toNat_sub_of_le _ _ (by rwa [UInt64.le_iff_toNat_le, eight]), eight]
    omega
  obtain ⟨b, cleared, clear⟩ := @Buffer.storeAll_behind 64 buffer front
    (List.replicate (56 - front.length) 0) before (by rw [List.length_replicate]; omega)
  have at56 : (front ++ List.replicate (56 - front.length) (0 : UInt8)).length = 56 := by
    rw [List.length_append, List.length_replicate]
    omega
  obtain ⟨b', stored, low⟩ := @Buffer.storeAll_behind 64 b _ (littleEndian (ctx.lo <<< 3)) clear
    (by rw [at56, four]; omega)
  have at60 : (front ++ List.replicate (56 - front.length) (0 : UInt8) ++
      littleEndian (ctx.lo <<< 3)).length = 60 := by
    rw [List.length_append, at56, four]
  obtain ⟨b'', stored', whole⟩ := @Buffer.storeAll_behind 64 b' _ (littleEndian ctx.hi) low
    (by rw [at60, four])
  rw [at56] at stored
  rw [at60] at stored'
  have block := whole.eq_of_length (by rw [List.length_append, at60, four, Vector.length_toList])
  unfold finalBlock memset
  rw [zeros, place, cleared]
  simp only [Exec.returns_bind]
  rw [stored]
  simp only [Exec.returns_bind]
  rw [stored']
  simp only [Exec.returns_bind]
  rw [body_buffer, ← block, List.append_assoc]
  simp only [Exec.returns_bind, Exec.pure_eq]
  rw [digest_bytes]

/-- The end of a stream is the hash of all that came. -/
theorem mD5Final_eq (h : ctx.After data) : mD5Final ctx = .returns (Md5.hash data) := by
  obtain ⟨front, marked⟩ : ∃ front, remainder 64 data ++ [0x80] = front := ⟨_, rfl⟩
  have rest := remainder_length data
  have below : data.length % 64 < 64 := Nat.mod_lt _ (by decide)
  have size : front.length = data.length % 64 + 1 := by
    rw [← marked, List.length_append, rest, List.length_singleton]
  have used := h.used
  have zero : UInt64.toNat 0 = 0 := rfl
  have one : UInt64.toNat 1 = 1 := rfl
  have eight : UInt64.toNat 8 = 8 := rfl
  have block : UInt64.toNat 64 = 64 := rfl
  have next : ((ctx.lo &&& 0x3f).toUInt64 + 1).toNat = front.length := by
    rw [UInt64.toNat_add, used, one, size]
    omega
  have available : (64 - ((ctx.lo &&& 0x3f).toUInt64 + 1)).toNat = 64 - front.length := by
    rw [UInt64.toNat_sub_of_le _ _ (by rw [UInt64.le_iff_toNat_le, next, block]; omega), next, block]
  have lengths := lengths_eq h.lo h.hi
  obtain ⟨b, stored, kept⟩ := Buffer.store_behind h.rest 0x80 (by omega)
  rw [rest, ← used] at stored
  rw [marked] at kept
  simp only [mD5Final]
  rw [stored]
  simp only [Exec.returns_bind]
  split
  · next two =>
      rw [UInt64.lt_iff_toNat_lt, available, eight] at two
      obtain ⟨b', cleared, clear⟩ := @Buffer.storeAll_behind 64 b front
        (List.replicate (64 - front.length) 0) kept (by rw [List.length_replicate]; omega)
      have filled := clear.eq_of_length (by
        rw [List.length_append, List.length_replicate, Vector.length_toList]
        omega)
      rw [memset, next, available, cleared]
      simp only [Exec.returns_bind]
      rw [body_buffer]
      simp only [Exec.returns_bind]
      rw [finalBlock_eq List.nil_prefix zero (by rw [zero, block]) (by rw [block]; decide), hash_eq,
        padding_long marked lengths (by omega), wholeBlocks_long_end rfl (by omega), ← filled, h.state]
      rfl
  · next enough =>
      rw [UInt64.lt_iff_toNat_lt, available, eight] at enough
      rw [finalBlock_eq kept next (by omega) (by omega), hash_eq,
        padding_short marked lengths (by omega), wholeBlocks_short_end rfl (by omega), h.state]
      rfl

/-! ## Streams -/

theorem mD5Init_after (buffer : Buffer 64) : (mD5Init buffer).After [] :=
  ⟨rfl, rfl, rfl, List.nil_prefix⟩

theorem mD5Updates_after {pieces : List Bytes} (h : ctx.After data)
    (short : ∀ piece ∈ pieces, piece.length < 2 ^ 64) :
    ∃ ctx', mD5Updates ctx pieces = .returns ctx' ∧ ctx'.After (data ++ pieces.flatten) := by
  induction pieces generalizing ctx data with
  | nil => exact ⟨ctx, rfl, by simpa using h⟩
  | cons piece pieces ih =>
      obtain ⟨next, updated, behind⟩ := mD5Update_after h (short piece List.mem_cons_self)
      obtain ⟨last, done, all⟩ := ih behind fun p mem => short p (List.mem_cons_of_mem piece mem)
      refine ⟨last, ?_, ?_⟩
      · rw [mD5Updates, updated]
        exact done
      · rwa [List.flatten_cons, ← List.append_assoc]

/-- However the text comes in and whatever the buffer holds to begin with, no array is left and the
result is the MD5 hash. -/
theorem md5_pieces (buffer : Buffer 64) (pieces : List Bytes)
    (short : ∀ piece ∈ pieces, piece.length < 2 ^ 64) :
    (do
      let ctx ← mD5Updates (mD5Init buffer) pieces
      mD5Final ctx) = .returns (Md5.hash pieces.flatten) := by
  obtain ⟨last, done, all⟩ := mD5Updates_after (mD5Init_after buffer) short
  rw [done]
  exact mD5Final_eq all

/-- A block that is filled by two pieces. -/
theorem md5_pieces_filled :
    (do
      let ctx ← mD5Updates (mD5Init (.replicate 64 7)) [List.replicate 63 97, ascii "bc"]
      mD5Final ctx) = .returns (Md5.hash (List.replicate 63 97 ++ ascii "bc")) :=
  md5_pieces (.replicate 64 7) [List.replicate 63 97, ascii "bc"] (by decide)

/-! ## Keys -/

/-- The whole text in one update. -/
theorem hashMd5Binary_eq (data : Bytes) : hashMd5Binary data = Md5.hash data := by
  obtain ⟨front, marked⟩ : ∃ front, remainder 64 data ++ [0x80] = front := ⟨_, rfl⟩
  have below : data.length % 64 < 64 := Nat.mod_lt _ (by decide)
  have size : front.length = data.length % 64 + 1 := by
    rw [← marked, List.length_append, remainder_length, List.length_singleton]
  have lengths : littleEndian (UInt32.ofNat (data.length % 2 ^ 29) <<< 3) ++
      littleEndian (UInt32.ofNat (data.length / 2 ^ 29)) = Md5.toBytes 8 (8 * data.length) := by
    apply lengths_eq
    · rw [UInt32.toNat_ofNat']
      omega
    · exact UInt32.toNat_ofNat' ..
  have state : start.blocks (data.length / 64) data = after data := blocks_eq _ _ _
  have final : hashMd5Binary data = md5Final (remainder 64 data) (UInt32.ofNat (data.length % 2 ^ 29))
      (UInt32.ofNat (data.length / 2 ^ 29)) (start.blocks (data.length / 64) data) := rfl
  rw [final, state, md5Final]
  simp only [marked]
  split
  · next two =>
      rw [blocks_eq, digest_bytes, hash_eq, padding_long marked lengths (by omega),
        ← List.append_assoc (front ++ _)]
      rfl
  · next enough =>
      rw [blocks_eq, digest_bytes, hash_eq, padding_short marked lengths (by omega)]
      rfl

/-- `hash_md5_binary` is what the cache is modelled with. -/
theorem hashMd5BinaryCtx_eq (buffer : Buffer 64) {data : Bytes} (short : data.length < 2 ^ 64) :
    hashMd5BinaryCtx buffer data = .returns (hashMd5Binary data) := by
  obtain ⟨ctx, updated, behind⟩ := mD5Update_after (mD5Init_after buffer) short
  rw [hashMd5BinaryCtx, updated, hashMd5Binary_eq]
  exact mD5Final_eq behind

theorem words_injective : Function.Injective words := by
  intro s t same
  simp only [words, Md5.Words.mk.injEq] at same
  obtain ⟨a, b, c, d⟩ := s
  simp_all

/-- Two keys that share a file make `body` collide on blocks of their padded texts. -/
theorem cachePath_collides {key key' : Bytes} (short : key.length < 2 ^ 61)
    (short' : key'.length < 2 ^ 61) (differ : key ≠ key') (same : cachePath key = cachePath key') :
    Collide absorb start (Md5.padded key) start (Md5.padded key') := by
  have digits : hashMd5String key = hashMd5String key' := by
    unfold cachePath at same
    exact List.append_cancel_left (List.append_cancel_right same)
  have hash : Md5.hash key = Md5.hash key' := by
    rw [← hashMd5Binary_eq, ← hashMd5Binary_eq]
    exact hashMd5BinaryToString_inj digits
  apply Collide.of_map words_injective fun st b => block_words b st
  exact Md5.hash_collides short short' differ hash

/-- A text of two blocks. -/
def twoBlocks : Bytes :=
  [209, 49, 221, 2, 197, 230, 238, 196, 105, 61, 154, 6, 152, 175, 249, 92, 47, 202, 181, 135, 18,
    70, 126, 171, 64, 4, 88, 62, 184, 251, 127, 137, 85, 173, 52, 6, 9, 244, 179, 2, 131, 228, 136,
    131, 37, 113, 65, 90, 8, 81, 37, 232, 247, 205, 201, 159, 217, 29, 189, 242, 128, 55, 60, 91,
    216, 130, 62, 49, 86, 52, 143, 91, 174, 109, 172, 212, 54, 201, 25, 198, 221, 83, 226, 180,
    135, 218, 3, 253, 2, 57, 99, 6, 210, 72, 205, 160, 233, 159, 51, 66, 15, 87, 126, 232, 206, 84,
    182, 112, 128, 168, 13, 30, 198, 152, 33, 188, 182, 168, 131, 147, 150, 249, 101, 43, 111, 247,
    42, 112]

/-- The same, with six bits changed. -/
def sixBits : Bytes :=
  twoBlocks.mapIdx fun i c => if i ∈ [19, 45, 59, 83, 109, 123] then c ^^^ 0x80 else c

theorem cachePath_collides_sixBits : 0 ∉ twoBlocks ∧ 0 ∉ sixBits ∧
    Collide absorb start (Md5.padded twoBlocks) start (Md5.padded sixBits) :=
  ⟨by decide +kernel, by decide +kernel, cachePath_collides (by decide +kernel) (by decide +kernel)
    (by decide +kernel) (by decide +kernel)⟩

end JustWeather.Cache
