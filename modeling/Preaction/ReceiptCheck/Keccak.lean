import Preaction.Edwards

/-!
# `x402-receipt-authorization-commitment/receipt_check.py` — `keccak256`

The hash under a signer's address. The message is padded to whole blocks of 136 bytes,
absorbed block by block into a state of 25 lanes, and four of the lanes are the digest.

The padding writes `0x01`, fills with zeros and then ors `0x80` into the last byte in
place. Where the input leaves one byte of a block both bits land in that byte;
everywhere else they stand in two. `paddedMessage_eq` says so, and from the end of a
padded message the input is read back either way (`unpad_paddedMessage`).

Mirroring notes:
- A lane is an integer below 2^64 in the source, masked where a shift could leave it.
- The indices of the lanes are taken modulo 5, as the source takes them.
-/

namespace Preaction.ReceiptCheck

open Preaction.Py Edwards

/-- A lane of the state. -/
abbrev Lane := BitVec 64

/-- The state: `a[x][y]`. -/
abbrev State := Vector (Vector Lane 5) 5

/-- `_RC` -/
def roundConstants : List Lane :=
  [0x0000000000000001, 0x0000000000008082, 0x800000000000808A, 0x8000000080008000,
   0x000000000000808B, 0x0000000080000001, 0x8000000080008081, 0x8000000000008009,
   0x000000000000008A, 0x0000000000000088, 0x0000000080008009, 0x000000008000000A,
   0x000000008000808B, 0x800000000000008B, 0x8000000000008089, 0x8000000000008003,
   0x8000000000008002, 0x8000000000000080, 0x000000000000800A, 0x800000008000000A,
   0x8000000080008081, 0x8000000000008080, 0x0000000080000001, 0x8000000080008008]

/-- `_ROT` -/
def rotations : Vector (Vector Nat 5) 5 :=
  #v[#v[0, 36, 3, 41, 18], #v[1, 44, 10, 45, 2], #v[62, 6, 43, 15, 61],
     #v[28, 55, 25, 21, 56], #v[27, 20, 39, 8, 14]]

/-- `_rol(v, n)` -/
def rol (v : Lane) (n : Nat) : Lane := if n = 0 then v else v <<< n ||| v >>> (64 - n)

/-- `for x in range(5): for y in range(5)` -/
def places : List (Fin 5 × Fin 5) :=
  (List.finRange 5).flatMap fun x => (List.finRange 5).map fun y => (x, y)

/-- `a[x][y] = v` -/
def State.setLane (a : State) (x y : Fin 5) (v : Lane) : State := a.set x (a[x].set y v)

/-- `[[0] * 5 for _ in range(5)]` -/
def zeroState : State := Vector.replicate 5 (Vector.replicate 5 0)

/-- The first loop of a round: every column is mixed with its two neighbours. -/
def mixColumns (a : State) : State :=
  let c := fun x : Fin 5 => a[x][0] ^^^ a[x][1] ^^^ a[x][2] ^^^ a[x][3] ^^^ a[x][4]
  let d := fun x : Fin 5 => c (x - 1) ^^^ rol (c (x + 1)) 1
  Vector.ofFn fun x => Vector.ofFn fun y => a[x][y] ^^^ d x

/-- `b`: the lanes, rotated and moved. -/
def moveLanes (a : State) : State :=
  places.foldl (fun b p => b.setLane p.2 (2 * p.1 + 3 * p.2) (rol a[p.1][p.2] rotations[p.1][p.2]))
    zeroState

/-- The last loop of a round. -/
def combineRows (b : State) : State :=
  Vector.ofFn fun x => Vector.ofFn fun y => b[x][y] ^^^ (~~~b[x + 1][y] &&& b[x + 2][y])

/-- The body of the loop of `_keccak_f`. -/
def keccakRound (a : State) (rc : Lane) : State :=
  let a := combineRows (moveLanes (mixColumns a))
  a.setLane 0 0 (a[0][0] ^^^ rc)

/-- `_keccak_f(a)` -/
def keccakF (a : State) : State := roundConstants.foldl keccakRound a

/-- `rate` -/
def rate : Nat := 136

/-- `msg[-1] |= x` -/
def orLast (x : UInt8) (msg : Bytes) : Bytes := msg.modify (msg.length - 1) (· ||| x)

/-- `msg` of `keccak256`. -/
def paddedMessage (data : Bytes) : Bytes :=
  let msg := data ++ [0x01]
  let msg := msg ++ List.replicate (-(msg.length : Int) % rate).toNat 0x00
  orLast 0x80 msg

/-- The lane `a[i % 5][i // 5]`. -/
def laneAt (a : State) (i : Nat) : Lane := a[Fin.ofNat 5 i][Fin.ofNat 5 (i / 5)]

/-- The loop over the lanes of a block. -/
def absorbBlock (a : State) (block : Bytes) : State :=
  (List.range (rate / 8)).foldl (fun a i => a.setLane (Fin.ofNat 5 i) (Fin.ofNat 5 (i / 5))
    (laneAt a i ^^^ BitVec.ofNat 64 (fromBytesLittle ((block.drop (8 * i)).take 8)))) a

/-- The blocks `msg[off:off + rate]` for `off` in `range(0, len(msg), rate)`. -/
def blocks (msg : Bytes) : List Bytes :=
  (List.range ((msg.length + rate - 1) / rate)).map fun k => (msg.drop (rate * k)).take rate

/-- `keccak256(data)` -/
def keccak256 (data : Bytes) : Bytes :=
  let a := (blocks (paddedMessage data)).foldl (fun a block => keccakF (absorbBlock a block))
    zeroState
  (List.range 4).flatMap fun i => toBytesLittle 8 (laneAt a i).toNat

/-! ## The padding -/

/-- The zeros after an input of `n` bytes and the first bit of its padding. -/
def fillLength (n : Nat) : Nat := (-((n + 1 : Nat) : Int) % rate).toNat

/-- What stands behind the input, with `k` zeros between the two bits. -/
def padTail : Nat → Bytes
  | 0 => [0x81]
  | k + 1 => 0x01 :: (List.replicate k 0x00 ++ [0x80])

/-- The input of a padded message: both bits stand in the last byte, or the first one
stands before the zeros. -/
def unpad (msg : Bytes) : Bytes :=
  if msg.getLast? = some 0x81 then msg.dropLast
  else ((msg.dropLast.reverse.dropWhile (· == 0x00)).drop 1).reverse

theorem orLast_concat (x y : UInt8) (msg : Bytes) : orLast x (msg ++ [y]) = msg ++ [y ||| x] := by
  have hlast : (msg ++ [y]).length - 1 = msg.length := by
    rw [List.length_append, List.length_singleton, Nat.add_sub_cancel]
  rw [orLast, hlast, List.modify_eq_take_drop, List.take_left, List.drop_left]
  rfl

theorem length_padTail (k : Nat) : (padTail k).length = k + 1 := by
  cases k with
  | zero => rfl
  | succ k => simp [padTail]

/-- The input stays in front; the two bits share a byte where no zero is between them. -/
theorem paddedMessage_eq (data : Bytes) :
    paddedMessage data = data ++ padTail (fillLength data.length) := by
  have hfill : (-((data ++ [0x01]).length : Int) % rate).toNat = fillLength data.length := by
    rw [List.length_append, List.length_singleton]
    rfl
  show orLast 0x80 (data ++ [0x01] ++ List.replicate _ 0x00) = _
  rw [hfill]
  cases fillLength data.length with
  | zero =>
    rw [List.replicate_zero, List.append_nil, orLast_concat]
    rfl
  | succ k =>
    rw [List.replicate_succ', ← List.append_assoc, orLast_concat, padTail]
    simp only [List.append_assoc, List.cons_append, List.nil_append]
    rfl

/-- The zeros fill the last block. -/
theorem fillLength_spec (n : Nat) : ∃ k, 0 < k ∧ n + (fillLength n + 1) = k * rate := by
  have hfill : fillLength n = (-((n + 1 : Nat) : Int) % 136).toNat := rfl
  refine ⟨n / 136 + 1, Nat.succ_pos _, ?_⟩
  rw [show rate = 136 from rfl]
  omega

/-- **Every input is read back from its padded message.** -/
theorem unpad_paddedMessage (data : Bytes) : unpad (paddedMessage data) = data := by
  rw [paddedMessage_eq]
  cases fillLength data.length with
  | zero =>
    show unpad (data ++ [0x81]) = data
    rw [unpad, List.getLast?_concat, if_pos rfl, List.dropLast_concat]
  | succ k =>
    have hlast : data ++ padTail (k + 1) = data ++ 0x01 :: List.replicate k 0x00 ++ [0x80] := by
      rw [padTail, List.append_assoc, List.cons_append]
    -- read from behind, the zeros end at the first bit
    have hback : (data ++ 0x01 :: List.replicate k 0x00).reverse =
        List.replicate k 0x00 ++ 0x01 :: data.reverse := by
      rw [List.reverse_append, List.reverse_cons, List.reverse_replicate, List.append_assoc]
      rfl
    have hzeros : ∀ x ∈ List.replicate k (0x00 : UInt8), (x == 0x00) = true := by
      intro x hx
      rw [List.eq_of_mem_replicate hx]
      rfl
    rw [hlast, unpad, List.getLast?_concat, if_neg (by decide), List.dropLast_concat, hback,
      List.dropWhile_append_of_pos hzeros, List.dropWhile_cons_of_neg (by decide), List.drop_one,
      List.tail_cons, List.reverse_reverse]

theorem take_flatten_blocks (msg : Bytes) (n : Nat) :
    ((List.range n).map fun k => (msg.drop (rate * k)).take rate).flatten =
      msg.take (rate * n) := by
  induction n with
  | zero => simp
  | succ n ih =>
    rw [List.range_succ, List.map_append, List.flatten_append, ih, Nat.mul_succ, List.take_add]
    simp

/-- The blocks together are the message. -/
theorem flatten_blocks (msg : Bytes) : (blocks msg).flatten = msg := by
  rw [blocks, take_flatten_blocks, List.take_of_length_le]
  rw [show rate = 136 from rfl]
  omega

/-- A message of whole blocks is cut into these. -/
theorem length_of_mem_blocks {msg block : Bytes} {k : Nat} (hlen : msg.length = k * rate)
    (h : block ∈ blocks msg) : block.length = rate := by
  obtain ⟨i, hi, rfl⟩ := List.mem_map.mp h
  rw [List.mem_range, hlen] at hi
  rw [List.length_take, List.length_drop, hlen]
  rw [show rate = 136 from rfl] at *
  omega

/-- **The padding of `keccak256`.** It gives one or more whole blocks that begin with the
input, and inputs that differ give blocks that differ. -/
theorem paddedMessage_blocks :
    (∀ data : Bytes, ∃ k, 0 < k ∧ (paddedMessage data).length = k * 136) ∧
    (∀ data : Bytes, data <+: paddedMessage data) ∧
    (∀ data : Bytes, ∀ block ∈ blocks (paddedMessage data), block.length = 136) ∧
    Function.Injective paddedMessage ∧
    Function.Injective (fun data => blocks (paddedMessage data)) ∧
    ∀ data : Bytes, data.length % 136 = 135 → paddedMessage data = data ++ [0x81] := by
  have hlen (data : Bytes) : ∃ k, 0 < k ∧ (paddedMessage data).length = k * rate := by
    rw [paddedMessage_eq, List.length_append, length_padTail]
    exact fillLength_spec data.length
  have hinj : Function.Injective paddedMessage :=
    Function.LeftInverse.injective unpad_paddedMessage
  refine ⟨hlen, ?_, ?_, hinj, ?_, ?_⟩
  · intro data
    rw [paddedMessage_eq]
    exact List.prefix_append _ _
  · intro data block hblock
    obtain ⟨k, -, hk⟩ := hlen data
    exact length_of_mem_blocks hk hblock
  · intro data data' h
    have hflat := congrArg List.flatten h
    dsimp only at hflat
    rw [flatten_blocks, flatten_blocks] at hflat
    exact hinj hflat
  · intro data hdata
    have hfill : fillLength data.length = 0 := by
      show (-((data.length + 1 : Nat) : Int) % 136).toNat = 0
      omega
    rw [paddedMessage_eq, hfill]
    rfl

/-- An input that leaves one byte of its block. -/
example : (paddedMessage (List.replicate 135 0x61)).drop 134 = [0x61, 0x81] := by decide +kernel

end Preaction.ReceiptCheck
