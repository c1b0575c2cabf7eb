import Preaction.EdwardsCoding
import Preaction.Lib.Positional
import Preaction.Nenrin.Verify

/-!
# One spelling of a `did:key`

A witness is told apart from the two ends of a hop by the text of its key. That
is safe because a key has one text: `fromBase58` forgets nothing of a text, not
its leading ones either, and `decode` takes one encoding of a point only.
-/

namespace Preaction.Nenrin

open Preaction.Py Preaction.Edwards Preaction.Positional

/-! ## Numbers as bytes -/

/-- The last byte is the most significant. -/
theorem getLast?_toBytesLittle (len n : Nat) :
    (toBytesLittle (len + 1) n).getLast? = some (UInt8.ofNat (n / 256 ^ len % 256)) := by
  induction len generalizing n with
  | zero => simp [toBytesLittle]
  | succ len ih =>
    rw [toBytesLittle, List.getLast?_cons, ih, Option.getD_some, Nat.div_div_eq_div_mul,
      Nat.pow_succ, Nat.mul_comm]

theorem horner_reverse_toBytesLittle {len n : Nat} (h : n < 256 ^ len) :
    horner 256 ((toBytesLittle len n).reverse.map UInt8.toNat) = n := by
  rw [List.map_reverse, horner_eq_ofDigits, List.reverse_reverse, ← fromBytesLittle_eq_ofDigits,
    fromBytesLittle_toBytesLittle h]

/-- The bytes of a number have no leading zero, and are the number's. -/
theorem toBytesBig_spec (n : Nat) :
    zeros ((toBytesBig n).map UInt8.toNat) = [] ∧
      horner 256 ((toBytesBig n).map UInt8.toNat) = n := by
  unfold toBytesBig
  by_cases hn : n = 0
  · rw [if_pos hn, hn]
    exact ⟨rfl, rfl⟩
  · rw [if_neg hn]
    have hlow : 256 ^ (n.log2 / 8) ≤ n := by
      calc 256 ^ (n.log2 / 8) = 2 ^ (8 * (n.log2 / 8)) := by rw [Nat.pow_mul]
        _ ≤ 2 ^ n.log2 := Nat.pow_le_pow_right (by decide) (by omega)
        _ ≤ n := Nat.log2_self_le hn
    have hhigh : n < 256 ^ (n.log2 / 8 + 1) := by
      calc n < 2 ^ (n.log2 + 1) := Nat.lt_log2_self
        _ ≤ 2 ^ (8 * (n.log2 / 8 + 1)) := Nat.pow_le_pow_right (by decide) (by omega)
        _ = 256 ^ (n.log2 / 8 + 1) := by rw [Nat.pow_mul]
    refine ⟨?_, horner_reverse_toBytesLittle hhigh⟩
    -- the most significant byte is in front, and it is not zero
    have htop : n / 256 ^ (n.log2 / 8) ≠ 0 := by
      have := Nat.div_pos hlow (Nat.pow_pos (by decide))
      omega
    have hlt : n / 256 ^ (n.log2 / 8) < 256 := by
      rw [Nat.div_lt_iff_lt_mul (Nat.pow_pos (by decide)), Nat.mul_comm, ← Nat.pow_succ]
      exact hhigh
    have hhead := getLast?_toBytesLittle (n.log2 / 8) n
    rw [← List.head?_reverse] at hhead
    obtain ⟨rest, hrest⟩ := List.head?_eq_some_iff.mp hhead
    rw [hrest, List.map_cons]
    unfold zeros
    rw [List.takeWhile_cons_of_neg]
    rw [UInt8.toNat_ofNat', Nat.mod_eq_of_lt hlt, Nat.mod_eq_of_lt hlt]
    simpa using htop

/-! ## Base58 -/

theorem b58_idxOf_lt {s : Str} (h : s.all (b58.contains ·) = true) :
    ∀ d ∈ s.map b58.idxOf, d < 58 := by
  intro d hd
  obtain ⟨c, hc, rfl⟩ := List.mem_map.mp hd
  have hmem := List.all_eq_true.mp h c hc
  have hlt := List.idxOf_lt_length_iff.mpr (List.contains_iff_mem.mp hmem)
  exact hlt

theorem b58_idxOf_injective {s t : Str} (hs : s.all (b58.contains ·) = true)
    (h : s.map b58.idxOf = t.map b58.idxOf) : s = t := by
  induction s generalizing t with
  | nil => exact (List.map_eq_nil_iff.mp h.symm).symm
  | cons c s ih =>
    cases t with
    | nil => cases h
    | cons d t =>
      rw [List.map_cons, List.map_cons, List.cons.injEq] at h
      rw [List.all_cons, Bool.and_eq_true] at hs
      rw [(List.idxOf_inj (List.contains_iff_mem.mp hs.1)).mp h.1, ih hs.2 h.2]

/-- The leading ones of a text are its leading zeros as digits. -/
theorem zeros_map_idxOf (s : Str) :
    (zeros (s.map b58.idxOf)).length = (s.takeWhile (· == ofChar '1')).length := by
  unfold zeros
  rw [List.takeWhile_map, List.length_map]
  congr 2
  funext c
  show (b58.idxOf c == 0) = (c == ofChar '1')
  rw [show b58 = ofChar '1' :: b58.tail from rfl, List.idxOf_cons]
  by_cases hc : c = ofChar '1'
  · rw [hc, beq_self_eq_true]
    rfl
  · rw [beq_eq_false_iff_ne.mpr hc, beq_eq_false_iff_ne.mpr (Ne.symm hc)]
    rfl

/-- The bytes of a text, as digits: as many zeros in front, and the same number. -/
theorem fromBase58_spec {s : Str} {b : Bytes} (h : fromBase58 s = some b) :
    s.all (b58.contains ·) = true ∧
      (zeros (b.map UInt8.toNat)).length = (zeros (s.map b58.idxOf)).length ∧
      horner 256 (b.map UInt8.toNat) = horner 58 (s.map b58.idxOf) := by
  unfold fromBase58 at h
  split at h
  next hall =>
    have hn : s.foldl (fun n c => n * 58 + b58.idxOf c) 0 = horner 58 (s.map b58.idxOf) := by
      unfold horner
      rw [List.foldl_map]
    obtain rfl := Option.some.inj h
    rw [hn]
    obtain ⟨hzeros, hvalue⟩ := toBytesBig_spec (horner 58 (s.map b58.idxOf))
    refine ⟨hall, ?_, ?_⟩
    · unfold zeros at hzeros ⊢
      rw [List.map_append, List.map_replicate, List.takeWhile_append_of_pos, List.length_append,
        hzeros, List.length_replicate, ← zeros_map_idxOf]
      · rfl
      · intro d hd
        rw [(List.mem_replicate.mp hd).2]
        rfl
    · rw [← horner_dropWhile, List.map_append, List.map_replicate, List.dropWhile_append_of_pos,
        horner_dropWhile, hvalue]
      intro d hd
      rw [(List.mem_replicate.mp hd).2]
      rfl
  next => cases h

theorem fromBase58_injective {s t : Str} {b : Bytes} (hs : fromBase58 s = some b)
    (ht : fromBase58 t = some b) : s = t := by
  obtain ⟨hall, hzeros, hvalue⟩ := fromBase58_spec hs
  obtain ⟨hall', hzeros', hvalue'⟩ := fromBase58_spec ht
  exact b58_idxOf_injective hall (eq_of_horner_eq (by decide) (b58_idxOf_lt hall)
    (b58_idxOf_lt hall') (hzeros.symm.trans hzeros') (hvalue.symm.trans hvalue'))

/-! ## Points -/

/-- Two points in extended coordinates are one point of the curve. -/
def SamePoint (A B : Point) : Prop :=
  A.X * B.Z % P = B.X * A.Z % P ∧ A.Y * B.Z % P = B.Y * A.Z % P

/-- A decoded point has the reduced coordinates its bytes tell. -/
theorem decode_spec {b : Bytes} {A : Point} (h : decode b = some A) :
    b.length = 32 ∧ A.Z = 1 ∧ A.X < P ∧ A.Y < P ∧
      fromBytesLittle b = A.Y + 2 ^ 255 * (A.X % 2) := by
  unfold decode at h
  by_cases hlen : b.length ≠ 32
  · rw [if_pos hlen] at h
    cases h
  · rw [if_neg hlen] at h
    rw [not_not] at hlen
    extract_lets n sign y x2 r x x' at h
    have hn : n < 256 ^ 32 := hlen ▸ fromBytesLittle_lt b
    have hsign : sign < 2 := by omega
    have hparts : n = y + 2 ^ 255 * sign := by omega
    have hx2 : x2 < P := Nat.mod_lt _ (by decide)
    have hr : r < P := powP_lt x2 ((P + 3) / 8)
    have hx : x < P := by
      show (if (r * r + negP x2) % P ≠ 0 then r * sqrtM1 % P else r) < P
      split
      next => exact Nat.mod_lt _ (by decide)
      next => exact hr
    split at h
    next => cases h
    next hy =>
      split at h
      next =>
        split at h
        next => cases h
        next hzero =>
          obtain rfl := Option.some.inj h
          refine ⟨hlen, rfl, show 0 < P by decide, Nat.lt_of_not_le hy, ?_⟩
          show n = y + 2 ^ 255 * (0 % 2)
          omega
      next hne =>
        split at h
        next => cases h
        next hroot =>
          -- the root of a number that is not zero is not zero
          have hx0 : x ≠ 0 := by
            intro h0
            rw [h0, Nat.zero_mul, Nat.zero_add] at hroot
            exact hroot (negP_mod_ne_zero hx2 hne)
          obtain ⟨hlt, hparity⟩ := parity_root hx hx0 hsign
          obtain rfl := Option.some.inj h
          refine ⟨hlen, rfl, hlt, Nat.lt_of_not_le hy, ?_⟩
          show n = y + 2 ^ 255 * (x' % 2)
          rw [hparts]
          congr 2
          exact hparity.symm

/-- One point has one encoding. -/
theorem decode_injective {a b : Bytes} {A B : Point} (ha : decode a = some A)
    (hb : decode b = some B) (h : SamePoint A B) : a = b := by
  obtain ⟨hlenA, hzA, hxA, hyA, hvalueA⟩ := decode_spec ha
  obtain ⟨hlenB, hzB, hxB, hyB, hvalueB⟩ := decode_spec hb
  obtain ⟨hX, hY⟩ := h
  rw [hzA, hzB, Nat.mul_one, Nat.mul_one, Nat.mod_eq_of_lt hxA, Nat.mod_eq_of_lt hxB] at hX
  rw [hzA, hzB, Nat.mul_one, Nat.mul_one, Nat.mod_eq_of_lt hyA, Nat.mod_eq_of_lt hyB] at hY
  refine fromBytesLittle_injective (hlenA.trans hlenB.symm) ?_
  rw [hvalueA, hvalueB, hX, hY]

/-! ## Keys -/

/-- What a text that resolves is made of. -/
theorem didKey_spec {s : Str} {A : Point} {raw : Bytes} (h : didKey (.str s) = some (A, raw)) :
    (∃ t, s = lit "did:key:z" ++ t ∧ fromBase58 t = some (0xED :: 0x01 :: raw)) ∧
      decode raw = some A := by
  unfold didKey at h
  dsimp only at h
  split at h
  next hprefix =>
    obtain ⟨t, rfl⟩ := List.isPrefixOf_iff_prefix.mp hprefix.1
    have hdrop : (lit "did:key:z" ++ t).drop 9 = t := rfl
    rw [hdrop] at h
    split at h
    next full hfull =>
      split at h
      next hhead =>
        obtain ⟨B, hB, heq⟩ := Option.map_eq_some_iff.mp h
        obtain ⟨rfl, rfl⟩ := Prod.mk.inj heq
        refine ⟨⟨t, rfl, ?_⟩, ?_⟩
        · rw [hfull]
          conv_lhs => rw [← List.take_append_drop 2 full, hhead.2]
          rfl
        · unfold resolveKey at hB
          split at hB
          next C hC =>
            split at hB
            next => cases hB
            next => rw [hC, hB]
          next => cases hB
      next => cases h
    next => cases h
  next => cases h

/-- Two texts that resolve to one raw key, or to one point of the curve, are one text. -/
theorem didKey_eq_iff {s t : Str} {A B : Point} {a b : Bytes}
    (hs : didKey (.str s) = some (A, a)) (ht : didKey (.str t) = some (B, b)) :
    (a = b ∨ SamePoint A B) ↔ s = t := by
  constructor
  · intro h
    obtain ⟨⟨s', rfl, hfull⟩, hA⟩ := didKey_spec hs
    obtain ⟨⟨t', rfl, hfull'⟩, hB⟩ := didKey_spec ht
    have hraw : a = b := by
      rcases h with hraw | hpoint
      · exact hraw
      · exact decode_injective hA hB hpoint
    rw [hraw] at hfull
    rw [fromBase58_injective hfull hfull']
  · intro h
    rw [h] at hs
    exact Or.inl (Prod.mk.inj (Option.some.inj (hs.symm.trans ht))).2

/-- The two keys of the sample bundle are two raw keys and two points. -/
theorem sampleKeys_differ : ∃ s t A B a b, sampleCaller = .str s ∧ sampleProvider = .str t ∧
    didKey (.str s) = some (A, a) ∧ didKey (.str t) = some (B, b) ∧ ¬(a = b ∨ SamePoint A B) := by
  have hcaller : (didKey sampleCaller).isSome = true := by decide +kernel
  have hprovider : (didKey sampleProvider).isSome = true := by decide +kernel
  obtain ⟨⟨A, a⟩, hA⟩ := Option.isSome_iff_exists.mp hcaller
  obtain ⟨⟨B, b⟩, hB⟩ := Option.isSome_iff_exists.mp hprovider
  refine ⟨_, _, A, B, a, b, rfl, rfl, hA, hB, ?_⟩
  rw [didKey_eq_iff hA hB]
  decide

end Preaction.Nenrin
