import Preaction.WorkAcceptance.DerElements
import Preaction.WorkAcceptance.SignedTime

/-!
# Whether the search through a token ends

`_children` moves a position through a byte string and `_find_tstinfo` works a stack of
slices off. Neither has a bound, and the lengths that move the position are read from the
input without a check.

A length that the bytes do not have costs nothing: the slice is cut short, and the
position goes behind the end and ends the loop. Every element takes at least the two
bytes of its header (`length_of_tlvAt`), so the position moves on, and its value is that
much shorter than what it was read from.

Mirroring notes:
- `tlv` and `children` read what is left of the bytes; here are the position and the list
  of the source, and `children_of_ends` says that both read the same.
-/

namespace Preaction.WarCheck

open Preaction.Py Preaction.Loop
open TsaSig (byteAt span byteAt_eq drop_eq_of_byteAt span_eq_take)

/-! ## One element -/

/-- `_tlv(b, i)`: the tag, the value, and where the next element starts. -/
def tlvAt (b : Bytes) (i : Nat) : Except PyError (UInt8 × Bytes × Nat) := do
  let tag ← byteAt b i
  let ln ← byteAt b (i + 1)
  if ln.toNat < 0x80 then .ok (tag, span b (i + 2) (i + 2 + ln.toNat), i + 2 + ln.toNat)
  else
    let n := ln.toNat - 0x80
    let len := fromBytesBig (span b (i + 2) (i + 2 + n))
    .ok (tag, span b (i + 2 + n) (i + 2 + n + len), i + 2 + n + len)

/-- An index raises behind the end only. -/
theorem drop_of_byteAt_error {b : Bytes} {i : Nat} {e : PyError} (h : byteAt b i = .error e) :
    e = .indexError ∧ b.drop i = [] := by
  unfold byteAt at h
  split at h
  next => cases h
  next hnone =>
    exact ⟨(Except.error.inj h).symm, List.drop_eq_nil_of_le (List.getElem?_eq_none_iff.mp hnone)⟩

/-- What is read at a position is what is read from the bytes behind it. -/
theorem tlv_drop (b : Bytes) (i : Nat) :
    tlv (b.drop i) = (tlvAt b i).map fun r => (r.1, r.2.1, b.drop r.2.2) := by
  unfold tlvAt
  cases htag : byteAt b i with
  | error e =>
    obtain ⟨rfl, hnil⟩ := drop_of_byteAt_error htag
    rw [hnil]
    rfl
  | ok tag =>
    rw [drop_eq_of_byteAt htag, ok_bind]
    cases hln : byteAt b (i + 1) with
    | error e =>
      obtain ⟨rfl, hnil⟩ := drop_of_byteAt_error hln
      rw [hnil]
      rfl
    | ok ln =>
      rw [drop_eq_of_byteAt hln, ok_bind, tlv]
      by_cases hshort : ln.toNat < 0x80
      · rw [if_pos hshort, if_pos hshort, span_eq_take]
        simp only [Except.map, List.drop_drop]
      · rw [if_neg hshort, if_neg hshort]
        simp only [Except.map, List.drop_drop, span_eq_take]

/-- An element takes its header and its value: the position moves on. -/
theorem length_of_tlvAt {b v : Bytes} {i j : Nat} {t : UInt8} (h : tlvAt b i = .ok (t, v, j)) :
    i + 2 ≤ j ∧ v.length + 2 ≤ b.length := by
  obtain ⟨tag, -, h⟩ := bind_ok.mp h
  obtain ⟨ln, hln, h⟩ := bind_ok.mp h
  have hlt : i + 1 < b.length := by
    have hdrop := congrArg List.length (drop_eq_of_byteAt hln)
    rw [List.length_drop, List.length_cons] at hdrop
    omega
  split at h
  · simp only [Except.ok.injEq, Prod.mk.injEq] at h
    obtain ⟨-, rfl, rfl⟩ := h
    rw [span_eq_take, List.length_take, List.length_drop]
    omega
  · simp only [Except.ok.injEq, Prod.mk.injEq] at h
    obtain ⟨-, rfl, rfl⟩ := h
    rw [span_eq_take _ (i + 2 + _), List.length_take, List.length_drop]
    omega

/-! ## The loop of `_children` -/

/-- The body of the loop: the position and what has been read. -/
def childrenRound (b : Bytes) (s : Nat × List (UInt8 × Bytes)) :
    While.Round (Nat × List (UInt8 × Bytes)) (Except PyError (List (UInt8 × Bytes))) :=
  if s.1 < b.length then
    match tlvAt b s.1 with
    | .error e => .done (.error e)
    | .ok (t, v, j) => .next (j, s.2 ++ [(t, v)])
  else .done (.ok s.2)

/-- A round that goes on has read an element. -/
theorem childrenRound_next {b : Bytes} {s s' : Nat × List (UInt8 × Bytes)} :
    childrenRound b s = .next s' ↔ s.1 < b.length ∧
      ∃ t v j, tlvAt b s.1 = .ok (t, v, j) ∧ s' = (j, s.2 ++ [(t, v)]) := by
  unfold childrenRound
  by_cases hlt : s.1 < b.length
  · rw [if_pos hlt]
    cases htlv : tlvAt b s.1 with
    | error e => simp
    | ok r =>
      obtain ⟨t, v, j⟩ := r
      simp [hlt, eq_comm]
  · simp [hlt]

/-- The run gives what `children` gives, behind what had been read. -/
theorem children_of_ends {b : Bytes} {s : Nat × List (UInt8 × Bytes)}
    {states : List (Nat × List (UInt8 × Bytes))} {r : Except PyError (List (UInt8 × Bytes))}
    (h : While.Ends (childrenRound b) s states r) :
    r = (children (b.drop s.1)).map (s.2 ++ ·) := by
  induction h with
  | @done s r hround =>
    unfold childrenRound at hround
    by_cases hlt : s.1 < b.length
    · rw [if_pos hlt] at hround
      rw [children_eq (mt List.drop_eq_nil_iff.mp (Nat.not_le.mpr hlt)), tlv_drop]
      cases htlv : tlvAt b s.1 with
      | error e =>
        rw [htlv] at hround
        cases hround
        rfl
      | ok q =>
        rw [htlv] at hround
        cases hround
    · rw [if_neg hlt] at hround
      cases hround
      rw [List.drop_eq_nil_of_le (by omega)]
      show _ = Except.ok (s.2 ++ [])
      rw [List.append_nil]
  | next hround _ ih =>
    obtain ⟨hlt, t, v, j, htlv, rfl⟩ := childrenRound_next.mp hround
    rw [ih, children_eq (mt List.drop_eq_nil_iff.mp (Nat.not_le.mpr hlt)), tlv_drop, htlv]
    show (children (b.drop j)).map _ = (children (b.drop j) >>= _).map _
    cases children (b.drop j) with
    | error e => rfl
    | ok more =>
      show Except.ok (_ ++ [(t, v)] ++ more) = Except.ok (_ ++ (t, v) :: more)
      rw [List.append_assoc, List.singleton_append]

/-- The loop ends, and the position only grows. -/
theorem children_ends (b : Bytes) : ∃ states,
    While.Ends (childrenRound b) (0, []) states (children b) ∧ states.length ≤ b.length + 1 ∧
      (states.map Prod.fst).IsChain (· < ·) := by
  obtain ⟨states, r, hends, hlen⟩ : ∃ states r, While.Ends (childrenRound b) (0, []) states r ∧
      states.length ≤ b.length - 0 + 1 := by
    refine While.exists_ends (I := fun _ => True)
      (m := fun s : Nat × List (UInt8 × Bytes) => b.length - s.1) (fun s s' _ hround => ?_) trivial
    obtain ⟨hlt, t, v, j, htlv, rfl⟩ := childrenRound_next.mp hround
    have hstep := length_of_tlvAt htlv
    exact ⟨trivial, by omega⟩
  obtain rfl : r = children b := by
    rw [children_of_ends hends]
    show (children b).map ([] ++ ·) = children b
    cases children b with
    | error e => rfl
    | ok kids => rfl
  refine ⟨states, hends, hlen, (List.isChain_map _).mpr (hends.isChain.imp fun s s' hround => ?_)⟩
  obtain ⟨-, t, v, j, htlv, rfl⟩ := childrenRound_next.mp hround
  exact (Nat.lt_add_of_pos_right Nat.two_pos).trans_le (length_of_tlvAt htlv).1

/-! ## The loop of `_find_tstinfo` -/

/-- An element's value is shorter than what it was read from. -/
theorem length_of_mem_children {b : Bytes} {kids : List (UInt8 × Bytes)}
    (h : children b = .ok kids) : ∀ k ∈ kids, k.2.length < b.length := by
  intro k hk
  have hsum := sum_size_childrenAux h
  have hle := List.single_le_sum (fun _ _ => Nat.zero_le _) _
    (List.mem_map_of_mem (f := fun k : UInt8 × Bytes => k.2.length + 1) hk)
  exact hle.trans hsum

/-- Only values of the elements are pushed. -/
theorem length_of_mem_visit {b : Bytes} {vs : List Bytes} (h : visit b = .ok (.push vs)) :
    ∀ v ∈ vs, v.length < b.length := by
  intro v hv
  unfold visit at h
  split at h
  next =>
    cases h
    cases hv
  next kids hkids =>
    obtain ⟨k, hk, rfl⟩ := List.mem_map.mp ((sublist_of_scan h).mem hv)
    exact length_of_mem_children hkids k hk

/-- The loop ends: the slices on the stack become smaller together. -/
theorem findTstinfo_ends (b : Bytes) :
    ∃ states, While.Ends (Search.round visit) [b] states (findTstinfo b) := by
  have hsize (x : Bytes) (vs : List Bytes) (h : visit x = .ok (.push vs)) :
      (vs.map fun v : Bytes => v.length + 1).sum < x.length + 1 := sum_size_visit h
  obtain ⟨states, r, hends, -⟩ := Search.exists_ends hsize [b]
  obtain rfl : findTstinfo b = r :=
    Search.search_of_ends (fun _ => Nat.succ_pos _) hsize hends (by simp)
  exact ⟨states, hends⟩

/-- A round takes a slice from the stack and puts shorter ones on it. -/
def Shortens (stack stack' : List Bytes) : Prop :=
  ∃ (cur : Bytes) (rest vs : List Bytes), stack = cur :: rest ∧ stack' = vs.reverse ++ rest ∧
    ∀ v ∈ vs, v.length < cur.length

/-- **The two loops end**, whatever lengths the bytes claim. Each element that is read
moves the position on, the loop of `_children` ends with what `children` gives and
that of `_find_tstinfo` with what `findTstinfo` gives, and a slice that is put on the stack is
shorter than the one that it was read from. -/
theorem reading_ends (b : Bytes) :
    (∀ i t v j, tlvAt b i = .ok (t, v, j) → i < j ∧ v.length < b.length) ∧
    (∃ states, While.Ends (childrenRound b) (0, []) states (children b) ∧
      (states.map Prod.fst).IsChain (· < ·)) ∧
    (∃ states, While.Ends (Search.round visit) [b] states (findTstinfo b) ∧
      states.IsChain Shortens) ∧
    ∀ kids, children b = .ok kids → ∀ k ∈ kids, k.2.length < b.length := by
  refine ⟨fun i t v j h => ?_, ?_, ?_, fun kids h => length_of_mem_children h⟩
  · obtain ⟨hpos, hlen⟩ := length_of_tlvAt h
    omega
  · obtain ⟨states, hends, -, hchain⟩ := children_ends b
    exact ⟨states, hends, hchain⟩
  · obtain ⟨states, hends⟩ := findTstinfo_ends b
    refine ⟨states, hends, hends.isChain.imp fun stack stack' hround => ?_⟩
    obtain ⟨cur, rest, vs, rfl, hvisit, rfl⟩ := Search.round_next.mp hround
    exact ⟨cur, rest, vs, rfl, rfl, length_of_mem_visit hvisit⟩

end Preaction.WarCheck
