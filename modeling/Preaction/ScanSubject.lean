import Preaction.Lib.MerklePath
import Preaction.Py.Runtime

/-!
# `scan-subject-binding/check.py` — the corpus tree and its inclusion proofs

A corpus is the recursive Merkle root over the hashes of its documents. A
consumed document carries an inclusion proof, which `verify_inclusion` runs from
the leaf up with two counters that shift right together.

The loop climbs the levels of the tree: at every step the two counters are a
place in a level and the place of its last value (`step_joined`), and the inner
`while` skips the levels on which the last value is promoted
(`dropZeros_promoted`). So it accepts the audit path of every leaf, and nothing
else at that size and root (`verifyInclusion_iff_path`).

Mirroring notes:
- `path` stands in `build.py`, next to the same `mth`; the checker only reads
  the paths that it wrote.
- A leaf and the elements of a path are bytes here; the caller reads them with
  `bytes.fromhex`.
- `mth` of an empty list recurses without end; here it is none.
-/

namespace Preaction.ScanSubject

open Preaction.Py Preaction.Merkle

variable (R : Runtime)

/-- `b"\x01" + l + r` -/
def nodeInput (l r : Bytes) : Bytes := 1 :: (l ++ r)

/-- `H(b"\x01" + l + r)` -/
def node (l r : Bytes) : Bytes := R.sha256 (nodeInput l r)

/-- `mth(ls)` -/
def mth (ls : List Bytes) : Option Bytes := Merkle.mth (node R) ls

/-- `path(leaves, m)` -/
def path (leaves : List Bytes) (m : Nat) : List Bytes := auditPath (node R) leaves m

/-- `"sha256:" + r.hex()` -/
def digestText (r : Bytes) : Str := lit "sha256:" ++ hexStr r

/-- `while fn & 1 == 0 and fn != 0: fn >>= 1; sn >>= 1` -/
def dropZeros (fn sn : Nat) : Nat × Nat :=
  if fn % 2 = 0 ∧ fn ≠ 0 then dropZeros (fn / 2) (sn / 2) else (fn, sn)
termination_by fn

/-- What the body of the loop hashes. -/
def stepInput (fn sn : Nat) (r p : Bytes) : Bytes :=
  if fn % 2 = 1 ∨ fn = sn then nodeInput p r else nodeInput r p

/-- The two counters after the body of the loop. -/
def stepIndex (fn sn : Nat) : Nat × Nat :=
  let shifted := if fn % 2 = 0 ∧ fn = sn then dropZeros fn sn else (fn, sn)
  (shifted.1 / 2, shifted.2 / 2)

/-- The loop over the path, with `sn` and `r` after it; none where it returns `False`. -/
def inclusionLoop (fn sn : Nat) (r : Bytes) : List Bytes → Option (Nat × Bytes)
  | [] => some (sn, r)
  | p :: ps =>
    if sn = 0 then none
    else inclusionLoop (stepIndex fn sn).1 (stepIndex fn sn).2 (R.sha256 (stepInput fn sn r p)) ps

/-- `verify_inclusion(lf, index, size, path, want_root)` -/
def verifyInclusion (lf : Bytes) (index size : Nat) (path : List Bytes) (wantRoot : Str) : Bool :=
  if size ≤ index then false
  else match inclusionLoop R index (size - 1) lf path with
    | none => false
    | some (sn, r) => sn == 0 && digestText r == wantRoot

/-! ## What is hashed -/

/-- Everything that `mth` hashes. -/
def mthInputs (ls : List Bytes) : List Bytes := Merkle.mthInputs (node R) nodeInput ls

/-- Everything that the loop hashes. -/
def loopInputs (fn sn : Nat) (r : Bytes) : List Bytes → List Bytes
  | [] => []
  | p :: ps => stepInput fn sn r p ::
      loopInputs (stepIndex fn sn).1 (stepIndex fn sn).2 (R.sha256 (stepInput fn sn r p)) ps

variable {R}

theorem nodeInput_inj {l r l' r' : Bytes} (hlen : l.length = l'.length)
    (h : nodeInput l r = nodeInput l' r') : l = l' ∧ r = r' :=
  List.append_inj (List.cons.inj h).2 hlen

/-! ## One step of the loop -/

/-- Where the last value of a level is promoted, the inner loop goes up to the level
on which it has a sibling. -/
theorem dropZeros_promoted {n : Nat} (heven : n % 2 = 0) (hn : n ≠ 0) {xs : List Bytes}
    (hlen : xs.length = n + 1) : ∃ t ys, dropZeros n n = (t, t) ∧ t % 2 = 1 ∧ t ≤ n ∧
      Above (node R) nodeInput xs ys ∧ ys.length = t + 1 ∧ ys[t]? = xs[n]? ∧
        levelPath (node R) ys t = levelPath (node R) xs n := by
  induction n using Nat.strongRecOn generalizing xs with
  | ind n ih =>
    obtain ⟨k, rfl⟩ : ∃ k, n = 2 * k := ⟨n / 2, by omega⟩
    have hup := levelUp_length (node R) id xs
    have habove := above_levelUp (node R) nodeInput xs
    have hget := levelUp_last (node R) (i := k) hlen.symm
    have hpath := levelPath_last (node R) (i := k) hlen.symm
    rw [dropZeros, if_pos ⟨heven, hn⟩, show 2 * k / 2 = k by omega]
    by_cases hodd : k % 2 = 1
    · refine ⟨k, levelUp (node R) id xs, ?_, hodd, by omega, habove, by omega, hget, hpath⟩
      rw [dropZeros, if_neg (by omega)]
    · obtain ⟨t, ys, hdrop, ht, hle, hys, hyslen, hyget, hypath⟩ :=
        @ih k (by omega) (by omega) (by omega) (levelUp (node R) id xs) (by omega)
      exact ⟨t, ys, hdrop, ht, by omega, habove.trans hys, hyslen, hyget.trans hget,
        hypath.trans hpath⟩

/-- A step of the loop, seen from a level of the tree: `x` is the value in place,
`s` the one it is joined with, and the counters go to the joined value. -/
structure Step (R : Runtime) (xs : List Bytes) (fn sn : Nat) (ys : List Bytes) (x s : Bytes) :
    Prop where
  value : xs[fn]? = some x
  above : Above (node R) nodeInput xs ys
  path : levelPath (node R) xs fn = s :: levelPath (node R) ys (stepIndex fn sn).1
  sibling : s ∈ xs ∨ ∃ l r, s = node R l r
  joined : ys[(stepIndex fn sn).1]? = some (R.sha256 (stepInput fn sn x s))
  input : stepInput fn sn x s ∈ climbInputs (node R) nodeInput xs
  length : ys.length = (stepIndex fn sn).2 + 1
  place : (stepIndex fn sn).1 ≤ (stepIndex fn sn).2
  shorter : (stepIndex fn sn).2 < sn

/-- Every step of the loop goes up to a level of the tree. -/
theorem step_joined {xs : List Bytes} {fn sn : Nat} (hlen : xs.length = sn + 1) (hfn : fn ≤ sn)
    (hsn : sn ≠ 0) : ∃ ys x s, Step R xs fn sn ys x s := by
  by_cases hlast : fn % 2 = 0 ∧ fn = sn
  · -- promoted: the value is first taken up to a level on which it is a right child
    obtain ⟨heven, rfl⟩ := hlast
    obtain ⟨t, ys, hdrop, ht, hle, habove, hyslen, hyget, hypath⟩ :=
      dropZeros_promoted (R := R) heven hsn hlen
    obtain ⟨x, s, h⟩ := @exists_joined _ _ (node R) nodeInput ys t (by omega)
      (Or.inl ht)
    have hidx : stepIndex fn fn = (t / 2, t / 2) := by
      unfold stepIndex
      rw [if_pos ⟨heven, rfl⟩, hdrop]
    have hinput : stepInput fn fn x s = nodeInput s x := if_pos (Or.inr rfl)
    have hup := levelUp_length (node R) id ys
    have hjoined := h.joined
    have hin := h.input
    rw [if_pos ht] at hjoined hin
    refine ⟨levelUp (node R) id ys, x, s, ?_⟩
    constructor
    · rw [← hyget, h.value]
    · exact habove.trans h.above
    · rw [hidx, ← hypath, h.path]
    · exact habove.made s h.sibling
    · rw [hidx, hinput]
      exact hjoined
    · rw [hinput]
      exact habove.inputs _ hin
    · rw [hidx]
      show _ = t / 2 + 1
      omega
    · rw [hidx]
    · rw [hidx]
      show t / 2 < fn
      omega
  · have hidx : stepIndex fn sn = (fn / 2, sn / 2) := by
      unfold stepIndex
      rw [if_neg hlast]
    obtain ⟨x, s, h⟩ := @exists_joined _ _ (node R) nodeInput xs fn (by omega)
      (by omega)
    have hup := levelUp_length (node R) id xs
    have hinput : stepInput fn sn x s = if fn % 2 = 1 then nodeInput s x else nodeInput x s := by
      unfold stepInput
      by_cases hodd : fn % 2 = 1
      · rw [if_pos hodd, if_pos (Or.inl hodd)]
      · rw [if_neg hodd, if_neg (by omega)]
    refine ⟨levelUp (node R) id xs, x, s, ?_⟩
    constructor
    · exact h.value
    · exact h.above
    · rw [hidx, h.path]
    · exact Or.inl h.sibling
    · rw [hidx, hinput, h.joined, apply_ite R.sha256]
      rfl
    · rw [hinput]
      exact h.input
    · rw [hidx]
      show _ = sn / 2 + 1
      omega
    · rw [hidx]
      show fn / 2 ≤ sn / 2
      omega
    · rw [hidx]
      show sn / 2 < sn
      omega

/-! ## A whole run -/

/-- Over the one value of the last level, the root is that value. -/
theorem root_of_last {xs : List Bytes} (hlen : xs.length = 0 + 1) {root : Bytes}
    (hroot : Merkle.root (node R) id xs = some root) : xs[0]? = some root := by
  obtain ⟨x, rfl⟩ := List.length_eq_one_iff.mp hlen
  exact hroot

/-- The loop takes a value and its path to the root. -/
theorem loop_path {fn sn : Nat} {xs : List Bytes} {x root : Bytes} (hlen : xs.length = sn + 1)
    (hfn : fn ≤ sn) (hx : xs[fn]? = some x) (hroot : Merkle.root (node R) id xs = some root) :
    inclusionLoop R fn sn x (levelPath (node R) xs fn) = some (0, root) := by
  induction sn using Nat.strongRecOn generalizing fn xs x with
  | ind sn ih =>
    by_cases hsn : sn = 0
    · subst hsn
      obtain rfl : fn = 0 := by omega
      rw [levelPath_short (by omega), inclusionLoop]
      rw [root_of_last hlen hroot] at hx
      rw [Option.some.inj hx]
    · obtain ⟨ys, x', s, h⟩ := step_joined hlen hfn hsn
      obtain rfl : x' = x := Option.some.inj (h.value.symm.trans hx)
      rw [h.path, inclusionLoop, if_neg hsn]
      exact ih _ h.shorter h.length h.place h.joined (h.above.root_eq.trans hroot)

/-- A run that ends in the root started from the value in place, and read its path. -/
theorem path_of_loop (hsha : ∀ b, (R.sha256 b).length = 32) {path : List Bytes} {fn sn : Nat}
    {xs : List Bytes} {r root : Bytes} (hlen : xs.length = sn + 1) (hfn : fn ≤ sn)
    (hxs : ∀ x ∈ xs, x.length = 32) (hpath : ∀ p ∈ path, p.length = 32)
    (hinj : ∀ a ∈ climbInputs (node R) nodeInput xs, ∀ b ∈ loopInputs R fn sn r path,
      R.sha256 a = R.sha256 b → a = b)
    (hroot : Merkle.root (node R) id xs = some root)
    (h : inclusionLoop R fn sn r path = some (0, root)) (hr : r.length = 32) :
    xs[fn]? = some r ∧ path = levelPath (node R) xs fn := by
  induction path generalizing fn sn xs r with
  | nil =>
    obtain ⟨rfl, rfl⟩ := Prod.mk.inj (Option.some.inj h)
    obtain rfl : fn = 0 := by omega
    exact ⟨root_of_last hlen hroot, (levelPath_short (by omega) 0).symm⟩
  | cons p ps ih =>
    rw [inclusionLoop] at h
    by_cases hsn : sn = 0
    · rw [if_pos hsn] at h
      cases h
    rw [if_neg hsn] at h
    obtain ⟨ys, x, s, hstep⟩ := step_joined hlen hfn hsn
    have hmade (y : Bytes) (hy : y ∈ xs ∨ ∃ l r, y = node R l r) : y.length = 32 := by
      rcases hy with hy | ⟨l, r, rfl⟩
      · exact hxs y hy
      · exact hsha _
    have hys : ∀ y ∈ ys, y.length = 32 := fun y hy => hmade y (hstep.above.made y hy)
    obtain ⟨hval, hps⟩ := ih hstep.length hstep.place hys
      (fun q hq => hpath q (List.mem_cons_of_mem _ hq))
      (fun a ha b hb => hinj a (hstep.above.inputs a ha) b (List.mem_cons_of_mem _ hb))
      (hstep.above.root_eq.trans hroot) h (hsha _)
    -- the joined values are hashes of one input, so their parts are the same
    have hhash : R.sha256 (stepInput fn sn x s) = R.sha256 (stepInput fn sn r p) :=
      Option.some.inj (hstep.joined.symm.trans hval)
    have hin := hinj _ hstep.input _ (List.mem_cons_self ..) hhash
    have hx : x.length = 32 := hxs x (List.mem_of_getElem? hstep.value)
    have hparts : x = r ∧ s = p := by
      unfold stepInput at hin
      by_cases hleft : fn % 2 = 1 ∨ fn = sn
      · rw [if_pos hleft, if_pos hleft] at hin
        obtain ⟨hs, hx⟩ := nodeInput_inj
          ((hmade s hstep.sibling).trans (hpath p (List.mem_cons_self ..)).symm) hin
        exact ⟨hx, hs⟩
      · rw [if_neg hleft, if_neg hleft] at hin
        exact nodeInput_inj (hx.trans hr.symm) hin
    obtain ⟨rfl, rfl⟩ := hparts
    exact ⟨hstep.value, by rw [hstep.path, hps]⟩

/-! ## What `verify_inclusion` accepts -/

theorem digestText_injective : Function.Injective digestText := fun _ _ h =>
  hexStr_injective (List.append_cancel_left h)

/-- Accepted is a run that ends on the last level with the wanted root. -/
theorem verifyInclusion_true {lf root : Bytes} {index size : Nat} {path : List Bytes} :
    verifyInclusion R lf index size path (digestText root) = true ↔
      index < size ∧ inclusionLoop R index (size - 1) lf path = some (0, root) := by
  unfold verifyInclusion
  by_cases hlt : size ≤ index
  · rw [if_pos hlt]
    exact ⟨nofun, fun h => absurd h.1 (by omega)⟩
  · rw [if_neg hlt]
    cases inclusionLoop R index (size - 1) lf path with
    | none => exact ⟨nofun, fun h => nomatch h.2⟩
    | some p =>
      obtain ⟨sn, r⟩ := p
      show (sn == 0 && digestText r == digestText root) = true ↔ _
      rw [Bool.and_eq_true, beq_iff_eq, beq_iff_eq, digestText_injective.eq_iff]
      constructor
      · intro h
        exact ⟨by omega, by rw [h.1, h.2]⟩
      · intro h
        exact Prod.mk.inj (Option.some.inj h.2)

/-- `verify_inclusion` accepts every leaf of a tree with its audit path; and at the
size and the root of the tree it accepts a leaf at an index and a path only where
they are that leaf and its path, as long as no two of the inputs hashed collide. -/
theorem verifyInclusion_iff_path {ls : List Bytes} (hne : ls ≠ [])
    (h32 : ∀ l ∈ ls, l.length = 32) (hsha : ∀ b, (R.sha256 b).length = 32) :
    ∃ root, mth R ls = some root ∧
      (∀ i (hi : i < ls.length),
        verifyInclusion R ls[i] i ls.length (path R ls i) (digestText root) = true) ∧
      ∀ (index : Nat) (lf : Bytes) (ps : List Bytes), lf.length = 32 →
        (∀ p ∈ ps, p.length = 32) →
        (∀ a ∈ mthInputs R ls, ∀ b ∈ loopInputs R index (ls.length - 1) lf ps,
          R.sha256 a = R.sha256 b → a = b) →
        verifyInclusion R lf index ls.length ps (digestText root) = true →
          index < ls.length ∧ ls[index]? = some lf ∧ ps = path R ls index := by
  obtain ⟨root, hroot⟩ := exists_mth (node R) hne
  have hroot' : Merkle.root (node R) id ls = some root := (root_eq_mth ls).trans hroot
  refine ⟨root, hroot, ?_, ?_⟩
  · intro i hi
    refine verifyInclusion_true.mpr ⟨hi, ?_⟩
    unfold path
    rw [← levelPath_eq_auditPath hi]
    exact loop_path (by omega) (by omega) (List.getElem?_eq_getElem hi) hroot'
  · intro index lf ps hlf hps hinj h
    obtain ⟨hlt, hrun⟩ := verifyInclusion_true.mp h
    obtain ⟨hval, hpath⟩ := path_of_loop hsha (by omega) (by omega) h32 hps
      (fun a ha b hb => hinj a (mem_mthInputs_of_climb ha) b hb) hroot' hrun hlf
    exact ⟨hlt, hval, by rw [hpath, levelPath_eq_auditPath hlt]; rfl⟩

/-- A runtime whose hashes of two joined values differ: a checksum in the last byte. -/
def sampleRuntime : Runtime :=
  { Runtime.sample with
    sha256 := fun b => List.replicate 31 0 ++ [b.foldl (fun h x => 31 * h + x) 7] }

/-- The hash of the `n`-th document of a corpus to run. -/
def sampleLeaf (n : UInt8) : Bytes := sampleRuntime.sha256 [0, n]

/-- Three leaves: the last one is promoted on the first level. -/
def sampleLeaves : List Bytes := [sampleLeaf 1, sampleLeaf 2, sampleLeaf 3]

/-- The hash over the first two of them. -/
def samplePair : Bytes := node sampleRuntime (sampleLeaf 1) (sampleLeaf 2)

/-- The last of three leaves is accepted with its path of one element. -/
theorem sampleLeaves_path : ∃ root, mth sampleRuntime sampleLeaves = some root ∧
    verifyInclusion sampleRuntime (sampleLeaf 3) 2 3 (path sampleRuntime sampleLeaves 2)
      (digestText root) = true ∧
    sampleLeaves[2]? = some (sampleLeaf 3) ∧ [samplePair] = path sampleRuntime sampleLeaves 2 := by
  obtain ⟨root, hroot, hcomplete, hsound⟩ := @verifyInclusion_iff_path sampleRuntime
    sampleLeaves (by decide) (by decide) fun _ => by
      rw [sampleRuntime, List.length_append, List.length_replicate, List.length_singleton]
  obtain rfl : root = node sampleRuntime samplePair (sampleLeaf 3) := by
    have hrun : mth sampleRuntime sampleLeaves =
        some (node sampleRuntime samplePair (sampleLeaf 3)) := by decide +kernel
    exact Option.some.inj (hroot.symm.trans hrun)
  obtain ⟨-, hval, hpath⟩ := hsound 2 (sampleLeaf 3) [samplePair] (by decide) (by decide +kernel)
    (by decide +kernel) (by decide +kernel)
  exact ⟨_, hroot, hcomplete 2 (by decide), hval, hpath⟩

end Preaction.ScanSubject
