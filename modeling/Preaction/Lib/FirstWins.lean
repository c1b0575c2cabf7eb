import Mathlib.Data.List.Sort
import Preaction.Lib.Loop

/-!
# Keeping the first of each kind, then sorting

A list of records is brought to a canonical form in two passes: of the records of one
identity the first is kept, and what is kept is sorted by a key. The form is meant to
depend on the set of records alone.

It does exactly where identity and key say everything of a record: two records with one
identity, or with one key, are equivalent (`canon_stable_iff`). For the one half, the
kept records then have distinct keys, and sorted they are determined by what they are. For the
other, either of two records can be put in front; the one in front is kept, and a
stable sort leaves it in front of the other.
-/

namespace Preaction.FirstWins

variable {α κ : Type} (same : α → α → Bool)

/-- The records kept, after those that were kept before. -/
def keep (seen : List α) : List α → List α
  | [] => seen
  | x :: xs => keep (if seen.any (same x) then seen else seen ++ [x]) xs

variable [LinearOrder κ] (key : α → κ)

/-- The canonical form. -/
def canon (xs : List α) : List α := (keep same [] xs).insertionSort fun a b => key a ≤ key b

variable {same key}

/-! ## What is kept -/

theorem mem_keep {seen xs : List α} {x : α} (h : x ∈ keep same seen xs) : x ∈ seen ∨ x ∈ xs := by
  induction xs generalizing seen with
  | nil => exact Or.inl h
  | cons y xs ih =>
    rw [keep] at h
    rcases ih h with hx | hx
    · split at hx
      · exact Or.inl hx
      · rcases List.mem_append.mp hx with hx | hx
        · exact Or.inl hx
        · exact Or.inr (List.mem_cons.mpr (Or.inl (List.mem_singleton.mp hx)))
    · exact Or.inr (List.mem_cons_of_mem _ hx)

/-- What was kept before stays in front. -/
theorem prefix_keep (seen xs : List α) : seen <+: keep same seen xs := by
  induction xs generalizing seen with
  | nil => exact List.prefix_refl _
  | cons x xs ih =>
    rw [keep]
    split
    · exact ih seen
    · exact (List.prefix_append _ _).trans (ih _)

/-- Of every record one with its identity is kept. -/
theorem exists_kept (hrefl : ∀ x, same x x = true) {seen xs : List α} {x : α}
    (h : x ∈ seen ∨ x ∈ xs) : ∃ y ∈ keep same seen xs, same x y = true := by
  induction xs generalizing seen with
  | nil => exact ⟨x, h.resolve_right List.not_mem_nil, hrefl x⟩
  | cons z xs ih =>
    rcases h with hx | hx
    · exact ⟨x, (prefix_keep seen _).mem hx, hrefl x⟩
    rcases List.mem_cons.mp hx with rfl | hx
    · rw [keep]
      by_cases hany : seen.any (same x) = true
      · obtain ⟨y, hy, hxy⟩ := List.any_eq_true.mp hany
        rw [if_pos hany]
        exact ⟨y, (prefix_keep seen xs).mem hy, hxy⟩
      · rw [if_neg hany]
        exact ⟨x, (prefix_keep _ xs).mem (List.mem_append_right _ (List.mem_singleton_self x)),
          hrefl x⟩
    · rw [keep]
      exact ih (Or.inr hx)

/-- No two records of one identity are kept. -/
theorem pairwise_keep (hsymm : ∀ x y, same x y = true → same y x = true) {seen xs : List α}
    (h : seen.Pairwise fun x y => same x y = false) :
    (keep same seen xs).Pairwise fun x y => same x y = false := by
  induction xs generalizing seen with
  | nil => exact h
  | cons x xs ih =>
    rw [keep]
    by_cases hany : seen.any (same x) = true
    · rw [if_pos hany]
      exact ih h
    · rw [if_neg hany]
      refine ih (List.pairwise_append.mpr ⟨h, List.pairwise_singleton _ _, fun y hy z hz => ?_⟩)
      obtain rfl := List.mem_singleton.mp hz
      rw [Bool.eq_false_iff]
      exact fun hyz => hany (List.any_eq_true.mpr ⟨y, hy, hsymm y z hyz⟩)

/-! ## The stable sort -/

/-- Sorting does not reorder the records of one key. -/
theorem filter_insertionSort (k : κ) (xs : List α) :
    (xs.insertionSort fun a b => key a ≤ key b).filter (fun x => key x = k) =
      xs.filter (fun x => key x = k) := by
  have hinsert (a : α) (s : List α) :
      (s.orderedInsert (fun a b => key a ≤ key b) a).filter (fun x => key x = k) =
        (a :: s).filter (fun x => key x = k) := by
    induction s with
    | nil => rfl
    | cons b s ih =>
      rw [List.orderedInsert_cons]
      by_cases hle : key a ≤ key b
      · rw [if_pos hle]
      · rw [if_neg hle]
        by_cases ha : key a = k
        · -- `b` is below the key and is filtered out on both sides
          have hb : ¬ key b = k := fun hb => hle (by rw [ha, hb])
          rw [List.filter_cons_of_neg (by simpa using hb), ih,
            List.filter_cons_of_pos (by simpa using ha),
            List.filter_cons_of_pos (by simpa using ha),
            List.filter_cons_of_neg (by simpa using hb)]
        · rw [List.filter_cons, ih, List.filter_cons_of_neg (by simpa using ha),
            List.filter_cons_of_neg (by simpa using ha), List.filter_cons]
  induction xs with
  | nil => rfl
  | cons x xs ih => rw [List.insertionSort_cons, hinsert, List.filter_cons, ih, List.filter_cons]

/-! ## When the order does not matter -/

/-- What identity, key and equivalence of records have to do with each other. -/
structure Lawful (same : α → α → Bool) (key : α → κ) (eqv : α → α → Prop) : Prop where
  same_refl : ∀ x, same x x = true
  same_symm : ∀ x y, same x y = true → same y x = true
  same_trans : ∀ x y z, same x y = true → same y z = true → same x z = true
  eqv_refl : ∀ x, eqv x x
  eqv_symm : ∀ x y, eqv x y → eqv y x
  eqv_trans : ∀ x y z, eqv x y → eqv y z → eqv x z
  same_of_eqv : ∀ x y, eqv x y → same x y = true
  key_of_eqv : ∀ x y, eqv x y → key x = key y

/-- Identity and key each say everything of a record. -/
def Agree (same : α → α → Bool) (key : α → κ) (eqv : α → α → Prop) (xs : List α) : Prop :=
  ∀ x ∈ xs, ∀ y ∈ xs, same x y = true ∨ key x = key y → eqv x y

variable {eqv : α → α → Prop}

/-- Lists with strictly rising keys that have equivalent records are equivalent record by
record. -/
theorem forall₂_of_strict (hkey : ∀ x y, eqv x y → key x = key y) {xs ys : List α}
    (hxs : xs.Pairwise fun a b => key a < key b) (hys : ys.Pairwise fun a b => key a < key b)
    (hxy : ∀ x ∈ xs, ∃ y ∈ ys, eqv x y) (hyx : ∀ y ∈ ys, ∃ x ∈ xs, eqv x y) :
    List.Forall₂ eqv xs ys := by
  induction xs generalizing ys with
  | nil =>
    cases ys with
    | nil => exact .nil
    | cons y ys =>
      obtain ⟨x, hx, -⟩ := hyx y (List.mem_cons_self ..)
      exact absurd hx List.not_mem_nil
  | cons x xs ih =>
    obtain ⟨hx, hxs⟩ := List.pairwise_cons.mp hxs
    cases ys with
    | nil =>
      obtain ⟨y, hy, -⟩ := hxy x (List.mem_cons_self ..)
      exact absurd hy List.not_mem_nil
    | cons y ys =>
      obtain ⟨hy, hys⟩ := List.pairwise_cons.mp hys
      -- the least key stands in front of both lists
      have hle : key y ≤ key x := by
        obtain ⟨z, hz, hxz⟩ := hxy x (List.mem_cons_self ..)
        rw [hkey x z hxz]
        rcases List.mem_cons.mp hz with rfl | hz
        · exact le_refl _
        · exact (hy z hz).le
      have hge : key x ≤ key y := by
        obtain ⟨z, hz, hzy⟩ := hyx y (List.mem_cons_self ..)
        rw [← hkey z y hzy]
        rcases List.mem_cons.mp hz with rfl | hz
        · exact le_refl _
        · exact (hx z hz).le
      have hhead : eqv x y := by
        obtain ⟨z, hz, hxz⟩ := hxy x (List.mem_cons_self ..)
        rcases List.mem_cons.mp hz with rfl | hz
        · exact hxz
        · exact absurd (hkey x z hxz) (hge.trans_lt (hy z hz)).ne
      refine .cons hhead (ih hxs hys (fun u hu => ?_) (fun v hv => ?_))
      · obtain ⟨v, hv, huv⟩ := hxy u (List.mem_cons_of_mem _ hu)
        rcases List.mem_cons.mp hv with rfl | hv
        · exact absurd (hkey u v huv) (hle.trans_lt (hx u hu)).ne'
        · exact ⟨v, hv, huv⟩
      · obtain ⟨u, hu, huv⟩ := hyx v (List.mem_cons_of_mem _ hv)
        rcases List.mem_cons.mp hu with rfl | hu
        · exact absurd (hkey u v huv) (hge.trans_lt (hy v hv)).ne
        · exact ⟨u, hu, huv⟩

theorem mem_canon {xs : List α} {x : α} : x ∈ canon same key xs ↔ x ∈ keep same [] xs :=
  (List.perm_insertionSort _ _).mem_iff

theorem mem_of_mem_canon {xs : List α} {x : α} (h : x ∈ canon same key xs) : x ∈ xs :=
  (mem_keep (mem_canon.mp h)).resolve_left List.not_mem_nil

/-- What the records agree in makes their keys distinct. -/
theorem strict_canon (hl : Lawful same key eqv) {xs : List α} (hagree : Agree same key eqv xs) :
    (canon same key xs).Pairwise fun a b => key a < key b := by
  have hsort : (canon same key xs).Pairwise fun a b => key a ≤ key b :=
    List.pairwise_insertionSort (fun a b => key a ≤ key b) _
  have hkept : (canon same key xs).Pairwise fun a b => same a b = false := by
    refine ((List.perm_insertionSort _ _).pairwise_iff fun {a b} hab => ?_).mpr
      (pairwise_keep hl.same_symm List.Pairwise.nil)
    rw [Bool.eq_false_iff]
    exact fun hba => Bool.eq_false_iff.mp hab (hl.same_symm b a hba)
  refine (hsort.and hkept).imp_of_mem fun {a b} ha hb ⟨hle, hne⟩ => lt_of_le_of_ne hle fun hkey => ?_
  have heqv := hagree a (mem_of_mem_canon ha) b (mem_of_mem_canon hb) (Or.inr hkey)
  exact Bool.eq_false_iff.mp hne (hl.same_of_eqv a b heqv)

/-- Where the records agree, the form depends on what records there are. -/
theorem canon_of_agree (hl : Lawful same key eqv) {xs ys : List α}
    (hmem : ∀ x, x ∈ xs ↔ x ∈ ys) (hagree : Agree same key eqv xs) :
    List.Forall₂ eqv (canon same key xs) (canon same key ys) := by
  have hagree' : Agree same key eqv ys := fun x hx y hy =>
    hagree x ((hmem x).mpr hx) y ((hmem y).mpr hy)
  have hcover {us vs : List α} (huv : ∀ x, x ∈ us → x ∈ vs) {x : α} (hx : x ∈ canon same key us) :
      ∃ y ∈ canon same key vs, same x y = true ∧ x ∈ us ∧ y ∈ vs := by
    have hxu := mem_of_mem_canon hx
    obtain ⟨y, hy, hxy⟩ :=
      exists_kept hl.same_refl (Or.inr (a := x ∈ ([] : List α)) (huv x hxu))
    have hyc : y ∈ canon same key vs := mem_canon.mpr hy
    exact ⟨y, hyc, hxy, hxu, mem_of_mem_canon hyc⟩
  refine forall₂_of_strict hl.key_of_eqv (strict_canon hl hagree) (strict_canon hl hagree')
    (fun x hx => ?_) (fun y hy => ?_)
  · obtain ⟨y, hy, hxy, hxs, hys⟩ := hcover (fun z => (hmem z).mp) hx
    exact ⟨y, hy, hagree x hxs y ((hmem y).mpr hys) (Or.inl hxy)⟩
  · obtain ⟨x, hx, hyx, hys, hxs⟩ := hcover (fun z => (hmem z).mpr) hy
    exact ⟨x, hx, hagree x hxs y ((hmem y).mpr hys) (Or.inl (hl.same_symm y x hyx))⟩

/-- The record in front is kept, and it stands in front of the others of its key. -/
theorem head_canon (same : α → α → Bool) (key : α → κ) (x : α) (xs : List α) :
    ∃ rest, (canon same key (x :: xs)).filter (fun z => key z = key x) = x :: rest := by
  obtain ⟨rest, hrest⟩ := @prefix_keep _ same [x] xs
  rw [canon, filter_insertionSort, keep, List.any_nil, if_neg Bool.false_ne_true, List.nil_append,
    ← hrest, List.singleton_append, List.filter_cons_of_pos (by simp)]
  exact ⟨_, rfl⟩

/-- Records in equivalent forms have equivalent ones of each key. -/
theorem forall₂_filter (hkey : ∀ x y, eqv x y → key x = key y) (k : κ) {xs ys : List α}
    (h : List.Forall₂ eqv xs ys) :
    List.Forall₂ eqv (xs.filter fun z => key z = k) (ys.filter fun z => key z = k) := by
  induction h with
  | nil => exact .nil
  | @cons x y xs ys hxy _ ih =>
    by_cases hk : key x = k
    · rw [List.filter_cons_of_pos (by simpa using hk),
        List.filter_cons_of_pos (by simpa using (hkey x y hxy).symm.trans hk)]
      exact .cons hxy ih
    · rw [List.filter_cons_of_neg (by simpa using hk),
        List.filter_cons_of_neg (by simpa using fun h => hk ((hkey x y hxy).trans h))]
      exact ih

theorem eq_of_same (hsymm : ∀ x y, same x y = true → same y x = true) {xs : List α}
    (h : xs.Pairwise fun x y => same x y = false) {x y : α} (hx : x ∈ xs) (hy : y ∈ xs)
    (hxy : same x y = true) : x = y := by
  induction h with
  | nil => exact absurd hx List.not_mem_nil
  | @cons z xs hz _ ih =>
    rcases List.mem_cons.mp hx with rfl | hx
    · rcases List.mem_cons.mp hy with rfl | hy
      · rfl
      · exact absurd hxy (by rw [hz y hy]; exact Bool.false_ne_true)
    · rcases List.mem_cons.mp hy with rfl | hy
      · exact absurd (hsymm _ _ hxy) (by rw [hz _ ‹_›]; exact Bool.false_ne_true)
      · exact ih hx hy

/-- Where either of two records can be in front they have to be equivalent. -/
theorem eqv_of_front (hl : Lawful same key eqv) {x y : α} {xs ys : List α}
    (h : List.Forall₂ eqv (canon same key (x :: xs)) (canon same key (y :: ys)))
    (hxy : same x y = true ∨ key x = key y) : eqv x y := by
  obtain ⟨restx, hx⟩ := head_canon same key x xs
  obtain ⟨resty, hy⟩ := head_canon same key y ys
  rcases hxy with hsame | hkey
  · -- the record of this identity in the second list is the one in front
    have hxmem : x ∈ canon same key (x :: xs) :=
      List.mem_of_mem_filter (hx ▸ List.mem_cons_self ..)
    have hymem : y ∈ canon same key (y :: ys) :=
      List.mem_of_mem_filter (hy ▸ List.mem_cons_self ..)
    obtain ⟨z, hz, hxz⟩ := Loop.exists_right h hxmem
    have hyz := hl.same_trans y x z (hl.same_symm x y hsame) (hl.same_of_eqv x z hxz)
    obtain rfl := eq_of_same hl.same_symm (pairwise_keep hl.same_symm List.Pairwise.nil)
      (mem_canon.mp hymem) (mem_canon.mp hz) hyz
    exact hxz
  · have hfilter := forall₂_filter hl.key_of_eqv (key x) h
    rw [hx, hkey, hy] at hfilter
    cases hfilter with
    | cons hab => exact hab

omit [LinearOrder κ] in
/-- Lists equivalent to one list are equivalent. -/
theorem Lawful.forall₂_trans (hl : Lawful same key eqv) {xs ys zs : List α}
    (hxy : List.Forall₂ eqv xs ys) (hxz : List.Forall₂ eqv xs zs) : List.Forall₂ eqv ys zs := by
  induction hxy generalizing zs with
  | nil =>
    cases hxz
    exact .nil
  | cons hab _ ih =>
    cases hxz with
    | cons hac htail => exact .cons (hl.eqv_trans _ _ _ (hl.eqv_symm _ _ hab) hac) (ih htail)

/-- **When the canonical form depends on the set of records alone.** Every reordering, with
any of the records repeated, gives an equivalent form exactly when the records agree. -/
theorem canon_stable_iff (hl : Lawful same key eqv) {xs : List α} :
    (∀ ys extra, (∀ x ∈ extra, x ∈ xs) → ys.Perm (xs ++ extra) →
      List.Forall₂ eqv (canon same key xs) (canon same key ys)) ↔ Agree same key eqv xs := by
  constructor
  · intro h x hx y hy hxy
    have hfront (z : α) (hz : z ∈ xs) : ∃ rest,
        List.Forall₂ eqv (canon same key xs) (canon same key (z :: rest)) := by
      obtain ⟨before, after, rfl⟩ := List.append_of_mem hz
      refine ⟨before ++ after, h _ [] (fun z hz => absurd hz List.not_mem_nil) ?_⟩
      rw [List.append_nil]
      exact List.perm_middle.symm
    obtain ⟨restx, hrestx⟩ := hfront x hx
    obtain ⟨resty, hresty⟩ := hfront y hy
    exact eqv_of_front hl (hl.forall₂_trans hrestx hresty) hxy
  · intro hagree ys extra hextra hperm
    refine canon_of_agree hl (fun x => ?_) hagree
    rw [hperm.mem_iff, List.mem_append]
    exact ⟨Or.inl, fun hx => hx.elim id (hextra x)⟩

end Preaction.FirstWins
