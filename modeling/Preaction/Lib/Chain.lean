import Mathlib.Data.List.Forall2
import Mathlib.Data.List.Induction
import Mathlib.Data.List.Nodup

/-!
# Linked logs

A log in which every entry names its predecessor: `prev e` is the link of
the entry before `e`, or a root for the first one, and `link e` is what the
next entry has to name. Hash-chained logs and chains of evidence are both
of this form; nothing here depends on what a link is.

A link determines the log below it. For two logs of one length with one head
that is `Linked.forall₂_of_head_eq`: when equal links come from entries that
are the same and name the same predecessor, they agree entry by entry. For any
two entries with one link it is `Linked.agree_below`, which needs no common
length or root. The induction runs from the head down, which is why the snoc
lemmas come first.

When no link occurs twice, the linked lists over the entries of one log are
its segments (`exists_linked_iff_infix`).
-/

namespace Preaction.Chain

variable {E L : Type} (prev : E → L) (link : E → L)

/-- Every entry names the link before it; the first one names `root`. -/
def Linked : L → List E → Prop
  | _, [] => True
  | root, e :: es => prev e = root ∧ Linked (link e) es

/-- The link the next entry has to name. -/
def head : L → List E → L
  | root, [] => root
  | _, e :: es => head (link e) es

variable {prev link}

theorem head_concat (root : L) (es : List E) (e : E) : head link root (es ++ [e]) = link e := by
  induction es generalizing root with
  | nil => rfl
  | cons x xs ih => exact ih (link x)

theorem linked_concat {root : L} {es : List E} {e : E} :
    Linked prev link root (es ++ [e]) ↔
      Linked prev link root es ∧ prev e = head link root es := by
  induction es generalizing root with
  | nil => exact ⟨fun h => ⟨trivial, h.1⟩, fun h => ⟨h.2, trivial⟩⟩
  | cons x xs ih =>
    rw [List.cons_append, Linked, ih, Linked, and_assoc]
    rfl

/-- Two logs of one length with one head agree entry by entry, when equal
links come from entries that are the same and name the same predecessor. -/
theorem Linked.forall₂_of_head_eq {same : E → E → Prop} {r s : L} {xs ys : List E}
    (hlink : ∀ a ∈ xs, ∀ b ∈ ys, link a = link b → same a b ∧ prev a = prev b)
    (hx : Linked prev link r xs) (hy : Linked prev link s ys) (hlen : xs.length = ys.length)
    (hhead : head link r xs = head link s ys) : List.Forall₂ same xs ys := by
  induction xs using List.reverseRecOn generalizing ys with
  | nil =>
    obtain rfl := List.length_eq_zero_iff.mp hlen.symm
    exact .nil
  | append_singleton xs a ih =>
    rcases List.eq_nil_or_concat ys with rfl | ⟨ys, b, rfl⟩
    · simp at hlen
    · rw [List.concat_eq_append] at hlink hy hlen hhead ⊢
      rw [head_concat, head_concat] at hhead
      obtain ⟨hxs, ha⟩ := linked_concat.mp hx
      obtain ⟨hys, hb⟩ := linked_concat.mp hy
      obtain ⟨hsame, hprev⟩ := hlink a (by simp) b (by simp) hhead
      have hrest : List.Forall₂ same xs ys := by
        refine ih (fun c hc d hd => hlink c ?_ d ?_) hxs hys (by simpa using hlen) ?_
        · exact List.mem_append_left _ hc
        · exact List.mem_append_left _ hd
        · rw [← ha, ← hb, hprev]
      exact List.rel_append hrest (.cons hsame .nil)

/-- Every entry but the first names the link of the one before it. -/
theorem Linked.prev_getElem_succ {root : L} {es : List E} (h : Linked prev link root es) {i : Nat}
    (hi : i + 1 < es.length) : prev es[i + 1] = link es[i] := by
  induction es generalizing root i with
  | nil => simp at hi
  | cons e es ih =>
    cases i with
    | zero =>
      cases es with
      | nil => simp at hi
      | cons f es => exact h.2.1
    | succ i => exact ih h.2 (by simpa using hi)

theorem Linked.prev_getElem_zero {root : L} {es : List E} (h : Linked prev link root es)
    (h0 : 0 < es.length) : prev es[0] = root := by
  cases es with
  | nil => simp at h0
  | cons e es => exact h.1

/-- From two entries with one link down, two logs agree as far as both go, when
equal links come from entries that are the same and name the same predecessor. -/
theorem Linked.agree_below {same : E → E → Prop} {r s : L} {xs ys : List E}
    (hlink : ∀ a ∈ xs, ∀ b ∈ ys, link a = link b → same a b ∧ prev a = prev b)
    (hx : Linked prev link r xs) (hy : Linked prev link s ys) {i j : Nat} (hi : i < xs.length)
    (hj : j < ys.length) (h : link xs[i] = link ys[j]) {k : Nat} (hki : k ≤ i) (hkj : k ≤ j) :
    same xs[i - k] ys[j - k] ∧ link xs[i - k] = link ys[j - k] := by
  have hmem {i j : Nat} (hi : i < xs.length) (hj : j < ys.length) (h : link xs[i] = link ys[j]) :=
    hlink xs[i] (List.getElem_mem hi) ys[j] (List.getElem_mem hj) h
  induction k with
  | zero => exact ⟨(hmem hi hj h).1, h⟩
  | succ k ih =>
    obtain ⟨-, hk⟩ := ih (by omega) (by omega)
    -- the two entries above name the links of these
    have hprev := (hmem (i := i - k) (j := j - k) (by omega) (by omega) hk).2
    have hstep : link xs[i - (k + 1)] = link ys[j - (k + 1)] := by
      have ha := hx.prev_getElem_succ (i := i - (k + 1)) (by omega)
      have hb := hy.prev_getElem_succ (i := j - (k + 1)) (by omega)
      simp only [show i - (k + 1) + 1 = i - k by omega,
        show j - (k + 1) + 1 = j - k by omega] at ha hb
      rw [← ha, ← hb, hprev]
    exact ⟨(hmem (by omega) (by omega) hstep).1, hstep⟩

/-! ## Segments -/

theorem linked_append {root : L} {xs ys : List E} :
    Linked prev link root (xs ++ ys) ↔
      Linked prev link root xs ∧ Linked prev link (head link root xs) ys := by
  induction xs generalizing root with
  | nil => exact ⟨fun h => ⟨trivial, h⟩, And.right⟩
  | cons x xs ih =>
    rw [List.cons_append, Linked, ih, Linked, and_assoc]
    rfl

/-- With links that occur once, a linked list over the entries of a log that
starts at the link of entry `i` goes on with entry `i + 1`. -/
theorem Linked.prefix_drop {root : L} {es l : List E} (h : Linked prev link root es)
    (hnd : (root :: es.map link).Nodup) {i : Nat} (hi : i < es.length)
    (hl : Linked prev link (link es[i]) l) (hmem : ∀ e ∈ l, e ∈ es) : l <+: es.drop (i + 1) := by
  induction l generalizing i with
  | nil => exact List.nil_prefix
  | cons b l ih =>
    obtain ⟨hb, hl⟩ := hl
    obtain ⟨j, hj, rfl⟩ := List.getElem_of_mem (hmem b (List.mem_cons_self ..))
    obtain ⟨hroot, hnd'⟩ := List.nodup_cons.mp hnd
    have hij : j = i + 1 := by
      cases j with
      | zero =>
        rw [h.prev_getElem_zero hj] at hb
        exact absurd (hb ▸ List.mem_map_of_mem (List.getElem_mem hi)) hroot
      | succ j =>
        rw [h.prev_getElem_succ hj] at hb
        have hj' : j < (es.map link).length := by rw [List.length_map]; omega
        have hi' : i < (es.map link).length := by rw [List.length_map]; exact hi
        have hji : (es.map link)[j] = (es.map link)[i] := by
          rw [List.getElem_map, List.getElem_map, hb]
        rw [hnd'.getElem_inj_iff.mp hji]
    subst hij
    rw [List.drop_eq_getElem_cons hj]
    exact List.cons_prefix_cons.mpr ⟨rfl, ih hj hl fun e he => hmem e (List.mem_cons_of_mem _ he)⟩

/-- With links that occur once, the lists over the entries of a log that are
linked are its segments. -/
theorem exists_linked_iff_infix {root : L} {es l : List E} (h : Linked prev link root es)
    (hnd : (root :: es.map link).Nodup) (hmem : ∀ e ∈ l, e ∈ es) :
    (∃ r, Linked prev link r l) ↔ l <:+: es := by
  constructor
  · rintro ⟨r, hl⟩
    cases l with
    | nil => exact List.nil_infix
    | cons a l =>
      obtain ⟨i, hi, rfl⟩ := List.getElem_of_mem (hmem a (List.mem_cons_self ..))
      have := h.prefix_drop hnd hi hl.2 fun e he => hmem e (List.mem_cons_of_mem _ he)
      have hcons : es[i] :: l <+: es.drop i := by
        rw [List.drop_eq_getElem_cons hi]
        exact List.cons_prefix_cons.mpr ⟨rfl, this⟩
      exact hcons.isInfix.trans (List.drop_suffix i es).isInfix
  · rintro ⟨p, s, rfl⟩
    rw [List.append_assoc] at h
    exact ⟨_, (linked_append.mp (linked_append.mp h).2).1⟩

end Preaction.Chain
