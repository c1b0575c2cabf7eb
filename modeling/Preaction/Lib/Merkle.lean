import Mathlib.Data.List.Basic

/-!
# Merkle roots over a list

A root is computed level by level: neighbours are joined by `node`, and an odd
last value becomes `odd` of it. With `odd x = x` the last value is promoted,
with `odd x = node x x` it is duplicated. Nothing here depends on what a hash
is.

The same loop can run over hashes, over trees and over lists of leaves, and
the three runs agree (`map_root`): the root is the digest of a tree, and the
leaves of that tree are the list (`leaves_promote`), or start with it
(`prefix_leaves_duplicate`). So what a root says about its list is a fact about
one tree against another (`Tree.leafInputs_eq`), whatever the two lengths:
trees with one digest have one shape and hash the same leaves, when no input of
a leaf is one of a node and the inputs of the two trees do not collide.
-/

namespace Preaction.Merkle

variable {α β γ H I : Type}

/-- One level up: neighbours are joined, an odd last value becomes `odd` of it. -/
def levelUp (node : β → β → β) (odd : β → β) : List β → List β
  | x :: y :: xs => node x y :: levelUp node odd xs
  | [x] => [odd x]
  | [] => []

/-- Level after level, until one value is left; `fuel` bounds their number. -/
def climb (node : β → β → β) (odd : β → β) : Nat → List β → List β
  | 0, xs => xs
  | fuel + 1, xs => if 1 < xs.length then climb node odd fuel (levelUp node odd xs) else xs

/-- The root over a list; none over the empty one. -/
def root (node : β → β → β) (odd : β → β) (xs : List β) : Option β :=
  (climb node odd xs.length xs).head?

theorem levelUp_length (node : β → β → β) (odd : β → β) (xs : List β) :
    (levelUp node odd xs).length = (xs.length + 1) / 2 := by
  induction xs using levelUp.induct with
  | case1 x y xs ih => simp only [levelUp, List.length_cons, ih]; omega
  | case2 x => simp [levelUp]
  | case3 => simp [levelUp]

/-- The loop ends with one value, or with none where it started with none. -/
theorem climb_length (node : β → β → β) (odd : β → β) {fuel : Nat} {xs : List β}
    (h : xs.length ≤ fuel) : (climb node odd fuel xs).length = min xs.length 1 := by
  induction fuel generalizing xs with
  | zero => rw [climb]; omega
  | succ fuel ih =>
    rw [climb]
    split
    next hlong =>
      have hup := levelUp_length node odd xs
      rw [ih (by omega)]
      omega
    next => omega

/-- There is no root over the empty list, and one over every other. -/
theorem root_eq_none {node : β → β → β} {odd : β → β} {xs : List β} :
    root node odd xs = none ↔ xs.length = 0 := by
  have hlen := climb_length node odd (Nat.le_refl xs.length)
  rw [root, List.head?_eq_none_iff, ← List.length_eq_zero_iff, hlen]
  omega

/-- A function that respects both operations maps one loop to the other. -/
theorem map_climb {node : β → β → β} {odd : β → β} {node' : γ → γ → γ} {odd' : γ → γ}
    {f : β → γ} (hnode : ∀ x y, f (node x y) = node' (f x) (f y))
    (hodd : ∀ x, f (odd x) = odd' (f x)) (fuel : Nat) (xs : List β) :
    (climb node odd fuel xs).map f = climb node' odd' fuel (xs.map f) := by
  have hup (xs : List β) : (levelUp node odd xs).map f = levelUp node' odd' (xs.map f) := by
    induction xs using levelUp.induct with
    | case1 x y xs ih => simp only [levelUp, List.map_cons, hnode, ih]
    | case2 x => simp only [levelUp, List.map_cons, List.map_nil, hodd]
    | case3 => rfl
  induction fuel generalizing xs with
  | zero => rfl
  | succ fuel ih =>
    rw [climb, climb, List.length_map]
    split
    next => rw [ih, hup]
    next => rfl

theorem map_root {node : β → β → β} {odd : β → β} {node' : γ → γ → γ} {odd' : γ → γ}
    {f : β → γ} (hnode : ∀ x y, f (node x y) = node' (f x) (f y))
    (hodd : ∀ x, f (odd x) = odd' (f x)) (xs : List β) :
    root node' odd' (xs.map f) = (root node odd xs).map f := by
  rw [root, root, List.length_map, ← map_climb hnode hodd, List.head?_map]

/-! ## Trees -/

/-- A binary tree with values at its leaves. -/
inductive Tree (α : Type)
  | leaf (a : α)
  | node (l r : Tree α)

namespace Tree

/-- The leaves from left to right. -/
def leaves : Tree α → List α
  | leaf a => [a]
  | node l r => l.leaves ++ r.leaves

/-- Both children of a node are the last tree of an odd level. -/
def duplicate (t : Tree α) : Tree α := node t t

variable (leafInput : α → I) (nodeInput : H → H → I) (hash : I → H)

/-- The hash of a tree: of the input of a leaf, or of the input of a node. -/
def digest : Tree α → H
  | leaf a => hash (leafInput a)
  | node l r => hash (nodeInput l.digest r.digest)

/-- Everything that is hashed on the way to the digest. -/
def inputs : Tree α → List I
  | leaf a => [leafInput a]
  | node l r =>
    nodeInput (l.digest leafInput nodeInput hash) (r.digest leafInput nodeInput hash) ::
      (l.inputs ++ r.inputs)

variable {leafInput nodeInput hash}

/-- Trees with one digest hash the same leaves in the same order. `D` is what
every digest satisfies, such as a length. -/
theorem leafInputs_eq {D : H → Prop} (hD : ∀ i, D (hash i))
    (hnode : ∀ x y x' y', D x → D x' → nodeInput x y = nodeInput x' y' → x = x' ∧ y = y')
    {t u : Tree α}
    (hsep : ∀ a ∈ t.leaves ++ u.leaves, ∀ x y, D x → leafInput a ≠ nodeInput x y)
    (hinj : ∀ i ∈ t.inputs leafInput nodeInput hash, ∀ j ∈ u.inputs leafInput nodeInput hash,
      hash i = hash j → i = j)
    (h : t.digest leafInput nodeInput hash = u.digest leafInput nodeInput hash) :
    t.leaves.map leafInput = u.leaves.map leafInput := by
  have hDt (t : Tree α) : D (t.digest leafInput nodeInput hash) := by
    cases t <;> exact hD _
  induction t generalizing u with
  | leaf a =>
    cases u with
    | leaf b =>
      have := hinj _ (by simp [inputs]) _ (by simp [inputs]) h
      simp only [leaves, List.map_cons, List.map_nil, this]
    | node l r =>
      have := hinj _ (by simp [inputs]) _ (by simp [inputs]) h
      exact absurd this (hsep a (by simp [leaves]) _ _ (hDt l))
  | node l r ihl ihr =>
    cases u with
    | leaf b =>
      have := hinj _ (by simp [inputs]) _ (by simp [inputs]) h
      exact absurd this.symm (hsep b (by simp [leaves]) _ _ (hDt l))
    | node l' r' =>
      have hin := hinj _ (by simp [inputs]) _ (by simp [inputs]) h
      obtain ⟨hl, hr⟩ := hnode _ _ _ _ (hDt l) (hDt l') hin
      have hleft : l.leaves.map leafInput = l'.leaves.map leafInput := by
        refine ihl (fun a ha => hsep a ?_) (fun i hi j hj => hinj i ?_ j ?_) hl
        · simp only [leaves, List.mem_append] at ha ⊢
          exact ha.imp Or.inl Or.inl
        · simp only [inputs, List.mem_cons, List.mem_append]
          exact Or.inr (Or.inl hi)
        · simp only [inputs, List.mem_cons, List.mem_append]
          exact Or.inr (Or.inl hj)
      have hright : r.leaves.map leafInput = r'.leaves.map leafInput := by
        refine ihr (fun a ha => hsep a ?_) (fun i hi j hj => hinj i ?_ j ?_) hr
        · simp only [leaves, List.mem_append] at ha ⊢
          exact ha.imp Or.inr Or.inr
        · simp only [inputs, List.mem_cons, List.mem_append]
          exact Or.inr (Or.inr hi)
        · simp only [inputs, List.mem_cons, List.mem_append]
          exact Or.inr (Or.inr hj)
      rw [leaves, leaves, List.map_append, List.map_append, hleft, hright]

end Tree

/-! ## The tree over a list -/

/-- The tree whose digest is the root over the list. -/
def tree (odd : Tree α → Tree α) (xs : List α) : Option (Tree α) :=
  root Tree.node odd (xs.map Tree.leaf)

/-- The root over the hashes of the leaves is the digest of the tree. -/
theorem root_eq_digest (leafInput : α → I) (nodeInput : H → H → I) (hash : I → H)
    (odd : Tree α → Tree α) (odd' : H → H)
    (hodd : ∀ t, (odd t).digest leafInput nodeInput hash =
      odd' (t.digest leafInput nodeInput hash)) (xs : List α) :
    root (fun l r => hash (nodeInput l r)) odd' (xs.map fun a => hash (leafInput a)) =
      (tree odd xs).map (Tree.digest leafInput nodeInput hash) := by
  have hmap : root (fun l r => hash (nodeInput l r)) odd'
      ((xs.map Tree.leaf).map (Tree.digest leafInput nodeInput hash)) =
      (root Tree.node odd (xs.map Tree.leaf)).map (Tree.digest leafInput nodeInput hash) :=
    map_root (fun _ _ => rfl) hodd _
  rwa [List.map_map] at hmap

/-- A non-empty list has a tree. -/
theorem exists_tree {odd : Tree α → Tree α} {xs : List α} (h : xs ≠ []) :
    ∃ t, tree odd xs = some t := by
  have hlen := climb_length Tree.node odd (Nat.le_refl (xs.map Tree.leaf).length)
  have hpos : 0 < xs.length := List.length_pos_iff.mpr h
  rw [List.length_map] at hlen
  cases hc : climb Tree.node odd (xs.map Tree.leaf).length (xs.map Tree.leaf) with
  | nil =>
    rw [List.length_map] at hc
    rw [hc, List.length_nil] at hlen
    omega
  | cons t ts => exact ⟨t, by rw [tree, root, hc]; rfl⟩

/-- The leaves of the tree, from the same loop over lists of leaves. -/
theorem leaves_of_tree {odd : Tree α → Tree α} (odd' : List α → List α)
    (hodd : ∀ t, (odd t).leaves = odd' t.leaves) {xs : List α} {t : Tree α}
    (h : tree odd xs = some t) :
    t.leaves = (climb (· ++ ·) odd' xs.length (xs.map fun a => [a])).flatten := by
  have hmap : (climb Tree.node odd xs.length (xs.map Tree.leaf)).map Tree.leaves =
      climb (· ++ ·) odd' xs.length ((xs.map Tree.leaf).map Tree.leaves) :=
    map_climb (fun _ _ => rfl) hodd xs.length (xs.map Tree.leaf)
  have hlen := climb_length Tree.node odd (Nat.le_refl (xs.map Tree.leaf).length)
  rw [tree, root, List.length_map] at h
  rw [List.length_map] at hlen
  rw [List.map_map] at hmap
  rw [show (xs.map fun a => [a]) = xs.map (Tree.leaves ∘ Tree.leaf) from rfl, ← hmap]
  cases hc : climb Tree.node odd xs.length (xs.map Tree.leaf) with
  | nil => rw [hc] at h; cases h
  | cons u us =>
    rw [hc] at h hlen
    obtain rfl := Option.some.inj h
    obtain rfl : us = [] := by
      rw [List.length_cons] at hlen
      exact List.length_eq_zero_iff.mp (by omega)
    simp

theorem flatten_singletons (xs : List α) : (xs.map fun a => [a]).flatten = xs := by
  rw [← List.flatMap_def]
  exact List.flatMap_singleton' xs

/-- Promoting keeps the leaves as they are. -/
theorem leaves_promote {xs : List α} {t : Tree α} (h : tree id xs = some t) : t.leaves = xs := by
  have hup (ls : List (List α)) : (levelUp (· ++ ·) id ls).flatten = ls.flatten := by
    induction ls using levelUp.induct with
    | case1 x y ls ih => simp only [levelUp, List.flatten_cons, ih, List.append_assoc]
    | case2 x => rfl
    | case3 => rfl
  have hclimb (fuel : Nat) (ls : List (List α)) :
      (climb (· ++ ·) id fuel ls).flatten = ls.flatten := by
    induction fuel generalizing ls with
    | zero => rfl
    | succ fuel ih =>
      rw [climb]
      split
      next => rw [ih, hup]
      next => rfl
  rw [leaves_of_tree id (fun _ => rfl) h, hclimb]
  exact flatten_singletons xs

/-- Duplicating only adds leaves after the list. -/
theorem prefix_leaves_duplicate {xs : List α} {t : Tree α}
    (h : tree Tree.duplicate xs = some t) : xs <+: t.leaves := by
  let odd (l : List α) := l ++ l
  have hup (ls : List (List α)) : ls.flatten <+: (levelUp (· ++ ·) odd ls).flatten := by
    induction ls using levelUp.induct with
    | case1 x y ls ih =>
      simp only [levelUp, List.flatten_cons]
      rw [← List.append_assoc]
      exact (List.prefix_append_right_inj _).mpr ih
    | case2 x => simp [levelUp, odd]
    | case3 => exact List.prefix_rfl
  have hclimb (fuel : Nat) (ls : List (List α)) :
      ls.flatten <+: (climb (· ++ ·) odd fuel ls).flatten := by
    induction fuel generalizing ls with
    | zero => exact List.prefix_rfl
    | succ fuel ih =>
      rw [climb]
      split
      next => exact (hup ls).trans (ih _)
      next => exact List.prefix_rfl
  rw [leaves_of_tree odd (fun _ => rfl) h]
  have := hclimb xs.length (xs.map fun a => [a])
  rwa [flatten_singletons] at this

/-- Duplicating adds no new leaf. -/
theorem mem_of_mem_leaves_duplicate {xs : List α} {t : Tree α}
    (h : tree Tree.duplicate xs = some t) {a : α} (ha : a ∈ t.leaves) : a ∈ xs := by
  let odd (l : List α) := l ++ l
  have hup (ls : List (List α)) (h : a ∈ (levelUp (· ++ ·) odd ls).flatten) : a ∈ ls.flatten := by
    induction ls using levelUp.induct with
    | case1 x y ls ih =>
      simp only [levelUp, List.flatten_cons, List.mem_append] at h ⊢
      rcases h with (h | h) | h
      · exact Or.inl h
      · exact Or.inr (Or.inl h)
      · exact Or.inr (Or.inr (ih h))
    | case2 x => simpa [levelUp, odd] using h
    | case3 => exact h
  have hclimb (fuel : Nat) (ls : List (List α)) (h : a ∈ (climb (· ++ ·) odd fuel ls).flatten) :
      a ∈ ls.flatten := by
    induction fuel generalizing ls with
    | zero => exact h
    | succ fuel ih =>
      rw [climb] at h
      split at h
      next => exact hup ls (ih _ h)
      next => exact h
  rw [leaves_of_tree odd (fun _ => rfl) h] at ha
  have := hclimb _ _ ha
  rwa [flatten_singletons] at this

/-- Everything that is hashed on the way to the root over a list. -/
def inputs (leafInput : α → I) (nodeInput : H → H → I) (hash : I → H) (odd : Tree α → Tree α)
    (xs : List α) : List I :=
  ((tree odd xs).map (Tree.inputs leafInput nodeInput hash)).getD []

/-- Two lists with one root: their trees hash the same leaves. -/
theorem leafInputs_eq_of_root_eq (leafInput : α → I) (nodeInput : H → H → I) (hash : I → H)
    (odd : Tree α → Tree α) (odd' : H → H) {D : H → Prop}
    (hodd : ∀ t, (odd t).digest leafInput nodeInput hash =
      odd' (t.digest leafInput nodeInput hash))
    (hD : ∀ i, D (hash i))
    (hnode : ∀ x y x' y', D x → D x' → nodeInput x y = nodeInput x' y' → x = x' ∧ y = y')
    {xs ys : List α} {r : H}
    (hsep : ∀ t ∈ tree odd xs, ∀ u ∈ tree odd ys, ∀ a ∈ t.leaves ++ u.leaves, ∀ x y, D x →
      leafInput a ≠ nodeInput x y)
    (hinj : ∀ i ∈ inputs leafInput nodeInput hash odd xs,
      ∀ j ∈ inputs leafInput nodeInput hash odd ys, hash i = hash j → i = j)
    (hx : root (fun l r => hash (nodeInput l r)) odd' (xs.map fun a => hash (leafInput a)) = some r)
    (hy : root (fun l r => hash (nodeInput l r)) odd' (ys.map fun a => hash (leafInput a)) = some r) :
    ∃ t u, tree odd xs = some t ∧ tree odd ys = some u ∧
      t.leaves.map leafInput = u.leaves.map leafInput := by
  rw [root_eq_digest leafInput nodeInput hash odd odd' hodd, Option.map_eq_some_iff] at hx hy
  obtain ⟨t, ht, hdt⟩ := hx
  obtain ⟨u, hu, hdu⟩ := hy
  refine ⟨t, u, ht, hu, Tree.leafInputs_eq hD hnode (hsep t ht u hu) ?_ (hdt.trans hdu.symm)⟩
  simpa only [inputs, ht, hu, Option.map_some, Option.getD_some] using hinj

end Preaction.Merkle
