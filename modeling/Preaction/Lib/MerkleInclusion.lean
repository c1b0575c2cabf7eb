import Mathlib.Data.List.Induction
import Preaction.Lib.MerklePath

/-!
# Inclusion proofs with sides

A proof lists the siblings of a leaf from the leaf up, each with the side it stands on. Applying it
joins the leaf with one after the other (`applyProof`), and says nothing of an index or of a size.

Over the tree of a list the proofs are the paths of the tree: the ones a builder reads off the
levels are all there are (`at_root`), applying one gives the digest (`Tree.At.apply`), and where
nothing collides, what gives the digest is one of them (`Tree.at_of_apply`). So the sides of an
accepted proof are the index (`apply_eq_root_iff`).

Nothing here depends on what a hash is.
-/

namespace Preaction.Merkle

variable {α β H I : Type}

/-- The side a sibling stands on. -/
inductive Side
  | left
  | right
  deriving DecidableEq, Repr

/-- What a proof makes of a value. -/
def applyProof (node : β → β → β) : β → List (β × Side) → β
  | h, [] => h
  | h, (s, .right) :: rest => applyProof node (node h s) rest
  | h, (s, .left) :: rest => applyProof node (node s h) rest

theorem applyProof_append {node : β → β → β} (p q : List (β × Side)) :
    ∀ h, applyProof node h (p ++ q) = applyProof node (applyProof node h p) q := by
  induction p with
  | nil =>
    intro h
    rfl
  | cons step p ih =>
    intro h
    obtain ⟨s, side⟩ := step
    cases side with
    | left => exact ih _
    | right => exact ih _

/-! ## The builder -/

variable (node : β → β → β)

/-- Level above level, up to the one that holds the root. -/
def levels (cur : List β) : List (List β) :=
  if h : 1 < cur.length then cur :: levels (levelUp node id cur) else [cur]
termination_by cur.length
decreasing_by exact levelUp_length_lt node h

variable {node}

/-- The sibling of the value at `i`; none where it is promoted. -/
def beside (lvl : List β) (i : Nat) : Option (β × Side) :=
  if i % 2 = 0 ∧ i + 1 < lvl.length then lvl[i + 1]?.map (·, .right)
  else if i % 2 = 1 then lvl[i - 1]?.map (·, .left)
  else none

/-- The siblings above the value at `i`, level by level. -/
def proofAlong : List (List β) → Nat → List (β × Side)
  | [], _ => []
  | lvl :: lvls, i => (beside lvl i).toList ++ proofAlong lvls (i / 2)

/-- The proof for the leaf at `i`: the last level holds the root only. -/
def inclusionProof (lvls : List (List β)) (i : Nat) : List (β × Side) := proofAlong lvls.dropLast i

theorem levels_short {cur : List β} (h : ¬ 1 < cur.length) : levels node cur = [cur] := by
  rw [levels, dif_neg h]

theorem levels_ne_nil (cur : List β) : levels node cur ≠ [] := by
  rw [levels]
  split
  · exact List.cons_ne_nil _ _
  · exact List.cons_ne_nil _ _

/-- The last level holds the root. -/
theorem levels_root (cur : List β) :
    (levels node cur).getLast?.bind List.head? = root node id cur := by
  fun_induction levels node cur with
  | case1 cur hlong ih =>
    obtain ⟨lvl, lvls, hlvls⟩ := List.exists_cons_of_ne_nil (@levels_ne_nil β node
      (levelUp node id cur))
    rw [← root_levelUp, ← ih, hlvls, List.getLast?_cons_cons]
  | case2 cur hshort =>
    match cur, hshort with
    | [], _ => rfl
    | [x], _ => rfl
    | x :: y :: cur, hshort => exact absurd (Nat.one_lt_succ_succ cur.length) hshort

theorem inclusionProof_short {cur : List β} (h : ¬ 1 < cur.length) (i : Nat) :
    inclusionProof (levels node cur) i = [] := by
  rw [levels_short h]
  rfl

theorem inclusionProof_step {cur : List β} (h : 1 < cur.length) (i : Nat) :
    inclusionProof (levels node cur) i =
      (beside cur i).toList ++ inclusionProof (levels node (levelUp node id cur)) (i / 2) := by
  rw [levels, dif_pos h, inclusionProof, List.dropLast_cons_of_ne_nil (levels_ne_nil _)]
  rfl

theorem beside_add_two (x y : β) (lvl : List β) (i : Nat) :
    beside (x :: y :: lvl) (i + 2) = beside lvl i := by
  have hlen : (x :: y :: lvl).length = lvl.length + 2 := rfl
  unfold beside
  rw [hlen, Nat.add_mod_right]
  by_cases hpair : i % 2 = 0 ∧ i + 1 < lvl.length
  · have hpair' : i % 2 = 0 ∧ i + 2 + 1 < lvl.length + 2 := ⟨hpair.1, by omega⟩
    rw [if_pos hpair, if_pos hpair']
    rfl
  · have hpair' : ¬ (i % 2 = 0 ∧ i + 2 + 1 < lvl.length + 2) := by omega
    rw [if_neg hpair, if_neg hpair']
    by_cases hodd : i % 2 = 1
    · obtain ⟨k, rfl⟩ : ∃ k, i = k + 1 := ⟨i - 1, by omega⟩
      rw [if_pos hodd, if_pos hodd]
      rfl
    · rw [if_neg hodd, if_neg hodd]

/-! ## The paths of a tree -/

/-- A leaf of a tree and the digests beside its path, from the leaf up. -/
inductive Tree.At (digest : Tree α → H) : Tree α → α → List (H × Side) → Prop
  | leaf (a : α) : Tree.At digest (.leaf a) a []
  | left {l r : Tree α} {a : α} {p : List (H × Side)} (h : Tree.At digest l a p) :
      Tree.At digest (.node l r) a (p ++ [(digest r, .right)])
  | right {l r : Tree α} {a : α} {p : List (H × Side)} (h : Tree.At digest r a p) :
      Tree.At digest (.node l r) a (p ++ [(digest l, .left)])

theorem Tree.at_leaf {digest : Tree α → H} {a b : α} {p : List (H × Side)} :
    Tree.At digest (.leaf b) a p ↔ a = b ∧ p = [] := by
  constructor
  · intro h
    cases h
    exact ⟨rfl, rfl⟩
  · intro h
    obtain ⟨rfl, rfl⟩ := h
    exact .leaf a

theorem Tree.at_node {digest : Tree α → H} {l r : Tree α} {a : α} {p : List (H × Side)} :
    Tree.At digest (.node l r) a p ↔
      (∃ q, l.At digest a q ∧ p = q ++ [(digest r, .right)]) ∨
        ∃ q, r.At digest a q ∧ p = q ++ [(digest l, .left)] := by
  constructor
  · intro h
    cases h with
    | left h => exact Or.inl ⟨_, h, rfl⟩
    | right h => exact Or.inr ⟨_, h, rfl⟩
  · intro h
    rcases h with ⟨q, h, rfl⟩ | ⟨q, h, rfl⟩
    · exact .left h
    · exact .right h

/-- The paths through one level: those of the trees below, each with its sibling. -/
theorem at_levelUp (digest : Tree α → H) (a : α) (p : List (H × Side)) (ts : List (Tree α)) :
    ∀ F : Nat → List (H × Side),
      (∃ j t q, (levelUp Tree.node id ts)[j]? = some t ∧ t.At digest a q ∧ p = q ++ F j) ↔
        ∃ i t q, ts[i]? = some t ∧ t.At digest a q ∧
          p = q ++ ((beside (ts.map digest) i).toList ++ F (i / 2)) := by
  induction ts using levelUp.induct with
  | case1 x y ts ih =>
    intro F
    have hrest := ih fun j => F (j + 1)
    constructor
    · intro h
      obtain ⟨j, t, q, hj, hat, rfl⟩ := h
      cases j with
      | zero =>
        obtain rfl := Option.some.inj hj
        -- the first pair: the leaf is below the one tree or the other
        rcases Tree.at_node.mp hat with ⟨q, hx, rfl⟩ | ⟨q, hy, rfl⟩
        · exact ⟨0, x, q, rfl, hx, List.append_assoc _ _ _⟩
        · exact ⟨1, y, q, rfl, hy, List.append_assoc _ _ _⟩
      | succ j =>
        obtain ⟨i, t, q', hi, hat, heq⟩ := hrest.mp ⟨j, t, q, hj, hat, rfl⟩
        refine ⟨i + 2, t, q', hi, hat, ?_⟩
        rw [List.map_cons, List.map_cons, beside_add_two, heq]
        simp only [Nat.add_div_right, Nat.zero_lt_two]
    · intro h
      obtain ⟨i, t, q, hi, hat, hp⟩ := h
      cases i with
      | zero =>
        obtain rfl := Option.some.inj hi
        exact ⟨0, _, _, rfl, .left hat, hp.trans (List.append_assoc q [(digest y, .right)] _).symm⟩
      | succ i =>
        cases i with
        | zero =>
          obtain rfl := Option.some.inj hi
          exact ⟨0, _, _, rfl, .right hat, hp.trans (List.append_assoc q [(digest x, .left)] _).symm⟩
        | succ i =>
          rw [List.map_cons, List.map_cons, show i + 1 + 1 = i + 2 from rfl, beside_add_two] at hp
          simp only [Nat.add_div_right, Nat.zero_lt_two] at hp
          obtain ⟨j, t, q', hj, hat, heq⟩ := hrest.mpr ⟨i, t, q, hi, hat, hp⟩
          exact ⟨j + 1, t, q', hj, hat, heq⟩
  | case2 x =>
    intro F
    constructor
    · intro h
      obtain ⟨j, t, q, hj, hat, rfl⟩ := h
      cases j with
      | zero => exact ⟨0, t, q, hj, hat, rfl⟩
      | succ j => cases hj
    · intro h
      obtain ⟨i, t, q, hi, hat, rfl⟩ := h
      cases i with
      | zero => exact ⟨0, t, q, hi, hat, rfl⟩
      | succ i => cases hi
  | case3 =>
    intro F
    constructor
    · intro h
      obtain ⟨j, t, q, hj, -, -⟩ := h
      cases hj
    · intro h
      obtain ⟨i, t, q, hi, -, -⟩ := h
      cases hi

theorem map_levelUp {digest : Tree α → H} {node : H → H → H}
    (hdigest : ∀ l r, digest (.node l r) = node (digest l) (digest r)) (ts : List (Tree α)) :
    (levelUp Tree.node id ts).map digest = levelUp node id (ts.map digest) := by
  induction ts using levelUp.induct with
  | case1 x y ts ih => rw [levelUp, List.map_cons, hdigest, ih, List.map_cons, List.map_cons, levelUp]
  | case2 x => rfl
  | case3 => rfl

/-- **The builder's proofs are the paths of the tree.** -/
theorem at_root {digest : Tree α → H} {node : H → H → H}
    (hdigest : ∀ l r, digest (.node l r) = node (digest l) (digest r)) (a : α)
    (ts : List (Tree α)) : ∀ {t : Tree α} {p : List (H × Side)}, root Tree.node id ts = some t →
      (t.At digest a p ↔ ∃ i u q, ts[i]? = some u ∧ u.At digest a q ∧
        p = q ++ inclusionProof (levels node (ts.map digest)) i) := by
  fun_induction levels Tree.node ts with
  | case1 ts hlong ih =>
    intro t p hroot
    have hlong' : 1 < (ts.map digest).length := by rwa [List.length_map]
    rw [← root_levelUp] at hroot
    rw [ih hroot, at_levelUp, map_levelUp hdigest]
    simp only [inclusionProof_step hlong']
  | case2 ts hshort =>
    intro t p hroot
    have hshort' : ¬ 1 < (ts.map digest).length := by rwa [List.length_map]
    simp only [inclusionProof_short hshort', List.append_nil]
    match ts, hshort, hroot with
    | [u], _, hroot =>
      obtain rfl : u = t := Option.some.inj hroot
      constructor
      · intro h
        exact ⟨0, u, p, rfl, h, rfl⟩
      · intro h
        obtain ⟨i, u', q, hi, hat, rfl⟩ := h
        cases i with
        | zero =>
          obtain rfl := Option.some.inj hi
          exact hat
        | succ i => cases hi
    | u :: u' :: us, hshort, _ => exact absurd (Nat.one_lt_succ_succ us.length) hshort

/-! ## What a proof shows -/

variable (leafInput : α → I) (nodeInput : H → H → I) (hash : I → H)

/-- Everything that is hashed when a proof is applied. -/
def proofInputs : H → List (H × Side) → List I
  | _, [] => []
  | h, (s, .right) :: rest => nodeInput h s :: proofInputs (hash (nodeInput h s)) rest
  | h, (s, .left) :: rest => nodeInput s h :: proofInputs (hash (nodeInput s h)) rest

theorem proofInputs_append (p q : List (H × Side)) : ∀ h, proofInputs nodeInput hash h (p ++ q) =
    proofInputs nodeInput hash h p ++
      proofInputs nodeInput hash (applyProof (fun l r => hash (nodeInput l r)) h p) q := by
  induction p with
  | nil =>
    intro h
    rfl
  | cons step p ih =>
    intro h
    obtain ⟨s, side⟩ := step
    cases side with
    | left => exact congrArg (nodeInput s h :: ·) (ih _)
    | right => exact congrArg (nodeInput h s :: ·) (ih _)

variable {leafInput nodeInput hash}

/-- The path of a leaf gives the digest. -/
theorem Tree.At.apply {t : Tree α} {a : α} {p : List (H × Side)}
    (h : t.At (Tree.digest leafInput nodeInput hash) a p) :
    applyProof (fun l r => hash (nodeInput l r)) (hash (leafInput a)) p =
      t.digest leafInput nodeInput hash := by
  induction h with
  | leaf a => rfl
  | left h ih =>
    rw [applyProof_append, ih]
    rfl
  | right h ih =>
    rw [applyProof_append, ih]
    rfl

/-- What a proof gives is a hash. -/
theorem applyProof_hash {D : H → Prop} (hD : ∀ i, D (hash i)) (p : List (H × Side)) :
    ∀ h, D h → D (applyProof (fun l r => hash (nodeInput l r)) h p) := by
  induction p with
  | nil =>
    intro h hh
    exact hh
  | cons step p ih =>
    intro h hh
    obtain ⟨s, side⟩ := step
    cases side with
    | left => exact ih _ (hD _)
    | right => exact ih _ (hD _)

/-- Where nothing collides, what gives the digest is the path of that leaf. `D` is what every hash
satisfies, such as a length: one of two joined values that has it is enough to tell them apart. -/
theorem Tree.at_of_apply {D : H → Prop} (hD : ∀ i, D (hash i))
    (hnode : ∀ x y x' y', (D x ∧ D x') ∨ (D y ∧ D y') → nodeInput x y = nodeInput x' y' →
      x = x' ∧ y = y')
    (hsep : ∀ a x y, leafInput a ≠ nodeInput x y) {a : α} {p : List (H × Side)} :
    ∀ {t : Tree α},
      (∀ i ∈ leafInput a :: proofInputs nodeInput hash (hash (leafInput a)) p,
        ∀ j ∈ t.inputs leafInput nodeInput hash, hash i = hash j → i = j) →
      applyProof (fun l r => hash (nodeInput l r)) (hash (leafInput a)) p =
        t.digest leafInput nodeInput hash →
      ∃ b, leafInput b = leafInput a ∧ t.At (Tree.digest leafInput nodeInput hash) b p := by
  have hDt (t : Tree α) : D (t.digest leafInput nodeInput hash) := by
    cases t with
    | leaf b => exact hD _
    | node l r => exact hD _
  -- on the last sibling, which is beside a child of the root
  induction p using List.reverseRecOn with
  | nil =>
    intro t hinj h
    cases t with
    | leaf b =>
      have hab := hinj _ (List.mem_cons_self ..) _ (List.mem_singleton_self _) h
      exact ⟨b, hab.symm, .leaf b⟩
    | node l r =>
      have hab := hinj _ (List.mem_cons_self ..) _ (List.mem_cons_self ..) h
      exact absurd hab (hsep _ _ _)
  | append_singleton p step ih =>
    intro t hinj h
    obtain ⟨s, side⟩ := step
    have hDp := @applyProof_hash H I nodeInput hash D hD p _ (hD (leafInput a))
    rw [applyProof_append] at h
    rw [proofInputs_append] at hinj
    generalize hx : applyProof (fun l r => hash (nodeInput l r)) (hash (leafInput a)) p = x at *
    have hbelow {u : Tree α} (hu : ∀ j ∈ u.inputs leafInput nodeInput hash,
        j ∈ t.inputs leafInput nodeInput hash) :
        ∀ i ∈ leafInput a :: proofInputs nodeInput hash (hash (leafInput a)) p,
          ∀ j ∈ u.inputs leafInput nodeInput hash, hash i = hash j → i = j := by
      intro i hi j hj
      refine hinj i ?_ j (hu j hj)
      rw [← List.cons_append]
      exact List.mem_append_left _ hi
    cases t with
    | leaf b =>
      cases side with
      | left =>
        have hab := hinj (nodeInput s x) (by simp [proofInputs]) _ (List.mem_singleton_self _) h
        exact absurd hab.symm (hsep _ _ _)
      | right =>
        have hab := hinj (nodeInput x s) (by simp [proofInputs]) _ (List.mem_singleton_self _) h
        exact absurd hab.symm (hsep _ _ _)
    | node l r =>
      cases side with
      | left =>
        have hin := hinj (nodeInput s x) (by simp [proofInputs]) _ (List.mem_cons_self ..) h
        obtain ⟨rfl, hr⟩ := hnode _ _ _ _ (Or.inr ⟨hDp, hDt r⟩) hin
        have hsub : ∀ j ∈ r.inputs leafInput nodeInput hash,
            j ∈ (Tree.node l r).inputs leafInput nodeInput hash := by
          intro j hj
          exact List.mem_cons_of_mem _ (List.mem_append_right _ hj)
        obtain ⟨b, hab, hat⟩ := ih (hbelow hsub) hr
        exact ⟨b, hab, .right hat⟩
      | right =>
        have hin := hinj (nodeInput x s) (by simp [proofInputs]) _ (List.mem_cons_self ..) h
        obtain ⟨hl, rfl⟩ := hnode _ _ _ _ (Or.inl ⟨hDp, hDt l⟩) hin
        have hsub : ∀ j ∈ l.inputs leafInput nodeInput hash,
            j ∈ (Tree.node l r).inputs leafInput nodeInput hash := by
          intro j hj
          exact List.mem_cons_of_mem _ (List.mem_append_left _ hj)
        obtain ⟨b, hab, hat⟩ := ih (hbelow hsub) hl
        exact ⟨b, hab, .left hat⟩

/-- The paths of the tree over a list are the builder's proofs of its leaves. -/
theorem at_tree {xs : List α} {t : Tree α} (ht : tree id xs = some t) {a : α}
    {p : List (H × Side)} :
    t.At (Tree.digest leafInput nodeInput hash) a p ↔ ∃ i, xs[i]? = some a ∧
      p = inclusionProof (levels (fun l r => hash (nodeInput l r))
        (xs.map fun b => hash (leafInput b))) i := by
  have hmap : (xs.map Tree.leaf).map (Tree.digest leafInput nodeInput hash) =
      xs.map fun b => hash (leafInput b) := List.map_map
  have hroot := @at_root α H (Tree.digest leafInput nodeInput hash)
    (fun l r => hash (nodeInput l r)) (fun _ _ => rfl) a (xs.map Tree.leaf) t p ht
  rw [hmap] at hroot
  rw [hroot]
  constructor
  · intro h
    obtain ⟨i, u, q, hi, hat, rfl⟩ := h
    rw [List.getElem?_map, Option.map_eq_some_iff] at hi
    obtain ⟨b, hb, rfl⟩ := hi
    obtain ⟨rfl, rfl⟩ := Tree.at_leaf.mp hat
    exact ⟨i, hb, rfl⟩
  · intro h
    obtain ⟨i, hi, rfl⟩ := h
    refine ⟨i, .leaf a, [], ?_, .leaf a, rfl⟩
    rw [List.getElem?_map, hi]
    rfl

/-- **A proof gives the root exactly where it is the builder's proof of that leaf.** -/
theorem apply_eq_root_iff {D : H → Prop} (hD : ∀ i, D (hash i))
    (hnode : ∀ x y x' y', (D x ∧ D x') ∨ (D y ∧ D y') → nodeInput x y = nodeInput x' y' →
      x = x' ∧ y = y')
    (hsep : ∀ a x y, leafInput a ≠ nodeInput x y) {xs : List α} {a : α} {p : List (H × Side)}
    {r : H}
    (hinj : ∀ i ∈ leafInput a :: proofInputs nodeInput hash (hash (leafInput a)) p,
      ∀ j ∈ inputs leafInput nodeInput hash id xs, hash i = hash j → i = j)
    (hr : root (fun l r => hash (nodeInput l r)) id (xs.map fun b => hash (leafInput b)) = some r) :
    applyProof (fun l r => hash (nodeInput l r)) (hash (leafInput a)) p = r ↔
      ∃ i b, xs[i]? = some b ∧ leafInput b = leafInput a ∧
        p = inclusionProof (levels (fun l r => hash (nodeInput l r))
          (xs.map fun b => hash (leafInput b))) i := by
  rw [root_eq_digest leafInput nodeInput hash id id (fun _ => rfl), Option.map_eq_some_iff] at hr
  obtain ⟨t, ht, rfl⟩ := hr
  rw [inputs, ht, Option.map_some, Option.getD_some] at hinj
  constructor
  · intro h
    obtain ⟨b, hab, hat⟩ := Tree.at_of_apply hD hnode hsep hinj h
    obtain ⟨i, hi, hp⟩ := (at_tree ht).mp hat
    exact ⟨i, b, hi, hab, hp⟩
  · intro h
    obtain ⟨i, b, hi, hab, hp⟩ := h
    rw [← hab]
    exact ((at_tree ht).mpr ⟨i, hi, hp⟩).apply

end Preaction.Merkle
