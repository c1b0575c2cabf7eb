import Mathlib.Data.List.Forall2
import Mathlib.Data.List.Perm.Basic

/-!
# Loops that can stop with an error

A comprehension of a language with exceptions is a `mapM` or a filter in
`Except`: it visits every element and the first error ends it. A checker's
proof needs the same three facts about them over and over, so they are
stated once, for any error type:

- a successful `x >>= f` had a successful `x` (`bind_ok`);
- a successful map relates the two lists element by element;
- a successful filter keeps the elements of which the test is true, in order,
  and the test had a value on each element.
-/

namespace Preaction.Loop

variable {ε α β : Type}

/-! ## Lists related element by element -/

theorem exists_right {r : α → β → Prop} {xs : List α} {ys : List β} (h : List.Forall₂ r xs ys)
    {x : α} (hx : x ∈ xs) : ∃ y ∈ ys, r x y := by
  induction h with
  | nil => exact absurd hx List.not_mem_nil
  | cons hab _ ih =>
    rcases List.mem_cons.mp hx with rfl | hx
    · exact ⟨_, List.mem_cons_self .., hab⟩
    · obtain ⟨y, hy, hxy⟩ := ih hx
      exact ⟨y, List.mem_cons_of_mem _ hy, hxy⟩

theorem exists_left {r : α → β → Prop} {xs : List α} {ys : List β} (h : List.Forall₂ r xs ys)
    {y : β} (hy : y ∈ ys) : ∃ x ∈ xs, r x y :=
  exists_right (List.Forall₂.flip h : List.Forall₂ (flip r) ys xs) hy

/-- A list of images, where each element has one. -/
theorem exists_forall₂ {r : α → β → Prop} {xs : List α} (h : ∀ x ∈ xs, ∃ y, r x y) :
    ∃ ys, List.Forall₂ r xs ys := by
  induction xs with
  | nil => exact ⟨[], .nil⟩
  | cons x xs ih =>
    obtain ⟨⟨y, hy⟩, hxs⟩ := List.forall_mem_cons.mp h
    obtain ⟨ys, hys⟩ := ih hxs
    exact ⟨y :: ys, .cons hy hys⟩

/-! ## Computations that can raise -/

theorem ok_bind (a : α) (f : α → Except ε β) : (Except.ok a >>= f) = f a := rfl

/-- A successful `x >>= f`, taken apart. -/
theorem bind_ok {x : Except ε α} {f : α → Except ε β} {b : β} :
    x >>= f = .ok b ↔ ∃ a, x = .ok a ∧ f a = .ok b := by
  cases x with
  | error e => exact ⟨nofun, fun ⟨_, h, _⟩ => nomatch h⟩
  | ok a => exact ⟨fun h => ⟨a, rfl, h⟩, fun ⟨_, ha, h⟩ => Except.ok.inj ha ▸ h⟩

/-- A bind raises where its first part does, or where the rest does after it. -/
theorem bind_error {x : Except ε α} {f : α → Except ε β} {e : ε} :
    x >>= f = .error e ↔ x = .error e ∨ ∃ a, x = .ok a ∧ f a = .error e := by
  cases x with
  | error y => simp [bind, Except.bind]
  | ok a => simp [bind, Except.bind]

/-- Computations that raise alike succeed alike. -/
theorem exists_ok_of_raises {x : Except ε α} {y : Except ε β}
    (h : ∀ e, x = .error e ↔ y = .error e) : (∃ a, x = .ok a) ↔ ∃ b, y = .ok b := by
  cases x with
  | error e => rw [(h e).mp rfl]; simp
  | ok a =>
    cases y with
    | error e => exact absurd ((h e).mpr rfl) nofun
    | ok b => simp

/-- The computation ends without an exception. -/
def Returns (x : Except ε α) : Prop := ∃ a, x = .ok a

@[simp] theorem returns_ok (a : α) : Returns (.ok a : Except ε α) := ⟨a, rfl⟩

@[simp] theorem not_returns_error (e : ε) : ¬ Returns (.error e : Except ε α) := nofun

theorem returns_bind {x : Except ε α} {f : α → Except ε β} :
    Returns (x >>= f) ↔ ∃ a, x = .ok a ∧ Returns (f a) := by
  constructor
  · rintro ⟨b, h⟩
    obtain ⟨a, ha, hb⟩ := bind_ok.mp h
    exact ⟨a, ha, b, hb⟩
  · rintro ⟨a, ha, b, hb⟩
    exact ⟨b, bind_ok.mpr ⟨a, ha, hb⟩⟩

theorem returns_bind_pure {x : Except ε α} {f : α → β} :
    Returns (x >>= fun a => pure (f a)) ↔ Returns x := by
  cases x with
  | error e => exact iff_of_false (not_returns_error _) (not_returns_error _)
  | ok a => exact iff_of_true (returns_ok _) (returns_ok _)

/-- A successful `f <$> x`, taken apart. -/
theorem map_ok {x : Except ε α} {f : α → β} {b : β} :
    x.map f = .ok b ↔ ∃ a, x = .ok a ∧ f a = b := by
  cases x with
  | error e => exact ⟨nofun, fun ⟨_, h, _⟩ => nomatch h⟩
  | ok a => exact ⟨fun h => ⟨a, rfl, Except.ok.inj h⟩, fun ⟨_, ha, h⟩ =>
      congrArg Except.ok (Except.ok.inj ha ▸ h)⟩

/-- A successful map, element by element. -/
theorem mapM_ok {f : α → Except ε β} {xs : List α} {ys : List β} :
    xs.mapM f = .ok ys ↔ List.Forall₂ (fun x y => f x = .ok y) xs ys := by
  induction xs generalizing ys with
  | nil =>
    rw [List.mapM_nil, List.forall₂_nil_left_iff]
    exact ⟨fun h => (Except.ok.inj h).symm, fun h => h ▸ rfl⟩
  | cons x xs ih =>
    rw [List.mapM_cons, bind_ok]
    constructor
    · rintro ⟨y, hy, h⟩
      obtain ⟨zs, hzs, hz⟩ := bind_ok.mp h
      obtain rfl := Except.ok.inj hz
      exact .cons hy (ih.mp hzs)
    · rintro (_ | ⟨hy, hys⟩)
      exact ⟨_, hy, bind_ok.mpr ⟨_, ih.mpr hys, rfl⟩⟩

/-- Each element of the result of a map is the image of one of the list. -/
theorem exists_of_mem_mapM {f : α → Except ε β} {xs : List α} {ys : List β}
    (h : xs.mapM f = .ok ys) {y : β} (hy : y ∈ ys) : ∃ x ∈ xs, f x = .ok y :=
  exists_left (mapM_ok.mp h) hy

/-- Each element of the list has an image in the result of a map. -/
theorem mem_mapM_of_mem {f : α → Except ε β} {xs : List α} {ys : List β}
    (h : xs.mapM f = .ok ys) {x : α} (hx : x ∈ xs) : ∃ y ∈ ys, f x = .ok y :=
  exists_right (mapM_ok.mp h) hx

/-- `[x for x in xs if p(x)]` where `p` can raise. -/
def filterE (p : α → Except ε Bool) : List α → Except ε (List α)
  | [] => .ok []
  | x :: xs => do
    if ← p x then return x :: (← filterE p xs)
    filterE p xs

/-- What one element contributes to a successful filter. -/
theorem filterE_cons {p : α → Except ε Bool} {x : α} {xs ys : List α}
    (h : filterE p (x :: xs) = .ok ys) : ∃ b zs, p x = .ok b ∧ filterE p xs = .ok zs ∧
      ys = if b then x :: zs else zs := by
  obtain ⟨b, hb, h⟩ := bind_ok.mp h
  cases b with
  | false => exact ⟨false, ys, hb, h, rfl⟩
  | true =>
    obtain ⟨zs, hzs, h⟩ := bind_ok.mp h
    exact ⟨true, zs, hb, hzs, (Except.ok.inj h).symm⟩

/-- The elements a successful filter keeps. -/
theorem mem_filterE {p : α → Except ε Bool} {xs ys : List α} (h : filterE p xs = .ok ys)
    {x : α} : x ∈ ys ↔ x ∈ xs ∧ p x = .ok true := by
  induction xs generalizing ys with
  | nil =>
    obtain rfl := Except.ok.inj h
    simp
  | cons y xs ih =>
    obtain ⟨b, zs, hb, hzs, rfl⟩ := filterE_cons h
    cases b with
    | false =>
      rw [if_neg Bool.false_ne_true, ih hzs, List.mem_cons, or_and_right]
      refine ⟨Or.inr, fun h => h.resolve_left ?_⟩
      rintro ⟨rfl, hx⟩
      rw [hb] at hx
      cases hx
    | true =>
      rw [if_pos rfl, List.mem_cons, List.mem_cons, ih hzs, or_and_right]
      refine or_congr_left ⟨fun hx => ⟨hx, hx ▸ hb⟩, And.left⟩

/-- The test of a successful filter has a value on every element. -/
theorem ok_of_filterE {p : α → Except ε Bool} {xs ys : List α} (h : filterE p xs = .ok ys) :
    ∀ x ∈ xs, ∃ b, p x = .ok b := by
  induction xs generalizing ys with
  | nil => exact nofun
  | cons y xs ih =>
    obtain ⟨b, zs, hb, hzs, -⟩ := filterE_cons h
    exact List.forall_mem_cons.mpr ⟨⟨b, hb⟩, ih hzs⟩

/-- The test has a value, and it is true. -/
def holds (p : α → Except ε Bool) (x : α) : Bool :=
  match p x with
  | .ok b => b
  | .error _ => false

/-- A successful filter is the filter of what holds. -/
theorem filterE_eq_filter {p : α → Except ε Bool} {xs ys : List α} (h : filterE p xs = .ok ys) :
    ys = xs.filter (holds p) := by
  induction xs generalizing ys with
  | nil => exact (Except.ok.inj h).symm
  | cons x xs ih =>
    obtain ⟨b, zs, hb, hzs, rfl⟩ := filterE_cons h
    have hx : holds p x = b := by rw [holds, hb]
    rw [List.filter_cons, hx, ih hzs]

/-! ## Loops that do not depend on order and repetition -/

/-- The lists have the same elements, in any order, any number of times. -/
def SameElems (xs ys : List α) : Prop := ∀ x, x ∈ xs ↔ x ∈ ys

theorem SameElems.refl (xs : List α) : SameElems xs xs := fun _ => Iff.rfl

theorem SameElems.eq_nil_iff {xs ys : List α} (h : SameElems xs ys) : xs = [] ↔ ys = [] := by
  rw [List.eq_nil_iff_forall_not_mem, List.eq_nil_iff_forall_not_mem]
  exact forall_congr' fun x => not_congr (h x)

/-- A filter succeeds when its test has a value on every element. -/
theorem filterE_of_ok {p : α → Except ε Bool} {xs : List α} (h : ∀ x ∈ xs, ∃ b, p x = .ok b) :
    ∃ ys, filterE p xs = .ok ys := by
  induction xs with
  | nil => exact ⟨[], rfl⟩
  | cons x xs ih =>
    obtain ⟨⟨b, hb⟩, hxs⟩ := List.forall_mem_cons.mp h
    obtain ⟨ys, hys⟩ := ih hxs
    cases b with
    | false => exact ⟨ys, bind_ok.mpr ⟨false, hb, hys⟩⟩
    | true => exact ⟨x :: ys, bind_ok.mpr ⟨true, hb, bind_ok.mpr ⟨ys, hys, rfl⟩⟩⟩

theorem filterE_sameElems {p : α → Except ε Bool} {xs xs' ys : List α} (h : SameElems xs xs')
    (hf : filterE p xs = .ok ys) : ∃ ys', filterE p xs' = .ok ys' ∧ SameElems ys ys' := by
  obtain ⟨ys', hys'⟩ := filterE_of_ok fun x hx => ok_of_filterE hf x ((h x).mpr hx)
  refine ⟨ys', hys', fun x => ?_⟩
  rw [mem_filterE hf, mem_filterE hys', h x]

theorem mem_mapM {f : α → Except ε β} {xs : List α} {ys : List β} (h : xs.mapM f = .ok ys) {y : β} :
    y ∈ ys ↔ ∃ x ∈ xs, f x = .ok y := by
  refine ⟨exists_of_mem_mapM h, fun ⟨x, hx, hxy⟩ => ?_⟩
  obtain ⟨z, hz, hxz⟩ := mem_mapM_of_mem h hx
  rwa [← Except.ok.inj (hxz.symm.trans hxy)]

theorem mapM_of_ok {f : α → Except ε β} {xs : List α} (h : ∀ x ∈ xs, ∃ y, f x = .ok y) :
    ∃ ys, xs.mapM f = .ok ys := by
  obtain ⟨ys, hys⟩ := exists_forall₂ h
  exact ⟨ys, mapM_ok.mpr hys⟩

/-- A map that succeeds on each element. -/
theorem mapM_eq_map {f : α → Except ε β} {g : α → β} {xs : List α}
    (h : ∀ x ∈ xs, f x = .ok (g x)) : xs.mapM f = .ok (xs.map g) :=
  mapM_ok.mpr (List.forall₂_map_right_iff.mpr (List.forall₂_same.mpr h))

/-- What is done with each result is done with the list of them. -/
theorem mapM_return {γ : Type} {f : α → Except ε β} (g : β → γ) (xs : List α) :
    xs.mapM (fun x => do return g (← f x)) = (xs.mapM f).map (List.map g) := by
  induction xs with
  | nil => rfl
  | cons x xs ih =>
    rw [List.mapM_cons, List.mapM_cons, ih]
    cases f x with
    | error e => rfl
    | ok y =>
      cases xs.mapM f with
      | error e => rfl
      | ok ys => rfl

theorem returns_mapM {f : α → Except ε β} {xs : List α} :
    Returns (xs.mapM f) ↔ ∀ x ∈ xs, Returns (f x) := by
  constructor
  · rintro ⟨ys, h⟩ x hx
    obtain ⟨y, -, hy⟩ := mem_mapM_of_mem h hx
    exact ⟨y, hy⟩
  · exact mapM_of_ok

/-- A map over the reordered list gives the reordered results. -/
theorem mapM_perm {f : α → Except ε β} {xs xs' : List α} {ys : List β} (h : xs.Perm xs')
    (hm : xs.mapM f = .ok ys) : ∃ ys', xs'.mapM f = .ok ys' ∧ ys.Perm ys' := by
  obtain ⟨ys', hall, hperm⟩ := List.perm_comp_forall₂ h.symm (mapM_ok.mp hm)
  exact ⟨ys', mapM_ok.mpr hall, hperm.symm⟩

theorem mapM_sameElems {f : α → Except ε β} {xs xs' : List α} {ys : List β} (h : SameElems xs xs')
    (hm : xs.mapM f = .ok ys) : ∃ ys', xs'.mapM f = .ok ys' ∧ SameElems ys ys' := by
  obtain ⟨ys', hys'⟩ : ∃ ys', xs'.mapM f = .ok ys' := mapM_of_ok fun x hx => by
    obtain ⟨y, -, hy⟩ := mem_mapM_of_mem hm ((h x).mpr hx)
    exact ⟨y, hy⟩
  refine ⟨ys', hys', fun y => ?_⟩
  rw [mem_mapM hm, mem_mapM hys']
  exact exists_congr fun x => and_congr_left fun _ => h x

/-- A loop keeps `P` to its end just where it holds at the start and every element is
one that keeps it. -/
theorem foldlM_iff {f : β → α → Except ε β} {P : β → Prop} {Good : α → Prop}
    (hstep : ∀ b x, (∃ b', f b x = .ok b' ∧ P b') ↔ P b ∧ Good x) {b : β} {xs : List α} :
    (∃ b', xs.foldlM f b = .ok b' ∧ P b') ↔ P b ∧ ∀ x ∈ xs, Good x := by
  induction xs generalizing b with
  | nil =>
    constructor
    · rintro ⟨b', h, hb'⟩
      obtain rfl := Except.ok.inj h
      exact ⟨hb', fun x hx => absurd hx List.not_mem_nil⟩
    · rintro ⟨hb, -⟩
      exact ⟨b, rfl, hb⟩
  | cons x xs ih =>
    rw [List.foldlM_cons, List.forall_mem_cons, ← and_assoc, ← hstep]
    constructor
    · rintro ⟨b', h, hb'⟩
      obtain ⟨c, hc, h⟩ := bind_ok.mp h
      obtain ⟨hPc, hxs⟩ := ih.mp ⟨b', h, hb'⟩
      exact ⟨⟨c, hc, hPc⟩, hxs⟩
    · rintro ⟨⟨c, hc, hPc⟩, hxs⟩
      obtain ⟨b', h, hb'⟩ := ih.mpr ⟨hPc, hxs⟩
      exact ⟨b', bind_ok.mpr ⟨c, hc, h⟩, hb'⟩

theorem nodup_eraseDups [BEq α] [LawfulBEq α] (xs : List α) : xs.eraseDups.Nodup := by
  -- by the length, as the tail is filtered before the repetitions behind it are dropped
  induction hn : xs.length using Nat.strongRecOn generalizing xs with
  | ind n ih =>
    cases xs with
    | nil => exact List.nodup_nil
    | cons x xs =>
      rw [List.eraseDups_cons, List.nodup_cons]
      refine ⟨fun hmem => ?_, ih _ ?_ _ rfl⟩
      · have hfilter := (List.mem_filter.mp (List.mem_eraseDups.mp hmem)).2
        rw [beq_self_eq_true] at hfilter
        cases hfilter
      · have hle := List.length_filter_le (fun b => !b == x) xs
        rw [List.length_cons] at hn
        omega

theorem eraseDups_of_nodup [BEq α] [LawfulBEq α] {xs : List α} (h : xs.Nodup) :
    xs.eraseDups = xs := by
  induction xs with
  | nil => rfl
  | cons x xs ih =>
    obtain ⟨hx, hxs⟩ := List.nodup_cons.mp h
    have hkeep : xs.filter (fun y => !y == x) = xs := by
      rw [List.filter_eq_self]
      intro y hy
      rw [Bool.not_eq_true', beq_eq_false_iff_ne]
      rintro rfl
      exact hx hy
    rw [List.eraseDups_cons, hkeep, ih hxs]

/-- `any(p(x) for x in xs)`: stops at the first element that holds. -/
def anyE (p : α → Except ε Bool) : List α → Except ε Bool
  | [] => .ok false
  | x :: xs => do
    if ← p x then return true
    anyE p xs

theorem exists_of_anyE {p : α → Except ε Bool} {xs : List α} (h : anyE p xs = .ok true) :
    ∃ x ∈ xs, p x = .ok true := by
  induction xs with
  | nil => cases h
  | cons x xs ih =>
    obtain ⟨b, hb, h⟩ := bind_ok.mp h
    cases b with
    | true => exact ⟨x, List.mem_cons_self .., hb⟩
    | false =>
      obtain ⟨y, hy, hp⟩ := ih h
      exact ⟨y, List.mem_cons_of_mem _ hy, hp⟩

end Preaction.Loop
