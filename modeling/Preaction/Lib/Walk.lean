import Mathlib.Data.List.Perm.Subperm
import Mathlib.Logic.Relation

/-!
# Greedy walks

A walk through a graph that takes the first edge out of every node, whichever
it is, and does not come back: `step x` is the node the first edge leads to, and
the walk ends at a node of which `goal` holds, at one without an edge, and at one
whose `key` it has met before. `fuel` bounds the number of nodes.

Whether a goal can be reached at all is `Reaches`. The walk arrives at a goal only
where one can be reached (`reaches_of_visits`), and at every goal that can be
reached exactly when it makes no wrong turn (`greedy_iff_reaches`). The keys are
what makes the fuel suffice: those met are distinct and belong to the graph.
-/

namespace Preaction.Walk

variable {α κ : Type} (step : α → Option α) (goal : α → Bool) (key : α → κ)

/-- The walk: the keys it has met, and the node it is at. -/
def greedy [DecidableEq κ] : Nat → List κ → α → Bool
  | 0, _, _ => false
  | fuel + 1, seen, x =>
    if goal x then true
    else if key x ∈ seen then false
    else match step x with
      | none => false
      | some y => greedy fuel (key x :: seen) y

/-- The walk from a node comes to another one, with these keys met. -/
inductive Visits (start : α) : List κ → α → Prop
  | start : Visits start [] start
  | step {seen : List κ} {x y : α} (h : Visits start seen x) (hgoal : goal x = false)
      (hkey : key x ∉ seen) (hstep : step x = some y) : Visits start (key x :: seen) y

variable (edge : α → α → Prop)

/-- A path of edges leads to a goal. -/
def Reaches (x : α) : Prop := ∃ y, Relation.ReflTransGen edge x y ∧ goal y = true

/-- From no node from which a goal can be reached does the walk go to one from which
none can, and it comes to no such node twice. -/
def NoWrongTurn (start : α) : Prop :=
  ∀ seen x, Visits step goal key start seen x → goal x = false → Reaches goal edge x →
    key x ∉ seen ∧ ∃ y, step x = some y ∧ Reaches goal edge y

variable {step goal key edge}

theorem Reaches.of_edge {x y : α} (h : edge x y) (hy : Reaches goal edge y) :
    Reaches goal edge x := by
  obtain ⟨z, hpath, hz⟩ := hy
  exact ⟨z, hpath.head h, hz⟩

/-- What is reached from a node of the walk is reached from its start. -/
theorem reaches_of_visits (hstep : ∀ x y, step x = some y → edge x y) {start x : α}
    {seen : List κ} (h : Visits step goal key start seen x) (hx : Reaches goal edge x) :
    Reaches goal edge start := by
  induction h with
  | start => exact hx
  | step _ _ _ hxy ih => exact ih (hx.of_edge (hstep _ _ hxy))

/-- The keys the walk has met are distinct keys of the graph. -/
theorem Visits.seen {keys : List κ} (hedge : ∀ x y, step x = some y → key y ∈ keys) {start x : α}
    (hstart : key start ∈ keys) {seen : List κ} (h : Visits step goal key start seen x) :
    key x ∈ keys ∧ seen.Nodup ∧ seen ⊆ keys := by
  induction h with
  | start => exact ⟨hstart, List.nodup_nil, List.nil_subset _⟩
  | step _ _ hkey hxy ih =>
    obtain ⟨hx, hnodup, hsub⟩ := ih
    exact ⟨hedge _ _ hxy, List.nodup_cons.mpr ⟨hkey, hnodup⟩, List.cons_subset.mpr ⟨hx, hsub⟩⟩

/-- The walk meets no more keys than the graph has. -/
theorem Visits.length_le {keys : List κ} (hedge : ∀ x y, step x = some y → key y ∈ keys)
    {start x : α} (hstart : key start ∈ keys) {seen : List κ}
    (h : Visits step goal key start seen x) : seen.length ≤ keys.length := by
  obtain ⟨-, hnodup, hsub⟩ := h.seen hedge hstart
  exact (List.subperm_of_subset hnodup hsub).length_le

variable [DecidableEq κ]

/-- One step of the walk, at a node that is no goal. -/
theorem greedy_succ {fuel : Nat} {seen : List κ} {x : α} (hgoal : goal x = false) :
    greedy step goal key (fuel + 1) seen x = true ↔
      key x ∉ seen ∧ ∃ y, step x = some y ∧ greedy step goal key fuel (key x :: seen) y = true := by
  rw [greedy, if_neg (by simp [hgoal])]
  by_cases hkey : key x ∈ seen
  · simp [hkey]
  · rw [if_neg hkey]
    cases hstep : step x with
    | none => simp
    | some y => simp [hkey]

/-- Where the walk arrives a goal can be reached. -/
theorem reaches_of_greedy (hstep : ∀ x y, step x = some y → edge x y) {fuel : Nat} {seen : List κ}
    {x : α} (h : greedy step goal key fuel seen x = true) : Reaches goal edge x := by
  induction fuel generalizing seen x with
  | zero => simp [greedy] at h
  | succ fuel ih =>
    cases hgoal : goal x with
    | true => exact ⟨x, .refl, hgoal⟩
    | false =>
      obtain ⟨-, y, hxy, hy⟩ := (greedy_succ hgoal).mp h
      exact (ih hy).of_edge (hstep _ _ hxy)

/-- The walk from a node it comes to is the rest of the walk. -/
theorem Visits.greedy_eq {start x : α} {seen : List κ} (h : Visits step goal key start seen x)
    (fuel : Nat) : greedy step goal key (fuel + seen.length) [] start =
      greedy step goal key fuel seen x := by
  induction h generalizing fuel with
  | start => rfl
  | @step seen x y _ hgoal hkey hxy ih =>
    rw [List.length_cons, ← Nat.add_assoc, Nat.add_right_comm, ih, greedy,
      if_neg (by simp [hgoal]), if_neg hkey, hxy]

/-- Without a wrong turn the walk arrives from every node from which a goal can
be reached. -/
theorem NoWrongTurn.greedy {keys : List κ} (hedge : ∀ x y, step x = some y → key y ∈ keys)
    {start : α} (hturn : NoWrongTurn step goal key edge start) (hstart : key start ∈ keys)
    {fuel : Nat} {seen : List κ} {x : α} (h : Visits step goal key start seen x)
    (hfuel : keys.length < fuel + seen.length) (hx : Reaches goal edge x) :
    greedy step goal key fuel seen x = true := by
  induction fuel generalizing seen x with
  | zero =>
    have hlen := h.length_le hedge hstart
    omega
  | succ fuel ih =>
    cases hgoal : goal x with
    | true => simp [Walk.greedy, hgoal]
    | false =>
      obtain ⟨hkey, y, hxy, hy⟩ := hturn seen x h hgoal hx
      refine (greedy_succ hgoal).mpr ⟨hkey, y, hxy, ih (h.step hgoal hkey hxy) ?_ hy⟩
      rw [List.length_cons]
      omega

/-- The walk tells whether a goal can be reached exactly when it makes no wrong
turn. -/
theorem greedy_iff_reaches {keys : List κ} (hedge : ∀ x y, step x = some y → key y ∈ keys)
    (hstep : ∀ x y, step x = some y → edge x y) {start : α} (hstart : key start ∈ keys) {fuel : Nat}
    (hfuel : keys.length < fuel) :
    (greedy step goal key fuel [] start = true ↔ Reaches goal edge start) ↔
      NoWrongTurn step goal key edge start := by
  refine ⟨fun hiff seen x hvisit hgoal hx => ?_, fun hturn => ⟨reaches_of_greedy hstep,
    hturn.greedy hedge hstart .start hfuel⟩⟩
  have hlen := hvisit.length_le hedge hstart
  obtain ⟨rest, rfl⟩ : ∃ rest, fuel = rest + 1 + seen.length := ⟨fuel - 1 - seen.length, by omega⟩
  have hall := hiff.mpr (reaches_of_visits hstep hvisit hx)
  rw [hvisit.greedy_eq] at hall
  obtain ⟨hkey, y, hxy, hy⟩ := (greedy_succ hgoal).mp hall
  exact ⟨hkey, y, hxy, reaches_of_greedy hstep hy⟩

end Preaction.Walk
