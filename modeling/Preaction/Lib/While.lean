import Mathlib.Data.List.Chain

/-!
# Loops without a bound

A `while` loop as what one round does with its state: go on with another state, or
leave with a result, be it the value after the loop or an exception. `Ends` is a whole
run of the loop, with the states at its head; there is no bound in it, so that a run
exists is that the loop terminates.

It does where every round makes some measure smaller, as long as an invariant holds
(`exists_ends`), and a run has at most one round more than the measure says.
-/

namespace Preaction.While

/-- What a round of a loop does. -/
inductive Round (σ ρ : Type)
  | next (s : σ)
  | done (r : ρ)

variable {σ ρ : Type} (round : σ → Round σ ρ)

/-- A run of the loop to its end: the states at its head, and the result. -/
inductive Ends : σ → List σ → ρ → Prop
  | done {s : σ} {r : ρ} (h : round s = .done r) : Ends s [s] r
  | next {s s' : σ} {states : List σ} {r : ρ} (h : round s = .next s')
      (hends : Ends s' states r) : Ends s (s :: states) r

variable {round}

theorem Ends.head {s : σ} {states : List σ} {r : ρ} (h : Ends round s states r) :
    ∃ rest, states = s :: rest := by
  cases h with
  | done => exact ⟨[], rfl⟩
  | next => exact ⟨_, rfl⟩

/-- Each state is what the round before it goes on with. -/
theorem Ends.isChain {s : σ} {states : List σ} {r : ρ} (h : Ends round s states r) :
    states.IsChain fun t t' => round t = .next t' := by
  induction h with
  | done => exact .singleton _
  | next hround hends ih =>
    obtain ⟨rest, rfl⟩ := hends.head
    exact .cons_cons hround ih

/-- The result is that of the round from the last state. -/
theorem Ends.last {s : σ} {states : List σ} {r : ρ} (h : Ends round s states r) :
    ∃ t, states.getLast? = some t ∧ round t = .done r := by
  induction h with
  | done hround => exact ⟨_, rfl, hround⟩
  | next hround hends ih =>
    obtain ⟨t, ht, hdone⟩ := ih
    refine ⟨t, ?_, hdone⟩
    rw [List.getLast?_cons, ht]
    rfl

/-- **The loop ends** from a state with the invariant, where every round keeps it and
makes the measure smaller. -/
theorem exists_ends {I : σ → Prop} {m : σ → Nat}
    (hstep : ∀ s s', I s → round s = .next s' → I s' ∧ m s' < m s) {s : σ} (hs : I s) :
    ∃ states r, Ends round s states r ∧ states.length ≤ m s + 1 := by
  -- by the measure, which is what is left of the run
  induction hn : m s using Nat.strongRecOn generalizing s with
  | ind n ih =>
    cases hround : round s with
    | done r => exact ⟨[s], r, .done hround, by simp⟩
    | next s' =>
      obtain ⟨hs', hlt⟩ := hstep s s' hs hround
      obtain ⟨states, r, hends, hlen⟩ := ih _ (hn ▸ hlt) hs' rfl
      refine ⟨s :: states, r, .next hround hends, ?_⟩
      rw [List.length_cons]
      omega

end Preaction.While
