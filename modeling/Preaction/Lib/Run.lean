import Mathlib.Data.List.Induction

/-!
# Runs of a deterministic system

`run step s es` is the state after the events `es`. Two rules are all that a
proof about runs needs: what a step keeps holds after every run (`run_invariant`),
and a relation that a step extends relates the state of every prefix to the
final one (`run_grows`).
-/

namespace Preaction.Run

variable {State Event : Type} (step : State → Event → State)

/-- The state after some events. -/
def run (s : State) (es : List Event) : State := es.foldl step s

variable {step}

theorem run_append (s : State) (es fs : List Event) :
    run step s (es ++ fs) = run step (run step s es) fs :=
  List.foldl_append

theorem run_invariant {I : State → Prop} (hstep : ∀ s e, I s → I (step s e)) {s : State} (h : I s)
    (es : List Event) : I (run step s es) := by
  induction es generalizing s with
  | nil => exact h
  | cons e es ih => exact ih (hstep s e h)

theorem run_grows {r : State → State → Prop} (hrefl : ∀ s, r s s)
    (htrans : ∀ a b c, r a b → r b c → r a c) (hstep : ∀ s e, r s (step s e)) (s : State)
    {es fs : List Event} (h : es <+: fs) : r (run step s es) (run step s fs) := by
  obtain ⟨gs, rfl⟩ := h
  rw [run_append]
  generalize run step s es = t
  exact run_invariant (fun u e hu => htrans _ _ _ hu (hstep u e)) (hrefl t) gs

end Preaction.Run
