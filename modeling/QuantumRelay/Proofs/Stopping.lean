import Mathlib.Logic.Relation
import Mathlib.Order.WellFounded

/-!
# Steps that stop

Where no steps go on for ever, they can be taken until there is none left to take (`exists_stopped`). This
ties what a loop does turn by turn to how it ends.
-/

namespace QuantumRelay

/-- Steps that do not go on for ever come to a stop. -/
theorem exists_stopped {α : Type} {step : α → α → Prop}
    (h : WellFounded fun after before => step before after) (s : α) :
    ∃ last, Relation.ReflTransGen step s last ∧ ∀ after, ¬step last after := by
  obtain ⟨last, hlast, hleast⟩ := h.has_min {x | Relation.ReflTransGen step s x} ⟨s, .refl⟩
  exact ⟨last, hlast, fun after hstep => hleast after (hlast.tail hstep) hstep⟩

end QuantumRelay
