import Mathlib.Data.List.Basic

/-!
# Monitors

A monitor reads the events of a run one after the other. It keeps a state of its own and says of
each event whether it may happen there.
-/

namespace EconomyLab.Foundation

structure Monitor (State Event : Type) where
  step : State → Event → State
  allows : State → Event → Prop

namespace Monitor

variable {State Event : Type} (m : Monitor State Event)

def after (s : State) (trace : List Event) : State := trace.foldl m.step s

def Accepts : State → List Event → Prop
  | _, [] => True
  | s, event :: trace => m.allows s event ∧ Accepts (m.step s event) trace

@[simp] theorem after_nil (s : State) : m.after s [] = s := rfl

@[simp] theorem after_append (s : State) (trace later : List Event) :
    m.after s (trace ++ later) = m.after (m.after s trace) later := List.foldl_append

@[simp] theorem accepts_nil (s : State) : m.Accepts s [] := trivial

theorem accepts_append (s : State) (trace later : List Event) :
    m.Accepts s (trace ++ later) ↔ m.Accepts s trace ∧ m.Accepts (m.after s trace) later := by
  induction trace generalizing s with
  | nil => exact ⟨fun h => ⟨trivial, h⟩, And.right⟩
  | cons event trace ih =>
    constructor
    · intro h
      obtain ⟨hevent, hrest⟩ := h
      obtain ⟨htrace, hlater⟩ := (ih (m.step s event)).mp hrest
      exact ⟨⟨hevent, htrace⟩, hlater⟩
    · intro h
      obtain ⟨⟨hevent, htrace⟩, hlater⟩ := h
      exact ⟨hevent, (ih (m.step s event)).mpr ⟨htrace, hlater⟩⟩

instance decidableAccepts [h : ∀ s event, Decidable (m.allows s event)] (s : State) :
    (trace : List Event) → Decidable (m.Accepts s trace)
  | [] => .isTrue trivial
  | event :: trace => @instDecidableAnd _ _ (h s event) (decidableAccepts (m.step s event) trace)

theorem Accepts.allows_at {s : State} {before later : List Event} {event : Event}
    (h : m.Accepts s (before ++ event :: later)) : m.allows (m.after s before) event :=
  ((m.accepts_append s before (event :: later)).mp h).2.1

end Monitor

end EconomyLab.Foundation
