import Mathlib.Data.List.Basic

/-!
# Trees with leaves of a type

Arrays and objects as a walk sees them: it changes the leaves and keeps the shape. A walk gives
a tree back exactly when it gives every leaf back.
-/

namespace EconomyLab.Foundation

universe u v w
variable {κ : Type u} {α : Type v} {β : Type w}

inductive Tree (κ : Type u) (α : Type v)
  | leaf (a : α)
  | array (items : List (Tree κ α))
  | object (fields : List (κ × Tree κ α))

namespace Tree

mutual

/-- The tree with a function of each of its leaves. -/
def map (f : α → β) : Tree κ α → Tree κ β
  | leaf a => leaf (f a)
  | array items => array (mapItems f items)
  | object fields => object (mapFields f fields)

def mapItems (f : α → β) : List (Tree κ α) → List (Tree κ β)
  | [] => []
  | tree :: items => map f tree :: mapItems f items

def mapFields (f : α → β) : List (κ × Tree κ α) → List (κ × Tree κ β)
  | [] => []
  | (key, tree) :: fields => (key, map f tree) :: mapFields f fields

end

mutual

def leaves : Tree κ α → List α
  | leaf a => [a]
  | array items => itemLeaves items
  | object fields => fieldLeaves fields

def itemLeaves : List (Tree κ α) → List α
  | [] => []
  | tree :: items => leaves tree ++ itemLeaves items

def fieldLeaves : List (κ × Tree κ α) → List α
  | [] => []
  | (_, tree) :: fields => leaves tree ++ fieldLeaves fields

end

theorem fieldLeaves_append (fields later : List (κ × Tree κ α)) :
    fieldLeaves (fields ++ later) = fieldLeaves fields ++ fieldLeaves later := by
  induction fields with
  | nil => simp only [List.nil_append, fieldLeaves]
  | cons field fields ih => simp only [List.cons_append, fieldLeaves, ih, List.append_assoc]

section Compose

universe x
variable {γ : Type x} (f : α → β) (g : β → γ)

mutual

theorem map_map : ∀ tree : Tree κ α, (tree.map f).map g = tree.map (g ∘ f)
  | leaf a => by simp only [map, Function.comp_apply]
  | array items => by simp only [map, mapItems_mapItems items]
  | object fields => by simp only [map, mapFields_mapFields fields]

theorem mapItems_mapItems :
    ∀ items : List (Tree κ α), mapItems g (mapItems f items) = mapItems (g ∘ f) items
  | [] => by simp only [mapItems]
  | tree :: items => by simp only [mapItems, map_map tree, mapItems_mapItems items]

theorem mapFields_mapFields : ∀ fields : List (κ × Tree κ α),
    mapFields g (mapFields f fields) = mapFields (g ∘ f) fields
  | [] => by simp only [mapFields]
  | (key, tree) :: fields => by simp only [mapFields, map_map tree, mapFields_mapFields fields]

end

end Compose

section Fixed

variable (f : α → α)

mutual

theorem map_eq_self_iff : ∀ tree : Tree κ α, tree.map f = tree ↔ ∀ a ∈ tree.leaves, f a = a
  | leaf a => by simp only [map, leaves, leaf.injEq, List.mem_singleton, forall_eq]
  | array items => by simp only [map, leaves, array.injEq, mapItems_eq_self_iff items]
  | object fields => by simp only [map, leaves, object.injEq, mapFields_eq_self_iff fields]

theorem mapItems_eq_self_iff : ∀ items : List (Tree κ α),
    mapItems f items = items ↔ ∀ a ∈ itemLeaves items, f a = a
  | [] => by simp only [mapItems, itemLeaves, List.not_mem_nil, false_implies, implies_true]
  | tree :: items => by
    simp only [mapItems, itemLeaves, List.cons.injEq, List.forall_mem_append, map_eq_self_iff tree,
      mapItems_eq_self_iff items]

theorem mapFields_eq_self_iff : ∀ fields : List (κ × Tree κ α),
    mapFields f fields = fields ↔ ∀ a ∈ fieldLeaves fields, f a = a
  | [] => by simp only [mapFields, fieldLeaves, List.not_mem_nil, false_implies, implies_true]
  | (key, tree) :: fields => by
    simp only [mapFields, fieldLeaves, List.cons.injEq, Prod.mk.injEq, true_and, List.forall_mem_append,
      map_eq_self_iff tree, mapFields_eq_self_iff fields]

end

end Fixed

end Tree

end EconomyLab.Foundation
