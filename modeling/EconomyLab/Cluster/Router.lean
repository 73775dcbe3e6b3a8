import EconomyLab.Errors
import EconomyLab.Foundation.Rendezvous
import EconomyLab.Text

/-!
# Routing scopes

Every process ranks the nodes for a scope by a hash of both and sends the scope to the highest. The hash
mixes the node's name first, so two names tie for every scope or for none.
-/

namespace EconomyLab

open Foundation Text

def FNV_OFFSET : BitVec 64 := 0xcbf29ce484222325#64

def FNV_PRIME : BitVec 64 := 0x100000001b3#64

def fnvStep (hash : BitVec 64) (unit : Nat) : BitVec 64 := (hash ^^^ BitVec.ofNat 64 unit) * FNV_PRIME

def fnv1a64 (text : String) : BitVec 64 := (codeUnits text).foldl fnvStep FNV_OFFSET

def mix64 (input : BitVec 64) : BitVec 64 :=
  let x := input ^^^ (input >>> 33)
  let x := x * 0xff51afd7ed558ccd#64
  let x := x ^^^ (x >>> 33)
  let x := x * 0xc4ceb9fe1a85ec53#64
  x ^^^ (x >>> 33)

def weightOf (scope node : String) : BitVec 64 := mix64 (fnv1a64 (node ++ "\n" ++ scope))

/-- The winner so far, and its weight. -/
def weigh (scope : String) (best : String × Int) (node : String) : String × Int :=
  if best.2 < (weightOf scope node).toNat then (node, (weightOf scope node).toNat) else best

def route (nodes : List String) (scope : String) : String :=
  (nodes.foldl (weigh scope) (nodes.headD "", -1)).1

def scopeRouter (nodes : List String) : Except Fault (String → String) :=
  if nodes = [] then .error (fault .configInvalid "scopeRouter needs at least one node.")
  else if ¬nodes.Nodup then .error (fault .configInvalid "scopeRouter node names must be distinct.")
  else .ok (route nodes)

theorem fnvStep_injective (unit : Nat) : Function.Injective fun hash => fnvStep hash unit := by
  have hprime : FNV_PRIME * 0xce965057aff6957b#64 = 1#64 := by decide
  exact (mul_injective hprime).comp (xor_injective _)

theorem mix64_injective : Function.Injective mix64 := by
  have hshift : Function.Injective fun x : BitVec 64 => x ^^^ (x >>> 33) := xorShift_injective (by decide)
  have hfirst : 0xff51afd7ed558ccd#64 * 0x4f74430c22a54005#64 = 1#64 := by decide
  have hsecond : 0xc4ceb9fe1a85ec53#64 * 0x9cb4b2f8129337db#64 = 1#64 := by decide
  exact hshift.comp ((mul_injective hsecond).comp (hshift.comp ((mul_injective hfirst).comp hshift)))

theorem codeUnits_append (s t : String) : codeUnits (s ++ t) = codeUnits s ++ codeUnits t := by
  unfold codeUnits
  rw [String.toList_append, List.flatMap_append]

def nameHash (node : String) : BitVec 64 := fnv1a64 (node ++ "\n")

variable (scope name node : String)

theorem weightOf_eq :
    weightOf scope node = mix64 ((codeUnits scope).foldl fnvStep (nameHash node)) := by
  unfold weightOf nameHash fnv1a64
  rw [codeUnits_append, List.foldl_append]

/-- Two nodes tie for a scope exactly when their names hash alike, whatever the scope. -/
theorem weights_tie_iff (scope a b : String) :
    weightOf scope a = weightOf scope b ↔ nameHash a = nameHash b := by
  rw [weightOf_eq, weightOf_eq, mix64_injective.eq_iff]
  exact (foldl_injective fnvStep_injective (codeUnits scope)).eq_iff

/-! ## The winner -/

theorem weigh_first : weigh scope (name, -1) node = (node, ((weightOf scope node).toNat : Int)) := by
  generalize hweight : weightOf scope node = weight
  have hneg : (-1 : Int) < weight.toNat := by omega
  simp only [weigh, hweight, if_pos hneg]

theorem weigh_natCast (best : Nat) : weigh scope (name, (best : Int)) node =
      if best < (weightOf scope node).toNat then (node, ((weightOf scope node).toNat : Int))
      else (name, (best : Int)) := by
  generalize hweight : weightOf scope node = weight
  simp only [weigh, hweight, Int.ofNat_lt]

theorem foldl_weigh (scope first : String) (rest : List String) :
    ∃ winner, (first :: rest).foldl (weigh scope) (first, -1) =
      (winner, ((weightOf scope winner).toNat : Int)) ∧
      Heaviest (fun node => (weightOf scope node).toNat) (first :: rest) winner := by
  induction rest using List.reverseRecOn with
  | nil =>
    refine ⟨first, ?_, Heaviest.single _ first⟩
    rw [List.foldl_cons, weigh_first, List.foldl_nil]
  | append_singleton rest node ih =>
    obtain ⟨winner, hfold, hheaviest⟩ := ih
    have hnext := hheaviest.snoc node
    refine ⟨_, ?_, hnext⟩
    rw [← List.cons_append, List.foldl_append, hfold, List.foldl_cons, List.foldl_nil, weigh_natCast]
    by_cases hlt : (weightOf scope winner).toNat < (weightOf scope node).toNat
    · rw [if_pos hlt, if_pos hlt]
    · rw [if_neg hlt, if_neg hlt]

theorem route_heaviest {nodes : List String} (h : nodes ≠ []) (scope : String) :
    Heaviest (fun node => (weightOf scope node).toNat) nodes (route nodes scope) := by
  cases nodes with
  | nil => exact absurd rfl h
  | cons first rest =>
    obtain ⟨winner, hfold, hheaviest⟩ := foldl_weigh scope first rest
    unfold route
    rw [List.headD_cons, hfold]
    exact hheaviest

theorem scopeRouter_ok {nodes : List String} {router : String → String}
    (h : scopeRouter nodes = .ok router) :
    nodes ≠ [] ∧ nodes.Nodup ∧ router = route nodes := by
  unfold scopeRouter at h
  split at h
  · cases h
  · rename_i hne
    split at h
    · cases h
    · rename_i hnodup
      cases h
      exact ⟨hne, not_not.mp hnodup, rfl⟩

/-- No two of these names hash alike. -/
def TieFree (nodes : List String) : Prop := ∀ a ∈ nodes, ∀ b ∈ nodes, nameHash a = nameHash b → a = b

/-- Two processes with different lists send a scope to different nodes only where the one's owner is
missing from the other's list. So the order of a list is no matter, and a change of membership moves only
the scopes of a node that left or of one that arrived. -/
theorem scopes_move_with_owner {nodes others : List String} {router other : String → String}
    (hrouter : scopeRouter nodes = .ok router) (hother : scopeRouter others = .ok other)
    (hfree : TieFree (nodes ++ others)) (scope : String) :
    router scope ∈ nodes ∧ other scope ∈ others ∧
      (router scope ∈ others → other scope ∈ nodes → router scope = other scope) := by
  obtain ⟨hne, -, rfl⟩ := scopeRouter_ok hrouter
  obtain ⟨hne', -, rfl⟩ := scopeRouter_ok hother
  have hwinner := route_heaviest hne scope
  have hwinner' := route_heaviest hne' scope
  refine ⟨hwinner.mem, hwinner'.mem, ?_⟩
  intro hmem hmem'
  apply hwinner.agree _ hwinner' hmem hmem'
  intro a b ha hb htie
  have hweights : weightOf scope a = weightOf scope b := BitVec.eq_of_toNat_eq htie
  exact hfree a (List.mem_append.mpr ha) b (List.mem_append.mpr hb)
    ((weights_tie_iff scope a b).mp hweights)

theorem tieFree_three : TieFree (["economy-a", "economy-b"] ++ ["economy-c", "economy-b"]) := by
  intro a ha b hb
  have hall : ∀ a ∈ ["economy-a", "economy-b"] ++ ["economy-c", "economy-b"],
      ∀ b ∈ ["economy-a", "economy-b"] ++ ["economy-c", "economy-b"],
        nameHash a = nameHash b → a = b := by decide +kernel
  exact hall a ha b hb

/-- A node leaves, another arrives, and the lists are not even in one order. -/
theorem scopes_move_with_owner_replaced :
    route ["economy-a", "economy-b"] "world-7" ∈ ["economy-a", "economy-b"] ∧
      route ["economy-c", "economy-b"] "world-7" ∈ ["economy-c", "economy-b"] ∧
      (route ["economy-a", "economy-b"] "world-7" ∈ ["economy-c", "economy-b"] →
        route ["economy-c", "economy-b"] "world-7" ∈ ["economy-a", "economy-b"] →
        route ["economy-a", "economy-b"] "world-7" = route ["economy-c", "economy-b"] "world-7") :=
  scopes_move_with_owner rfl rfl tieFree_three "world-7"

theorem weigh_name (best : Nat) :
    (weigh scope (name, (best : Int)) node).1 = if best < (weightOf scope node).toNat then
      node else name := by
  rw [weigh_natCast]
  exact apply_ite Prod.fst _ _ _

theorem route_pair (a b scope : String) :
    route [a, b] scope = if (weightOf scope a).toNat < (weightOf scope b).toNat then b else a := by
  have hroute : route [a, b] scope = (weigh scope (weigh scope (a, -1) a) b).1 := by
    rw [route, List.headD_cons, List.foldl_cons, List.foldl_cons, List.foldl_nil]
  rw [hroute, weigh_first, weigh_name]

theorem pair_ne_iff {α : Type} {a b : α} (hab : a ≠ b) (m n : Nat) :
    ((if m < n then b else a) ≠ if n < m then a else b) ↔ m = n := by
  rcases Nat.lt_trichotomy m n with hlt | rfl | hgt
  · simp [hlt, Nat.lt_asymm hlt, Nat.ne_of_lt hlt]
  · simp [hab]
  · simp [hgt, Nat.lt_asymm hgt, Nat.ne_of_gt hgt]

/-- Two names make the order of the list matter for one scope exactly when they do for all, namely when
they hash alike. -/
theorem order_matters_iff {a b : String} (hab : a ≠ b) (scope : String) :
    route [a, b] scope ≠ route [b, a] scope ↔ nameHash a = nameHash b := by
  have hties := weights_tie_iff scope a b
  rw [route_pair, route_pair, ← hties]
  generalize weightOf scope a = first
  generalize weightOf scope b = second
  rw [pair_ne_iff hab]
  exact BitVec.toNat_inj

/-- Such names exist, plain ones. -/
theorem order_matters_iff_tied :
    nameHash "economy-qme7pggc31mvh2gj" = nameHash "economy-y9n11eedn0e7844e" ∧
      (route ["economy-qme7pggc31mvh2gj", "economy-y9n11eedn0e7844e"] "world-7" ≠
        route ["economy-y9n11eedn0e7844e", "economy-qme7pggc31mvh2gj"] "world-7" ↔
          nameHash "economy-qme7pggc31mvh2gj" = nameHash "economy-y9n11eedn0e7844e") :=
  ⟨by decide +kernel, order_matters_iff (by decide) "world-7"⟩

end EconomyLab
