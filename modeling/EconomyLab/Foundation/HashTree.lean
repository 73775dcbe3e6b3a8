import Mathlib.Data.List.Forall2
import Mathlib.Data.Set.Function
import Mathlib.Algebra.Ring.Int.Defs

/-!
# Hash trees

A level is joined in pairs, an odd last node carried up, until one node is left. That is
the fold of a tree over the leaves, and with a collision-free hash the root binds them.
-/

namespace EconomyLab.Foundation

universe u v w

inductive HashTree (α : Type u)
  | leaf (a : α)
  | node (left right : HashTree α)

namespace HashTree

variable {α : Type u} {β : Type v} {ε : Type w}

def leaves : HashTree α → List α
  | leaf a => [a]
  | node left right => left.leaves ++ right.leaves

def map (f : α → β) : HashTree α → HashTree β
  | leaf a => leaf (f a)
  | node left right => node (left.map f) (right.map f)

theorem leaves_map (f : α → β) (t : HashTree α) : (t.map f).leaves = t.leaves.map f := by
  induction t with
  | leaf a => rfl
  | node left right ihl ihr => simp [map, leaves, ihl, ihr]

/-- The value of a tree, where a leaf or a join may fail. -/
inductive Folds (value : α → Except ε β) (join : β → β → Except ε β) : HashTree α → β → Prop
  | leaf {a : α} {b : β} : value a = .ok b → Folds value join (.leaf a) b
  | node {left right : HashTree α} {x y b : β} : Folds value join left x →
      Folds value join right y → join x y = .ok b → Folds value join (.node left right) b

/-! ## Level by level -/

def pairUp : List (HashTree α) → List (HashTree α)
  | left :: right :: rest => node left right :: pairUp rest
  | level => level

def pairAll : Nat → List (HashTree α) → List (HashTree α)
  | 0, level => level
  | rounds + 1, level => if level.length ≤ 1 then level else pairAll rounds (pairUp level)

def joinLevel (join : β → β → Except ε β) : List β → Except ε (List β)
  | left :: right :: rest => do
    let parent ← join left right
    let next ← joinLevel join rest
    return parent :: next
  | level => .ok level

def joinRounds (join : β → β → Except ε β) : Nat → List β → Except ε (List β)
  | 0, level => .ok level
  | rounds + 1, level =>
    if level.length ≤ 1 then .ok level
    else do joinRounds join rounds (← joinLevel join level)

theorem leaves_pairUp (level : List (HashTree α)) :
    (pairUp level).flatMap leaves = level.flatMap leaves := by
  induction level using pairUp.induct with
  | case1 left right rest ih => simp [pairUp, leaves, ih]
  | case2 level hne => simp [pairUp]

theorem length_pairUp (level : List (HashTree α)) : (pairUp level).length = (level.length + 1) / 2 := by
  induction level using pairUp.induct with
  | case1 left right rest ih =>
    simp only [pairUp, List.length_cons, ih]
    omega
  | case2 level hne =>
    match level, hne with
    | [], _ => simp [pairUp]
    | [_], _ => simp [pairUp]
    | left :: right :: rest, hne => exact absurd rfl (hne left right rest)

theorem leaves_pairAll (rounds : Nat) (level : List (HashTree α)) :
    (pairAll rounds level).flatMap leaves = level.flatMap leaves := by
  induction rounds generalizing level with
  | zero => rfl
  | succ rounds ih =>
    unfold pairAll
    split
    · rfl
    · rw [ih, leaves_pairUp]

theorem length_pairAll {rounds : Nat} {level : List (HashTree α)} (h : level.length ≤ rounds)
    (hne : level ≠ []) : (pairAll rounds level).length = 1 := by
  induction rounds generalizing level with
  | zero => exact absurd (List.eq_nil_of_length_eq_zero (Nat.le_zero.mp h)) hne
  | succ rounds ih =>
    have hpos : 0 < level.length := List.length_pos_iff.mpr hne
    unfold pairAll
    split
    · omega
    · have hlen := length_pairUp level
      refine ih (by omega) ?_
      rintro hnil
      rw [hnil, List.length_nil] at hlen
      omega

section Joining

variable {value : α → Except ε β} {join : β → β → Except ε β}

theorem Folds.unique {t : HashTree α} {b b' : β} (h : Folds value join t b)
    (h' : Folds value join t b') : b = b' := by
  induction h generalizing b' with
  | leaf hv =>
    cases h' with
    | leaf hv' => exact Except.ok.inj (hv.symm.trans hv')
  | node hx hy hb ihx ihy =>
    cases h' with
    | node hx' hy' hb' =>
      obtain rfl := ihx hx'
      obtain rfl := ihy hy'
      exact Except.ok.inj (hb.symm.trans hb')

theorem Folds.map {γ : Type*} {value' : α → Except ε γ} {join' : γ → γ → Except ε γ} (g : β → γ)
    (hvalue : ∀ a b, value a = .ok b → value' a = .ok (g b))
    (hjoin : ∀ x y b, join x y = .ok b → join' (g x) (g y) = .ok (g b)) {t : HashTree α} {b : β}
    (h : Folds value join t b) : Folds value' join' t (g b) := by
  induction h with
  | leaf hv => exact .leaf (hvalue _ _ hv)
  | node _ _ hb ihx ihy => exact .node ihx ihy (hjoin _ _ _ hb)

theorem folds_map {γ : Type*} {f : γ → α} {t : HashTree γ} {b : β} :
    Folds value join (t.map f) b ↔ Folds (fun a => value (f a)) join t b := by
  induction t generalizing b with
  | leaf a =>
    constructor
    · rintro ⟨hv⟩
      exact .leaf hv
    · rintro ⟨hv⟩
      exact .leaf hv
  | node left right ihl ihr =>
    constructor
    · intro h
      cases h with
      | node hx hy hb => exact .node (ihl.mp hx) (ihr.mp hy) hb
    · intro h
      cases h with
      | node hx hy hb => exact .node (ihl.mpr hx) (ihr.mpr hy) hb

variable {trees : List (HashTree α)}

theorem joinLevel_folds {level next : List β} (h : List.Forall₂ (Folds value join) trees level) :
    joinLevel join level = .ok next ↔ List.Forall₂ (Folds value join) (pairUp trees) next := by
  induction trees using pairUp.induct generalizing level next with
  | case1 left right rest ih =>
    rcases h with _ | ⟨hx, h⟩
    rcases h with _ | ⟨hy, h⟩
    rename_i x y level
    constructor
    · intro hj
      cases hp : join x y with
      | error e => simp [joinLevel, hp, bind, Except.bind] at hj
      | ok parent =>
        cases hn : joinLevel join level with
        | error e => simp [joinLevel, hp, hn, bind, Except.bind] at hj
        | ok rest' =>
          simp only [joinLevel, hp, hn, bind, Except.bind, pure, Except.pure, Except.ok.injEq] at hj
          subst hj
          exact List.Forall₂.cons (Folds.node hx hy hp) ((ih h).mp hn)
    · intro hf
      rcases hf with _ | ⟨hparent, hrest⟩
      cases hparent with
      | node hx' hy' hp =>
        obtain rfl := hx.unique hx'
        obtain rfl := hy.unique hy'
        simp [joinLevel, hp, (ih h).mpr hrest, bind, Except.bind, pure, Except.pure]
  | case2 trees hne =>
    match trees, level, h, hne with
    | [], [], _, _ =>
      simp only [joinLevel, pairUp, List.forall₂_nil_left_iff, Except.ok.injEq]
      exact eq_comm
    | [t], [b], h, _ =>
      have hb : Folds value join t b := by
        rcases h with _ | ⟨hb, -⟩
        exact hb
      simp only [joinLevel, pairUp, Except.ok.injEq]
      constructor
      · rintro rfl
        exact List.Forall₂.cons hb List.Forall₂.nil
      · intro hf
        rcases hf with _ | ⟨hb', hnil⟩
        rcases hnil
        rw [hb.unique hb']
    | left :: right :: rest, _, _, hne => exact absurd rfl (hne left right rest)

theorem exists_folds :
    (∃ level, List.Forall₂ (Folds value join) trees level) ↔ ∀ t ∈ trees, ∃ b, Folds value join t b := by
  induction trees with
  | nil => simp
  | cons t trees ih =>
    simp only [List.forall_mem_cons, ← ih]
    constructor
    · rintro ⟨level, h⟩
      rcases h with _ | ⟨hb, h⟩
      exact ⟨⟨_, hb⟩, _, h⟩
    · rintro ⟨⟨b, hb⟩, level, h⟩
      exact ⟨_, List.Forall₂.cons hb h⟩

theorem folds_of_pairUp
    (h : ∀ t ∈ pairUp trees, ∃ b, Folds value join t b) : ∀ t ∈ trees, ∃ b, Folds value join t b := by
  induction trees using pairUp.induct with
  | case1 left right rest ih =>
    simp only [pairUp, List.forall_mem_cons] at h ⊢
    obtain ⟨⟨b, hb⟩, hrest⟩ := h
    cases hb with
    | node hx hy _ => exact ⟨⟨_, hx⟩, ⟨_, hy⟩, ih hrest⟩
  | case2 trees hne =>
    intro t ht
    exact h t (by simpa [pairUp] using ht)

theorem folds_of_pairAll {rounds : Nat} (h : ∀ t ∈ pairAll rounds trees, ∃ b, Folds value join t b) :
    ∀ t ∈ trees, ∃ b, Folds value join t b := by
  induction rounds generalizing trees with
  | zero => exact h
  | succ rounds ih =>
    unfold pairAll at h
    split at h
    · exact h
    · exact folds_of_pairUp (ih h)

theorem joinRounds_folds {level next : List β}
    (h : List.Forall₂ (Folds value join) trees level) (rounds : Nat) :
    joinRounds join rounds level = .ok next ↔
      List.Forall₂ (Folds value join) (pairAll rounds trees) next := by
  have same : ∀ {trees : List (HashTree α)} {level next : List β},
      List.Forall₂ (Folds value join) trees level →
      ((Except.ok level : Except ε (List β)) = .ok next ↔
        List.Forall₂ (Folds value join) trees next) := by
    intro trees level next h
    constructor
    · intro he
      cases he
      exact h
    · intro h'
      congr 1
      induction h generalizing next with
      | nil => exact (List.forall₂_nil_left_iff.mp h').symm
      | cons hb _ ih =>
        rcases h' with _ | ⟨hb', h'⟩
        rw [hb.unique hb', ih h']
  induction rounds generalizing trees level with
  | zero => exact same h
  | succ rounds ih =>
    have hlen := h.length_eq
    unfold joinRounds pairAll
    by_cases hshort : level.length ≤ 1
    · rw [if_pos hshort, if_pos (hlen ▸ hshort)]
      exact same h
    · rw [if_neg hshort, if_neg (hlen ▸ hshort)]
      cases hj : joinLevel join level with
      | ok joined => exact ih ((joinLevel_folds h).mp hj)
      | error e =>
        constructor
        · intro he
          cases he
        · intro hf
          obtain ⟨joined, hjoined⟩ := exists_folds.mpr (folds_of_pairAll (exists_folds.mp ⟨next, hf⟩))
          rw [(joinLevel_folds h).mpr hjoined] at hj
          cases hj

end Joining

/-- The tree that the rounds build over these leaves. -/
def ofList (as : List α) : Option (HashTree α) := (pairAll as.length (as.map leaf)).head?

theorem exists_root {as : List α} (hne : as ≠ []) :
    ∃ t, pairAll as.length (as.map leaf) = [t] := by
  have hlen : (as.map leaf).length ≤ as.length := by simp
  exact List.length_eq_one_iff.mp (length_pairAll hlen (by simpa using hne))

theorem ofList_pairAll {as : List α} {t : HashTree α} (h : ofList as = some t) :
    pairAll as.length (as.map leaf) = [t] := by
  have hne : as ≠ [] := by
    rintro rfl
    simp [ofList, pairAll] at h
  obtain ⟨t', ht'⟩ := exists_root hne
  rw [ofList, ht', List.head?_cons, Option.some.injEq] at h
  rw [ht', h]

theorem ofList_leaves {as : List α} {t : HashTree α} (h : ofList as = some t) : t.leaves = as := by
  have hl := leaves_pairAll as.length (as.map leaf)
  rw [ofList_pairAll h] at hl
  simpa [List.flatMap_map, leaves, List.flatMap_singleton'] using hl

theorem ofList_eq_none {as : List α} : ofList as = none ↔ as = [] := by
  constructor
  · intro h
    by_contra hne
    obtain ⟨t, ht⟩ := exists_root hne
    rw [ofList, ht] at h
    cases h
  · rintro rfl
    rfl

section Rounds

variable {value : α → Except ε β} {join : β → β → Except ε β} {as : List α} {t : HashTree α}

theorem folds_leaves {level : List β} : List.Forall₂ (Folds value join) (as.map leaf) level ↔
    List.Forall₂ (fun a b => value a = .ok b) as level := by
  rw [List.forall₂_map_left_iff]
  constructor
  · intro h
    refine h.imp ?_
    intro a b hab
    cases hab with
    | leaf hv => exact hv
  · intro h
    exact h.imp fun a b hab => Folds.leaf hab

theorem joinRounds_ofList (h : ofList as = some t) {level : List β}
    (hlevel : List.Forall₂ (fun a b => value a = .ok b) as level) {b : β} :
    joinRounds join level.length level = .ok [b] ↔ Folds value join t b := by
  rw [joinRounds_folds (folds_leaves.mpr hlevel), ← hlevel.length_eq, ofList_pairAll h]
  simp

theorem joinRounds_singleton (h : ofList as = some t) {level top : List β}
    (hlevel : List.Forall₂ (fun a b => value a = .ok b) as level)
    (htop : joinRounds join level.length level = .ok top) : ∃ b, top = [b] := by
  have hf := (joinRounds_folds (folds_leaves.mpr hlevel) _).mp htop
  rw [← hlevel.length_eq, ofList_pairAll h] at hf
  exact List.length_eq_one_iff.mp hf.length_eq.symm

theorem level_of_folds (h : ofList as = some t) {b : β} (ht : Folds value join t b) :
    ∃ level, List.Forall₂ (fun a b => value a = .ok b) as level := by
  have hroot : ∀ t' ∈ pairAll as.length (as.map leaf), ∃ b, Folds value join t' b := by
    rw [ofList_pairAll h]
    simpa using ⟨b, ht⟩
  obtain ⟨level, hlevel⟩ := exists_folds.mpr (folds_of_pairAll hroot)
  exact ⟨level, folds_leaves.mp hlevel⟩

end Rounds

end HashTree

/-! ## Sum-carrying hashes -/

structure SumNode (δ : Type u) where
  hash : δ
  sum : Int

namespace HashTree

section Hashing

variable {α : Type u} {γ δ : Type v} {ε : Type w}
variable (hash : γ → δ) (leafText : α → Except ε γ) (leafSum : α → Int)
variable (nodeText : SumNode δ → SumNode δ → Except ε γ)

def leafNode (a : α) : Except ε (SumNode δ) := do
  return ⟨hash (← leafText a), leafSum a⟩

def joinNodes (left right : SumNode δ) : Except ε (SumNode δ) := do
  return ⟨hash (← nodeText left right), left.sum + right.sum⟩

abbrev Root : HashTree α → SumNode δ → Prop :=
  Folds (leafNode hash leafText leafSum) (joinNodes hash nodeText)

inductive Hashed : HashTree α → γ → Prop
  | leaf {a : α} {text : γ} : leafText a = .ok text → Hashed (.leaf a) text
  | left {left right : HashTree α} {text : γ} : Hashed left text → Hashed (.node left right) text
  | right {left right : HashTree α} {text : γ} : Hashed right text → Hashed (.node left right) text
  | node {left right : HashTree α} {u v : SumNode δ} {text : γ} :
      Root hash leafText leafSum nodeText left u → Root hash leafText leafSum nodeText right v →
      nodeText u v = .ok text → Hashed (.node left right) text

variable {hash leafText leafSum nodeText}

variable {t : HashTree α} {b : SumNode δ}

theorem leafNode_ok {a : α} : leafNode hash leafText leafSum a = .ok b ↔
    ∃ text, leafText a = .ok text ∧ b = ⟨hash text, leafSum a⟩ := by
  unfold leafNode
  cases leafText a <;> simp [bind, Except.bind, pure, Except.pure, eq_comm]

theorem joinNodes_ok {left right b : SumNode δ} : joinNodes hash nodeText left right = .ok b ↔
    ∃ text, nodeText left right = .ok text ∧ b = ⟨hash text, left.sum + right.sum⟩ := by
  unfold joinNodes
  cases nodeText left right <;> simp [bind, Except.bind, pure, Except.pure, eq_comm]

theorem Root.sum_eq (h : Root hash leafText leafSum nodeText t b) :
    b.sum = (t.leaves.map leafSum).sum := by
  induction h with
  | leaf hv =>
    obtain ⟨text, -, rfl⟩ := leafNode_ok.mp hv
    simp [leaves]
  | node _ _ hb ihx ihy =>
    obtain ⟨text, -, rfl⟩ := joinNodes_ok.mp hb
    simp [leaves, ihx, ihy]

theorem Root.hash_mem (h : Root hash leafText leafSum nodeText t b) : b.hash ∈ Set.range hash := by
  cases h with
  | leaf hv =>
    obtain ⟨text, -, rfl⟩ := leafNode_ok.mp hv
    exact ⟨text, rfl⟩
  | node _ _ hb =>
    obtain ⟨text, -, rfl⟩ := joinNodes_ok.mp hb
    exact ⟨text, rfl⟩

theorem Hashed.text {text : γ} (h : Hashed hash leafText leafSum nodeText t text) :
    (∃ a, leafText a = .ok text) ∨ ∃ u v, nodeText u v = .ok text := by
  induction h with
  | leaf htext => exact Or.inl ⟨_, htext⟩
  | left _ ih => exact ih
  | right _ ih => exact ih
  | node _ _ htext => exact Or.inr ⟨_, _, htext⟩

theorem Root.hashed (h : Root hash leafText leafSum nodeText t b) :
    ∃ text, Hashed hash leafText leafSum nodeText t text ∧ b.hash = hash text := by
  cases h with
  | leaf hv =>
    obtain ⟨text, htext, rfl⟩ := leafNode_ok.mp hv
    exact ⟨text, .leaf htext, rfl⟩
  | node hx hy hb =>
    obtain ⟨text, htext, rfl⟩ := joinNodes_ok.mp hb
    exact ⟨text, .node hx hy htext, rfl⟩

/-- The texts hashed on the way to the root, and the root itself, as far as the texts go. -/
def texts (hash : γ → δ) (leafText : α → Except ε γ) (leafSum : α → Int)
    (nodeText : SumNode δ → SumNode δ → Except ε γ) : HashTree α → List γ × Option (SumNode δ)
  | leaf a =>
    match leafText a with
    | .error _ => ([], none)
    | .ok text => ([text], some ⟨hash text, leafSum a⟩)
  | node left right =>
    match left.texts hash leafText leafSum nodeText, right.texts hash leafText leafSum nodeText with
    | (below, some u), (below', some v) =>
      match nodeText u v with
      | .error _ => (below ++ below', none)
      | .ok text => (below ++ below' ++ [text], some ⟨hash text, u.sum + v.sum⟩)
    | (below, _), (below', _) => (below ++ below', none)

theorem Root.texts (h : Root hash leafText leafSum nodeText t b) :
    (t.texts hash leafText leafSum nodeText).2 = some b := by
  induction h with
  | leaf hv =>
    obtain ⟨text, htext, rfl⟩ := leafNode_ok.mp hv
    simp [HashTree.texts, htext]
  | @node left right x y b _ _ hb ihx ihy =>
    obtain ⟨text, htext, rfl⟩ := joinNodes_ok.mp hb
    rcases hl : left.texts hash leafText leafSum nodeText with ⟨below, u⟩
    rcases hr : right.texts hash leafText leafSum nodeText with ⟨below', v⟩
    rw [hl] at ihx
    rw [hr] at ihy
    obtain rfl : u = some x := ihx
    obtain rfl : v = some y := ihy
    simp [HashTree.texts, hl, hr, htext]

theorem Hashed.mem_texts {text : γ} (h : Hashed hash leafText leafSum nodeText t text) :
    text ∈ (t.texts hash leafText leafSum nodeText).1 := by
  have hbelow : ∀ left right : HashTree α,
      text ∈ (left.texts hash leafText leafSum nodeText).1 ++
        (right.texts hash leafText leafSum nodeText).1 →
      text ∈ (texts hash leafText leafSum nodeText (.node left right)).1 := by
    intro left right hm
    rcases hl : left.texts hash leafText leafSum nodeText with ⟨below, _ | u⟩ <;>
      rcases hr : right.texts hash leafText leafSum nodeText with ⟨below', _ | v⟩ <;>
        rw [hl, hr] at hm <;> simp only [HashTree.texts, hl, hr]
    all_goals try exact hm
    cases nodeText u v with
    | error e => exact hm
    | ok text' => exact List.mem_append_left _ hm
  induction h with
  | leaf htext => simp [HashTree.texts, htext]
  | left _ ih => exact hbelow _ _ (List.mem_append_left _ (ih hbelow))
  | right _ ih => exact hbelow _ _ (List.mem_append_right _ (ih hbelow))
  | @node left right u v text hx hy htext =>
    have hu := Root.texts hx
    have hv := Root.texts hy
    rcases hl : left.texts hash leafText leafSum nodeText with ⟨below, u'⟩
    rcases hr : right.texts hash leafText leafSum nodeText with ⟨below', v'⟩
    rw [hl] at hu
    rw [hr] at hv
    obtain rfl : u' = some u := hu
    obtain rfl : v' = some v := hv
    simp [HashTree.texts, hl, hr, htext]

theorem hashed_map {β : Type*} {f : β → α} {t : HashTree β} {text : γ}
    (h : Hashed hash leafText leafSum nodeText (t.map f) text) :
    Hashed hash (fun a => leafText (f a)) (fun a => leafSum (f a)) nodeText t text := by
  induction t with
  | leaf a =>
    cases h with
    | leaf htext => exact .leaf htext
  | node left right ihl ihr =>
    cases h with
    | left h => exact .left (ihl h)
    | right h => exact .right (ihr h)
    | node hx hy htext =>
      have hx' := (folds_map (f := f)).mp hx
      have hy' := (folds_map (f := f)).mp hy
      exact .node hx' hy' htext

/-- Every subtree's sum is one that `P` allows. -/
def SumsIn (P : Int → Prop) (leafSum : α → Int) : HashTree α → Prop
  | leaf a => P (leafSum a)
  | node left right => left.SumsIn P leafSum ∧ right.SumsIn P leafSum ∧
      P ((left.leaves.map leafSum).sum + (right.leaves.map leafSum).sum)

/-- Where only the sums can fail, a tree has a root exactly when its sums are allowed. -/
theorem exists_hashed_root {P : Int → Prop} (hleaf : ∀ a, (∃ text, leafText a = .ok text) ↔ P (leafSum a))
    (hnode : ∀ u v : SumNode δ, (∃ text, nodeText u v = .ok text) ↔ P (u.sum + v.sum)) :
    (∃ b, Root hash leafText leafSum nodeText t b) ↔ t.SumsIn P leafSum := by
  induction t with
  | leaf a =>
    rw [SumsIn, ← hleaf]
    constructor
    · rintro ⟨b, h⟩
      cases h with
      | leaf hv =>
        obtain ⟨text, htext, -⟩ := leafNode_ok.mp hv
        exact ⟨text, htext⟩
    · rintro ⟨text, htext⟩
      exact ⟨_, .leaf (leafNode_ok.mpr ⟨text, htext, rfl⟩)⟩
  | node left right ihl ihr =>
    rw [SumsIn, ← ihl, ← ihr]
    constructor
    · rintro ⟨b, h⟩
      cases h with
      | node hx hy hb =>
        obtain ⟨text, htext, -⟩ := joinNodes_ok.mp hb
        refine ⟨⟨_, hx⟩, ⟨_, hy⟩, ?_⟩
        rw [← Root.sum_eq hx, ← Root.sum_eq hy]
        exact (hnode _ _).mp ⟨text, htext⟩
    · rintro ⟨⟨x, hx⟩, ⟨y, hy⟩, h⟩
      rw [← Root.sum_eq hx, ← Root.sum_eq hy] at h
      obtain ⟨text, htext⟩ := (hnode x y).mpr h
      exact ⟨_, .node hx hy (joinNodes_ok.mpr ⟨text, htext, rfl⟩)⟩

/-- Texts that tell leaves from nodes and nodes of hashes from each other. -/
structure Separated (hash : γ → δ) (leafText : α → Except ε γ)
    (nodeText : SumNode δ → SumNode δ → Except ε γ) (dom : α → Prop) : Prop where
  leaf : ∀ {a a' text}, dom a → dom a' → leafText a = .ok text → leafText a' = .ok text → a = a'
  node : ∀ {u v u' v' text}, u.hash ∈ Set.range hash → u'.hash ∈ Set.range hash →
    nodeText u v = .ok text → nodeText u' v' = .ok text → u.hash = u'.hash ∧ v.hash = v'.hash
  apart : ∀ {a u v text}, leafText a = .ok text → nodeText u v ≠ .ok text

/-- With no collision among the texts hashed, equal root hashes have one tree below them. -/
theorem Root.binds {dom : α → Prop} (hsep : Separated hash leafText nodeText dom) {S : Set γ}
    (hfree : Set.InjOn hash S) {t t' : HashTree α} {b b' : SumNode δ}
    (h : Root hash leafText leafSum nodeText t b) (h' : Root hash leafText leafSum nodeText t' b')
    (hS : ∀ text, Hashed hash leafText leafSum nodeText t text → text ∈ S)
    (hS' : ∀ text, Hashed hash leafText leafSum nodeText t' text → text ∈ S)
    (hdom : ∀ a ∈ t.leaves, dom a) (hdom' : ∀ a ∈ t'.leaves, dom a) (heq : b.hash = b'.hash) :
    t = t' := by
  induction h generalizing t' b' with
  | leaf hv =>
    rename_i a b
    obtain ⟨text, htext, rfl⟩ := leafNode_ok.mp hv
    cases h' with
    | leaf hv' =>
      rename_i a'
      obtain ⟨text', htext', rfl⟩ := leafNode_ok.mp hv'
      obtain rfl := hfree (hS _ (.leaf htext)) (hS' _ (.leaf htext')) heq
      rw [hsep.leaf (hdom a (by simp [leaves])) (hdom' a' (by simp [leaves])) htext htext']
    | node hx hy hb =>
      obtain ⟨text', htext', rfl⟩ := joinNodes_ok.mp hb
      obtain rfl := hfree (hS _ (.leaf htext)) (hS' _ (.node hx hy htext')) heq
      exact absurd htext' (hsep.apart htext)
  | node hx hy hb ihx ihy =>
    obtain ⟨text, htext, rfl⟩ := joinNodes_ok.mp hb
    cases h' with
    | leaf hv' =>
      obtain ⟨text', htext', rfl⟩ := leafNode_ok.mp hv'
      obtain rfl := hfree (hS _ (.node hx hy htext)) (hS' _ (.leaf htext')) heq
      exact absurd htext (hsep.apart htext')
    | node hx' hy' hb' =>
      obtain ⟨text', htext', rfl⟩ := joinNodes_ok.mp hb'
      obtain rfl := hfree (hS _ (.node hx hy htext)) (hS' _ (.node hx' hy' htext')) heq
      obtain ⟨hl, hr⟩ := hsep.node (Root.hash_mem hx) (Root.hash_mem hx') htext htext'
      simp only [leaves, List.mem_append] at hdom hdom'
      rw [ihx hx' (fun x hm => hS x (.left hm)) (fun x hm => hS' x (.left hm))
          (fun a ha => hdom a (Or.inl ha)) (fun a ha => hdom' a (Or.inl ha)) hl,
        ihy hy' (fun x hm => hS x (.right hm)) (fun x hm => hS' x (.right hm))
          (fun a ha => hdom a (Or.inr ha)) (fun a ha => hdom' a (Or.inr ha)) hr]

end Hashing

end HashTree

end EconomyLab.Foundation
