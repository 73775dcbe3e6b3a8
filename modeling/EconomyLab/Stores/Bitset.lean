import EconomyLab.Foundation.Bitsets
import EconomyLab.Stores.Rows

/-!
# The bitmap of what a user owns

Every SKU is interned under a number, and a user's bitmap has a bit for each SKU the user
holds, with a deadline where a grant expires. A deadline of 0 stands for none.
-/

namespace EconomyLab

open Foundation Text

abbrev EntitlementRows := OrderedTable String EntitlementRow

def EntitlementRow.ownedAt (row : EntitlementRow) (now : Int) : Bool :=
  !row.revoked && row.attrs.expiresAt.all (now ≤ ·)

def ownsAt (rows : EntitlementRows) (userId sku : String) (now : Int) : Bool :=
  (rows.get (entitlementKey userId sku)).any (·.ownedAt now)

/-- `list` of the memory store: the SKU of each row that is not revoked, with its expiry. -/
def listGrants (rows : EntitlementRows) (userId : String) : List (String × Option Int) :=
  let pre := userId ++ "::"
  let grants := rows.entries.filterMap fun entry =>
    if startsWith entry.1 pre && !entry.2.revoked then
      some (String.ofList (entry.1.toList.drop pre.toList.length), entry.2.attrs.expiresAt)
    else none
  grants.insertionSort fun a b => codeUnitLe a.1 b.1

/-! ## The cache -/

structure UserBitmap where
  bits : Words
  deadlines : Option (List Int)
  loadedAt : Int

structure BitsetCache where
  skuIds : OrderedTable String Nat
  users : OrderedTable String UserBitmap
  ttlMs : Int
  maxUsers : Int

/-- The bit of a SKU and its deadline. -/
def UserBitmap.test (entry : UserBitmap) (id : Nat) (now : Int) : Bool :=
  entry.bits.has id &&
    match entry.deadlines with
    | none => true
    | some deadlines => deadlines[id]?.any fun deadline => deadline = 0 || now ≤ deadline

namespace BitsetCache

def empty (ttlMs maxUsers : Int) : BitsetCache := ⟨OrderedTable.empty, OrderedTable.empty, ttlMs, maxUsers⟩

/-- What a bitmap answers about a SKU; one that was never interned is held by no one. -/
def holds (cache : BitsetCache) (entry : UserBitmap) (sku : String) (now : Int) : Bool :=
  match cache.skuIds.get sku with
  | none => false
  | some id => entry.test id now

/-- `none` where the bitmap is missing or stale. -/
def check (cache : BitsetCache) (userId sku : String) (now : Int) : Option Bool :=
  match cache.users.get userId with
  | none => none
  | some entry => if now - entry.loadedAt > cache.ttlMs then none else some (cache.holds entry sku now)

/-- The number of a SKU, interned when it is new. -/
def idOf (skuIds : OrderedTable String Nat) (sku : String) : Nat × OrderedTable String Nat :=
  match skuIds.get sku with
  | some id => (id, skuIds)
  | none => (skuIds.entries.length, skuIds.set sku skuIds.entries.length)

def internAll : OrderedTable String Nat → List (String × Option Int) →
    List (Nat × Option Int) × OrderedTable String Nat
  | skuIds, [] => ([], skuIds)
  | skuIds, grant :: grants =>
    let (id, skuIds) := idOf skuIds grant.1
    let (slots, skuIds) := internAll skuIds grants
    ((id, grant.2) :: slots, skuIds)

/-- The bit of a grant is set, and its deadline if it has one. -/
def fill (size : Nat) (slots : Words × Option (List Int)) (grant : Nat × Option Int) :
    Words × Option (List Int) :=
  (slots.1.add grant.1,
    match grant.2 with
    | none => slots.2
    | some expiresAt => some ((slots.2.getD (List.replicate size 0)).set grant.1 expiresAt))

def evict (maxUsers : Int) (users : OrderedTable String UserBitmap) : OrderedTable String UserBitmap :=
  if (users.entries.length : Int) > maxUsers then ⟨users.entries.drop 1⟩ else users

def bitmapOf (skuIds : OrderedTable String Nat) (grants : List (Nat × Option Int)) (loadedAt : Int) :
    UserBitmap :=
  let slots := grants.foldl (fill skuIds.entries.length)
    (Words.zeros (skuIds.entries.length / 32 + 1), none)
  ⟨slots.1, slots.2, loadedAt⟩

def rebuild (cache : BitsetCache) (rows : EntitlementRows) (userId : String) (loadedAt : Int) :
    BitsetCache :=
  let (grants, skuIds) := internAll cache.skuIds (listGrants rows userId)
  { cache with
    skuIds
    users := evict cache.maxUsers ((cache.users.delete userId).set userId
      (bitmapOf skuIds grants loadedAt)) }

def invalidate (cache : BitsetCache) (userId : String) : BitsetCache :=
  { cache with users := cache.users.delete userId }

/-- An entry that was used goes to the end. -/
def touch (cache : BitsetCache) (userId : String) : BitsetCache :=
  match cache.users.get userId with
  | none => cache
  | some entry => { cache with users := (cache.users.delete userId).set userId entry }

end BitsetCache

theorem startsWith_iff {s pre : String} :
    startsWith s pre = true ↔ s = pre ++ String.ofList (s.toList.drop pre.toList.length) := by
  unfold startsWith
  rw [List.isPrefixOf_iff_prefix, List.prefix_iff_eq_append, ← String.toList_inj, String.toList_append,
    String.toList_ofList]
  exact eq_comm

theorem drop_append (pre rest : String) :
    String.ofList ((pre ++ rest).toList.drop pre.toList.length) = rest := by
  rw [String.toList_append, List.drop_left, String.ofList_toList]

variable {rows : EntitlementRows} {skuIds : OrderedTable String Nat}

variable {userId sku : String} {size : Nat} {slots : Words × Option (List Int)}

theorem mem_listGrants (h : rows.keys.Nodup) {expiresAt : Option Int} :
    (sku, expiresAt) ∈ listGrants rows userId ↔
      ∃ row, rows.get (entitlementKey userId sku) = some row ∧ row.revoked = false ∧ row.attrs.expiresAt =
        expiresAt := by
  unfold listGrants
  simp only [List.mem_insertionSort, List.mem_filterMap]
  constructor
  · rintro ⟨⟨key, row⟩, hentry, hgrant⟩
    split at hgrant
    · rename_i hlisted
      simp only [Bool.and_eq_true, Bool.not_eq_true'] at hlisted
      obtain ⟨hsku, hexpiry⟩ := Prod.mk.inj (Option.some.inj hgrant)
      refine ⟨row, ?_, hlisted.2, hexpiry⟩
      apply (OrderedTable.get_eq_some h).mpr
      have hkey := startsWith_iff.mp hlisted.1
      simp only at hkey hsku
      rw [entitlementKey, ← hsku, ← hkey]
      exact hentry
    · cases hgrant
  · rintro ⟨row, hget, hrevoked, hexpiry⟩
    refine ⟨(entitlementKey userId sku, row), (OrderedTable.get_eq_some h).mp hget, ?_⟩
    have hstarts : startsWith (entitlementKey userId sku) (userId ++ "::") = true := by
      apply startsWith_iff.mpr
      rw [entitlementKey, drop_append]
    have hlisted : (startsWith (entitlementKey userId sku) (userId ++ "::") && !row.revoked) = true := by
      rw [hstarts, hrevoked]
      rfl
    simp only [hlisted, if_true, hexpiry]
    rw [entitlementKey, drop_append]

theorem nodup_listGrants (h : rows.keys.Nodup) (userId : String) :
    ((listGrants rows userId).map Prod.fst).Nodup := by
  unfold listGrants
  simp only
  apply ((List.perm_insertionSort _ _).map Prod.fst).nodup_iff.mpr
  apply List.Nodup.of_map (entitlementKey userId)
  rw [List.map_map, List.map_filterMap]
  apply List.Nodup.sublist _ h
  have hsame : ∀ entry : String × EntitlementRow,
      (if startsWith entry.1 (userId ++ "::") && !entry.2.revoked then
        some (String.ofList (entry.1.toList.drop (userId ++ "::").toList.length), entry.2.attrs.expiresAt)
      else none).map (entitlementKey userId ∘ Prod.fst) =
      if startsWith entry.1 (userId ++ "::") && !entry.2.revoked then some entry.1 else none := by
    intro entry
    split
    · rename_i hlisted
      have hkey := startsWith_iff.mp (Bool.and_eq_true_iff.mp hlisted).1
      exact congrArg some hkey.symm
    · rfl
  simp only [hsame]
  unfold OrderedTable.keys
  generalize rows.entries = entries
  induction entries with
  | nil => exact List.Sublist.refl _
  | cons entry entries ih =>
    rw [List.filterMap_cons, List.map_cons]
    split
    · exact ih.cons entry.1
    · rename_i key hkey
      split at hkey
      · obtain rfl := Option.some.inj hkey
        exact ih.cons_cons entry.1
      · cases hkey

/-! ## Interned numbers -/

/-- No two SKUs have one number, and every number is below the count. -/
structure Interned (skuIds : OrderedTable String Nat) : Prop where
  apart : ∀ sku sku' id, skuIds.get sku = some id → skuIds.get sku' = some id → sku = sku'
  below : ∀ sku id, skuIds.get sku = some id → id < skuIds.entries.length

/-- Numbers that were given stay, and new ones are not below the old count. -/
structure Interns (skuIds skuIds' : OrderedTable String Nat) : Prop where
  interned : Interned skuIds'
  keeps : ∀ sku id, skuIds.get sku = some id → skuIds'.get sku = some id
  new : ∀ sku id, skuIds'.get sku = some id → skuIds.get sku = some id ∨ skuIds.entries.length ≤ id
  grows : skuIds.entries.length ≤ skuIds'.entries.length

namespace Interns

theorem refl (h : Interned skuIds) : Interns skuIds skuIds :=
  ⟨h, fun _ _ hget => hget, fun _ _ hget => Or.inl hget, le_refl _⟩

theorem trans {s s' s'' : OrderedTable String Nat} (h : Interns s s') (h' : Interns s' s'') :
    Interns s s'' where
  interned := h'.interned
  keeps := fun sku id hget => h'.keeps sku id (h.keeps sku id hget)
  new := fun sku id hget => by
    rcases h'.new sku id hget with hold | hnew
    · exact h.new sku id hold
    · exact Or.inr (h.grows.trans hnew)
  grows := h.grows.trans h'.grows

end Interns

theorem length_set_new (h : skuIds.get sku = none) (id : Nat) :
    (skuIds.set sku id).entries.length = skuIds.entries.length + 1 := by
  have hkeys := OrderedTable.keys_put sku id skuIds.entries
  have habsent : sku ∉ skuIds.entries.map Prod.fst := by
    intro hmem
    have hsome := OrderedTable.get_isSome.mpr hmem
    rw [h] at hsome
    cases hsome
  rw [if_neg habsent] at hkeys
  have hlength := congrArg List.length hkeys
  simp only [List.length_map, List.length_append, List.length_singleton] at hlength
  exact hlength

theorem idOf_interns (h : Interned skuIds) (sku : String) :
    Interns skuIds (BitsetCache.idOf skuIds sku).2 ∧
      (BitsetCache.idOf skuIds sku).2.get sku = some (BitsetCache.idOf skuIds sku).1 := by
  unfold BitsetCache.idOf
  cases hget : skuIds.get sku with
  | some id => exact ⟨Interns.refl h, hget⟩
  | none =>
    have hlength := length_set_new hget skuIds.entries.length
    refine ⟨⟨⟨?_, ?_⟩, ?_, ?_, ?_⟩, OrderedTable.get_set_self skuIds sku _⟩
    · intro a b id ha hb
      simp only [OrderedTable.get_set] at ha hb
      by_cases hsa : a = sku
      · by_cases hsb : b = sku
        · exact hsa.trans hsb.symm
        · rw [if_pos hsa] at ha
          rw [if_neg hsb] at hb
          have hlt := h.below b id hb
          obtain rfl := Option.some.inj ha
          exact absurd hlt (lt_irrefl _)
      · rw [if_neg hsa] at ha
        by_cases hsb : b = sku
        · rw [if_pos hsb] at hb
          have hlt := h.below a id ha
          obtain rfl := Option.some.inj hb
          exact absurd hlt (lt_irrefl _)
        · rw [if_neg hsb] at hb
          exact h.apart a b id ha hb
    · intro a id ha
      rw [hlength]
      simp only [OrderedTable.get_set] at ha
      by_cases hsa : a = sku
      · rw [if_pos hsa] at ha
        rw [← Option.some.inj ha]
        exact Nat.lt_succ_self _
      · rw [if_neg hsa] at ha
        exact Nat.lt_succ_of_lt (h.below a id ha)
    · intro a id ha
      have hne : a ≠ sku := by
        rintro rfl
        rw [hget] at ha
        cases ha
      simp only [OrderedTable.get_set, if_neg hne]
      exact ha
    · intro a id ha
      simp only [OrderedTable.get_set] at ha
      by_cases hsa : a = sku
      · rw [if_pos hsa] at ha
        exact Or.inr (Option.some.inj ha).le
      · rw [if_neg hsa] at ha
        exact Or.inl ha
    · rw [hlength]
      exact Nat.le_succ _

def numberOf (skuIds : OrderedTable String Nat) (sku : String) : Nat := (skuIds.get sku).getD 0

theorem numberOf_eq {id : Nat} (h : skuIds.get sku = some id) : numberOf skuIds sku = id := by
  unfold numberOf
  rw [h]
  rfl

theorem internAll_interns (h : Interned skuIds) (grants : List (String × Option Int)) :
    Interns skuIds (BitsetCache.internAll skuIds grants).2 ∧
      (∀ grant ∈ grants, (BitsetCache.internAll skuIds grants).2.get grant.1 =
        some (numberOf (BitsetCache.internAll skuIds grants).2 grant.1)) ∧
      (BitsetCache.internAll skuIds grants).1 =
        grants.map fun grant => (numberOf (BitsetCache.internAll skuIds grants).2 grant.1, grant.2) := by
  induction grants generalizing skuIds with
  | nil => exact ⟨Interns.refl h, fun _ hmem => absurd hmem List.not_mem_nil, rfl⟩
  | cons grant grants ih =>
    obtain ⟨hfirst, hid⟩ := idOf_interns h grant.1
    obtain ⟨hrest, hgets, hslots⟩ := ih hfirst.interned
    have hhead := hrest.keeps _ _ hid
    have hnumber := numberOf_eq hhead
    refine ⟨hfirst.trans hrest, ?_, ?_⟩
    · intro g hg
      rcases List.mem_cons.mp hg with hg | hg
      · rw [hg]
        exact hhead.trans (congrArg some hnumber.symm)
      · exact hgets g hg
    · change (_, grant.2) :: (BitsetCache.internAll (BitsetCache.idOf skuIds grant.1).2 grants).1 = _
      rw [hslots, List.map_cons]
      exact congrArg (fun id => (id, grant.2) :: _) hnumber.symm

def deadlineAt (deadlines : Option (List Int)) (id : Nat) : Option Int :=
  match deadlines with
  | none => some 0
  | some deadlines => deadlines[id]?

theorem UserBitmap.test_eq (entry : UserBitmap) (id : Nat) (now : Int) :
    entry.test id now = (entry.bits.has id && (deadlineAt entry.deadlines id).any fun deadline =>
      deadline = 0 || now ≤ deadline) := by
  unfold UserBitmap.test deadlineAt
  cases entry.deadlines with
  | none => rfl
  | some deadlines => rfl

/-- Slots that have room for every number below the count. -/
structure Roomy (size : Nat) (slots : Words × Option (List Int)) : Prop where
  bits : slots.1.length = size / 32 + 1
  deadlines : ∀ deadlines ∈ slots.2, deadlines.length = size

theorem Roomy.fill (h : Roomy size slots) (grant : Nat × Option Int) :
    Roomy size (BitsetCache.fill size slots grant) := by
  refine ⟨(Words.length_add _ _).trans h.bits, ?_⟩
  intro deadlines hmem
  unfold BitsetCache.fill at hmem
  cases hexpiry : grant.2 with
  | none =>
    rw [hexpiry] at hmem
    exact h.deadlines deadlines hmem
  | some expiresAt =>
    rw [hexpiry] at hmem
    rw [← Option.mem_some_iff.mp hmem, List.length_set]
    cases hslots : slots.2 with
    | none => exact List.length_replicate
    | some old => exact h.deadlines old hslots

/-- One grant sets its own bit and deadline, and no other. -/
theorem fill_spec (h : Roomy size slots) {grant : Nat × Option Int} (hbelow : grant.1 < size) :
    (∀ id, (BitsetCache.fill size slots grant).1.has id = (slots.1.has id || decide (id = grant.1))) ∧
      (∀ expiresAt, grant.2 = some expiresAt → deadlineAt (BitsetCache.fill size slots grant).2 grant.1 =
        some expiresAt) ∧
      ∀ id < size, (grant.2 = none ∨ id ≠ grant.1) →
        deadlineAt (BitsetCache.fill size slots grant).2 id = deadlineAt slots.2 id := by
  have hroom : grant.1 / 32 < slots.1.length := by
    rw [h.bits]
    omega
  have hlength : (slots.2.getD (List.replicate size 0)).length = size := by
    cases hslots : slots.2 with
    | none => exact List.length_replicate
    | some old => exact h.deadlines old hslots
  refine ⟨fun id => Words.has_add hroom id, ?_, ?_⟩
  · intro expiresAt hexpiry
    unfold BitsetCache.fill deadlineAt
    rw [hexpiry]
    simp only
    apply List.getElem?_set_self
    rw [hlength]
    exact hbelow
  · intro id hid hother
    unfold BitsetCache.fill
    cases hexpiry : grant.2 with
    | none => rfl
    | some expiresAt =>
      have hne : grant.1 ≠ id := by
        rcases hother with hnone | hne
        · rw [hexpiry] at hnone
          cases hnone
        · exact hne.symm
      unfold deadlineAt
      simp only
      rw [List.getElem?_set_ne hne]
      cases hslots : slots.2 with
      | none =>
        rw [Option.getD_none, List.getElem?_replicate, if_pos hid]
      | some old => rfl

/-- After the fill the bits are those of the grants, each with its own deadline. -/
theorem foldl_fill {grants : List (Nat × Option Int)} (hnodup : (grants.map Prod.fst).Nodup)
    (hbelow : ∀ grant ∈ grants, grant.1 < size)
    (h : Roomy size slots) :
    (∀ id, (grants.foldl (BitsetCache.fill size) slots).1.has id =
      (slots.1.has id || decide (id ∈ grants.map Prod.fst))) ∧
      (∀ id expiresAt, (id, some expiresAt) ∈ grants →
        deadlineAt (grants.foldl (BitsetCache.fill size) slots).2 id = some expiresAt) ∧
      ∀ id < size, (∀ expiresAt, (id, some expiresAt) ∉ grants) →
        deadlineAt (grants.foldl (BitsetCache.fill size) slots).2 id = deadlineAt slots.2 id := by
  induction grants generalizing slots with
  | nil =>
    exact ⟨fun _ => (Bool.or_false _).symm, fun _ _ hmem => absurd hmem List.not_mem_nil, fun _ _ _ => rfl⟩
  | cons grant grants ih =>
    have hfirst := hbelow grant List.mem_cons_self
    obtain ⟨hbit, hown, hothers⟩ := fill_spec h hfirst
    rw [List.map_cons, List.nodup_cons] at hnodup
    obtain ⟨hbits, hset, hkept⟩ := ih hnodup.2 (fun g hg => hbelow g (List.mem_cons_of_mem _ hg))
      (h.fill grant)
    refine ⟨?_, ?_, ?_⟩
    · intro id
      rw [List.foldl_cons, hbits, hbit, Bool.or_assoc, List.map_cons]
      simp only [List.mem_cons, Bool.decide_or]
    · intro id expiresAt hmem
      rw [List.foldl_cons]
      rcases List.mem_cons.mp hmem with hhead | htail
      · have hid : id = grant.1 := congrArg Prod.fst hhead
        have hlater : ∀ t, (id, some t) ∉ grants := by
          intro t hmem'
          apply hnodup.1
          rw [← hid]
          exact List.mem_map.mpr ⟨_, hmem', rfl⟩
        rw [hkept id (hid ▸ hfirst) hlater, hid]
        exact hown expiresAt (congrArg Prod.snd hhead).symm
      · exact hset id expiresAt htail
    · intro id hid hnone
      rw [List.foldl_cons, hkept id hid fun t hmem => hnone t (List.mem_cons_of_mem _ hmem)]
      apply hothers id hid
      cases hexpiry : grant.2 with
      | none => exact Or.inl rfl
      | some expiresAt =>
        right
        rintro rfl
        apply hnone expiresAt
        rw [← hexpiry]
        exact List.mem_cons_self

/-- No live grant that expired at 0 is asked about later than that. -/
def NoZeroExpiry (rows : EntitlementRows) (userId sku : String) (now : Int) : Prop :=
  ∀ row ∈ rows.get (entitlementKey userId sku), row.revoked = false → row.attrs.expiresAt =
    some 0 → now ≤ 0

/-- A bitmap that answers as the rows of its user do, and has no bit for a number not given yet. -/
structure Mirrors (skuIds : OrderedTable String Nat) (rows : EntitlementRows) (userId : String)
    (entry : UserBitmap) :
    Prop where
  answers : ∀ sku now, NoZeroExpiry rows userId sku now →
    ((skuIds.get sku).any fun id => entry.test id now) = ownsAt rows userId sku now
  below : ∀ id, entry.bits.has id = true → id < skuIds.entries.length

theorem BitsetCache.holds_eq (cache : BitsetCache) (entry : UserBitmap) (sku : String) (now : Int) :
    cache.holds entry sku now = (cache.skuIds.get sku).any fun id => entry.test id now := by
  unfold BitsetCache.holds
  cases cache.skuIds.get sku with
  | none => rfl
  | some id => rfl

namespace Mirrors

variable {skuIds skuIds' : OrderedTable String Nat} {rows rows' : EntitlementRows} {userId : String}
  {entry : UserBitmap}

theorem interns (h : Mirrors skuIds rows userId entry) (hgrows : Interns skuIds skuIds') :
    Mirrors skuIds' rows userId entry := by
  refine ⟨?_, fun id hbit => (h.below id hbit).trans_le hgrows.grows⟩
  intro sku now hclear
  rw [← h.answers sku now hclear]
  cases hold : skuIds.get sku with
  | some id => rw [hgrows.keeps sku id hold]
  | none =>
    cases hget : skuIds'.get sku with
    | none => rfl
    | some id =>
      have hnew : skuIds.entries.length ≤ id := by
        rcases hgrows.new sku id hget with hgiven | hnew
        · rw [hold] at hgiven
          cases hgiven
        · exact hnew
      have hbit : entry.bits.has id = false := by
        cases hb : entry.bits.has id with
        | false => rfl
        | true => exact absurd (h.below id hb) (Nat.not_lt.mpr hnew)
      simp only [Option.any_some, Option.any_none]
      rw [UserBitmap.test_eq, hbit, Bool.false_and]

theorem same (h : Mirrors skuIds rows userId entry)
    (hsame : ∀ sku, rows'.get (entitlementKey userId sku) = rows.get (entitlementKey userId sku)) :
    Mirrors skuIds rows' userId entry := by
  refine ⟨?_, h.below⟩
  intro sku now hclear
  unfold NoZeroExpiry at hclear
  rw [hsame sku] at hclear
  rw [h.answers sku now hclear]
  unfold ownsAt
  rw [hsame sku]

end Mirrors

theorem mem_numbers (h : Interned skuIds) {grants : List (String × Option Int)}
    (hgets : ∀ grant ∈ grants, skuIds.get grant.1 = some (numberOf skuIds grant.1))
    {id : Nat} (hid : skuIds.get sku = some id) (expiresAt : Option Int) :
    (id, expiresAt) ∈ (grants.map fun grant => (numberOf skuIds grant.1, grant.2)) ↔
    (sku, expiresAt) ∈ grants := by
  constructor
  · intro hmem
    obtain ⟨grant, hgrant, heq⟩ := List.mem_map.mp hmem
    obtain ⟨hnumber, hexpiry⟩ := Prod.mk.inj heq
    have hsku : grant.1 = sku := by
      apply h.apart _ _ id _ hid
      rw [hgets grant hgrant, hnumber]
    rw [← hsku, ← hexpiry]
    exact hgrant
  · intro hmem
    apply List.mem_map.mpr
    exact ⟨(sku, expiresAt), hmem, Prod.ext (numberOf_eq hid) (Eq.refl expiresAt)⟩

theorem nodup_numbers (h : Interned skuIds) {grants : List (String × Option Int)}
    (hgets : ∀ grant ∈ grants, skuIds.get grant.1 = some (numberOf skuIds grant.1))
    (hnodup : (grants.map Prod.fst).Nodup) :
    ((grants.map fun grant => (numberOf skuIds grant.1, grant.2)).map Prod.fst).Nodup := by
  have hnames : (grants.map fun grant => (numberOf skuIds grant.1, grant.2)).map Prod.fst =
      (grants.map Prod.fst).map (numberOf skuIds) := by
    rw [List.map_map, List.map_map]
    exact List.map_congr_left fun _ _ => Eq.refl _
  rw [hnames]
  apply List.Nodup.map_on _ hnodup
  intro a ha b hb hsame
  obtain ⟨ga, hga, rfl⟩ := List.mem_map.mp ha
  obtain ⟨gb, hgb, rfl⟩ := List.mem_map.mp hb
  apply h.apart _ _ _ (hgets ga hga)
  rw [hsame]
  exact hgets gb hgb

theorem ownsAt_listed (h : rows.keys.Nodup)
    {expiresAt : Option Int} (hlisted : (sku, expiresAt) ∈ listGrants rows userId) (now : Int) :
    ownsAt rows userId sku now = expiresAt.all (now ≤ ·) := by
  obtain ⟨row, hget, hrevoked, hexpiry⟩ := (mem_listGrants h).mp hlisted
  unfold ownsAt EntitlementRow.ownedAt
  rw [hget, Option.any_some, hrevoked, hexpiry, Bool.not_false, Bool.true_and]

theorem ownsAt_unlisted (h : rows.keys.Nodup)
    (hunlisted : ∀ expiresAt, (sku, expiresAt) ∉ listGrants rows userId) (now : Int) :
    ownsAt rows userId sku now = false := by
  unfold ownsAt EntitlementRow.ownedAt
  cases hget : rows.get (entitlementKey userId sku) with
  | none => rfl
  | some row =>
    rw [Option.any_some]
    cases hrevoked : row.revoked with
    | true => rfl
    | false => exact absurd ((mem_listGrants h).mpr ⟨row, hget, hrevoked, rfl⟩) (hunlisted _)

theorem bitmapOf_mirrors (hrows : rows.keys.Nodup) (h : Interned skuIds) (userId : String)
    (loadedAt : Int) :
    Interns skuIds (BitsetCache.internAll skuIds (listGrants rows userId)).2 ∧
      Mirrors (BitsetCache.internAll skuIds (listGrants rows userId)).2 rows userId
        (BitsetCache.bitmapOf (BitsetCache.internAll skuIds (listGrants rows userId)).2
          (BitsetCache.internAll skuIds (listGrants rows userId)).1 loadedAt) := by
  obtain ⟨hinterns, hgets, hslots⟩ := internAll_interns h (listGrants rows userId)
  refine ⟨hinterns, ?_⟩
  rw [hslots]
  generalize (BitsetCache.internAll skuIds (listGrants rows userId)).2 = skuIds' at hinterns hgets
  have hinterned := hinterns.interned
  set grants := (listGrants rows userId).map fun grant => (numberOf skuIds' grant.1, grant.2) with hgrants
  have hbelow : ∀ grant ∈ grants, grant.1 < skuIds'.entries.length := by
    intro grant hgrant
    obtain ⟨listed, hlisted, heq⟩ := List.mem_map.mp hgrant
    rw [← heq]
    exact hinterned.below _ _ (hgets listed hlisted)
  have hnodup : (grants.map Prod.fst).Nodup := by
    exact nodup_numbers hinterned hgets (nodup_listGrants hrows userId)
  have hroomy : Roomy skuIds'.entries.length (Words.zeros (skuIds'.entries.length / 32 + 1), none) :=
    ⟨List.length_replicate, fun _ hmem => by cases hmem⟩
  obtain ⟨hbits, hset, hkept⟩ := foldl_fill hnodup hbelow hroomy
  have hhas : ∀ id, (BitsetCache.bitmapOf skuIds' grants loadedAt).bits.has id =
      decide (id ∈ grants.map Prod.fst) := by
    intro id
    apply (hbits id).trans
    rw [Words.has_zeros, Bool.false_or]
  refine ⟨?_, ?_⟩
  · intro sku now hclear
    cases hid : skuIds'.get sku with
    | none =>
      have hunlisted : ∀ expiresAt, (sku, expiresAt) ∉ listGrants rows userId := by
        intro expiresAt hlisted
        have hgiven := hgets _ hlisted
        rw [hid] at hgiven
        cases hgiven
      rw [ownsAt_unlisted hrows hunlisted, Option.any_none]
    | some id =>
      rw [Option.any_some, UserBitmap.test_eq, hhas]
      by_cases hlisted : ∃ expiresAt, (sku, expiresAt) ∈ listGrants rows userId
      · obtain ⟨expiresAt, hlisted⟩ := hlisted
        have hmem := (mem_numbers hinterned hgets hid expiresAt).mpr hlisted
        rw [ownsAt_listed hrows hlisted, decide_eq_true (List.mem_map.mpr ⟨_, hmem, rfl⟩), Bool.true_and]
        cases expiresAt with
        | some deadline =>
          have hdeadline : deadlineAt (BitsetCache.bitmapOf skuIds' grants loadedAt).deadlines id =
            some deadline :=
            hset id deadline hmem
          have hzero : deadline = 0 → now ≤ 0 := by
            intro hzero
            obtain ⟨row, hget, hrevoked, hexpiry⟩ := (mem_listGrants hrows).mp hlisted
            exact hclear row hget hrevoked (hexpiry.trans (congrArg some hzero))
          rw [hdeadline, Option.any_some, Option.all_some]
          by_cases hz : deadline = 0
          · rw [hz]
            simp only [decide_true, Bool.true_or, hzero hz]
          · simp only [hz, decide_false, Bool.false_or]
        | none =>
          have hnever : ∀ deadline, (id, some deadline) ∉ grants := by
            intro deadline hmem'
            have hlisted' := (mem_numbers hinterned hgets hid (some deadline)).mp hmem'
            obtain ⟨row, hget, -, hexpiry⟩ := (mem_listGrants hrows).mp hlisted
            obtain ⟨row', hget', -, hexpiry'⟩ := (mem_listGrants hrows).mp hlisted'
            rw [hget] at hget'
            obtain rfl := Option.some.inj hget'
            rw [hexpiry] at hexpiry'
            cases hexpiry'
          have hdeadline : deadlineAt (BitsetCache.bitmapOf skuIds' grants loadedAt).deadlines id =
            some 0 :=
            hkept id (hbelow _ hmem) hnever
          rw [hdeadline]
          rfl
      · have hunset : id ∉ grants.map Prod.fst := by
          intro hmem
          obtain ⟨grant, hgrant, heq⟩ := List.mem_map.mp hmem
          apply hlisted
          refine ⟨grant.2, (mem_numbers hinterned hgets hid grant.2).mp ?_⟩
          rw [← heq]
          exact hgrant
        rw [decide_eq_false hunset, Bool.false_and]
        exact (ownsAt_unlisted hrows (fun expiresAt hmem => hlisted ⟨expiresAt, hmem⟩) now).symm
  · intro id hbit
    rw [hhas] at hbit
    obtain ⟨grant, hgrant, heq⟩ := List.mem_map.mp (of_decide_eq_true hbit)
    rw [← heq]
    exact hbelow grant hgrant

end EconomyLab
