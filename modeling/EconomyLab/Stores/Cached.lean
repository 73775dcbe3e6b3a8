import EconomyLab.Foundation.Runs
import EconomyLab.Stores.Bitset

/-!
# The store whose `owns` is served from bitmaps

A grant or a revoke through the store drops the bitmap of its user, and a transaction drops
those of the users it wrote when it ends, however it ends. The slots of a batch write to the
base store, which drops nothing.
-/

namespace EconomyLab

open Foundation Text Journaled

namespace EntitlementWrite

def userId : EntitlementWrite → String
  | grant userId _ _ => userId
  | revoke userId _ => userId

def key : EntitlementWrite → String
  | grant userId sku _ => entitlementKey userId sku
  | revoke userId sku => entitlementKey userId sku

end EntitlementWrite

/-! ## Calls -/

/-- The shared clock at the check, when the listing is in, and at the check after it. -/
structure Readings where
  checked : Int
  loaded : Int
  rechecked : Int

structure CachedStore where
  base : Journaled EntitlementRows
  cache : BitsetCache
  /-- The writes of the open transaction or slot. -/
  written : List EntitlementWrite
  /-- What each `owns` answered, beside what the base store answers at that moment. -/
  seen : List (Bool × Bool)

inductive EntitlementCall
  | write (w : EntitlementWrite)
  | owns (userId sku : String) (clock : Readings)

namespace BitsetCache

def cold (cache : BitsetCache) (userId : String) (now : Int) : Bool :=
  match cache.users.get userId with
  | none => true
  | some entry => now - entry.loadedAt > cache.ttlMs

/-- `owns` of the wrapped store, with the reading that it decides by. -/
def owns (cache : BitsetCache) (rows : EntitlementRows) (userId sku : String) (clock : Readings) :
    Bool × Int × BitsetCache :=
  match cache.check userId sku clock.checked with
  | some warm => (warm, clock.checked, cache.touch userId)
  | none =>
    let rebuilt := cache.rebuild rows userId clock.loaded
    ((rebuilt.check userId sku clock.rechecked).getD false, clock.rechecked, rebuilt)

end BitsetCache

namespace EntitlementCall

/-- A call through the wrapped store, or a write of a batch's slot, which is not wrapped. -/
def run (wrapped : Bool) (s : CachedStore) : EntitlementCall → CachedStore
  | write w =>
    { s with
      base := w.run s.base
      cache := if wrapped then s.cache.invalidate w.userId else s.cache
      written := s.written ++ [w] }
  | owns userId sku clock =>
    let (answer, now, cache) := s.cache.owns s.base.rows userId sku clock
    { s with cache, seen := s.seen ++ [(answer, ownsAt s.base.rows userId sku now)] }

end EntitlementCall

inductive WrappedCall
  | call (c : EntitlementCall)
  | transaction (calls : List EntitlementCall) (commits : Bool)
  | batchTransaction (slots : List (List EntitlementCall × Bool))

namespace CachedStore

def opened (s : CachedStore) : CachedStore := { s with base := s.base.begin.getD s.base, written := [] }

def start (s : CachedStore) : CachedStore := { s with written := [] }

/-- Every user that was written is dropped, on commit and on rollback. -/
def transaction (s : CachedStore) (calls : List EntitlementCall) (commits : Bool) : CachedStore :=
  let done := calls.foldl (EntitlementCall.run true) s.opened
  { done with
    base := if commits then done.base.commit else done.base.rollback
    cache := done.written.foldl (fun cache w => cache.invalidate w.userId) done.cache }

def runSlot (s : CachedStore) (slot : List EntitlementCall × Bool) : CachedStore :=
  let done := slot.1.foldl (EntitlementCall.run false) s.start
  if slot.2 then done else { done with base := done.base.rollbackTo s.base.mark }

def batchTransaction (s : CachedStore) (slots : List (List EntitlementCall × Bool)) : CachedStore :=
  let done := slots.foldl runSlot s.opened
  { done with base := done.base.commit }

def run (s : CachedStore) : WrappedCall → CachedStore
  | .call c => c.run true s
  | .transaction calls commits => s.transaction calls commits
  | .batchTransaction slots => s.batchTransaction slots

end CachedStore

/-- A key under which `list` finds a SKU of the user. -/
def listsKey (userId key : String) : Bool := startsWith key (userId ++ "::")

/-- The bitmap of the user is dropped with this write, at the latest when the transaction ends. -/
def dropsWith (wrapped : Bool) (userId : String) (w : EntitlementWrite) : Prop :=
  wrapped = true ∧ w.userId = userId

instance (wrapped : Bool) (userId : String) (w : EntitlementWrite) :
    Decidable (dropsWith wrapped userId w) :=
  inferInstanceAs (Decidable (_ ∧ _))

/-- A write is to no SKU that the bitmap of someone it does not drop shows. A read is of no live
grant that expired at 0, and where it refills, the refill is kept, is not stale at once, and
shows no uncommitted write of someone whose bitmap stays. -/
def EntitlementCall.Fits (wrapped keeps : Bool) (s : CachedStore) : EntitlementCall → Prop
  | write w => ∀ userId ∈ s.cache.users.keys, dropsWith wrapped userId w ∨ listsKey userId w.key = false
  | owns userId sku clock =>
    if s.cache.cold userId clock.checked then
      NoZeroExpiry s.base.rows userId sku clock.rechecked ∧ 1 ≤ s.cache.maxUsers ∧
        clock.rechecked - clock.loaded ≤ s.cache.ttlMs ∧
        (keeps = true ∨ ∀ w ∈ s.written, dropsWith wrapped userId w ∨ listsKey userId w.key = false)
    else NoZeroExpiry s.base.rows userId sku clock.checked

namespace CachedStore

def SlotFits (s : CachedStore) (slot : List EntitlementCall × Bool) : Prop :=
  RunMeets (EntitlementCall.run false) (EntitlementCall.Fits false slot.2) s.start slot.1

def Fits (s : CachedStore) : WrappedCall → Prop
  | .call c => c.Fits true true s
  | .transaction calls commits =>
    RunMeets (EntitlementCall.run true) (EntitlementCall.Fits true commits) s.opened calls
  | .batchTransaction slots => RunMeets runSlot SlotFits s.opened slots

end CachedStore

instance (rows : EntitlementRows) (userId sku : String) (now : Int) :
    Decidable (NoZeroExpiry rows userId sku now) :=
  inferInstanceAs (Decidable (∀ row ∈ rows.get (entitlementKey userId sku), _))

instance EntitlementCall.Fits.decide (wrapped keeps : Bool) (s : CachedStore) :
    (c : EntitlementCall) → Decidable (c.Fits wrapped keeps s)
  | write _ => inferInstanceAs (Decidable (∀ userId ∈ s.cache.users.keys, _))
  | owns userId _ clock => inferInstanceAs (Decidable (if s.cache.cold userId clock.checked then _ else _))

instance CachedStore.SlotFits.decide (s : CachedStore) (slot : List EntitlementCall × Bool) :
    Decidable (s.SlotFits slot) :=
  RunMeets.decide _ _ _ _

instance CachedStore.Fits.decide (s : CachedStore) : (c : WrappedCall) → Decidable (s.Fits c)
  | .call c => inferInstanceAs (Decidable (c.Fits true true s))
  | .transaction calls commits =>
    RunMeets.decide (EntitlementCall.run true) (EntitlementCall.Fits true commits) s.opened calls
  | .batchTransaction slots => RunMeets.decide runSlot SlotFits s.opened slots

/-! ## A cache that mirrors the rows -/

namespace BitsetCache

theorem evict_sublist (maxUsers : Int) (users : OrderedTable String UserBitmap) :
    (evict maxUsers users).entries.Sublist users.entries := by
  unfold evict
  split
  · exact List.drop_sublist 1 users.entries
  · exact List.Sublist.refl _

variable {users : OrderedTable String UserBitmap}

theorem nodup_keys_evict (h : users.keys.Nodup) (maxUsers : Int) : (evict maxUsers users).keys.Nodup :=
  List.Nodup.sublist (List.Sublist.map _ (evict_sublist maxUsers users)) h

theorem get_of_evict (h : users.keys.Nodup) {maxUsers : Int}
    {userId : String} {entry : UserBitmap} (hget : (evict maxUsers users).get userId = some entry) :
    users.get userId = some entry := by
  apply (OrderedTable.get_eq_some h).mpr
  have hmem := (OrderedTable.get_eq_some (nodup_keys_evict h maxUsers)).mp hget
  exact (evict_sublist maxUsers users).subset hmem

/-- The bitmap that was put in last is not the one evicted, where one is kept at all. -/
theorem get_evict_last (h : users.keys.Nodup) {userId : String}
    (habsent : userId ∉ users.keys) {maxUsers : Int} (hmax : 1 ≤ maxUsers) (entry : UserBitmap) :
    (evict maxUsers (users.set userId entry)).get userId = some entry := by
  have hnodup := OrderedTable.nodup_keys_set h userId entry
  apply (OrderedTable.get_eq_some (nodup_keys_evict hnodup maxUsers)).mpr
  have hentries := OrderedTable.entries_set_absent habsent entry
  unfold evict
  split
  · rename_i hover
    rw [hentries, List.length_append, List.length_singleton] at hover
    change _ ∈ (users.set userId entry).entries.drop 1
    rw [hentries, List.drop_append_of_le_length (by omega)]
    exact List.mem_append_right _ List.mem_cons_self
  · rw [hentries]
    exact List.mem_append_right _ List.mem_cons_self

end BitsetCache

structure MirrorsAll (cache : BitsetCache) (rows : EntitlementRows) : Prop where
  distinct : rows.keys.Nodup
  interned : Interned cache.skuIds
  users : cache.users.keys.Nodup
  mirrors : ∀ userId entry, cache.users.get userId = some entry → Mirrors cache.skuIds rows userId entry

namespace MirrorsAll

variable {cache : BitsetCache} {rows : EntitlementRows}

theorem invalidate (h : MirrorsAll cache rows) (userId : String) :
    MirrorsAll (cache.invalidate userId) rows where
  distinct := h.distinct
  interned := h.interned
  users := OrderedTable.nodup_keys_delete h.users userId
  mirrors := by
    intro other entry hget
    change (cache.users.delete userId).get other = some entry at hget
    rw [OrderedTable.get_delete] at hget
    split at hget
    · cases hget
    · exact h.mirrors other entry hget

theorem move (h : MirrorsAll cache rows) {rows' : EntitlementRows} (hrows : rows'.keys.Nodup)
    (hsame : ∀ userId ∈ cache.users.keys, ∀ sku,
      rows'.get (entitlementKey userId sku) = rows.get (entitlementKey userId sku)) :
        MirrorsAll cache rows' where
  distinct := hrows
  interned := h.interned
  users := h.users
  mirrors := by
    intro userId entry hget
    have hresident : userId ∈ cache.users.keys := by
      apply OrderedTable.get_isSome.mp
      rw [hget]
      exact Option.isSome_some
    exact (h.mirrors userId entry hget).same (hsame userId hresident)

theorem touch (h : MirrorsAll cache rows) (userId : String) : MirrorsAll (cache.touch userId) rows := by
  unfold BitsetCache.touch
  cases hget : cache.users.get userId with
  | none => exact h
  | some used =>
    refine ⟨h.distinct, h.interned, OrderedTable.nodup_keys_set
      (OrderedTable.nodup_keys_delete h.users userId) _ _, ?_⟩
    intro other entry hother
    apply h.mirrors other entry
    simp only [OrderedTable.get_set, OrderedTable.get_delete] at hother
    by_cases hsame : other = userId
    · rw [if_pos hsame] at hother
      rw [hsame, hget]
      exact hother
    · rw [if_neg hsame, if_neg hsame] at hother
      exact hother

theorem rebuild (h : MirrorsAll cache rows) (userId : String) (loadedAt : Int) :
    MirrorsAll (cache.rebuild rows userId loadedAt) rows := by
  obtain ⟨hinterns, hbuilt⟩ := bitmapOf_mirrors h.distinct h.interned userId loadedAt
  have hnodup := OrderedTable.nodup_keys_set (OrderedTable.nodup_keys_delete h.users userId) userId
    (BitsetCache.bitmapOf (BitsetCache.internAll cache.skuIds (listGrants rows userId)).2
      (BitsetCache.internAll cache.skuIds (listGrants rows userId)).1 loadedAt)
  refine ⟨h.distinct, hinterns.interned, BitsetCache.nodup_keys_evict hnodup _, ?_⟩
  intro other entry hget
  have hother := BitsetCache.get_of_evict hnodup hget
  simp only [OrderedTable.get_set, OrderedTable.get_delete] at hother
  by_cases hsame : other = userId
  · rw [if_pos hsame] at hother
    rw [hsame, ← Option.some.inj hother]
    exact hbuilt
  · rw [if_neg hsame, if_neg hsame] at hother
    exact (h.mirrors other entry hother).interns hinterns

end MirrorsAll

namespace BitsetCache

variable {cache : BitsetCache} {rows : EntitlementRows}

theorem mem_keys_touch {userId k : String} (h : k ∈ (cache.touch userId).users.keys) :
    k ∈ cache.users.keys := by
  unfold touch at h
  cases hget : cache.users.get userId with
  | none =>
    rw [hget] at h
    exact h
  | some used =>
    rw [hget] at h
    rcases OrderedTable.mem_keys_set.mp h with hsame | hkept
    · rw [hsame]
      apply OrderedTable.get_isSome.mp
      rw [hget]
      exact Option.isSome_some
    · exact (OrderedTable.mem_keys_delete.mp hkept).2

theorem mem_keys_rebuild {userId k : String} {loadedAt : Int}
    (h : k ∈ (cache.rebuild rows userId loadedAt).users.keys) : k = userId ∨ k ∈ cache.users.keys := by
  have hkept := ((evict_sublist _ _).map Prod.fst).subset h
  rcases OrderedTable.mem_keys_set.mp hkept with hsame | hmem
  · exact Or.inl hsame
  · exact Or.inr (OrderedTable.mem_keys_delete.mp hmem).2

/-- The check misses exactly the bitmaps that are cold, and answers by the others. -/
theorem check_eq_none {userId sku : String} {now : Int} :
    cache.check userId sku now = none ↔ cache.cold userId now = true := by
  unfold check cold
  cases cache.users.get userId with
  | none => exact ⟨fun _ => Eq.refl _, fun _ => Eq.refl _⟩
  | some entry =>
    by_cases hstale : now - entry.loadedAt > cache.ttlMs
    · simp only [hstale, if_true, decide_true]
    · simp only [hstale, if_false, decide_false, reduceCtorEq, Bool.false_eq_true]

theorem check_owns (h : MirrorsAll cache rows) {userId sku : String} {now : Int}
    (hclear : NoZeroExpiry rows userId sku now) {answer : Bool}
    (hcheck : cache.check userId sku now = some answer) :
    answer = ownsAt rows userId sku now := by
  unfold check at hcheck
  cases hget : cache.users.get userId with
  | none =>
    rw [hget] at hcheck
    cases hcheck
  | some entry =>
    rw [hget] at hcheck
    simp only at hcheck
    split at hcheck
    · cases hcheck
    · have hanswers := (h.mirrors userId entry hget).answers sku now hclear
      rw [← hanswers, ← holds_eq]
      exact (Option.some.inj hcheck).symm

theorem check_rebuild (h : MirrorsAll cache rows) (userId sku : String) {loadedAt now : Int}
    (hmax : 1 ≤ cache.maxUsers) (hfresh : now - loadedAt ≤ cache.ttlMs) :
    ∃ answer, (cache.rebuild rows userId loadedAt).check userId sku now = some answer := by
  have habsent : userId ∉ (cache.users.delete userId).keys := fun hmem =>
    (OrderedTable.mem_keys_delete.mp hmem).1 rfl
  have hget := get_evict_last (OrderedTable.nodup_keys_delete h.users userId) habsent hmax
    (bitmapOf (internAll cache.skuIds (listGrants rows userId)).2
      (internAll cache.skuIds (listGrants rows userId)).1 loadedAt)
  unfold check
  change ∃ answer, (match (evict cache.maxUsers ((cache.users.delete userId).set userId _)).get userId with
    | none => none
    | some entry => _) = some answer
  rw [hget]
  have hnotStale : ¬ now - loadedAt > cache.ttlMs := not_lt.mpr hfresh
  exact ⟨_, if_neg hnotStale⟩

end BitsetCache

/-! ## One call -/

namespace EntitlementWrite

theorem run_get (w : EntitlementWrite) (j : Journaled EntitlementRows) {key : String} (h : key ≠ w.key) :
    (w.run j).rows.get key = j.rows.get key := by
  cases w with
  | grant userId sku attrs => exact OrderedTable.get_set_of_ne _ _ h
  | revoke userId sku =>
    simp only [run]
    split
    · exact Eq.refl _
    · split
      · exact Eq.refl _
      · exact OrderedTable.get_set_of_ne _ _ h

theorem run_distinct (w : EntitlementWrite) {j : Journaled EntitlementRows} (h : j.rows.keys.Nodup) :
    (w.run j).rows.keys.Nodup := by
  cases w with
  | grant userId sku attrs => exact OrderedTable.nodup_keys_set h _ _
  | revoke userId sku =>
    simp only [run]
    split
    · exact h
    · split
      · exact h
      · exact OrderedTable.nodup_keys_set h _ _

end EntitlementWrite

theorem listsKey_entitlementKey (userId sku : String) :
    listsKey userId (entitlementKey userId sku) = true := by
  unfold listsKey entitlementKey
  apply startsWith_iff.mpr
  rw [drop_append]

theorem ne_of_unlisted {userId key : String} (h : listsKey userId key = false) (sku : String) :
    entitlementKey userId sku ≠ key := by
  intro hkey
  rw [← hkey, listsKey_entitlementKey] at h
  cases h

variable {cache : BitsetCache} {clock : Readings}

/-- A cold read rebuilds, and its answer is the one of the rebuilt cache. -/
theorem BitsetCache.owns_cold {userId sku : String}
    (h : cache.cold userId clock.checked = true) (rows : EntitlementRows) :
    cache.owns rows userId sku clock =
      (((cache.rebuild rows userId clock.loaded).check userId sku clock.rechecked).getD false,
        clock.rechecked,
        cache.rebuild rows userId clock.loaded) := by
  unfold BitsetCache.owns
  rw [BitsetCache.check_eq_none.mpr h]

theorem BitsetCache.owns_warm {userId sku : String} {warm : Bool}
    (h : cache.check userId sku clock.checked = some warm) (rows : EntitlementRows) :
    cache.owns rows userId sku clock = (warm, clock.checked, cache.touch userId) := by
  unfold BitsetCache.owns
  rw [h]

theorem BitsetCache.exists_warm {userId : String} {now : Int}
    (h : ¬ cache.cold userId now = true) (sku : String) :
    ∃ warm, cache.check userId sku now = some warm := by
  cases hcheck : cache.check userId sku now with
  | none => exact absurd (BitsetCache.check_eq_none.mp hcheck) h
  | some warm => exact ⟨warm, Eq.refl _⟩

namespace EntitlementCall

variable {wrapped keeps : Bool} {s : CachedStore} {c : EntitlementCall}

theorem fits_cold {userId sku : String}
    (hcold : s.cache.cold userId clock.checked = true) (h : (owns userId sku clock).Fits wrapped keeps s) :
    NoZeroExpiry s.base.rows userId sku clock.rechecked ∧ 1 ≤ s.cache.maxUsers ∧
      clock.rechecked - clock.loaded ≤ s.cache.ttlMs ∧
      (keeps = true ∨ ∀ w ∈ s.written, dropsWith wrapped userId w ∨ listsKey userId w.key = false) := by
  simp only [Fits, if_pos hcold] at h
  exact h

theorem fits_warm {userId sku : String} (hwarm : ¬ s.cache.cold userId clock.checked = true)
    (h : (owns userId sku clock).Fits wrapped keeps s) :
    NoZeroExpiry s.base.rows userId sku clock.checked := by
  simp only [Fits, if_neg hwarm] at h
  exact h

theorem run_faithful (h : MirrorsAll s.cache s.base.rows) (hfits : c.Fits wrapped keeps s) :
    MirrorsAll (c.run wrapped s).cache (c.run wrapped s).base.rows := by
  cases c with
  | write w =>
    have hrows := w.run_distinct h.distinct
    cases wrapped with
    | true =>
      apply (h.invalidate w.userId).move hrows
      intro userId hresident sku
      obtain ⟨hother, hkept⟩ := OrderedTable.mem_keys_delete.mp hresident
      rcases hfits userId hkept with hdrops | hunlisted
      · exact absurd hdrops.2.symm hother
      · exact w.run_get s.base (ne_of_unlisted hunlisted sku)
    | false =>
      apply h.move hrows
      intro userId hresident sku
      rcases hfits userId hresident with hdrops | hunlisted
      · cases hdrops.1
      · exact w.run_get s.base (ne_of_unlisted hunlisted sku)
  | owns userId sku clock =>
    change MirrorsAll (s.cache.owns s.base.rows userId sku clock).2.2 s.base.rows
    by_cases hcold : s.cache.cold userId clock.checked = true
    · rw [BitsetCache.owns_cold hcold]
      exact h.rebuild userId clock.loaded
    · obtain ⟨warm, hwarm⟩ := BitsetCache.exists_warm hcold sku
      rw [BitsetCache.owns_warm hwarm]
      exact h.touch userId

/-- A read that fits answers as the base store does. -/
theorem run_seen (h : MirrorsAll s.cache s.base.rows) (hfits : c.Fits wrapped keeps s)
    (hseen : ∀ o ∈ s.seen, o.1 = o.2) : ∀ o ∈ (c.run wrapped s).seen, o.1 = o.2 := by
  cases c with
  | write w => exact hseen
  | owns userId sku clock =>
    change ∀ o ∈ s.seen ++ [((s.cache.owns s.base.rows userId sku clock).1,
      ownsAt s.base.rows userId sku (s.cache.owns s.base.rows userId sku clock).2.1)], o.1 = o.2
    intro o ho
    rcases List.mem_append.mp ho with hold | hnew
    · exact hseen o hold
    · rw [List.mem_singleton.mp hnew]
      by_cases hcold : s.cache.cold userId clock.checked = true
      · obtain ⟨hclear, hmax, hfresh, -⟩ := fits_cold hcold hfits
        rw [BitsetCache.owns_cold hcold]
        obtain ⟨answer, hcheck⟩ := BitsetCache.check_rebuild h userId sku hmax hfresh
        rw [hcheck]
        exact BitsetCache.check_owns (h.rebuild userId clock.loaded) hclear hcheck
      · have hclear := fits_warm hcold hfits
        obtain ⟨warm, hwarm⟩ := BitsetCache.exists_warm hcold sku
        rw [BitsetCache.owns_warm hwarm]
        exact BitsetCache.check_owns h hclear hwarm

theorem run_extends {j : Journaled EntitlementRows} (h : j.Extends s.base) :
    j.Extends (c.run wrapped s).base := by
  cases c with
  | write w => exact w.run_extends h
  | owns userId sku clock => exact h

end EntitlementCall

/-- What holds since the journal stood at `j`: other rows are as they were, and where the writes
may be taken back no bitmap that stays shows them. -/
structure Since (wrapped keeps : Bool) (j : Journaled EntitlementRows) (s : CachedStore) : Prop where
  journal : j.Extends s.base
  others : ∀ key, (∀ w ∈ s.written, key ≠ w.key) → s.base.rows.get key = j.rows.get key
  unshown : keeps = false → ∀ userId ∈ s.cache.users.keys,
    (∃ w ∈ s.written, dropsWith wrapped userId w) ∨ ∀ w ∈ s.written, listsKey userId w.key = false

namespace Since

variable {wrapped keeps : Bool} {j : Journaled EntitlementRows} {s : CachedStore}

theorem start (wrapped keeps : Bool) (h : s.written = []) : Since wrapped keeps s.base s where
  journal := Extends.refl s.base
  others := fun _ _ => Eq.refl _
  unshown := by
    intro _ userId _
    rw [h]
    exact Or.inr fun w hw => absurd hw List.not_mem_nil

theorem run (h : Since wrapped keeps j s) {c : EntitlementCall} (hfits : c.Fits wrapped keeps s) :
    Since wrapped keeps j (c.run wrapped s) := by
  cases c with
  | write w =>
    refine ⟨w.run_extends h.journal, ?_, ?_⟩
    · intro key hother
      have hlast : key ≠ w.key := hother w (List.mem_append_right _ List.mem_cons_self)
      have hearlier := h.others key fun w' hw' => hother w' (List.mem_append_left _ hw')
      exact (w.run_get s.base hlast).trans hearlier
    · intro hkeeps userId hresident
      have hbefore : userId ∈ s.cache.users.keys := by
        cases wrapped with
        | true => exact (OrderedTable.mem_keys_delete.mp hresident).2
        | false => exact hresident
      change (∃ w' ∈ s.written ++ [w], _) ∨ ∀ w' ∈ s.written ++ [w], _
      rcases hfits userId hbefore with hdrops | hunlisted
      · exact Or.inl ⟨w, List.mem_append_right _ List.mem_cons_self, hdrops⟩
      · rcases h.unshown hkeeps userId hbefore with ⟨w', hw', hdrops⟩ | hall
        · exact Or.inl ⟨w', List.mem_append_left _ hw', hdrops⟩
        · right
          intro w' hw'
          rcases List.mem_append.mp hw' with hold | hnew
          · exact hall w' hold
          · rw [List.mem_singleton.mp hnew]
            exact hunlisted
  | owns userId sku clock =>
    refine ⟨h.journal, h.others, ?_⟩
    intro hkeeps other hresident
    change other ∈ (s.cache.owns s.base.rows userId sku clock).2.2.users.keys at hresident
    by_cases hcold : s.cache.cold userId clock.checked = true
    · rw [BitsetCache.owns_cold hcold] at hresident
      rcases BitsetCache.mem_keys_rebuild hresident with hfilled | hbefore
      · rw [hfilled]
        have hshown := (EntitlementCall.fits_cold hcold hfits).2.2.2.resolve_left (by
          rw [hkeeps]; exact Bool.false_ne_true)
        by_cases hdropped : ∃ w ∈ s.written, dropsWith wrapped userId w
        · exact Or.inl hdropped
        · right
          intro w hw
          exact (hshown w hw).resolve_left fun hdrops => hdropped ⟨w, hw, hdrops⟩
      · exact h.unshown hkeeps other hbefore
    · obtain ⟨warm, hwarm⟩ := BitsetCache.exists_warm hcold sku
      rw [BitsetCache.owns_warm hwarm] at hresident
      exact h.unshown hkeeps other (BitsetCache.mem_keys_touch hresident)

end Since

/-! ## Whole runs -/

/-- The cache is faithful, and every read answered as the base store. -/
structure Sound (s : CachedStore) : Prop where
  faithful : MirrorsAll s.cache s.base.rows
  seen : ∀ o ∈ s.seen, o.1 = o.2

namespace Sound

variable {wrapped keeps : Bool} {s : CachedStore}

theorem run (h : Sound s) {c : EntitlementCall} (hfits : c.Fits wrapped keeps s) :
    Sound (c.run wrapped s) :=
  ⟨EntitlementCall.run_faithful h.faithful hfits, EntitlementCall.run_seen h.faithful hfits h.seen⟩

theorem calls (h : Sound s) (hwritten : s.written = []) {calls : List EntitlementCall}
    (hfits : RunMeets (EntitlementCall.run wrapped) (EntitlementCall.Fits wrapped keeps) s calls) :
    Sound (calls.foldl (EntitlementCall.run wrapped) s) ∧
      Since wrapped keeps s.base (calls.foldl (EntitlementCall.run wrapped) s) := by
  have hstep : ∀ s' c, (Sound s' ∧ Since wrapped keeps s.base s') →
    EntitlementCall.Fits wrapped keeps s' c →
      Sound (EntitlementCall.run wrapped s' c) ∧ Since wrapped keeps s.base
        (EntitlementCall.run wrapped s' c) :=
    fun s' c hs' hc => ⟨hs'.1.run hc, hs'.2.run hc⟩
  exact hfits.inv hstep ⟨h, Since.start wrapped keeps hwritten⟩

end Sound

theorem MirrorsAll.invalidateAll {rows : EntitlementRows} (written : List EntitlementWrite)
    (h : MirrorsAll cache rows) :
    MirrorsAll (written.foldl (fun cache w => cache.invalidate w.userId) cache) rows := by
  induction written generalizing cache with
  | nil => exact h
  | cons w written ih => exact ih (h.invalidate w.userId)

theorem mem_keys_invalidateAll {written : List EntitlementWrite} {userId : String}
    (h : userId ∈ (written.foldl (fun cache w => cache.invalidate w.userId) cache).users.keys) :
    userId ∈ cache.users.keys ∧ ∀ w ∈ written, w.userId ≠ userId := by
  induction written generalizing cache with
  | nil => exact ⟨h, fun w hw => absurd hw List.not_mem_nil⟩
  | cons w written ih =>
    obtain ⟨hkept, hothers⟩ := ih h
    obtain ⟨hne, hbefore⟩ := OrderedTable.mem_keys_delete.mp hkept
    refine ⟨hbefore, ?_⟩
    intro w' hw'
    rcases List.mem_cons.mp hw' with hhead | htail
    · rw [hhead]
      exact hne.symm
    · exact hothers w' htail

/-- Bitmaps that the writes do not show mirror the rows from before the writes too. -/
theorem Since.restore {wrapped : Bool} {j : Journaled EntitlementRows} {s : CachedStore}
    (h : Since wrapped false j s) (hj : j.rows.keys.Nodup)
    (hcache : MirrorsAll cache s.base.rows)
    (hleft : ∀ userId ∈ cache.users.keys, userId ∈ s.cache.users.keys ∧
      ∀ w ∈ s.written, ¬ dropsWith wrapped userId w) :
    MirrorsAll cache j.rows := by
  apply hcache.move hj
  intro userId hresident sku
  obtain ⟨hbefore, hkept⟩ := hleft userId hresident
  rcases h.unshown (Eq.refl false) userId hbefore with ⟨w, hw, hdrops⟩ | hunlisted
  · exact absurd hdrops (hkept w hw)
  · exact (h.others _ fun w hw => ne_of_unlisted (hunlisted w hw) sku).symm

namespace Sound

variable {s : CachedStore}

theorem opened (h : Sound s) (hclosed : s.base.undos = none) :
    Sound s.opened ∧ s.opened.base = { s.base with undos := some [] } := by
  have hbase : s.opened.base = { s.base with undos := some [] } := by
    obtain ⟨⟨rows, undos⟩, cache, written, seen⟩ := s
    cases hclosed
    rfl
  refine ⟨⟨?_, h.seen⟩, hbase⟩
  rw [hbase]
  exact h.faithful

/-- A transaction keeps the cache faithful, committed or rolled back. -/
theorem transaction (h : Sound s) (hclosed : s.base.undos = none) {calls : List EntitlementCall}
    {commits : Bool} (hfits : s.Fits (.transaction calls commits)) :
    Sound (s.transaction calls commits) ∧ (s.transaction calls commits).base.undos = none := by
  obtain ⟨hopened, hbase⟩ := h.opened hclosed
  obtain ⟨hdone, hsince⟩ := hopened.calls (Eq.refl _) hfits
  unfold CachedStore.transaction
  generalize calls.foldl (EntitlementCall.run true) s.opened = done at hdone hsince
  have hdropped := hdone.faithful.invalidateAll done.written
  cases commits with
  | true => exact ⟨⟨hdropped, hdone.seen⟩, Eq.refl _⟩
  | false =>
    have hback : done.base.rollback = { s.base with undos := none } := by
      apply Extends.rollback
      rw [← hbase]
      exact hsince.journal
    simp only [hback, Bool.false_eq_true, if_false]
    refine ⟨⟨?_, hdone.seen⟩, trivial⟩
    have hrows : s.opened.base.rows = s.base.rows := by rw [hbase]
    change MirrorsAll _ s.base.rows
    rw [← hrows]
    apply hsince.restore hopened.faithful.distinct hdropped
    intro userId hresident
    obtain ⟨hbefore, hothers⟩ := mem_keys_invalidateAll hresident
    exact ⟨hbefore, fun w hw hdrops => hothers w hw hdrops.2⟩

theorem runSlot (h : Sound s) (hopen : s.base.recording = true) {slot : List EntitlementCall × Bool}
    (hfits : s.SlotFits slot) : Sound (s.runSlot slot) ∧ (s.runSlot slot).base.recording = true := by
  have hstart : Sound s.start := ⟨h.faithful, h.seen⟩
  obtain ⟨hdone, hsince⟩ := hstart.calls (Eq.refl _) hfits
  have hrecording := hsince.journal.recording_eq.trans hopen
  obtain ⟨calls, kept⟩ := slot
  unfold CachedStore.runSlot
  simp only at hdone hsince hrecording ⊢
  generalize calls.foldl (EntitlementCall.run false) s.start = done at hdone hsince hrecording
  cases kept with
  | true => exact ⟨hdone, hrecording⟩
  | false =>
    simp only [Bool.false_eq_true, if_false]
    have hback := (hsince.journal.recoils.rollbackTo hopen (Eq.refl _)).1
    refine ⟨⟨?_, hdone.seen⟩, (rollbackTo_recording _ _).trans hrecording⟩
    change MirrorsAll done.cache (done.base.rollbackTo s.start.base.mark).rows
    rw [← hback]
    apply hsince.restore hstart.faithful.distinct hdone.faithful
    exact fun userId hresident => ⟨hresident, fun w _ hdrops => Bool.false_ne_true hdrops.1⟩

theorem batchTransaction (h : Sound s) (hclosed : s.base.undos = none)
    {slots : List (List EntitlementCall × Bool)} (hfits : s.Fits (.batchTransaction slots)) :
    Sound (s.batchTransaction slots) ∧ (s.batchTransaction slots).base.undos = none := by
  obtain ⟨hopened, hbase⟩ := h.opened hclosed
  have hrecording : s.opened.base.recording = true := by
    rw [hbase]
    rfl
  have hstep : ∀ s' slot, (Sound s' ∧ s'.base.recording = true) → s'.SlotFits slot →
      Sound (s'.runSlot slot) ∧ (s'.runSlot slot).base.recording = true :=
    fun s' slot hs' hslot => hs'.1.runSlot hs'.2 hslot
  have hdone := (RunMeets.inv hstep hfits ⟨hopened, hrecording⟩).1
  exact ⟨⟨hdone.faithful, hdone.seen⟩, Eq.refl _⟩

theorem step (h : Sound s) (hclosed : s.base.undos = none) {c : WrappedCall} (hfits : s.Fits c) :
    Sound (s.run c) ∧ (s.run c).base.undos = none := by
  cases c with
  | call c =>
    refine ⟨h.run hfits, ?_⟩
    have hextends : s.base.Extends (c.run true s).base := EntitlementCall.run_extends (Extends.refl s.base)
    have hrecording := hextends.recording_eq
    unfold recording at hrecording
    rw [hclosed] at hrecording
    exact Option.not_isSome_iff_eq_none.mp (by rw [CachedStore.run, hrecording]; exact Bool.false_ne_true)
  | transaction calls commits => exact h.transaction hclosed hfits
  | batchTransaction slots => exact h.batchTransaction hclosed hfits

end Sound

def CachedStore.wrap (rows : EntitlementRows) (ttlMs maxUsers : Int) : CachedStore :=
  ⟨⟨rows, none⟩, BitsetCache.empty ttlMs maxUsers, [], []⟩

theorem CachedStore.wrap_sound {rows : EntitlementRows} (h : rows.keys.Nodup) (ttlMs maxUsers : Int) :
    Sound (CachedStore.wrap rows ttlMs maxUsers) where
  faithful :=
    { distinct := h
      interned := ⟨fun _ _ _ hget _ => (by cases hget), fun _ _ hget => (by cases hget)⟩
      users := List.nodup_nil
      mirrors := fun _ _ hget => by cases hget }
  seen := fun _ ho => absurd ho List.not_mem_nil

/-- In every run whose calls fit, each `owns` answers as the base store does at that moment. -/
theorem cached_owns_exact {rows : EntitlementRows} (h : rows.keys.Nodup) (ttlMs maxUsers : Int)
    (run : List WrappedCall)
    (hfits : RunMeets CachedStore.run CachedStore.Fits (CachedStore.wrap rows ttlMs maxUsers) run) :
    ∀ o ∈ (run.foldl CachedStore.run (CachedStore.wrap rows ttlMs maxUsers)).seen, o.1 = o.2 := by
  have hstep : ∀ (s : CachedStore) c, (Sound s ∧ s.base.undos = none) → s.Fits c →
      Sound (s.run c) ∧ (s.run c).base.undos = none := fun s c hs hc => hs.1.step hs.2 hc
  exact (hfits.inv hstep ⟨CachedStore.wrap_sound h ttlMs maxUsers, Eq.refl _⟩).1.seen

def ownsNow (userId sku : String) (now : Int) : WrappedCall := .call (.owns userId sku ⟨now, now, now⟩)

def granting (userId sku : String) (expiresAt : Option Int) : EntitlementCall :=
  .write (.grant userId sku ⟨none, none, expiresAt, none⟩)

/-- A rental that ends, a revoke that is rolled back while it is read, and a batch for someone
else, where one bitmap is kept. -/
def rentals : List WrappedCall :=
  [.call (granting "ann" "gold" (some 20)), ownsNow "ann" "gold" 15, ownsNow "ann" "gold" 21,
    .transaction [.write (.revoke "ann" "gold"), .owns "ann" "gold" ⟨16, 16, 17⟩,
      granting "ben" "hat" none] false,
    ownsNow "ann" "gold" 18, ownsNow "ben" "hat" 18, ownsNow "ann" "gold" 20,
    .batchTransaction [([granting "ben" "hat" none], true), ([granting "cat" "hat" none], false)],
    ownsNow "ben" "hat" 20, ownsNow "cat" "hat" 20]

theorem rentals_exact :
    (rentals.foldl CachedStore.run (CachedStore.wrap OrderedTable.empty 30000 1)).seen.length = 8 ∧
      ∀ o ∈ (rentals.foldl CachedStore.run (CachedStore.wrap OrderedTable.empty 30000 1)).seen, o.1 =
        o.2 :=
  ⟨by
    decide +kernel, @cached_owns_exact OrderedTable.empty List.nodup_nil 30000 1 rentals (by
    decide +kernel)⟩

/-- A batch's grant is not seen, an expiry of 0 never expires, a key with two readings drops one
bitmap, and with no room the refill answers for no one. -/
theorem owns_diverges :
    let seen := fun maxUsers run =>
      (List.foldl CachedStore.run (CachedStore.wrap OrderedTable.empty 30000 maxUsers) run).seen
    seen 10000 [ownsNow "ann" "gold" 10, .batchTransaction [([granting "ann" "gold" none], true)],
        ownsNow "ann" "gold" 10] = [(false, false), (false, true)] ∧
      seen 10000 [.call (granting "ann" "gold" (some 0)), ownsNow "ann" "gold" 10] = [(true, false)] ∧
      seen 10000 [ownsNow "a::b" "c" 10, .call (granting "a" "b::c" none), ownsNow "a::b" "c" 10] =
        [(false, false), (false, true)] ∧
      seen 0 [.call (granting "ann" "gold" none), ownsNow "ann" "gold" 10] = [(false, true)] := by
  decide +kernel

end EconomyLab
