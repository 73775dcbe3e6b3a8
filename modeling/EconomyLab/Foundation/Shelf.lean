import EconomyLab.Foundation.OrderedTable

/-!
# Rows held by reference

A map from keys to mutable objects. A row is changed in place, or replaced by another
object. A reverser that closed over an object changes that object and no other, so it
does nothing once the object has left the map.
-/

namespace EconomyLab.Foundation

universe u v

/-- Which object it is, and what it holds. -/
structure Obj (M : Type v) where
  ref : Nat
  value : M

/-- The rows, and the next unused object. -/
structure Shelf (K : Type u) (M : Type v) where
  rows : OrderedTable K (Obj M)
  nextRef : Nat

namespace Shelf

variable {K : Type u} {M : Type v} [DecidableEq K]

def empty : Shelf K M := ⟨OrderedTable.empty, 0⟩

def look (t : Shelf K M) (k : K) : Option M := (t.rows.get k).map Obj.value

omit [DecidableEq K] in
/-- What a reader sees of the map, in its order. -/
def contents (t : Shelf K M) : List (K × M) := t.rows.entries.map fun row => (row.1, row.2.value)

/-- `rows.set(k, { ...m })`: a new object under the key. -/
def put (t : Shelf K M) (k : K) (m : M) : Shelf K M :=
  ⟨t.rows.set k ⟨t.nextRef, m⟩, t.nextRef + 1⟩

def delete (t : Shelf K M) (k : K) : Shelf K M := { t with rows := t.rows.delete k }

/-- A change through a reference to the object: it shows only while the object is in the map. -/
def edit (t : Shelf K M) (k : K) (ref : Nat) (f : M → M) : Shelf K M :=
  match t.rows.get k with
  | none => t
  | some obj => if obj.ref = ref then { t with rows := t.rows.set k ⟨ref, f obj.value⟩ } else t

/-- `rows.set(k, copy)`, where `copy` was allocated earlier. -/
def putCopy (t : Shelf K M) (k : K) (copy : Obj M) : Shelf K M := { t with rows := t.rows.set k copy }

/-- `const copy = { ...row }`: the copy is an object of its own. -/
def allocate (t : Shelf K M) : Shelf K M := { t with nextRef := t.nextRef + 1 }

theorem look_eq_lookup (t : Shelf K M) (k : K) : t.look k = OrderedTable.lookup k t.contents :=
  (OrderedTable.lookup_map (fun _ (obj : Obj M) => obj.value) k t.rows.entries).symm

theorem contents_putCopy (t : Shelf K M) (k : K) (copy : Obj M) :
    (t.putCopy k copy).contents = OrderedTable.put k copy.value t.contents :=
  OrderedTable.put_map (fun _ (obj : Obj M) => obj.value) k copy t.rows.entries

theorem contents_put (t : Shelf K M) (k : K) (m : M) :
    (t.put k m).contents = OrderedTable.put k m t.contents :=
  contents_putCopy t k ⟨t.nextRef, m⟩

theorem contents_delete (t : Shelf K M) (k : K) :
    (t.delete k).contents = t.contents.filter (·.1 ≠ k) := by
  simp only [contents, delete, OrderedTable.delete, List.filter_map]
  rfl

theorem contents_edit {t : Shelf K M} {k : K} {obj : Obj M} (h : t.rows.get k = some obj) (f : M → M) :
    (t.edit k obj.ref f).contents = OrderedTable.put k (f obj.value) t.contents := by
  simp only [edit, h, if_true]
  exact contents_putCopy t k ⟨obj.ref, f obj.value⟩

/-- `t` may stand for `cur`, as far as reversers back to `start` go. A row whose object is still
the one of `start` stands as it is, or as another object with what `start` held; of a row that
was replaced since, only the key has to be there; rows that came since do not matter. -/
structure Near (start cur t : Shelf K M) : Prop where
  nodup : t.rows.keys.Nodup
  fresh : ∀ k r, t.rows.get k = some r → r.ref < t.nextRef
  next : cur.nextRef ≤ t.nextRef
  order : t.rows.keys.filter (· ∈ start.rows.keys) = start.rows.keys
  keys : ∀ k ∈ t.rows.keys, k ∈ start.rows.keys ∨ k ∈ cur.rows.keys
  rows : ∀ k r₀ r, start.rows.get k = some r₀ → cur.rows.get k = some r → r.ref = r₀.ref →
    ∃ r', t.rows.get k = some r' ∧
      (r'.ref = r₀.ref ∧ r'.value = r.value ∨ r'.ref ≠ r₀.ref ∧ r'.value = r₀.value)

structure Allocated (t : Shelf K M) : Prop where
  nodup : t.rows.keys.Nodup
  fresh : ∀ k r, t.rows.get k = some r → r.ref < t.nextRef

theorem Near.allocated {start cur t : Shelf K M} (h : Near start cur t) : t.Allocated :=
  ⟨h.nodup, h.fresh⟩

theorem Allocated.near {t : Shelf K M} (h : t.Allocated) : Near t t t where
  nodup := h.nodup
  fresh := h.fresh
  next := Nat.le_refl _
  order := List.filter_eq_self.mpr fun k hk => by simpa using hk
  keys _ hk := .inl hk
  rows _ r₀ r h₀ h _ := by
    have hr : r₀ = r := Option.some.inj (h₀.symm.trans h)
    exact ⟨r, h, .inl ⟨by rw [hr], rfl⟩⟩

theorem Allocated.empty : (empty : Shelf K M).Allocated :=
  ⟨List.nodup_nil, by simp [Shelf.empty]⟩

theorem keys_delete (t : OrderedTable K (Obj M)) (k : K) :
    (t.delete k).keys = t.keys.filter (· ≠ k) := by
  simp [OrderedTable.delete, OrderedTable.keys, List.filter_map, Function.comp_def]

theorem keys_set (t : OrderedTable K (Obj M)) (k : K) (r : Obj M) :
    (t.set k r).keys = if k ∈ t.keys then t.keys else t.keys ++ [k] :=
  OrderedTable.keys_put k r t.entries

theorem mem_keys_of_get {t : OrderedTable K (Obj M)} {k : K} {r : Obj M} (h : t.get k = some r) :
    k ∈ t.keys := by
  apply OrderedTable.get_isSome.mp
  rw [h]
  rfl

theorem contents_eq_filterMap {t : Shelf K M} (h : t.rows.keys.Nodup) :
    t.contents = t.rows.keys.filterMap fun k => (t.look k).map (k, ·) := by
  unfold contents OrderedTable.keys
  rw [List.filterMap_map]
  have hrow : ∀ row ∈ t.rows.entries,
      ((fun k => (t.look k).map (k, ·)) ∘ Prod.fst) row = some (row.1, row.2.value) := by
    intro row hrow
    have hget : t.rows.get row.1 = some row.2 := (OrderedTable.get_eq_some h).mpr hrow
    simp [look, hget]
  rw [List.filterMap_congr hrow, List.filterMap_eq_map']

/-- With the rows of `start` still in place, whatever stands for `start` reads as `start` does. -/
theorem Near.contents_eq {start t : Shelf K M} (hstart : start.Allocated) (h : Near start start t) :
    t.contents = start.contents := by
  have hkeys : t.rows.keys = start.rows.keys := by
    rw [← h.order]
    symm
    apply List.filter_eq_self.mpr
    intro k hk
    cases h.keys k hk with
    | inl hk => simpa using hk
    | inr hk => simpa using hk
  rw [contents_eq_filterMap h.nodup, contents_eq_filterMap hstart.nodup, hkeys]
  apply List.filterMap_congr
  intro k hk
  obtain ⟨r₀, hr₀⟩ := Option.isSome_iff_exists.mp (OrderedTable.get_isSome.mpr hk)
  obtain ⟨r, hr, heq⟩ := h.rows k r₀ r₀ hr₀ hr₀ rfl
  have hvalue : r.value = r₀.value := by
    cases heq with
    | inl heq => exact heq.2
    | inr heq => exact heq.2
  simp [look, hr, hr₀, hvalue]

/-! ## The three kinds of write -/

variable {start cur t : Shelf K M} {k : K}

theorem edit_keys (t : Shelf K M) (k : K) (ref : Nat) (f : M → M) :
    (t.edit k ref f).rows.keys = t.rows.keys := by
  unfold edit
  split
  · rfl
  · rename_i o ho
    split
    · simp only [keys_set, if_pos (mem_keys_of_get ho)]
    · rfl

theorem edit_nextRef (t : Shelf K M) (k : K) (ref : Nat) (f : M → M) :
    (t.edit k ref f).nextRef = t.nextRef := by
  unfold edit
  split
  · rfl
  · split <;> rfl

/-- What an edit leaves under each key: the same object with the same value, or the edited one. -/
theorem edit_get (t : Shelf K M) (k : K) (ref : Nat) (f : M → M) (k' : K) :
    (t.edit k ref f).rows.get k' =
      (t.rows.get k').map fun o => if k' = k ∧ o.ref = ref then ⟨ref, f o.value⟩ else o := by
  unfold edit
  cases ho : t.rows.get k with
  | none =>
    by_cases hk : k' = k
    · subst hk
      simp [ho]
    · simp [hk]
  | some o =>
    by_cases href : o.ref = ref
    · by_cases hk : k' = k
      · subst hk
        simp [href, ho]
      · simp [href, hk]
    · by_cases hk : k' = k
      · subst hk
        simp [href, ho]
      · simp [href, hk]

theorem Allocated.edit (h : t.Allocated) (k : K) (ref : Nat) (f : M → M) :
    (t.edit k ref f).Allocated := by
  refine ⟨by rw [edit_keys]; exact h.nodup, fun k' r hr => ?_⟩
  rw [edit_get] at hr
  obtain ⟨o, ho, rfl⟩ := Option.map_eq_some_iff.mp hr
  rw [edit_nextRef]
  have hlt := h.fresh k' o ho
  split
  · rename_i heq
    rw [← heq.2]
    exact hlt
  · exact hlt

theorem Allocated.allocate (h : cur.Allocated) : cur.allocate.Allocated :=
  ⟨h.nodup, fun k r hr => Nat.lt_succ_of_lt (h.fresh k r hr)⟩

theorem Allocated.put (h : cur.Allocated) (k : K) (m : M) : (cur.put k m).Allocated := by
  refine ⟨OrderedTable.nodup_keys_set h.nodup _ _, fun k' r hr => ?_⟩
  simp only [Shelf.put, OrderedTable.get_set] at hr ⊢
  split at hr
  · cases hr
    exact Nat.lt_succ_self _
  · exact Nat.lt_succ_of_lt (h.fresh k' r hr)

theorem Allocated.delete (h : t.Allocated) (k : K) : (t.delete k).Allocated := by
  refine ⟨?_, fun k' r hr => ?_⟩
  · simp only [Shelf.delete, keys_delete]
    exact h.nodup.filter _
  · simp only [Shelf.delete, OrderedTable.get_delete] at hr
    split at hr
    · cases hr
    · exact h.fresh k' r hr

theorem Near.self (h : cur.Allocated)
    (order : cur.rows.keys.filter (· ∈ start.rows.keys) = start.rows.keys) : Near start cur cur where
  nodup := h.nodup
  fresh := h.fresh
  next := Nat.le_refl _
  order := order
  keys _ hk := .inr hk
  rows _ _ r _ hr href := ⟨r, hr, .inl ⟨href, rfl⟩⟩

/-- A key that was there keeps its place; one that came since goes to the end. -/
theorem order_set {rows : OrderedTable K (Obj M)} (r : Obj M)
    (h : rows.keys.filter (· ∈ start.rows.keys) = start.rows.keys) :
    (rows.set k r).keys.filter (· ∈ start.rows.keys) = start.rows.keys := by
  rw [keys_set]
  split
  · exact h
  · rename_i hnew
    have hk : k ∉ start.rows.keys := by
      rw [← h]
      exact fun hk => hnew (List.mem_of_mem_filter hk)
    rw [List.filter_append, h]
    simp [hk]

theorem Near.edit_now {ref : Nat} {f : M → M} (h : Near start cur cur) :
    Near start (cur.edit k ref f) (cur.edit k ref f) := by
  apply Near.self (h.allocated.edit k ref f)
  rw [edit_keys]
  exact h.order

theorem Near.edit_undo {o : Obj M} {f g : M → M} (hk : cur.rows.get k = some o)
    (hgf : g (f o.value) = o.value) (h : Near start (cur.edit k o.ref f) t) :
    Near start cur (t.edit k o.ref g) where
  nodup := by
    rw [edit_keys]
    exact h.nodup
  fresh := (h.allocated.edit k o.ref g).fresh
  next := by simpa only [edit_nextRef] using h.next
  order := by
    rw [edit_keys]
    exact h.order
  keys := by simpa only [edit_keys] using h.keys
  rows k' r₀ r h₀ hr href := by
    have hnow := edit_get cur k o.ref f k'
    rw [hr, Option.map_some] at hnow
    have hstands := h.rows k' r₀ _ h₀ hnow
    rw [edit_get]
    by_cases hedited : k' = k ∧ r.ref = o.ref
    · obtain ⟨rfl, hro⟩ := hedited
      have hr : r = o := Option.some.inj (hr.symm.trans hk)
      subst hr
      simp only [true_and, if_true] at hstands
      obtain ⟨r', hr', hcase⟩ := hstands href
      rw [hr', Option.map_some]
      refine ⟨_, rfl, ?_⟩
      cases hcase with
      | inl hcase =>
        have href' : r'.ref = r.ref := hcase.1.trans href.symm
        simp [href', href, hcase.2, hgf]
      | inr hcase =>
        have href' : r'.ref ≠ r.ref := fun heq => hcase.1 (heq.trans href)
        simp [href', hcase]
    · rw [if_neg hedited] at hstands
      obtain ⟨r', hr', hcase⟩ := hstands href
      rw [hr', Option.map_some]
      refine ⟨_, rfl, ?_⟩
      by_cases hother : k' = k ∧ r'.ref = o.ref
      · obtain ⟨rfl, href'⟩ := hother
        have hr : r = o := Option.some.inj (hr.symm.trans hk)
        exact absurd ⟨rfl, by rw [hr]⟩ hedited
      · rw [if_neg hother]
        exact hcase

theorem Near.put_now {m : M} (h : Near start cur cur) : Near start (cur.put k m) (cur.put k m) :=
  Near.self (h.allocated.put k m) (order_set _ h.order)

theorem Near.allocate_now (h : Near start cur cur) : Near start cur.allocate cur.allocate :=
  Near.self h.allocated.allocate h.order

theorem not_mem_keys (h : start.rows.get k = none) : k ∉ start.rows.keys := by
  rw [← OrderedTable.get_isSome, h]
  simp

/-- Undoing the arrival of a row that `start` did not have. -/
theorem Near.put_undo {m : M} (hk : start.rows.get k = none) (h : Near start (cur.put k m) t) :
    Near start cur (t.delete k) where
  nodup := (h.allocated.delete k).nodup
  fresh := (h.allocated.delete k).fresh
  next := Nat.le_of_succ_le h.next
  order := by
    simp only [delete, keys_delete, List.filter_filter]
    refine (List.filter_congr fun k' _ => ?_).trans h.order
    by_cases heq : k' = k
    · simp [heq, not_mem_keys hk]
    · simp [heq]
  keys k' hk' := by
    simp only [delete, keys_delete, List.mem_filter, decide_eq_true_eq] at hk'
    cases h.keys k' hk'.1 with
    | inl hk => exact .inl hk
    | inr hk =>
      cases OrderedTable.mem_keys_set.mp hk with
      | inl heq => exact absurd heq hk'.2
      | inr hk => exact .inr hk
  rows k' r₀ r h₀ hr href := by
    have hne : k' ≠ k := by
      intro heq
      subst heq
      rw [hk] at h₀
      cases h₀
    have hput : (cur.put k m).rows.get k' = some r := by
      simp only [put, OrderedTable.get_set, if_neg hne]
      exact hr
    simp only [delete, OrderedTable.get_delete, if_neg hne]
    exact h.rows k' r₀ r h₀ hput href

/-- Undoing a replacement puts a copy of the row back. The copy is no object of `start`, so what
was recorded before does not reach it: it has to be what `start` held already. -/
theorem Near.replace_undo {o : Obj M} {m : M} (hk : cur.rows.get k = some o)
    (hbound : ∀ k r, start.rows.get k = some r → r.ref < cur.nextRef)
    (hsame : ∀ r₀, start.rows.get k = some r₀ → o.ref = r₀.ref → o.value = r₀.value)
    (h : Near start (cur.allocate.put k m) t) :
    Near start cur (t.putCopy k ⟨cur.nextRef, o.value⟩) where
  nodup := OrderedTable.nodup_keys_set h.nodup _ _
  fresh k' r hr := by
    have hnext : cur.nextRef + 1 + 1 ≤ t.nextRef := h.next
    simp only [putCopy, OrderedTable.get_set] at hr ⊢
    split at hr
    · cases hr
      simp only
      omega
    · exact h.fresh k' r hr
  next := Nat.le_of_succ_le (Nat.le_of_succ_le h.next)
  order := order_set _ h.order
  keys k' hk' := by
    cases OrderedTable.mem_keys_set.mp hk' with
    | inl heq =>
      subst heq
      exact .inr (mem_keys_of_get hk)
    | inr hk' =>
      cases h.keys k' hk' with
      | inl hk' => exact .inl hk'
      | inr hk' =>
        cases OrderedTable.mem_keys_set.mp hk' with
        | inl heq =>
          subst heq
          exact .inr (mem_keys_of_get hk)
        | inr hk' => exact .inr hk'
  rows k' r₀ r h₀ hr href := by
    by_cases heq : k' = k
    · subst heq
      have hr : r = o := Option.some.inj (hr.symm.trans hk)
      subst hr
      refine ⟨_, OrderedTable.get_set_self _ _ _, .inr ⟨?_, hsame r₀ h₀ href⟩⟩
      exact Nat.ne_of_gt (hbound k' r₀ h₀)
    · have hput : (cur.allocate.put k m).rows.get k' = some r := by
        simp only [put, allocate, OrderedTable.get_set, if_neg heq]
        exact hr
      simp only [putCopy, OrderedTable.get_set, if_neg heq]
      exact h.rows k' r₀ r h₀ hput href

end Shelf

end EconomyLab.Foundation
