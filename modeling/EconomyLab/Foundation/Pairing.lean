import EconomyLab.Foundation.OrderedTable
import Mathlib.Data.List.Perm.Basic

/-!
# Pairing two lists by key

The second list is filed in buckets by key, and each item of the first takes the oldest item left
under its key. Every item is then in one pair, or alone, or left in the buckets; where no key comes
twice on a side, who is paired with whom does not depend on the order of the lists.
-/

namespace EconomyLab.Foundation

universe u v w

abbrev Buckets (K : Type u) (B : Type v) := OrderedTable K (List B)

namespace Buckets

variable {K : Type u} {A : Type w} {B : Type v} [DecidableEq K]

/-- The item goes to the end of the bucket of its key. -/
def file (key : B → K) (t : Buckets K B) (b : B) : Buckets K B :=
  match t.get (key b) with
  | none => t.set (key b) [b]
  | some bucket => t.set (key b) (bucket ++ [b])

/-- The oldest item left under the key, and the buckets without it. -/
def take (k : K) (t : Buckets K B) : Option B × Buckets K B :=
  match t.get k with
  | none => (none, t)
  | some [] => (none, t)
  | some (b :: bucket) => (some b, t.set k bucket)

def fileAll (key : B → K) (bs : List B) : Buckets K B := bs.foldl (file key) OrderedTable.empty

omit [DecidableEq K] in
def held (t : Buckets K B) : List B := t.values.flatten

/-- Each item of the list with what it takes. -/
def pair (key : A → K) : List A → Buckets K B → List (A × Option B) × Buckets K B
  | [], t => ([], t)
  | a :: as, t =>
    let taken := take (key a) t
    let rest := pair key as taken.2
    ((a, taken.1) :: rest.1, rest.2)

/-- Every bucket holds items of its own key, and no key has two. -/
structure Filed (key : B → K) (t : Buckets K B) : Prop where
  nodup : t.keys.Nodup
  keyed : ∀ k bucket, t.get k = some bucket → ∀ b ∈ bucket, key b = k

variable {key : B → K} {t : Buckets K B} {k : K}

theorem held_set_of_none (h : t.get k = none) (bucket : List B) :
    held (t.set k bucket) = t.held ++ bucket := by
  have habsent : k ∉ t.keys := by
    intro hmem
    rw [← OrderedTable.get_isSome, h] at hmem
    cases hmem
  unfold held OrderedTable.values
  rw [OrderedTable.entries_set_absent habsent]
  simp

theorem held_set_of_some {bucket : List B} (h : t.get k = some bucket)
    (bucket' : List B) : (held (t.set k bucket') ++ bucket).Perm (t.held ++ bucket') := by
  obtain ⟨rows⟩ := t
  simp only [OrderedTable.get, held, OrderedTable.values, OrderedTable.set] at h ⊢
  induction rows with
  | nil => cases h
  | cons row rows ih =>
    obtain ⟨j, other⟩ := row
    by_cases hj : j = k
    · simp only [OrderedTable.lookup, hj, if_true, Option.some.injEq] at h
      simp only [OrderedTable.put, hj, if_true, List.map_cons, List.flatten_cons, h, List.append_assoc]
      have hswap : ((rows.map Prod.snd).flatten ++ bucket).Perm (bucket ++ (rows.map Prod.snd).flatten) :=
        List.perm_append_comm
      have hjoin := (hswap.append_left bucket').trans List.perm_append_comm
      rwa [List.append_assoc] at hjoin
    · simp only [OrderedTable.lookup, if_neg hj] at h
      simp only [OrderedTable.put, if_neg hj, List.map_cons, List.flatten_cons, List.append_assoc]
      exact (ih h).append_left other

theorem held_file (key : B → K) (t : Buckets K B) (b : B) : (file key t b).held.Perm (t.held ++ [b]) := by
  unfold file
  cases h : t.get (key b) with
  | none => exact (held_set_of_none h [b]) ▸ List.Perm.refl _
  | some bucket =>
    have hset := held_set_of_some h (bucket ++ [b])
    have hswap : (t.held ++ (bucket ++ [b])).Perm (t.held ++ [b] ++ bucket) := by
      rw [List.append_assoc]
      exact List.perm_append_comm.append_left _
    exact (List.perm_append_right_iff bucket).mp (hset.trans hswap)

theorem held_take (k : K) (t : Buckets K B) : ((take k t).1.toList ++ (take k t).2.held).Perm t.held := by
  unfold take
  cases h : t.get k with
  | none => exact List.Perm.refl _
  | some bucket =>
    cases bucket with
    | nil => exact List.Perm.refl _
    | cons b bucket =>
      have hset := held_set_of_some h bucket
      have hmove : (b :: held (t.set k bucket) ++ bucket).Perm (t.held ++ bucket) :=
        List.perm_middle.symm.trans hset
      exact (List.perm_append_right_iff bucket).mp hmove

theorem held_fileAll (key : B → K) (bs : List B) : (fileAll key bs).held.Perm bs := by
  have hfold : ∀ t : Buckets K B, (bs.foldl (file key) t).held.Perm (t.held ++ bs) := by
    induction bs with
    | nil =>
      intro t
      rw [List.append_nil]
      exact List.Perm.refl _
    | cons b bs ih =>
      intro t
      have hnext := (ih (file key t b)).trans ((held_file key t b).append_right bs)
      rwa [List.append_assoc] at hnext
  exact hfold OrderedTable.empty

theorem pair_fst (key : A → K) (as : List A) (t : Buckets K B) : (pair key as t).1.map Prod.fst = as := by
  induction as generalizing t with
  | nil => rfl
  | cons a as ih => exact congrArg _ (ih _)

theorem held_pair (key : A → K) (as : List A) (t : Buckets K B) :
    ((pair key as t).1.filterMap Prod.snd ++ (pair key as t).2.held).Perm t.held := by
  induction as generalizing t with
  | nil => exact List.Perm.refl _
  | cons a as ih =>
    have htake := held_take (key a) t
    have hrest := (ih (take (key a) t).2).append_left (take (key a) t).1.toList
    have hstep := hrest.trans htake
    rw [← List.append_assoc] at hstep
    have hfront : (pair key (a :: as) t).1.filterMap Prod.snd =
        (take (key a) t).1.toList ++ (pair key as (take (key a) t).2).1.filterMap Prod.snd := by
      cases h : (take (key a) t).1 with
      | none => simp [pair, h]
      | some b => simp [pair, h]
    rw [hfront]
    exact hstep

/-! ## Only equal keys are paired -/

theorem Filed.empty (key : B → K) : Filed key OrderedTable.empty :=
  ⟨List.nodup_nil, fun _ _ h => by cases h⟩

theorem Filed.set (h : Filed key t) {bucket : List B}
    (hbucket : ∀ b ∈ bucket, key b = k) : Filed key (t.set k bucket) := by
  refine ⟨OrderedTable.nodup_keys_set h.nodup k bucket, ?_⟩
  intro k' bucket' hget b hb
  rw [OrderedTable.get_set] at hget
  split at hget
  · rename_i hk
    cases hget
    exact hk ▸ hbucket b hb
  · exact h.keyed k' bucket' hget b hb

theorem Filed.file (h : Filed key t) (b : B) : Filed key (file key t b) := by
  unfold Buckets.file
  cases hget : t.get (key b) with
  | none =>
    apply h.set
    intro b' hb'
    rw [List.mem_singleton.mp hb']
  | some bucket =>
    apply h.set
    intro b' hb'
    rcases List.mem_append.mp hb' with hold | hnew
    · exact h.keyed _ _ hget b' hold
    · rw [List.mem_singleton.mp hnew]

theorem Filed.fileAll (key : B → K) (bs : List B) : Filed key (fileAll key bs) := by
  have hfold : ∀ t : Buckets K B, Filed key t → Filed key (bs.foldl (Buckets.file key) t) := by
    induction bs with
    | nil => exact fun t ht => ht
    | cons b bs ih => exact fun t ht => ih _ (ht.file b)
  exact hfold _ (.empty key)

theorem Filed.take (h : Filed key t) (k : K) :
    Filed key (take k t).2 ∧ ∀ b, (take k t).1 = some b → key b = k := by
  unfold Buckets.take
  cases hget : t.get k with
  | none => exact ⟨h, fun _ hb => by cases hb⟩
  | some bucket =>
    cases bucket with
    | nil => exact ⟨h, fun _ hb => by cases hb⟩
    | cons b bucket =>
      have hkeyed := h.keyed k _ hget
      refine ⟨h.set fun b' hb' => hkeyed b' (List.mem_cons_of_mem _ hb'), ?_⟩
      intro b' hb'
      cases hb'
      exact hkeyed b List.mem_cons_self

theorem Filed.pair {keyB : B → K} (h : Filed keyB t) (keyA : A → K) (as : List A) :
    Filed keyB (pair keyA as t).2 ∧
      ∀ a b, (a, some b) ∈ (pair keyA as t).1 → keyB b = keyA a := by
  induction as generalizing t with
  | nil => exact ⟨h, fun _ _ hab => by cases hab⟩
  | cons a as ih =>
    obtain ⟨hfiled, htaken⟩ := h.take (keyA a)
    obtain ⟨hrest, hpairs⟩ := ih hfiled
    refine ⟨hrest, ?_⟩
    intro a' b hab
    rcases List.mem_cons.mp hab with hhere | hthere
    · obtain ⟨rfl, hb⟩ := Prod.mk.inj hhere
      exact htaken b hb.symm
    · exact hpairs a' b hthere

/-- An item that finds its bucket empty has no counterpart left, and what is held stays findable. -/
theorem Filed.take_none (h : Filed key t) (hnone : (Buckets.take k t).1 = none) :
    ∀ b ∈ t.held, key b ≠ k := by
  intro b hb hk
  obtain ⟨bucket, hbucket, hmem⟩ := List.mem_flatten.mp hb
  obtain ⟨⟨k', bucket'⟩, hentry, rfl⟩ := List.mem_map.mp hbucket
  have hget : t.get k' = some bucket' := (OrderedTable.get_eq_some h.nodup).mpr hentry
  have hkey := h.keyed _ _ hget b hmem
  rw [← hkey, hk] at hget
  unfold Buckets.take at hnone
  rw [hget] at hnone
  cases bucket' with
  | nil => cases hmem
  | cons c cs => cases hnone

omit [DecidableEq K] in
theorem eq_of_key {bs : List B} (h : (bs.map key).Nodup) {b b' : B} (hb : b ∈ bs)
    (hb' : b' ∈ bs) (hkey : key b = key b') : b = b' :=
  List.inj_on_of_nodup_map h hb hb' hkey

theorem find?_of_key {bs : List B} (h : (bs.map key).Nodup) {b : B} (hb : b ∈ bs) :
    bs.find? (fun b' => key b' = key b) = some b := by
  cases hfind : bs.find? (fun b' => key b' = key b) with
  | none =>
    have hnone := List.find?_eq_none.mp hfind b hb
    exact absurd (decide_eq_true rfl) hnone
  | some b' =>
    have hkey := List.find?_some hfind
    rw [decide_eq_true_eq] at hkey
    rw [eq_of_key h (List.mem_of_find?_eq_some hfind) hb hkey]

theorem find?_perm {bs bs' : List B} (h : (bs.map key).Nodup) (hperm : bs.Perm bs') (k : K) :
    bs.find? (fun b => key b = k) = bs'.find? (fun b => key b = k) := by
  cases hfind : bs.find? (fun b => key b = k) with
  | none =>
    symm
    apply List.find?_eq_none.mpr
    intro b hb
    exact List.find?_eq_none.mp hfind b (hperm.mem_iff.mpr hb)
  | some b =>
    have hkey := List.find?_some hfind
    rw [decide_eq_true_eq] at hkey
    have hb := hperm.mem_iff.mp (List.mem_of_find?_eq_some hfind)
    subst hkey
    exact (find?_of_key ((hperm.map key).nodup_iff.mp h) hb).symm

theorem Filed.take_eq (h : Filed key t) (hnodup : (t.held.map key).Nodup) (k : K) :
    (Buckets.take k t).1 = t.held.find? (fun b => key b = k) := by
  cases htake : (Buckets.take k t).1 with
  | none =>
    symm
    apply List.find?_eq_none.mpr
    intro b hb
    rw [decide_eq_true_eq]
    exact h.take_none htake b hb
  | some b =>
    have hkey := (h.take k).2 b htake
    have hb : b ∈ t.held := by
      apply (held_take k t).subset
      rw [htake]
      exact List.mem_cons_self
    subst hkey
    exact (find?_of_key hnodup hb).symm

theorem Filed.pair_eq {keyA : A → K} {keyB : B → K} {as : List A} (h : Filed keyB t)
    (hA : (as.map keyA).Nodup) (hB : (t.held.map keyB).Nodup) :
    (Buckets.pair keyA as t).1 = as.map fun a => (a, t.held.find? (fun b => keyB b = keyA a)) := by
  induction as generalizing t with
  | nil => rfl
  | cons a as ih =>
    rw [List.map_cons, List.nodup_cons] at hA
    have hperm := held_take (keyA a) t
    have hrest : (((Buckets.take (keyA a) t).2.held).map keyB).Nodup := by
      have hmap := ((hperm.map keyB).nodup_iff).mpr hB
      rw [List.map_append] at hmap
      exact hmap.of_append_right
    have htail := ih (h.take (keyA a)).1 hA.2 hrest
    simp only [Buckets.pair, htail, List.map_cons, h.take_eq hB (keyA a)]
    apply congrArg
    apply List.map_congr_left
    intro a' ha'
    have hother : keyA a' ≠ keyA a := fun he => hA.1 (he ▸ List.mem_map_of_mem ha')
    have hskip : (Buckets.take (keyA a) t).1.toList.find? (fun b => keyB b = keyA a') = none := by
      apply List.find?_eq_none.mpr
      intro b hb
      have hkey := (h.take (keyA a)).2 b (Option.mem_toList.mp hb)
      rw [decide_eq_true_eq, hkey]
      exact Ne.symm hother
    rw [← find?_perm (((hperm.map keyB).nodup_iff).mpr hB) hperm, List.find?_append, hskip, Option.none_or]

/-- Other orders of both lists make the same pairs and leave the same items. -/
theorem pair_perm {keyA : A → K} {keyB : B → K} {as as' : List A} {bs bs' : List B}
    (hA : (as.map keyA).Nodup) (hB : (bs.map keyB).Nodup) (has : as.Perm as') (hbs : bs.Perm bs') :
    (pair keyA as (fileAll keyB bs)).1.Perm (pair keyA as' (fileAll keyB bs')).1 ∧
      (pair keyA as (fileAll keyB bs)).2.held.Perm (pair keyA as' (fileAll keyB bs')).2.held := by
  have hheld := held_fileAll keyB bs
  have hheld' := held_fileAll keyB bs'
  have hboth : (fileAll keyB bs).held.Perm (fileAll keyB bs').held := hheld.trans (hbs.trans hheld'.symm)
  have hnodup : ((fileAll keyB bs).held.map keyB).Nodup := ((hheld.map keyB).nodup_iff).mpr hB
  have hpairs : (pair keyA as (fileAll keyB bs)).1.Perm (pair keyA as' (fileAll keyB bs')).1 := by
    rw [(Filed.fileAll keyB bs).pair_eq hA hnodup,
      (Filed.fileAll keyB bs').pair_eq (((has.map keyA).nodup_iff).mp hA)
      (((hboth.map keyB).nodup_iff).mp hnodup)]
    have hsame : (fun a => (a, (fileAll keyB bs).held.find? (fun b => keyB b = keyA a))) =
        fun a => (a, (fileAll keyB bs').held.find? (fun b => keyB b = keyA a)) := by
      funext a
      rw [find?_perm hnodup hboth]
    rw [hsame]
    exact has.map _
  refine ⟨hpairs, ?_⟩
  have hleft := held_pair keyA as (fileAll keyB bs)
  have hright := held_pair keyA as' (fileAll keyB bs')
  have hjoined := (hleft.trans hboth).trans hright.symm
  exact (List.perm_append_left_iff _).mp (hjoined.trans ((hpairs.filterMap Prod.snd).symm.append_right _))

end Buckets

end EconomyLab.Foundation
