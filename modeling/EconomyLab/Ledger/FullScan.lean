import Mathlib.Algebra.Order.BigOperators.Group.List
import Mathlib.Order.Bounds.Basic
import EconomyLab.Ledger.Maturity
import EconomyLab.Ledger.Runs

/-!
# The bounded walk and the full scan

The full scan drains the oldest lots first and splits the lot it stops in. The lots of one
posting mature together, so it counts what the bounded walk does, and a draw clears at one
moment and stays clear.
-/

namespace EconomyLab

open Foundation

/-! ## The full scan -/

def LedgerTables.timelineAll (t : LedgerTables) (account : AccountRef) : List Lot :=
  ((t.lotIndexByAccount.get account).getD []).flatMap (lotsAt t.log account)

structure Settled where
  minor : Int
  maturesAt : Moment

def collectLots (t : LedgerTables) (account : AccountRef) (config : Config) : List Settled :=
  (t.timelineAll account).map fun lot => ⟨lot.minor, lotMaturesAt lot config⟩

def drainOldest : Int → List Settled → List Settled
  | _, [] => []
  | toDrain, lot :: lots =>
    if toDrain ≤ 0 then lot :: drainOldest toDrain lots
    else if lot.minor ≤ toDrain then drainOldest (toDrain - lot.minor) lots
    else { lot with minor := lot.minor - toDrain } :: drainOldest 0 lots

/-- Spends drain the oldest lots first. -/
def fifoTail (lots : List Settled) (balanceMinor : Int) : List Settled :=
  let toDrain := (lots.map Settled.minor).sum - balanceMinor
  if toDrain ≤ 0 then lots else drainOldest toDrain lots

def sumMatured (tail : List Settled) (now : Int) (unit : Currency) : Except Fault Amount :=
  tail.foldlM (fun matured lot => do
    if lot.maturesAt.reached now then add matured (← toAmount unit lot.minor) else return matured)
      (zero unit)

def maturedBalanceFullScan (t : LedgerTables) (account : AccountRef) (now : Int) (config : Config) :
    Except Fault Amount := do
  let live ← t.balance account
  if live.minor ≤ 0 then return zero (currency account)
  sumMatured (fifoTail (collectLots t account config) live.minor) now (currency account)

/-- When the amount would have matured, if the balance covers it at all. -/
def maturedAvailableAt (t : LedgerTables) (account : AccountRef) (now : Int) (config : Config)
    (amount : Amount) (live : Option Amount) : Except Fault (Option Moment) := do
  if amount.minor ≤ 0 then return some (.ms now)
  let live ← liveOf t account live
  if live.minor < amount.minor then return none
  let slices := (tailSlices t account live.minor now config).mergeSort TailSlice.upTo
  return (bindingSlice amount.minor 0 slices).map TailSlice.maturesAt

variable {slices : List TailSlice} {lot : Lot}

theorem lotsOfPosting_source {row : StoredPosting} {account : AccountRef}
    (h : lot ∈ lotsOfPosting row account) :
    lot.source = metaString row.fields "source" "unknown" ∧ lot.toppedUpAt = row.postedAt := by
  obtain ⟨leg, -, rfl⟩ := List.mem_map.mp h
  exact ⟨rfl, rfl⟩

theorem lotsOfPosting_pos {row : StoredPosting} {account : AccountRef}
    (h : lot ∈ lotsOfPosting row account) : 0 < lot.minor := by
  obtain ⟨leg, hleg, rfl⟩ := List.mem_map.mp h
  have hraises := (List.mem_filter.mp hleg).2
  simp only [Bool.and_eq_true, decide_eq_true_eq] at hraises
  exact hraises.2

theorem lotsOfPosting_kind (row : StoredPosting) (account : AccountRef) (now : Int) (config : Config) :
    ∃ k, ∀ lot ∈ lotsOfPosting row account, isMatured lot now config = k := by
  refine ⟨isMatured ⟨0, metaString row.fields "source" "unknown", row.postedAt⟩ now config, ?_⟩
  intro lot hlot
  obtain ⟨hsource, hat⟩ := lotsOfPosting_source hlot
  unfold isMatured lotMaturesAt
  rw [hsource, hat]

theorem lotsOf_eq_flatten (rows : List StoredPosting) (account : AccountRef) :
    lotsOf rows account = (rows.map (lotsOfPosting · account)).reverse.flatten := by
  rw [lotsOf, List.flatMap, List.map_reverse]

theorem Indexes.timelineAll {t : LedgerTables} {h : History} (hi : Indexes t h) (account : AccountRef) :
    t.timelineAll account = (h.kept.map (lotsOfPosting · account)).flatten := by
  have hpositions : (t.lotIndexByAccount.get account).getD [] = raisingPositions h.kept account := by
    rw [hi.lots]
    exact nonEmpty_getD _
  rw [LedgerTables.timelineAll, hpositions, hi.log]
  generalize h.kept = rows
  induction rows using List.reverseRecOn with
  | nil => rfl
  | append_singleton rows row ih =>
    have hlast : lotsAt (rows ++ [row]) account rows.length = lotsOfPosting row account := by
      simp [lotsAt]
    have holder : (raisingPositions rows account).flatMap (lotsAt (rows ++ [row]) account) =
        (rows.map (lotsOfPosting · account)).flatten := by
      rw [← ih]
      apply List.flatMap_congr
      intro position hposition
      have hlt := raisingPositions_lt position hposition
      simp [lotsAt, List.getElem?_append_left hlt]
    rw [raisingPositions_append, count_lottedAccounts, List.flatMap_append, holder, List.map_append,
      List.flatten_append]
    congr 1
    cases hraises : raises row.legs account with
    | true => simp [hlast]
    | false => simp [lotsOfPosting_eq_nil hraises]

theorem Indexes.timelineAll_perm {t : LedgerTables} {h : History} (hi : Indexes t h)
    (account : AccountRef) :
    (t.timelineAll account).Perm (lotsOf h.kept account) := by
  rw [hi.timelineAll, lotsOf_eq_flatten]
  exact (List.reverse_perm _).symm.flatten

theorem drainOldest_eq (config : Config) (lots : List Lot) (toDrain : Int) :
    drainOldest toDrain (lots.map fun lot => ⟨lot.minor, lotMaturesAt lot config⟩) =
      (undrained Lot.minor toDrain lots).map fun p => ⟨p.2, lotMaturesAt p.1 config⟩ := by
  induction lots generalizing toDrain with
  | nil => rfl
  | cons lot lots ih =>
    rw [List.map_cons, drainOldest, undrained]
    split
    · rw [ih]
      rfl
    · split
      · exact ih _
      · rw [ih]
        rfl

theorem fifoTail_eq (config : Config) (lots : List Lot) (balance : Int) :
    fifoTail (lots.map fun lot => ⟨lot.minor, lotMaturesAt lot config⟩) balance =
      (undrained Lot.minor (totalSize Lot.minor lots - balance) lots).map fun p =>
        ⟨p.2, lotMaturesAt p.1 config⟩ := by
  have htotal : ((lots.map fun lot => (⟨lot.minor, lotMaturesAt lot config⟩ : Settled)).map
    Settled.minor).sum =
      totalSize Lot.minor lots := by
    rw [List.map_map]
    rfl
  unfold fifoTail
  simp only [htotal]
  split
  · rename_i hall
    rw [undrained_met hall, List.map_map]
    rfl
  · exact drainOldest_eq config lots _

theorem undrained_pos {lots : List Lot} (h : ∀ lot ∈ lots, 0 < lot.minor) (need : Int) :
    ∀ p ∈ undrained Lot.minor need lots, 0 < p.2 := by
  induction lots generalizing need with
  | nil => exact fun p hp => absurd hp List.not_mem_nil
  | cons lot lots ih =>
    have hrest := ih fun l hl => h l (List.mem_cons_of_mem _ hl)
    intro p hp
    rw [undrained] at hp
    split at hp
    · rcases List.mem_cons.mp hp with rfl | hp
      · exact h lot List.mem_cons_self
      · exact hrest _ p hp
    · split at hp
      · exact hrest _ p hp
      · rename_i hsplit
        rcases List.mem_cons.mp hp with rfl | hp
        · simp only
          omega
        · exact hrest _ p hp

theorem sumMatured_eq {unit : Currency} {now : Int} {tail : List Settled} (h : ∀ lot ∈ tail, 0 < lot.minor)
    {matured : Amount} (hunit : matured.currency = unit) (hnonneg : 0 ≤ matured.minor)
    (hfits : matured.minor + ((tail.filter (·.maturesAt.reached now)).map Settled.minor).sum ≤
      2 ^ 63 - 1) :
    ∃ sum, tail.foldlM (fun matured lot => do
        if lot.maturesAt.reached now then add matured (← toAmount unit lot.minor) else return matured)
          matured = .ok sum ∧
      sum.currency = unit ∧
      sum.minor = matured.minor + ((tail.filter (·.maturesAt.reached now)).map Settled.minor).sum := by
  induction tail generalizing matured with
  | nil => exact ⟨matured, rfl, hunit, (Int.add_zero _).symm⟩
  | cons lot tail ih =>
    have htail : ∀ l ∈ tail, 0 < l.minor := fun l hl => h l (List.mem_cons_of_mem _ hl)
    have hlot := h lot List.mem_cons_self
    rw [List.filter_cons] at hfits ⊢
    by_cases hdue : lot.maturesAt.reached now = true
    · have hrest : 0 ≤ ((tail.filter (·.maturesAt.reached now)).map Settled.minor).sum := by
        apply List.sum_nonneg
        intro x hx
        obtain ⟨l, hl, rfl⟩ := List.mem_map.mp hx
        exact (htail l (List.mem_filter.mp hl).1).le
      simp only [hdue, if_true, List.map_cons, List.sum_cons] at hfits ⊢
      have hpart : I64 lot.minor := ⟨by omega, by omega⟩
      have hsum : I64 (matured.minor + lot.minor) := ⟨by omega, by omega⟩
      have hadd : add matured ⟨unit, lot.minor, hpart⟩ =
          .ok ⟨matured.currency, matured.minor + lot.minor, hsum⟩ := by
        have hsame : assertSameCurrency matured ⟨unit, lot.minor, hpart⟩ = .ok () := if_pos hunit
        simp only [add, hsame, bind, Except.bind]
        exact toAmount_ok hsum
      obtain ⟨sum, hfold, hcurrency, hminor⟩ :=
        @ih htail ⟨matured.currency, matured.minor + lot.minor, hsum⟩ hunit
        (by simp only; omega) (by simp only; omega)
      refine ⟨sum, ?_, hcurrency, by rw [hminor]; simp only; omega⟩
      rw [List.foldlM_cons]
      simp only [hdue, if_true, toAmount_ok hpart, bind, Except.bind, hadd]
      exact hfold
    · simp only [hdue, Bool.false_eq_true, if_false] at hfits ⊢
      obtain ⟨sum, hfold, hcurrency, hminor⟩ := ih htail hunit hnonneg hfits
      refine ⟨sum, ?_, hcurrency, hminor⟩
      rw [List.foldlM_cons]
      simp only [hdue, Bool.false_eq_true, if_false, bind, Except.bind]
      exact hfold

section Reads

variable {t : LedgerTables} {h : History}

theorem settledPart_scan (hi : Indexes t h) (account : AccountRef) (balance now : Int) (config : Config) :
    (((fifoTail (collectLots t account config) balance).filter (·.maturesAt.reached now)).map
      Settled.minor).sum =
      settledPart (lotsOf h.kept account) balance now config := by
  have hpos : ∀ block ∈ h.kept.map (lotsOfPosting · account), ∀ lot ∈ block, 0 < lot.minor := by
    intro block hblock lot hlot
    obtain ⟨row, -, rfl⟩ := List.mem_map.mp hblock
    exact lotsOfPosting_pos hlot
  have hkind : ∀ block ∈ h.kept.map (lotsOfPosting · account),
      ∃ k, ∀ lot ∈ block, isMatured lot now config = k := by
    intro block hblock
    obtain ⟨row, -, rfl⟩ := List.mem_map.mp hblock
    exact lotsOfPosting_kind row account now config
  have hscan := undrainedOf_flatten hpos hkind balance
  rw [← lotsOf_eq_flatten, ← hi.timelineAll] at hscan
  rw [settledPart, ← hscan, collectLots, fifoTail_eq, List.filter_map, List.map_map]
  rfl

theorem maturedBalanceFullScan_eq (hh : Honest t h) (account : AccountRef) (now : Int) (config : Config) :
    maturedBalance t account now config = maturedBalanceFullScan t account now config := by
  obtain ⟨matured, hbounded, hcurrency, hminor⟩ := maturedBalance_eq hh account now config
  have hlive : t.balance account = .ok ⟨currency account, t.balanceOf account, hh.inRange account⟩ :=
    toAmount_ok (hh.inRange account)
  by_cases hb : t.balanceOf account ≤ 0
  · unfold maturedBalance maturedBalanceFullScan
    simp only [hlive, bind, Except.bind, if_pos hb]
  · have hpos : ∀ lot ∈ fifoTail (collectLots t account config) (t.balanceOf account), 0 < lot.minor := by
      have hlots : ∀ lot ∈ t.timelineAll account, 0 < lot.minor := fun lot hlot =>
        lotsOf_pos lot ((hh.indexes.timelineAll_perm account).mem_iff.mp hlot)
      intro lot hlot
      rw [collectLots, fifoTail_eq] at hlot
      obtain ⟨p, hp, rfl⟩ := List.mem_map.mp hlot
      exact undrained_pos hlots _ p hp
    have hscan := settledPart_scan hh.indexes account (t.balanceOf account) now config
    have hle := matured.inRange.2
    obtain ⟨sum, hsum, hsumCurrency, hsumMinor⟩ := @sumMatured_eq (currency account) now _ hpos
      (zero (currency account)) rfl le_rfl (by rw [hscan, zero_minor]; omega)
    have hsame : matured = sum := by
      rw [hscan, zero_minor, Int.zero_add] at hsumMinor
      exact Amount.ext (hcurrency.trans hsumCurrency.symm) (hminor.trans hsumMinor.symm)
    rw [hbounded, hsame]
    unfold maturedBalanceFullScan
    simp only [hlive, bind, Except.bind, if_neg hb]
    exact hsum.symm

end Reads

/-! ## When a draw clears -/

def dueBy (slices : List TailSlice) (time : Int) : Int :=
  ((slices.filter (·.maturesAt.reached time)).map TailSlice.take).sum

theorem dueBy_cons (slice : TailSlice) (slices : List TailSlice) (time : Int) :
    dueBy (slice :: slices) time =
      (if slice.maturesAt.reached time then slice.take else 0) + dueBy slices time := by
  unfold dueBy
  rw [List.filter_cons]
  by_cases hdue : slice.maturesAt.reached time = true
  · simp only [hdue, if_true, List.map_cons, List.sum_cons]
  · simp only [hdue, Bool.false_eq_true, if_false, Int.zero_add]

theorem dueBy_nonneg (h : ∀ slice ∈ slices, 0 ≤ slice.take) (time : Int) : 0 ≤ dueBy slices time := by
  apply List.sum_nonneg
  intro x hx
  obtain ⟨slice, hslice, rfl⟩ := List.mem_map.mp hx
  exact h slice (List.mem_filter.mp hslice).1

theorem dueBy_early {time : Int}
    (h : ∀ slice ∈ slices, slice.maturesAt.reached time = false) : dueBy slices time = 0 := by
  have hnone : slices.filter (·.maturesAt.reached time) = [] := by
    apply List.filter_eq_nil_iff.mpr
    intro slice hslice
    rw [h slice hslice]
    exact Bool.false_ne_true
  rw [dueBy, hnone]
  rfl

theorem dueBy_perm {slices slices' : List TailSlice} (h : slices.Perm slices') (time : Int) :
    dueBy slices time = dueBy slices' time :=
  ((h.filter _).map _).sum_eq

theorem dueBy_le (h : ∀ slice ∈ slices, 0 < slice.take) (time : Int) :
    dueBy slices time ≤ (slices.map TailSlice.take).sum := by
  induction slices with
  | nil => exact le_rfl
  | cons first slices ih =>
    have hrest := ih fun slice hslice => h slice (List.mem_cons_of_mem _ hslice)
    have hfirst := h first List.mem_cons_self
    rw [dueBy_cons, List.map_cons, List.sum_cons]
    split <;> omega

theorem dueBy_lt (h : ∀ slice ∈ slices, 0 < slice.take) {time : Int}
    {waiting : TailSlice} (hmem : waiting ∈ slices) (hwaits : waiting.maturesAt.reached time = false) :
    dueBy slices time < (slices.map TailSlice.take).sum := by
  induction slices with
  | nil => exact absurd hmem List.not_mem_nil
  | cons first slices ih =>
    have hlater : ∀ slice ∈ slices, 0 < slice.take := fun slice hslice =>
      h slice (List.mem_cons_of_mem _ hslice)
    have hfirst := h first List.mem_cons_self
    rw [dueBy_cons, List.map_cons, List.sum_cons]
    rcases List.mem_cons.mp hmem with rfl | hmem
    · have hrest := dueBy_le hlater time
      simp only [hwaits, Bool.false_eq_true, if_false]
      omega
    · have hrest := ih hlater hmem
      split <;> omega

def Moment.time : Moment → Int
  | .ms time => time
  | .text time _ => time

def TailSlice.Timed (slice : TailSlice) : Prop := slice.maturesAt = .ms slice.maturesAt.time

theorem TailSlice.Timed.reached {slice : TailSlice} (h : slice.Timed) (time : Int) :
    slice.maturesAt.reached time = decide (slice.maturesAt.time ≤ time) := by
  unfold TailSlice.Timed at h
  rw [h]
  rfl

theorem TailSlice.upTo_timed {a b : TailSlice} (ha : a.Timed) (hb : b.Timed) :
    a.upTo b = decide (a.maturesAt.time ≤ b.maturesAt.time) := by
  unfold TailSlice.Timed at ha hb
  unfold TailSlice.upTo
  rw [ha, hb]
  rfl

theorem mergeSort_timed (h : ∀ slice ∈ slices, slice.Timed) :
    (slices.mergeSort TailSlice.upTo).Pairwise fun a b => a.maturesAt.time ≤ b.maturesAt.time := by
  have hsame : ∀ a ∈ slices, ∀ b ∈ slices, a.upTo b = decide (a.maturesAt.time ≤ b.maturesAt.time) :=
    fun a ha b hb => TailSlice.upTo_timed (h a ha) (h b hb)
  have htimes : ((slices.mergeSort TailSlice.upTo).map (·.maturesAt.time)).Pairwise (· ≤ ·) := by
    rw [List.map_mergeSort (s := fun x y : Int => decide (x ≤ y)) hsame]
    have htrans : ∀ a b c : Int, decide (a ≤ b) = true → decide (b ≤ c) = true → decide (a ≤ c) = true :=
      fun a b c hab hbc => decide_eq_true ((of_decide_eq_true hab).trans (of_decide_eq_true hbc))
    have htotal : ∀ a b : Int, (decide (a ≤ b) || decide (b ≤ a)) = true := by
      intro a b
      rw [Bool.or_eq_true, decide_eq_true_eq, decide_eq_true_eq]
      exact le_total a b
    have hsorted := List.pairwise_mergeSort htrans htotal (slices.map (·.maturesAt.time))
    exact hsorted.imp fun hab => of_decide_eq_true hab
  exact List.pairwise_map.mp htimes

/-- In the order of their maturity, the binding slice is the one with which the need is met: it is
met at a time exactly when that slice has matured. -/
theorem bindingSlice_spec (htimed : ∀ slice ∈ slices, slice.Timed)
    (hsorted : slices.Pairwise fun a b => a.maturesAt.time ≤ b.maturesAt.time)
    (htakes : ∀ slice ∈ slices, 0 ≤ slice.take) {need covered : Int} (hcovered : covered < need)
    (hneed : need ≤ covered + (slices.map TailSlice.take).sum) :
    ∃ slice ∈ slices, bindingSlice need covered slices = some slice ∧
      ∀ time, need ≤ covered + dueBy slices time ↔ slice.maturesAt.time ≤ time := by
  induction slices generalizing covered with
  | nil =>
    rw [List.map_nil, List.sum_nil] at hneed
    omega
  | cons first slices ih =>
    obtain ⟨hfirst, hrest⟩ := List.pairwise_cons.mp hsorted
    have htake := htakes first List.mem_cons_self
    have hlater : ∀ slice ∈ slices, 0 ≤ slice.take := fun slice hs =>
      htakes slice (List.mem_cons_of_mem _ hs)
    have htimedRest : ∀ slice ∈ slices, slice.Timed := fun slice hs =>
      htimed slice (List.mem_cons_of_mem _ hs)
    have hreached := (htimed first List.mem_cons_self).reached
    have hearly : ∀ time, time < first.maturesAt.time → dueBy (first :: slices) time = 0 := by
      intro time htime
      apply dueBy_early
      intro slice hslice
      rw [(htimed slice hslice).reached, decide_eq_false_iff_not, not_le]
      rcases List.mem_cons.mp hslice with rfl | hslice
      · exact htime
      · exact htime.trans_le (hfirst slice hslice)
    rw [bindingSlice]
    by_cases hmet : need ≤ covered + first.take
    · refine ⟨first, List.mem_cons_self, if_pos hmet, ?_⟩
      intro time
      constructor
      · intro hdue
        by_contra hnot
        have hzero := hearly time (lt_of_not_ge hnot)
        omega
      · intro hdue
        have hnonneg := dueBy_nonneg hlater time
        rw [dueBy_cons, hreached, decide_eq_true hdue, if_pos rfl]
        omega
    · rw [List.map_cons, List.sum_cons] at hneed
      obtain ⟨slice, hslice, hbinding, hclears⟩ :=
        @ih htimedRest hrest hlater (covered + first.take) (by omega) (by omega)
      refine ⟨slice, List.mem_cons_of_mem _ hslice, (if_neg hmet).trans hbinding, ?_⟩
      intro time
      by_cases hdue : first.maturesAt.time ≤ time
      · rw [dueBy_cons, hreached, decide_eq_true hdue, if_pos rfl, ← hclears time]
        constructor <;> intro hle <;> omega
      · have hzero := hearly time (lt_of_not_ge hdue)
        have hle := hfirst slice hslice
        constructor
        · intro hneed
          omega
        · intro htime
          omega

theorem dueBy_cover (lots : List Lot) (balance now time : Int) (config : Config) :
    dueBy ((cover Lot.minor balance lots).map fun p => sliceOf config now p.1 p.2) time =
      settledPart lots balance time config := by
  rw [dueBy, settledPart, taken, List.filter_map, List.map_map]
  rfl

theorem sum_cover {lots : List Lot} (h : ∀ lot ∈ lots, 0 < lot.minor) {balance : Int} (hb : 0 ≤ balance)
    (hcovered : balance ≤ totalSize Lot.minor lots) :
    ((cover Lot.minor balance lots).map Prod.snd).sum = balance := by
  have hall : taken Lot.minor (fun _ => true) balance lots = min (totalSize Lot.minor lots)
    (max 0 balance) :=
    taken_of_eq h (fun _ _ => rfl) balance
  have hsame : taken Lot.minor (fun _ => true) balance lots =
      ((cover Lot.minor balance lots).map Prod.snd).sum := by
    rw [taken, List.filter_true]
  omega

theorem covered_lots (lots : List Lot) (balance : Int) :
    (cover Lot.minor balance lots).map Prod.fst <+: lots := by
  induction lots generalizing balance with
  | nil => exact List.prefix_refl []
  | cons lot lots ih =>
    rw [cover_cons]
    split
    · exact List.nil_prefix
    · rw [List.map_cons]
      exact (List.prefix_cons_inj lot).mpr (ih _)

theorem cover_bounds {lots : List Lot} (h : ∀ lot ∈ lots, 0 < lot.minor) (balance : Int) :
    ∀ p ∈ cover Lot.minor balance lots, 0 < p.2 ∧ p.2 ≤ p.1.minor := by
  induction lots generalizing balance with
  | nil => exact fun p hp => absurd hp List.not_mem_nil
  | cons lot lots ih =>
    have hlot := h lot List.mem_cons_self
    have hrest := ih fun l hl => h l (List.mem_cons_of_mem _ hl)
    intro p hp
    rw [cover_cons] at hp
    split at hp
    · exact absurd hp List.not_mem_nil
    · rename_i hneed
      rcases List.mem_cons.mp hp with rfl | hp
      · exact ⟨lt_min hlot (lt_of_not_ge hneed), min_le_left _ _⟩
      · exact hrest _ p hp

theorem total_le_lots (rows : List StoredPosting) (account : AccountRef) :
    total (deltas (legsOf rows)) account ≤ totalSize Lot.minor (lotsOf rows account) := by
  have hrow : ∀ row : StoredPosting, total (deltas row.legs) account ≤
      totalSize Lot.minor (lotsOfPosting row account) := by
    intro row
    unfold lotsOfPosting
    generalize row.legs = legs
    induction legs with
    | nil => exact le_refl 0
    | cons leg legs ih =>
      rw [deltas_cons, total_cons, List.filter_cons]
      by_cases haccount : leg.account = account
      · by_cases hraises : 0 < leg.delta
        · simp only [haccount, hraises, decide_true, Bool.and_true, if_true, List.map_cons, totalSize_cons]
          omega
        · simp only [haccount, hraises, decide_true, decide_false, Bool.and_false, Bool.false_eq_true,
            if_true, if_false]
          omega
      · simp only [haccount, decide_false, Bool.false_and, Bool.false_eq_true, if_false, Int.zero_add]
        exact ih
  induction rows with
  | nil => exact le_refl 0
  | cons row rows ih =>
    have hlegs : legsOf (row :: rows) = row.legs ++ legsOf rows := rfl
    have hlots : lotsOf (row :: rows) account = lotsOf rows account ++ lotsOf [row] account :=
      lotsOf_append [row] rows account
    have hsingle : lotsOf [row] account = lotsOfPosting row account := List.append_nil _
    have htotal : totalSize Lot.minor (lotsOf rows account ++ lotsOfPosting row account) =
        totalSize Lot.minor (lotsOf rows account) + totalSize Lot.minor (lotsOfPosting row account) := by
      simp only [totalSize, List.map_append, List.sum_append]
    have hhere := hrow row
    rw [hlegs, deltas_append, total_append, hlots, hsingle, htotal]
    omega

/-- The source has no horizon of its own, and names a member that the horizons inherit. -/
def Config.Inherits (config : Config) (source : String) : Prop :=
  config.maturityHorizonMs.lookup source = none ∧ source ∈ OBJECT_MEMBERS

theorem lotMaturesAt_inherited {config : Config} (h : config.Inherits lot.source) (time : Int) :
    (lotMaturesAt lot config).reached time = false := by
  unfold lotMaturesAt maturityHorizonMs
  simp only [h.1, h.2, if_true]
  rfl

theorem lotMaturesAt_own {config : Config} (h : ¬ config.Inherits lot.source) :
    lotMaturesAt lot config = .ms (lotMaturesAt lot config).time := by
  have hwait : ∃ wait, maturityHorizonMs lot.source config = .ms wait := by
    unfold maturityHorizonMs
    cases hown : config.maturityHorizonMs.lookup lot.source with
    | some exact_ =>
      simp only [hown]
      exact ⟨exact_, rfl⟩
    | none =>
      simp only [hown]
      exact ⟨_, if_neg fun hmem => h ⟨hown, hmem⟩⟩
  obtain ⟨wait, hwait⟩ := hwait
  unfold lotMaturesAt
  rw [hwait]
  rfl

section Clears

variable {t : LedgerTables} {h : History}

/-- A draw that the balance covers clears at one moment, which a lot that the walk visits sets. -/
theorem clears_at (hh : Honest t h) (account : AccountRef)
    (hcovered : t.balanceOf account ≤ totalSize Lot.minor (lotsOf h.kept account)) (now : Int)
    (config : Config)
    (hown : ∀ p ∈ cover Lot.minor (t.balanceOf account) (lotsOf h.kept account),
      ¬ config.Inherits p.1.source)
    {amount : Amount} (hpositive : 0 < amount.minor) (hwithin : amount.minor ≤ t.balanceOf account)
    {live : Option Amount} (hlive : ∀ l, live = some l → l.minor = t.balanceOf account) :
    ∃ lot ∈ lotsOf h.kept account, ∃ availableAt, lotMaturesAt lot config = .ms availableAt ∧
      maturedAvailableAt t account now config amount live = .ok (some (.ms availableAt)) ∧
      maturityBlocker t account now config amount live = .ok (lot.source, .ms availableAt) ∧
      ∀ time, maturedAtLeast t account time config amount live = .ok (decide (availableAt ≤ time)) := by
  have hlots : ∀ lot ∈ lotsOf h.kept account, 0 < lot.minor := lotsOf_pos
  have hread : ∃ l : Amount, l.minor = t.balanceOf account ∧ liveOf t account live = .ok l := by
    cases live with
    | some l => exact ⟨l, hlive l rfl, rfl⟩
    | none =>
      exact ⟨⟨currency account, t.balanceOf account, hh.inRange account⟩, rfl,
      toAmount_ok (hh.inRange account)⟩
  obtain ⟨l, hl, hread⟩ := hread
  let walked := (cover Lot.minor (t.balanceOf account) (lotsOf h.kept account)).map fun p =>
    sliceOf config now p.1 p.2
  have hwalked : tailSlices t account l.minor now config = walked := by
    rw [hl]
    exact hh.indexes.tailSlices account _ now config
  have hwalkedTimed : ∀ slice ∈ walked, slice.Timed := by
    intro slice hslice
    obtain ⟨p, hp, rfl⟩ := List.mem_map.mp hslice
    exact lotMaturesAt_own (hown p hp)
  let sorted := walked.mergeSort TailSlice.upTo
  have hperm : sorted.Perm walked := List.mergeSort_perm _ _
  have htimed : ∀ slice ∈ sorted, slice.Timed := fun slice hslice =>
    hwalkedTimed slice (hperm.mem_iff.mp hslice)
  have hsorted : sorted.Pairwise fun a b => a.maturesAt.time ≤ b.maturesAt.time :=
    mergeSort_timed hwalkedTimed
  have htakes : ∀ slice ∈ sorted, 0 ≤ slice.take := by
    intro slice hslice
    obtain ⟨p, hp, rfl⟩ := List.mem_map.mp (hperm.mem_iff.mp hslice)
    exact cover_take_nonneg hlots _ p hp
  have htotal : (sorted.map TailSlice.take).sum = t.balanceOf account := by
    rw [(hperm.map _).sum_eq, List.map_map]
    exact sum_cover hlots (by omega) hcovered
  obtain ⟨slice, hslice, hbinding, hclears⟩ := bindingSlice_spec htimed hsorted htakes hpositive (by omega)
  obtain ⟨p, hp, rfl⟩ := List.mem_map.mp (hperm.mem_iff.mp hslice)
  have hvisited : p.1 ∈ lotsOf h.kept account :=
    (covered_lots _ _).subset (List.mem_map_of_mem hp)
  have hmoment := lotMaturesAt_own (hown p hp)
  have hnot : ¬ amount.minor ≤ 0 := not_le_of_gt hpositive
  have henough : ¬ l.minor < amount.minor := by omega
  refine ⟨p.1, hvisited, (lotMaturesAt p.1 config).time, hmoment, ?_, ?_, ?_⟩
  · unfold maturedAvailableAt
    rw [hread]
    simp only [bind, Except.bind, if_neg hnot, if_neg henough, hwalked]
    exact congrArg Except.ok ((congrArg (Option.map TailSlice.maturesAt) hbinding).trans
      (congrArg some hmoment))
  · unfold maturityBlocker
    rw [hread]
    simp only [bind, Except.bind, if_neg hnot, if_neg henough, hwalked]
    have hfound : bindingSlice amount.minor 0 (walked.mergeSort TailSlice.upTo) =
      some (sliceOf config now p.1 p.2) :=
      hbinding
    rw [hfound, ← hmoment]
    rfl
  · intro time
    rw [maturedAtLeast_eq hh account time config amount hlive]
    have hdue := hclears time
    rw [dueBy_perm hperm, Int.zero_add] at hdue
    have hcover : dueBy walked time = settledPart (lotsOf h.kept account) (t.balanceOf account)
      time config :=
      dueBy_cover _ _ now time config
    rw [hcover] at hdue
    congr 1
    rw [decide_eq_decide]
    exact (or_iff_right hnot).trans hdue

/-- A draw of the whole balance never clears when the balance rests on a lot that never matures. -/
theorem never_clears (hh : Honest t h) (account : AccountRef)
    (hcovered : t.balanceOf account ≤ totalSize Lot.minor (lotsOf h.kept account)) (config : Config)
    {p : Lot × Int} (hp : p ∈ cover Lot.minor (t.balanceOf account) (lotsOf h.kept account))
    (hinherits : config.Inherits p.1.source) (hpositive : 0 < t.balanceOf account) (time : Int) :
    maturedAtLeast t account time config ⟨currency account, t.balanceOf account, hh.inRange account⟩ none =
      .ok false := by
  have hlots : ∀ lot ∈ lotsOf h.kept account, 0 < lot.minor := lotsOf_pos
  let walked := (cover Lot.minor (t.balanceOf account) (lotsOf h.kept account)).map fun p =>
    sliceOf config 0 p.1 p.2
  have htakes : ∀ slice ∈ walked, 0 < slice.take := by
    intro slice hslice
    obtain ⟨q, hq, rfl⟩ := List.mem_map.mp hslice
    exact (cover_bounds hlots _ q hq).1
  have hless := dueBy_lt htakes (List.mem_map_of_mem hp) (lotMaturesAt_inherited hinherits time)
  have hdue : dueBy walked time = settledPart (lotsOf h.kept account) (t.balanceOf account) time config :=
    dueBy_cover _ _ 0 time config
  have htotal : (walked.map TailSlice.take).sum = t.balanceOf account := by
    rw [List.map_map]
    exact sum_cover hlots hpositive.le hcovered
  rw [@maturedAtLeast_eq t h hh account time config _ none fun l hl =>
    absurd hl.symm (Option.some_ne_none l)]
  congr 1
  rw [decide_eq_false_iff_not, not_or, not_le, not_le]
  change 0 < t.balanceOf account ∧ settledPart _ (t.balanceOf account) time config < t.balanceOf account
  exact ⟨hpositive, by omega⟩

end Clears

/-- The bounded reads of an account answer what the full scan does, and a covered draw has a first moment
from which on it is matured, which a lot sets. Each lot is read once. -/
structure MaturityExact (t : LedgerTables) (account : AccountRef) (config : Config) : Prop where
  scan : ∀ now, maturedBalance t account now config = maturedBalanceFullScan t account now config
  atLeast : ∀ now amount live, (∀ l, live = some l → t.balance account = .ok l) →
    ∃ matured, maturedBalance t account now config = .ok matured ∧
      maturedAtLeast t account now config amount live = .ok (decide (amount.minor ≤ matured.minor))
  clears : ∀ now amount live, (∀ l, live = some l → t.balance account = .ok l) → 0 < amount.minor →
    amount.minor ≤ t.balanceOf account →
    ∃ availableAt, maturedAvailableAt t account now config amount live = .ok (some (.ms availableAt)) ∧
      IsLeast {time | ∀ later, time ≤ later → maturedAtLeast t account later config amount live = .ok true}
        availableAt ∧
      ∃ lot ∈ t.timelineAll account, lotMaturesAt lot config = .ms availableAt ∧
        maturityBlocker t account now config amount live = .ok (lot.source, .ms availableAt)
  sameLots : (t.timelineAll account).Perm (lotsOf t.log account)
  visits : ∀ now, 0 ≤ t.balanceOf account → ∃ visited : List (Lot × Int),
    tailSlices t account (t.balanceOf account) now config =
      (visited.map fun p => sliceOf config now p.1 p.2) ∧
    visited.map Prod.fst <+: lotsOf t.log account ∧ (∀ p ∈ visited, 0 < p.2 ∧ p.2 ≤ p.1.minor) ∧
    (visited.map Prod.snd).sum = t.balanceOf account

section Exact

variable {t : LedgerTables} {h : History}

theorem maturedAtLeast_maturedBalance (hh : Honest t h) (account : AccountRef) (now : Int)
    (config : Config) (amount : Amount) {live : Option Amount}
    (hlive : ∀ l, live = some l → l.minor = t.balanceOf account) :
    ∃ matured, maturedBalance t account now config = .ok matured ∧
      maturedAtLeast t account now config amount live = .ok (decide (amount.minor ≤ matured.minor)) := by
  obtain ⟨matured, hbounded, -, hmatured⟩ := maturedBalance_eq hh account now config
  refine ⟨matured, hbounded, ?_⟩
  have hnonneg : 0 ≤ matured.minor := by
    rw [hmatured]
    exact taken_nonneg lotsOf_pos _ _
  rw [maturedAtLeast_eq hh account now config amount hlive, ← hmatured]
  congr 1
  rw [decide_eq_decide]
  constructor
  · rintro (hnone | hle)
    · exact hnone.trans hnonneg
    · exact hle
  · exact Or.inr

theorem MaturityExact.of_own (hh : Honest t h) {account : AccountRef}
    (hcovered : t.balanceOf account ≤ totalSize Lot.minor (lotsOf h.kept account)) {config : Config}
    (hown : ∀ p ∈ cover Lot.minor (t.balanceOf account) (lotsOf h.kept account),
      ¬ config.Inherits p.1.source) :
    MaturityExact t account config := by
  have hlog : t.log = h.kept := hh.indexes.log
  have hlots : ∀ lot ∈ lotsOf h.kept account, 0 < lot.minor := lotsOf_pos
  have hminor : ∀ {live : Option Amount}, (∀ l, live = some l → t.balance account = .ok l) →
      ∀ l, live = some l → l.minor = t.balanceOf account :=
    fun hlive l hl => (toAmount_eq_ok.mp (hlive l hl)).2
  have hperm := hh.indexes.timelineAll_perm account
  constructor
  · exact fun now => maturedBalanceFullScan_eq hh account now config
  · exact fun now amount live hlive => maturedAtLeast_maturedBalance hh account now config amount
      (hminor hlive)
  · intro now amount live hlive hpositive hwithin
    obtain ⟨lot, hlot, availableAt, hmoment, havailable, hblocker, hclears⟩ :=
      clears_at hh account hcovered now config hown hpositive hwithin (hminor hlive)
    refine ⟨availableAt, havailable, ⟨?_, ?_⟩, lot, hperm.mem_iff.mpr hlot, hmoment, hblocker⟩
    · intro later hle
      rw [hclears later, decide_eq_true hle]
    · intro time htime
      have hcleared := htime time le_rfl
      rw [hclears time] at hcleared
      exact of_decide_eq_true (Except.ok.inj hcleared)
  · rw [hlog]
    exact hperm
  · intro now hbalance
    rw [hlog]
    exact ⟨cover Lot.minor (t.balanceOf account) (lotsOf h.kept account), hh.indexes.tailSlices account
      _ now config,
      covered_lots _ _, cover_bounds hlots _, sum_cover hlots hbalance hcovered⟩

theorem not_maturityExact (hh : Honest t h) {account : AccountRef}
    (hcovered : t.balanceOf account ≤ totalSize Lot.minor (lotsOf h.kept account)) {config : Config}
    {p : Lot × Int} (hp : p ∈ cover Lot.minor (t.balanceOf account) (lotsOf h.kept account))
    (hinherits : config.Inherits p.1.source) : ¬ MaturityExact t account config := by
  intro hexact
  have hpositive : 0 < t.balanceOf account := by
    by_contra hnone
    rw [cover_met (not_lt.mp hnone)] at hp
    exact List.not_mem_nil hp
  obtain ⟨availableAt, -, hleast, -⟩ := hexact.clears 0
    ⟨currency account, t.balanceOf account, hh.inRange account⟩ none (fun _ hl => nomatch hl)
      hpositive le_rfl
  have hnever := never_clears hh account hcovered config hp hinherits hpositive availableAt
  have hcleared := hleast.1 availableAt le_rfl
  rw [hnever] at hcleared
  exact absurd (Except.ok.inj hcleared) Bool.false_ne_true

end Exact

/-- On a ledger that was not archived, whatever its lots, horizons and time, the bounded reads are exact
unless the balance rests on a lot whose source names a member that the horizons inherit. -/
theorem bounded_maturity_exact (digest : Digest) (cmds : List Command)
    (hunarchived : ∀ c ∈ cmds, c.isPrune = false) (account : AccountRef) (config : Config) :
    let t := (runLedger digest cmds).ledger.tables
    MaturityExact t account config ↔
      ∀ p ∈ cover Lot.minor (t.balanceOf account) (lotsOf t.log account),
        ¬ config.Inherits p.1.source := by
  intro t
  have hh : Honest t (runLedger digest cmds).history.rows := (runLedger_exact digest cmds).rows
  have hkept : (runLedger digest cmds).history.rows.kept = (runLedger digest cmds).history.rows.appended :=
    (runLedger_unpruned digest hunarchived).1
  have hlog : t.log = (runLedger digest cmds).history.rows.kept := hh.indexes.log
  have hcovered : t.balanceOf account ≤
      totalSize Lot.minor (lotsOf (runLedger digest cmds).history.rows.kept account) := by
    rw [hh.indexes.balanceOf account, ← hkept]
    exact total_le_lots _ account
  rw [hlog]
  constructor
  · exact fun hexact p hp hinherits => not_maturityExact hh hcovered hp hinherits hexact
  · exact fun hown => MaturityExact.of_own hh hcovered hown

def twoHorizons : Config where
  maturityHorizonMs := [("card", 10), ("default", 20)]
  platformFeeBps := 0
  platformShards := 1
  accrualDrain := false
  maxSubscriptionAttempts := 3
  subscriptionPriceMinMinor := 1
  subscriptionPriceMaxMinor := 1000
  velocityWindowMs := 1000
  velocityLimitMinor := 1000
  velocityInflowLimitMinor := none
  velocityOutflowLimitMinor := none
  pauseStartMs := none
  pauseEndMs := none
  maxInboxAttempts := 3
  maxPayoutAgeMs := 1000
  payoutFeeBps := 0
  payoutSla := []
  payoutMinimumEarnedMinor := 0
  payoutMinIntervalMs := 0
  topUpBundlesMinor := none

/-- One posting raises the account twice, and a draw splits its first lot. -/
theorem bounded_maturity_exact_split :
    let ten : Amount := ⟨.credit, 10, by decide⟩
    let minusTen : Amount := ⟨.credit, -10, by decide⟩
    let fifteen : Amount := ⟨.credit, 15, by decide⟩
    let issue : Posting := ⟨"txn_1", [⟨SYSTEM.STORED_VALUE, ten⟩, ⟨SYSTEM.STORED_VALUE, ten⟩,
      ⟨spendable "usr_a", minusTen⟩, ⟨spendable "usr_a", minusTen⟩], [("source", .string "card")]⟩
    let t := (runLedger id [.write (.entry 0 issue)]).ledger.tables
    maturedBalance t (spendable "usr_a") 5 twoHorizons = maturedBalanceFullScan t (spendable "usr_a") 5
      twoHorizons ∧
    ∃ availableAt, maturedAvailableAt t (spendable "usr_a") 5 twoHorizons fifteen none =
      .ok (some (.ms availableAt)) ∧
      IsLeast {time | ∀ later, time ≤ later →
        maturedAtLeast t (spendable "usr_a") later twoHorizons fifteen none = .ok true} availableAt := by
  intro ten minusTen fifteen issue t
  have hown : ∀ p ∈ cover Lot.minor (t.balanceOf (spendable "usr_a")) (lotsOf t.log (spendable "usr_a")),
      p.1.source ∉ OBJECT_MEMBERS := by decide +kernel
  have hexact := (bounded_maturity_exact id [.write (.entry 0 issue)] (by
    decide) (spendable "usr_a") twoHorizons).mpr
    fun p hp hinherits => hown p hp hinherits.2
  obtain ⟨availableAt, havailable, hleast, -⟩ := hexact.clears 5 fifteen none (fun _ hl => nomatch hl)
    (by decide : (0 : Int) < 15) (by decide +kernel)
  exact ⟨hexact.scan 5, availableAt, havailable, hleast⟩

/-- A top-up whose source is `constructor` never matures, so no time is the least at which it has. -/
theorem inherited_source_never_matures :
    let ten : Amount := ⟨.credit, 10, by decide⟩
    let minusTen : Amount := ⟨.credit, -10, by decide⟩
    let issue : Posting := ⟨"txn_1", [⟨SYSTEM.STORED_VALUE, ten⟩, ⟨spendable "usr_a", minusTen⟩],
      [("source", .string "constructor")]⟩
    let t := (runLedger id [.write (.entry 0 issue)]).ledger.tables
    t.balanceOf (spendable "usr_a") = 10 ∧
    maturedAvailableAt t (spendable "usr_a") 5 twoHorizons ten none = .ok (some (.text 0 "constructor")) ∧
    ¬ MaturityExact t (spendable "usr_a") twoHorizons := by
  intro ten minusTen issue t
  have hh : Honest t (runLedger id [.write (.entry 0 issue)]).history.rows :=
    (runLedger_exact id [.write (.entry 0 issue)]).rows
  have hlots : lotsOf (runLedger id [.write (.entry 0 issue)]).history.rows.kept (spendable "usr_a") =
      [⟨10, "constructor", 0⟩] := by decide +kernel
  have hbalance : t.balanceOf (spendable "usr_a") = 10 := by decide +kernel
  have hslices : tailSlices t (spendable "usr_a") 10 5 twoHorizons =
      [⟨10, false, .text 0 "constructor", "constructor"⟩] := by
    rw [hh.indexes.tailSlices, hlots]
    rfl
  have havailable : maturedAvailableAt t (spendable "usr_a") 5 twoHorizons ten none =
      .ok (some (.text 0 "constructor")) := by
    have hlive : t.balance (spendable "usr_a") = .ok ten :=
      toAmount_eq_ok.mpr ⟨rfl, hbalance.symm⟩
    unfold maturedAvailableAt liveOf
    simp only [hlive, bind, Except.bind]
    change (if (10 : Int) ≤ 0 then _ else if (10 : Int) < 10 then _ else _) = _
    rw [if_neg (by decide), if_neg (by decide), hslices, List.mergeSort_singleton]
    rfl
  refine ⟨hbalance, havailable, ?_⟩
  apply @not_maturityExact t _ hh (spendable "usr_a") _ twoHorizons (⟨10, "constructor", 0⟩, 10)
  · rw [hlots, hbalance]
    exact List.mem_singleton.mpr rfl
  · exact ⟨by decide, by decide⟩
  · rw [hlots, hbalance]
    exact le_rfl

end EconomyLab
