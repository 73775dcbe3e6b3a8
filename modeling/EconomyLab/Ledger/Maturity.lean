import EconomyLab.Config
import EconomyLab.Foundation.Cover
import EconomyLab.Ledger.Indexes

/-!
# Matured funds

A balance rests on the newest lots of its account. The walk reads them a page at a time,
newest first, until they cover the balance, and counts what has matured.
-/

namespace EconomyLab

open Foundation

/-- A posting's leg that raised an account; its amount was range-checked as it was committed. -/
structure Lot where
  minor : Int
  source : String
  toppedUpAt : Int
deriving DecidableEq

def lotMaturesAt (lot : Lot) (config : Config) : Moment :=
  (maturityHorizonMs lot.source config).after lot.toppedUpAt

def isMatured (lot : Lot) (now : Int) (config : Config) : Bool := (lotMaturesAt lot config).reached now

def lotsOfPosting (row : StoredPosting) (account : AccountRef) : List Lot :=
  (row.legs.filter fun leg => leg.account = account && 0 < leg.delta).map fun leg =>
    ⟨leg.delta, metaString row.fields "source" "unknown", row.postedAt⟩

def lotsAt (log : List StoredPosting) (account : AccountRef) (position : Nat) : List Lot :=
  ((log[position]?).map (lotsOfPosting · account)).getD []

/-- The lots of an account from the newest posting on, past `offset` and `limit` of them. -/
def LedgerTables.timeline (t : LedgerTables) (account : AccountRef) (limit offset : Nat) : List Lot :=
  let positions := (t.lotIndexByAccount.get account).getD []
  ((positions.reverse.flatMap (lotsAt t.log account)).drop offset).take limit

/-! ## The walk -/

def TAIL_PAGE : Nat := 64

/-- How much of the balance a lot covers, and when that part matures. -/
structure TailSlice where
  take : Int
  matured : Bool
  maturesAt : Moment
  source : String

def sliceOf (config : Config) (now : Int) (lot : Lot) (take : Int) : TailSlice :=
  ⟨take, (lotMaturesAt lot config).reached now, lotMaturesAt lot config, lot.source⟩

/-- The slices of one page, and what is left to cover after it. -/
def pageSlices (config : Config) (now : Int) : List Lot → Int → List TailSlice × Int
  | [], remaining => ([], remaining)
  | lot :: lots, remaining =>
    let take := if lot.minor < remaining then lot.minor else remaining
    if remaining - take = 0 then ([sliceOf config now lot take], 0)
    else
      let rest := pageSlices config now lots (remaining - take)
      (sliceOf config now lot take :: rest.1, rest.2)

/-- Page after page until the balance is covered or a page comes back empty. -/
def tailPages (config : Config) (now : Int) (page : Nat → List Lot) : Nat → Nat → Int → List TailSlice
  | 0, _, _ => []
  | fuel + 1, offset, remaining =>
    if remaining ≤ 0 then []
    else if page offset = [] then []
    else
      let slices := pageSlices config now (page offset) remaining
      slices.1 ++ tailPages config now page fuel (offset + TAIL_PAGE) slices.2

/-- Each page that is not the last drains a lot, so the log bounds the pages. -/
def tailSlices (t : LedgerTables) (account : AccountRef) (liveMinor now : Int) (config : Config) :
    List TailSlice :=
  tailPages config now (t.timeline account TAIL_PAGE) ((legsOf t.log).length + 1) 0 liveMinor

def maturedOf (slices : List TailSlice) : Int :=
  ((slices.filter TailSlice.matured).map TailSlice.take).sum

def maturedBalance (t : LedgerTables) (account : AccountRef) (now : Int) (config : Config) :
    Except Fault Amount := do
  let live ← t.balance account
  if live.minor ≤ 0 then return zero (currency account)
  toAmount (currency account) (maturedOf (tailSlices t account live.minor now config))

/-- The running sum stops the walk as soon as it covers the need. -/
def reaches (need : Int) : Int → List TailSlice → Bool
  | _, [] => false
  | matured, slice :: slices =>
    if slice.matured then
      need ≤ matured + slice.take || reaches need (matured + slice.take) slices
    else reaches need matured slices

/-- A caller that has read the balance passes it on. -/
def liveOf (t : LedgerTables) (account : AccountRef) : Option Amount → Except Fault Amount
  | some live => .ok live
  | none => t.balance account

def maturedAtLeast (t : LedgerTables) (account : AccountRef) (now : Int) (config : Config)
    (amount : Amount) (live : Option Amount) : Except Fault Bool := do
  if amount.minor ≤ 0 then return true
  let live ← liveOf t account live
  if live.minor ≤ 0 then return false
  return reaches amount.minor 0 (tailSlices t account live.minor now config)

/-- `a.maturesAt - b.maturesAt` is not positive, or is no number, which a sort takes for equal. -/
def TailSlice.upTo (a b : TailSlice) : Bool :=
  match a.maturesAt, b.maturesAt with
  | .ms time, .ms time' => time ≤ time'
  | _, _ => true

def bindingSlice (need : Int) : Int → List TailSlice → Option TailSlice
  | _, [] => none
  | covered, slice :: slices =>
    if need ≤ covered + slice.take then some slice else bindingSlice need (covered + slice.take) slices

/-- The funding source that blocks an immature draw, and when the draw will clear. -/
def maturityBlocker (t : LedgerTables) (account : AccountRef) (now : Int) (config : Config)
    (amount : Amount) (live : Option Amount) : Except Fault (String × Moment) := do
  if amount.minor ≤ 0 then return (DEFAULT_SOURCE, .ms now)
  let live ← liveOf t account live
  let fallback := (DEFAULT_SOURCE, (maturityHorizonMs DEFAULT_SOURCE config).after now)
  if live.minor < amount.minor then return fallback
  let slices := (tailSlices t account live.minor now config).mergeSort TailSlice.upTo
  match bindingSlice amount.minor 0 slices with
  | some slice => return (slice.source, slice.maturesAt)
  | none => return fallback

def lotsOf (rows : List StoredPosting) (account : AccountRef) : List Lot :=
  rows.reverse.flatMap (lotsOfPosting · account)

theorem lotsOf_append (rows later : List StoredPosting) (account : AccountRef) :
    lotsOf (rows ++ later) account = lotsOf later account ++ lotsOf rows account := by
  simp [lotsOf]

theorem lotsOf_pos {rows : List StoredPosting} {account : AccountRef} :
    ∀ lot ∈ lotsOf rows account, 0 < lot.minor := by
  intro lot hl
  obtain ⟨row, -, hl⟩ := List.mem_flatMap.mp hl
  obtain ⟨leg, hleg, rfl⟩ := List.mem_map.mp hl
  have hraises := (List.mem_filter.mp hleg).2
  simp only [Bool.and_eq_true, decide_eq_true_eq] at hraises
  exact hraises.2

theorem lotsOfPosting_eq_nil {row : StoredPosting} {account : AccountRef}
    (h : raises row.legs account = false) : lotsOfPosting row account = [] := by
  simp only [raises, List.any_eq_false] at h
  simp only [lotsOfPosting, List.map_eq_nil_iff, List.filter_eq_nil_iff]
  intro leg hl
  exact h leg hl

theorem length_lotsOf (rows : List StoredPosting) (account : AccountRef) :
    (lotsOf rows account).length ≤ (legsOf rows).length := by
  induction rows with
  | nil => exact le_rfl
  | cons row rows ih =>
    have hsplit : lotsOf (row :: rows) account = lotsOf rows account ++ lotsOf [row] account :=
      lotsOf_append [row] rows account
    have hrow : (lotsOf [row] account).length ≤ row.legs.length := by
      simpa [lotsOf, lotsOfPosting] using List.length_filter_le _ row.legs
    have hlegs : legsOf (row :: rows) = row.legs ++ legsOf rows := rfl
    rw [hsplit, hlegs, List.length_append, List.length_append]
    omega

theorem raisingPositions_lt {log : List StoredPosting} {account : AccountRef} :
    ∀ position ∈ raisingPositions log account, position < log.length := by
  intro position hp
  obtain ⟨⟨row, i⟩, hrow, rfl⟩ := List.mem_map.mp hp
  have hmem := (List.mem_filter.mp hrow).1
  have hget := List.mk_mem_zipIdx_iff_getElem?.mp hmem
  exact (List.getElem?_eq_some_iff.mp hget).1

theorem flatMap_lotsAt (log : List StoredPosting) (account : AccountRef) :
    (raisingPositions log account).reverse.flatMap (lotsAt log account) = lotsOf log account := by
  induction log using List.reverseRecOn with
  | nil => rfl
  | append_singleton log row ih =>
    have hlast : lotsAt (log ++ [row]) account log.length = lotsOfPosting row account := by
      simp [lotsAt]
    have holder : (raisingPositions log account).reverse.flatMap (lotsAt (log ++ [row]) account) =
        lotsOf log account := by
      rw [← ih]
      apply List.flatMap_congr
      intro position hp
      have hlt := raisingPositions_lt position (List.mem_reverse.mp hp)
      simp [lotsAt, List.getElem?_append_left hlt]
    rw [raisingPositions_append, count_lottedAccounts, List.reverse_append, List.flatMap_append,
      holder, lotsOf_append]
    congr 1
    cases hr : raises row.legs account with
    | true => simp [hlast, lotsOf]
    | false => simp [lotsOf, lotsOfPosting_eq_nil hr]

theorem Indexes.timeline {t : LedgerTables} {h : History} (hi : Indexes t h) (account : AccountRef)
    (limit offset : Nat) :
    t.timeline account limit offset = ((lotsOf h.kept account).drop offset).take limit := by
  have hpositions : (t.lotIndexByAccount.get account).getD [] = raisingPositions h.kept account := by
    rw [hi.lots]
    exact nonEmpty_getD _
  simp only [LedgerTables.timeline, hpositions, hi.log, flatMap_lotsAt]

/-! ## The walk covers the balance -/

section Walk

variable {config : Config} {now : Int}

theorem pageSlices_eq {lots : List Lot} (h : ∀ lot ∈ lots, 0 < lot.minor) {remaining : Int}
    (hr : 0 < remaining) :
    pageSlices config now lots remaining =
      ((cover Lot.minor remaining lots).map fun p => sliceOf config now p.1 p.2,
        max 0 (remaining - totalSize Lot.minor lots)) := by
  induction lots generalizing remaining with
  | nil => simp [pageSlices, max_eq_right hr.le]
  | cons lot lots ih =>
    have hrest : ∀ l ∈ lots, 0 < l.minor := fun l hl => h l (List.mem_cons_of_mem _ hl)
    have hsum := totalSize_nonneg hrest
    have htake : (if lot.minor < remaining then lot.minor else remaining) = min lot.minor remaining := by
      rcases lt_or_ge lot.minor remaining with hlt | hge
      · rw [if_pos hlt, min_eq_left hlt.le]
      · rw [if_neg (not_lt_of_ge hge), min_eq_right hge]
    have hlot := h lot List.mem_cons_self
    simp only [pageSlices, htake, cover_cons, if_neg (not_le_of_gt hr), totalSize_cons]
    rcases lt_or_ge lot.minor remaining with hlt | hge
    · have hne : remaining - lot.minor ≠ 0 := by omega
      rw [min_eq_left hlt.le, if_neg hne, ih hrest (by omega)]
      simp only [List.map_cons, sub_sub]
    · have hmet : remaining - lot.minor ≤ 0 := by omega
      rw [min_eq_right hge, sub_self, if_pos rfl, cover_met hmet, max_eq_left (by omega)]
      rfl

/-- Reading page by page is reading the whole timeline. -/
theorem tailPages_eq {lots : List Lot} (h : ∀ lot ∈ lots, 0 < lot.minor) {fuel offset : Nat}
    (hfuel : (lots.drop offset).length < fuel) (remaining : Int) :
    tailPages config now (fun offset => (lots.drop offset).take TAIL_PAGE) fuel offset remaining =
      (cover Lot.minor remaining (lots.drop offset)).map fun p => sliceOf config now p.1 p.2 := by
  induction fuel generalizing offset remaining with
  | zero => exact absurd hfuel (Nat.not_lt_zero _)
  | succ fuel ih =>
    unfold tailPages
    by_cases hr : remaining ≤ 0
    · rw [if_pos hr, cover_met hr]
      rfl
    · rw [if_neg hr]
      by_cases hpage : (lots.drop offset).take TAIL_PAGE = []
      · have hnone : lots.drop offset = [] := by
          rcases List.take_eq_nil_iff.mp hpage with hz | hz
          · exact absurd hz (by decide)
          · exact hz
        rw [if_pos hpage, hnone]
        rfl
      · have hpos : ∀ lot ∈ (lots.drop offset).take TAIL_PAGE, 0 < lot.minor := fun lot hl =>
          h lot (List.mem_of_mem_drop (List.mem_of_mem_take hl))
        have hsplit : lots.drop offset =
            (lots.drop offset).take TAIL_PAGE ++ lots.drop (offset + TAIL_PAGE) := by
          rw [← List.drop_drop]
          exact (List.take_append_drop _ _).symm
        have hshorter : (lots.drop (offset + TAIL_PAGE)).length < fuel := by
          have hne : lots.drop offset ≠ [] := fun hz => hpage (by rw [hz]; rfl)
          have hlen := List.length_pos_of_ne_nil hne
          simp only [List.length_drop, TAIL_PAGE] at hfuel hlen ⊢
          omega
        rw [if_neg hpage]
        conv_rhs => rw [hsplit, cover_append hpos, List.map_append]
        simp only [pageSlices_eq hpos (lt_of_not_ge hr), ih hshorter]
        congr 2
        rcases le_total (remaining - totalSize Lot.minor ((lots.drop offset).take TAIL_PAGE)) 0 with hle |
            hge
        · rw [max_eq_left hle, cover_met le_rfl, cover_met hle]
        · rw [max_eq_right hge]

theorem maturedOf_cover (lots : List Lot) (need : Int) :
    maturedOf ((cover Lot.minor need lots).map fun p => sliceOf config now p.1 p.2) =
      taken Lot.minor (fun lot => isMatured lot now config) need lots := by
  unfold maturedOf taken
  rw [List.filter_map, List.map_map]
  rfl

theorem cover_take_nonneg {lots : List Lot} (h : ∀ lot ∈ lots, 0 < lot.minor) (need : Int) :
    ∀ p ∈ cover Lot.minor need lots, 0 ≤ p.2 := by
  induction lots generalizing need with
  | nil => simp
  | cons lot lots ih =>
    intro p hp
    rw [cover_cons] at hp
    split at hp
    · simp at hp
    · rename_i hn
      rcases List.mem_cons.mp hp with rfl | hp
      · exact le_min (h lot List.mem_cons_self).le (le_of_not_ge hn)
      · exact ih (fun l hl => h l (List.mem_cons_of_mem _ hl)) _ p hp

theorem maturedOf_cons (slice : TailSlice) (slices : List TailSlice) :
    maturedOf (slice :: slices) =
      (if slice.matured then slice.take else 0) + maturedOf slices := by
  unfold maturedOf
  rw [List.filter_cons]
  split <;> simp

theorem maturedOf_nonneg {slices : List TailSlice} (h : ∀ slice ∈ slices, 0 ≤ slice.take) :
    0 ≤ maturedOf slices := by
  induction slices with
  | nil => exact le_rfl
  | cons slice slices ih =>
    have hslice := h slice List.mem_cons_self
    have hrest := ih fun s hs => h s (List.mem_cons_of_mem _ hs)
    rw [maturedOf_cons]
    split <;> omega

/-- Stopping early answers what the whole sum would. -/
theorem reaches_eq {slices : List TailSlice} (h : ∀ slice ∈ slices, 0 ≤ slice.take) {need matured : Int}
    (hm : matured < need) : reaches need matured slices = decide (need ≤ matured + maturedOf slices) := by
  induction slices generalizing matured with
  | nil => simp [reaches, maturedOf, hm]
  | cons slice slices ih =>
    have hrest : ∀ s ∈ slices, 0 ≤ s.take := fun s hs => h s (List.mem_cons_of_mem _ hs)
    have hnonneg := maturedOf_nonneg hrest
    rw [reaches, maturedOf_cons]
    by_cases hslice : slice.matured = true
    · simp only [hslice, if_true]
      by_cases hdone : need ≤ matured + slice.take
      · have hall : need ≤ matured + (slice.take + maturedOf slices) := by omega
        simp [hdone, hall]
      · rw [ih hrest (lt_of_not_ge hdone), add_assoc]
        simp [hdone]
    · simp only [hslice, if_false, Bool.false_eq_true, zero_add]
      exact ih hrest hm

end Walk

section Reads

variable {t : LedgerTables} {h : History}

theorem Indexes.tailSlices (hi : Indexes t h) (account : AccountRef) (liveMinor now : Int)
    (config : Config) :
    tailSlices t account liveMinor now config =
      (cover Lot.minor liveMinor (lotsOf h.kept account)).map fun p => sliceOf config now p.1 p.2 := by
  have hpage : t.timeline account TAIL_PAGE =
      fun offset => ((lotsOf h.kept account).drop offset).take TAIL_PAGE := by
    funext offset
    exact hi.timeline account TAIL_PAGE offset
  have hcount := length_lotsOf h.kept account
  unfold EconomyLab.tailSlices
  rw [hpage, tailPages_eq lotsOf_pos (by rw [List.drop_zero, hi.log]; omega), List.drop_zero]

/-- The part of a balance that rests on matured lots, newest lots first. -/
def settledPart (lots : List Lot) (balance now : Int) (config : Config) : Int :=
  taken Lot.minor (fun lot => isMatured lot now config) balance lots

theorem settledPart_le {lots : List Lot} (hl : ∀ lot ∈ lots, 0 < lot.minor) {balance : Int}
    (hb : 0 ≤ balance) (now : Int) (config : Config) :
    settledPart lots balance now config ≤ balance := taken_le hl _ hb

theorem maturedBalance_eq (hh : Honest t h) (account : AccountRef) (now : Int) (config : Config) :
    ∃ matured, maturedBalance t account now config = .ok matured ∧ matured.currency = currency account ∧
      matured.minor = settledPart (lotsOf h.kept account) (t.balanceOf account) now config := by
  have hlive : t.balance account = .ok ⟨currency account, t.balanceOf account, hh.inRange account⟩ :=
    toAmount_ok (hh.inRange account)
  unfold maturedBalance
  rw [hlive]
  simp only [bind, Except.bind]
  by_cases hb : t.balanceOf account ≤ 0
  · simp only [hb, if_true]
    exact ⟨zero (currency account), rfl, rfl, (taken_met hb _ _).symm⟩
  · have hpos : 0 < t.balanceOf account := lt_of_not_ge hb
    simp only [hb, if_false, hh.indexes.tailSlices, maturedOf_cover]
    have hlots : ∀ lot ∈ lotsOf h.kept account, 0 < lot.minor := lotsOf_pos
    have hle := settledPart_le hlots hpos.le now config
    have hge : 0 ≤ settledPart (lotsOf h.kept account) (t.balanceOf account) now config :=
      taken_nonneg lotsOf_pos _ _
    have hrange : I64 (settledPart (lotsOf h.kept account) (t.balanceOf account) now config) := by
      have hlimit := (hh.inRange account).2
      constructor <;> omega
    exact ⟨_, toAmount_ok hrange, rfl, rfl⟩

theorem maturedAtLeast_eq (hh : Honest t h) (account : AccountRef) (now : Int) (config : Config)
    (amount : Amount) {live : Option Amount}
    (hlive : ∀ l, live = some l → l.minor = t.balanceOf account) :
    maturedAtLeast t account now config amount live =
      .ok (decide (amount.minor ≤ 0 ∨
        amount.minor ≤ settledPart (lotsOf h.kept account) (t.balanceOf account) now config)) := by
  have hread : ∃ l : Amount, l.minor = t.balanceOf account ∧ liveOf t account live = .ok l := by
    cases live with
    | some l => exact ⟨l, hlive l rfl, rfl⟩
    | none => exact ⟨⟨currency account, t.balanceOf account, hh.inRange account⟩, rfl,
        toAmount_ok (hh.inRange account)⟩
  obtain ⟨l, hl, hread⟩ := hread
  have hlots : ∀ lot ∈ lotsOf h.kept account, 0 < lot.minor := lotsOf_pos
  unfold maturedAtLeast
  rw [hread]
  simp only [bind, Except.bind]
  by_cases ha : amount.minor ≤ 0
  · simp [ha, pure, Except.pure]
  · have hapos : 0 < amount.minor := lt_of_not_ge ha
    simp only [ha, if_false, hl, false_or]
    by_cases hb : t.balanceOf account ≤ 0
    · have hnone : settledPart (lotsOf h.kept account) (t.balanceOf account) now config = 0 :=
        taken_met hb _ _
      simp [hb, hnone, ha, pure, Except.pure]
    · have hslices : ∀ slice ∈ (cover Lot.minor (t.balanceOf account) (lotsOf h.kept account)).map
          (fun p => sliceOf config now p.1 p.2), 0 ≤ slice.take := by
        intro slice hs
        obtain ⟨p, hp, rfl⟩ := List.mem_map.mp hs
        exact cover_take_nonneg hlots _ p hp
      simp only [hb, if_false, hh.indexes.tailSlices, reaches_eq hslices hapos, maturedOf_cover, zero_add]
      rfl

end Reads

end EconomyLab
