import EconomyLab.Chain.Preimage
import EconomyLab.Foundation.Comparators
import EconomyLab.Foundation.Pairing

/-!
# Processor records against ledger records

A window of both sides is matched by kind and match key, oldest first, and every mismatch is
reported. Each record of the window ends in one class of its side.
-/

namespace EconomyLab

open Foundation Buckets Text

inductive ReconcileKind
  | buy
  | payout
deriving DecidableEq, Repr

def ReconcileKind.text : ReconcileKind → String
  | buy => "buy"
  | payout => "payout"

structure ProcessorRecord where
  kind : ReconcileKind
  matchKey : String
  amount : Amount
  providerRef : String
  settledAt : Int
deriving DecidableEq

structure LedgerRecord where
  kind : ReconcileKind
  matchKey : String
  amount : Amount
  txnId : String
  postedAt : Int
deriving DecidableEq

inductive DiscrepancyKind
  | processorOrphan
  | ledgerOrphan
  | amountDrift
deriving DecidableEq, Repr

def DiscrepancyKind.text : DiscrepancyKind → String
  | processorOrphan => "processor_orphan"
  | ledgerOrphan => "ledger_orphan"
  | amountDrift => "amount_drift"

structure Discrepancy where
  kind : DiscrepancyKind
  matchKey : String
  recordKind : ReconcileKind
  processorAmount : Option String
  ledgerAmount : Option String
deriving DecidableEq, Repr

/-- Half open: `to` belongs to the next window. -/
structure Range where
  start : Int
  stop : Int
deriving DecidableEq, Repr

structure ReconcileReport where
  window : Range
  reconciled : Bool
  matched : Nat
  processorCount : Nat
  ledgerCount : Nat
  processorOrphans : Nat
  ledgerOrphans : Nat
  amountDrifts : Nat
  discrepancies : List Discrepancy
deriving DecidableEq, Repr

structure ReconcileInputs where
  processor : List ProcessorRecord
  ledger : List LedgerRecord

def Range.holds (window : Range) (moment : Int) : Bool := window.start ≤ moment && moment < window.stop

def withinWindow {T : Type} (records : List T) (window : Range) (moment : T → Int) : List T :=
  records.filter fun record => window.holds (moment record)

def keyOf (kind : ReconcileKind) (matchKey : String) : String := kind.text ++ ":" ++ matchKey

def indexByKey (ledger : List LedgerRecord) : Buckets String LedgerRecord :=
  fileAll (fun record => keyOf record.kind record.matchKey) ledger

def compare (a b : Amount) : Except Fault Int := do
  assertSameCurrency a b
  return if a.minor < b.minor then -1 else if b.minor < a.minor then 1 else 0

/-- The currency is checked first, so `compare` never sees two of them. -/
def sameAmount (a b : Amount) : Except Fault Bool :=
  if a.currency ≠ b.currency then .ok false
  else do
    let order ← compare a b
    return order == 0

def processorOrphan (record : ProcessorRecord) : Discrepancy :=
  ⟨.processorOrphan, record.matchKey, record.kind, some (encodeAmount record.amount), none⟩

def ledgerOrphan (record : LedgerRecord) : Discrepancy :=
  ⟨.ledgerOrphan, record.matchKey, record.kind, none, some (encodeAmount record.amount)⟩

def amountDrift (processor : ProcessorRecord) (ledger : LedgerRecord) : Discrepancy :=
  ⟨.amountDrift, processor.matchKey, processor.kind, some (encodeAmount processor.amount),
    some (encodeAmount ledger.amount)⟩

def byCodeUnit (a b : String) : Int :=
  if !codeUnitLe b a then -1 else if !codeUnitLe a b then 1 else 0

def byDiscrepancy (a b : Discrepancy) : Int :=
  orElse (orElse (byCodeUnit a.kind.text b.kind.text) (byCodeUnit a.matchKey b.matchKey))
    (byCodeUnit a.recordKind.text b.recordKind.text)

def countKind (discrepancies : List Discrepancy) (kind : DiscrepancyKind) : Nat :=
  discrepancies.countP (·.kind = kind)

/-- The state of the loop over the processor's records. -/
structure Matching where
  ledgerByKey : Buckets String LedgerRecord
  matched : Nat
  discrepancies : List Discrepancy

def matchRecord (m : Matching) (record : ProcessorRecord) : Except Fault Matching :=
  match take (keyOf record.kind record.matchKey) m.ledgerByKey with
  | (none, ledgerByKey) =>
    .ok { m with ledgerByKey, discrepancies := m.discrepancies ++ [processorOrphan record] }
  | (some counterpart, ledgerByKey) => do
    if ← sameAmount record.amount counterpart.amount then
      return { m with ledgerByKey, matched := m.matched + 1 }
    else
      return { m with ledgerByKey, discrepancies := m.discrepancies ++ [amountDrift record counterpart] }

def matchProcessorSide (processor : List ProcessorRecord) (ledgerByKey : Buckets String LedgerRecord) :
    Except Fault Matching :=
  processor.foldlM matchRecord ⟨ledgerByKey, 0, []⟩

def collectLedgerOrphans (m : Matching) : List Discrepancy :=
  m.discrepancies ++ m.ledgerByKey.held.map ledgerOrphan

structure Match where
  matched : Nat
  discrepancies : List Discrepancy

def matchSides (processor : List ProcessorRecord) (ledger : List LedgerRecord) : Except Fault Match := do
  let m ← matchProcessorSide processor (indexByKey ledger)
  return ⟨m.matched, collectLedgerOrphans m⟩

structure Counts where
  matched : Nat
  amountDrifts : Nat
  processorOrphans : Nat
  ledgerOrphans : Nat
  processorCount : Nat
  ledgerCount : Nat

def assertAccountedFor (counts : Counts) : Except Fault Unit :=
  let processorSeen := counts.matched + counts.amountDrifts + counts.processorOrphans
  let ledgerSeen := counts.matched + counts.amountDrifts + counts.ledgerOrphans
  if processorSeen ≠ counts.processorCount ∨ ledgerSeen ≠ counts.ledgerCount then
    .error (plainError ("reconcile: internal accounting mismatch — processor " ++
      toString processorSeen ++ "/" ++
      toString counts.processorCount ++ ", ledger " ++ toString ledgerSeen ++ "/" ++
        toString counts.ledgerCount ++
      " (matched=" ++ toString counts.matched ++ ", drifts=" ++ toString counts.amountDrifts ++
      ", processorOrphans=" ++ toString counts.processorOrphans ++
      ", ledgerOrphans=" ++ toString counts.ledgerOrphans ++ ")"))
  else .ok ()

def report (window : Range) (processor : List ProcessorRecord) (ledger : List LedgerRecord)
    (found : Match) :
    Except Fault ReconcileReport := do
  let sorted := found.discrepancies.insertionSort fun a b => byDiscrepancy a b ≤ 0
  let processorOrphans := countKind sorted .processorOrphan
  let ledgerOrphans := countKind sorted .ledgerOrphan
  let amountDrifts := countKind sorted .amountDrift
  assertAccountedFor
    ⟨found.matched, amountDrifts, processorOrphans, ledgerOrphans, processor.length, ledger.length⟩
  return {
    window
    reconciled := sorted.length == 0
    matched := found.matched
    processorCount := processor.length
    ledgerCount := ledger.length
    processorOrphans
    ledgerOrphans
    amountDrifts
    discrepancies := sorted }

def reconcile (window : Range) (inputs : ReconcileInputs) : Except Fault ReconcileReport := do
  let processor := withinWindow inputs.processor window (·.settledAt)
  let ledger := withinWindow inputs.ledger window (·.postedAt)
  let found ← matchSides processor ledger
  report window processor ledger found

/-! ## What the matcher does to the records -/

def ProcessorRecord.joinKey (record : ProcessorRecord) : String := keyOf record.kind record.matchKey

def LedgerRecord.joinKey (record : LedgerRecord) : String := keyOf record.kind record.matchKey

/-- The records of one window, each in its class. -/
structure Classes where
  matched : List (ProcessorRecord × LedgerRecord)
  drifts : List (ProcessorRecord × LedgerRecord)
  processorOrphans : List ProcessorRecord
  ledgerOrphans : List LedgerRecord

def Classes.discrepancies (classes : Classes) : List Discrepancy :=
  classes.drifts.map (fun pair => amountDrift pair.1 pair.2) ++ classes.processorOrphans.map
    processorOrphan ++
    classes.ledgerOrphans.map ledgerOrphan

structure FullyAccounted (window : Range) (inputs : ReconcileInputs) (found : ReconcileReport)
    (classes : Classes) :
    Prop where
  processor : (classes.matched.map Prod.fst ++ classes.drifts.map Prod.fst ++
    classes.processorOrphans).Perm
    (withinWindow inputs.processor window (·.settledAt))
  ledger : (classes.matched.map Prod.snd ++ classes.drifts.map Prod.snd ++ classes.ledgerOrphans).Perm
    (withinWindow inputs.ledger window (·.postedAt))
  joined : ∀ pair ∈ classes.matched ++ classes.drifts,
    pair.1.kind = pair.2.kind ∧ pair.1.matchKey = pair.2.matchKey
  equal : ∀ pair ∈ classes.matched, pair.1.amount = pair.2.amount
  apart : ∀ pair ∈ classes.drifts, pair.1.amount ≠ pair.2.amount
  listed : found.discrepancies.Perm classes.discrepancies
  matched : found.matched = classes.matched.length
  amountDrifts : found.amountDrifts = classes.drifts.length
  processorOrphans : found.processorOrphans = classes.processorOrphans.length
  ledgerOrphans : found.ledgerOrphans = classes.ledgerOrphans.length
  processorCount : found.processorCount = (withinWindow inputs.processor window (·.settledAt)).length
  ledgerCount : found.ledgerCount = (withinWindow inputs.ledger window (·.postedAt)).length

/-- No kind and match key comes twice on a side of the window. -/
structure UniqueKeys (window : Range) (inputs : ReconcileInputs) : Prop where
  processor : ((withinWindow inputs.processor window (·.settledAt)).map fun r =>
    (r.kind, r.matchKey)).Nodup
  ledger : ((withinWindow inputs.ledger window (·.postedAt)).map fun r => (r.kind, r.matchKey)).Nodup

/-- What the two sides are compared by. -/
def processorLines (window : Range) (inputs : ReconcileInputs) : List (ReconcileKind × String × Amount) :=
  (withinWindow inputs.processor window (·.settledAt)).map fun r => (r.kind, r.matchKey, r.amount)

def ledgerLines (window : Range) (inputs : ReconcileInputs) : List (ReconcileKind × String × Amount) :=
  (withinWindow inputs.ledger window (·.postedAt)).map fun r => (r.kind, r.matchKey, r.amount)

structure LosesNothing (window : Range) (inputs : ReconcileInputs) : Prop where
  accounts : ∃ found classes, reconcile window inputs = .ok found ∧
    FullyAccounted window inputs found classes
  adjacent : ∀ stop first second, reconcile window inputs = .ok first →
    reconcile ⟨window.stop, stop⟩ inputs = .ok second →
      first.processorCount + second.processorCount = inputs.processor.countP (fun r =>
        window.holds r.settledAt || Range.holds ⟨window.stop, stop⟩ r.settledAt) ∧
      first.ledgerCount + second.ledgerCount = inputs.ledger.countP fun r =>
        window.holds r.postedAt || Range.holds ⟨window.stop, stop⟩ r.postedAt
  unmoved : UniqueKeys window inputs → ∀ inputs' : ReconcileInputs,
    inputs.processor.Perm inputs'.processor →
    inputs.ledger.Perm inputs'.ledger → reconcile window inputs' = reconcile window inputs
  reconciled : UniqueKeys window inputs → ∀ found, reconcile window inputs = .ok found →
    (found.reconciled = true ↔ ∀ line, line ∈ processorLines window inputs ↔
      line ∈ ledgerLines window inputs)

theorem keyOf_inj {kind kind' : ReconcileKind} {key key' : String}
    (h : keyOf kind key = keyOf kind' key') :
    kind = kind' ∧ key = key' := by
  have hl := congrArg String.toList h
  cases kind <;> cases kind' <;> simp [keyOf, ReconcileKind.text] at hl ⊢
  · exact String.toList_inj.mp hl
  · exact String.toList_inj.mp hl

theorem sameAmount_eq (a b : Amount) : sameAmount a b = .ok (decide (a = b)) := by
  unfold sameAmount
  by_cases hcurrency : a.currency = b.currency
  · have hassert : assertSameCurrency a b = .ok () := if_pos hcurrency
    rw [if_neg (not_not.mpr hcurrency)]
    simp only [compare, hassert]
    by_cases hab : a = b
    · subst hab
      simp [bind, Except.bind, pure, Except.pure]
    · have hminor : a.minor ≠ b.minor := fun hm => hab (Amount.ext hcurrency hm)
      rcases Int.lt_or_gt_of_ne hminor with hlt | hgt
      · simp [bind, Except.bind, pure, Except.pure, hlt, hab]
      · have hnlt : ¬ a.minor < b.minor := Int.not_lt.mpr (Int.le_of_lt hgt)
        simp [bind, Except.bind, pure, Except.pure, hnlt, hgt, hab]
  · rw [if_pos hcurrency]
    have hab : a ≠ b := fun he => hcurrency (congrArg Amount.currency he)
    rw [decide_eq_false hab]

def agreed (pair : ProcessorRecord × Option LedgerRecord) : Bool :=
  match pair.2 with
  | none => false
  | some counterpart => pair.1.amount = counterpart.amount

def mismatch (pair : ProcessorRecord × Option LedgerRecord) : Option Discrepancy :=
  match pair.2 with
  | none => some (processorOrphan pair.1)
  | some counterpart => if pair.1.amount = counterpart.amount then
    none else some (amountDrift pair.1 counterpart)

variable (window : Range) (processor : List ProcessorRecord) (ledger : List LedgerRecord)

theorem matchProcessorSide_eq (m : Matching) : processor.foldlM matchRecord m =
      let paired := pair ProcessorRecord.joinKey processor m.ledgerByKey
      .ok ⟨paired.2, m.matched + paired.1.countP agreed, m.discrepancies ++ paired.1.filterMap
        mismatch⟩ := by
  induction processor generalizing m with
  | nil => simp [pair, pure, Except.pure]
  | cons record processor ih =>
    rcases htake : take record.joinKey m.ledgerByKey with ⟨counterpart, rest⟩
    have hkey : take (keyOf record.kind record.matchKey) m.ledgerByKey = (counterpart, rest) := htake
    rw [List.foldlM_cons]
    simp only [matchRecord, hkey, pair, htake]
    cases counterpart with
    | none => simp [ih, bind, Except.bind, agreed, mismatch]
    | some counterpart =>
      simp only [sameAmount_eq]
      by_cases hsame : record.amount = counterpart.amount
      · simp [ih, bind, Except.bind, pure, Except.pure, agreed, mismatch, hsame]
        omega
      · simp [ih, bind, Except.bind, pure, Except.pure, agreed, mismatch, hsame]

def pairsOf (processor : List ProcessorRecord) (ledger : List LedgerRecord) :
    List (ProcessorRecord × Option LedgerRecord) × List LedgerRecord :=
  let paired := pair ProcessorRecord.joinKey processor (indexByKey ledger)
  (paired.1, held paired.2)

def listed (pairs : List (ProcessorRecord × Option LedgerRecord) × List LedgerRecord) : List Discrepancy :=
  pairs.1.filterMap mismatch ++ pairs.2.map ledgerOrphan

theorem matchSides_eq : matchSides processor ledger =
      .ok ⟨(pairsOf processor ledger).1.countP agreed, listed (pairsOf processor ledger)⟩ := by
  unfold matchSides matchProcessorSide
  rw [matchProcessorSide_eq]
  simp [bind, Except.bind, pure, Except.pure, collectLedgerOrphans, listed, pairsOf]

def matchedPair (pair : ProcessorRecord × Option LedgerRecord) : Option (ProcessorRecord × LedgerRecord) :=
  pair.2.bind fun counterpart => if pair.1.amount = counterpart.amount then
    some (pair.1, counterpart) else none

def driftedPair (pair : ProcessorRecord × Option LedgerRecord) : Option (ProcessorRecord × LedgerRecord) :=
  pair.2.bind fun counterpart => if pair.1.amount = counterpart.amount then
    none else some (pair.1, counterpart)

def loneRecord (pair : ProcessorRecord × Option LedgerRecord) : Option ProcessorRecord :=
  if pair.2.isNone then some pair.1 else none

def classesOf (pairs : List (ProcessorRecord × Option LedgerRecord) × List LedgerRecord) : Classes :=
  ⟨pairs.1.filterMap matchedPair, pairs.1.filterMap driftedPair, pairs.1.filterMap loneRecord, pairs.2⟩

section Classes

variable (pairs : List (ProcessorRecord × Option LedgerRecord))

theorem classes_processor :
    ((pairs.filterMap matchedPair).map Prod.fst ++ (pairs.filterMap driftedPair).map Prod.fst ++
    pairs.filterMap loneRecord).Perm (pairs.map Prod.fst) := by
  induction pairs with
  | nil => exact List.Perm.refl _
  | cons p pairs ih =>
    obtain ⟨record, counterpart⟩ := p
    cases counterpart with
    | none =>
      have hlone := List.perm_middle.trans (ih.cons record)
      simpa [matchedPair, driftedPair, loneRecord] using hlone
    | some counterpart =>
      by_cases hsame : record.amount = counterpart.amount
      · simpa [matchedPair, driftedPair, loneRecord, hsame] using ih
      · have hdrift := (List.perm_middle.append_right _).trans (ih.cons record)
        simpa [matchedPair, driftedPair, loneRecord, hsame] using hdrift

theorem classes_ledger :
    ((pairs.filterMap matchedPair).map Prod.snd ++ (pairs.filterMap driftedPair).map Prod.snd).Perm
    (pairs.filterMap Prod.snd) := by
  induction pairs with
  | nil => exact List.Perm.refl _
  | cons p pairs ih =>
    obtain ⟨record, counterpart⟩ := p
    cases counterpart with
    | none => simpa [matchedPair, driftedPair] using ih
    | some counterpart =>
      by_cases hsame : record.amount = counterpart.amount
      · simpa [matchedPair, driftedPair, hsame] using ih
      · have hdrift := List.perm_middle.trans (ih.cons counterpart)
        simpa [matchedPair, driftedPair, hsame] using hdrift

theorem classes_mismatches : (pairs.filterMap mismatch).Perm
    ((pairs.filterMap driftedPair).map (fun p => amountDrift p.1 p.2) ++
      (pairs.filterMap loneRecord).map processorOrphan) := by
  induction pairs with
  | nil => exact List.Perm.refl _
  | cons p pairs ih =>
    obtain ⟨record, counterpart⟩ := p
    cases counterpart with
    | none =>
      have hlone := (ih.cons (processorOrphan record)).trans List.perm_middle.symm
      simpa [mismatch, driftedPair, loneRecord] using hlone
    | some counterpart =>
      by_cases hsame : record.amount = counterpart.amount
      · simpa [mismatch, driftedPair, loneRecord, hsame] using ih
      · simpa [mismatch, driftedPair, loneRecord, hsame] using ih

theorem countP_agreed : pairs.countP agreed = (pairs.filterMap matchedPair).length := by
  induction pairs with
  | nil => rfl
  | cons p pairs ih =>
    obtain ⟨record, counterpart⟩ := p
    cases counterpart with
    | none => simpa [agreed, matchedPair] using ih
    | some counterpart =>
      by_cases hsame : record.amount = counterpart.amount
      · simp [agreed, matchedPair, hsame, ih]
      · simpa [agreed, matchedPair, hsame] using ih

end Classes

theorem listed_perm (pairs : List (ProcessorRecord × Option LedgerRecord) × List LedgerRecord) :
    (listed pairs).Perm (classesOf pairs).discrepancies :=
  (classes_mismatches pairs.1).append_right _

theorem countKind_discrepancies (classes : Classes) :
    countKind classes.discrepancies .processorOrphan = classes.processorOrphans.length ∧
      countKind classes.discrepancies .ledgerOrphan = classes.ledgerOrphans.length ∧
      countKind classes.discrepancies .amountDrift = classes.drifts.length := by
  simp [countKind, Classes.discrepancies, List.countP_append, List.countP_map, Function.comp_def,
    amountDrift, processorOrphan, ledgerOrphan]

/-! ## The report -/

theorem comparator_byCodeUnit : Comparator byCodeUnit where
  swap a b := by
    have htotal := unitsLe_total (codeUnits a) (codeUnits b)
    unfold byCodeUnit codeUnitLe
    rcases htotal with h | h
    · by_cases h' : unitsLe (codeUnits b) (codeUnits a) <;> simp [h, h']
    · by_cases h' : unitsLe (codeUnits a) (codeUnits b) <;> simp [h, h']
  trans a b c hab hbc := by
    have hle : ∀ a b, byCodeUnit a b ≤ 0 ↔ codeUnitLe a b = true := by
      intro a b
      have htotal := unitsLe_total (codeUnits a) (codeUnits b)
      unfold byCodeUnit codeUnitLe
      by_cases h : unitsLe (codeUnits a) (codeUnits b) <;> by_cases h' :
        unitsLe (codeUnits b) (codeUnits a) <;>
        simp_all
    rw [hle] at hab hbc ⊢
    exact unitsLe_trans hab hbc

theorem byCodeUnit_eq_zero {a b : String} (h : byCodeUnit a b = 0) : a = b := by
  unfold byCodeUnit at h
  by_cases hab : codeUnitLe a b = true
  · by_cases hba : codeUnitLe b a = true
    · exact codeUnitLe_antisymm hab hba
    · simp [hba] at h
  · by_cases hba : codeUnitLe b a = true
    · simp [hab, hba] at h
    · simp [hba] at h

theorem comparator_byDiscrepancy : Comparator byDiscrepancy :=
  ((comparator_byCodeUnit.comap fun d : Discrepancy => d.kind.text).chain
    (comparator_byCodeUnit.comap Discrepancy.matchKey)).chain
      (comparator_byCodeUnit.comap fun d : Discrepancy => d.recordKind.text)

theorem byDiscrepancy_eq_zero {a b : Discrepancy} (h : byDiscrepancy a b = 0) :
    a.kind = b.kind ∧ a.matchKey = b.matchKey ∧ a.recordKind = b.recordKind := by
  obtain ⟨hfront, hrecord⟩ := Comparator.orElse_eq_zero.mp h
  obtain ⟨hkind, hkey⟩ := Comparator.orElse_eq_zero.mp hfront
  refine ⟨?_, byCodeUnit_eq_zero hkey, ?_⟩
  · have htext := byCodeUnit_eq_zero hkind
    cases hka : a.kind <;> cases hkb : b.kind <;> simp [hka, hkb, DiscrepancyKind.text] at htext ⊢
  · have htext := byCodeUnit_eq_zero hrecord
    cases hka : a.recordKind <;> cases hkb :
      b.recordKind <;> simp [hka, hkb, ReconcileKind.text] at htext ⊢

def sortedDiscrepancies (discrepancies : List Discrepancy) : List Discrepancy :=
  discrepancies.insertionSort fun a b => byDiscrepancy a b ≤ 0

def reportOf (window : Range) (processor : List ProcessorRecord) (ledger : List LedgerRecord) :
    ReconcileReport :=
  let pairs := pairsOf processor ledger
  let sorted := sortedDiscrepancies (listed pairs)
  ⟨window, sorted.length == 0, pairs.1.countP agreed, processor.length, ledger.length,
    countKind sorted .processorOrphan, countKind sorted .ledgerOrphan,
      countKind sorted .amountDrift, sorted⟩

theorem pairsOf_processor : (pairsOf processor ledger).1.map Prod.fst = processor := pair_fst _ _ _

theorem pairsOf_ledger :
    ((pairsOf processor ledger).1.filterMap Prod.snd ++ (pairsOf processor ledger).2).Perm ledger :=
  (held_pair _ _ _).trans (held_fileAll _ _)

theorem pairsOf_joined {processor : List ProcessorRecord} {ledger : List LedgerRecord}
    {record : ProcessorRecord} {counterpart : LedgerRecord}
    (h : (record, some counterpart) ∈ (pairsOf processor ledger).1) :
    record.kind = counterpart.kind ∧ record.matchKey = counterpart.matchKey := by
  have hkey := ((Filed.fileAll LedgerRecord.joinKey ledger).pair ProcessorRecord.joinKey processor).2 _ _ h
  exact keyOf_inj hkey.symm

structure Counted (processor : List ProcessorRecord) (ledger : List LedgerRecord) (found : ReconcileReport)
    (classes : Classes) : Prop where
  listed : found.discrepancies.Perm classes.discrepancies
  matched : found.matched = classes.matched.length
  amountDrifts : found.amountDrifts = classes.drifts.length
  processorOrphans : found.processorOrphans = classes.processorOrphans.length
  ledgerOrphans : found.ledgerOrphans = classes.ledgerOrphans.length

theorem reportOf_counted : Counted processor ledger (reportOf window processor ledger)
      (classesOf (pairsOf processor ledger)) := by
  have hperm : (sortedDiscrepancies (listed (pairsOf processor ledger))).Perm
      (classesOf (pairsOf processor ledger)).discrepancies :=
    (List.perm_insertionSort _ _).trans (listed_perm _)
  obtain ⟨horphans, hledger, hdrifts⟩ := countKind_discrepancies (classesOf (pairsOf processor ledger))
  exact ⟨hperm, countP_agreed _, (hperm.countP_eq _).trans hdrifts, (hperm.countP_eq _).trans horphans,
    (hperm.countP_eq _).trans hledger⟩

theorem classesOf_processor : ((classesOf (pairsOf processor ledger)).matched.map Prod.fst ++
      (classesOf (pairsOf processor ledger)).drifts.map Prod.fst ++
        (classesOf (pairsOf processor ledger)).processorOrphans).Perm processor := by
  have hclasses := classes_processor (pairsOf processor ledger).1
  rwa [pairsOf_processor] at hclasses

theorem classesOf_ledger : ((classesOf (pairsOf processor ledger)).matched.map Prod.snd ++
      (classesOf (pairsOf processor ledger)).drifts.map Prod.snd ++
        (classesOf (pairsOf processor ledger)).ledgerOrphans).Perm ledger :=
  ((classes_ledger (pairsOf processor ledger).1).append_right _).trans (pairsOf_ledger processor ledger)

theorem report_eq : report window processor ledger ⟨(pairsOf processor ledger).1.countP agreed,
      listed (pairsOf processor ledger)⟩ =
      .ok (reportOf window processor ledger) := by
  have hcounted := reportOf_counted window processor ledger
  have hprocessor := (classesOf_processor processor ledger).length_eq
  have hledger := (classesOf_ledger processor ledger).length_eq
  simp only [List.length_append, List.length_map] at hprocessor hledger
  rw [← hcounted.matched, ← hcounted.amountDrifts, ← hcounted.processorOrphans] at hprocessor
  rw [← hcounted.matched, ← hcounted.amountDrifts, ← hcounted.ledgerOrphans] at hledger
  have hassert : assertAccountedFor ⟨(reportOf window processor ledger).matched,
      (reportOf window processor ledger).amountDrifts, (reportOf window processor ledger).processorOrphans,
      (reportOf window processor ledger).ledgerOrphans, processor.length, ledger.length⟩ = .ok () := by
    unfold assertAccountedFor
    simp only [hprocessor, hledger]
    simp
  unfold report
  exact congrArg (fun checked : Except Fault Unit => checked >>= fun _ =>
    .ok (reportOf window processor ledger)) hassert

theorem reconcile_eq (inputs : ReconcileInputs) :
    reconcile window inputs = .ok (reportOf window (withinWindow inputs.processor window (·.settledAt))
      (withinWindow inputs.ledger window (·.postedAt))) := by
  unfold reconcile
  simp only [matchSides_eq]
  exact report_eq _ _ _

theorem reportOf_accounted (inputs : ReconcileInputs) :
    FullyAccounted window inputs (reportOf window (withinWindow inputs.processor window (·.settledAt))
        (withinWindow inputs.ledger window (·.postedAt)))
      (classesOf (pairsOf (withinWindow inputs.processor window (·.settledAt))
        (withinWindow inputs.ledger window (·.postedAt)))) := by
  have hcounted := reportOf_counted window (withinWindow inputs.processor window (·.settledAt))
    (withinWindow inputs.ledger window (·.postedAt))
  have hpair : ∀ p ∈ (pairsOf (withinWindow inputs.processor window (·.settledAt))
      (withinWindow inputs.ledger window (·.postedAt))).1, ∀ q,
        (matchedPair p = some q ∨ driftedPair p = some q) →
        p = (q.1, some q.2) := by
    rintro ⟨record, counterpart⟩ - q hq
    cases counterpart with
    | none => rcases hq with hq | hq <;> cases hq
    | some counterpart =>
      by_cases hsame : record.amount = counterpart.amount
      · simp [matchedPair, driftedPair, hsame] at hq
        rw [← hq]
      · simp [matchedPair, driftedPair, hsame] at hq
        rw [← hq]
  refine ⟨classesOf_processor _ _, classesOf_ledger _ _, ?_, ?_, ?_, hcounted.listed, hcounted.matched,
    hcounted.amountDrifts, hcounted.processorOrphans, hcounted.ledgerOrphans, rfl, rfl⟩
  · intro q hq
    have hfrom : ∃ p ∈ (pairsOf (withinWindow inputs.processor window (·.settledAt))
        (withinWindow inputs.ledger window (·.postedAt))).1, matchedPair p = some q ∨
          driftedPair p = some q := by
      rcases List.mem_append.mp hq with hq | hq
      · obtain ⟨p, hp, hpq⟩ := List.mem_filterMap.mp hq
        exact ⟨p, hp, Or.inl hpq⟩
      · obtain ⟨p, hp, hpq⟩ := List.mem_filterMap.mp hq
        exact ⟨p, hp, Or.inr hpq⟩
    obtain ⟨p, hp, hpq⟩ := hfrom
    have heq := hpair p hp q hpq
    exact pairsOf_joined (heq ▸ hp)
  · intro q hq
    obtain ⟨⟨record, counterpart⟩, -, hpq⟩ := List.mem_filterMap.mp hq
    cases counterpart with
    | none => cases hpq
    | some counterpart =>
      by_cases hsame : record.amount = counterpart.amount
      · simp [matchedPair, hsame] at hpq
        rw [← hpq]
        exact hsame
      · simp [matchedPair, hsame] at hpq
  · intro q hq
    obtain ⟨⟨record, counterpart⟩, -, hpq⟩ := List.mem_filterMap.mp hq
    cases counterpart with
    | none => cases hpq
    | some counterpart =>
      by_cases hsame : record.amount = counterpart.amount
      · simp [driftedPair, hsame] at hpq
      · simp [driftedPair, hsame] at hpq
        rw [← hpq]
        exact hsame

/-- A half-open window and the next one share no moment. -/
theorem count_adjacent {T : Type} (records : List T) (window : Range) (stop : Int) (moment : T → Int) :
    (withinWindow records window moment).length + (withinWindow records ⟨window.stop, stop⟩
      moment).length =
      records.countP fun r => window.holds (moment r) || Range.holds ⟨window.stop, stop⟩ (moment r) := by
  unfold withinWindow
  rw [← List.countP_eq_length_filter, ← List.countP_eq_length_filter]
  induction records with
  | nil => rfl
  | cons record records ih =>
    have hapart : window.holds (moment record) = true → Range.holds ⟨window.stop, stop⟩ (moment record) =
        false := by
      simp only [Range.holds, Bool.and_eq_true, decide_eq_true_eq, Bool.and_eq_false_iff,
        decide_eq_false_iff_not]
      omega
    rw [List.countP_cons, List.countP_cons, List.countP_cons, ← ih]
    cases hfirst : window.holds (moment record) with
    | true =>
      simp only [hapart hfirst, Bool.or_false, Bool.false_eq_true, if_true, if_false]
      omega
    | false =>
      simp only [Bool.false_or, Bool.false_eq_true, if_false]
      omega

theorem nodup_joinKey {T : Type} {records : List T} {key : T → ReconcileKind × String}
    (h : (records.map key).Nodup) : (records.map fun r => keyOf (key r).1 (key r).2).Nodup := by
  have hinj : Function.Injective fun k : ReconcileKind × String => keyOf k.1 k.2 := by
    intro a b hab
    obtain ⟨hkind, hkey⟩ := keyOf_inj hab
    exact Prod.ext hkind hkey
  have hmap := h.map hinj
  rwa [List.map_map] at hmap

section Unique

variable {processor : List ProcessorRecord} {ledger : List LedgerRecord}
  (hprocessor : (processor.map ProcessorRecord.joinKey).Nodup)
  (hledger : (ledger.map LedgerRecord.joinKey).Nodup)
include hprocessor hledger

/-- A discrepancy names the kind and key of its records, so no two of them are of one kind, key and
record kind. -/
theorem listed_apart {a b : Discrepancy} (ha : a ∈ listed (pairsOf processor ledger))
    (hb : b ∈ listed (pairsOf processor ledger)) (hab : byDiscrepancy a b = 0) : a = b := by
  obtain ⟨hkind, hkey, hrecord⟩ := byDiscrepancy_eq_zero hab
  have hleft : ((pairsOf processor ledger).2.map LedgerRecord.joinKey).Nodup := by
    have hall := (((pairsOf_ledger processor ledger).map LedgerRecord.joinKey).nodup_iff).mpr hledger
    rw [List.map_append] at hall
    exact hall.of_append_right
  have hpairs : ((pairsOf processor ledger).1.map fun p => p.1.joinKey).Nodup := by
    have hfst := hprocessor
    rw [← pairsOf_processor processor ledger, List.map_map] at hfst
    exact hfst
  have hmismatch : ∀ p d, mismatch p = some d → d.kind ≠ .ledgerOrphan ∧ d.matchKey = p.1.matchKey ∧
      d.recordKind = p.1.kind := by
    rintro ⟨record, counterpart⟩ d hd
    cases counterpart with
    | none =>
      cases hd
      exact ⟨fun hkind => DiscrepancyKind.noConfusion hkind, rfl, rfl⟩
    | some counterpart =>
      by_cases hsame : record.amount = counterpart.amount
      · simp [mismatch, hsame] at hd
      · simp [mismatch, hsame] at hd
        rw [← hd]
        exact ⟨by simp [amountDrift], rfl, rfl⟩
  rcases List.mem_append.mp ha with ha | ha <;> rcases List.mem_append.mp hb with hb | hb
  · obtain ⟨p, hp, hpa⟩ := List.mem_filterMap.mp ha
    obtain ⟨q, hq, hqb⟩ := List.mem_filterMap.mp hb
    obtain ⟨-, hpkey, hpkind⟩ := hmismatch p a hpa
    obtain ⟨-, hqkey, hqkind⟩ := hmismatch q b hqb
    have hjoin : p.1.joinKey = q.1.joinKey := by
      unfold ProcessorRecord.joinKey
      rw [← hpkey, ← hpkind, ← hqkey, ← hqkind, hkey, hrecord]
    have hpq := eq_of_key hpairs hp hq hjoin
    rw [hpq, hqb] at hpa
    exact (Option.some.inj hpa).symm
  · obtain ⟨p, -, hpa⟩ := List.mem_filterMap.mp ha
    obtain ⟨record, -, rfl⟩ := List.mem_map.mp hb
    exact absurd hkind (hmismatch p a hpa).1
  · obtain ⟨record, -, rfl⟩ := List.mem_map.mp ha
    obtain ⟨q, -, hqb⟩ := List.mem_filterMap.mp hb
    exact absurd hkind.symm (hmismatch q b hqb).1
  · obtain ⟨record, hr, rfl⟩ := List.mem_map.mp ha
    obtain ⟨record', hr', rfl⟩ := List.mem_map.mp hb
    have hjoin : record.joinKey = record'.joinKey := by
      unfold LedgerRecord.joinKey
      rw [show record.kind = record'.kind from hrecord, show record.matchKey = record'.matchKey from hkey]
    rw [eq_of_key hleft hr hr' hjoin]

theorem reportOf_perm {processor' : List ProcessorRecord} {ledger' : List LedgerRecord}
    (hp : processor.Perm processor') (hl : ledger.Perm ledger') :
    reportOf window processor' ledger' = reportOf window processor ledger := by
  obtain ⟨hpairs, hleft⟩ := pair_perm hprocessor hledger hp hl
  have hlisted : (listed (pairsOf processor ledger)).Perm (listed (pairsOf processor' ledger')) :=
    (hpairs.filterMap mismatch).append (hleft.map ledgerOrphan)
  have hsorted : sortedDiscrepancies (listed (pairsOf processor ledger)) =
      sortedDiscrepancies (listed (pairsOf processor' ledger')) :=
    comparator_byDiscrepancy.sort_perm hlisted fun a ha b hb => listed_apart hprocessor hledger ha hb
  have hmatched : (pairsOf processor ledger).1.countP agreed =
    (pairsOf processor' ledger').1.countP agreed :=
    hpairs.countP_eq agreed
  simp only [reportOf, hsorted, hmatched, hp.length_eq, hl.length_eq]

end Unique

/-- Nothing is listed just when every pair agrees and no ledger record is left. -/
theorem listed_eq_nil {pairs : List (ProcessorRecord × Option LedgerRecord) × List LedgerRecord} :
    listed pairs = [] ↔ (∀ p ∈ pairs.1, agreed p = true) ∧ pairs.2 = [] := by
  have hone : ∀ p, mismatch p = none ↔ agreed p = true := by
    rintro ⟨record, counterpart⟩
    cases counterpart with
    | none => simp [mismatch, agreed]
    | some counterpart => simp [mismatch, agreed]
  unfold listed
  rw [List.append_eq_nil_iff, List.filterMap_eq_nil_iff, List.map_eq_nil_iff]
  simp only [hone]

def ProcessorRecord.line (r : ProcessorRecord) : ReconcileKind × String × Amount :=
  (r.kind, r.matchKey, r.amount)

def LedgerRecord.line (r : LedgerRecord) : ReconcileKind × String × Amount :=
  (r.kind, r.matchKey, r.amount)

theorem joinKey_of_line {record : ProcessorRecord} {counterpart : LedgerRecord}
    (h : record.line = counterpart.line) : counterpart.joinKey = record.joinKey := by
  unfold ProcessorRecord.line LedgerRecord.line at h
  simp only [Prod.mk.injEq] at h
  unfold ProcessorRecord.joinKey LedgerRecord.joinKey
  rw [h.1, h.2.1]

theorem line_of_agreed {processor : List ProcessorRecord} {ledger : List LedgerRecord}
    {p : ProcessorRecord × Option LedgerRecord} (hp : p ∈ (pairsOf processor ledger).1)
    (h : agreed p = true) :
    ∃ counterpart, p.2 = some counterpart ∧ counterpart ∈ ledger ∧ p.1.line = counterpart.line := by
  obtain ⟨record, counterpart⟩ := p
  cases counterpart with
  | none => cases h
  | some counterpart =>
    have hamount : record.amount = counterpart.amount := of_decide_eq_true h
    obtain ⟨hkind, hkey⟩ := pairsOf_joined hp
    refine ⟨counterpart, rfl, ?_, ?_⟩
    · apply (pairsOf_ledger processor ledger).subset
      exact List.mem_append_left _ (List.mem_filterMap.mpr ⟨_, hp, rfl⟩)
    · unfold ProcessorRecord.line LedgerRecord.line
      rw [hkind, hkey, hamount]

theorem listed_eq_nil_iff {processor : List ProcessorRecord} {ledger : List LedgerRecord}
    (hprocessor : (processor.map ProcessorRecord.joinKey).Nodup)
    (hledger : (ledger.map LedgerRecord.joinKey).Nodup) :
    listed (pairsOf processor ledger) = [] ↔
      ∀ line, line ∈ processor.map ProcessorRecord.line ↔ line ∈ ledger.map LedgerRecord.line := by
  have hperm := pairsOf_ledger processor ledger
  have hfst := pairsOf_processor processor ledger
  rw [listed_eq_nil]
  constructor
  · rintro ⟨hagreed, hleft⟩ line
    rw [hleft, List.append_nil] at hperm
    constructor
    · intro hline
      obtain ⟨record, hrecord, rfl⟩ := List.mem_map.mp hline
      rw [← hfst] at hrecord
      obtain ⟨p, hp, rfl⟩ := List.mem_map.mp hrecord
      obtain ⟨counterpart, -, hmem, hsame⟩ := line_of_agreed hp (hagreed p hp)
      exact hsame ▸ List.mem_map_of_mem hmem
    · intro hline
      obtain ⟨counterpart, hmem, rfl⟩ := List.mem_map.mp hline
      obtain ⟨p, hp, hsnd⟩ := List.mem_filterMap.mp (hperm.mem_iff.mpr hmem)
      obtain ⟨counterpart', hsnd', -, hsame⟩ := line_of_agreed hp (hagreed p hp)
      rw [hsnd] at hsnd'
      cases hsnd'
      rw [← hsame, ← hfst]
      exact List.mem_map_of_mem (List.mem_map_of_mem hp)
  · intro hlines
    have hfiled := Filed.fileAll LedgerRecord.joinKey ledger
    have hheld := held_fileAll LedgerRecord.joinKey ledger
    have hnodup := ((hheld.map LedgerRecord.joinKey).nodup_iff).mpr hledger
    have hpairs := hfiled.pair_eq hprocessor hnodup
    -- A record whose line is on the other side finds the record of that line.
    have hfinds : ∀ record ∈ processor, ∀ counterpart ∈ ledger, record.line = counterpart.line →
        (record, some counterpart) ∈ (pairsOf processor ledger).1 := by
      intro record hrecord counterpart hmem hsame
      have hfind := find?_of_key hnodup (hheld.mem_iff.mpr hmem)
      rw [joinKey_of_line hsame] at hfind
      have hentry := List.mem_map_of_mem (f := fun a : ProcessorRecord => (a,
        (held (fileAll LedgerRecord.joinKey ledger)).find? fun b => b.joinKey = a.joinKey)) hrecord
      rw [hfind] at hentry
      exact hpairs ▸ hentry
    have hagreed : ∀ record ∈ processor, ∃ counterpart ∈ ledger, record.line = counterpart.line := by
      intro record hrecord
      obtain ⟨counterpart, hmem, hsame⟩ := List.mem_map.mp ((hlines _).mp (List.mem_map_of_mem hrecord))
      exact ⟨counterpart, hmem, hsame.symm⟩
    have hkeys : ((pairsOf processor ledger).1.map fun p => p.1.joinKey).Nodup := by
      have hnodupKeys := hprocessor
      rw [← hfst, List.map_map] at hnodupKeys
      exact hnodupKeys
    refine ⟨?_, ?_⟩
    · intro p hp
      have hrecord : p.1 ∈ processor := hfst ▸ List.mem_map_of_mem hp
      obtain ⟨counterpart, hmem, hsame⟩ := hagreed p.1 hrecord
      have hentry := hfinds p.1 hrecord counterpart hmem hsame
      have heq : p = (p.1, some counterpart) := eq_of_key hkeys hp hentry rfl
      rw [heq]
      unfold ProcessorRecord.line LedgerRecord.line at hsame
      simp only [Prod.mk.injEq] at hsame
      simp [agreed, hsame.2.2]
    · apply List.eq_nil_iff_forall_not_mem.mpr
      intro counterpart hleft
      have hmem : counterpart ∈ ledger := hperm.subset (List.mem_append_right _ hleft)
      obtain ⟨record, hrecord, hsame⟩ := List.mem_map.mp ((hlines _).mpr (List.mem_map_of_mem hmem))
      have hentry := hfinds record hrecord counterpart hmem hsame
      have htaken : counterpart ∈ (pairsOf processor ledger).1.filterMap Prod.snd :=
        List.mem_filterMap.mpr ⟨_, hentry, rfl⟩
      have hall := hperm.nodup_iff.mpr hledger.of_map
      exact (List.nodup_append.mp hall).2.2 counterpart htaken counterpart hleft rfl

/-- Reconciliation loses nothing and invents nothing, whatever the window and the records are. -/
theorem reconcile_loses_nothing (window : Range) (inputs : ReconcileInputs) :
    LosesNothing window inputs where
  accounts := ⟨_, _, reconcile_eq window inputs, reportOf_accounted window inputs⟩
  adjacent stop first second hfirst hsecond := by
    rw [reconcile_eq] at hfirst hsecond
    cases hfirst
    cases hsecond
    exact ⟨count_adjacent inputs.processor window stop (·.settledAt),
      count_adjacent inputs.ledger window stop (·.postedAt)⟩
  unmoved hunique inputs' hp hl := by
    rw [reconcile_eq, reconcile_eq]
    apply congrArg
    apply reportOf_perm _ (nodup_joinKey hunique.processor) (nodup_joinKey hunique.ledger)
    · exact hp.filter _
    · exact hl.filter _
  reconciled hunique found hfound := by
    rw [reconcile_eq] at hfound
    cases hfound
    have hnil := listed_eq_nil_iff (nodup_joinKey hunique.processor) (nodup_joinKey hunique.ledger)
    refine Iff.trans ?_ hnil
    simp [reportOf, sortedDiscrepancies, List.length_insertionSort]

end EconomyLab
