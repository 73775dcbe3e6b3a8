import EconomyLab.Accounts
import EconomyLab.Bytes
import EconomyLab.Foundation.Tally

/-!
# Postings

Leg amounts are debit-positive everywhere; a credit-normal account's balance moves
the other way. The checks of `postEntry` read one posting and the balances it meets.
-/

namespace EconomyLab

open Foundation Text

structure Leg where
  account : AccountRef
  amount : Amount
deriving DecidableEq

structure Posting where
  txnId : String
  legs : List Leg
  fields : Meta

structure Link where
  account : AccountRef
  prevHash : String
  hash : String
deriving DecidableEq

/-- What `append` answers. -/
structure Transaction where
  id : String
  postedAt : Int
  legs : List Leg
  links : List Link
  fields : Meta

def debit (account : AccountRef) (amount : Amount) : Leg := ⟨account, amount⟩

def credit (account : AccountRef) (amount : Amount) : Except Fault Leg := do
  return ⟨account, ← toAmount amount.currency (-amount.minor)⟩

/-- The signed amount by which a leg moves its account, before the range check. -/
def Leg.delta (leg : Leg) : Int :=
  if isDebitNormal leg.account then leg.amount.minor else -leg.amount.minor

def balanceDelta (leg : Leg) : Except Fault Amount :=
  toAmount leg.amount.currency (leg.amount.minor * if isDebitNormal leg.account then 1 else -1)

theorem balanceDelta_eq (leg : Leg) : balanceDelta leg = toAmount leg.amount.currency leg.delta := by
  unfold balanceDelta Leg.delta
  split <;> simp

theorem balanceDelta_minor {leg : Leg} {d : Amount} (h : balanceDelta leg = .ok d) :
    d.currency = leg.amount.currency ∧ d.minor = leg.delta := by
  rw [balanceDelta_eq] at h
  exact toAmount_eq_ok.mp h

def deltas (legs : List Leg) : List (AccountRef × Int) := legs.map fun leg => (leg.account, leg.delta)

@[simp] theorem deltas_nil : deltas [] = [] := rfl

@[simp] theorem deltas_cons (leg : Leg) (legs : List Leg) :
    deltas (leg :: legs) = (leg.account, leg.delta) :: deltas legs := rfl

@[simp] theorem deltas_append (legs legs' : List Leg) :
    deltas (legs ++ legs') = deltas legs ++ deltas legs' := by
  simp [deltas]

def distinctAccounts (legs : List Leg) : List AccountRef :=
  legs.foldl (fun seen leg => if leg.account ∈ seen then seen else seen ++ [leg.account]) []

theorem foldl_distinct (legs : List Leg) (seen : List AccountRef) (hs : seen.Nodup) :
    (legs.foldl (fun seen leg => if leg.account ∈ seen then seen else seen ++ [leg.account])
      seen).Nodup ∧
    ∀ a, a ∈ legs.foldl (fun seen leg =>
      if leg.account ∈ seen then seen else seen ++ [leg.account]) seen ↔
      a ∈ seen ∨ a ∈ legs.map Leg.account := by
  induction legs generalizing seen with
  | nil => exact ⟨hs, by simp⟩
  | cons leg legs ih =>
    rw [List.foldl_cons]
    by_cases hm : leg.account ∈ seen
    · rw [if_pos hm]
      refine ⟨(ih seen hs).1, ?_⟩
      intro a
      rw [(ih seen hs).2, List.map_cons, List.mem_cons]
      constructor
      · tauto
      · rintro (h | rfl | h) <;> tauto
    · rw [if_neg hm]
      have hs' : (seen ++ [leg.account]).Nodup := by
        rw [List.nodup_append]
        refine ⟨hs, by simp, ?_⟩
        intro a ha b hb hab
        rw [List.mem_singleton] at hb
        exact hm (hb ▸ hab ▸ ha)
      refine ⟨(ih _ hs').1, ?_⟩
      intro a
      rw [(ih _ hs').2, List.map_cons, List.mem_cons, List.mem_append, List.mem_singleton]
      tauto

theorem distinctAccounts_nodup (legs : List Leg) : (distinctAccounts legs).Nodup :=
  (foldl_distinct legs [] List.nodup_nil).1

@[simp] theorem mem_distinctAccounts {legs : List Leg} {a : AccountRef} :
    a ∈ distinctAccounts legs ↔ a ∈ legs.map Leg.account := by
  have h := (foldl_distinct legs [] List.nodup_nil).2 a
  simpa [distinctAccounts] using h

abbrev Digest := List UInt8 → List UInt8

def ownAmounts (account : AccountRef) (legs : List Leg) : List String :=
  sortStrings ((legs.filter (·.account = account)).map fun leg => encodeAmount leg.amount)

def chainPreimage (accountPrevHash : List UInt8) (account : AccountRef) (posting : Posting) :
    Except Fault (List UInt8) := do
  let text ← canonicalMeta (.object posting.fields)
  return lengthPrefixed [accountPrevHash, utf8 posting.txnId,
    utf8 ("\u0000".intercalate (ownAmounts account posting.legs)), utf8 text]

def chainHash (digest : Digest) (accountPrevHash : List UInt8) (account : AccountRef)
    (posting : Posting) : Except Fault String := do
  return toHex (digest (← chainPreimage accountPrevHash account posting))

/-! ## The checks before a write -/

def dropZeroLegs (posting : Posting) : Posting :=
  { posting with legs := posting.legs.filter (·.amount.minor ≠ 0) }

def assertSingleCurrencyPerLeg (posting : Posting) : Except Fault Unit :=
  if posting.legs.all fun leg => leg.amount.currency = currency leg.account then .ok ()
  else .error (fault .currencyMismatch "A leg currency does not match its account.")

def currencyAmounts (legs : List Leg) : List (Currency × Int) :=
  legs.map fun leg => (leg.amount.currency, leg.amount.minor)

/-- A residual outside the 64-bit range faults while the message is built. -/
def assertBalanced (posting : Posting) : Except Fault Unit :=
  match (tally (currencyAmounts posting.legs)).find? (·.2 ≠ 0) with
  | none => .ok ()
  | some (legCurrency, residual) => do
    let _ ← toAmount legCurrency residual
    .error (fault .ledgerUnbalanced "A posting does not balance.")

def assertKnownAccounts (hasAccount : AccountRef → Bool) (posting : Posting) : Except Fault Unit :=
  if posting.legs.all fun leg => hasAccount leg.account then .ok ()
  else .error (fault .unknownAccount "A posting names an unknown account.")

/-- User wallets and the escrow-like accounts; the rest of the platform swings either way. -/
def isUserGuarded (account : AccountRef) : Bool :=
  (classify account = .custodial || classify account = .excluded) && includes account ':'

/-- The net delta of each guarded account, in the order the legs name them. -/
def guardedDeltas (legs : List Leg) : Except Fault (List (AccountRef × Int)) := do
  let moved ← (legs.filter fun leg => isUserGuarded leg.account).mapM fun leg => do
    return (leg.account, (← balanceDelta leg).minor)
  return tally moved

def assertCovered (balance : AccountRef → Except Fault Amount) :
    List (AccountRef × Int) → Except Fault Unit
  | [] => .ok ()
  | (account, delta) :: rest =>
    if delta ≥ 0 then assertCovered balance rest
    else do
      let current ← balance account
      let projected ← toAmount current.currency (current.minor + delta)
      if projected.minor < 0 then
        .error (fault .overdraft "A posting would overdraw a user account.")
      else assertCovered balance rest

def assertNoOverdraft (balance : AccountRef → Except Fault Amount) (posting : Posting) :
    Except Fault Unit := do
  assertCovered balance (← guardedDeltas posting.legs)

def ZeroSum (legs : List Leg) : Prop := ∀ c, total (currencyAmounts legs) c = 0

theorem assertBalanced_zeroSum {posting : Posting} (h : assertBalanced posting = .ok ()) :
    ZeroSum posting.legs := by
  intro c
  rw [← tally_total]
  unfold assertBalanced at h
  cases hf : (tally (currencyAmounts posting.legs)).find? (·.2 ≠ 0) with
  | some p =>
    rw [hf] at h
    cases ht : toAmount p.1 p.2 <;> simp [ht, bind, Except.bind] at h
  | none =>
    rw [List.find?_eq_none] at hf
    by_cases hc : c ∈ (tally (currencyAmounts posting.legs)).map Prod.fst
    · obtain ⟨⟨c', v⟩, hm, rfl⟩ := List.mem_map.mp hc
      have hv : v = 0 := by simpa using hf _ hm
      rw [total_of_mem (tally_nodup _) hm, hv]
    · exact total_eq_zero hc

theorem mem_deltas_account {legs : List Leg} {a : AccountRef} :
    a ∈ (deltas legs).map Prod.fst ↔ a ∈ legs.map Leg.account := by
  simp [deltas]

end EconomyLab
