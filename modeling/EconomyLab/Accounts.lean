import EconomyLab.Money
import EconomyLab.Text

/-!
# Accounts

User wallets, the platform's own accounts and the shard routing that splits the hot
ones. Every trait of an account is read off its id.
-/

namespace EconomyLab

open Text

abbrev AccountRef := String

inductive AccountKind
  | spendable
  | earned
  | promo
  | escrow
deriving DecidableEq, Repr

def AccountKind.text : AccountKind → String
  | spendable => "spendable"
  | earned => "earned"
  | promo => "promo"
  | escrow => "escrow"

/-- A wallet of `owner`; for an escrow the owner is the user and the session. -/
def wallet (owner : String) (kind : AccountKind) : AccountRef := owner ++ ":" ++ kind.text

def spendable (userId : String) : AccountRef := wallet userId .spendable

def earned (userId : String) : AccountRef := wallet userId .earned

def promo (userId : String) : AccountRef := wallet userId .promo

def sessionEscrow (userId sessionId : String) : AccountRef :=
  wallet (userId ++ ":" ++ sessionId) .escrow

namespace SYSTEM

def TRUST_CASH : AccountRef := "platform:trust_cash"
def REVENUE : AccountRef := "platform:revenue"
def STORED_VALUE : AccountRef := "platform:stored_value"
def PAYOUT_RESERVE : AccountRef := "platform:payout_reserve"
def RECEIVABLE : AccountRef := "platform:receivable"
def PROMO_FLOAT : AccountRef := "platform:promo_float"
def USD_CLEARING : AccountRef := "platform:usd_clearing"
def REVENUE_USD : AccountRef := "platform:revenue_usd"
def OPENING_EQUITY : AccountRef := "platform:opening_equity"
def NETTING_CLEARING : AccountRef := "platform:netting_clearing"
def SETTLEMENT_ACCRUAL : AccountRef := "platform:settlement_accrual"

def values : List AccountRef :=
  [TRUST_CASH, REVENUE, STORED_VALUE, PAYOUT_RESERVE, RECEIVABLE, PROMO_FLOAT, USD_CLEARING,
    REVENUE_USD, OPENING_EQUITY, NETTING_CLEARING, SETTLEMENT_ACCRUAL]

end SYSTEM

def SHARDED : List AccountRef :=
  [SYSTEM.REVENUE, SYSTEM.PROMO_FLOAT, SYSTEM.STORED_VALUE, SYSTEM.TRUST_CASH,
    SYSTEM.USD_CLEARING, SYSTEM.REVENUE_USD, SYSTEM.PAYOUT_RESERVE, SYSTEM.SETTLEMENT_ACCRUAL]

def baseOf (ref : AccountRef) : AccountRef :=
  if startsWith ref "platform:" then beforeFirst '#' ref else ref

def shardRef (base : AccountRef) (shard : Nat) : AccountRef :=
  if shard = 0 then base else base ++ "#" ++ toString shard

def shardsOf (base : AccountRef) (shards : Nat) : List AccountRef :=
  (List.range (max 1 shards)).map (shardRef base)

def fnv1a (key : String) : Nat :=
  (codeUnits key).foldl (fun hash unit => ((hash ^^^ unit) * 0x01000193) % 2 ^ 32) 0x811c9dc5

def platformShard (ref : AccountRef) (key : String) (shards : Nat) : AccountRef :=
  if shards < 2 || !SHARDED.contains ref then ref else shardRef ref (fnv1a key % shards)

/-! ## Traits -/

inductive AccountClass
  | custodial
  | excluded
  | houseAsset
  | houseLiability
deriving DecidableEq, Repr

structure Traits where
  currency : Currency
  debitNormal : Bool
  «class» : AccountClass
deriving DecidableEq, Repr

/-- One row per platform account; `NETTING_CLEARING` has none. -/
def SYSTEM_TRAITS : List (AccountRef × Traits) :=
  [(SYSTEM.TRUST_CASH, ⟨.usd, true, .houseAsset⟩),
    (SYSTEM.USD_CLEARING, ⟨.usd, true, .houseAsset⟩),
    (SYSTEM.REVENUE_USD, ⟨.usd, true, .houseAsset⟩),
    (SYSTEM.STORED_VALUE, ⟨.credit, true, .houseAsset⟩),
    (SYSTEM.RECEIVABLE, ⟨.credit, true, .houseAsset⟩),
    (SYSTEM.OPENING_EQUITY, ⟨.credit, true, .houseAsset⟩),
    (SYSTEM.PROMO_FLOAT, ⟨.credit, true, .houseLiability⟩),
    (SYSTEM.REVENUE, ⟨.credit, false, .houseLiability⟩),
    (SYSTEM.PAYOUT_RESERVE, ⟨.credit, false, .excluded⟩),
    (SYSTEM.SETTLEMENT_ACCRUAL, ⟨.credit, false, .excluded⟩)]

def traitsOf (ref : AccountRef) : Option Traits := SYSTEM_TRAITS.lookup (baseOf ref)

def kindOfText (suffix : String) : Option AccountKind :=
  if suffix = "spendable" then some .spendable
  else if suffix = "earned" then some .earned
  else if suffix = "promo" then some .promo
  else if suffix = "escrow" then some .escrow
  else none

def walletKindOf (ref : AccountRef) : Option AccountKind :=
  (cutLast ':' ref).bind fun cut => kindOfText cut.2

/-- The platform's trait row decides, else everything is in CREDIT. -/
def currency (ref : AccountRef) : Currency := ((traitsOf ref).map Traits.currency).getD .credit

def classify (ref : AccountRef) : AccountClass :=
  match traitsOf ref with
  | some traits => traits.class
  | none =>
    match walletKindOf ref with
    | some .spendable => .custodial
    | some .escrow => .custodial
    | _ => .excluded

def isDebitNormal (ref : AccountRef) : Bool := ((traitsOf ref).map Traits.debitNormal).getD false

def isWalletAccount (ref : AccountRef) : Bool := includes ref ':' && !startsWith ref "platform:"

def ownerOf (ref : AccountRef) : String := ((cutLast ':' ref).map Prod.fst).getD ref

def escrowPartsOf (ref : AccountRef) : Option (String × String) :=
  if walletKindOf ref = some .escrow then
    (cutLast ':' ref).bind fun cut => cutFirst ':' cut.1
  else none

variable (owner : String) (kind : AccountKind)

theorem kindOfText_text : kindOfText kind.text = some kind := by
  cases kind <;> decide

theorem cutLast_wallet : cutLast ':' (wallet owner kind) = some (owner, kind.text) :=
  cutLast_append ':' owner kind.text (by cases kind <;> decide)

@[simp] theorem walletKindOf_wallet : walletKindOf (wallet owner kind) = some kind := by
  simp [walletKindOf, cutLast_wallet, kindOfText_text]

@[simp] theorem ownerOf_wallet : ownerOf (wallet owner kind) = owner := by
  simp [ownerOf, cutLast_wallet]

theorem wallet_inj {owner owner' : String} {kind kind' : AccountKind} :
    wallet owner kind = wallet owner' kind' ↔ owner = owner' ∧ kind = kind' := by
  constructor
  · intro h
    have hk := congrArg walletKindOf h
    have ho := congrArg ownerOf h
    simp only [walletKindOf_wallet, ownerOf_wallet, Option.some.injEq] at hk ho
    exact ⟨ho, hk⟩
  · rintro ⟨rfl, rfl⟩
    rfl

theorem startsWith_of_traits {ref : AccountRef} {traits : Traits}
    (h : traitsOf ref = some traits) : startsWith ref "platform:" := by
  by_contra hn
  have hb : baseOf ref = ref := by simp [baseOf, hn]
  rw [traitsOf, hb] at h
  have hmem : ∀ p ∈ SYSTEM_TRAITS, startsWith p.1 "platform:" = true := by decide
  have hlook : ∃ p ∈ SYSTEM_TRAITS, p.1 = ref := by
    clear hmem hb
    generalize SYSTEM_TRAITS = rows at h
    induction rows with
    | nil => simp at h
    | cons p rows ih =>
      by_cases hp : ref = p.1
      · exact ⟨p, List.mem_cons_self, hp.symm⟩
      · have hbeq : (ref == p.1) = false := beq_eq_false_iff_ne.mpr hp
        rw [List.lookup_cons, hbeq] at h
        obtain ⟨q, hq, hr⟩ := ih h
        exact ⟨q, List.mem_cons_of_mem _ hq, hr⟩
  obtain ⟨p, hp, rfl⟩ := hlook
  exact hn (hmem p hp)

end EconomyLab
