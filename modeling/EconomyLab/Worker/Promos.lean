import EconomyLab.Economy.Grants
import EconomyLab.Worker.Accrual

/-!
# The expiry of promo grants

A sweep takes back from every expired grant what the user's promo balance still holds of it, at
most. Grants are pooled in one balance, so what the balance holds may be credit of a grant that
has not expired.
-/

namespace EconomyLab

open Foundation

def unprovableGrant : Fault :=
  fault .chainBroken
    ("A promo grant does not re-derive from its granting posting; refusing to reverse by an " ++
      "unverifiable row.")

/-- Whether the granting posting sealed this amount for this user, and this expiry. -/
def sealsGrant (posting : Posting) (grant : PromoGrant) : Bool :=
  (posting.legs.find? (·.account = promo grant.userId)).any (-·.amount.minor = grant.amount.minor) &&
    metaNumber posting.fields "expiresAt" = some grant.expiresAt

def assertGrantProvable (digest : Digest) (t : LedgerTables) (grant : PromoGrant) : Except Fault Unit := do
  match ← verifiedPosting digest t grant.id with
  | none => .error unprovableGrant
  | some posting => if sealsGrant posting grant then .ok () else .error unprovableGrant

/-- The reversal mirrors the grant. -/
def expiryLegs (userId : String) (amount : Amount) : Except Fault (List Leg) := do
  return [debit (promo userId) amount, ← credit SYSTEM.PROMO_FLOAT amount]

def postReversal (env : Env) (grant : PromoGrant) (amount : Amount) : Txn Unit := do
  let txnId ← Txn.mint env "txn"
  let legs ← Txn.lift (expiryLegs grant.userId amount)
  let _ ← Txn.postEntry env ⟨txnId, legs,
    [("kind", .string "promos.expiry"), ("grantId", .string grant.id)]⟩
  return ()

/-- `settle`: a grant that was spent posts nothing, and is marked all the same. -/
def settleGrant (env : Env) (grant : PromoGrant) : Txn Amount := do
  Txn.read fun w => assertGrantProvable env.digest w.ledger.tables grant
  let bal ← Txn.balance (promo grant.userId)
  let reverseMinor := if bal.minor < grant.amount.minor then bal.minor else grant.amount.minor
  let reversed ← Txn.lift (toAmount .credit reverseMinor)
  if reverseMinor > 0 then postReversal env grant reversed
  Txn.promo (.markReversed grant.id)
  return reversed

def claimDueGrants (rows : OrderedTable String PromoGrant) (now : Int) (limit : Nat) : List PromoGrant :=
  let due := rows.values.filter fun grant => !grant.reversed && grant.expiresAt ≤ now
  (due.insertionSort fun a b => a.expiresAt ≤ b.expiresAt).take limit

structure PromoExpiryTally where
  reversed : List (String × Amount)
  failed : List (String × Option ErrorCode)

/-- Each grant is reversed in a transaction of its own. -/
def reverseOne (env : Env) (state : PromoExpiryTally × World) (grant : PromoGrant) :
    PromoExpiryTally × World :=
  match transaction (settleGrant env grant) state.2 with
  | (.ok reversed, w) => ({ state.1 with reversed := state.1.reversed ++ [(grant.id, reversed)] }, w)
  | (.error e, w) => ({ state.1 with failed := state.1.failed ++ [(grant.id, (normalizeError e).code)] },
    w)

def sweepExpiredPromos (env : Env) (now : Int) (limit : Nat) (w : World) : PromoExpiryTally × World :=
  (claimDueGrants w.promos.rows now limit).foldl (reverseOne env) (⟨[], []⟩, w)

end EconomyLab
