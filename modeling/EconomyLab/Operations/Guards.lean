import EconomyLab.Chain.Verified
import EconomyLab.Operations.Contract

/-!
# Guards

Rows are not hashed, so a row that shapes a money movement is first re-proved against the
posting it opened with.
-/

namespace EconomyLab

open Foundation Text

/-- One key family for everything that undoes an order or a transaction. -/
def reversalKey (id : String) : String := "reversed:" ++ id

def assertOperator (kind : String) (actor : Principal) : Except Fault Unit :=
  if actor.isOperator then .ok ()
  else .error (fault .malformedOperation (kind ++ " requires an operator principal."))

def assertReason (kind reason : String) : Except Fault Unit :=
  if isBlank reason then .error (fault .malformedOperation (kind ++ " requires a non-empty reason."))
  else .ok ()

/-- The receipt of an operation that was handled before: nothing posted this time. -/
def noopTransaction : Transaction := ⟨"", 0, [], [], []⟩

/-- The loop over the recipients of a `what`, with the sellers seen and the shares summed so far. -/
def checkRecipients (buyerId what : String) : List String → Int → List Recipient → Except Fault Unit
  | _, total, [] =>
    if total = 10000 then .ok ()
    else .error (fault .malformedOperation "Recipient shareBps must sum to 10000.")
  | seen, total, recipient :: recipients =>
    if recipient.sellerId = buyerId then
      .error (fault .malformedOperation
        ("A " ++ what ++ " recipient may not be the buyer (self-dealing)."))
    else if recipient.sellerId ∈ seen then
      .error (fault .malformedOperation ("A " ++ what ++ " may not name the same sellerId twice."))
    else if recipient.shareBps ≤ 0 ∨ 10000 < recipient.shareBps then
      .error (fault .malformedOperation "Each recipient share must be > 0 and <= 10000 basis points.")
    else checkRecipients buyerId what (recipient.sellerId :: seen) (total + recipient.shareBps) recipients

def assertRecipientShares (recipients : List Recipient) (buyerId what : String) : Except Fault Unit :=
  if recipients = [] then
    .error (fault .malformedOperation ("A " ++ what ++ " names at least one recipient."))
  else checkRecipients buyerId what [] 0 recipients

def metaText (fields : Meta) (key : String) : Option String :=
  match fields.lookup key with
  | some (.string value) => some value
  | _ => none

def metaNumber (fields : Meta) (key : String) : Option Int :=
  match fields.lookup key with
  | some (.number value) => some value
  | _ => none

def digitOf (base : Nat) (c : Char) : Option Nat :=
  let value := if '0' ≤ c ∧ c ≤ '9' then c.toNat - 48
    else if 'a' ≤ c ∧ c ≤ 'f' then c.toNat - 87
    else if 'A' ≤ c ∧ c ≤ 'F' then c.toNat - 55
    else base
  if value < base then some value else none

def digitsIn (base : Nat) (cs : List Char) : Option Int :=
  if cs = [] then none else cs.foldlM (fun n c => (digitOf base c).map fun d => base * n + d) 0

/-- `BigInt(text)`: blanks at the ends do not count, and only decimal digits take a sign. -/
def bigIntOf (text : String) : Except Fault Int :=
  let read := match ((text.toList.dropWhile isSpace).reverse.dropWhile isSpace).reverse with
    | [] => some 0
    | '0' :: 'x' :: cs | '0' :: 'X' :: cs => digitsIn 16 cs
    | '0' :: 'o' :: cs | '0' :: 'O' :: cs => digitsIn 8 cs
    | '0' :: 'b' :: cs | '0' :: 'B' :: cs => digitsIn 2 cs
    | '-' :: cs => (digitsIn 10 cs).map (-·)
    | '+' :: cs | cs => digitsIn 10 cs
  match read with
  | some n => .ok n
  | none => .error (plainError ("Cannot convert " ++ text ++ " to a BigInt"))

example : bigIntOf " -12 " = .ok (-12) ∧ bigIntOf "0x1f" = .ok 31 ∧ bigIntOf "" = .ok 0 := by decide

def unanchoredSubscription : Fault :=
  fault .chainBroken
    ("A subscription does not re-derive from its first-charge posting; refusing to renew from an " ++
      "unverifiable row.")

/-- Whether the sealed metadata of a first charge names this row. -/
def anchors (fields : Meta) (sub : Subscription) : Bool :=
  metaText fields "kind" = some "subscribe" && metaText fields "subscriptionId" = some sub.id &&
    metaText fields "userId" = some sub.userId && metaText fields "sellerId" = some sub.sellerId &&
    metaText fields "price" = some (encodeAmount sub.price) && metaNumber fields "periodMs" =
      some sub.periodMs

def assertSubscriptionAnchored (digest : Digest) (t : LedgerTables) (sub : Subscription) :
    Except Fault Unit := do
  match ← verifiedPosting digest t sub.txnId with
  | none => .error unanchoredSubscription
  | some posting => if anchors posting.fields sub then .ok () else .error unanchoredSubscription

def unanchoredSaga : Fault :=
  fault .chainBroken
    ("A payout saga does not re-derive from its reserve posting; refusing to move money for an " ++
      "unverifiable saga.")

/-- Whether the sealed metadata and the earned line of a reserve name this saga and its quote. -/
def anchorsSaga (posting : Posting) (saga : Saga) (payoutUsd : Amount) : Bool :=
  metaText posting.fields "kind" = some "requestPayout" && metaText posting.fields "sagaId" =
    some saga.id &&
    metaText posting.fields "rateId" = some saga.rateId &&
    metaText posting.fields "payoutUsd" = some (encodeAmount payoutUsd) &&
    (posting.legs.find? (·.account = earned saga.userId)).any (·.amount.minor = saga.reserve.minor)

/-- The quote of a saga whose row its reserve posting bears out. -/
def assertSagaAnchored (digest : Digest) (t : LedgerTables) (saga : Saga) : Except Fault Amount := do
  match ← verifiedPosting digest t saga.txnId, saga.payoutUsd with
  | some posting, some payoutUsd =>
    if anchorsSaga posting saga payoutUsd then .ok payoutUsd else .error unanchoredSaga
  | _, _ => .error unanchoredSaga

end EconomyLab
