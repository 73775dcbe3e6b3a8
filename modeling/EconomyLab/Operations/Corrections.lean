import EconomyLab.Operations.TopUp

/-!
# Corrections

An adjustment moves one account against opening equity, a reversal posts an earlier entry with
every sign flipped, and a clawback takes back credits after a chargeback. A reversal and a
clawback of an order are staked under the reversal key of what they undo.
-/

namespace EconomyLab

open Foundation Text

theorem reversalKey_reversal (id : String) : isReversalKey (reversalKey id) = true := by
  have hprefix : ("reversed:" ++ id).toList = "reversed:".toList ++ id.toList := String.toList_append
  simp only [isReversalKey, reversalKey, startsWith, hprefix]
  exact List.isPrefixOf_iff_prefix.mpr (List.prefix_append _ _)

def creditDelta (amount : Amount) (label : String) : Except Fault Amount :=
  if amount.currency ≠ .credit then .error (fault .malformedOperation (label ++ " must be CREDIT."))
  else if isZero amount then .error (fault .invalidAmount (label ++ " must be non-zero."))
  else .ok amount

def buildAdjustLegs (account : AccountRef) (amount : Amount) : Except Fault (List Leg) := do
  let accountMinor := if isDebitNormal account then amount.minor else -amount.minor
  return [⟨account, ← toAmount amount.currency accountMinor⟩,
    ⟨SYSTEM.OPENING_EQUITY, ← toAmount amount.currency (-accountMinor)⟩]

def adjustMeta (operation : AdjustOperation) : Meta :=
  [("kind", .string "adjust"), ("amount", .string (encodeAmount operation.amount)),
    ("reason", .string operation.reason)]

def adjust (env : Env) (operation : AdjustOperation) : Work Outcome := do
  Work.lift (assertOperator "adjust" operation.actor)
  Work.lift (assertReason "adjust" operation.reason)
  let amount ← Work.lift (creditDelta operation.amount "adjust.amount")
  let txnId ← Work.mint env "txn"
  let legs ← Work.lift (buildAdjustLegs operation.account amount)
  let transaction ← Work.postEntry env ⟨txnId, legs, adjustMeta operation⟩
  return .committed transaction

theorem buildAdjustLegs_accounts {account : AccountRef} {amount : Amount} {legs : List Leg}
    (h : buildAdjustLegs account amount = .ok legs) :
    ∀ leg ∈ legs, leg.account ∈ [account, SYSTEM.OPENING_EQUITY] := by
  obtain ⟨_, -, h⟩ := except_bind_ok.mp h
  obtain ⟨_, -, h⟩ := except_bind_ok.mp h
  obtain rfl := except_pure_ok.mp h
  intro leg hleg
  rcases List.mem_cons.mp hleg with rfl | hleg
  · exact List.mem_cons_self
  · obtain rfl := List.mem_singleton.mp hleg
    exact List.mem_cons_of_mem _ List.mem_cons_self

theorem adjust_staysOn (env : Env) (operation : AdjustOperation) :
    StaysOn (LOCK_SETS.adjust operation) (adjust env operation) := by
  apply Work.Guarded.step fun _ => rfl
  intro _
  apply Work.Guarded.step fun _ => rfl
  intro _
  apply Work.Guarded.step fun _ => rfl
  intro amount
  apply Work.Guarded.step fun _ => rfl
  intro txnId
  apply Work.Guarded.lift
  intro legs hlegs
  apply Work.Guarded.postEntry (dropZero_covered (buildAdjustLegs_accounts hlegs))
  exact fun transaction => .pure ⟨calm_committed transaction, rfl⟩

/-- The entry to undo, re-proved against its links. -/
def loadPosting (digest : Digest) (t : LedgerTables) (txnId : String) : Except Fault Posting := do
  match ← verifiedPosting digest t txnId with
  | none => .error (fault .malformedOperation "reverse names a posting that does not exist.")
  | some posting => .ok posting

def assertNotReversal (original : Posting) : Except Fault Unit :=
  if metaText original.fields "kind" = some "reverse" then
    .error (fault .malformedOperation "reverse cannot undo a reversal.")
  else .ok ()

def reverseLeg (leg : Leg) : Except Fault Leg := do
  return ⟨leg.account, ← negate leg.amount⟩

def reverseMeta (operation : ReverseOperation) : Meta :=
  [("kind", .string "reverse"), ("txnId", .string operation.txnId), ("reason", .string operation.reason)]

/-- What a handler answers when its reversal key is taken. -/
def answerDuplicate (transaction : Transaction) : Work Outcome := return .duplicate transaction

def reverse (env : Env) (operation : ReverseOperation) : Work Outcome := do
  Work.lift (assertOperator "reverse" operation.actor)
  Work.lift (assertReason "reverse" operation.reason)
  let original ← Work.read (fun w => loadPosting env.digest w.ledger.tables operation.txnId) fun _ => rfl
  Work.lift (assertNotReversal original)
  Work.lockAll (original.legs.map Leg.account)
  Work.claiming env (reversalKey operation.txnId) (reversalKey_reversal _) answerDuplicate
    (do
      let txnId ← Work.mint env "txn"
      let legs ← Work.lift (original.legs.mapM reverseLeg)
      let transaction ← Work.postEntry env ⟨txnId, legs, reverseMeta operation⟩
      return .inl transaction)
    fun transaction => return .committed transaction

/-- A handler that locks more accounts before it reads any balance, and posts on locked ones only. -/
def ExtendsLocks (locked : List AccountRef) (x : Work Outcome) : Prop :=
  Work.Guarded (.start locked) x fun outcome _ => Calm outcome

theorem reverseLegs_accounts {legs reversed : List Leg} (h : legs.mapM reverseLeg = .ok reversed) :
    ∀ leg ∈ reversed, leg.account ∈ legs.map Leg.account := by
  intro leg hleg
  obtain ⟨line, hline, hreversed⟩ := mem_mapM_ok h leg hleg
  obtain ⟨_, -, hreversed⟩ := except_bind_ok.mp hreversed
  obtain rfl := except_pure_ok.mp hreversed
  exact List.mem_map.mpr ⟨line, hline, rfl⟩

theorem reverse_extendsLocks (env : Env) (operation : ReverseOperation) :
    ExtendsLocks REVERSAL_CONTRAS (reverse env operation) := by
  apply Work.Guarded.step fun _ => rfl
  intro _
  apply Work.Guarded.step fun _ => rfl
  intro _
  apply Work.Guarded.step fun _ => rfl
  intro original
  apply Work.Guarded.step fun _ => rfl
  intro _
  apply Work.Guarded.lockAll
  apply Work.Guarded.claiming
  · exact fun transaction => .pure (calm_duplicate transaction)
  · apply Work.Guarded.step fun _ => rfl
    intro txnId
    apply Work.Guarded.lift
    intro legs hlegs
    apply Work.Guarded.postEntry
    · apply dropZero_covered
      exact fun leg hleg => List.mem_append_right _ (reverseLegs_accounts hlegs leg hleg)
    · exact fun transaction => .pure (.pure (calm_committed transaction))

def presentOrderId (orderId : String) : Except Fault String :=
  if isBlank orderId then
    .error (fault .malformedOperation "clawback.orderId must be a non-empty order id when present.")
  else .ok orderId

/-- What the user still holds is recovered; the rest is owed. -/
structure ClawbackSplit where
  recovered : Amount
  shortfall : Amount

def splitClawback (amount held : Amount) : Except Fault ClawbackSplit := do
  let available := if held.minor > 0 then held.minor else 0
  let recoveredMinor := if available < amount.minor then available else amount.minor
  return ⟨← toAmount amount.currency recoveredMinor, ← toAmount amount.currency
    (amount.minor - recoveredMinor)⟩

def buildClawbackLegs (userId : String) (amount : Amount) (split : ClawbackSplit) :
    Except Fault (List Leg) := do
  let recovered := if split.recovered.minor > 0 then [debit (spendable userId) split.recovered] else []
  let shortfall := if split.shortfall.minor > 0 then [debit SYSTEM.RECEIVABLE split.shortfall] else []
  return recovered ++ shortfall ++ [← credit SYSTEM.STORED_VALUE amount]

def textField (key : String) (value : Option String) : Meta :=
  match value with
  | none => []
  | some value => [(key, .string value)]

def clawbackMeta (operation : ClawbackOperation) (split : ClawbackSplit) : Meta :=
  [("kind", .string "clawback"), ("recovered", .string (encodeAmount split.recovered)),
    ("shortfall", .string (encodeAmount split.shortfall))] ++
    textField "orderId" operation.orderId ++ textField "key" operation.key ++
    textField "reason" operation.reason

def postClawback (env : Env) (operation : ClawbackOperation) (amount : Amount) : Work Transaction := do
  let held ← Work.balance (spendable operation.userId)
  let split ← Work.lift (splitClawback amount held)
  let legs ← Work.lift (buildClawbackLegs operation.userId amount split)
  let txnId ← Work.mint env "txn"
  Work.postEntry env ⟨txnId, legs, clawbackMeta operation split⟩

/-- A clawback of an order shares its reversal key with the refund of that order. -/
def clawback (env : Env) (operation : ClawbackOperation) : Work Outcome := do
  let amount ← Work.lift (requirePositiveCredit operation.amount "clawback.amount")
  match operation.orderId with
  | none => do
    let transaction ← postClawback env operation amount
    return .committed transaction
  | some orderId => do
    let orderId ← Work.lift (presentOrderId orderId)
    Work.claiming env (reversalKey orderId) (reversalKey_reversal _) answerDuplicate
      (do
        let transaction ← postClawback env operation amount
        return .inl transaction)
      fun transaction => return .committed transaction

theorem buildClawbackLegs_accounts {userId : String} {amount : Amount} {split : ClawbackSplit}
    {legs : List Leg} (h : buildClawbackLegs userId amount split = .ok legs) :
    ∀ leg ∈ legs, leg.account ∈ [spendable userId, SYSTEM.STORED_VALUE, SYSTEM.RECEIVABLE] := by
  obtain ⟨line, hline, h⟩ := except_bind_ok.mp h
  obtain rfl := except_pure_ok.mp h
  intro leg hleg
  simp only [List.mem_cons, List.mem_append, List.not_mem_nil, or_false] at hleg ⊢
  rcases hleg with (hleg | hleg) | rfl
  · split at hleg
    · obtain rfl := List.mem_singleton.mp hleg
      exact Or.inl rfl
    · cases hleg
  · split at hleg
    · obtain rfl := List.mem_singleton.mp hleg
      exact Or.inr (Or.inr rfl)
    · cases hleg
  · exact Or.inr (Or.inl (credit_ok hline).1)

theorem postClawback_guarded {β : Type} (env : Env) (operation : ClawbackOperation) (amount : Amount)
    {f : Transaction → Work β} {Q : β → Watch → Prop}
    (hf : ∀ transaction s, s.locked = LOCK_SETS.clawback operation → Work.Guarded s (f transaction) Q) :
    Work.Guarded (.start (LOCK_SETS.clawback operation)) (postClawback env operation amount >>= f) Q := by
  have hpost : Work.Guarded (.start (LOCK_SETS.clawback operation)) (postClawback env operation amount)
      fun _ s => s.locked = LOCK_SETS.clawback operation := by
    apply Work.Guarded.balance
    intro held
    apply Work.Guarded.step fun _ => rfl
    intro split
    apply Work.Guarded.lift
    intro legs hlegs
    apply Work.Guarded.step fun _ => rfl
    intro txnId w
    exact ⟨⟨dropZero_covered (buildClawbackLegs_accounts hlegs), trivial⟩, fun _ => rfl⟩
  exact hpost.bind hf

theorem clawback_staysOn (env : Env) (operation : ClawbackOperation) :
    StaysOn (LOCK_SETS.clawback operation) (clawback env operation) := by
  apply Work.Guarded.step fun _ => rfl
  intro amount
  split
  · apply postClawback_guarded
    exact fun transaction s hs => .pure ⟨calm_committed transaction, hs⟩
  · apply Work.Guarded.step fun _ => rfl
    intro orderId
    apply Work.Guarded.claiming
    · exact fun transaction => .pure ⟨calm_duplicate transaction, rfl⟩
    · apply postClawback_guarded
      exact fun transaction s hs => .pure (.pure ⟨calm_committed transaction, hs⟩)

end EconomyLab
