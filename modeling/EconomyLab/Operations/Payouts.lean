import EconomyLab.Operations.Entitlements

/-!
# Payouts

A request sets earned credits aside and opens the saga that a worker drives. A settlement clears
the reserve into revenue and takes the quoted cash out of trust; a reversal gives the reserve back.
Every step that moves money re-proves the saga's row against the posting it opened with.
-/

namespace EconomyLab

open Foundation

abbrev PayeeDirectory := String → Bool

/-! ## Requests -/

def payableCredit (amount : Amount) : Except Fault Amount :=
  if amount.currency ≠ .credit then
    .error (fault .malformedOperation "requestPayout.amount must be earned CREDIT.")
  else if amount.minor ≤ 0 then .error (fault .invalidAmount "requestPayout.amount must be positive.")
  else .ok amount

/-- What a seller's pending rows come to; recorded debt makes it negative. -/
def netPending (w : World) (sellerId : String) : Int :=
  ((w.accruals.rows.rows.values.filter fun row => row.sellerId = sellerId && row.status = .pending).map
    (·.amount.minor)).sum

def payableEarned (net : Int) (available : Amount) : Except Fault Amount :=
  if net < 0 then toAmount .credit (available.minor + net) else .ok available

def priceQuote (rate par : Rate) (amount : Amount) : Except Fault Amount :=
  if rateGte par rate then convertFloor amount rate .usd
  else .error (fault .configInvalid "Rates are misordered: payout is above par.")

def pendingSlaMs (config : Config) : Int :=
  ((config.payoutSla.lookup "PENDING").or (config.payoutSla.lookup "DEFAULT")).getD 0

/-- When the next request is due, if it is not due yet. -/
def retryAt (env : Env) (config : Config) (last : Option Int) : Work (Option Int) :=
  match last with
  | none => return none
  | some last => do
    let now ← Work.now env
    return if now - last < config.payoutMinIntervalMs then
      some (last + config.payoutMinIntervalMs) else none

/-- The refusal of a request, as far as it can be told before the balance is read. -/
def screenRequest (env : Env) (config : Config) (payees : Option PayeeDirectory) (userId : String)
    (amount : Amount) : Work (Option Outcome) := do
  if amount.minor < config.payoutMinimumEarnedMinor then do
    let minimum ← Work.lift (toAmount .credit config.payoutMinimumEarnedMinor)
    return some (.rejected (.belowMinimum minimum amount))
  else do
    let last ← Work.read (fun w => .ok (w.sagas.rows.lastByUser.get userId)) fun _ => rfl
    match ← retryAt env config last with
    | some due => return some (.rejected (.payoutTooSoon due))
    | none =>
      if payees.any fun cleared => !cleared userId then return some (.rejected (.payeeUnverified userId))
      else return none

/-- The refusal of a request for more than is payable, or for credits that still wait. -/
def screenEarned (env : Env) (config : Config) (userId : String) (amount : Amount) :
    Work (Option Outcome) := do
  let available ← Work.balance (earned userId)
  let net ← Work.read (fun w => .ok (netPending w userId)) fun _ => rfl
  let payable ← Work.lift (payableEarned net available)
  Work.lift (assertSameCurrency payable amount)
  if payable.minor < amount.minor then
    return some (.rejected (.insufficientFunds (earned userId) amount payable))
  else screenMaturity env config (earned userId) amount available

def payoutReserveLegs (userId : String) (amount : Amount) : Except Fault (List Leg) := do
  return [debit (earned userId) amount, ← credit SYSTEM.PAYOUT_RESERVE amount]

/-- The reserve is routed by the user, whom every later step knows. -/
def reserveAndOpen (env : Env) (config : Config) (operation : RequestPayoutOperation) (amount : Amount)
    (rateId : String) (payoutUsd : Amount) : Work Outcome := do
  let sagaId ← Work.mint env "pay"
  let txnId ← Work.mint env "txn"
  let legs ← Work.lift (payoutReserveLegs operation.userId amount)
  let transaction ← Work.postEntry env ⟨txnId, routePlatformLegs legs operation.userId
    config.platformShards,
    [("kind", .string "requestPayout"), ("rateId", .string rateId), ("sagaId", .string sagaId),
      ("payoutUsd", .string (encodeAmount payoutUsd))]⟩
  let now ← Work.now env
  Work.saga (.start {
    id := sagaId
    userId := operation.userId
    reserve := amount
    rateId := rateId
    txnId := txnId
    state := .reserved
    providerRef := none
    reason := none
    attempts := 0
    dueAt := now + pendingSlaMs config
    updatedAt := now
    payoutUsd := some payoutUsd })
  return .committed transaction

def requestPayout (env : Env) (config : Config) (rates : Rates) (payees : Option PayeeDirectory)
    (operation : RequestPayoutOperation) : Work Outcome := do
  let amount ← Work.lift (payableCredit operation.amount)
  match ← screenRequest env config payees operation.userId amount with
  | some refused => return refused
  | none => do
    match ← screenEarned env config operation.userId amount with
    | some refused => return refused
    | none => do
      let now ← Work.now env
      let rate := rates.payout now
      let payoutUsd ← Work.lift (priceQuote rate rates.par amount)
      reserveAndOpen env config operation amount rate.rateId payoutUsd

def loadSaga (kind sagaId : String) : Work Saga :=
  .read (fun w =>
    match w.sagas.rows.rows.get sagaId with
    | none => .error (fault .malformedOperation (kind ++ " names a payout that does not exist."))
    | some saga => .ok saga) fun _ => rfl

def assertUserMatchesSaga (userId : String) (saga : Saga) : Except Fault Unit :=
  if userId = saga.userId then .ok ()
  else .error (fault .malformedOperation "reversePayout userId does not match the payout it names.")

def refuseSettled (saga : Saga) : Except Fault Unit :=
  if saga.state = .settled then .error (fault .invalidTransition "Cannot reverse a settled payout.")
  else .ok ()

/-- A submitted payout may still settle until it is old, unless the rail itself gave it up. -/
def refuseLiveSubmitted (env : Env) (config : Config) (operation : ReversePayoutOperation) (saga : Saga) :
    Work Unit :=
  if operation.providerReported || saga.state ≠ .submitted then return ()
  else do
    let now ← Work.now env
    Work.lift (if now - saga.updatedAt ≤ config.maxPayoutAgeMs then
      .error (fault .invalidTransition
        "Cannot reverse a payout still within its provider settlement window.")
      else .ok ())

def undoLegs (saga : Saga) : Except Fault (List Leg) := do
  return [debit SYSTEM.PAYOUT_RESERVE saga.reserve, ← credit (earned saga.userId) saga.reserve]

def reversePayoutMeta (operation : ReversePayoutOperation) (saga : Saga) : Meta :=
  [("kind", .string "reversePayout"), ("sagaId", .string saga.id), ("reason", .string operation.reason)] ++
    if operation.providerReported then [("providerReported", .bool true)] else []

/-- The saga is failed first, and only from the state it was read in. -/
def undoPayout (env : Env) (config : Config) (operation : ReversePayoutOperation) (saga : Saga) :
    Work Outcome := do
  let updatedAt ← Work.now env
  let advanced ← Work.advanceSaga saga.id saga.state .failed fun saga => { saga with updatedAt }
  if !advanced then return .duplicate noopTransaction
  else do
    let _ ← Work.read (fun w => assertSagaAnchored env.digest w.ledger.tables saga) fun _ => rfl
    let txnId ← Work.mint env "txn"
    let legs ← Work.lift (undoLegs saga)
    let transaction ← Work.postEntry env
      ⟨txnId, routePlatformLegs legs operation.userId config.platformShards,
        reversePayoutMeta operation saga⟩
    return .committed transaction

def reversePayout (env : Env) (config : Config) (operation : ReversePayoutOperation) : Work Outcome := do
  Work.lift (assertReason "reversePayout" operation.reason)
  let saga ← loadSaga "reversePayout" operation.sagaId
  Work.lift (assertUserMatchesSaga operation.userId saga)
  Work.lift (refuseSettled saga)
  refuseLiveSubmitted env config operation saga
  if saga.state ≠ .reserved ∧ saga.state ≠ .submitted then return .duplicate noopTransaction
  else undoPayout env config operation saga

/-- A failed payout gave its reserve back, so a settlement of it is never retried. -/
def refuseNotSubmitted (saga : Saga) : Except Fault Unit :=
  if saga.state = .submitted then .ok ()
  else .error { fault .invalidTransition "Cannot settle a payout that is not submitted." with
    retryable := saga.state ≠ .failed }

def payoutFee (gross : Amount) (feeBps : Nat) : Except Fault Amount := do
  toAmount .usd (← mulDiv gross.minor feeBps 10000 .floor)

def clearLegs (reserveRef : AccountRef) (reserve : Amount) : Except Fault (List Leg) := do
  return [debit reserveRef reserve, ← credit SYSTEM.REVENUE reserve]

def disburseLegs (usd : Amount) : Except Fault (List Leg) := do
  return [debit SYSTEM.USD_CLEARING usd, ← credit SYSTEM.TRUST_CASH usd]

/-- The shard of the reserve is known from the saga only, so it is locked here. -/
def lockReserve (reserveRef : AccountRef) : Work Unit :=
  if reserveRef = SYSTEM.PAYOUT_RESERVE then return () else Work.lockAll [reserveRef]

def postSettlementEntries (env : Env) (config : Config) (saga : Saga) (usd fee net : Amount) :
    Work Transaction := do
  let reserveRef := platformShard SYSTEM.PAYOUT_RESERVE saga.userId config.platformShards
  lockReserve reserveRef
  let clearId ← Work.mint env "txn"
  let cleared ← Work.lift (clearLegs reserveRef saga.reserve)
  let cashId ← Work.mint env "txn"
  let disbursed ← Work.lift (disburseLegs usd)
  let transaction ← Work.postEntry env ⟨clearId, cleared,
    [("kind", .string "settlePayout"), ("sagaId", .string saga.id), ("rateId", .string saga.rateId)]⟩
  let _ ← Work.postEntry env ⟨cashId, disbursed,
    [("kind", .string "settlePayout.cash"), ("sagaId", .string saga.id), ("rateId", .string saga.rateId),
      ("payoutFee", .string (encodeAmount fee)), ("netUsd", .string (encodeAmount net))]⟩
  return transaction

def assertAdvanced (advanced : Bool) : Except Fault Unit :=
  if advanced then .ok ()
  else .error { fault .invalidTransition "The payout was advanced by another actor first." with
    retryable := true }

def settledEvent (saga : Saga) (usd fee net : Amount) : Txn.EventDraft where
  type := "economy.payout.settled"
  subject := saga.userId
  data := [("sagaId", .string saga.id), ("userId", .string saga.userId),
    ("reserve", .string (encodeAmount saga.reserve)), ("usd", .string (encodeAmount usd)),
    ("payoutFee", .string (encodeAmount fee)), ("netUsd", .string (encodeAmount net)),
    ("rateId", .string saga.rateId)]
  audience := "internal"

def settleSubmitted (env : Env) (config : Config) (saga : Saga) (usd : Amount) : Work Outcome := do
  let fee ← Work.lift (payoutFee usd config.payoutFeeBps)
  let net ← Work.lift (toAmount .usd (usd.minor - fee.minor))
  let transaction ← postSettlementEntries env config saga usd fee net
  let updatedAt ← Work.now env
  let advanced ← Work.advanceSaga saga.id .submitted .settled fun saga =>
    { saga with updatedAt, payoutUsd := some usd }
  Work.lift (assertAdvanced advanced)
  Work.emit env (settledEvent saga usd fee net)
  return .committed transaction

def settlePayout (env : Env) (config : Config) (operation : SettlePayoutOperation) : Work Outcome := do
  let saga ← loadSaga "settlePayout" operation.sagaId
  if saga.state = .settled then return .duplicate noopTransaction
  else do
    Work.lift (refuseNotSubmitted saga)
    let usd ← Work.read (fun w => assertSagaAnchored env.digest w.ledger.tables saga) fun _ => rfl
    settleSubmitted env config saga usd

/-! ## What they post -/

variable {legs : List Leg}

theorem payoutReserveLegs_accounts {userId : String} {amount : Amount}
    (h : payoutReserveLegs userId amount = .ok legs) :
    ∀ leg ∈ legs, leg.account ∈ [earned userId, SYSTEM.PAYOUT_RESERVE] := by
  obtain ⟨line, hline, h⟩ := except_bind_ok.mp h
  obtain rfl := except_pure_ok.mp h
  intro leg hleg
  rcases List.mem_cons.mp hleg with rfl | hleg
  · exact List.mem_cons_self
  · obtain rfl := List.mem_singleton.mp hleg
    exact (credit_ok hline).1 ▸ List.mem_cons_of_mem _ List.mem_cons_self

theorem undoLegs_accounts {saga : Saga} (h : undoLegs saga = .ok legs) :
    ∀ leg ∈ legs, leg.account ∈ [SYSTEM.PAYOUT_RESERVE, earned saga.userId] := by
  obtain ⟨line, hline, h⟩ := except_bind_ok.mp h
  obtain rfl := except_pure_ok.mp h
  intro leg hleg
  rcases List.mem_cons.mp hleg with rfl | hleg
  · exact List.mem_cons_self
  · obtain rfl := List.mem_singleton.mp hleg
    exact (credit_ok hline).1 ▸ List.mem_cons_of_mem _ List.mem_cons_self

theorem clearLegs_accounts {reserveRef : AccountRef} {reserve : Amount}
    (h : clearLegs reserveRef reserve = .ok legs) :
    ∀ leg ∈ legs, leg.account = reserveRef ∨ leg.account = SYSTEM.REVENUE := by
  obtain ⟨line, hline, h⟩ := except_bind_ok.mp h
  obtain rfl := except_pure_ok.mp h
  intro leg hleg
  rcases List.mem_cons.mp hleg with rfl | hleg
  · exact Or.inl rfl
  · obtain rfl := List.mem_singleton.mp hleg
    exact Or.inr (credit_ok hline).1

theorem disburseLegs_accounts {usd : Amount} (h : disburseLegs usd = .ok legs) :
    ∀ leg ∈ legs, leg.account ∈ [SYSTEM.USD_CLEARING, SYSTEM.TRUST_CASH] := by
  obtain ⟨line, hline, h⟩ := except_bind_ok.mp h
  obtain rfl := except_pure_ok.mp h
  intro leg hleg
  rcases List.mem_cons.mp hleg with rfl | hleg
  · exact List.mem_cons_self
  · obtain rfl := List.mem_singleton.mp hleg
    exact (credit_ok hline).1 ▸ List.mem_cons_of_mem _ List.mem_cons_self

section Watched

variable (env : Env) (config : Config) (rates : Rates) (payees : Option PayeeDirectory)

theorem refused_calm {detail : RejectionDetail} (h : detail.reason ≠ .riskDenied) :
    Calm (.rejected detail) ∧ ∀ transaction, (.rejected detail : Outcome) ≠ .committed transaction := by
  refine ⟨?_, fun _ he => Outcome.noConfusion he⟩
  intro window limitMinor he
  obtain rfl := Outcome.rejected.inj he
  exact h rfl

def RefusesCalmly (x : Work (Option Outcome)) : Prop :=
  ∀ s : Watch, Work.Guarded s x fun out s' => (∃ late, s' = { s with reading := late }) ∧
    ∀ refused, out = some refused → Calm refused ∧ ∀ transaction, refused ≠ .committed transaction

theorem screenRequest_screens (userId : String) (amount : Amount) :
    RefusesCalmly (screenRequest env config payees userId amount) := by
  intro s
  unfold screenRequest
  split
  · apply Work.Guarded.step fun _ => rfl
    intro minimum
    refine .pure ⟨⟨_, rfl⟩, ?_⟩
    rintro refused ⟨⟩
    exact refused_calm fun h => by cases h
  · apply Work.Guarded.step fun _ => rfl
    intro last
    have hretry : Work.Guarded s (retryAt env config last) fun _ s' => s' = s := by
      unfold retryAt
      split
      · exact .pure rfl
      · apply Work.Guarded.step fun _ => rfl
        exact fun now => .pure rfl
    apply hretry.bind
    rintro due s' rfl
    split
    · refine .pure ⟨⟨_, rfl⟩, ?_⟩
      rintro refused ⟨⟩
      exact refused_calm fun h => by cases h
    · split
      · refine .pure ⟨⟨_, rfl⟩, ?_⟩
        rintro refused ⟨⟩
        exact refused_calm fun h => by cases h
      · exact .pure ⟨⟨_, rfl⟩, fun refused h => absurd h (Option.some_ne_none refused).symm⟩

theorem screenEarned_screens (userId : String) (amount : Amount) :
    RefusesCalmly (screenEarned env config userId amount) := by
  intro s
  apply Work.Guarded.balance
  intro available
  apply Work.Guarded.step fun _ => rfl
  intro net
  apply Work.Guarded.step fun _ => rfl
  intro payable
  apply Work.Guarded.step fun _ => rfl
  intro _
  split
  · refine .pure ⟨⟨_, rfl⟩, ?_⟩
    rintro refused ⟨⟩
    exact refused_calm nofun
  · apply Work.Guarded.of_pure
    apply screenMaturity_guarded
    · exact .pure ⟨⟨_, rfl⟩, fun refused h => absurd h (Option.some_ne_none refused).symm⟩
    · intro source availableAt
      refine .pure ⟨⟨_, rfl⟩, ?_⟩
      rintro refused ⟨⟩
      exact refused_calm nofun

theorem requestPayout_guarded (operation : RequestPayoutOperation) :
    Work.Guarded (.start (LOCK_SETS.requestPayout operation config.platformShards))
      (requestPayout env config rates payees operation) fun outcome s =>
        Calm outcome ∧ s.locked = LOCK_SETS.requestPayout operation config.platformShards ∧
        ((∃ transaction, outcome = .committed transaction) → 0 < operation.amount.minor ∧
          ∃ legs, payoutReserveLegs operation.userId operation.amount = .ok legs ∧
            s.posted = (routePlatformLegs legs operation.userId config.platformShards).filter
              (·.amount.minor ≠ 0)) := by
  apply Work.Guarded.lift
  intro amount hamount
  have hsame : amount = operation.amount ∧ 0 < operation.amount.minor := by
    unfold payableCredit at hamount
    split at hamount
    · cases hamount
    · split at hamount
      · cases hamount
      · rename_i hpos
        exact ⟨(Except.ok.inj hamount).symm, by omega⟩
  obtain ⟨rfl, hpos⟩ := hsame
  have hrefused : ∀ (refused : Outcome) s, Calm refused ∧
    (∀ transaction, refused ≠ .committed transaction) →
      s.locked = LOCK_SETS.requestPayout operation config.platformShards →
      Work.Guarded s (Pure.pure refused : Work Outcome) fun outcome s =>
        Calm outcome ∧ s.locked = LOCK_SETS.requestPayout operation config.platformShards ∧
        ((∃ transaction, outcome = .committed transaction) → 0 < operation.amount.minor ∧
          ∃ legs, payoutReserveLegs operation.userId operation.amount = .ok legs ∧
            s.posted = (routePlatformLegs legs operation.userId config.platformShards).filter
              (·.amount.minor ≠ 0)) :=
    fun refused s hcalm hs => .pure ⟨hcalm.1, hs, fun h => absurd h.choose_spec (hcalm.2 _)⟩
  apply (screenRequest_screens env config payees operation.userId operation.amount _).bind
  rintro out s ⟨⟨late, rfl⟩, hout⟩
  split
  · rename_i refused
    exact hrefused refused _ (hout refused rfl) rfl
  · apply (screenEarned_screens env config operation.userId operation.amount _).bind
    rintro out s ⟨⟨late, rfl⟩, hout⟩
    split
    · rename_i refused
      exact hrefused refused _ (hout refused rfl) rfl
    · apply Work.Guarded.step fun _ => rfl
      intro now
      apply Work.Guarded.step fun _ => rfl
      intro payoutUsd
      apply Work.Guarded.step fun _ => rfl
      intro sagaId
      apply Work.Guarded.step fun _ => rfl
      intro txnId
      apply Work.Guarded.lift
      intro legs hlegs
      apply Work.Guarded.postEntry
      · apply routed_covered (payoutReserveLegs_accounts hlegs)
        intro account haccount
        simp only [Watch.start, LOCK_SETS.requestPayout, List.mem_cons, List.not_mem_nil,
          or_false] at haccount ⊢
        rcases haccount with rfl | rfl
        · exact Or.inl (platformShard_wallet _ _ _ _)
        · exact Or.inr rfl
      · intro transaction
        apply Work.Guarded.step fun _ => rfl
        intro now
        apply Work.Guarded.step fun _ => rfl
        exact fun _ => .pure ⟨calm_committed transaction, rfl, fun _ => ⟨hpos, legs, hlegs, rfl⟩⟩

theorem undoPayout_guarded (operation : ReversePayoutOperation) {saga : Saga}
    (huser : operation.userId = saga.userId) :
    Work.Guarded (.start (LOCK_SETS.reversePayout operation config.platformShards))
      (undoPayout env config operation saga) fun outcome s =>
        Calm outcome ∧ s.locked = LOCK_SETS.reversePayout operation config.platformShards := by
  apply Work.Guarded.step fun _ => rfl
  intro updatedAt
  apply Work.Guarded.step fun _ => rfl
  intro advanced
  split
  · exact .pure ⟨fun _ _ h => (by cases h), rfl⟩
  · apply Work.Guarded.step fun _ => rfl
    intro _
    apply Work.Guarded.step fun _ => rfl
    intro txnId
    apply Work.Guarded.lift
    intro legs hlegs
    apply Work.Guarded.postEntry
    · apply routed_covered (undoLegs_accounts hlegs)
      intro account haccount
      simp only [Watch.start, LOCK_SETS.reversePayout, huser, List.mem_cons, List.not_mem_nil, or_false]
        at haccount ⊢
      rcases haccount with rfl | rfl
      · exact Or.inl rfl
      · exact Or.inr (platformShard_wallet _ _ _ _)
    · exact fun transaction => .pure ⟨calm_committed transaction, rfl⟩

theorem reversePayout_staysOn (operation : ReversePayoutOperation) :
    StaysOn (LOCK_SETS.reversePayout operation config.platformShards)
      (reversePayout env config operation) := by
  apply Work.Guarded.step fun _ => rfl
  intro _
  apply Work.Guarded.step fun _ => rfl
  intro saga
  apply Work.Guarded.lift
  intro _ hmatch
  have huser : operation.userId = saga.userId := by
    unfold assertUserMatchesSaga at hmatch
    split at hmatch
    · assumption
    · cases hmatch
  apply Work.Guarded.step fun _ => rfl
  intro _
  have hlive : ∀ s, Work.Guarded s (refuseLiveSubmitted env config operation saga) fun _ s' => s' = s := by
    intro s
    unfold refuseLiveSubmitted
    split
    · exact .pure rfl
    · apply Work.Guarded.step fun _ => rfl
      exact fun now w => ⟨trivial, fun _ => rfl⟩
  apply (hlive _).bind
  rintro _ s rfl
  split
  · exact .pure ⟨nofun, rfl⟩
  · exact undoPayout_guarded env config operation huser

theorem settlePayout_extendsLocks (operation : SettlePayoutOperation) :
    ExtendsLocks LOCK_SETS.settlePayout (settlePayout env config operation) := by
  apply Work.Guarded.step fun _ => rfl
  intro saga
  split
  · exact .pure fun _ _ h => by cases h
  · apply Work.Guarded.step fun _ => rfl
    intro _
    apply Work.Guarded.step fun _ => rfl
    intro usd
    apply Work.Guarded.step fun _ => rfl
    intro fee
    apply Work.Guarded.step fun _ => rfl
    intro net
    have hsettle : Work.Guarded (.start LOCK_SETS.settlePayout)
        (postSettlementEntries env config saga usd fee net) fun _ _ => True := by
      have hlock : Work.Guarded (.start LOCK_SETS.settlePayout)
          (lockReserve (platformShard SYSTEM.PAYOUT_RESERVE saga.userId config.platformShards)) fun _ s =>
            platformShard SYSTEM.PAYOUT_RESERVE saga.userId config.platformShards ∈ s.locked ∧
              ∀ account ∈ LOCK_SETS.settlePayout, account ∈ s.locked := by
        unfold lockReserve
        split
        · rename_i hbare
          have hstatic : SYSTEM.PAYOUT_RESERVE ∈ LOCK_SETS.settlePayout := List.mem_cons_self
          exact .pure ⟨hbare.symm ▸ hstatic, fun _ h => h⟩
        · apply Work.Guarded.of_pure
          apply Work.Guarded.lockAll
          exact .pure ⟨List.mem_append_right _ (List.mem_singleton_self _), fun _ h =>
            List.mem_append_left _ h⟩
      apply hlock.bind
      rintro _ s ⟨hreserve, hstatic⟩
      apply Work.Guarded.step fun _ => rfl
      intro clearId
      apply Work.Guarded.lift
      intro cleared hcleared
      apply Work.Guarded.step fun _ => rfl
      intro cashId
      apply Work.Guarded.lift
      intro disbursed hdisbursed
      apply Work.Guarded.postEntry
      · apply dropZero_covered
        intro leg hleg
        rcases clearLegs_accounts hcleared leg hleg with ha | ha
        · exact ha ▸ hreserve
        · exact ha ▸ hstatic _ (List.mem_cons_of_mem _ List.mem_cons_self)
      · intro transaction
        apply Work.Guarded.postEntry
        · apply dropZero_covered
          intro leg hleg
          apply hstatic
          have ha := disburseLegs_accounts hdisbursed leg hleg
          simp only [LOCK_SETS.settlePayout, List.mem_cons, List.not_mem_nil, or_false] at ha ⊢
          exact Or.inr (Or.inr ha)
        · exact fun _ => .pure trivial
    apply hsettle.bind
    intro transaction s _
    apply Work.Guarded.step fun _ => rfl
    intro updatedAt
    apply Work.Guarded.step fun _ => rfl
    intro advanced
    apply Work.Guarded.step fun _ => rfl
    intro _
    apply Work.Guarded.step fun _ => rfl
    exact fun _ => .pure (calm_committed transaction)

end Watched

end EconomyLab
