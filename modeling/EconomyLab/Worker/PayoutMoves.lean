import EconomyLab.Economy.Submits
import EconomyLab.Foundation.Holdings
import EconomyLab.Operations.Shards
import EconomyLab.Worker.Payouts

/-!
# What moves a reserve

A payout's reserve is set aside when the payout is opened, and leaves when it is closed: into
revenue by a settlement, or back to the seller. Three handlers and the sweep do this, and each of
them moves the row and the money together.
-/

namespace EconomyLab

open Foundation

/-! ## Entries -/

/-- The entries between two stores have these lines: account and signed amount. Lines of nothing are
dropped. -/
def World.Enters (lines : List (AccountRef × Int)) (w w' : World) : Prop :=
  ∃ legs : List Leg, (legs.map fun leg => (leg.account, leg.amount.minor)) = lines.filter (·.2 ≠ 0) ∧
    Booked legs w.ledger.tables w'.ledger.tables

namespace World.Enters

variable {lines later : List (AccountRef × Int)} {w w' w'' : World}

theorem nothing (h : Booked [] w.ledger.tables w'.ledger.tables) : Enters [] w w' := ⟨[], rfl, h⟩

theorem refl (w : World) : Enters [] w w := nothing (.refl _)

theorem trans (h : Enters lines w w') (h' : Enters later w' w'') : Enters (lines ++ later) w w'' := by
  obtain ⟨legs, hlegs, hbooked⟩ := h
  obtain ⟨legs', hlegs', hbooked'⟩ := h'
  refine ⟨legs ++ legs', ?_, hbooked.trans hbooked'⟩
  rw [List.map_append, hlegs, hlegs', List.filter_append]

theorem balance (h : Enters lines w w') (a : AccountRef) :
    w'.ledger.tables.balanceOf a = w.ledger.tables.balanceOf a +
      (if isDebitNormal a then total lines a else -total lines a) := by
  obtain ⟨legs, hlegs, hbooked⟩ := h
  rw [hbooked.balance]
  congr 1
  have hlines : total (lines.filter (·.2 ≠ 0)) a = total lines a := by
    clear hlegs
    induction lines with
    | nil => rfl
    | cons line lines ih =>
      by_cases hzero : line.2 = 0
      · rw [List.filter_cons_of_neg (by simpa using hzero), ih, total_cons, hzero, ite_self, zero_add]
      · rw [List.filter_cons_of_pos (by simpa using hzero), total_cons, total_cons, ih]
  rw [← hlines, ← hlegs]
  clear hlegs hlines hbooked
  induction legs with
  | nil => simp
  | cons leg legs ih =>
    rw [deltas_cons, total_cons, ih, List.map_cons, total_cons]
    by_cases ha : leg.account = a
    · subst ha
      simp only [if_true, Leg.delta]
      split
      · rfl
      · omega
    · simp only [if_neg ha, zero_add]

end World.Enters

structure World.Quiet (w w' : World) : Prop where
  enters : w.Enters [] w'
  sagas : w'.sagas.rows.rows = w.sagas.rows.rows
  minted : w.minted ≤ w'.minted

namespace World.Quiet

variable {w w' w'' : World}

theorem of_tables (hledger : w'.ledger.tables = w.ledger.tables)
    (hsagas : w'.sagas.rows.rows = w.sagas.rows.rows) (hminted : w.minted ≤ w'.minted) : Quiet w w' := by
  refine ⟨.nothing ?_, hsagas, hminted⟩
  rw [hledger]
  exact .refl _

theorem of_same (h : w'.ledger = w.ledger ∧ w'.sagas = w.sagas ∧ w'.minted = w.minted) : Quiet w w' := by
  obtain ⟨hledger, hsagas, hminted⟩ := h
  apply of_tables _ _ hminted.ge
  · rw [hledger]
  · rw [hsagas]

end World.Quiet

section Steps

variable {α : Type} {w w' : World} {a : α}

theorem lift_step {r : Except Fault α} (h : (Work.lift r).txn.run w = (.ok a, w')) : r = .ok a ∧ w = w' :=
  ⟨congrArg Prod.fst h, congrArg Prod.snd h⟩

theorem read_step {f : World → Except Fault α} {hf : ∀ w, f w = f w.view}
    (h : (Work.read f hf).txn.run w = (.ok a, w')) : f w = .ok a ∧ w = w' :=
  ⟨congrArg Prod.fst h, congrArg Prod.snd h⟩

theorem now_step {env : Env} {now : Int} (h : (Work.now env).txn.run w = (.ok now, w')) :
    now = env.clock w.ticks ∧ { w with ticks := w.ticks + 1 } = w' :=
  ⟨(Except.ok.inj (congrArg Prod.fst h)).symm, congrArg Prod.snd h⟩

theorem mint_step {env : Env} {kind id : String} (h : (Work.mint env kind).txn.run w = (.ok id, w')) :
    id = kind ++ "_" ++ env.uuid w.minted ∧ { w with minted := w.minted + 1 } = w' :=
  ⟨(Except.ok.inj (congrArg Prod.fst h)).symm, congrArg Prod.snd h⟩

theorem advance_step {id : String} {source target : SagaState} {patch : Saga → Saga} {advanced : Bool}
    (h : (Txn.advanceSaga id source target patch).run w = (.ok advanced, w')) :
    advanced = (w.sagas.rows.rows.get id).any (·.state = source) ∧
      { w with sagas := (SagaWrite.advance id source target patch).run w.sagas } = w' :=
  ⟨(Except.ok.inj (congrArg Prod.fst h)).symm, congrArg Prod.snd h⟩

theorem Work.WritesOnly.quiet {x : Work α} {stores : List RowStore} (hwrites : x.WritesOnly stores)
    (hsagas : .sagas ∉ stores) (hposted : postedLegs (x.trace w) = []) (h : x.txn.run w = (.ok a, w')) :
    w.Quiet w' := by
  have hspares := hwrites w
  have hbooked := x.books h
  rw [hposted] at hbooked
  rw [h] at hspares
  exact ⟨.nothing hbooked, congrArg SagaTables.rows (hspares.rows .sagas hsagas), hspares.minted⟩

theorem posted_of_calm {s : Watch} {trace : List Touch}
    (h : ∃ late, coverage.after s trace = { s with reading := late }) : postedLegs trace = [] := by
  obtain ⟨late, hafter⟩ := h
  have hposted := after_posted s trace
  rw [hafter] at hposted
  exact List.self_eq_append_right.mp hposted

theorem screen_quiet {x : Work (Option Outcome)} (hcalm : RefusesCalmly x) (hwrites : x.WritesOnly [])
    {out : Option Outcome} (h : x.txn.run w = (.ok out, w')) : w.Quiet w' :=
  hwrites.quiet List.not_mem_nil (posted_of_calm ((hcalm (.start []) w).2 h).1) h

theorem post_enters {env : Env} {posting : Posting} {transaction : Transaction}
    (h : (Work.postEntry env posting).txn.run w = (.ok transaction, w')) :
    w.Enters (posting.legs.map fun leg => (leg.account, leg.amount.minor)) w' ∧
      w'.sagas = w.sagas ∧ w'.minted = w.minted := by
  have hbooked := (Work.postEntry env posting).books h
  have hlegs : postedLegs ((Work.postEntry env posting).trace w) = (dropZeroLegs posting).legs :=
    List.append_nil _
  rw [hlegs] at hbooked
  refine ⟨⟨_, ?_, hbooked⟩, ?_, ?_⟩
  · rw [List.filter_map]
    rfl
  · exact (congrArg (fun r => r.2.sagas) h).symm
  · exact (congrArg (fun r => r.2.minted) h).symm

end Steps

section Rows

variable {j : Journaled SagaTables}

theorem bumpLast_rows (userId : String) (updatedAt : Int) (j : Journaled SagaTables) :
    (SagaTables.bumpLast userId updatedAt j).rows.rows = j.rows.rows := by
  simp only [SagaTables.bumpLast]
  split
  · exact Eq.refl _
  · exact Eq.refl _

theorem start_rows (saga : Saga) :
    ((SagaWrite.start saga).run j).rows.rows = j.rows.rows.set saga.id saga :=
  bumpLast_rows _ _ _

theorem advance_rows {id : String} {row : Saga} (hget : j.rows.rows.get id = some row) (target : SagaState)
    (patch : Saga → Saga) :
    ((SagaWrite.advance id row.state target patch).run j).rows.rows =
      j.rows.rows.set id { patch row with state := target } := by
  simp only [SagaWrite.run, hget, if_true]
  exact bumpLast_rows _ _ _

theorem advance_rows_of_ne {id : String} {source : SagaState}
    (hstate : (j.rows.rows.get id).any (·.state = source) = false) (target : SagaState)
    (patch : Saga → Saga) :
    ((SagaWrite.advance id source target patch).run j).rows.rows = j.rows.rows := by
  simp only [SagaWrite.run]
  cases hget : j.rows.rows.get id with
  | none => exact Eq.refl _
  | some row =>
    rw [hget, Option.any_some, decide_eq_false_iff_not] at hstate
    simp only [if_neg hstate]

end Rows

/-- What a payout's row never changes. -/
structure Saga.SameClaim (saga saga' : Saga) : Prop where
  id : saga'.id = saga.id
  userId : saga'.userId = saga.userId
  reserve : saga'.reserve = saga.reserve
  rateId : saga'.rateId = saga.rateId
  txnId : saga'.txnId = saga.txnId
  payoutUsd : saga'.payoutUsd = saga.payoutUsd

namespace Saga.SameClaim

variable {saga saga' saga'' : Saga}

theorem refl (saga : Saga) : saga.SameClaim saga :=
  ⟨Eq.refl _, Eq.refl _, Eq.refl _, Eq.refl _, Eq.refl _, Eq.refl _⟩

theorem trans (h : saga.SameClaim saga') (h' : saga'.SameClaim saga'') : saga.SameClaim saga'' :=
  ⟨h'.id.trans h.id, h'.userId.trans h.userId, h'.reserve.trans h.reserve, h'.rateId.trans h.rateId,
    h'.txnId.trans h.txnId, h'.payoutUsd.trans h.payoutUsd⟩

end Saga.SameClaim

/-! ## Moves -/

def reserveShard (config : Config) (saga : Saga) : AccountRef :=
  platformShard SYSTEM.PAYOUT_RESERVE saga.userId config.platformShards

def openLines (config : Config) (saga : Saga) : List (AccountRef × Int) :=
  [(earned saga.userId, saga.reserve.minor), (reserveShard config saga, -saga.reserve.minor)]

def returnLines (config : Config) (saga : Saga) : List (AccountRef × Int) :=
  [(reserveShard config saga, saga.reserve.minor), (earned saga.userId, -saga.reserve.minor)]

def settleLines (config : Config) (saga : Saga) (usd : Amount) : List (AccountRef × Int) :=
  [(reserveShard config saga, saga.reserve.minor), (SYSTEM.REVENUE, -saga.reserve.minor)] ++
    [(SYSTEM.USD_CLEARING, usd.minor), (SYSTEM.TRUST_CASH, -usd.minor)]

inductive SagaState.Forward (answered : Prop) : SagaState → SagaState → Prop
  | stays (state : SagaState) (h : state.claimable = true) : Forward answered state state
  | submits (h : answered) : Forward answered .reserved .submitted

/-- What one step does to the payouts and to the reserve: one payout is opened, goes forward, gives its
reserve back or settles; or none moves, and no shard of the reserve does. -/
inductive SagaMove (env : Env) (config : Config) (answered : String → Prop) (w w' : World) : Prop
  | sits (hrows : w'.sagas.rows.rows = w.sagas.rows.rows)
      (hreserve : ∀ a ∈ shardsOf SYSTEM.PAYOUT_RESERVE config.platformShards,
        w'.ledger.tables.balanceOf a = w.ledger.tables.balanceOf a)
  | opens (saga : Saga) (n : Nat) (hold : w.minted ≤ n) (hnew : n < w'.minted)
      (hid : saga.id = "pay" ++ "_" ++ env.uuid n) (hstate : saga.state = .reserved)
      (hpos : 0 < saga.reserve.minor)
      (hrows : w'.sagas.rows.rows = w.sagas.rows.rows.set saga.id saga)
      (henters : w.Enters (openLines config saga) w')
  | amends (saga saga' : Saga) (hget : w.sagas.rows.rows.get saga.id = some saga)
    (hsame : saga.SameClaim saga')
      (hstate : saga.state.Forward (answered saga.id) saga'.state) (hrows : w'.sagas.rows.rows =
        w.sagas.rows.rows.set saga.id saga')
      (henters : w.Enters [] w')
  | returns (saga saga' : Saga) (hget : w.sagas.rows.rows.get saga.id = some saga)
    (hsame : saga.SameClaim saga')
      (hopen : saga.state.claimable = true) (hstate : saga'.state = .failed)
      (hrows : w'.sagas.rows.rows = w.sagas.rows.rows.set saga.id saga')
      (henters : w.Enters (returnLines config saga) w')
  | settles (saga saga' : Saga) (usd : Amount) (hget : w.sagas.rows.rows.get saga.id = some saga)
      (hsame : saga.SameClaim saga') (hopen : saga.state = .submitted) (hstate : saga'.state = .settled)
      (husd : saga.payoutUsd = some usd) (hrows : w'.sagas.rows.rows = w.sagas.rows.rows.set saga.id saga')
      (henters : w.Enters (settleLines config saga usd) w')

namespace SagaMove

variable {env : Env} {config : Config} {answered : String → Prop} {w w' w'' : World}

theorem of_quiet (h : w.Quiet w') : SagaMove env config answered w w' := by
  apply sits h.sagas
  intro a _
  have hbalance := h.enters.balance a
  simpa using hbalance

theorem after_quiet (h : w.Quiet w') (hmove : SagaMove env config answered w' w'') :
    SagaMove env config answered w w'' := by
  cases hmove with
  | sits hrows hreserve =>
    apply sits (hrows.trans h.sagas)
    intro a ha
    have hbalance := h.enters.balance a
    rw [hreserve a ha]
    simpa using hbalance
  | opens saga n hold hnew hid hstate hpos hrows henters =>
    exact opens saga n (h.minted.trans hold) hnew hid hstate hpos (h.sagas ▸ hrows)
      (h.enters.trans henters)
  | amends saga saga' hget hsame hstate hrows henters =>
    exact amends saga saga' (h.sagas ▸ hget) hsame hstate (h.sagas ▸ hrows) (h.enters.trans henters)
  | returns saga saga' hget hsame hopen hstate hrows henters =>
    exact returns saga saga' (h.sagas ▸ hget) hsame hopen hstate (h.sagas ▸ hrows) (h.enters.trans henters)
  | settles saga saga' usd hget hsame hopen hstate husd hrows henters =>
    exact settles saga saga' usd (h.sagas ▸ hget) hsame hopen hstate husd (h.sagas ▸ hrows)
      (h.enters.trans henters)

theorem before_quiet (hmove : SagaMove env config answered w w') (h : w'.Quiet w'') :
    SagaMove env config answered w w'' := by
  have hmore : ∀ {lines}, w.Enters lines w' → w.Enters lines w'' := by
    intro lines henters
    have hboth := henters.trans h.enters
    rwa [List.append_nil] at hboth
  cases hmove with
  | sits hrows hreserve =>
    apply sits (h.sagas.trans hrows)
    intro a ha
    have hbalance := h.enters.balance a
    rw [← hreserve a ha]
    simpa using hbalance
  | opens saga n hold hnew hid hstate hpos hrows henters =>
    exact opens saga n hold (hnew.trans_le h.minted) hid hstate hpos (h.sagas.trans hrows) (hmore henters)
  | amends saga saga' hget hsame hstate hrows henters =>
    exact amends saga saga' hget hsame hstate (h.sagas.trans hrows) (hmore henters)
  | returns saga saga' hget hsame hopen hstate hrows henters =>
    exact returns saga saga' hget hsame hopen hstate (h.sagas.trans hrows) (hmore henters)
  | settles saga saga' usd hget hsame hopen hstate husd hrows henters =>
    exact settles saga saga' usd hget hsame hopen hstate husd (h.sagas.trans hrows) (hmore henters)

end SagaMove

section Handlers

variable {env : Env} {config : Config} {answered : String → Prop} {w w' : World}
  {transaction : Transaction}

variable {saga : Saga} {outcome : Outcome} {legs : List Leg}

theorem payoutReserveLegs_lines (h : payoutReserveLegs saga.userId saga.reserve = .ok legs) :
    ((routePlatformLegs legs saga.userId config.platformShards).map fun leg =>
      (leg.account, leg.amount.minor)) =
      openLines config saga := by
  obtain ⟨line, hline, h⟩ := except_bind_ok.mp h
  obtain rfl := except_pure_ok.mp h
  obtain ⟨haccount, hminor⟩ := credit_ok hline
  have hearned : platformShard (earned saga.userId) saga.userId config.platformShards =
    earned saga.userId :=
    platformShard_wallet _ _ _ _
  simp only [routePlatformLegs_eq, List.map_cons, List.map_nil, debit, hearned, haccount, hminor]
  rfl

theorem reserveAndOpen_opens {o : RequestPayoutOperation} {amount payoutUsd : Amount} {rateId : String}
    (hpos : 0 < amount.minor)
    (h : (reserveAndOpen env config o amount rateId payoutUsd).txn.run w = (.ok outcome, w')) :
    SagaMove env config answered w w' := by
  obtain ⟨sagaId, w₁, hmint, h⟩ := Txn.bind_ok h
  obtain ⟨hid, rfl⟩ := mint_step hmint
  obtain ⟨txnId, w₁, htxn, h⟩ := Txn.bind_ok h
  obtain ⟨-, rfl⟩ := mint_step htxn
  obtain ⟨legs, w₁, hlift, h⟩ := Txn.bind_ok h
  obtain ⟨hlegs, rfl⟩ := lift_step hlift
  obtain ⟨posted, w₁, hposted, h⟩ := Txn.bind_ok h
  obtain ⟨henters, hsagas, hminted⟩ := post_enters hposted
  obtain ⟨now, w₂, hnow, h⟩ := Txn.bind_ok h
  obtain ⟨-, rfl⟩ := now_step hnow
  obtain ⟨_, w₂, hopen, h⟩ := Txn.bind_ok h
  obtain rfl := congrArg Prod.snd hopen
  cases h
  have hopens : ∀ saga : Saga, saga.id = sagaId → saga.userId = o.userId → saga.reserve = amount →
      saga.state = .reserved →
      SagaMove env config answered w
      { w₁ with ticks := w₁.ticks + 1, sagas := (SagaWrite.start saga).run w₁.sagas } := by
    rintro saga rfl huser rfl hstate
    rw [← huser] at hlegs henters
    refine .opens saga w.minted (Nat.le_refl _) ?_ hid hstate hpos ?_ ?_
    · have hlt : w.minted < w.minted + 1 + 1 := by omega
      exact hminted ▸ hlt
    · rw [start_rows, hsagas]
    · rw [← payoutReserveLegs_lines hlegs]
      exact henters
  exact hopens _ (Eq.refl _) (Eq.refl _) (Eq.refl _) (Eq.refl _)

theorem requestPayout_opens {rates : Rates} {payees : Option PayeeDirectory} {o : RequestPayoutOperation}
    (h : (requestPayout env config rates payees o).txn.run w = (.ok outcome, w')) :
    SagaMove env config answered w w' := by
  obtain ⟨amount, w₁, hlift, h⟩ := Txn.bind_ok h
  obtain ⟨hamount, rfl⟩ := lift_step hlift
  have hpos : 0 < amount.minor := by
    unfold payableCredit at hamount
    split at hamount
    · cases hamount
    · split at hamount
      · cases hamount
      · rename_i hpos
        cases hamount
        omega
  obtain ⟨refused, w₁, hscreen, h⟩ := Txn.bind_ok h
  have hquiet := screen_quiet (screenRequest_screens env config payees _ _)
    (screenRequest_writesOnly env config payees _ _) hscreen
  cases refused with
  | some refused =>
    cases h
    exact .of_quiet hquiet
  | none =>
    apply SagaMove.after_quiet hquiet
    obtain ⟨refused, w₂, hscreen, h⟩ := Txn.bind_ok h
    have hquiet := screen_quiet (screenEarned_screens env config _ _)
      (screenEarned_writesOnly env config _ _) hscreen
    cases refused with
    | some refused =>
      cases h
      exact .of_quiet hquiet
    | none =>
      apply SagaMove.after_quiet hquiet
      obtain ⟨now, w₃, hnow, h⟩ := Txn.bind_ok h
      obtain ⟨-, rfl⟩ := now_step hnow
      obtain ⟨payoutUsd, w₃, hquote, h⟩ := Txn.bind_ok h
      obtain ⟨-, rfl⟩ := lift_step hquote
      have htick : w₂.Quiet { w₂ with ticks := w₂.ticks + 1 } := .of_same ⟨Eq.refl _, Eq.refl _, Eq.refl _⟩
      have hmove : SagaMove env config answered _ _ := reserveAndOpen_opens hpos h
      exact .after_quiet htick hmove

/-! ### Returns -/

theorem deadLetterLegs_lines (h : deadLetterLegs config saga = .ok legs) :
    (legs.map fun leg => (leg.account, leg.amount.minor)) = returnLines config saga := by
  obtain ⟨line, hline, h⟩ := except_bind_ok.mp h
  obtain rfl := except_pure_ok.mp h
  obtain ⟨haccount, hminor⟩ := credit_ok hline
  simp only [List.map_cons, List.map_nil, debit, haccount, hminor]
  rfl

theorem undoLegs_lines (h : undoLegs saga = .ok legs) :
    ((routePlatformLegs legs saga.userId config.platformShards).map fun leg =>
      (leg.account, leg.amount.minor)) =
      returnLines config saga := by
  obtain ⟨line, hline, h⟩ := except_bind_ok.mp h
  obtain rfl := except_pure_ok.mp h
  obtain ⟨haccount, hminor⟩ := credit_ok hline
  have hearned : platformShard (earned saga.userId) saga.userId config.platformShards =
    earned saga.userId :=
    platformShard_wallet _ _ _ _
  simp only [routePlatformLegs_eq, List.map_cons, List.map_nil, debit, hearned, haccount, hminor]
  rfl

def SagaTables.Keyed (t : SagaTables) : Prop := ∀ id saga, t.rows.get id = some saga → saga.id = id

/-- The row that is stored under the payout's id is this payout's. -/
def SagaTables.Knows (t : SagaTables) (saga : Saga) : Prop :=
  ∃ row, t.rows.get saga.id = some row ∧ saga.SameClaim row

theorem SagaTables.Keyed.knows {t : SagaTables} (h : t.Keyed) {id : String}
    (hget : t.rows.get id = some saga) : t.Knows saga := by
  obtain rfl := h id saga hget
  exact ⟨saga, hget, .refl saga⟩

/-- The row fails and the reserve it names is entered for the seller. -/
theorem returns_of_failed {patch : Saga → Saga} {w₁ : World}
    (hknows : w.sagas.rows.Knows saga) (hopen : saga.state.claimable = true)
    (hadvanced : (w.sagas.rows.rows.get saga.id).any (·.state = saga.state) = true)
    (hpatch : ∀ row : Saga, row.SameClaim (patch row))
    (hsagas : w₁.sagas = (SagaWrite.advance saga.id saga.state .failed patch).run w.sagas)
    (henters : w.Enters (returnLines config saga) w₁) : SagaMove env config answered w w₁ := by
  obtain ⟨row, hget, hsame⟩ := hknows
  have hstate : row.state = saga.state := by
    rw [hget, Option.any_some] at hadvanced
    exact of_decide_eq_true hadvanced
  have hlines : returnLines config row = returnLines config saga := by
    simp only [returnLines, reserveShard, hsame.userId, hsame.reserve]
  rw [← hlines] at henters
  have hrows := advance_rows (j := w.sagas) hget .failed patch
  rw [hstate, ← hsagas] at hrows
  have hpatched := hpatch row
  refine .returns row { patch row with state := .failed } (hsame.id ▸ hget) ?_ (hstate ▸ hopen) (Eq.refl _)
    (hsame.id ▸ hrows) henters
  exact ⟨hpatched.id, hpatched.userId, hpatched.reserve, hpatched.rateId, hpatched.txnId,
    hpatched.payoutUsd⟩

theorem undoPayout_returns {o : ReversePayoutOperation}
    (hknows : w.sagas.rows.Knows saga) (hopen : saga.state.claimable = true)
    (huser : o.userId = saga.userId) (h : (undoPayout env config o saga).txn.run w = (.ok outcome, w')) :
    SagaMove env config answered w w' := by
  obtain ⟨updatedAt, w₁, hnow, h⟩ := Txn.bind_ok h
  obtain ⟨-, rfl⟩ := now_step hnow
  obtain ⟨advanced, w₁, hadvance, h⟩ := Txn.bind_ok h
  obtain ⟨hadvanced, rfl⟩ := advance_step hadvance
  cases advanced with
  | false =>
    cases h
    apply SagaMove.of_quiet
    exact ⟨.refl w, advance_rows_of_ne hadvanced.symm _ _, Nat.le_refl _⟩
  | true =>
    obtain ⟨usd, w₁, hread, h⟩ := Txn.bind_ok h
    obtain ⟨-, rfl⟩ := read_step hread
    obtain ⟨txnId, w₁, hmint, h⟩ := Txn.bind_ok h
    obtain ⟨-, rfl⟩ := mint_step hmint
    obtain ⟨legs, w₁, hlift, h⟩ := Txn.bind_ok h
    obtain ⟨hlegs, rfl⟩ := lift_step hlift
    obtain ⟨posted, w₁, hposted, h⟩ := Txn.bind_ok h
    obtain ⟨henters, hsagas, hminted⟩ := post_enters hposted
    cases h
    simp only [huser, undoLegs_lines hlegs] at henters
    refine returns_of_failed hknows hopen hadvanced.symm ?_ hsagas henters
    exact fun row => ⟨Eq.refl _, Eq.refl _, Eq.refl _, Eq.refl _, Eq.refl _, Eq.refl _⟩

theorem reversePayout_returns {o : ReversePayoutOperation}
    (hkeyed : w.sagas.rows.Keyed) (h : (reversePayout env config o).txn.run w = (.ok outcome, w')) :
    SagaMove env config answered w w' := by
  obtain ⟨_, w₁, hlift, h⟩ := Txn.bind_ok h
  obtain ⟨-, rfl⟩ := lift_step hlift
  obtain ⟨saga, w₁, hload, h⟩ := Txn.bind_ok h
  obtain ⟨hloaded, rfl⟩ := read_step hload
  obtain ⟨_, w₁, hlift, h⟩ := Txn.bind_ok h
  obtain ⟨hmatch, rfl⟩ := lift_step hlift
  obtain ⟨_, w₁, hlift, h⟩ := Txn.bind_ok h
  obtain ⟨-, rfl⟩ := lift_step hlift
  obtain ⟨_, w₁, hlive, h⟩ := Txn.bind_ok h
  have huser : o.userId = saga.userId := by
    unfold assertUserMatchesSaga at hmatch
    split at hmatch
    · assumption
    · cases hmatch
  have hknows : w.sagas.rows.Knows saga := by
    split at hloaded
    · cases hloaded
    · rename_i hget
      cases hloaded
      exact hkeyed.knows hget
  have hquiet : w.Quiet w₁ ∧ w₁.sagas = w.sagas := by
    unfold refuseLiveSubmitted at hlive
    split at hlive
    · cases hlive
      exact ⟨.of_same ⟨Eq.refl _, Eq.refl _, Eq.refl _⟩, Eq.refl _⟩
    · obtain ⟨now, w₂, hnow, hlive⟩ := Txn.bind_ok hlive
      obtain ⟨-, rfl⟩ := now_step hnow
      obtain ⟨-, rfl⟩ := lift_step hlive
      exact ⟨.of_same ⟨Eq.refl _, Eq.refl _, Eq.refl _⟩, Eq.refl _⟩
  apply SagaMove.after_quiet hquiet.1
  rw [← hquiet.2] at hknows
  by_cases hclosed : saga.state ≠ .reserved ∧ saga.state ≠ .submitted
  · rw [if_pos hclosed] at h
    cases h
    exact .of_quiet (.of_same ⟨Eq.refl _, Eq.refl _, Eq.refl _⟩)
  · rw [if_neg hclosed] at h
    have hopen : saga.state.claimable = true := by
      revert hclosed
      cases saga.state <;> simp [SagaState.claimable]
    exact undoPayout_returns hknows hopen huser h

theorem emit_quiet (env : Env) (draft : Txn.EventDraft) (w : World) :
    w.Quiet ((Work.emit env draft).txn.run w).2 := by
  have hle : w.minted ≤ w.minted + 1 + 1 := by omega
  exact ⟨.nothing (.refl _), Eq.refl _, hle⟩

theorem deadLetter_returns {reason : String} {done : Bool} (hknows : w.sagas.rows.Knows saga)
    (hopen : saga.state.claimable = true)
    (h : (deadLetter env config saga reason).txn.run w = (.ok done, w')) :
    SagaMove env config answered w w' := by
  obtain ⟨usd, w₁, hread, h⟩ := Txn.bind_ok h
  obtain ⟨-, rfl⟩ := read_step hread
  obtain ⟨_, w₁, hlock, h⟩ := Txn.bind_ok h
  obtain rfl : w = w₁ := congrArg Prod.snd hlock
  obtain ⟨updatedAt, w₁, hnow, h⟩ := Txn.bind_ok h
  obtain ⟨-, rfl⟩ := now_step hnow
  obtain ⟨advanced, w₁, hadvance, h⟩ := Txn.bind_ok h
  obtain ⟨hadvanced, rfl⟩ := advance_step hadvance
  cases advanced with
  | false =>
    cases h
    apply SagaMove.of_quiet
    exact ⟨.refl w, advance_rows_of_ne hadvanced.symm _ _, Nat.le_refl _⟩
  | true =>
    obtain ⟨txnId, w₁, hmint, h⟩ := Txn.bind_ok h
    obtain ⟨-, rfl⟩ := mint_step hmint
    obtain ⟨legs, w₁, hlift, h⟩ := Txn.bind_ok h
    obtain ⟨hlegs, rfl⟩ := lift_step hlift
    obtain ⟨posted, w₁, hposted, h⟩ := Txn.bind_ok h
    obtain ⟨henters, hsagas, hminted⟩ := post_enters hposted
    obtain ⟨_, w₂, hemit, h⟩ := Txn.bind_ok h
    have hquiet : w₁.Quiet w₂ := by
      have hemitted := emit_quiet env (reversedEvent saga reason) w₁
      rwa [hemit] at hemitted
    cases h
    rw [deadLetterLegs_lines hlegs] at henters
    refine SagaMove.before_quiet (returns_of_failed hknows hopen hadvanced.symm ?_ hsagas henters) hquiet
    exact fun row => ⟨Eq.refl _, Eq.refl _, Eq.refl _, Eq.refl _, Eq.refl _, Eq.refl _⟩

theorem clearLegs_lines {reserveRef : AccountRef} {reserve : Amount}
    (h : clearLegs reserveRef reserve = .ok legs) :
    (legs.map fun leg => (leg.account, leg.amount.minor)) =
      [(reserveRef, reserve.minor), (SYSTEM.REVENUE, -reserve.minor)] := by
  obtain ⟨line, hline, h⟩ := except_bind_ok.mp h
  obtain rfl := except_pure_ok.mp h
  obtain ⟨haccount, hminor⟩ := credit_ok hline
  simp only [List.map_cons, List.map_nil, debit, haccount, hminor]

theorem disburseLegs_lines {usd : Amount} (h : disburseLegs usd = .ok legs) :
    (legs.map fun leg => (leg.account, leg.amount.minor)) =
      [(SYSTEM.USD_CLEARING, usd.minor), (SYSTEM.TRUST_CASH, -usd.minor)] := by
  obtain ⟨line, hline, h⟩ := except_bind_ok.mp h
  obtain rfl := except_pure_ok.mp h
  obtain ⟨haccount, hminor⟩ := credit_ok hline
  simp only [List.map_cons, List.map_nil, debit, haccount, hminor]

theorem postSettlementEntries_enters {usd fee net : Amount}
    (h : (postSettlementEntries env config saga usd fee net).txn.run w = (.ok transaction, w')) :
    w.Enters (settleLines config saga usd) w' ∧ w'.sagas = w.sagas ∧ w.minted ≤ w'.minted := by
  obtain ⟨_, w₁, hlock, h⟩ := Txn.bind_ok h
  have hlocked : w = w₁ := by
    unfold lockReserve at hlock
    split at hlock
    · exact congrArg Prod.snd hlock
    · exact congrArg Prod.snd hlock
  subst hlocked
  obtain ⟨clearId, w₂, hmint, h⟩ := Txn.bind_ok h
  obtain ⟨-, rfl⟩ := mint_step hmint
  obtain ⟨cleared, w₂, hlift, h⟩ := Txn.bind_ok h
  obtain ⟨hcleared, rfl⟩ := lift_step hlift
  obtain ⟨cashId, w₂, hmint, h⟩ := Txn.bind_ok h
  obtain ⟨-, rfl⟩ := mint_step hmint
  obtain ⟨disbursed, w₂, hlift, h⟩ := Txn.bind_ok h
  obtain ⟨hdisbursed, rfl⟩ := lift_step hlift
  obtain ⟨posted, w₂, hposted, h⟩ := Txn.bind_ok h
  obtain ⟨hclear, hsagas, hminted⟩ := post_enters hposted
  obtain ⟨paid, w₃, hpaid, h⟩ := Txn.bind_ok h
  obtain ⟨hpay, hsagas', hminted'⟩ := post_enters hpaid
  cases h
  simp only [clearLegs_lines hcleared] at hclear
  simp only [disburseLegs_lines hdisbursed] at hpay
  refine ⟨hclear.trans hpay, hsagas'.trans hsagas, ?_⟩
  have hle : w.minted ≤ w.minted + 1 + 1 := by omega
  exact hle.trans (hminted'.trans hminted).ge

theorem assertSagaAnchored_quote {t : LedgerTables} {usd : Amount}
    (h : assertSagaAnchored env.digest t saga = .ok usd) : saga.payoutUsd = some usd := by
  obtain ⟨posting, -, h⟩ := except_bind_ok.mp h
  split at h
  · rename_i payoutUsd _ hquote
    split at h
    · cases h
      exact hquote
    · cases h
  · cases h

theorem settlePayout_settles {o : SettlePayoutOperation} (hkeyed : w.sagas.rows.Keyed)
    (h : (settlePayout env config o).txn.run w = (.ok outcome, w')) :
    SagaMove env config answered w w' := by
  obtain ⟨saga, w₁, hload, h⟩ := Txn.bind_ok h
  obtain ⟨hloaded, rfl⟩ := read_step hload
  have hget : w.sagas.rows.rows.get saga.id = some saga := by
    split at hloaded
    · cases hloaded
    · rename_i hget
      cases hloaded
      rw [hkeyed _ _ hget]
      exact hget
  beta_reduce at h
  by_cases hsettled : saga.state = .settled
  · rw [if_pos hsettled] at h
    cases h
    exact .of_quiet (.of_same ⟨Eq.refl _, Eq.refl _, Eq.refl _⟩)
  · rw [if_neg hsettled] at h
    obtain ⟨_, w₁, hlift, h⟩ := Txn.bind_ok h
    obtain ⟨hrefuse, rfl⟩ := lift_step hlift
    have hstate : saga.state = .submitted := by
      unfold refuseNotSubmitted at hrefuse
      split at hrefuse
      · assumption
      · cases hrefuse
    obtain ⟨usd, w₁, hread, h⟩ := Txn.bind_ok h
    obtain ⟨hanchored, rfl⟩ := read_step hread
    obtain ⟨fee, w₁, hlift, h⟩ := Txn.bind_ok h
    obtain ⟨-, rfl⟩ := lift_step hlift
    obtain ⟨net, w₁, hlift, h⟩ := Txn.bind_ok h
    obtain ⟨-, rfl⟩ := lift_step hlift
    obtain ⟨posted, w₁, hposted, h⟩ := Txn.bind_ok h
    obtain ⟨henters, hsagas, hminted⟩ := postSettlementEntries_enters hposted
    obtain ⟨updatedAt, w₂, hnow, h⟩ := Txn.bind_ok h
    obtain ⟨-, rfl⟩ := now_step hnow
    obtain ⟨advanced, w₂, hadvance, h⟩ := Txn.bind_ok h
    obtain ⟨hadvanced, rfl⟩ := advance_step hadvance
    obtain ⟨_, w₂, hlift, h⟩ := Txn.bind_ok h
    obtain ⟨hasserted, rfl⟩ := lift_step hlift
    obtain ⟨_, w₂, hemit, h⟩ := Txn.bind_ok h
    cases h
    have hquote := assertSagaAnchored_quote hanchored
    have hsettles : SagaMove env config answered w
        { w₁ with
          ticks := w₁.ticks + 1
          sagas := (SagaWrite.advance saga.id .submitted .settled fun saga =>
            { saga with updatedAt, payoutUsd := some usd }).run w₁.sagas } := by
      have hrows := advance_rows (j := w₁.sagas) (hsagas ▸ hget) .settled fun saga =>
        { saga with updatedAt, payoutUsd := some usd }
      rw [hstate] at hrows
      refine .settles saga { saga with updatedAt, payoutUsd := some usd, state := .settled } usd
        hget ?_ hstate
        (Eq.refl _) hquote ?_ henters
      · exact ⟨Eq.refl _, Eq.refl _, Eq.refl _, Eq.refl _, Eq.refl _, hquote.symm⟩
      · exact hrows.trans (congrArg (fun j => OrderedTable.set j.rows.rows _ _) hsagas)
    apply hsettles.before_quiet
    have hemitted := emit_quiet env (settledEvent saga usd fee net)
      { w₁ with ticks := w₁.ticks + 1, sagas := (SagaWrite.advance saga.id .submitted .settled fun saga =>
          { saga with updatedAt, payoutUsd := some usd }).run w₁.sagas }
    rwa [hemit] at hemitted

theorem amends_of_advanced {source target : SagaState} {patch : Saga → Saga} {w₁ : World}
    (hknows : w.sagas.rows.Knows saga) (hforward : source.Forward (answered saga.id) target)
    (hsagas : w₁.sagas = (SagaWrite.advance saga.id source target patch).run w.sagas)
    (hledger : w₁.ledger = w.ledger) (hminted : w₁.minted = w.minted)
    (hpatch : ∀ row : Saga, row.SameClaim (patch row)) : SagaMove env config answered w w₁ := by
  obtain ⟨row, hget, hsame⟩ := hknows
  have henters : w.Enters [] w₁ := .nothing (hledger ▸ .refl _)
  by_cases hstate : row.state = source
  · have hrows := advance_rows (j := w.sagas) hget target patch
    rw [hstate, ← hsagas] at hrows
    have hpatched := hpatch row
    rw [← hstate, ← hsame.id] at hforward
    refine .amends row { patch row with state := target } (hsame.id ▸ hget) ?_ hforward
      (hsame.id ▸ hrows) henters
    exact ⟨hpatched.id, hpatched.userId, hpatched.reserve, hpatched.rateId, hpatched.txnId,
      hpatched.payoutUsd⟩
  · have hnot : (w.sagas.rows.rows.get saga.id).any (·.state = source) = false := by
      rw [hget, Option.any_some]
      exact decide_eq_false hstate
    apply SagaMove.of_quiet
    refine ⟨henters, ?_, hminted.ge⟩
    rw [hsagas]
    exact advance_rows_of_ne hnot target patch

theorem bumpAttempt_amends (hknows : w.sagas.rows.Knows saga) (hopen : saga.state.claimable = true) :
    SagaMove env config answered w ((bumpAttempt env saga).run w).2 := by
  refine amends_of_advanced hknows (.stays _ hopen) (Eq.refl _) ?_ ?_ ?_
  · exact Eq.refl _
  · exact Eq.refl _
  · exact fun row => ⟨Eq.refl _, Eq.refl _, Eq.refl _, Eq.refl _, Eq.refl _, Eq.refl _⟩

theorem recheckLater_amends (hknows : w.sagas.rows.Knows saga) (updatedAt : Option Int) :
    SagaMove env config answered w ((recheckLater env config saga updatedAt).run w).2 := by
  refine amends_of_advanced hknows (.stays .submitted (Eq.refl _)) (Eq.refl _) ?_ ?_ ?_
  · exact Eq.refl _
  · exact Eq.refl _
  · exact fun row => ⟨Eq.refl _, Eq.refl _, Eq.refl _, Eq.refl _, Eq.refl _, Eq.refl _⟩

theorem recordSubmitted_amends (hknows : w.sagas.rows.Knows saga)
    (hanswered : answered saga.id) (providerRef : String) :
    SagaMove env config answered w ((recordSubmitted env config saga providerRef).run w).2 := by
  refine amends_of_advanced hknows (.submits hanswered) (Eq.refl _) ?_ ?_ ?_
  · exact Eq.refl _
  · exact Eq.refl _
  · exact fun row => ⟨Eq.refl _, Eq.refl _, Eq.refl _, Eq.refl _, Eq.refl _, Eq.refl _⟩

end Handlers

end EconomyLab
