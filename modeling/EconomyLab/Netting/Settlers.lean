import EconomyLab.Netting.Sessions

/-!
# Settlers of one session

Any number of session objects settle one journaled session: the live one and those that
recovered it. Each takes its settlement one store transaction or registry add at a time,
may be stopped between any two, and may meet a store that fails.
-/

namespace EconomyLab

open Foundation

/-! ## One settler -/

inductive Phase
  | idle
  | netting (rest : List (Chunk × Nat)) (posted : List Nat)
  | compensating (todo : List Nat)
  | replaying (rest : List Movement) (postings : Nat) (rejected : List (String × Reason))
  | claiming (report : SettleReport)
  | releasing (rest : List (AccountRef × Int)) (report : SettleReport)

/-- A session object with the movements its settlement read. -/
structure Settler where
  session : InstanceSession
  movements : List Movement
  phase : Phase

inductive Fate
  | proceed
  | storeError
deriving DecidableEq, Repr

def storeFault : Fault := ⟨some .storeFailure, "The store failed.", true⟩

namespace Settler

def head (t : Settler) : String := headAfter GENESIS_HEX t.movements

def chunks (t : Settler) : List Chunk := t.session.chunks t.movements

def shape (t : Settler) : Shape := ⟨t.chunks.length, t.movements.length, t.head⟩

def at_ (t : Settler) (phase : Phase) : Settler := { t with phase := phase }

/-- `settled` is set, and the report goes to the caller. -/
def finish (t : Settler) : Settler :=
  { t with session := { t.session with settled := true }, phase := .idle }

/-- The way into `releaseReservations`. -/
def release (t : Settler) (report : SettleReport) : Settler × Option SettleReport :=
  if t.session.released then (t.finish, some report)
  else
    match t.session.scope with
    | .process => (t.at_ (.releasing (walletDeltas t.session.accepted) report), none)
    | .shared => (t.at_ (.claiming report), none)

def released (t : Settler) (report : SettleReport) : Settler × Option SettleReport :=
  ({ t with session := { t.session with released := true } }.finish, some report)

/-- `settle()` is called: the batch is flushed, the journal is read and the way is chosen. -/
def call (env : Env) (t : Settler) (w : World) : (Settler × Option SettleReport) × World :=
  match flush t.session w with
  | (.error _, s, w) => (({ t with session := s }, none), w)
  | (.ok (), s, w) =>
    match journal env s.sessionId w with
    | .error _ => (({ t with session := s }, none), w)
    | .ok movements =>
      if movements = [] then (({ t with session := s }, some ⟨.netted, 0, [], GENESIS_HEX, 0⟩), w)
      else if s.replayForced then
        (({ session := { s with settled := true }
            movements := movements
            phase := .replaying movements 0 [] }, none), w)
      else
        (({ session := s
            movements := movements
            phase := .netting (s.chunks movements).zipIdx [] }, none), w)

/-- A store transaction under a fate. -/
def attempt {α : Type} (fate : Fate) (work : World → Except Fault α × World) (w : World) :
    Except Fault α × World :=
  match fate with
  | .proceed => work w
  | .storeError => (.error storeFault, w)

/-- One atomic step of a running settlement; an error outside the `try` blocks throws. -/
def advance (env : Env) (fate : Fate) (t : Settler) (w : World) :
    (Settler × Option SettleReport) × World :=
  match t.phase with
  | .idle => ((t, none), w)
  | .netting ((chunk, index) :: rest) posted =>
    match attempt fate (postChunk env t.session.sessionId t.shape chunk index false) w with
    | (.error _, w) => ((t.at_ (.compensating posted.reverse), none), w)
    | (.ok (), w) => ((t.at_ (.netting rest (posted ++ [index])), none), w)
  | .netting [] _ => (t.release ⟨.netted, t.chunks.length, [], t.head, t.movements.length⟩, w)
  | .compensating (index :: todo) =>
    match attempt fate
      (postChunk env t.session.sessionId t.shape (t.chunks.getD index []) index true) w with
    | (.error _, w) => ((t.at_ .idle, none), w)
    | (.ok (), w) => ((t.at_ (.compensating todo), none), w)
  | .compensating [] =>
    (({ t with
        session := { t.session with settled := true }
        phase := .replaying t.movements 0 [] }, none), w)
  | .replaying (m :: rest) postings rejected =>
    match attempt fate (transaction (postOnce env (replayPosting t.session.sessionId t.head m))) w with
    | (.ok (), w) => ((t.at_ (.replaying rest (postings + 1) rejected), none), w)
    | (.error e, w) =>
      (({ t with
          session := t.session.remember m.idempotencyKey (.rejected (reasonOf e))
          phase := .replaying rest postings (rejected ++ [(m.idempotencyKey, reasonOf e)]) }, none), w)
  | .replaying [] postings rejected =>
    (t.release ⟨.replayed, postings, rejected, t.head, t.movements.length⟩, w)
  | .claiming report =>
    match attempt fate (transaction (claimRelease env t.session.sessionId)) w with
    | (.error _, w) => ((t.at_ .idle, none), w)
    | (.ok false, w) => (t.released report, w)
    | (.ok true, w) => ((t.at_ (.releasing (walletDeltas t.session.accepted) report), none), w)
  | .releasing ((account, delta) :: rest) report =>
    match fate with
    | .storeError => ((t.at_ .idle, none), w)
    | .proceed => ((t.at_ (.releasing rest report), none), w.addReservation account (-delta))
  | .releasing [] report => (t.released report, w)

end Settler

/-- The settlers over their store. The last three fields record what happened: the width of
the settler that posted the first chunk, what other postings moved, and what other sessions
reserved. -/
structure Settling where
  world : World
  settlers : List Settler
  reports : List SettleReport
  width : Option {n : Nat // 0 < n}
  others : AccountRef → Int
  reserved : AccountRef → Int

inductive Event
  | recover (maxBatch : Nat) (width : {n : Nat // 0 < n}) (scope : Scope)
  | call (index : Nat)
  | advance (index : Nat) (fate : Fate)
  | crash (index : Nat)
  | ask (index : Nat)
  | prune (index : Nat)
  | post (posting : Posting)
  | reserve (account : AccountRef) (delta : Int)

namespace Settling

/-- A settler took a step. -/
def put (sessionId : String) (index : Nat) (t : Settler)
    (after : (Settler × Option SettleReport) × World) (σ : Settling) : Settling :=
  { σ with
    world := after.2
    settlers := σ.settlers.set index after.1.1
    reports := σ.reports ++ after.1.2.toList
    width := if after.2.posted (chunkTxnId sessionId 0) && !σ.world.posted (chunkTxnId sessionId 0)
      then some ⟨t.session.chunkWidth, t.session.chunkWidth_pos⟩ else σ.width }

/-- The retention sweep drops a session's rows when the session it recovered says it settled. -/
def pruneSession (sessionId : String) (w : World) : World :=
  { w with movements := w.movements.filter (·.sessionId ≠ sessionId) }

def moved (w w' : World) (a : AccountRef) : Int := w'.balanceOf a - w.balanceOf a

def step (env : Env) (sessionId : String) (σ : Settling) : Event → Settling
  | .recover maxBatch width scope =>
    match recoverSession env sessionId maxBatch width scope σ.world with
    | (.error _, w) => { σ with world := w }
    | (.ok s, w) => { σ with world := w, settlers := σ.settlers ++ [⟨s, [], .idle⟩] }
  | .call index =>
    match σ.settlers[index]? with
    | none => σ
    | some t =>
      match t.phase with
      | .idle => σ.put sessionId index t (t.call env σ.world)
      | _ => σ
  | .advance index fate =>
    match σ.settlers[index]? with
    | none => σ
    | some t => σ.put sessionId index t (t.advance env fate σ.world)
  | .crash index => { σ with settlers := σ.settlers.eraseIdx index }
  | .ask _ => σ
  | .prune index =>
    match σ.settlers[index]? with
    | none => σ
    | some t => if wasSettled t.session then { σ with world := pruneSession sessionId σ.world } else σ
  | .post posting =>
    let w := (transaction (Txn.postEntry env posting) σ.world).2
    { σ with world := w, others := fun a => σ.others a + moved σ.world w a }
  | .reserve account delta =>
    { σ with
      world := σ.world.addReservation account delta
      reserved := fun a => σ.reserved a + if account = a then delta else 0 }

def run (env : Env) (sessionId : String) (σ : Settling) (events : List Event) : Settling :=
  events.foldl (step env sessionId) σ

end Settling

end EconomyLab
