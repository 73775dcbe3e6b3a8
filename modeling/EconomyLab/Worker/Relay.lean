import EconomyLab.Netting.Reserving
import EconomyLab.Stores.Mailboxes
import Mathlib.Algebra.Order.BigOperators.Group.List

/-!
# The outbox relay

A pass claims a batch of pending events, sends each to the dispatcher and marks the delivered ones
at its end. Passes overlap and stop anywhere. No row is marked for an event that was not delivered
and none is given up before its attempts are spent; passes that run to their end drain the outbox.
-/

namespace EconomyLab

open Foundation Mailbox

/-- What the relay sends an event to; it may throw. -/
abbrev Dispatcher := OutboxMessage → Except Fault Unit

def pendingOutbox (id : String) (event : EconomyEvent) (correlationId : Option String) : OutboxMessage :=
  ⟨id, event, .pending, 0, none, correlationId⟩

def portCode (e : Fault) : String := (((normalizePortError e).code).map ErrorCode.text).getD ""

/-! ## One pass -/

structure FailedDispatch where
  id : String
  code : String
  retryable : Bool
deriving DecidableEq, Repr

structure DeadLetter where
  id : String
  reason : String
deriving DecidableEq, Repr

structure RelaySummary where
  relayed : List String
  failed : List FailedDispatch
  deadLettered : List DeadLetter

section Pass

variable (maxOutboxAttempts : Int)

/-- The cap counts the attempt that just failed, on the row as it was claimed. -/
def givesUp (message : OutboxMessage) : Bool := maxOutboxAttempts ≤ (message.attempts + 1 : Nat)

def recordDispatchFailure (message : OutboxMessage) (code : String) (outbox : Journaled OutboxRows) :
    Journaled OutboxRows :=
  if givesUp maxOutboxAttempts message then OutboxRows.deadLetter message.id code outbox
  else OutboxRows.recordFailure message.id outbox

def dispatchOne (dispatcher : Dispatcher) (s : RelaySummary × Journaled OutboxRows)
    (message : OutboxMessage) :
    RelaySummary × Journaled OutboxRows :=
  match dispatcher message with
  | .ok () => ({ s.1 with relayed := s.1.relayed ++ [message.id] }, s.2)
  | .error e =>
    let outbox := recordDispatchFailure maxOutboxAttempts message (portCode e) s.2
    if givesUp maxOutboxAttempts message then
      ({ s.1 with deadLettered := s.1.deadLettered ++ [⟨message.id, portCode e⟩] }, outbox)
    else
      ({ s.1 with failed := s.1.failed ++ [⟨message.id, portCode e, (normalizePortError e).retryable⟩] },
        outbox)

def markRelayed (relayed : List String) (outbox : Journaled OutboxRows) : Journaled OutboxRows :=
  if relayed = [] then outbox else OutboxRows.markRelayed relayed outbox

structure RelayInput where
  dispatcher : Dispatcher
  limit : Nat

/-- A pass whose writes work and that runs to its end. -/
def relayOutbox (input : RelayInput) (outbox : Journaled OutboxRows) :
    RelaySummary × Journaled OutboxRows :=
  let pending := OutboxRows.claimBatch input.limit outbox.rows
  let tally := pending.foldl (dispatchOne maxOutboxAttempts input.dispatcher) (⟨[], [], []⟩, outbox)
  (tally.1, markRelayed tally.1.relayed tally.2)

end Pass

/-- A pass on its way: the claimed rows it has yet to send, the one whose dispatch threw and whose
failure it writes next, and the ids it delivered. -/
structure RelayPass where
  queue : List OutboxMessage
  failing : Option (OutboxMessage × String)
  relayed : List String

/-- The outbox with the passes under way; `dispatches` is every call to the dispatcher so far. -/
structure Relay where
  outbox : Journaled OutboxRows
  minted : Nat
  passes : List RelayPass
  dispatches : List (OutboxMessage × Bool)

inductive RelayEvent
  /-- A transaction of the store opens. -/
  | begin
  | commit
  | enqueue (now : Int) (event : EconomyEvent) (correlationId : Option String)
  | claim (limit : Nat)
  | dispatch (pass : Nat) (result : Except Fault Unit)
  /-- The write that follows a failed dispatch. -/
  | write (pass : Nat) (fate : CallFate)
  | mark (pass : Nat) (fate : CallFate)
  | stop (pass : Nat)

namespace Relay

def start : Relay := ⟨⟨Mailbox.empty Table.empty, none⟩, 0, [], []⟩

def look (s : Relay) (id : String) : Option OutboxMessage := s.outbox.rows.look id

/-- The rows after a write of this fate: a write that throws may have taken effect. -/
def written (fate : CallFate) (before after : Journaled OutboxRows) : Journaled OutboxRows :=
  if fate = .thrown then before else after

/-- `nextId` is the generator of outbox ids. -/
def step (maxOutboxAttempts : Int) (nextId : Nat → String) (s : Relay) : RelayEvent → Relay
  | .begin => { s with outbox := s.outbox.begin.getD s.outbox }
  | .commit => { s with outbox := s.outbox.commit }
  | .enqueue now event correlationId =>
    { s with
      outbox := OutboxRows.enqueue now (pendingOutbox (nextId s.minted) event correlationId) s.outbox
      minted := s.minted + 1 }
  | .claim limit =>
    { s with passes := s.passes ++ [⟨OutboxRows.claimBatch limit s.outbox.rows, none, []⟩] }
  | .dispatch pass result =>
    match s.passes[pass]? with
    | some ⟨message :: queue, none, relayed⟩ =>
      match result with
      | .ok () =>
        { s with
          passes := s.passes.set pass ⟨queue, none, relayed ++ [message.id]⟩
          dispatches := s.dispatches ++ [(message, true)] }
      | .error e =>
        { s with
          passes := s.passes.set pass ⟨queue, some (message, portCode e), relayed⟩
          dispatches := s.dispatches ++ [(message, false)] }
    | _ => s
  | .write pass fate =>
    match s.passes[pass]? with
    | some ⟨queue, some (message, code), relayed⟩ =>
      { s with
        outbox := written fate s.outbox (recordDispatchFailure maxOutboxAttempts message code s.outbox)
        -- A write that throws ends the pass: nothing it delivered is marked.
        passes := if fate = .taken then s.passes.set pass ⟨queue, none, relayed⟩
          else s.passes.eraseIdx pass }
    | _ => s
  | .mark pass fate =>
    match s.passes[pass]? with
    | some ⟨[], none, relayed⟩ =>
      { s with
        outbox := written fate s.outbox (markRelayed relayed s.outbox)
        passes := s.passes.eraseIdx pass }
    | _ => s
  | .stop pass => { s with passes := s.passes.eraseIdx pass }

/-- How often the dispatch of an event failed so far. -/
def failures (s : Relay) (id : String) : Nat := s.dispatches.countP fun d => d.1.id = id && !d.2

end Relay

/-! ## What a write does to a row -/

namespace OutboxRows

variable (j : Journaled OutboxRows) (id : String)

theorem look_pending {t : OutboxRows} {id : String} {obj : Obj OutboxMessage}
    (h : pending t id = some obj) :
    t.look id = some obj.value ∧ obj.value.status = .pending := by
  obtain ⟨hfind, hstatus⟩ := OutboxWrite.pending_eq h
  exact ⟨look_of_find hfind, hstatus⟩

theorem look_not_pending {t : OutboxRows} {id : String} (h : pending t id = none) {m : OutboxMessage}
    (hm : t.look id = some m) : m.status ≠ .pending := by
  unfold look Shelf.look at hm
  obtain ⟨obj, hobj, rfl⟩ := Option.map_eq_some_iff.mp hm
  unfold pending find at h
  rw [hobj] at h
  simpa using h

/-- A change to the pending row under one id. -/
def amend (id : String) (change : OutboxMessage → OutboxMessage) (k : String) (m : OutboxMessage) :
    OutboxMessage :=
  if k = id ∧ m.status = .pending then change m else m

theorem map_amend_of_ne {id k : String} (h : k ≠ id) (change : OutboxMessage → OutboxMessage)
    (row : Option OutboxMessage) : row.map (amend id change k) = row := by
  cases row with
  | none => rfl
  | some m => simp [amend, h]

theorem look_editRow {obj : Obj OutboxMessage} (hobj : pending j.rows id = some obj)
    (change undo : OutboxMessage → OutboxMessage) (k : String) :
    (editRow j id obj change undo).rows.look k = (j.rows.look k).map (amend id change k) := by
  obtain ⟨hfind, hstatus⟩ := OutboxWrite.pending_eq hobj
  show ((j.rows.rows.edit id obj.ref change).rows.get k).map Obj.value = _
  rw [Shelf.edit_get, Option.map_map]
  unfold look Shelf.look
  rw [Option.map_map]
  apply Option.map_congr
  intro o ho
  by_cases hk : k = id
  · subst hk
    have heq : o = obj := Option.some.inj (ho.symm.trans hfind)
    simp [heq, amend, hstatus]
  · simp [amend, hk]

theorem look_amend_absent (hnone : pending j.rows id = none) (change : OutboxMessage → OutboxMessage)
    (k : String) :
    j.rows.look k = (j.rows.look k).map (amend id change k) := by
  by_cases hk : k = id
  · subst hk
    cases hm : j.rows.look k with
    | none => rfl
    | some m =>
      have hstatus := look_not_pending hnone hm
      simp [amend, hstatus]
  · exact (map_amend_of_ne hk change _).symm

theorem look_markOne (k : String) :
    (markOne j id).rows.look k = (j.rows.look k).map
    (amend id (fun m => { m with status := .relayed }) k) := by
  unfold markOne
  cases hobj : pending j.rows id with
  | none => exact look_amend_absent j id hobj _ k
  | some obj => exact look_editRow j id hobj _ _ k

theorem look_recordFailure (k : String) :
    (recordFailure id j).rows.look k =
    (j.rows.look k).map (amend id (fun m => { m with attempts := m.attempts + 1 }) k) := by
  unfold recordFailure
  cases hobj : pending j.rows id with
  | none => exact look_amend_absent j id hobj _ k
  | some obj => exact look_editRow j id hobj _ _ k

theorem look_deadLetter (reason : String) (k : String) :
    (deadLetter id reason j).rows.look k =
      (j.rows.look k).map (amend id (fun m => { m with status := .dead, reason := some reason }) k) := by
  unfold deadLetter
  cases hobj : pending j.rows id with
  | none => exact look_amend_absent j id hobj _ k
  | some obj =>
    obtain ⟨hlook, hstatus⟩ := look_pending hobj
    show ((j.rows.rows.allocate.put id _).rows.get k).map Obj.value = _
    by_cases hk : k = id
    · subst hk
      rw [hlook]
      simp [Shelf.put, amend, hstatus]
    · rw [map_amend_of_ne hk]
      simp [Shelf.put, Shelf.allocate, hk, look, Shelf.look]

theorem look_enqueue (now : Int) (message : OutboxMessage) (k : String) :
    (enqueue now message j).rows.look k = if k = message.id then some message else j.rows.look k := by
  show ((j.rows.rows.put message.id message).rows.get k).map Obj.value = _
  by_cases hk : k = message.id
  · simp [Shelf.put, hk]
  · simp [Shelf.put, hk, look, Shelf.look]

theorem order_markOne : (markOne j id).rows.order = j.rows.order := by
  unfold markOne
  cases pending j.rows id <;> rfl

theorem order_recordFailure : (recordFailure id j).rows.order = j.rows.order := by
  unfold recordFailure
  cases pending j.rows id <;> rfl

theorem order_deadLetter (reason : String) : (deadLetter id reason j).rows.order = j.rows.order := by
  unfold deadLetter
  cases pending j.rows id <;> rfl

end OutboxRows

namespace Relay

variable {maxOutboxAttempts : Int} {nextId : Nat → String}

/-- What the write after a failed dispatch changes in a pending row. -/
def failedChange (maxOutboxAttempts : Int) (message : OutboxMessage) (code : String) (m : OutboxMessage) :
    OutboxMessage :=
  if givesUp maxOutboxAttempts message then { m with status := .dead, reason := some code }
  else { m with attempts := m.attempts + 1 }

variable {s s' : Relay} (message : OutboxMessage) (ids : List String) (code k : String)
  {p : RelayPass} (j : Journaled OutboxRows) {f : String → OutboxMessage → OutboxMessage}

theorem look_recordDispatchFailure (k : String) :
    (recordDispatchFailure maxOutboxAttempts message code j).rows.look k =
      (j.rows.look k).map (OutboxRows.amend message.id (failedChange maxOutboxAttempts message code)
        k) := by
  unfold recordDispatchFailure failedChange
  split
  · exact OutboxRows.look_deadLetter j message.id code k
  · exact OutboxRows.look_recordFailure j message.id k

theorem order_recordDispatchFailure :
    (recordDispatchFailure maxOutboxAttempts message code j).rows.order = j.rows.order := by
  unfold recordDispatchFailure
  split
  · exact OutboxRows.order_deadLetter j message.id code
  · exact OutboxRows.order_recordFailure j message.id

def markedRow (ids : List String) (k : String) (m : OutboxMessage) : OutboxMessage :=
  if k ∈ ids ∧ m.status = .pending then { m with status := .relayed } else m

theorem look_markRelayed (k : String) :
    (markRelayed ids j).rows.look k = (j.rows.look k).map (markedRow ids k) := by
  have hfold : ∀ ids (j : Journaled OutboxRows),
      (OutboxRows.markRelayed ids j).rows.look k = (j.rows.look k).map (markedRow ids k) := by
    intro ids
    induction ids with
    | nil =>
      intro j
      cases h : j.rows.look k with
      | none => exact h
      | some m => simp [OutboxRows.markRelayed, h, markedRow]
    | cons id ids ih =>
      intro j
      have hnext := ih (OutboxRows.markOne j id)
      rw [OutboxRows.look_markOne, Option.map_map] at hnext
      refine hnext.trans ?_
      apply Option.map_congr
      intro m _
      by_cases hk : k = id <;> by_cases hids : k ∈ ids <;> by_cases hstatus : m.status = .pending <;>
        simp [markedRow, OutboxRows.amend, hk, hids, hstatus]
  unfold markRelayed
  split
  · rename_i hnil
    rw [hnil]
    cases h : j.rows.look k with
    | none => rfl
    | some m => simp [markedRow]
  · exact hfold ids j

theorem order_markRelayed : (markRelayed ids j).rows.order = j.rows.order := by
  have hfold : ∀ ids (j : Journaled OutboxRows), (OutboxRows.markRelayed ids j).rows.order =
      j.rows.order := by
    intro ids
    induction ids with
    | nil => exact fun j => rfl
    | cons id ids ih => exact fun j => (ih _).trans (OutboxRows.order_markOne j id)
  unfold markRelayed
  split
  · rfl
  · exact hfold ids j

/-! ## No event is lost -/

/-- A row stays the row of its event, and one that left `pending` stays as it is. -/
structure Advances (m m' : OutboxMessage) : Prop where
  id : m'.id = m.id
  event : m'.event = m.event
  final : m.status ≠ .pending → m' = m

/-- A dispatch of the event under the id succeeded. -/
def Delivered (s : Relay) (id : String) (event : EconomyEvent) : Prop :=
  ∃ d ∈ s.dispatches, d.1.id = id ∧ d.1.event = event ∧ d.2 = true

/-- The failed dispatches of an id whose write is still to come. -/
def waiting (passes : List RelayPass) (id : String) : Nat :=
  passes.countP fun p => p.failing.any (·.1.id = id)

def unwritten (s : Relay) (id : String) : Nat := waiting s.passes id

structure PassSound (s : Relay) (p : RelayPass) : Prop where
  queue : ∀ m ∈ p.queue, (∃ row, s.look m.id = some row ∧ row.event = m.event) ∧ m.attempts ≤
    s.failures m.id
  failing : ∀ m code, p.failing = some (m, code) → m.attempts + 1 ≤ s.failures m.id
  relayed : ∀ id ∈ p.relayed, ∃ row, s.look id = some row ∧ s.Delivered id row.event

/-- What holds in every state of a run. -/
structure Sound (maxOutboxAttempts : Int) (nextId : Nat → String) (s : Relay) : Prop where
  minted : ∀ id m, s.look id = some m → m.id = id ∧ ∃ n < s.minted, id = nextId n
  listed : ∀ id m, s.look id = some m → id ∈ s.outbox.rows.order
  relayed : ∀ id m, s.look id = some m → m.status = .relayed → s.Delivered id m.event
  dead : ∀ id m, s.look id = some m → m.status = .dead → maxOutboxAttempts ≤ s.failures id
  counted : ∀ id m, s.look id = some m → m.attempts + s.unwritten id ≤ s.failures id
  owed : ∀ id, s.unwritten id ≤ s.failures id
  passes : ∀ p ∈ s.passes, s.PassSound p

/-- Rows stay, and what was dispatched stays on record. -/
structure Goes (s s' : Relay) : Prop where
  rows : ∀ id m, s.look id = some m → ∃ m', s'.look id = some m' ∧ Advances m m'
  dispatches : s.dispatches <+: s'.dispatches

variable (m : OutboxMessage) {pass : Nat}

theorem Advances.refl : Advances m m := ⟨rfl, rfl, fun _ => rfl⟩

theorem Advances.trans {m m' m'' : OutboxMessage} (h : Advances m m') (h' : Advances m' m'') :
    Advances m m'' := by
  refine ⟨h'.id.trans h.id, h'.event.trans h.event, ?_⟩
  intro hfinal
  have hsame := h.final hfinal
  rw [← hsame] at hfinal
  exact (h'.final hfinal).trans hsame

theorem advances_amend {change : OutboxMessage → OutboxMessage} (hid : ∀ m, (change m).id = m.id)
    (hevent : ∀ m, (change m).event = m.event) (id k : String) (m : OutboxMessage) :
    Advances m (OutboxRows.amend id change k m) := by
  unfold OutboxRows.amend
  split
  · rename_i h
    exact ⟨hid m, hevent m, fun hfinal => absurd h.2 hfinal⟩
  · exact .refl m

theorem advances_failedChange (id k : String) (m : OutboxMessage) :
    Advances m (OutboxRows.amend id (failedChange maxOutboxAttempts message code) k m) := by
  apply advances_amend
  · intro m
    unfold failedChange
    split <;> rfl
  · intro m
    unfold failedChange
    split <;> rfl

theorem advances_markedRow : Advances m (markedRow ids k m) := by
  unfold markedRow
  split
  · rename_i h
    exact ⟨rfl, rfl, fun hfinal => absurd h.2 hfinal⟩
  · exact .refl m

theorem Goes.refl (s : Relay) : Goes s s := ⟨fun _ m hm => ⟨m, hm, .refl m⟩, List.prefix_rfl⟩

theorem Goes.trans {s s' s'' : Relay} (h : Goes s s') (h' : Goes s' s'') : Goes s s'' := by
  refine ⟨?_, h.dispatches.trans h'.dispatches⟩
  intro id m hm
  obtain ⟨m', hm', hadvances⟩ := h.rows id m hm
  obtain ⟨m'', hm'', hadvances'⟩ := h'.rows id m' hm'
  exact ⟨m'', hm'', hadvances.trans hadvances'⟩

theorem Goes.failures (h : Goes s s') (id : String) : s.failures id ≤ s'.failures id :=
  h.dispatches.sublist.countP_le

theorem Goes.delivered (h : Goes s s') {id : String} {event : EconomyEvent}
    (hd : s.Delivered id event) : s'.Delivered id event := by
  obtain ⟨d, hmem, hd⟩ := hd
  exact ⟨d, h.dispatches.subset hmem, hd⟩

theorem PassSound.goes (hp : s.PassSound p) (h : Goes s s') : s'.PassSound p where
  queue m hm := by
    obtain ⟨⟨row, hrow, hevent⟩, hattempts⟩ := hp.queue m hm
    obtain ⟨row', hrow', hadvances⟩ := h.rows m.id row hrow
    exact ⟨⟨row', hrow', hadvances.event.trans hevent⟩, hattempts.trans (h.failures m.id)⟩
  failing m code hm := (hp.failing m code hm).trans (h.failures m.id)
  relayed id hid := by
    obtain ⟨row, hrow, hdelivered⟩ := hp.relayed id hid
    obtain ⟨row', hrow', hadvances⟩ := h.rows id row hrow
    exact ⟨row', hrow', hadvances.event ▸ h.delivered hdelivered⟩

/-! ### One step -/

theorem waiting_set {passes : List RelayPass} (hp : passes[pass]? = some p)
    (p' : RelayPass) (id : String) :
    waiting (passes.set pass p') id + (if p.failing.any (·.1.id = id) then 1 else 0) =
      waiting passes id + if p'.failing.any (·.1.id = id) then 1 else 0 := by
  obtain ⟨hlt, rfl⟩ := List.getElem?_eq_some_iff.mp hp
  have hold : (passes[pass] :: passes.eraseIdx pass).Perm passes := List.getElem_cons_eraseIdx_perm hlt
  have hnew : (passes.set pass p').Perm (p' :: passes.eraseIdx pass) := List.set_perm_cons_eraseIdx hlt p'
  have hcount := hold.countP_eq fun q : RelayPass => q.failing.any (·.1.id = id)
  have hcount' := hnew.countP_eq fun q : RelayPass => q.failing.any (·.1.id = id)
  unfold waiting
  rw [hcount', ← hcount, List.countP_cons, List.countP_cons]
  omega

theorem waiting_eraseIdx {passes : List RelayPass} (hp : passes[pass]? = some p) (id : String) :
    waiting (passes.eraseIdx pass) id + (if p.failing.any (·.1.id = id) then 1 else 0) =
      waiting passes id := by
  obtain ⟨hlt, rfl⟩ := List.getElem?_eq_some_iff.mp hp
  have hold : (passes[pass] :: passes.eraseIdx pass).Perm passes := List.getElem_cons_eraseIdx_perm hlt
  have hcount := hold.countP_eq fun q : RelayPass => q.failing.any (·.1.id = id)
  unfold waiting
  rw [← hcount, List.countP_cons]

theorem Goes.of_look
    (hlook : ∀ k, s'.look k = (s.look k).map (f k)) (hadvances : ∀ k m, Advances m (f k m))
    (hdispatches : s.dispatches <+: s'.dispatches) : Goes s s' := by
  refine ⟨?_, hdispatches⟩
  intro id m hm
  exact ⟨f id m, by rw [hlook, hm, Option.map_some], hadvances id m⟩

/-- The rows are changed one by one, and what justifies the change is on record. -/
structure Amends (maxOutboxAttempts : Int) (s s' : Relay) (f : String → OutboxMessage → OutboxMessage) :
    Prop where
  look : ∀ k, s'.look k = (s.look k).map (f k)
  advances : ∀ k m, Advances m (f k m)
  order : s'.outbox.rows.order = s.outbox.rows.order
  minted : s'.minted = s.minted
  dispatches : s.dispatches <+: s'.dispatches
  relayed : ∀ k m, s.look k = some m → (f k m).status = .relayed → m.status = .relayed ∨
    s.Delivered k m.event
  dead : ∀ k m, s.look k = some m → (f k m).status = .dead → m.status = .dead ∨
    maxOutboxAttempts ≤ s.failures k
  counted : ∀ k m, s.look k = some m → m.attempts + s.unwritten k ≤ s.failures k →
    (f k m).attempts + s'.unwritten k ≤ s'.failures k
  owed : ∀ k, s'.unwritten k + s.failures k ≤ s.unwritten k + s'.failures k

theorem Amends.goes (ha : Amends maxOutboxAttempts s s' f) :
    Goes s s' := .of_look ha.look ha.advances ha.dispatches

theorem Sound.amends (h : Sound maxOutboxAttempts nextId s) (ha : Amends maxOutboxAttempts s s' f)
    (hpasses : ∀ p ∈ s'.passes, s'.PassSound p) : Sound maxOutboxAttempts nextId s' := by
  have hback : ∀ id m', s'.look id = some m' → ∃ m, s.look id = some m ∧ f id m = m' := by
    intro id m' hm'
    rw [ha.look] at hm'
    exact Option.map_eq_some_iff.mp hm'
  refine ⟨?_, ?_, ?_, ?_, ?_, ?_, hpasses⟩
  · intro id m' hm'
    obtain ⟨m, hm, rfl⟩ := hback id m' hm'
    obtain ⟨hid, n, hn, hmint⟩ := h.minted id m hm
    exact ⟨(ha.advances id m).id.trans hid, n, ha.minted ▸ hn, hmint⟩
  · intro id m' hm'
    obtain ⟨m, hm, -⟩ := hback id m' hm'
    exact ha.order ▸ h.listed id m hm
  · intro id m' hm' hstatus
    obtain ⟨m, hm, rfl⟩ := hback id m' hm'
    rw [(ha.advances id m).event]
    apply ha.goes.delivered
    rcases ha.relayed id m hm hstatus with hbefore | hdelivered
    · exact h.relayed id m hm hbefore
    · exact hdelivered
  · intro id m' hm' hstatus
    obtain ⟨m, hm, rfl⟩ := hback id m' hm'
    have hfailures : (s.failures id : Int) ≤ s'.failures id := Int.ofNat_le.mpr (ha.goes.failures id)
    rcases ha.dead id m hm hstatus with hbefore | henough
    · exact (h.dead id m hm hbefore).trans hfailures
    · exact henough.trans hfailures
  · intro id m' hm'
    obtain ⟨m, hm, rfl⟩ := hback id m' hm'
    exact ha.counted id m hm (h.counted id m hm)
  · intro id
    have hbefore := h.owed id
    have hafter := ha.owed id
    omega

theorem Amends.still (hlook : ∀ k, s'.look k = s.look k)
    (horder : s'.outbox.rows.order = s.outbox.rows.order) (hminted : s'.minted = s.minted)
    (hdispatches : s.dispatches <+: s'.dispatches)
    (hcounted : ∀ k, s'.unwritten k + s.failures k ≤ s.unwritten k + s'.failures k) :
    Amends maxOutboxAttempts s s' fun _ m => m where
  look k := (hlook k).trans (Option.map_id' ..).symm
  advances _ m := .refl m
  order := horder
  minted := hminted
  dispatches := hdispatches
  relayed _ _ _ hstatus := Or.inl hstatus
  dead _ _ _ hstatus := Or.inl hstatus
  counted k m _ hbefore := by
    have hk := hcounted k
    omega
  owed := hcounted

theorem PassSound.claimed (h : Sound maxOutboxAttempts nextId s) (limit : Nat) :
    s.PassSound ⟨OutboxRows.claimBatch limit s.outbox.rows, none, []⟩ where
  queue m hm := by
    obtain ⟨id, -, hrow⟩ := List.mem_filterMap.mp (List.mem_of_mem_take hm)
    obtain ⟨hlook, -⟩ := Option.filter_eq_some_iff.mp hrow
    have hid := (h.minted id m hlook).1
    rw [← hid] at hlook
    have hcounted := h.counted m.id m hlook
    exact ⟨⟨m, hlook, rfl⟩, by omega⟩
  failing m code hm := by cases hm
  relayed id hid := by cases hid

theorem Sound.of_passes (h : Sound maxOutboxAttempts nextId s)
    (ha : ∃ f, Amends maxOutboxAttempts s s' f)
    (hpasses : Goes s s' → ∀ p ∈ s'.passes, p ∈ s.passes ∨ s'.PassSound p) :
    Goes s s' ∧ Sound maxOutboxAttempts nextId s' := by
  obtain ⟨f, ha⟩ := ha
  refine ⟨ha.goes, h.amends ha ?_⟩
  intro p hp
  rcases hpasses ha.goes p hp with hold | hnew
  · exact (h.passes p hold).goes ha.goes
  · exact hnew

theorem Sound.enqueue (hinj : Function.Injective nextId) (h : Sound maxOutboxAttempts nextId s)
    (now : Int) (event : EconomyEvent) (correlationId : Option String) :
    Goes s (step maxOutboxAttempts nextId s (.enqueue now event correlationId)) ∧
      Sound maxOutboxAttempts nextId (step maxOutboxAttempts nextId s
        (.enqueue now event correlationId)) := by
  have hlook : ∀ k, (step maxOutboxAttempts nextId s (.enqueue now event correlationId)).look k =
      if k = nextId s.minted then some (pendingOutbox (nextId s.minted) event correlationId)
        else s.look k :=
    OutboxRows.look_enqueue s.outbox now (pendingOutbox (nextId s.minted) event correlationId)
  have hfresh : ∀ id m, s.look id = some m → id ≠ nextId s.minted := by
    rintro id m hm rfl
    obtain ⟨-, n, hn, hmint⟩ := h.minted _ m hm
    have heq := hinj hmint
    omega
  have hgoes : Goes s (step maxOutboxAttempts nextId s (.enqueue now event correlationId)) := by
    refine ⟨?_, List.prefix_rfl⟩
    intro id m hm
    exact ⟨m, by rw [hlook, if_neg (hfresh id m hm), hm], .refl m⟩
  refine ⟨hgoes, ?_, ?_, ?_, ?_, ?_, h.owed, fun p hp => (h.passes p hp).goes hgoes⟩
  all_goals
    intro id m hm
    rw [hlook] at hm
    split at hm
  · rename_i hid
    cases hm
    exact ⟨hid.symm, s.minted, Nat.lt_succ_self _, hid⟩
  · obtain ⟨hid, n, hn, hmint⟩ := h.minted id m hm
    exact ⟨hid, n, Nat.lt_succ_of_lt hn, hmint⟩
  · rename_i hid
    exact List.mem_append_right _ (List.mem_singleton.mpr hid)
  · exact List.mem_append_left _ (h.listed id m hm)
  · intro hstatus
    cases hm
    cases hstatus
  · exact h.relayed id m hm
  · intro hstatus
    cases hm
    cases hstatus
  · exact h.dead id m hm
  · cases hm
    exact (Nat.zero_add _).trans_le (h.owed id)
  · exact h.counted id m hm

theorem failures_append (s : Relay) (d : OutboxMessage × Bool) (passes : List RelayPass) (id : String) :
    ({ s with passes, dispatches := s.dispatches ++ [d] } : Relay).failures id =
      s.failures id + if d.1.id = id ∧ d.2 = false then 1 else 0 := by
  unfold failures
  rw [List.countP_append, List.countP_singleton]
  simp

theorem Amends.dispatched {p p' : RelayPass} {d : OutboxMessage × Bool}
    (hp : s.passes[pass]? = some p) (hidle : p.failing = none)
    (hfailing : ∀ m code, p'.failing = some (m, code) → d = (m, false)) :
    Amends maxOutboxAttempts s { s with passes := s.passes.set pass p', dispatches := s.dispatches ++ [d] }
      fun _ m => m := by
  refine .still (fun _ => rfl) rfl rfl (List.prefix_append _ _) fun k => ?_
  have hunwritten := waiting_set hp p' k
  have hfailures := failures_append s d (s.passes.set pass p') k
  rw [hidle] at hunwritten
  simp only [unwritten]
  cases hnext : p'.failing with
  | none =>
    simp [hnext] at hunwritten
    omega
  | some failing =>
    obtain ⟨m, code⟩ := failing
    cases hfailing m code hnext
    simp [hnext] at hunwritten hfailures
    omega

theorem Sound.dispatch (h : Sound maxOutboxAttempts nextId s) (pass : Nat)
    (result : Except Fault Unit) :
    Goes s (step maxOutboxAttempts nextId s (.dispatch pass result)) ∧
      Sound maxOutboxAttempts nextId (step maxOutboxAttempts nextId s (.dispatch pass result)) := by
  simp only [step]
  split
  · rename_i message queue relayed hp
    have hsound := h.passes _ (List.mem_of_getElem? hp)
    obtain ⟨⟨row, hrow, hevent⟩, hattempts⟩ := hsound.queue message List.mem_cons_self
    cases result with
    | ok u =>
      simp only
      refine h.of_passes ⟨_, Amends.dispatched hp rfl fun m code hm => nomatch hm⟩ fun hgoes p hp' => ?_
      rcases List.mem_or_eq_of_mem_set hp' with hold | rfl
      · exact Or.inl hold
      · right
        have hgone := hsound.goes hgoes
        refine ⟨fun m hm => hgone.queue m (List.mem_cons_of_mem _ hm), (fun m code hm => nomatch hm), ?_⟩
        intro id hid
        rcases List.mem_append.mp hid with hid | hid
        · exact hgone.relayed id hid
        · rw [List.mem_singleton] at hid
          subst hid
          exact ⟨row, hrow, (message, true), List.mem_append_right _ List.mem_cons_self, rfl,
            hevent.symm, rfl⟩
    | error e =>
      simp only
      refine h.of_passes ⟨_, Amends.dispatched hp rfl fun m code hm => by
        cases hm; rfl⟩ fun hgoes p hp' => ?_
      rcases List.mem_or_eq_of_mem_set hp' with hold | rfl
      · exact Or.inl hold
      · right
        have hgone := hsound.goes hgoes
        refine ⟨fun m hm => hgone.queue m (List.mem_cons_of_mem _ hm), ?_, hgone.relayed⟩
        intro m code hm
        cases hm
        have hmine := failures_append s (message, false)
          (s.passes.set pass ⟨queue, some (message, portCode e), relayed⟩) message.id
        simp at hmine
        omega
  · exact ⟨.refl s, h⟩

def writtenRow (fate : CallFate) (change : OutboxMessage → OutboxMessage) (m : OutboxMessage) :
    OutboxMessage :=
  if fate = .thrown then m else change m

theorem look_written {before after : Journaled OutboxRows}
    (h : ∀ k, after.rows.look k = (before.rows.look k).map (f k)) (fate : CallFate) (k : String) :
    (written fate before after).rows.look k = (before.rows.look k).map (writtenRow fate (f k)) := by
  unfold written writtenRow
  split
  · exact (Option.map_id' ..).symm
  · exact h k

theorem order_written {before after : Journaled OutboxRows} (h : after.rows.order = before.rows.order)
    (fate : CallFate) : (written fate before after).rows.order = before.rows.order := by
  unfold written
  split
  · rfl
  · exact h

theorem advances_written {change : OutboxMessage → OutboxMessage} {m : OutboxMessage}
    (h : Advances m (change m)) (fate : CallFate) : Advances m (writtenRow fate change m) := by
  unfold writtenRow
  split
  · exact .refl m
  · exact h

theorem Amends.failureWritten {message : OutboxMessage} {code : String}
    (hsound : s.PassSound p) (hfailing : p.failing = some (message, code)) {fate : CallFate}
    (houtbox : s'.outbox =
      written fate s.outbox (recordDispatchFailure maxOutboxAttempts message code s.outbox))
    (hminted : s'.minted = s.minted) (hdispatches : s'.dispatches = s.dispatches)
    (hunwritten : ∀ k, s'.unwritten k + (if message.id = k then 1 else 0) = s.unwritten k) :
    Amends maxOutboxAttempts s s' fun k =>
      writtenRow fate (OutboxRows.amend message.id (failedChange maxOutboxAttempts message code) k) where
  look k := by
    unfold Relay.look
    rw [houtbox]
    exact look_written (look_recordDispatchFailure message code s.outbox) fate k
  advances k m := advances_written (advances_failedChange message code message.id k m) fate
  order := houtbox ▸ order_written (order_recordDispatchFailure message code s.outbox) fate
  minted := hminted
  dispatches := hdispatches ▸ List.prefix_rfl
  relayed k m _ hstatus := by
    left
    unfold writtenRow OutboxRows.amend failedChange at hstatus
    split_ifs at hstatus
    · exact hstatus
    · exact hstatus
    · exact hstatus
  dead k m _ hstatus := by
    by_cases hbefore : m.status = .dead
    · exact Or.inl hbefore
    · right
      unfold writtenRow OutboxRows.amend failedChange at hstatus
      split_ifs at hstatus with hfate hk hgives
      · exact absurd hstatus hbefore
      · have henough : maxOutboxAttempts ≤ (message.attempts + 1 : Nat) := of_decide_eq_true hgives
        have hcount := hsound.failing message code hfailing
        rw [hk.1]
        omega
      · exact absurd hstatus hbefore
      · exact absurd hstatus hbefore
  counted k m _ hbefore := by
    have hk := hunwritten k
    have hsame : s'.failures k = s.failures k := by
      unfold failures
      rw [hdispatches]
    have hle : (writtenRow fate (OutboxRows.amend message.id (failedChange maxOutboxAttempts message code)
      k) m).attempts ≤
        m.attempts + if message.id = k then 1 else 0 := by
      by_cases hid : message.id = k
      · rw [if_pos hid]
        unfold writtenRow OutboxRows.amend failedChange
        split_ifs
        all_goals first
        | exact Nat.le_refl _
        | exact Nat.le_succ _
      · have hskip : ¬ (k = message.id ∧ m.status = .pending) := fun hk => hid hk.1.symm
        rw [if_neg hid]
        unfold writtenRow OutboxRows.amend
        rw [if_neg hskip]
        split_ifs <;> exact Nat.le_refl _
    omega
  owed k := by
    have hk := hunwritten k
    have hsame : s'.failures k = s.failures k := by
      unfold failures
      rw [hdispatches]
    omega

theorem Amends.marked (hsound : s.PassSound p) {fate : CallFate}
    (houtbox : s'.outbox = written fate s.outbox (markRelayed p.relayed s.outbox))
    (hminted : s'.minted = s.minted) (hdispatches : s'.dispatches = s.dispatches)
    (hunwritten : ∀ k, s'.unwritten k ≤ s.unwritten k) :
    Amends maxOutboxAttempts s s' fun k => writtenRow fate (markedRow p.relayed k) where
  look k := by
    unfold Relay.look
    rw [houtbox]
    exact look_written (look_markRelayed p.relayed s.outbox) fate k
  advances k m := advances_written (advances_markedRow p.relayed k m) fate
  order := houtbox ▸ order_written (order_markRelayed p.relayed s.outbox) fate
  minted := hminted
  dispatches := hdispatches ▸ List.prefix_rfl
  relayed k m hm hstatus := by
    unfold writtenRow markedRow at hstatus
    split_ifs at hstatus with hfate hk
    · exact Or.inl hstatus
    · right
      obtain ⟨row, hrow, hdelivered⟩ := hsound.relayed k hk.1
      rw [hm] at hrow
      exact Option.some.inj hrow ▸ hdelivered
    · exact Or.inl hstatus
  dead k m _ hstatus := by
    left
    unfold writtenRow markedRow at hstatus
    split_ifs at hstatus
    · exact hstatus
    · exact hstatus
  counted k m _ hbefore := by
    have hk := hunwritten k
    have hsame : s'.failures k = s.failures k := by
      unfold failures
      rw [hdispatches]
    have hattempts : (writtenRow fate (markedRow p.relayed k) m).attempts = m.attempts := by
      unfold writtenRow markedRow
      split_ifs <;> rfl
    omega
  owed k := by
    have hk := hunwritten k
    have hsame : s'.failures k = s.failures k := by
      unfold failures
      rw [hdispatches]
    omega

theorem Sound.write (h : Sound maxOutboxAttempts nextId s) (pass : Nat) (fate : CallFate) :
    Goes s (step maxOutboxAttempts nextId s (.write pass fate)) ∧
      Sound maxOutboxAttempts nextId (step maxOutboxAttempts nextId s (.write pass fate)) := by
  simp only [step]
  split
  · rename_i queue message code relayed hp
    have hsound := h.passes _ (List.mem_of_getElem? hp)
    by_cases hfate : fate = .taken
    · rw [if_pos hfate]
      refine h.of_passes ⟨_, Amends.failureWritten hsound rfl rfl rfl rfl fun k => ?_⟩ fun hgoes p hp' =>
        ?_
      · simpa [unwritten] using waiting_set hp ⟨queue, none, relayed⟩ k
      · rcases List.mem_or_eq_of_mem_set hp' with hold | rfl
        · exact Or.inl hold
        · right
          have hgone := hsound.goes hgoes
          exact ⟨hgone.queue, (fun m code hm => nomatch hm), hgone.relayed⟩
    · rw [if_neg hfate]
      refine h.of_passes ⟨_, Amends.failureWritten hsound rfl rfl rfl rfl fun k => ?_⟩ fun _ p hp' =>
        Or.inl (List.mem_of_mem_eraseIdx hp')
      simpa [unwritten] using waiting_eraseIdx hp k
  · exact ⟨.refl s, h⟩

theorem Sound.mark (h : Sound maxOutboxAttempts nextId s) (pass : Nat) (fate : CallFate) :
    Goes s (step maxOutboxAttempts nextId s (.mark pass fate)) ∧
      Sound maxOutboxAttempts nextId (step maxOutboxAttempts nextId s (.mark pass fate)) := by
  simp only [step]
  split
  · rename_i relayed hp
    have hsound := h.passes _ (List.mem_of_getElem? hp)
    refine h.of_passes ⟨_, Amends.marked hsound rfl rfl rfl fun k => ?_⟩ fun _ p hp' =>
      Or.inl (List.mem_of_mem_eraseIdx hp')
    exact (Nat.le_add_right _ _).trans_eq (waiting_eraseIdx hp k)
  · exact ⟨.refl s, h⟩

theorem begin_rows (outbox : Journaled OutboxRows) : (outbox.begin.getD outbox).rows = outbox.rows := by
  unfold Journaled.begin
  cases outbox.undos <;> rfl

theorem Sound.step (hinj : Function.Injective nextId) (h : Sound maxOutboxAttempts nextId s)
    (e : RelayEvent) : Goes s (step maxOutboxAttempts nextId s e) ∧
      Sound maxOutboxAttempts nextId (step maxOutboxAttempts nextId s e) := by
  cases e with
  | begin =>
    have hrows := begin_rows s.outbox
    refine h.of_passes ⟨_, .still ?_ ?_ rfl List.prefix_rfl fun _ => le_rfl⟩ fun _ p hp => Or.inl hp
    · intro k
      exact congrArg (fun rows : OutboxRows => rows.look k) hrows
    · exact congrArg (fun rows : OutboxRows => rows.order) hrows
  | commit =>
    exact h.of_passes ⟨_, .still (fun _ => rfl) rfl rfl List.prefix_rfl fun _ => le_rfl⟩ fun _ p hp =>
      Or.inl hp
  | enqueue now event correlationId => exact h.enqueue hinj now event correlationId
  | claim limit =>
    refine h.of_passes ⟨_, .still (fun _ => rfl) rfl rfl List.prefix_rfl ?_⟩ fun hgoes p hp => ?_
    · intro k
      show List.countP _ (s.passes ++ [_]) + _ ≤ _
      rw [List.countP_append]
      exact le_of_eq rfl
    · rcases List.mem_append.mp hp with hold | hnew
      · exact Or.inl hold
      · right
        rw [List.mem_singleton.mp hnew]
        exact (PassSound.claimed h limit).goes hgoes
  | dispatch pass result => exact h.dispatch pass result
  | write pass fate => exact h.write pass fate
  | mark pass fate => exact h.mark pass fate
  | stop pass =>
    refine h.of_passes ⟨_, .still (fun _ => rfl) rfl rfl List.prefix_rfl ?_⟩ fun _ p hp =>
      Or.inl (List.mem_of_mem_eraseIdx hp)
    intro k
    exact Nat.add_le_add_right (List.Sublist.countP_le (List.eraseIdx_sublist s.passes pass)) _

theorem Sound.start : Sound maxOutboxAttempts nextId start where
  minted _ _ hm := nomatch hm
  listed _ _ hm := nomatch hm
  relayed _ _ hm := nomatch hm
  dead _ _ hm := nomatch hm
  counted _ _ hm := nomatch hm
  owed _ := Nat.le_refl 0
  passes _ hp := nomatch hp

def run (maxOutboxAttempts : Int) (nextId : Nat → String) (events : List RelayEvent) : Relay :=
  events.foldl (step maxOutboxAttempts nextId) start

theorem Sound.run (hinj : Function.Injective nextId) (events more : List RelayEvent) :
    Sound maxOutboxAttempts nextId (run maxOutboxAttempts nextId (events ++ more)) ∧
      Goes (run maxOutboxAttempts nextId events) (run maxOutboxAttempts nextId (events ++ more)) := by
  have hfold : ∀ (events : List RelayEvent) (s : Relay), Sound maxOutboxAttempts nextId s →
      Sound maxOutboxAttempts nextId (events.foldl (Relay.step maxOutboxAttempts nextId) s) ∧
        Goes s (events.foldl (Relay.step maxOutboxAttempts nextId) s) := by
    intro events
    induction events with
    | nil => exact fun s h => ⟨h, .refl s⟩
    | cons e events ih =>
      intro s h
      obtain ⟨hgoes, hnext⟩ := h.step hinj e
      obtain ⟨hsound, hrest⟩ := ih _ hnext
      exact ⟨hsound, hgoes.trans hrest⟩
  unfold Relay.run
  rw [List.foldl_append]
  exact hfold more _ (hfold events _ .start).1

theorem dispatchAll_run (dispatcher : Dispatcher) (queue : List OutboxMessage) (s : Relay)
    (tally : RelaySummary) (hpasses : s.passes = [⟨queue, none, tally.relayed⟩]) :
    ∃ events : List RelayEvent, (events.foldl (Relay.step maxOutboxAttempts nextId) s).passes =
        [⟨[], none, (queue.foldl (dispatchOne maxOutboxAttempts dispatcher)
          (tally, s.outbox)).1.relayed⟩] ∧
      (events.foldl (Relay.step maxOutboxAttempts nextId) s).outbox =
        (queue.foldl (dispatchOne maxOutboxAttempts dispatcher) (tally, s.outbox)).2 := by
  induction queue generalizing s tally with
  | nil => exact ⟨[], hpasses, rfl⟩
  | cons message queue ih =>
    cases hresult : dispatcher message with
    | ok u =>
      obtain ⟨events, hrest⟩ := ih (Relay.step maxOutboxAttempts nextId s (.dispatch 0 (.ok ())))
        { tally with relayed := tally.relayed ++ [message.id] } (by simp [Relay.step, hpasses])
      refine ⟨.dispatch 0 (.ok ()) :: events, ?_⟩
      have houtbox : (Relay.step maxOutboxAttempts nextId s (.dispatch 0 (.ok ()))).outbox = s.outbox := by
        simp [Relay.step, hpasses]
      rw [houtbox] at hrest
      simpa only [List.foldl_cons, dispatchOne, hresult] using hrest
    | error e =>
      have hnext : (dispatchOne maxOutboxAttempts dispatcher (tally, s.outbox) message).2 =
          recordDispatchFailure maxOutboxAttempts message (portCode e) s.outbox ∧
          (dispatchOne maxOutboxAttempts dispatcher (tally, s.outbox) message).1.relayed =
            tally.relayed := by
        simp only [dispatchOne, hresult]
        split <;> exact ⟨rfl, rfl⟩
      have hsteps : (([.dispatch 0 (.error e), .write 0 .taken] : List RelayEvent).foldl
        (Relay.step maxOutboxAttempts nextId) s).passes =
          [⟨queue, none, tally.relayed⟩] ∧
          (([.dispatch 0 (.error e), .write 0 .taken] : List RelayEvent).foldl
            (Relay.step maxOutboxAttempts nextId) s).outbox =
            recordDispatchFailure maxOutboxAttempts message (portCode e) s.outbox := by
        simp [Relay.step, hpasses, written]
      obtain ⟨events, hrest⟩ := ih _ (dispatchOne maxOutboxAttempts dispatcher (tally, s.outbox) message).1
        (hnext.2.symm ▸ hsteps.1)
      refine ⟨[.dispatch 0 (.error e), .write 0 .taken] ++ events, ?_⟩
      rw [hsteps.2, ← hnext.1] at hrest
      rw [List.foldl_append, List.foldl_cons]
      exact hrest

theorem relayOutbox_run (input : RelayInput) (hpasses : s.passes = []) :
    ∃ events : List RelayEvent, (events.foldl (Relay.step maxOutboxAttempts nextId) s).passes = [] ∧
      (events.foldl (Relay.step maxOutboxAttempts nextId) s).outbox =
        (relayOutbox maxOutboxAttempts input s.outbox).2 := by
  obtain ⟨events, hrest, houtbox⟩ := @dispatchAll_run maxOutboxAttempts nextId input.dispatcher
    (OutboxRows.claimBatch input.limit s.outbox.rows)
    (Relay.step maxOutboxAttempts nextId s (.claim input.limit))
    ⟨[], [], []⟩ (by simp [Relay.step, hpasses])
  refine ⟨.claim input.limit :: (events ++ [.mark 0 .taken]), ?_⟩
  rw [List.foldl_cons, List.foldl_append]
  simp only [List.foldl_cons, List.foldl_nil]
  generalize events.foldl (Relay.step maxOutboxAttempts nextId)
    (Relay.step maxOutboxAttempts nextId s (.claim input.limit)) = last at hrest houtbox
  simp only [Relay.step, hrest]
  refine ⟨rfl, ?_⟩
  simp [written, houtbox, relayOutbox, Relay.step]

/-! ## Passes that end drain the outbox -/

/-- How many more passes a row can take: its attempts that are left, and one. -/
def weight (maxOutboxAttempts : Int) (m : OutboxMessage) : Nat :=
  if m.status = .pending then (maxOutboxAttempts - m.attempts).toNat + 1 else 0

def rowWeight (maxOutboxAttempts : Int) (j : Journaled OutboxRows) (id : String) : Nat :=
  ((j.rows.look id).map (weight maxOutboxAttempts)).getD 0

def backlog (maxOutboxAttempts : Int) (j : Journaled OutboxRows) : Nat :=
  (j.rows.order.map (rowWeight maxOutboxAttempts j)).sum

def Named (j : Journaled OutboxRows) : Prop :=
  ∀ id m, j.rows.look id = some m → m.id = id ∧ id ∈ j.rows.order

/-- The rows stay the same rows, and none gains weight. -/
structure Lighter (maxOutboxAttempts : Int) (j j' : Journaled OutboxRows) : Prop where
  order : j'.rows.order = j.rows.order
  rows : ∀ k, ∃ f : OutboxMessage → OutboxMessage, j'.rows.look k = (j.rows.look k).map f ∧
    ∀ m, Advances m (f m) ∧ weight maxOutboxAttempts (f m) ≤ weight maxOutboxAttempts m

theorem Lighter.refl : Lighter maxOutboxAttempts j j :=
  ⟨rfl, fun _ => ⟨fun m => m, (Option.map_id' ..).symm, fun m => ⟨.refl m, le_rfl⟩⟩⟩

theorem Lighter.trans {j j' j'' : Journaled OutboxRows} (h : Lighter maxOutboxAttempts j j')
    (h' : Lighter maxOutboxAttempts j' j'') : Lighter maxOutboxAttempts j j'' := by
  refine ⟨h'.order.trans h.order, fun k => ?_⟩
  obtain ⟨f, hf, hlight⟩ := h.rows k
  obtain ⟨f', hf', hlight'⟩ := h'.rows k
  refine ⟨f' ∘ f, by rw [hf', hf, Option.map_map], fun m => ?_⟩
  exact ⟨(hlight m).1.trans (hlight' (f m)).1, (hlight' (f m)).2.trans (hlight m).2⟩

theorem Lighter.rowWeight {j j' : Journaled OutboxRows} (h : Lighter maxOutboxAttempts j j') (k : String) :
    rowWeight maxOutboxAttempts j' k ≤ rowWeight maxOutboxAttempts j k := by
  obtain ⟨f, hf, hlight⟩ := h.rows k
  unfold Relay.rowWeight
  rw [hf]
  cases j.rows.look k with
  | none => exact le_rfl
  | some m => exact (hlight m).2

theorem Lighter.named {j j' : Journaled OutboxRows} (h : Lighter maxOutboxAttempts j j') (hj : Named j) :
    Named j' := by
  intro id m' hm'
  obtain ⟨f, hf, hlight⟩ := h.rows id
  rw [hf] at hm'
  obtain ⟨m, hm, rfl⟩ := Option.map_eq_some_iff.mp hm'
  obtain ⟨hid, hmem⟩ := hj id m hm
  exact ⟨(hlight m).1.id.trans hid, h.order ▸ hmem⟩

theorem lighter_recordDispatchFailure :
    Lighter maxOutboxAttempts j (recordDispatchFailure maxOutboxAttempts message code j) := by
  refine ⟨order_recordDispatchFailure message code j, fun k =>
    ⟨_, look_recordDispatchFailure message code j k, fun m =>
      ⟨advances_failedChange message code message.id k m, ?_⟩⟩⟩
  unfold OutboxRows.amend
  split
  · rename_i hk
    unfold failedChange weight
    rw [if_pos hk.2]
    split
    · exact Nat.zero_le _
    · simp only [hk.2, if_true]
      omega
  · exact le_rfl

theorem weight_markedRow : weight maxOutboxAttempts (markedRow ids k m) ≤ weight maxOutboxAttempts m ∧
      (k ∈ ids → weight maxOutboxAttempts (markedRow ids k m) = 0) := by
  unfold markedRow weight
  by_cases hk : k ∈ ids <;> by_cases hstatus : m.status = .pending <;> simp [hk, hstatus]

theorem lighter_markRelayed : Lighter maxOutboxAttempts j (markRelayed ids j) :=
  ⟨order_markRelayed ids j, fun k => ⟨_, look_markRelayed ids j k, fun m =>
    ⟨advances_markedRow ids k m, (weight_markedRow ids k m).1⟩⟩⟩

theorem lighter_dispatchOne (dispatcher : Dispatcher) (t : RelaySummary × Journaled OutboxRows)
    (message : OutboxMessage) :
    Lighter maxOutboxAttempts t.2 (dispatchOne maxOutboxAttempts dispatcher t message).2 ∧
      ∀ id ∈ t.1.relayed, id ∈ (dispatchOne maxOutboxAttempts dispatcher t message).1.relayed := by
  unfold dispatchOne
  split
  · exact ⟨.refl _, fun id hid => List.mem_append_left _ hid⟩
  · simp only
    split
    · exact ⟨lighter_recordDispatchFailure _ _ _, fun id hid => hid⟩
    · exact ⟨lighter_recordDispatchFailure _ _ _, fun id hid => hid⟩

theorem lighter_dispatchAll (dispatcher : Dispatcher) (queue : List OutboxMessage)
    (t : RelaySummary × Journaled OutboxRows) :
    Lighter maxOutboxAttempts t.2 (queue.foldl (dispatchOne maxOutboxAttempts dispatcher) t).2 ∧
      ∀ id ∈ t.1.relayed, id ∈ (queue.foldl (dispatchOne maxOutboxAttempts dispatcher) t).1.relayed := by
  induction queue generalizing t with
  | nil => exact ⟨.refl _, fun id hid => hid⟩
  | cons message queue ih =>
    obtain ⟨hlight, hkept⟩ := lighter_dispatchOne dispatcher t message
    obtain ⟨hrest, hrestKept⟩ := ih (dispatchOne maxOutboxAttempts dispatcher t message)
    exact ⟨hlight.trans hrest, fun id hid => hrestKept id (hkept id hid)⟩

theorem lighter_relayOutbox (input : RelayInput) (j : Journaled OutboxRows) :
    Lighter maxOutboxAttempts j (relayOutbox maxOutboxAttempts input j).2 :=
  (lighter_dispatchAll input.dispatcher _ (⟨[], [], []⟩, j)).1.trans (lighter_markRelayed _ _)

theorem rowWeight_first {input : RelayInput} {j : Journaled OutboxRows} {message : OutboxMessage}
    {queue : List OutboxMessage} (hclaim : OutboxRows.claimBatch input.limit j.rows = message :: queue)
    (hrow : j.rows.look message.id = some message) (hstatus : message.status = .pending) :
    rowWeight maxOutboxAttempts (relayOutbox maxOutboxAttempts input j).2 message.id <
      rowWeight maxOutboxAttempts j message.id := by
  have hbefore : rowWeight maxOutboxAttempts j message.id =
      (maxOutboxAttempts - message.attempts).toNat + 1 := by
    unfold rowWeight weight
    rw [hrow, Option.map_some, Option.getD_some, if_pos hstatus]
  unfold relayOutbox
  rw [hclaim]
  simp only [List.foldl_cons]
  cases hresult : input.dispatcher message with
  | ok u =>
    have hfirst : dispatchOne maxOutboxAttempts input.dispatcher (⟨[], [], []⟩, j) message =
        (⟨[message.id], [], []⟩, j) := by
      simp only [dispatchOne, hresult]
      rfl
    rw [hfirst]
    obtain ⟨-, hkept⟩ := @lighter_dispatchAll maxOutboxAttempts input.dispatcher queue
      (⟨[message.id], [], []⟩, j)
    have hin := hkept message.id (List.mem_singleton.mpr rfl)
    have hzero : rowWeight maxOutboxAttempts
        (markRelayed (queue.foldl (dispatchOne maxOutboxAttempts input.dispatcher) (⟨[message.id], [], []⟩,
          j)).1.relayed
          (queue.foldl (dispatchOne maxOutboxAttempts input.dispatcher) (⟨[message.id], [], []⟩, j)).2)
            message.id = 0 := by
      unfold rowWeight
      rw [look_markRelayed, Option.map_map]
      cases (queue.foldl (dispatchOne maxOutboxAttempts input.dispatcher)
          (⟨[message.id], [], []⟩, j)).2.rows.look message.id with
      | none => rfl
      | some m => exact (weight_markedRow _ message.id m).2 hin
    omega
  | error e =>
    have hfirst : (dispatchOne maxOutboxAttempts input.dispatcher (⟨[], [], []⟩, j) message).2 =
        recordDispatchFailure maxOutboxAttempts message (portCode e) j := by
      simp only [dispatchOne, hresult]
      split <;> rfl
    have hlost : rowWeight maxOutboxAttempts (recordDispatchFailure maxOutboxAttempts message (portCode e)
      j) message.id <
        rowWeight maxOutboxAttempts j message.id := by
      rw [hbefore]
      unfold rowWeight
      rw [look_recordDispatchFailure, hrow]
      unfold OutboxRows.amend failedChange weight givesUp
      simp only [Option.map_some, Option.getD_some, hstatus, and_self, if_true]
      split_ifs with hgives hdead
      · exact absurd hdead (fun h => nomatch h)
      · exact Nat.succ_pos _
      · have hleft := of_decide_eq_false (Bool.eq_false_iff.mpr hgives)
        simp only
        omega
      · exact Nat.succ_pos _
    have hrest := (@lighter_dispatchAll maxOutboxAttempts input.dispatcher queue
      (dispatchOne maxOutboxAttempts input.dispatcher (⟨[], [], []⟩, j) message)).1
    rw [hfirst] at hrest
    exact ((hrest.trans (lighter_markRelayed _ _)).rowWeight message.id).trans_lt hlost

theorem claimBatch_of_pending {limit : Nat} (hlimit : 1 ≤ limit) {j : Journaled OutboxRows} (hj : Named j)
    {id : String} {m : OutboxMessage} (hm : j.rows.look id = some m) (hstatus : m.status = .pending) :
    ∃ message queue, OutboxRows.claimBatch limit j.rows = message :: queue ∧
      j.rows.look message.id = some message ∧ message.status = .pending := by
  have hin : m ∈ j.rows.order.filterMap fun id => (j.rows.look id).filter (·.status = .pending) := by
    refine List.mem_filterMap.mpr ⟨id, (hj id m hm).2, ?_⟩
    simp [hm, hstatus]
  cases hclaim : OutboxRows.claimBatch limit j.rows with
  | nil =>
    unfold OutboxRows.claimBatch at hclaim
    rcases List.take_eq_nil_iff.mp hclaim with hzero | hnil
    · omega
    · rw [hnil] at hin
      cases hin
  | cons message queue =>
    have hmem : message ∈ OutboxRows.claimBatch limit j.rows := hclaim ▸ List.mem_cons_self
    obtain ⟨id', -, hrow⟩ := List.mem_filterMap.mp (List.mem_of_mem_take hmem)
    obtain ⟨hlook, hpending⟩ := Option.filter_eq_some_iff.mp hrow
    have hid := (hj id' message hlook).1
    exact ⟨message, queue, rfl, hid.symm ▸ hlook, of_decide_eq_true hpending⟩

theorem backlog_zero {j : Journaled OutboxRows} (hj : Named j) (hzero : backlog maxOutboxAttempts j = 0)
    {id : String} {m : OutboxMessage} (hm : j.rows.look id = some m) : m.status ≠ .pending := by
  intro hstatus
  have hrow := List.sum_eq_zero_iff_forall_eq_nat.mp hzero _ (List.mem_map_of_mem (hj id m hm).2)
  unfold rowWeight weight at hrow
  rw [hm, Option.map_some, Option.getD_some, if_pos hstatus] at hrow
  cases hrow

/-- Every pass that ends takes something off the backlog while there is one. -/
theorem backlog_relayOutbox {input : RelayInput} (hlimit : 1 ≤ input.limit) {j : Journaled OutboxRows}
    (hj : Named j) :
    backlog maxOutboxAttempts (relayOutbox maxOutboxAttempts input j).2 ≤
      backlog maxOutboxAttempts j - 1 := by
  have hlight := @lighter_relayOutbox maxOutboxAttempts input j
  have hle : ∀ id ∈ j.rows.order, rowWeight maxOutboxAttempts
    (relayOutbox maxOutboxAttempts input j).2 id ≤
      rowWeight maxOutboxAttempts j id := fun id _ => hlight.rowWeight id
  have hsum : backlog maxOutboxAttempts (relayOutbox maxOutboxAttempts input j).2 =
      (j.rows.order.map (rowWeight maxOutboxAttempts (relayOutbox maxOutboxAttempts input j).2)).sum := by
    unfold backlog
    rw [hlight.order]
  by_cases hdone : ∃ id m, j.rows.look id = some m ∧ m.status = .pending
  · obtain ⟨id, m, hm, hstatus⟩ := hdone
    obtain ⟨message, queue, hclaim, hrow, hpending⟩ := claimBatch_of_pending hlimit hj hm hstatus
    have hlt := @rowWeight_first maxOutboxAttempts _ _ _ _ hclaim hrow hpending
    have hstrict : (j.rows.order.map
      (rowWeight maxOutboxAttempts (relayOutbox maxOutboxAttempts input j).2)).sum <
        backlog maxOutboxAttempts j :=
      List.sum_lt_sum _ _ hle ⟨message.id, (hj message.id message hrow).2, hlt⟩
    omega
  · have hnone : ∀ id ∈ j.rows.order, rowWeight maxOutboxAttempts j id = 0 := by
      intro id _
      unfold rowWeight weight
      cases hm : j.rows.look id with
      | none => rfl
      | some m =>
        rw [Option.map_some, Option.getD_some]
        exact if_neg fun hstatus => hdone ⟨id, m, hm, hstatus⟩
    have hzero : (j.rows.order.map (rowWeight maxOutboxAttempts
        (relayOutbox maxOutboxAttempts input j).2)).sum = 0 := by
      apply List.sum_eq_zero
      intro x hx
      obtain ⟨id, hid, rfl⟩ := List.mem_map.mp hx
      exact Nat.le_zero.mp ((hle id hid).trans_eq (hnone id hid))
    omega

/-- The outbox after passes that end, one after the other. -/
def relayEach (maxOutboxAttempts : Int) (inputs : List RelayInput) (outbox : Journaled OutboxRows) :
    Journaled OutboxRows :=
  inputs.foldl (fun outbox input => (relayOutbox maxOutboxAttempts input outbox).2) outbox

theorem backlog_relayEach {inputs : List RelayInput} (hlimits : ∀ input ∈ inputs, 1 ≤ input.limit)
    {j : Journaled OutboxRows} (hj : Named j) :
    Named (relayEach maxOutboxAttempts inputs j) ∧
      backlog maxOutboxAttempts (relayEach maxOutboxAttempts inputs j) ≤
        backlog maxOutboxAttempts j - inputs.length := by
  induction inputs generalizing j with
  | nil => exact ⟨hj, le_rfl⟩
  | cons input inputs ih =>
    have hone := @backlog_relayOutbox maxOutboxAttempts _ (hlimits input List.mem_cons_self) _ hj
    obtain ⟨hnamed, hrest⟩ := ih (fun i hi => hlimits i (List.mem_cons_of_mem _ hi))
      ((@lighter_relayOutbox maxOutboxAttempts input j).named hj)
    refine ⟨hnamed, hrest.trans ?_⟩
    rw [List.length_cons]
    omega

/-- What the relay promises of a run. -/
structure LosesNoEvent (maxOutboxAttempts : Int) (nextId : Nat → String) (events : List RelayEvent) :
    Prop where
  relayed : ∀ id m, (run maxOutboxAttempts nextId events).look id = some m → m.status = .relayed →
    (run maxOutboxAttempts nextId events).Delivered id m.event
  dead : ∀ id m, (run maxOutboxAttempts nextId events).look id = some m → m.status = .dead →
    maxOutboxAttempts ≤ (run maxOutboxAttempts nextId events).failures id
  final : ∀ more id m, (run maxOutboxAttempts nextId events).look id = some m → m.status ≠ .pending →
    (run maxOutboxAttempts nextId (events ++ more)).look id = some m
  drains : ∃ passes : Nat, ∀ inputs : List RelayInput, passes ≤ inputs.length →
    (∀ input ∈ inputs, 1 ≤ input.limit) → ∀ id m,
      (relayEach maxOutboxAttempts inputs (run maxOutboxAttempts nextId events).outbox).rows.look id =
        some m →
        m.status ≠ .pending

/-- Whatever passes overlap or stop, the relay loses no event, and passes that end drain the outbox. -/
theorem relay_loses_no_event (maxOutboxAttempts : Int) {nextId : Nat → String}
    (hinj : Function.Injective nextId) (events : List RelayEvent) :
    LosesNoEvent maxOutboxAttempts nextId events := by
  have hsound : Sound maxOutboxAttempts nextId (run maxOutboxAttempts nextId events) := by
    have hrun := (@Sound.run maxOutboxAttempts _ hinj events []).1
    rwa [List.append_nil] at hrun
  refine ⟨hsound.relayed, hsound.dead, ?_, ?_⟩
  · intro more id m hm hfinal
    obtain ⟨m', hm', hadvances⟩ := (@Sound.run maxOutboxAttempts _ hinj events more).2.rows id m hm
    rw [hm', hadvances.final hfinal]
  · have hnamed : Named (run maxOutboxAttempts nextId events).outbox := fun id m hm =>
      ⟨(hsound.minted id m hm).1, hsound.listed id m hm⟩
    refine ⟨backlog maxOutboxAttempts (run maxOutboxAttempts nextId events).outbox, ?_⟩
    intro inputs hlength hlimits id m hm
    obtain ⟨hkept, hleft⟩ := @backlog_relayEach maxOutboxAttempts _ hlimits _ hnamed
    exact @backlog_zero maxOutboxAttempts _ hkept (by omega) _ _ hm

def sampleEvent : EconomyEvent := ⟨"evt_1", "economy.spent", 1, 0, "usr_a", [], "user"⟩

theorem relay_loses_no_event_overlapping : LosesNoEvent 2 (fun n => toString n)
    [.enqueue 0 sampleEvent none, .claim 5, .claim 5, .dispatch 0 (.error (plainError "down")),
      .dispatch 1 (.ok ()),
      .write 0 .taken, .mark 1 .taken, .stop 0] :=
  relay_loses_no_event 2 (fun _ _ h => Text.toString_nat_inj h) _

end Relay

end EconomyLab
