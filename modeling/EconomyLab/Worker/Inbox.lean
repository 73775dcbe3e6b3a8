import EconomyLab.Worker.Webhooks

/-!
# The inbox drain

A drain claims pending rows and submits their operations one after another; what came of a submit is
written to its row. Drains overlap, other callers submit between any two calls, and a drain may stop
before it writes: the row is then claimed and submitted again.
-/

namespace EconomyLab

open Foundation

structure FailedApply where
  id : String
  code : Option ErrorCode
  retryable : Bool

structure InboxSummary where
  applied : List String
  failed : List FailedApply
  deadLettered : List (String × String)

/-- What came of one entry: the row it is written to, and its line of the summary. -/
inductive ApplyOutcome
  | applied
  | failed (normalized : Fault)
  | deadLettered (reason : String)
deriving DecidableEq

def faultText (e : Fault) : String := (e.code.map ErrorCode.text).getD ""

section Apply

variable (config : Config) (entry : InboxMessage Operation)

/-- The cap counts the failure at hand, on the row as it was claimed. -/
def recordInboxFailure (normalized : Fault) : ApplyOutcome :=
  if !normalized.retryable || config.maxInboxAttempts ≤ entry.attempts + 1 then .deadLettered
    (faultText normalized)
  else .failed normalized

def applyOutcome : Slot → ApplyOutcome
  | .ok (.committed _) => .applied
  | .ok (.duplicate _) => .applied
  | .ok (.rejected detail) => .deadLettered detail.reason.text
  | .error e => recordInboxFailure config entry (normalizePortError e)

def ApplyOutcome.write : ApplyOutcome → InboxWrite Operation
  | .applied => .markApplied entry.id
  | .failed _ => .bumpAttempt entry.id
  | .deadLettered reason => .deadLetter entry.id reason

def InboxSummary.add (tally : InboxSummary) : ApplyOutcome → InboxSummary
  | .applied => { tally with applied := tally.applied ++ [entry.id] }
  | .failed e => { tally with failed := tally.failed ++ [⟨entry.id, e.code, e.retryable⟩] }
  | .deadLettered reason => { tally with deadLettered := tally.deadLettered ++ [(entry.id, reason)] }

end Apply

section Drain

variable (ports : Ports) (env : Env) (config : Config)

/-- One claimed entry: the submit, the write that follows it, and its line of the summary. -/
def applyOne (now : Int) (s : InboxSummary × World × InboxRows Operation)
    (entry : InboxMessage Operation) :
    InboxSummary × World × InboxRows Operation :=
  let done := submit (registry ports) env config entry.operation now s.2.1
  let outcome := applyOutcome config entry done.1
  (s.1.add entry outcome, done.2, ((outcome.write entry).run ⟨s.2.2, none⟩).rows)

/-- A drain that runs to its end; `gate` is what the pause gate reads at each submit. -/
def drainInbox (limit : Nat) (gate : Nat → Int) (w : World) (rows : InboxRows Operation) :
    InboxSummary × World × InboxRows Operation :=
  ((InboxRows.claimInbound limit rows).zipIdx).foldl
  (fun s p => applyOne ports env config (gate p.2) s p.1)
    (⟨[], [], []⟩, w, rows)

end Drain

/-! ## The system -/

/-- The store with its inbox, the rows drains have claimed, what was answered for a claimed row, and every
submit so far. -/
structure Inbox where
  world : World
  rows : InboxRows Operation
  claimed : List (InboxMessage Operation)
  answered : List (InboxMessage Operation × Slot)
  submitted : List (Operation × Slot)

inductive InboxEvent
  | deliver (event : WebhookEvent)
  | submit (operation : Operation) (now : Int)
  | claim (limit : Nat)
  /-- The submit of a claimed row. -/
  | attempt (n : Nat) (now : Int)
  /-- The write that follows an answer; a drain that stopped never gets there. -/
  | settle (n : Nat)
  | revive (limit : Nat)

inductive WebhookStatus
  | accepted
  | duplicate
deriving DecidableEq

structure WebhookReceipt where
  status : WebhookStatus
  entry : InboxMessage Operation

namespace Inbox

def start (w : World) : Inbox := ⟨w, Mailbox.empty Table.empty, [], [], []⟩

def look (s : Inbox) (id : String) : Option (InboxMessage Operation) := s.rows.look id

def write (s : Inbox) (w : InboxWrite Operation) : Inbox := { s with rows := (w.run ⟨s.rows, none⟩).rows }

section Calls

variable (ports : Ports) (env : Env) (config : Config)

def inboundRow (event : WebhookEvent) (w : World) : InboxMessage Operation :=
  ⟨"ibx_" ++ env.uuid w.minted, event.eventId, toOperation event, .pending, 0, env.clock w.ticks, none⟩

/-- The row goes in by a transaction of its own, and the answer is the row that stands. -/
def handleWebhook (event : WebhookEvent) (s : Inbox) : WebhookReceipt × Inbox :=
  let row := inboundRow env event s.world
  let rows := ((InboxWrite.enqueueInbound row).run ⟨s.rows, some []⟩).commit.rows
  let stored := (InboxRows.received event.eventId rows).getD row
  (⟨if stored.id = row.id then .accepted else .duplicate, stored⟩,
    { s with world := { s.world with minted := s.world.minted + 1, ticks := s.world.ticks + 1 }, rows })

def answer (operation : Operation) (now : Int) (s : Inbox) : Slot × Inbox :=
  let done := submit (registry ports) env config operation now s.world
  (done.1, { s with world := done.2, submitted := s.submitted ++ [(operation, done.1)] })

def step (s : Inbox) : InboxEvent → Inbox
  | .deliver event => (handleWebhook env event s).2
  | .submit operation now => (answer ports env config operation now s).2
  | .claim limit => { s with claimed := s.claimed ++ InboxRows.claimInbound limit s.rows }
  | .attempt n now =>
    match s.claimed[n]? with
    | none => s
    | some entry =>
      let done := answer ports env config entry.operation now s
      { done.2 with answered := s.answered ++ [(entry, done.1)] }
  | .settle n =>
    match s.answered[n]? with
    | none => s
    | some (entry, slot) => s.write ((applyOutcome config entry slot).write entry)
  | .revive limit => s.write (.reviveDead limit)

def run (events : List InboxEvent) (s : Inbox) : Inbox := events.foldl (step ports env config) s

end Calls

end Inbox

/-! ## What a write does to the rows -/

namespace Mailbox

variable {M X : Type} {j : Journaled (Mailbox M X)} {id : String} {obj : Obj M}

theorem look_edited (hobj : j.rows.find id = some obj) (change undo : M → M) (k : String) :
    (editRow j id obj change undo).rows.look k = if k =
      id then some (change obj.value) else j.rows.look k := by
  show ((j.rows.rows.edit id obj.ref change).rows.get k).map Obj.value = _
  rw [Shelf.edit_get, Option.map_map]
  by_cases hk : k = id
  · subst hk
    have hget : j.rows.rows.rows.get k = some obj := hobj
    simp [hget]
  · simp [hk, look, Shelf.look, Function.comp_def]

theorem look_replaced (obj : Obj M) (next : M) (k : String) :
    (replaceRow j id obj next).rows.look k = if k = id then some next else j.rows.look k := by
  show ((j.rows.rows.allocate.put id next).rows.get k).map Obj.value = _
  by_cases hk : k = id
  · simp [Shelf.put, hk]
  · simp [Shelf.put, Shelf.allocate, hk, look, Shelf.look]

end Mailbox

open Mailbox

structure SameEvent (m m' : InboxMessage Operation) : Prop where
  id : m'.id = m.id
  key : m'.key = m.key
  operation : m'.operation = m.operation

theorem SameEvent.refl (m : InboxMessage Operation) : SameEvent m m := ⟨rfl, rfl, rfl⟩

theorem SameEvent.trans {m m' m'' : InboxMessage Operation} (h : SameEvent m m') (h' : SameEvent m' m'') :
    SameEvent m m'' :=
  ⟨h'.id.trans h.id, h'.key.trans h.key, h'.operation.trans h.operation⟩

/-- Every row stands for the event it stood for. None leaves applied, and none gets there but the marked
one. -/
structure KeepsEvents (marked : Option String) (t t' : InboxRows Operation) : Prop where
  index : t'.index = t.index
  ahead : ∀ k m, t.look k = some m → ∃ m', t'.look k = some m' ∧ SameEvent m m' ∧
    (m.status = .applied → m'.status = .applied)
  back : ∀ k m', t'.look k = some m' → ∃ m, t.look k = some m ∧ SameEvent m m' ∧
    (m'.status = .applied → m.status = .applied ∨ marked = some k)

namespace KeepsEvents

variable {marked : Option String} {t t' t'' : InboxRows Operation}

theorem refl (marked : Option String) (t : InboxRows Operation) : KeepsEvents marked t t where
  index := Eq.refl _
  ahead _ m hm := ⟨m, hm, .refl m, fun h => h⟩
  back _ m hm := ⟨m, hm, .refl m, fun h => Or.inl h⟩

theorem trans (h : KeepsEvents marked t t') (h' : KeepsEvents marked t' t'') :
    KeepsEvents marked t t'' where
  index := h'.index.trans h.index
  ahead k m hm := by
    obtain ⟨m', hm', hsame, happlied⟩ := h.ahead k m hm
    obtain ⟨m'', hm'', hsame', happlied'⟩ := h'.ahead k m' hm'
    exact ⟨m'', hm'', hsame.trans hsame', fun hm => happlied' (happlied hm)⟩
  back k m'' hm'' := by
    obtain ⟨m', hm', hsame', happlied'⟩ := h'.back k m'' hm''
    obtain ⟨m, hm, hsame, happlied⟩ := h.back k m' hm'
    refine ⟨m, hm, hsame.trans hsame', ?_⟩
    intro hstatus
    rcases happlied' hstatus with hstatus | hmarked
    · exact happlied hstatus
    · exact Or.inr hmarked

theorem of_look {id : String} {m next : InboxMessage Operation} (hm : t.look id = some m)
    (hleft : m.status ≠ .applied) (hsame : SameEvent m next)
    (hmark : next.status = .applied → marked = some id) (hindex : t'.index = t.index)
    (hlook : ∀ k, t'.look k = if k = id then some next else t.look k) :
    KeepsEvents marked t t' where
  index := hindex
  ahead k m₀ hm₀ := by
    by_cases hk : k = id
    · subst hk
      obtain rfl : m = m₀ := Option.some.inj (hm.symm.trans hm₀)
      refine ⟨next, ?_, hsame, fun h => absurd h hleft⟩
      rw [hlook, if_pos (Eq.refl k)]
    · refine ⟨m₀, ?_, .refl m₀, fun h => h⟩
      rw [hlook, if_neg hk, hm₀]
  back k m' hm' := by
    rw [hlook] at hm'
    by_cases hk : k = id
    · subst hk
      rw [if_pos (Eq.refl k)] at hm'
      obtain rfl : next = m' := Option.some.inj hm'
      exact ⟨m, hm, hsame, fun h => Or.inr (hmark h)⟩
    · rw [if_neg hk] at hm'
      exact ⟨m', hm', .refl m', fun h => Or.inl h⟩

end KeepsEvents

theorem markApplied_keepsEvents (id : String) (j : Journaled (InboxRows Operation)) :
    KeepsEvents (some id) j.rows (InboxRows.markApplied id j).rows := by
  unfold InboxRows.markApplied
  cases hp : InboxRows.pending j.rows id with
  | none => exact .refl _ _
  | some obj =>
    obtain ⟨hfind, hstatus⟩ := InboxWrite.pending_eq hp
    refine KeepsEvents.of_look (look_of_find hfind) ?_ ?_ ?_ ?_ (look_edited hfind _ _)
    · simp [hstatus]
    · exact ⟨rfl, rfl, rfl⟩
    · exact fun _ => rfl
    · rfl

variable (marked : Option String)

theorem bumpAttempt_keepsEvents (id : String) (j : Journaled (InboxRows Operation)) :
    KeepsEvents marked j.rows (InboxRows.bumpAttempt id j).rows := by
  unfold InboxRows.bumpAttempt
  cases hp : InboxRows.pending j.rows id with
  | none => exact .refl _ _
  | some obj =>
    obtain ⟨hfind, hstatus⟩ := InboxWrite.pending_eq hp
    have hleft : obj.value.status ≠ .applied := by simp [hstatus]
    refine KeepsEvents.of_look (look_of_find hfind) hleft ?_ ?_ ?_ (look_edited hfind _ _)
    · exact ⟨rfl, rfl, rfl⟩
    · exact fun h => absurd h hleft
    · rfl

theorem deadLetter_keepsEvents (id reason : String) (j : Journaled (InboxRows Operation)) :
    KeepsEvents marked j.rows (InboxRows.deadLetter id reason j).rows := by
  unfold InboxRows.deadLetter
  cases hp : InboxRows.pending j.rows id with
  | none => exact .refl _ _
  | some obj =>
    obtain ⟨hfind, hstatus⟩ := InboxWrite.pending_eq hp
    refine KeepsEvents.of_look (look_of_find hfind) ?_ ?_ ?_ ?_ (look_replaced obj _)
    · simp [hstatus]
    · exact ⟨rfl, rfl, rfl⟩
    · intro h
      cases h
    · rfl

theorem reviveOne_keepsEvents {row : String × InboxMessage Operation}
    {j : Journaled (InboxRows Operation)} (hrow : j.rows.look row.1 = some row.2)
    (hdead : row.2.status = .dead) :
    KeepsEvents marked j.rows (InboxRows.reviveOne j row).rows := by
  unfold InboxRows.reviveOne
  cases hfind : j.rows.find row.1 with
  | none => exact .refl _ _
  | some obj =>
    refine KeepsEvents.of_look hrow ?_ ?_ ?_ ?_ (look_replaced obj _)
    · simp [hdead]
    · exact ⟨rfl, rfl, rfl⟩
    · intro h
      cases h
    · rfl

theorem reviveAll_keepsEvents {rows : List (String × InboxMessage Operation)}
    {j : Journaled (InboxRows Operation)} (hnodup : (rows.map Prod.fst).Nodup)
    (hrows : ∀ row ∈ rows, j.rows.look row.1 = some row.2 ∧ row.2.status = .dead) :
    KeepsEvents marked j.rows (rows.foldl InboxRows.reviveOne j).rows := by
  induction rows generalizing j with
  | nil => exact .refl _ _
  | cons row rows ih =>
    obtain ⟨hnotin, hrest⟩ := List.nodup_cons.mp hnodup
    obtain ⟨hlook, hdead⟩ := hrows row List.mem_cons_self
    refine (reviveOne_keepsEvents marked hlook hdead).trans (ih hrest ?_)
    intro row' hmem
    have hne : row'.1 ≠ row.1 := by
      intro heq
      exact hnotin (heq ▸ List.mem_map_of_mem hmem)
    rw [InboxWrite.look_reviveOne j hne]
    exact hrows row' (List.mem_cons_of_mem _ hmem)

theorem reviveDead_keepsEvents (limit : Nat) {j : Journaled (InboxRows Operation)}
    (halloc : j.rows.rows.Allocated) : KeepsEvents marked j.rows (InboxRows.reviveDead limit j).rows := by
  obtain ⟨hnodup, hrows⟩ := InboxWrite.deadRows_found limit halloc.nodup
  exact reviveAll_keepsEvents _ hnodup hrows

/-- What a settled answer writes marks a row applied only where the answer says so. -/
theorem settle_keepsEvents (config : Config) (entry : InboxMessage Operation) (slot : Slot)
    (j : Journaled (InboxRows Operation)) :
    KeepsEvents (if applyOutcome config entry slot = .applied then some entry.id else none) j.rows
      (((applyOutcome config entry slot).write entry).run j).rows := by
  cases applyOutcome config entry slot with
  | applied => exact markApplied_keepsEvents entry.id j
  | failed e => exact bumpAttempt_keepsEvents _ entry.id j
  | deadLettered reason => exact deadLetter_keepsEvents _ entry.id reason j

end EconomyLab
