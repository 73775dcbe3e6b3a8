import EconomyLab.Worker.Inbox

/-!
# Provider events take effect once

An event has one row, and its operation one key. The keys the store has committed and the answers given so
far agree, so however drains overlap or stop, no operation of an event commits a second time.
-/

namespace EconomyLab

open Foundation

def Took (slot : Slot) : Prop :=
  ∃ transaction, slot = .ok (.committed transaction) ∨ slot = .ok (.duplicate transaction)

variable {o : TopUpOperation} {entry : InboxMessage Operation} {t : InboxRows Operation}
  {marked : Option String} {events : List InboxEvent} {event : WebhookEvent} {now : Int}
  {key : String}

theorem took_of_applied {config : Config} {slot : Slot}
    (h : applyOutcome config entry slot = .applied) : Took slot := by
  cases slot with
  | error e =>
    simp only [applyOutcome, recordInboxFailure] at h
    split at h <;> cases h
  | ok outcome =>
    cases outcome with
    | committed transaction => exact ⟨transaction, Or.inl rfl⟩
    | duplicate transaction => exact ⟨transaction, Or.inr rfl⟩
    | rejected detail => cases h

section Submit

variable {ports : Ports} {env : Env} {config : Config} {operation : Operation} {now : Int} {w : World}
  {transaction : Transaction}

theorem submit_files
    (h : (submit (registry ports) env config operation now w).1 = .ok (.committed transaction)) :
    w.idempotency.rows.committed.get operation.idempotencyKey = none ∧
      (submit (registry ports) env config operation now w).2.idempotency.rows.committed.get
        operation.idempotencyKey =
        some transaction := by
  have hfrom := submit_committed (registry_orderly ports) (eq_of_slot h)
  obtain ⟨w₁, w₂, -, -, hfiles⟩ := hfrom.handled
  refine ⟨hfrom.free, ?_⟩
  rw [hfiles.committed]
  exact Table.get_set_self _ _ _

theorem submit_otherKey (h : w.Settled) (hkey : isReversalKey key = false)
    (hne : key ≠ operation.idempotencyKey) :
    (submit (registry ports) env config operation now w).2.idempotency.rows.committed.get key =
      w.idempotency.rows.committed.get key := by
  by_cases hcommits : ∃ t, (submit (registry ports) env config operation now w).1 = .ok (.committed t)
  · obtain ⟨t, ht⟩ := hcommits
    have hfrom := submit_committed (registry_orderly ports) (eq_of_slot ht)
    obtain ⟨w₁, w₂, hfronts, hhandler, hfiles⟩ := hfrom.handled
    have hkept := (registry_orderly ports).keys env config operation w₁ key hkey
    rw [hhandler] at hkept
    have hother : key ≠ (registry ports).idempotencyKey operation := hne
    rw [hfiles.committed, Table.get_set_of_ne _ _ hother, hkept, hfronts.committed]
  · have hstill := submit_still h fun t ht => hcommits ⟨t, ht⟩
    rw [hstill.committed]

/-- A purchase is answered as a duplicate only where its key committed before. -/
theorem runClaimed_topUp_duplicate {w' : World}
    (h : (runClaimed (registry ports) env config (.topUp o)).run w = (.ok (.duplicate transaction), w')) :
    w.idempotency.rows.committed.get o.idempotencyKey = some transaction := by
  rcases runClaimed_duplicate_cases h with ⟨hkey, -⟩ | ⟨w₁, -, hhandler⟩
  · exact hkey
  · exact absurd rfl (topUp_original env config ports.rates o _ _ _ hhandler transaction)

theorem submit_topUp_duplicate (h : w.Settled)
    (hslot : (submit (registry ports) env config (.topUp o) now w).1 = .ok (.duplicate transaction)) :
    w.idempotency.rows.committed.get o.idempotencyKey = some transaction := by
  unfold submit at hslot
  cases hscreen : screenOperation (registry ports) config (.topUp o) now with
  | error e =>
    rw [hscreen] at hslot
    cases hslot
  | ok refused =>
    rw [hscreen] at hslot
    cases refused with
    | some refused =>
      have hrefused := screenOperation_refused hscreen
      cases hslot
      cases hrefused
    | none =>
      rw [h.closed.beginAll] at hslot
      rcases hrun : (runClaimed (registry ports) env config (.topUp o)).run w.opened with ⟨res, done⟩
      simp only [hrun] at hslot
      cases res with
      | error e => cases hslot
      | ok outcome =>
        cases outcome with
        | rejected detail => cases hslot
        | committed t => cases hslot
        | duplicate t =>
          cases hslot
          have hopened := runClaimed_topUp_duplicate hrun
          exact hopened

end Submit

/-! ## The invariant -/

namespace Inbox

/-- The row of a claimed entry is there, for the same event. -/
def Holds (s : Inbox) (m : InboxMessage Operation) : Prop := ∃ m', s.look m.id = some m' ∧ SameEvent m m'

/-- The operation is the one of the row its key belongs to. -/
def Owns (s : Inbox) (operation : Operation) : Prop :=
  ∀ key, operation.idempotencyKey = webhookIdempotencyKey key →
    ∃ id m, s.look id = some m ∧ m.key = key ∧ m.operation = operation

/-- One row for each delivered event id, under an id minted for it. -/
structure Rows (delivered : WebhookEvent → Prop) (env : Env) (s : Inbox) : Prop where
  allocated : s.rows.rows.Allocated
  ids : ∀ id m, s.look id = some m → m.id = id ∧ ∃ n < s.world.minted, id = "ibx_" ++ env.uuid n
  keyed : ∀ id m, s.look id = some m → s.rows.index.get m.key = some id
  stored : ∀ key id, s.rows.index.get key = some id → ∃ m, s.look id = some m ∧ m.key = key
  events : ∀ id m, s.look id = some m →
    ∃ event, delivered event ∧ m.key = event.eventId ∧ m.operation = toOperation event
  claimed : ∀ m ∈ s.claimed, s.Holds m

/-- What was submitted and answered agrees with the keys the store has committed. -/
structure Answers (s : Inbox) : Prop where
  settled : s.world.Settled
  own : ∀ operation slot, (operation, slot) ∈ s.submitted → s.Owns operation
  filed : ∀ operation transaction, (operation, .ok (.committed transaction)) ∈ s.submitted →
    isReversalKey operation.idempotencyKey = false →
    s.world.idempotency.rows.committed.get operation.idempotencyKey = some transaction
  recorded : ∀ key transaction,
    s.world.idempotency.rows.committed.get (webhookIdempotencyKey key) = some transaction →
    ∃ operation, operation.idempotencyKey = webhookIdempotencyKey key ∧
      (operation, .ok (.committed transaction)) ∈ s.submitted
  issued : ∀ o transaction, (.topUp o, .ok (.duplicate transaction)) ∈ s.submitted →
    ∀ key, o.idempotencyKey = webhookIdempotencyKey key →
      (.topUp o, .ok (.committed transaction)) ∈ s.submitted
  once : s.submitted.Pairwise fun p q => p.1.idempotencyKey = q.1.idempotencyKey →
    isReversalKey p.1.idempotencyKey = false → (committedOf p.2).isSome → committedOf q.2 = none
  answered : ∀ p ∈ s.answered, s.Holds p.1 ∧ (p.1.operation, p.2) ∈ s.submitted
  applied : ∀ id m, s.look id = some m → m.status = .applied → ∃ slot, (m.operation, slot) ∈ s.submitted ∧
    Took slot

structure Sound (delivered : WebhookEvent → Prop) (env : Env) (s : Inbox) : Prop where
  rows : s.Rows delivered env
  answers : s.Answers

variable {delivered : WebhookEvent → Prop} {ports : Ports} {env : Env} {config : Config} {s s' : Inbox}

theorem Rows.unique (h : s.Rows delivered env) {id id' : String} {m m' : InboxMessage Operation}
    (hm : s.look id = some m) (hm' : s.look id' = some m') (hkey : m.key = m'.key) :
    id = id' ∧ m = m' := by
  have hid : id = id' := by
    apply Option.some.inj
    rw [← h.keyed id m hm, ← h.keyed id' m' hm', hkey]
  subst hid
  exact ⟨Eq.refl id, Option.some.inj (hm.symm.trans hm')⟩

variable {id : String} {operation : Operation} {m : InboxMessage Operation}

theorem Rows.owns (h : s.Rows delivered env) (hm : s.Holds m) : s.Owns m.operation := by
  intro key hkey
  obtain ⟨m', hm', hsame⟩ := hm
  obtain ⟨event, -, heventKey, hoperation⟩ := h.events _ m' hm'
  rw [← hsame.operation, hoperation, toOperation_key] at hkey
  refine ⟨m.id, m', hm', ?_, hsame.operation⟩
  exact heventKey.trans (webhookIdempotencyKey_injective hkey)

theorem enqueue_known (row : InboxMessage Operation) (h : t.index.get row.key = some id) :
    ((InboxWrite.enqueueInbound row).run ⟨t, some []⟩).commit.rows = t := by
  simp only [InboxWrite.run, InboxRows.enqueueInbound, h]
  rfl

theorem enqueue_new (row : InboxMessage Operation) (h : t.index.get row.key = none) :
    ((InboxWrite.enqueueInbound row).run ⟨t, some []⟩).commit.rows =
      ⟨t.rows.put row.id row, t.order ++ [row.id], t.index.set row.key row.id⟩ := by
  simp only [InboxWrite.run, InboxRows.enqueueInbound, h]
  rfl

/-- A delivery leaves the rows as they are, or adds one under an id that no row has. -/
structure Delivers (event : WebhookEvent) (env : Env) (s s' : Inbox) : Prop where
  world : ∃ ticks, s'.world = { s.world with minted := s.world.minted + 1, ticks }
  claimed : s'.claimed = s.claimed
  answered : s'.answered = s.answered
  submitted : s'.submitted = s.submitted
  rows : (s'.rows = s.rows ∧ ∃ id, s.rows.index.get event.eventId = some id) ∨
    ∃ row : InboxMessage Operation, row.id = "ibx_" ++ env.uuid s.world.minted ∧ row.key = event.eventId ∧
      row.operation = toOperation event ∧ row.status = .pending ∧ s.rows.index.get event.eventId = none ∧
      s'.rows = ⟨s.rows.rows.put row.id row, s.rows.order ++ [row.id], s.rows.index.set row.key row.id⟩

theorem handleWebhook_delivers (env : Env) (event : WebhookEvent) (s : Inbox) :
    Delivers event env s (handleWebhook env event s).2 := by
  refine ⟨⟨s.world.ticks + 1, rfl⟩, rfl, rfl, rfl, ?_⟩
  cases hkey : s.rows.index.get event.eventId with
  | some id => exact Or.inl ⟨enqueue_known (inboundRow env event s.world) hkey, id, rfl⟩
  | none =>
    refine Or.inr ⟨inboundRow env event s.world, rfl, rfl, rfl, rfl, rfl, ?_⟩
    exact enqueue_new (inboundRow env event s.world) hkey

theorem look_put {row : InboxMessage Operation} {order : List String}
    {index : Table String String} (k : String) :
    (Mailbox.look ⟨t.rows.put row.id row, order, index⟩ k : Option (InboxMessage Operation)) =
      if k = row.id then some row else t.look k := by
  show ((t.rows.put row.id row).rows.get k).map Obj.value = _
  by_cases hk : k = row.id
  · simp [Shelf.put, hk]
  · simp [Shelf.put, hk, Mailbox.look, Shelf.look]

/-! ### Rows that only grow -/

/-- Every event keeps its row. -/
def Grows (s s' : Inbox) : Prop := ∀ id m, s.look id = some m → ∃ m', s'.look id = some m' ∧ SameEvent m m'

theorem Grows.refl (s : Inbox) : Grows s s := fun _ m hm => ⟨m, hm, .refl m⟩

theorem Grows.holds (h : Grows s s') (hm : s.Holds m) : s'.Holds m := by
  obtain ⟨m', hm', hsame⟩ := hm
  obtain ⟨m'', hm'', hsame'⟩ := h m.id m' hm'
  exact ⟨m'', hm'', hsame.trans hsame'⟩

theorem Grows.owns (h : Grows s s') (hown : s.Owns operation) : s'.Owns operation := by
  intro key hkey
  obtain ⟨id, m, hm, hmkey, hmop⟩ := hown key hkey
  obtain ⟨m', hm', hsame⟩ := h id m hm
  exact ⟨id, m', hm', hsame.key.trans hmkey, hsame.operation.trans hmop⟩

theorem grows_of_keepsEvents (h : KeepsEvents marked s.rows s'.rows) : Grows s s' := by
  intro id m hm
  obtain ⟨m', hm', hsame, -⟩ := h.ahead id m hm
  exact ⟨m', hm', hsame⟩

/-- The answers stand as they were while nothing is submitted and the keys stay. -/
theorem Answers.grown (h : s.Answers) (hgrows : Grows s s') (hsettled : s'.world.Settled)
    (hkeys : s'.world.idempotency.rows.committed = s.world.idempotency.rows.committed)
    (hsubmitted : s'.submitted = s.submitted) (hanswered : s'.answered = s.answered)
    (happlied : ∀ id m, s'.look id = some m → m.status = .applied →
      ∃ slot, (m.operation, slot) ∈ s.submitted ∧ Took slot) : s'.Answers where
  settled := hsettled
  own operation slot hmem := by
    rw [hsubmitted] at hmem
    exact hgrows.owns (h.own operation slot hmem)
  filed := by
    rw [hsubmitted, hkeys]
    exact h.filed
  recorded := by
    rw [hsubmitted, hkeys]
    exact h.recorded
  issued := by
    rw [hsubmitted]
    exact h.issued
  once := by
    rw [hsubmitted]
    exact h.once
  answered p hp := by
    rw [hanswered] at hp
    rw [hsubmitted]
    obtain ⟨hholds, hmem⟩ := h.answered p hp
    exact ⟨hgrows.holds hholds, hmem⟩
  applied := by
    rw [hsubmitted]
    exact happlied

theorem ibx_injective (hids : Function.Injective env.uuid) {n n' : Nat}
    (h : "ibx_" ++ env.uuid n = "ibx_" ++ env.uuid n') : n = n' := by
  apply hids
  have hlist := congrArg String.toList h
  simp only [String.toList_append, List.append_cancel_left_eq] at hlist
  exact String.toList_injective hlist

theorem Rows.absent (hids : Function.Injective env.uuid) (h : s.Rows delivered env) :
    s.look ("ibx_" ++ env.uuid s.world.minted) = none := by
  cases hlook : s.look ("ibx_" ++ env.uuid s.world.minted) with
  | none => rfl
  | some m =>
    obtain ⟨-, n, hn, hid⟩ := h.ids _ m hlook
    have hsame := ibx_injective hids hid
    omega

theorem Delivers.grows (hids : Function.Injective env.uuid) (h : s.Rows delivered env)
    (hd : Delivers event env s s') : Grows s s' := by
  intro id m hm
  rcases hd.rows with ⟨hrows, -⟩ | ⟨row, hid, -, -, -, -, hrows⟩
  · refine ⟨m, ?_, .refl m⟩
    unfold look
    rw [hrows]
    exact hm
  · refine ⟨m, ?_, .refl m⟩
    have hne : id ≠ row.id := by
      rintro rfl
      rw [hid, h.absent hids] at hm
      cases hm
    unfold look
    rw [hrows, look_put, if_neg hne]
    exact hm

theorem settled_minting {w : World} (h : w.Settled) (minted ticks : Nat) :
    ({ w with minted := minted, ticks := ticks } : World).Settled := by
  obtain ⟨⟨hl, hi, hs, ho, hg, he, hu, hp, ha, ht⟩, ⟨hlots, hcolumns⟩⟩ := h
  exact ⟨⟨hl, hi, hs, ho, hg, he, hu, hp, ha, ht⟩, ⟨hlots, hcolumns⟩⟩

theorem Delivers.sound (hids : Function.Injective env.uuid) (h : s.Sound delivered env)
    (hevent : delivered event) (hd : Delivers event env s s') :
    s'.Sound delivered env := by
  obtain ⟨hrows, hanswers⟩ := h
  have hgrows := hd.grows hids hrows
  obtain ⟨ticks, hworld⟩ := hd.world
  have hminted : s'.world.minted = s.world.minted + 1 := by rw [hworld]
  have hclaimed : ∀ m ∈ s'.claimed, s'.Holds m := by
    rw [hd.claimed]
    exact fun m hm => hgrows.holds (hrows.claimed m hm)
  have hsettled : s'.world.Settled := by
    rw [hworld]
    exact settled_minting hanswers.settled _ ticks
  have hkeys : s'.world.idempotency.rows.committed = s.world.idempotency.rows.committed := by rw [hworld]
  rcases hd.rows with ⟨hsame, -⟩ | ⟨row, hid, hkey, hoperation, hpending, hfree, hput⟩
  · have hlook : ∀ id, s'.look id = s.look id := by
      intro id
      unfold look
      rw [hsame]
    refine ⟨?_, hanswers.grown hgrows hsettled hkeys hd.submitted hd.answered ?_⟩
    · constructor
      · rw [hsame]
        exact hrows.allocated
      · intro id m hm
        rw [hlook] at hm
        obtain ⟨hmid, n, hn, hidn⟩ := hrows.ids id m hm
        exact ⟨hmid, n, by omega, hidn⟩
      · intro id m hm
        rw [hlook] at hm
        rw [hsame]
        exact hrows.keyed id m hm
      · intro key id hget
        rw [hsame] at hget
        rw [hlook]
        exact hrows.stored key id hget
      · intro id m hm
        rw [hlook] at hm
        exact hrows.events id m hm
      · exact hclaimed
    · intro id m hm
      rw [hlook] at hm
      exact hanswers.applied id m hm
  · have hlook : ∀ id, s'.look id = if id = row.id then some row else s.look id := by
      intro id
      unfold look
      rw [hput]
      exact look_put id
    refine ⟨?_, hanswers.grown hgrows hsettled hkeys hd.submitted hd.answered ?_⟩
    · constructor
      · rw [hput]
        exact hrows.allocated.put _ _
      · intro id m hm
        rw [hlook] at hm
        by_cases hk : id = row.id
        · rw [if_pos hk] at hm
          cases hm
          exact ⟨hk.symm, s.world.minted, by omega, hk.trans hid⟩
        · rw [if_neg hk] at hm
          obtain ⟨hmid, n, hn, hidn⟩ := hrows.ids id m hm
          exact ⟨hmid, n, by omega, hidn⟩
      · intro id m hm
        rw [hlook] at hm
        rw [hput]
        by_cases hk : id = row.id
        · rw [if_pos hk] at hm
          cases hm
          rw [hk]
          exact Table.get_set_self _ _ _
        · rw [if_neg hk] at hm
          have hindex := hrows.keyed id m hm
          have hne : m.key ≠ row.key := by
            intro heq
            rw [heq, hkey, hfree] at hindex
            cases hindex
          rw [← hindex]
          exact Table.get_set_of_ne _ _ hne
      · intro key id hget
        rw [hput] at hget
        by_cases hk : key = row.key
        · subst hk
          have hset := (Table.get_set_self s.rows.index row.key row.id).symm.trans hget
          obtain rfl : row.id = id := Option.some.inj hset
          refine ⟨row, ?_, rfl⟩
          rw [hlook, if_pos rfl]
        · have hold := (Table.get_set_of_ne s.rows.index row.id hk).symm.trans hget
          obtain ⟨m, hm, hmkey⟩ := hrows.stored key id hold
          obtain ⟨m', hm', hsame⟩ := hgrows id m hm
          exact ⟨m', hm', hsame.key.trans hmkey⟩
      · intro id m hm
        rw [hlook] at hm
        by_cases hk : id = row.id
        · rw [if_pos hk] at hm
          cases hm
          exact ⟨event, hevent, hkey, hoperation⟩
        · rw [if_neg hk] at hm
          exact hrows.events id m hm
      · exact hclaimed
    · intro id m hm happlied
      rw [hlook] at hm
      by_cases hk : id = row.id
      · rw [if_pos hk] at hm
        cases hm
        rw [hpending] at happlied
        cases happlied
      · rw [if_neg hk] at hm
        exact hanswers.applied id m hm happlied

theorem Rows.kept (h : s.Rows delivered env) (hworld : s'.world = s.world)
    (hclaimed : ∀ m ∈ s'.claimed, s'.Holds m) (halloc : s'.rows.rows.Allocated)
    (hkeeps : KeepsEvents marked s.rows s'.rows) : s'.Rows delivered env where
  allocated := halloc
  ids id m' hm' := by
    obtain ⟨m, hm, hsame, -⟩ := hkeeps.back id m' hm'
    obtain ⟨hid, n, hn, hidn⟩ := h.ids id m hm
    rw [hworld]
    exact ⟨hsame.id.trans hid, n, hn, hidn⟩
  keyed id m' hm' := by
    obtain ⟨m, hm, hsame, -⟩ := hkeeps.back id m' hm'
    rw [hkeeps.index, hsame.key]
    exact h.keyed id m hm
  stored key id hget := by
    rw [hkeeps.index] at hget
    obtain ⟨m, hm, hkey⟩ := h.stored key id hget
    obtain ⟨m', hm', hsame, -⟩ := hkeeps.ahead id m hm
    exact ⟨m', hm', hsame.key.trans hkey⟩
  events id m' hm' := by
    obtain ⟨m, hm, hsame, -⟩ := hkeeps.back id m' hm'
    obtain ⟨event, hevent, hkey, hoperation⟩ := h.events id m hm
    exact ⟨event, hevent, hsame.key.trans hkey, hsame.operation.trans hoperation⟩
  claimed := hclaimed

theorem write_sound (h : s.Sound delivered env) (w : InboxWrite Operation)
    (hkeeps : KeepsEvents marked s.rows (s.write w).rows)
    (hmarked : ∀ id m, marked = some id → s.look id = some m →
      ∃ slot, (m.operation, slot) ∈ s.submitted ∧ Took slot) :
    (s.write w).Sound delivered env := by
  have hgrows : Grows s (s.write w) := grows_of_keepsEvents hkeeps
  have halloc : (s.write w).rows.rows.Allocated := (InboxWrite.run_steady w ⟨s.rows, none⟩).allocated
    h.rows.allocated
  refine ⟨h.rows.kept rfl (fun m hm => hgrows.holds (h.rows.claimed m hm)) halloc hkeeps, ?_⟩
  apply h.answers.grown hgrows h.answers.settled rfl rfl rfl
  intro id m' hm' happlied
  obtain ⟨m, hm, hsame, hback⟩ := hkeeps.back id m' hm'
  rw [hsame.operation]
  rcases hback happlied with hstatus | hmark
  · exact h.answers.applied id m hm hstatus
  · exact hmarked id m hmark hm

theorem settle_sound (h : s.Sound delivered env) {slot : Slot} (hmem : (entry, slot) ∈ s.answered) :
    (s.write ((applyOutcome config entry slot).write entry)).Sound delivered env := by
  refine write_sound h _ (settle_keepsEvents config entry slot ⟨s.rows, none⟩) ?_
  intro id m hmarked hm
  split at hmarked
  · rename_i happlied
    obtain rfl : entry.id = id := Option.some.inj hmarked
    obtain ⟨⟨m', hm', hsame⟩, hsubmitted⟩ := h.answers.answered (entry, slot) hmem
    obtain rfl : m = m' := Option.some.inj (hm.symm.trans hm')
    rw [hsame.operation]
    exact ⟨slot, hsubmitted, took_of_applied happlied⟩
  · cases hmarked

theorem revive_sound (h : s.Sound delivered env) (limit : Nat) :
    (s.write (.reviveDead limit)).Sound delivered env := by
  have hkeeps : KeepsEvents none s.rows (s.write (.reviveDead limit)).rows :=
    reviveDead_keepsEvents none limit (show (⟨s.rows, none⟩ : Journaled _).rows.rows.Allocated from
      h.rows.allocated)
  refine write_sound h _ hkeeps ?_
  intro id m hmarked
  cases hmarked

theorem claim_sound (h : s.Sound delivered env) (limit : Nat) :
    ({ s with claimed := s.claimed ++ InboxRows.claimInbound limit s.rows } : Inbox).Sound
      delivered env := by
  obtain ⟨⟨halloc, hids, hkeyed, hstored, hevents, hclaimed⟩, hanswers⟩ := h
  refine ⟨⟨halloc, hids, hkeyed, hstored, hevents, ?_⟩, ?_⟩
  · intro m hm
    rcases List.mem_append.mp hm with hm | hm
    · exact hclaimed m hm
    · have hsorted := (List.perm_insertionSort _ _).mem_iff.mp (List.mem_of_mem_take hm)
      obtain ⟨id, -, hlook⟩ := List.mem_filterMap.mp hsorted
      obtain ⟨hlook, -⟩ := Option.filter_eq_some_iff.mp hlook
      refine ⟨m, ?_, .refl m⟩
      rw [(hids id m hlook).1]
      exact hlook
  · exact hanswers.grown (.refl s) hanswers.settled rfl rfl rfl hanswers.applied

variable (ports config)

/-- What is filed under a key of an event was committed by an operation of that key. -/
theorem answer_recorded (h : s.Answers) {transaction : Transaction}
    (hget : (submit (registry ports) env config operation now s.world).2.idempotency.rows.committed.get
      (webhookIdempotencyKey key) = some transaction) :
    ∃ op, op.idempotencyKey = webhookIdempotencyKey key ∧
      (op, .ok (.committed transaction)) ∈ (answer ports env config operation now s).2.submitted := by
  have hold : s.world.idempotency.rows.committed.get (webhookIdempotencyKey key) = some transaction →
      ∃ op, op.idempotencyKey = webhookIdempotencyKey key ∧
        (op, .ok (.committed transaction)) ∈ (answer ports env config operation now s).2.submitted := by
    intro hfiled
    obtain ⟨op, hkey, hmem⟩ := h.recorded key transaction hfiled
    exact ⟨op, hkey, List.mem_append_left _ hmem⟩
  by_cases hsame : webhookIdempotencyKey key = operation.idempotencyKey
  · by_cases hcommits : ∃ t, (submit (registry ports) env config operation now s.world).1 =
      .ok (.committed t)
    · obtain ⟨t, ht⟩ := hcommits
      have hfiled := (submit_files ht).2
      rw [← hsame, hget] at hfiled
      obtain rfl : transaction = t := Option.some.inj hfiled
      refine ⟨operation, hsame.symm, ?_⟩
      exact List.mem_append_right _ (List.mem_singleton.mpr (Prod.ext rfl ht.symm))
    · have hstill := submit_still h.settled fun t ht => hcommits ⟨t, ht⟩
      rw [hstill.committed] at hget
      exact hold hget
  · rw [submit_otherKey h.settled (webhookIdempotencyKey_fresh key) hsame] at hget
    exact hold hget

/-- A purchase answered as a duplicate is one that committed: the key belongs to its row alone. -/
theorem answer_issued (h : s.Sound delivered env) {transaction : Transaction} (hown : s.Owns (.topUp o))
    (hslot : (submit (registry ports) env config (.topUp o) now s.world).1 = .ok (.duplicate transaction))
    (hkey : o.idempotencyKey = webhookIdempotencyKey key) :
    (.topUp o, .ok (.committed transaction)) ∈ s.submitted := by
  have hget := submit_topUp_duplicate h.answers.settled hslot
  rw [hkey] at hget
  obtain ⟨op, hopKey, hmem⟩ := h.answers.recorded key transaction hget
  obtain ⟨id, m, hm, hmKey, hmOp⟩ := hown key hkey
  obtain ⟨id', m', hm', hmKey', hmOp'⟩ := h.answers.own op _ hmem key hopKey
  obtain ⟨-, rfl⟩ := h.rows.unique hm hm' (hmKey.trans hmKey'.symm)
  obtain rfl : op = .topUp o := hmOp'.symm.trans hmOp
  exact hmem

theorem answer_once (h : s.Answers) {p : Operation × Slot}
    (hp : p ∈ s.submitted) (hsame : p.1.idempotencyKey = operation.idempotencyKey)
    (hkey : isReversalKey p.1.idempotencyKey = false) (hcommitted : (committedOf p.2).isSome) :
    committedOf (submit (registry ports) env config operation now s.world).1 = none := by
  obtain ⟨transaction, ht⟩ := Option.isSome_iff_exists.mp hcommitted
  have hmem : (p.1, .ok (.committed transaction)) ∈ s.submitted := by
    rw [← committedOf_eq_some.mp ht]
    exact hp
  have hfiled := h.filed p.1 transaction hmem hkey
  cases hagain : committedOf (submit (registry ports) env config operation now s.world).1 with
  | none => rfl
  | some t =>
    have hfree := (submit_files (committedOf_eq_some.mp hagain)).1
    rw [← hsame, hfiled] at hfree
    cases hfree

theorem answer_sound (h : s.Sound delivered env) (now : Int) (hown : s.Owns operation) :
    (answer ports env config operation now s).2.Sound delivered env := by
  have hsettled := h.answers.settled
  have hminted : s.world.minted ≤ (submit (registry ports) env config operation now s.world).2.minted :=
    submit_minted hsettled
  constructor
  · obtain ⟨halloc, hids, hkeyed, hstored, hevents, hclaimed⟩ := h.rows
    refine ⟨halloc, ?_, hkeyed, hstored, hevents, hclaimed⟩
    intro id m hm
    obtain ⟨hid, n, hn, hidn⟩ := hids id m hm
    exact ⟨hid, n, Nat.lt_of_lt_of_le hn hminted, hidn⟩
  · constructor
    · exact (submit_keepsGrants ports env config operation now hsettled).1
    · intro op slot hmem
      rcases List.mem_append.mp hmem with hmem | hmem
      · exact h.answers.own op slot hmem
      · cases List.mem_singleton.mp hmem
        exact hown
    · intro op transaction hmem hkey
      rcases List.mem_append.mp hmem with hmem | hmem
      · exact submit_keepsKey hsettled hkey (h.answers.filed op transaction hmem hkey)
      · obtain ⟨rfl, hslot⟩ := Prod.mk.inj (List.mem_singleton.mp hmem)
        exact (submit_files hslot.symm).2
    · intro key transaction hget
      exact answer_recorded ports config h.answers hget
    · intro o transaction hmem key hkey
      rcases List.mem_append.mp hmem with hmem | hmem
      · exact List.mem_append_left _ (h.answers.issued o transaction hmem key hkey)
      · obtain ⟨rfl, hslot⟩ := Prod.mk.inj (List.mem_singleton.mp hmem)
        exact List.mem_append_left _ (answer_issued ports config h hown hslot.symm hkey)
    · refine List.pairwise_append.mpr ⟨h.answers.once, List.pairwise_singleton _ _, ?_⟩
      intro p hp q hq hsame hkey hcommitted
      obtain rfl := List.mem_singleton.mp hq
      exact answer_once ports config h.answers hp hsame hkey hcommitted
    · intro p hp
      obtain ⟨hholds, hmem⟩ := h.answers.answered p hp
      exact ⟨hholds, List.mem_append_left _ hmem⟩
    · intro id m hm happlied
      obtain ⟨slot, hmem, htook⟩ := h.answers.applied id m hm happlied
      exact ⟨slot, List.mem_append_left _ hmem, htook⟩

/-- The submit of a claimed row, with its answer noted. -/
theorem attempt_sound (h : s.Sound delivered env) (hentry : entry ∈ s.claimed) (now : Int) :
    ({ (answer ports env config entry.operation now s).2 with
        answered := s.answered ++ [(entry, (answer ports env config entry.operation now s).1)] } :
      Inbox).Sound delivered env := by
  have hholds := h.rows.claimed entry hentry
  obtain ⟨hrows, hanswers⟩ := answer_sound ports config h now (h.rows.owns hholds)
  obtain ⟨halloc, hids, hkeyed, hstored, hevents, hclaimed⟩ := hrows
  obtain ⟨hsettled, hown, hfiled, hrecorded, hissued, honce, hanswered, happlied⟩ := hanswers
  refine ⟨⟨halloc, hids, hkeyed, hstored, hevents, hclaimed⟩,
    ⟨hsettled, hown, hfiled, hrecorded, hissued, honce, ?_, happlied⟩⟩
  intro p hp
  rcases List.mem_append.mp hp with hp | hp
  · exact hanswered p hp
  · cases List.mem_singleton.mp hp
    exact ⟨hholds, List.mem_append_right _ (List.mem_singleton.mpr rfl)⟩

/-! ### Runs -/

/-- The event was delivered, and no other caller submits under a key of an event. -/
def Allowed (delivered : WebhookEvent → Prop) : InboxEvent → Prop
  | .deliver event => delivered event
  | .submit operation _ => ∀ key, operation.idempotencyKey ≠ webhookIdempotencyKey key
  | _ => True

theorem step_sound (hids : Function.Injective env.uuid) (h : s.Sound delivered env) {event : InboxEvent}
    (hevent : Allowed delivered event) : (step ports env config s event).Sound delivered env := by
  cases event with
  | deliver event => exact (handleWebhook_delivers env event s).sound hids h hevent
  | submit operation now => exact answer_sound ports config h now fun key hkey => absurd hkey (hevent key)
  | claim limit => exact claim_sound h limit
  | attempt n now =>
    simp only [step]
    cases hn : s.claimed[n]? with
    | none => exact h
    | some entry => exact attempt_sound ports config h (List.mem_of_getElem? hn) now
  | settle n =>
    simp only [step]
    cases hn : s.answered[n]? with
    | none => exact h
    | some p => exact settle_sound h (List.mem_of_getElem? hn)
  | revive limit => exact revive_sound h limit

theorem step_ahead (hids : Function.Injective env.uuid) (h : s.Sound delivered env) (event : InboxEvent)
    (hm : s.look id = some m) :
    ∃ m', (step ports env config s event).look id = some m' ∧ SameEvent m m' ∧
      (m.status = .applied → m'.status = .applied) := by
  have hsame : ∃ m', s.look id = some m' ∧ SameEvent m m' ∧ (m.status = .applied → m'.status = .applied) :=
    ⟨m, hm, .refl m, fun hstatus => hstatus⟩
  cases event with
  | deliver event =>
    rcases (handleWebhook_delivers env event s).rows with ⟨hrows, -⟩ | ⟨row, hid, -, -, -, -, hrows⟩
    · simp only [step, look, hrows]
      exact hsame
    · have hne : id ≠ row.id := by
        rintro rfl
        rw [hid, h.rows.absent hids] at hm
        cases hm
      simp only [step, look, hrows, look_put, if_neg hne]
      exact hsame
  | submit operation now => exact hsame
  | claim limit => exact hsame
  | attempt n now =>
    simp only [step]
    cases s.claimed[n]? with
    | none => exact hsame
    | some entry => exact hsame
  | settle n =>
    simp only [step]
    cases s.answered[n]? with
    | none => exact hsame
    | some p => exact (settle_keepsEvents config p.1 p.2 ⟨s.rows, none⟩).ahead id m hm
  | revive limit => exact (reviveDead_keepsEvents none limit h.rows.allocated).ahead id m hm

theorem run_sound (hids : Function.Injective env.uuid)
    (hevents : ∀ event ∈ events, Allowed delivered event) (h : s.Sound delivered env) :
    (run ports env config events s).Sound delivered env := by
  induction events generalizing s with
  | nil => exact h
  | cons event events ih =>
    apply ih fun e he => hevents e (List.mem_cons_of_mem _ he)
    exact step_sound ports config hids h (hevents event List.mem_cons_self)

theorem run_ahead (hids : Function.Injective env.uuid)
    (hevents : ∀ event ∈ events, Allowed delivered event) (h : s.Sound delivered env)
    (hm : s.look id = some m) :
    ∃ m', (run ports env config events s).look id = some m' ∧ SameEvent m m' ∧
      (m.status = .applied → m'.status = .applied) := by
  induction events generalizing s m with
  | nil => exact ⟨m, hm, .refl m, fun hstatus => hstatus⟩
  | cons event events ih =>
    obtain ⟨m', hm', hsame, happlied⟩ := step_ahead ports config hids h event hm
    have hnext := step_sound ports config hids h (hevents event List.mem_cons_self)
    obtain ⟨m'', hm'', hsame', happlied'⟩ :=
      ih (fun e he => hevents e (List.mem_cons_of_mem _ he)) hnext hm'
    exact ⟨m'', hm'', hsame.trans hsame', fun hstatus => happlied' (happlied hstatus)⟩

theorem run_stores (hids : Function.Injective env.uuid)
    (hevents : ∀ event ∈ events, Allowed delivered event) (h : s.Sound delivered env)
    (hmem : .deliver event ∈ events) :
    ∃ id m, (run ports env config events s).look id = some m ∧ m.key = event.eventId := by
  induction events generalizing s with
  | nil => cases hmem
  | cons first events ih =>
    have hrest : ∀ e ∈ events, Allowed delivered e := fun e he => hevents e (List.mem_cons_of_mem _ he)
    have hnext := step_sound ports config hids h (hevents first List.mem_cons_self)
    rcases List.mem_cons.mp hmem with rfl | hmem
    · have hrow : ∃ id m, (step ports env config s (.deliver event)).look id = some m ∧ m.key =
          event.eventId := by
        have hdelivers := handleWebhook_delivers env event s
        rcases hdelivers.rows with ⟨hrows, id, hindex⟩ | ⟨row, -, hkey, -, -, -, hrows⟩
        · refine ⟨id, hnext.rows.stored event.eventId id ?_⟩
          rw [← hindex]
          exact congrArg (fun rows : InboxRows Operation => rows.index.get event.eventId) hrows
        · refine ⟨row.id, row, ?_, hkey⟩
          simp only [step, look, hrows, look_put, if_true]
      obtain ⟨id, m, hm, hkey⟩ := hrow
      obtain ⟨m', hm', hsame, -⟩ := run_ahead ports config hids hrest hnext hm
      exact ⟨id, m', hm', hsame.key.trans hkey⟩
    · exact ih hrest hnext hmem

theorem start_sound {w : World} (h : w.Settled)
    (hfree : ∀ key, w.idempotency.rows.committed.get (webhookIdempotencyKey key) = none) :
    (start w).Sound delivered env := by
  have hempty : ∀ id m, (start w).look id = some m → False := by
    intro id m hm
    cases hm
  have hindex : ∀ key id, (start w).rows.index.get key = some id → False := by
    intro key id hget
    cases hget
  constructor
  · refine ⟨Shelf.Allocated.empty, ?_, ?_, ?_, ?_, ?_⟩
    · exact fun id m hm => (hempty id m hm).elim
    · exact fun id m hm => (hempty id m hm).elim
    · exact fun key id hget => (hindex key id hget).elim
    · exact fun id m hm => (hempty id m hm).elim
    · intro m hm
      cases hm
  · refine ⟨h, ?_, ?_, ?_, ?_, List.Pairwise.nil, ?_, ?_⟩
    · intro operation slot hmem
      cases hmem
    · intro operation transaction hmem
      cases hmem
    · intro key transaction hget
      rw [show (start w).world = w from rfl, hfree key] at hget
      cases hget
    · intro o transaction hmem
      cases hmem
    · intro p hp
      cases hp
    · exact fun id m hm => (hempty id m hm).elim

/-- What a run may rely on: an event has one row, of its own operation; a key commits once at most; a row
is applied only after its operation was answered as committed or as a duplicate, and a purchase only after
its own credits were committed. -/
structure ExactlyOnce (events : List InboxEvent) (s : Inbox) : Prop where
  stored : ∀ event, .deliver event ∈ events → ∃ id m, s.look id = some m ∧ m.key = event.eventId
  unique : ∀ id id' m m', s.look id = some m → s.look id' = some m' → m.key = m'.key → id = id'
  own : ∀ id m, s.look id = some m →
    ∃ event, .deliver event ∈ events ∧ m.key = event.eventId ∧ m.operation = toOperation event
  applied : ∀ id m, s.look id = some m → m.status = .applied → ∃ slot, (m.operation, slot) ∈ s.submitted ∧
    Took slot
  issued : ∀ id m o, s.look id = some m → m.status = .applied → m.operation = .topUp o →
    ∃ transaction, (m.operation, .ok (.committed transaction)) ∈ s.submitted
  once : s.submitted.Pairwise fun p q => p.1.idempotencyKey = q.1.idempotencyKey →
    isReversalKey p.1.idempotencyKey = false → (committedOf p.2).isSome → committedOf q.2 = none

theorem Sound.issued (h : s.Sound delivered env) (hm : s.look id = some m) (hstatus : m.status = .applied)
    (ho : m.operation = .topUp o) :
    ∃ transaction, (m.operation, .ok (.committed transaction)) ∈ s.submitted := by
  obtain ⟨slot, hmem, transaction, hslot⟩ := h.answers.applied id m hm hstatus
  obtain ⟨event, -, -, hoperation⟩ := h.rows.events id m hm
  refine ⟨transaction, ?_⟩
  rcases hslot with rfl | rfl
  · exact hmem
  · rw [ho] at hmem ⊢
    apply h.answers.issued o transaction hmem event.eventId
    have hkey := toOperation_key event
    rw [← hoperation, ho] at hkey
    exact hkey

/-- Whatever is delivered, drained, cut short, revived and submitted besides, in any order, and no row
leaves applied or changes its operation on the way. -/
theorem inbox_applies_once (ports : Ports) (config : Config) {env : Env}
    (hids : Function.Injective env.uuid)
    {w : World} (h : w.Settled) (hfree : ∀ key, w.idempotency.rows.committed.get
      (webhookIdempotencyKey key) = none)
    (events : List InboxEvent)
    (hcallers : ∀ operation now, .submit operation now ∈ events →
      ∀ key, operation.idempotencyKey ≠ webhookIdempotencyKey key) :
    (run ports env config events (start w)).ExactlyOnce events ∧
    ∀ n id m, (run ports env config (events.take n) (start w)).look id = some m →
      ∃ m', (run ports env config events (start w)).look id = some m' ∧ SameEvent m m' ∧
        (m.status = .applied → m'.status = .applied) := by
  have hallowed : ∀ event ∈ events, Allowed (fun event => .deliver event ∈ events) event := by
    intro event hmem
    cases event with
    | deliver event => exact hmem
    | submit operation now => exact hcallers operation now hmem
    | _ => trivial
  have hstart : (start w).Sound (fun event => .deliver event ∈ events) env := start_sound h hfree
  have hsound := run_sound ports config hids hallowed hstart
  constructor
  · exact {
      stored := fun event hmem => run_stores ports config hids hallowed hstart hmem
      unique := fun id id' m m' hm hm' hkey => (hsound.rows.unique hm hm' hkey).1
      own := hsound.rows.events
      applied := hsound.answers.applied
      issued := fun id m o hm hstatus ho => hsound.issued hm hstatus ho
      once := hsound.answers.once }
  · intro n id m hm
    have hbefore : ∀ event ∈ events.take n, Allowed (fun event => .deliver event ∈ events) event :=
      fun event hmem => hallowed event (List.mem_of_mem_take hmem)
    have hafter : ∀ event ∈ events.drop n, Allowed (fun event => .deliver event ∈ events) event :=
      fun event hmem => hallowed event (List.mem_of_mem_drop hmem)
    have hsplit : run ports env config events (start w) =
        run ports env config (events.drop n) (run ports env config (events.take n) (start w)) := by
      unfold run
      rw [← List.foldl_append, List.take_append_drop]
    rw [hsplit]
    exact run_ahead ports config hids hafter (run_sound ports config hids hbefore hstart) hm

/-- The entries left of a drain are attempted and settled one after another. -/
theorem applyAll_is_run (gate : Nat → Int) (entries : List (InboxMessage Operation)) (k : Nat)
    (tally : InboxSummary) (s : Inbox) (before : List (InboxMessage Operation))
    (hclaimed : s.claimed = before ++ entries) :
    ∃ events, (∀ event ∈ events, Allowed (fun _ => False) event) ∧
      ((entries.zipIdx k).foldl (fun s p => applyOne ports env config (gate p.2) s p.1)
        (tally, s.world, s.rows)).2 =
        ((run ports env config events s).world, (run ports env config events s).rows) := by
  induction entries generalizing k tally s before with
  | nil =>
    refine ⟨[], ?_, rfl⟩
    intro event hmem
    cases hmem
  | cons entry entries ih =>
    have hentry : s.claimed[before.length]? = some entry := by
      rw [hclaimed, List.getElem?_append_right (Nat.le_refl _), Nat.sub_self]
      rfl
    have hattempt : step ports env config s (.attempt before.length (gate k)) =
        { (answer ports env config entry.operation (gate k) s).2 with
          answered := s.answered ++ [(entry, (answer ports env config entry.operation (gate k) s).1)]
            } := by
      simp only [step, hentry]
    have hsettle : step ports env config (step ports env config s (.attempt before.length (gate k)))
          (.settle s.answered.length) =
        (step ports env config s (.attempt before.length (gate k))).write
          ((applyOutcome config entry (answer ports env config entry.operation (gate k) s).1).write
            entry) := by
      rw [hattempt]
      simp only [step, List.getElem?_append_right (Nat.le_refl _), Nat.sub_self, List.getElem?_cons_zero]
    have hrest : (step ports env config (step ports env config s (.attempt before.length (gate k)))
        (.settle s.answered.length)).claimed = (before ++ [entry]) ++ entries := by
      rw [hsettle, hattempt, List.append_assoc]
      exact hclaimed
    obtain ⟨events, hallowed, hrun⟩ := ih (k + 1)
      (tally.add entry (applyOutcome config entry (answer ports env config entry.operation (gate k) s).1))
        _ _ hrest
    refine ⟨.attempt before.length (gate k) :: .settle s.answered.length :: events, ?_, ?_⟩
    · intro event hmem
      rcases List.mem_cons.mp hmem with rfl | hmem
      · trivial
      · rcases List.mem_cons.mp hmem with rfl | hmem
        · trivial
        · exact hallowed event hmem
    · rw [hsettle, hattempt] at hrun
      simp only [run, List.foldl_cons] at hrun ⊢
      rw [hsettle, hattempt]
      exact hrun

/-- A drain that runs to its end is a claim, and then a submit and a write for each row it claimed. -/
theorem drainInbox_is_run (limit : Nat) (gate : Nat → Int) (s : Inbox) :
    ∃ events, (∀ event ∈ events, Allowed (fun _ => False) event) ∧
      (drainInbox ports env config limit gate s.world s.rows).2 =
        ((run ports env config events s).world, (run ports env config events s).rows) := by
  obtain ⟨events, hallowed, hrun⟩ :=
    applyAll_is_run ports config gate (InboxRows.claimInbound limit s.rows) 0
    ⟨[], [], []⟩ (step ports env config s (.claim limit)) s.claimed rfl
  refine ⟨.claim limit :: events, ?_, hrun⟩
  intro event hmem
  rcases List.mem_cons.mp hmem with rfl | hmem
  · trivial
  · exact hallowed event hmem

def buysTen : WebhookEvent := .purchase ⟨⟨"steam", "e1"⟩, "a", ⟨.credit, 1000, .thousand⟩, "steam"⟩

/-- The event comes twice, and the drain that submits it first stops before it marks the row. -/
def twiceDelivered : List InboxEvent :=
  [.deliver buysTen, .deliver buysTen, .claim 5, .attempt 0 0, .submit (issueTen "a") 0, .claim 5,
    .attempt 1 0,
    .settle 1]

theorem inbox_applies_once_twice :
    ((run parPorts tickEnv twoShards twiceDelivered (start World.empty)).submitted.map fun p =>
      (committedOf p.2).isSome) = [true, true, false] ∧
    (run parPorts tickEnv twoShards twiceDelivered (start World.empty)).ExactlyOnce twiceDelivered ∧
    ∀ n id m, (run parPorts tickEnv twoShards (twiceDelivered.take n) (start World.empty)).look id =
      some m →
      ∃ m', (run parPorts tickEnv twoShards twiceDelivered (start World.empty)).look id = some m' ∧
        SameEvent m m' ∧
        (m.status = .applied → m'.status = .applied) := by
  refine ⟨by decide +kernel, inbox_applies_once parPorts twoShards (fun _ _ h => Text.toString_nat_inj h)
    ⟨World.empty_closed, World.empty_sound⟩ (fun _ => rfl) _ ?_⟩
  intro operation now hmem key hkey
  have hrequest : operation = issueTen "a" ∧ now = 0 := by
    simpa [twiceDelivered] using hmem
  rw [hrequest.1] at hkey
  have hlist := congrArg String.toList hkey
  simp [webhookIdempotencyKey, issueTen, Operation.idempotencyKey, Operation.envelope] at hlist

end Inbox

end EconomyLab
