import EconomyLab.Stores.Participants

/-!
# Calls made on the store while a transaction is open

The store and a transaction's unit are the same objects, with one journal for each. A call
made directly on the store between two awaits of an open transaction is recorded in that
transaction's journals, and its rollback takes the call back too.
-/

namespace EconomyLab.Participants

open Foundation

variable {Op : Type}

inductive Issuer
  | unit
  | outside
deriving DecidableEq

structure IssuedCall (Op : Type) where
  issuer : Issuer
  call : StoreCall Op

/-- The single-writer queue: idle, or in the one transaction or batch that may run, with the
store as it was when that transaction or the batch's current item started, and the calls since. -/
inductive Phase (Op : Type)
  | idle
  | transaction (began : Participants Op) (calls : List (IssuedCall Op))
  | batch (marked : Participants Op) (calls : List (IssuedCall Op))

structure Shared (Op : Type) where
  store : Participants Op
  phase : Phase Op

/-- What happens between two awaits. -/
inductive Moment (Op : Type)
  | beginTransaction
  | beginBatch
  | nextItem
  | call (c : IssuedCall Op)
  | fail
  | commit

def Phase.record (c : IssuedCall Op) : Phase Op → Phase Op
  | .idle => .idle
  | .transaction began calls => .transaction began (calls ++ [c])
  | .batch marked calls => .batch marked (calls ++ [c])

/-- An overlapping transaction waits its turn, and only an open one has a unit to call. -/
def moment (deps : MemoryDeps) (s : Shared Op) : Moment Op → Shared Op
  | .beginTransaction =>
    match s.phase with
    | .idle => ⟨s.store.opened, .transaction s.store.opened []⟩
    | _ => s
  | .beginBatch =>
    match s.phase with
    | .idle => ⟨s.store.opened, .batch s.store.opened []⟩
    | _ => s
  | .nextItem =>
    match s.phase with
    | .batch _ _ => ⟨s.store, .batch s.store []⟩
    | _ => s
  | .call c =>
    match s.phase, c.issuer with
    | .idle, .unit => s
    | _, _ => ⟨s.store.write deps c.call, s.phase.record c⟩
  | .fail =>
    match s.phase with
    | .idle => s
    | .transaction _ _ => ⟨s.store.rollbackAll, .idle⟩
    | .batch marked _ => ⟨marked.rollbackTo s.store, .batch (marked.rollbackTo s.store) []⟩
  | .commit =>
    match s.phase with
    | .idle => s
    | _ => ⟨s.store.commitAll, .idle⟩

def outsideCalls (calls : List (IssuedCall Op)) : List (StoreCall Op) :=
  (calls.filter (·.issuer = .outside)).map IssuedCall.call

/-- The store at `start` with the calls made on it directly, and no others. -/
def without (deps : MemoryDeps) (start : Participants Op) (calls : List (IssuedCall Op)) :
    Participants Op :=
  (outsideCalls calls).foldl (write deps) start

/-- What was rolled back is what the unit wrote: the store reads as if only the direct calls had
been made. -/
def Isolated (deps : MemoryDeps) (s : Shared Op) : Moment Op → Prop
  | .fail =>
    match s.phase with
    | .idle => True
    | .transaction start calls | .batch start calls =>
      TakenBack deps (calls.map IssuedCall.call) (without deps start calls)
        (moment deps s .fail).store
  | _ => True

/-- The calls made since `start` can all be reversed, and the direct ones among them would have
changed nothing that is read. -/
structure Quiet (deps : MemoryDeps) (start : Participants Op) (calls : List (IssuedCall Op)) : Prop where
  reversible : RunMeets (write deps) (Reversible start) start (calls.map IssuedCall.call)
  direct : TakenBack deps (calls.map IssuedCall.call) start (without deps start calls)

def QuietWhenItFails (deps : MemoryDeps) (s : Shared Op) : Moment Op → Prop
  | .fail =>
    match s.phase with
    | .idle => True
    | .transaction start calls | .batch start calls => Quiet deps start calls
  | _ => True

/-! ## Runs -/

/-- Where an open transaction or item started, and that the calls since led here. -/
structure Window (deps : MemoryDeps) (start : Participants Op) (calls : List (IssuedCall Op))
    (store : Participants Op) : Prop where
  sound : start.Sound
  recording : start.Recording
  calls : store = (calls.map IssuedCall.call).foldl (write deps) start

def Coherent (deps : MemoryDeps) (s : Shared Op) : Prop :=
  match s.phase with
  | .idle => s.store.Sound
  | .transaction start calls => Window deps start calls s.store ∧ start.opened = start
  | .batch start calls => Window deps start calls s.store

variable {deps : MemoryDeps} {start s : Participants Op} {calls : List (IssuedCall Op)}

theorem Window.fresh (h : s.Sound) (hopen : s.Recording) : Window deps s [] s := ⟨h, hopen, rfl⟩

theorem Window.append (h : Window deps start calls s) (c : IssuedCall Op) :
    Window deps start (calls ++ [c]) (s.write deps c.call) :=
  ⟨h.sound, h.recording, by simp [h.calls]⟩

theorem Window.sound_now (h : Window deps start calls s) : s.Sound := by
  rw [h.calls]
  exact h.sound.calls deps _

theorem Window.recording_now (h : Window deps start calls s) : s.Recording := by
  rw [h.calls]
  exact h.recording.calls h.sound deps _

theorem Restored.refl (deps : MemoryDeps) (latest : Int) (s : Participants Op) :
    Restored deps latest s s :=
  ⟨rfl, rfl, rfl, rfl, rfl, fun _ => rfl, fun _ => rfl, fun _ => rfl, fun _ => rfl, rfl, rfl, rfl,
    rfl, rfl, rfl, fun _ _ _ => rfl, rfl⟩

theorem Restored.trans {latest : Int} {s s' s'' : Participants Op}
    (h : Restored deps latest s s') (h' : Restored deps latest s' s'') : Restored deps latest s s'' where
  ledger := h'.ledger.trans h.ledger
  committed := h'.committed.trans h.committed
  bornAt := h'.bornAt.trans h.bornAt
  sales := h'.sales.trans h.sales
  outboxSize := h'.outboxSize.trans h.outboxSize
  claimBatch limit := (h'.claimBatch limit).trans (h.claimBatch limit)
  outboxStats now := (h'.outboxStats now).trans (h.outboxStats now)
  claimInbound limit := (h'.claimInbound limit).trans (h.claimInbound limit)
  received key := (h'.received key).trans (h.received key)
  deadRows := h'.deadRows.trans h.deadRows
  sagas := h'.sagas.trans h.sagas
  entitlements := h'.entitlements.trans h.entitlements
  subscriptions := h'.subscriptions.trans h.subscriptions
  promos := h'.promos.trans h.promos
  seenAttempts := h'.seenAttempts.trans h.seenAttempts
  velocity now subject hle := (h'.velocity now subject hle).trans (h.velocity now subject hle)
  accruals := h'.accruals.trans h.accruals

theorem Restored.symm {latest : Int} {s s' : Participants Op}
    (h : Restored deps latest s s') : Restored deps latest s' s where
  ledger := h.ledger.symm
  committed := h.committed.symm
  bornAt := h.bornAt.symm
  sales := h.sales.symm
  outboxSize := h.outboxSize.symm
  claimBatch limit := (h.claimBatch limit).symm
  outboxStats now := (h.outboxStats now).symm
  claimInbound limit := (h.claimInbound limit).symm
  received key := (h.received key).symm
  deadRows := h.deadRows.symm
  sagas := h.sagas.symm
  entitlements := h.entitlements.symm
  subscriptions := h.subscriptions.symm
  promos := h.promos.symm
  seenAttempts := h.seenAttempts.symm
  velocity now subject hle := (h.velocity now subject hle).symm
  accruals := h.accruals.symm

theorem Window.kept {floor : Int} (h : Window deps start calls s)
    (hcalls : RunMeets (write deps) (Reversible start) start (calls.map IssuedCall.call))
    (hfloor : ∀ c ∈ calls.map IssuedCall.call, c.now - deps.velocityWindowMs ≤ floor) :
    Kept floor start s := by
  rw [h.calls]
  exact (h.sound.kept floor).calls hfloor hcalls

/-- With reversible calls only, a failure is isolated exactly when the direct calls would have
changed nothing. -/
theorem isolated_of_takenBack {start s' : Participants Op}
    (hback : TakenBack deps (calls.map IssuedCall.call) start s') :
    TakenBack deps (calls.map IssuedCall.call) (without deps start calls) s' ↔
      TakenBack deps (calls.map IssuedCall.call) start (without deps start calls) := by
  constructor
  · intro h latest hlatest
    exact (hback latest hlatest).trans (h latest hlatest).symm
  · intro h latest hlatest
    exact (h latest hlatest).symm.trans (hback latest hlatest)

theorem Window.exists_kept (h : Window deps start calls s)
    (hcalls : RunMeets (write deps) (Reversible start) start (calls.map IssuedCall.call)) :
    ∃ floor, Kept floor start s := by
  obtain ⟨floor, hfloor⟩ := exists_floor deps (calls.map IssuedCall.call)
  exact ⟨floor, h.kept hcalls hfloor⟩

theorem Window.takenBack {start s s' : Participants Op} (h : Window deps start calls s)
    (hcalls : RunMeets (write deps) (Reversible start) start (calls.map IssuedCall.call))
    (hback : ∀ floor, Kept floor start s → Near floor start s') :
    TakenBack deps (calls.map IssuedCall.call) start s' := by
  apply Participants.takenBack h.sound h.sound hcalls
  rw [← h.calls]
  exact hback

/-- A transaction's start has no reverser recorded yet. -/
theorem Kept.rollbackAll_opened {floor : Int} (h : Kept floor start s)
    (hopened : start.opened = start) : Near floor start s.rollbackAll := by
  apply Kept.rollbackAll
  rw [hopened]
  exact h

theorem coherent_moment {s : Shared Op} (h : Coherent deps s) (m : Moment Op)
    (hquiet : QuietWhenItFails deps s m) : Coherent deps (moment deps s m) := by
  obtain ⟨store, phase⟩ := s
  cases phase with
  | idle =>
    have hsound : store.Sound := h
    cases m with
    | beginTransaction => exact ⟨.fresh hsound.opened (opened_recording store), rfl⟩
    | beginBatch => exact Window.fresh hsound.opened (opened_recording store)
    | nextItem => exact h
    | fail => exact h
    | commit => exact h
    | call c =>
      cases hissuer : c.issuer with
      | unit => simpa [moment, hissuer] using h
      | outside =>
        have hmoment : moment deps ⟨store, .idle⟩ (.call c) = ⟨store.write deps c.call, .idle⟩ := by
          simp [moment, hissuer, Phase.record]
        rw [hmoment]
        exact hsound.write deps c.call
  | transaction start calls =>
    have hwindow : Window deps start calls store ∧ start.opened = start := h
    cases m with
    | beginTransaction => exact h
    | beginBatch => exact h
    | nextItem => exact h
    | call c => exact ⟨hwindow.1.append c, hwindow.2⟩
    | commit => exact hwindow.1.sound_now.commitAll
    | fail =>
      have hcalls : Quiet deps start calls := hquiet
      obtain ⟨floor, hkept⟩ := hwindow.1.exists_kept hcalls.reversible
      exact (hkept.rollbackAll_opened hwindow.2).sound hwindow.1.sound
  | batch start calls =>
    have hwindow : Window deps start calls store := h
    cases m with
    | beginTransaction => exact h
    | beginBatch => exact h
    | nextItem => exact Window.fresh hwindow.sound_now hwindow.recording_now
    | call c => exact hwindow.append c
    | commit => exact hwindow.sound_now.commitAll
    | fail =>
      have hcalls : Quiet deps start calls := hquiet
      obtain ⟨floor, hkept⟩ := hwindow.exists_kept hcalls.reversible
      exact Window.fresh ((hkept.rollbackTo hwindow.recording).sound hwindow.sound)
        (hwindow.recording_now.rollbackTo start)

theorem isolated_moment {s : Shared Op} (h : Coherent deps s) (m : Moment Op)
    (hquiet : QuietWhenItFails deps s m) : Isolated deps s m := by
  obtain ⟨store, phase⟩ := s
  cases m with
  | fail =>
    cases phase with
    | idle => trivial
    | transaction start calls =>
      have hwindow : Window deps start calls store ∧ start.opened = start := h
      have hcalls : Quiet deps start calls := hquiet
      apply (isolated_of_takenBack _).mpr hcalls.direct
      apply hwindow.1.takenBack hcalls.reversible
      exact fun floor hkept => hkept.rollbackAll_opened hwindow.2
    | batch start calls =>
      have hwindow : Window deps start calls store := h
      have hcalls : Quiet deps start calls := hquiet
      apply (isolated_of_takenBack _).mpr hcalls.direct
      apply hwindow.takenBack hcalls.reversible
      exact fun floor hkept => hkept.rollbackTo hwindow.recording
  | _ => trivial

def shared : Shared Op := ⟨memoryStore, .idle⟩

/-- In a run whose failing transactions and items meet no direct call that would have changed
anything, every rollback takes back what was written through its own unit and nothing else. -/
theorem run_isolated (deps : MemoryDeps) (run : List (Moment Op))
    (h : RunMeets (moment deps) (QuietWhenItFails deps) shared run) :
    RunMeets (moment deps) (Isolated deps) shared run := by
  have hall : ∀ (s : Shared Op) (run : List (Moment Op)), Coherent deps s →
      RunMeets (moment deps) (QuietWhenItFails deps) s run →
      RunMeets (moment deps) (Isolated deps) s run := by
    intro s run hs h
    induction run generalizing s with
    | nil => trivial
    | cons m run ih => exact ⟨isolated_moment hs m h.1, ih _ (coherent_moment hs m h.1) h.2⟩
  exact hall shared run memoryStore_sound h

def attempt : Attempt := ⟨"key_1", zero .credit, 1, .rejected⟩

def bumped : List (Moment Unit) :=
  [.beginTransaction, .call ⟨.outside, ⟨1, .trust (.bump "usr_a" attempt)⟩⟩, .fail]

/-- The bump was issued outside the transaction, and its rollback undid it. -/
theorem not_isolated_bumped : ¬ RunMeets (moment plainDeps) (Isolated plainDeps) shared bumped := by
  intro h
  have hback := h.2.2.1 1 (by simp)
  exact absurd hback.seenAttempts (by decide)

/-- The same call after the rollback, and a grant through the unit of a transaction that fails. -/
theorem run_isolated_bumped_after :
    RunMeets (moment plainDeps) (Isolated plainDeps) (shared : Shared Unit)
      [.beginTransaction,
        .call ⟨.unit, ⟨1, .entitlements (.grant "usr_a" "sku_1" ⟨none, none, none, none⟩)⟩⟩, .fail,
        .call ⟨.outside, ⟨1, .trust (.bump "usr_a" attempt)⟩⟩] := by
  apply run_isolated
  exact ⟨trivial, trivial, ⟨⟨trivial, trivial⟩, fun latest _ => .refl _ latest _⟩, trivial, trivial⟩

end EconomyLab.Participants
