import EconomyLab.Netting.ExactlyOnce
import EconomyLab.Netting.Screen

/-!
# A settled session stays closed

Whether a session settled is known to its object alone; a session recovered later infers it
from the postings a settlement left. A session whose settlement left a first chunk or a
replayed movement, with no second writer about, takes no movement again.
-/

namespace EconomyLab

open Foundation

/-- A session's objects record, flush and settle, other sessions journal rows of their own, and
the archive prunes postings. -/
inductive Episode
  | record (index : Nat) (request : MovementRequest)
  | flush (index : Nat)
  | settling (e : Event)
  | elsewhere (rows : List Movement)
  | archive (txnIds : List String)

/-- The retention sweep drops the session's rows. -/
def Episode.prunes : Episode → Bool
  | .settling (.prune _) => true
  | _ => false

def World.archive (w : World) (txnIds : List String) : World :=
  { w with ledger := pruneFromLog txnIds w.ledger }

namespace Settling

def called (index : Nat) (work : InstanceSession → World → InstanceSession × World) (σ : Settling) :
    Settling :=
  match σ.settlers[index]? with
  | none => σ
  | some t =>
    match t.phase with
    | .idle =>
      let after := work t.session σ.world
      { σ with world := after.2, settlers := σ.settlers.set index { t with session := after.1 } }
    | _ => σ

def live (env : Env) (sessionId : String) (σ : Settling) : Episode → Settling
  | .record index request => σ.called index fun s w => (record env request s w).2
  | .flush index => σ.called index fun s w => (EconomyLab.flush s w).2
  | .settling e => σ.step env sessionId e
  | .elsewhere rows =>
    { σ with world := { σ.world with
        movements := σ.world.movements ++ rows.filter (·.sessionId ≠ sessionId) } }
  | .archive txnIds => { σ with world := σ.world.archive txnIds }

def lives (env : Env) (sessionId : String) (σ : Settling) (episodes : List Episode) : Settling :=
  episodes.foldl (live env sessionId) σ

end Settling

/-- The ledger holds the session's first chunk, or one of its journaled movements. -/
def World.testifies (sessionId : String) (w : World) : Bool :=
  w.posted (chunkTxnId sessionId 0) ||
    w.movements.any fun m => m.sessionId = sessionId && w.posted (movementTxnId sessionId m.seq)

/-- The settlement has done its postings, and there is one on the ledger: the chunks if the journal
nets to anything, else what the ledger took of the replay. -/
def Settler.onRecord (sessionId : String) (w : World) (t : Settler) : Bool :=
  match t.phase with
  | .netting [] _ => positionsOf t.movements ≠ [] || w.testifies sessionId
  | .replaying [] _ _ => w.testifies sessionId
  | _ => true

/-- A settlement ends on record, it is reported while no other object of the session is unsettled,
and the archive leaves something of it. -/
def Settling.testifying (env : Env) (sessionId : String) (σ : Settling) : Episode → Bool
  | .settling (.advance index fate) => σ.settlers[index]?.all fun t =>
    t.onRecord sessionId σ.world && ((t.advance env fate σ.world).1.2.isNone ||
      (σ.settlers.eraseIdx index).all fun other => other.session.settled)
  | .archive txnIds =>
    !σ.world.testifies sessionId || (σ.world.archive txnIds).testifies sessionId
  | _ => true

def Settling.reported (σ : Settling) : Prop := ∃ report ∈ σ.reports, report.netted ≠ 0

section Closing

variable {env : Env} {sessionId : String} {w w' : World} {σ : Settling} {t : Settler} {index : Nat}

theorem mem_bySession {log : List Movement} {m : Movement} :
    m ∈ bySession sessionId log ↔ m ∈ log ∧ m.sessionId = sessionId := by
  unfold bySession
  rw [(List.perm_insertionSort _ _).mem_iff, List.mem_filter, decide_eq_true_eq]

theorem World.testifies_iff : w.testifies sessionId = true ↔
    w.posted (chunkTxnId sessionId 0) = true ∨
      ∃ m ∈ w.movements, m.sessionId = sessionId ∧ w.posted (movementTxnId sessionId m.seq) = true := by
  simp only [World.testifies, Bool.or_eq_true, List.any_eq_true, Bool.and_eq_true, decide_eq_true_eq]

theorem World.testifies_mono (hposted : ∀ txnId, w.posted txnId = true → w'.posted txnId = true)
    (hrows : ∀ m ∈ w.movements, m ∈ w'.movements) (h : w.testifies sessionId = true) :
    w'.testifies sessionId = true := by
  rw [World.testifies_iff] at h ⊢
  apply h.imp
  · exact hposted _
  · rintro ⟨m, hm, hid, hp⟩
    exact ⟨m, hrows m hm, hid, hposted _ hp⟩

theorem World.Grows.testifies (h : w.Grows w') (ht : w.testifies sessionId = true) :
    w'.testifies sessionId = true := by
  apply World.testifies_mono h.posted _ ht
  rw [h.movements]
  exact fun _ hm => hm

variable {maxBatch : Nat} {t' : Settler} {s : InstanceSession} {width : {n : Nat // 0 < n}}
  {scope : Scope}

theorem probeSettlement_settled (h : w.posted (chunkTxnId s.sessionId 0) = true ∨
      ∃ m ∈ s.accepted, w.posted (movementTxnId s.sessionId m.seq) = true) :
    (probeSettlement s w).settled = true := by
  unfold probeSettlement
  split
  · rfl
  · split
    · rfl
    · rename_i hnone
      rw [Bool.not_eq_true, List.any_eq_false] at hnone
      rcases h with h | ⟨m, hm, hp⟩
      · rw [if_pos h]
      · exact absurd hp (hnone m hm)

/-- A recovered session is the session's, with nothing pending; the journal was read, so a
settlement that left a trace is found. -/
theorem recoverSession_finds (h : recoverSession env sessionId maxBatch width scope w = (.ok s, w')) :
    w.Reserves w' ∧ s.sessionId = sessionId ∧ s.pending = [] ∧
      (w.testifies sessionId = true → s.settled = true) := by
  cases hj : journal env sessionId w with
  | error e => simp [recoverSession, hj] at h
  | ok movements =>
    obtain ⟨hs, hres, -⟩ := rebuild_spec movements
      (openInstanceSession sessionId maxBatch width scope) w
    simp only [recoverSession, hj] at h
    rcases hr : rebuild movements (openInstanceSession sessionId maxBatch width scope) w with ⟨s₁, w₁⟩
    rw [hr] at h hs hres
    simp only [Prod.mk.injEq, Except.ok.injEq] at h hs hres
    obtain ⟨rfl, rfl⟩ := h
    have hrows : movements = bySession sessionId w.movements := by
      cases hv : verifyChain env.digest GENESIS_HEX (bySession sessionId w.movements) with
      | error e => simp [journal, hv, bind, Except.bind] at hj
      | ok u =>
        simp only [journal, hv, bind, Except.bind, pure, Except.pure, Except.ok.injEq] at hj
        exact hj.symm
    have hid : s₁.sessionId = sessionId := by
      rw [hs]
      rfl
    have hacc : s₁.accepted = movements := by
      rw [hs]
      rfl
    have hprobe := (probeSettlement_spec s₁ w₁).1
    refine ⟨hres, ?_, ?_, ?_⟩
    · rw [hprobe]
      exact hid
    · rw [hprobe, hs]
      rfl
    · intro ht
      have hposted := World.posted_book (congrArg MemoryLedger.book hres.ledger)
      apply probeSettlement_settled
      rw [hid, hacc, hrows]
      apply (World.testifies_iff.mp ht).imp
      · exact fun hp => (hposted _).trans hp
      · rintro ⟨m, hm, hmid, hp⟩
        exact ⟨m, mem_bySession.mpr ⟨hm, hmid⟩, (hposted _).trans hp⟩

theorem recoverSession_error {e : Fault}
    (h : recoverSession env sessionId maxBatch width scope w = (.error e, w')) : w' = w := by
  cases hj : journal env sessionId w with
  | error e =>
    simp only [recoverSession, hj, Prod.mk.injEq] at h
    exact h.2.symm
  | ok movements => simp [recoverSession, hj] at h

theorem record_settled (h : s.settled = true) (request : MovementRequest) :
    record env request s w = (.error sessionSettledFault, s, w) := by
  unfold record
  rw [if_pos h]

theorem flush_nothing (h : s.pending = []) : flush s w = (.ok (), s, w) := by
  unfold flush
  rw [if_pos h]

/-- How far a running settlement is, and that what it posted is on record. -/
def Phase.Attested (sessionId : String) (w : World) (own : List Chunk) : Phase → Prop
  | .netting rest posted => rest = own.zipIdx.drop posted.length ∧
      (posted ≠ [] → w.testifies sessionId = true)
  | .claiming _ => w.testifies sessionId = true
  | .releasing _ _ => w.testifies sessionId = true
  | _ => True

/-- An object of the session; one that settled or is settling has nothing pending. -/
structure Settler.Attested (sessionId : String) (w : World) (t : Settler) : Prop where
  ofSession : t.session.sessionId = sessionId
  flushed : t.session.settled = true ∨ t.phase ≠ .idle → t.session.pending = []
  phase : t.phase.Attested sessionId w t.chunks

/-- Once a settlement is reported it is on record, and every object knows. -/
structure Settling.Attested (sessionId : String) (σ : Settling) : Prop where
  ready : σ.world.Ready
  settlers : ∀ t ∈ σ.settlers, t.Attested sessionId σ.world
  closed : σ.reported → σ.world.testifies sessionId = true ∧
    ∀ t ∈ σ.settlers, t.session.settled = true

theorem Phase.Attested.mono {own : List Chunk} {phase : Phase}
    (hkeeps : w.testifies sessionId = true → w'.testifies sessionId = true)
    (h : phase.Attested sessionId w own) : phase.Attested sessionId w' own := by
  cases phase with
  | idle => trivial
  | netting rest posted => exact ⟨h.1, fun hne => hkeeps (h.2 hne)⟩
  | compensating todo => trivial
  | replaying rest postings rejected => trivial
  | claiming report => exact hkeeps h
  | releasing rest report => exact hkeeps h

theorem Settler.Attested.mono (hkeeps : w.testifies sessionId = true → w'.testifies sessionId = true)
    (h : t.Attested sessionId w) : t.Attested sessionId w' :=
  ⟨h.ofSession, h.flushed, h.phase.mono hkeeps⟩

/-- The session is the one it was, up to what a settlement changes. -/
theorem Settler.Attested.moves (h : t.Attested sessionId w) (hne : t.phase ≠ .idle)
    (hid : t'.session.sessionId = t.session.sessionId) (hpending : t'.session.pending = t.session.pending)
    (hphase : t'.phase.Attested sessionId w' t'.chunks) : t'.Attested sessionId w' :=
  ⟨hid.trans h.ofSession, fun _ => hpending.trans (h.flushed (Or.inr hne)), hphase⟩

/-- The world moved under the settlers and left their record standing. -/
theorem Settling.Attested.around (h : σ.Attested sessionId) {σ' : Settling} (hready : σ'.world.Ready)
    (hkeeps : σ.world.testifies sessionId = true → σ'.world.testifies sessionId = true)
    (hsettlers : ∀ t ∈ σ'.settlers, t ∈ σ.settlers) (hreports : σ'.reports = σ.reports) :
    σ'.Attested sessionId := by
  refine ⟨hready, ?_, ?_⟩
  · exact fun t ht => (h.settlers t (hsettlers t ht)).mono hkeeps
  · rintro ⟨report, hr, hne⟩
    rw [hreports] at hr
    obtain ⟨htest, hall⟩ := h.closed ⟨report, hr, hne⟩
    exact ⟨hkeeps htest, fun t ht => hall t (hsettlers t ht)⟩

/-- One object moved, and reported at most what is on record with everybody else settled. -/
theorem Settling.Attested.moved (h : σ.Attested sessionId) (hi : σ.settlers[index]? = some t)
    {σ' : Settling} (hgrows : σ'.world.Ready)
    (hkeeps : σ.world.testifies sessionId = true → σ'.world.testifies sessionId = true)
    (hsettlers : σ'.settlers = σ.settlers.set index t')
    (ht' : t'.Attested sessionId σ'.world) (hset : t.session.settled = true → t'.session.settled = true)
    (hreports : σ'.reported → σ.reported ∨ (σ'.world.testifies sessionId = true ∧
      t'.session.settled = true ∧ ∀ other ∈ σ.settlers.eraseIdx index, other.session.settled = true)) :
    σ'.Attested sessionId := by
  have hcases : ∀ other ∈ σ'.settlers, other = t' ∨ other ∈ σ.settlers := by
    intro other ho
    rw [hsettlers] at ho
    exact (List.mem_or_eq_of_mem_set ho).symm
  have hothers : ∀ other ∈ σ'.settlers, other = t' ∨ other ∈ σ.settlers.eraseIdx index := by
    intro other ho
    rw [hsettlers] at ho
    obtain ⟨j, hj, rfl⟩ := List.mem_iff_getElem.mp ho
    by_cases he : j = index
    · left
      simp [he]
    · right
      rw [List.getElem_set_ne (Ne.symm he)]
      rw [List.mem_eraseIdx_iff_getElem]
      exact ⟨j, by simpa using hj, he, rfl⟩
  refine ⟨hgrows, ?_, ?_⟩
  · intro other ho
    rcases hcases other ho with rfl | ho
    · exact ht'
    · exact (h.settlers other ho).mono hkeeps
  · intro hrep
    rcases hreports hrep with hrep | ⟨htest, hset', hall⟩
    · obtain ⟨htest, hall⟩ := h.closed hrep
      refine ⟨hkeeps htest, ?_⟩
      intro other ho
      rcases hcases other ho with rfl | ho
      · exact hset (hall t (List.mem_of_getElem? hi))
      · exact hall other ho
    · refine ⟨htest, ?_⟩
      intro other ho
      rcases hothers other ho with rfl | ho
      · exact hset'
      · exact hall other ho

theorem flush_testifies (s : InstanceSession) (h : w.testifies sessionId = true) :
    (flush s w).2.2.testifies sessionId = true := by
  unfold flush
  split
  · exact h
  · split
    · exact h
    · rename_i log hlog
      apply World.testifies_mono ?_ ?_ h
      · exact fun _ hp => hp
      · intro m hm
        unfold appendMovements at hlog
        split at hlog
        · cases hlog
        · cases hlog
          exact List.mem_append_left _ hm

/-- A call to `record` leaves the flag and what is on the ledger; a settled object it leaves alone. -/
theorem record_keeps (env : Env) (request : MovementRequest) (s : InstanceSession) (hw : w.Ready) :
    (record env request s w).2.1.sessionId = s.sessionId ∧
      (record env request s w).2.1.settled = s.settled ∧ (record env request s w).2.2.Ready ∧
      (w.testifies sessionId = true → (record env request s w).2.2.testifies sessionId = true) := by
  rcases record_cases env request s w with hu | hr
  · rw [hu.session]
    refine ⟨rfl, rfl, hu.world.ready hw, ?_⟩
    apply World.testifies_mono
    · exact fun txnId hp => (World.posted_book (congrArg MemoryLedger.book hu.world.ledger) txnId).trans hp
    · rw [hu.world.movements]
      exact fun m hm => hm
  · obtain ⟨s₁, w₁, hs₁, hw₁, hafter⟩ := hr.after
    have hready : w₁.Ready := by
      rw [hw₁]
      obtain ⟨c1, c2, c3, c4, c5, c6, c7, c8, c9, c10⟩ := hw.closed
      exact ⟨⟨c1, c2, c3, c4, c5, c6, c7, c8, c9, c10⟩, hw.honest⟩
    have htest : w.testifies sessionId = true → w₁.testifies sessionId = true := by
      rw [hw₁]
      exact fun h => h
    rcases hafter with he | he
    · rw [congrArg Prod.fst he, congrArg Prod.snd he, hs₁]
      exact ⟨rfl, rfl, hready, htest⟩
    · rw [congrArg Prod.fst he, congrArg Prod.snd he, (flush_cases s₁ w₁).1, hs₁]
      exact ⟨rfl, rfl, hs₁ ▸ flush_ready hready, fun h => hs₁ ▸ flush_testifies s₁ (htest h)⟩

/-- An idle object is called, and stays what it is to the session. -/
theorem Settling.Attested.called (h : σ.Attested sessionId)
    {work : InstanceSession → World → InstanceSession × World}
    (hsettled : ∀ s w, s.settled = true → s.pending = [] → work s w = (s, w))
    (hkeeps : ∀ s, (work s σ.world).1.sessionId = s.sessionId ∧ (work s σ.world).1.settled = s.settled ∧
      (work s σ.world).2.Ready ∧
      (σ.world.testifies sessionId = true → (work s σ.world).2.testifies sessionId = true)) :
    (σ.called index work).Attested sessionId := by
  unfold Settling.called
  split
  · exact h
  · rename_i t hi
    split
    · rename_i hidle
      have ht := h.settlers t (List.mem_of_getElem? hi)
      obtain ⟨hid, hset, hready, htest⟩ := hkeeps t.session
      apply h.moved hi hready htest rfl
      · refine ⟨hid.trans ht.ofSession, ?_, ?_⟩
        · rintro (hs | hne)
          · have hs' : t.session.settled = true := hset ▸ hs
            have hp := ht.flushed (Or.inl hs')
            simp only [hsettled t.session σ.world hs' hp, hp]
          · exact absurd hidle hne
        · simp only [hidle]
          trivial
      · exact fun hs => hset.trans hs
      · exact Or.inl
    · exact h

/-! ## Steps of a settlement -/

/-- What one step of a settlement does to its object and to the record. -/
structure Settler.Moves (sessionId : String) (t : Settler) (w : World)
    (after : (Settler × Option SettleReport) × World) : Prop where
  ready : after.2.Ready
  keeps : w.testifies sessionId = true → after.2.testifies sessionId = true
  attested : after.1.1.Attested sessionId after.2
  settled : t.session.settled = true → after.1.1.session.settled = true
  movements : t.session.settled = true → after.2.movements = w.movements
  reports : ∀ report ∈ after.1.2, report.netted ≠ 0 →
    after.2.testifies sessionId = true ∧ after.1.1.session.settled = true

theorem Settler.Attested.calls (h : t.Attested sessionId w) (hw : w.Ready) (hidle : t.phase = .idle) :
    t.Moves sessionId w (t.call env w) := by
  have hsession := (flush_cases t.session w).1
  have hready := flush_ready (s := t.session) hw
  have hkeeps : w.testifies sessionId = true → (flush t.session w).2.2.testifies sessionId = true :=
    flush_testifies t.session
  unfold Settler.call
  rcases hf : flush t.session w with ⟨res, s₁, w₁⟩
  rw [hf] at hsession hready hkeeps
  simp only at hsession hready hkeeps
  have hid : s₁.sessionId = sessionId := by
    rw [hsession]
    exact h.ofSession
  have hpending : s₁.pending = [] := by rw [hsession]
  have hmv : t.session.settled = true → w₁.movements = w.movements := by
    intro hs
    rw [flush_nothing (h.flushed (Or.inl hs))] at hf
    cases hf
    rfl
  have hset : t.session.settled = true → s₁.settled = true := by
    rw [hsession]
    exact fun hs => hs
  have hback : ({ t with session := s₁ } : Settler).Attested sessionId w₁ := by
    refine ⟨hid, fun _ => hpending, ?_⟩
    simp only [hidle]
    trivial
  cases res with
  | error e => exact ⟨hready, hkeeps, hback, hset, hmv, fun _ hr => by cases hr⟩
  | ok u =>
    simp only
    cases hj : journal env s₁.sessionId w₁ with
    | error e => exact ⟨hready, hkeeps, hback, hset, hmv, fun _ hr => by cases hr⟩
    | ok movements =>
      simp only
      split
      · refine ⟨hready, hkeeps, hback, hset, hmv, ?_⟩
        intro report hr hne
        cases hr
        exact absurd rfl hne
      · split
        · exact ⟨hready, hkeeps, ⟨hid, fun _ => hpending, trivial⟩, fun _ => rfl, hmv,
            fun _ hr => by cases hr⟩
        · refine ⟨hready, hkeeps, ⟨hid, fun _ => hpending, ?_⟩, hset, hmv, fun _ hr => by cases hr⟩
          exact ⟨rfl, fun hne => absurd rfl hne⟩

theorem call_reports {report : SettleReport} (h : report ∈ (t.call env w).1.2) : report.netted = 0 := by
  unfold Settler.call at h
  split at h
  · cases h
  · split at h
    · cases h
    · split at h
      · cases h
        rfl
      · split at h <;> cases h

theorem attempt_grows {α : Type} {work : World → Except Fault α × World} (hw : w.Ready)
    (hgrows : w.Grows (work w).2) (fate : Fate) : w.Grows (Settler.attempt fate work w).2 := by
  cases fate with
  | proceed => exact hgrows
  | storeError => exact World.Grows.refl hw

theorem postChunk_grows (env : Env) (sessionId : String) (shape : Shape) (chunk : Chunk) (i : Nat)
    (compensate : Bool) (hw : w.Ready) :
    w.Grows (postChunk env sessionId shape chunk i compensate w).2 ∧
      ((postChunk env sessionId shape chunk i compensate w).1 = .ok () → compensate = false →
        (postChunk env sessionId shape chunk i compensate w).2.posted (chunkTxnId sessionId i) =
          true) := by
  unfold postChunk
  split
  · refine ⟨World.Grows.refl hw, ?_⟩
    intro hok
    cases hok
  · rename_i legs hlegs
    obtain ⟨hgrows, hposted⟩ := transaction_postOnce_grows env
      (chunkPosting sessionId shape i compensate legs) hw
    refine ⟨hgrows, ?_⟩
    rintro hok rfl
    exact hposted hok

theorem Settler.Attested.released (h : t.Attested sessionId w) (hne : t.phase ≠ .idle) (hw : w.Ready)
    (htest : w.testifies sessionId = true) (report : SettleReport) :
    t.Moves sessionId w (t.released report, w) :=
  ⟨hw, fun ht => ht, h.moves hne rfl rfl trivial, fun _ => rfl, fun _ => rfl,
    fun _ _ _ => ⟨htest, rfl⟩⟩

theorem Settler.Attested.release (h : t.Attested sessionId w) (hne : t.phase ≠ .idle) (hw : w.Ready)
    (htest : w.testifies sessionId = true) (report : SettleReport) :
    t.Moves sessionId w (t.release report, w) := by
  unfold Settler.release
  split
  · exact ⟨hw, fun ht => ht, h.moves hne rfl rfl trivial, fun _ => rfl,
      fun _ => rfl, fun _ _ _ => ⟨htest, rfl⟩⟩
  · split
    · exact ⟨hw, fun ht => ht, h.moves hne rfl rfl htest, fun hs => hs,
        fun _ => rfl, fun _ hr => by cases hr⟩
    · exact ⟨hw, fun ht => ht, h.moves hne rfl rfl htest, fun hs => hs,
        fun _ => rfl, fun _ hr => by cases hr⟩

/-- A step that reports nothing and leaves the session's flag where it was, or sets it. -/
theorem Settler.Attested.goes (h : t.Attested sessionId w) (hne : t.phase ≠ .idle)
    (hgrows : w.Grows w') (hid : t'.session.sessionId = t.session.sessionId)
    (hpending : t'.session.pending = t.session.pending)
    (hset : t.session.settled = true → t'.session.settled = true)
    (hphase : t'.phase.Attested sessionId w' t'.chunks) : t.Moves sessionId w ((t', none), w') :=
  ⟨hgrows.ready, hgrows.testifies, h.moves hne hid hpending hphase, hset,
    fun _ => hgrows.movements, fun _ hr => by cases hr⟩

theorem Settler.Attested.advances (h : t.Attested sessionId w) (hw : w.Ready)
    (hmeets : t.onRecord sessionId w = true) (fate : Fate) :
    t.Moves sessionId w (t.advance env fate w) := by
  have hphase := h.phase
  unfold Settler.onRecord at hmeets
  unfold Settler.advance
  cases hp : t.phase with
  | idle =>
    exact ⟨hw, fun ht => ht, h, fun hs => hs, fun _ => rfl, fun _ hr => by cases hr⟩
  | netting rest posted =>
    have hne : t.phase ≠ .idle := by simp [hp]
    rw [hp] at hphase hmeets
    cases rest with
    | nil =>
      apply h.release hne hw
      -- every chunk is behind, and the journal nets to something: the first one was posted
      simp only [Bool.or_eq_true, decide_eq_true_eq] at hmeets
      rcases hmeets with hnet | htest
      · apply hphase.2
        rintro rfl
        have hnil : t.chunks = [] := by simpa using hphase.1.symm
        apply hnet
        rw [← t.session.chunks_flatten t.movements]
        exact congrArg (fun chunks : List Chunk => chunks.zipIdx.flatMap Prod.fst) hnil
      · exact htest
    | cons c rest =>
      obtain ⟨chunk, i⟩ := c
      obtain ⟨-, hi, -, hrest⟩ := drop_zipIdx_cons hphase.1.symm
      obtain ⟨hgrows, hposted⟩ := postChunk_grows env t.session.sessionId t.shape chunk i false hw
      have hattempt := attempt_grows hw hgrows fate
      simp only
      rcases hr : Settler.attempt fate (postChunk env t.session.sessionId t.shape chunk i false) w with
        ⟨res, w'⟩
      rw [hr] at hattempt
      cases res with
      | error e => exact h.goes hne hattempt rfl rfl (fun hs => hs) trivial
      | ok u =>
        have hgoes : (Phase.netting rest (posted ++ [i])).Attested sessionId w' t.chunks := by
          refine ⟨?_, fun _ => ?_⟩
          · rw [List.length_append]
            exact hrest
          · -- the first chunk is the one posted now, or it is on record already
            by_cases hfirst : posted = []
            · have hzero : i = 0 := by
                rw [hi, hfirst]
                rfl
              cases fate with
              | storeError => cases hr
              | proceed =>
                have hr' : postChunk env t.session.sessionId t.shape chunk i false w = (.ok (), w') := hr
                rw [hr'] at hposted
                have hc := hposted rfl rfl
                rw [hzero, h.ofSession] at hc
                exact World.testifies_iff.mpr (Or.inl hc)
            · exact hattempt.testifies (hphase.2 hfirst)
        exact h.goes hne hattempt rfl rfl (fun hs => hs) hgoes
  | compensating todo =>
    have hne : t.phase ≠ .idle := by simp [hp]
    cases todo with
    | nil => exact h.goes hne (World.Grows.refl hw) rfl rfl (fun _ => rfl) trivial
    | cons i todo =>
      have hattempt := attempt_grows hw
        (postChunk_grows env t.session.sessionId t.shape (t.chunks.getD i []) i true hw).1 fate
      simp only
      rcases hr : Settler.attempt fate
        (postChunk env t.session.sessionId t.shape (t.chunks.getD i []) i true) w with ⟨res, w'⟩
      rw [hr] at hattempt
      cases res with
      | error e => exact h.goes hne hattempt rfl rfl (fun hs => hs) trivial
      | ok u => exact h.goes hne hattempt rfl rfl (fun hs => hs) trivial
  | replaying rest postings rejected =>
    have hne : t.phase ≠ .idle := by simp [hp]
    rw [hp] at hmeets
    cases rest with
    | nil => exact h.release hne hw hmeets _
    | cons m rest =>
      have hattempt := attempt_grows hw
        (transaction_postOnce_grows env (replayPosting t.session.sessionId t.head m) hw).1 fate
      simp only
      rcases hr : Settler.attempt fate
        (transaction (postOnce env (replayPosting t.session.sessionId t.head m))) w with ⟨res, w'⟩
      rw [hr] at hattempt
      cases res with
      | error e => exact h.goes hne hattempt rfl rfl (fun hs => hs) trivial
      | ok u => exact h.goes hne hattempt rfl rfl (fun hs => hs) trivial
  | claiming report =>
    have hne : t.phase ≠ .idle := by simp [hp]
    have htest : w.testifies sessionId = true := by
      rw [hp] at hphase
      exact hphase
    have hclaim : w.Grows (transaction (claimRelease env t.session.sessionId) w).2 := by
      rcases claimRelease_cases env t.session.sessionId hw with
        ⟨txn, w', -, htr, hsame, hready⟩ | ⟨-, txn, w', htr, hready, hbook, hmv, hresv, -⟩
      · rw [htr]
        exact hsame.grows hready
      · rw [htr]
        exact ⟨hready, fun txnId hp => (World.posted_book hbook txnId).trans hp, hmv, hresv⟩
    have hattempt := attempt_grows hw hclaim fate
    simp only
    rcases hr : Settler.attempt fate (transaction (claimRelease env t.session.sessionId)) w with ⟨res, w'⟩
    rw [hr] at hattempt
    rcases res with e | won
    · exact h.goes hne hattempt rfl rfl (fun hs => hs) trivial
    · cases won with
      | true => exact h.goes hne hattempt rfl rfl (fun hs => hs) (hattempt.testifies htest)
      | false =>
        have hmoved : t.Attested sessionId w' := h.mono hattempt.testifies
        exact ⟨hattempt.ready, hattempt.testifies,
          (hmoved.released hne hattempt.ready (hattempt.testifies htest) report).attested,
          fun _ => rfl, fun _ => hattempt.movements, fun _ _ _ => ⟨hattempt.testifies htest, rfl⟩⟩
  | releasing rest report =>
    have hne : t.phase ≠ .idle := by simp [hp]
    have htest : w.testifies sessionId = true := by
      rw [hp] at hphase
      exact hphase
    cases rest with
    | nil => exact h.released hne hw htest report
    | cons q rest =>
      cases fate with
      | storeError => exact h.goes hne (World.Grows.refl hw) rfl rfl (fun hs => hs) trivial
      | proceed =>
        have hres := w.addReservation_reserves q.1 (-q.2)
        have hgoes : (t.at_ (.releasing rest report)).Attested sessionId
            (w.addReservation q.1 (-q.2)) :=
          ⟨h.ofSession, fun _ => h.flushed (Or.inr hne), htest⟩
        exact ⟨hres.ready hw, fun _ => htest, hgoes, fun hs => hs, fun _ => rfl,
          fun _ hr => by cases hr⟩

theorem World.archive_ready (hw : w.Ready) (txnIds : List String) : (w.archive txnIds).Ready := by
  obtain ⟨history, hh⟩ := hw.honest
  obtain ⟨c1, c2, c3, c4, c5, c6, c7, c8, c9, c10⟩ := hw.closed
  by_cases hlen : (w.ledger.tables.log.filter (·.txnId ∉ txnIds)).length = w.ledger.tables.log.length
  · have hsame : pruneFromLog txnIds w.ledger = w.ledger := by
      unfold pruneFromLog
      exact if_pos hlen
    unfold World.archive
    rw [hsame]
    exact hw
  · unfold World.archive pruneFromLog
    simp only [hlen, if_false]
    refine ⟨⟨?_, c2, c3, c4, c5, c6, c7, c8, c9, c10⟩, history.prune txnIds, hh.prune txnIds⟩
    simp [Journaled.write, Journaled.record, c1]

theorem Settling.Attested.put (h : σ.Attested sessionId) (hi : σ.settlers[index]? = some t)
    {after : (Settler × Option SettleReport) × World} (hmoves : t.Moves sessionId σ.world after)
    (hothers : ∀ report ∈ after.1.2, report.netted ≠ 0 →
      ∀ other ∈ σ.settlers.eraseIdx index, other.session.settled = true) :
    (σ.put sessionId index t after).Attested sessionId := by
  apply h.moved hi hmoves.ready hmoves.keeps rfl hmoves.attested hmoves.settled
  rintro ⟨report, hr, hne⟩
  rcases List.mem_append.mp hr with hr | hr
  · exact Or.inl ⟨report, hr, hne⟩
  · have hr' : report ∈ after.1.2 := Option.mem_toList.mp hr
    right
    exact ⟨(hmoves.reports report hr' hne).1, (hmoves.reports report hr' hne).2,
      hothers report hr' hne⟩

theorem Settling.Attested.recovered (h : σ.Attested sessionId) (maxBatch : Nat)
    (width : {n : Nat // 0 < n}) (scope : Scope) :
    (σ.step env sessionId (.recover maxBatch width scope)).Attested sessionId := by
  simp only [Settling.step]
  rcases hr : recoverSession env sessionId maxBatch width scope σ.world with ⟨res, w'⟩
  cases res with
  | error e =>
    simp only [recoverSession_error hr]
    exact h
  | ok s =>
    obtain ⟨hres, hid, hpending, hfinds⟩ := recoverSession_finds hr
    have hkeeps : σ.world.testifies sessionId = true → w'.testifies sessionId = true := by
      apply World.testifies_mono
      · exact fun txnId hp => (World.posted_book (congrArg MemoryLedger.book hres.ledger) txnId).trans hp
      · rw [hres.movements]
        exact fun _ hm => hm
    refine ⟨hres.ready h.ready, ?_, ?_⟩
    · intro t ht
      rcases List.mem_append.mp ht with ht | ht
      · exact (h.settlers t ht).mono hkeeps
      · rw [List.mem_singleton.mp ht]
        exact ⟨hid, fun _ => hpending, trivial⟩
    · intro hrep
      obtain ⟨htest, hall⟩ := h.closed hrep
      refine ⟨hkeeps htest, ?_⟩
      intro t ht
      rcases List.mem_append.mp ht with ht | ht
      · exact hall t ht
      · rw [List.mem_singleton.mp ht]
        exact hfinds htest

/-- A step that meets the condition, short of dropping the journal, leaves every object and the
record in agreement. -/
theorem Settling.Attested.lives (h : σ.Attested sessionId) {e : Episode} (hkept : e.prunes = false)
    (hmeets : σ.testifying env sessionId e = true) : (σ.live env sessionId e).Attested sessionId := by
  cases e with
  | record index request =>
    simp only [Settling.live]
    apply h.called
    · intro s w hs _
      rw [record_settled hs]
    · exact fun s => record_keeps env request s h.ready
  | flush index =>
    simp only [Settling.live]
    apply h.called
    · intro s w _ hp
      rw [flush_nothing hp]
    · intro s
      rw [(flush_cases s σ.world).1]
      exact ⟨rfl, rfl, flush_ready h.ready, flush_testifies s⟩
  | elsewhere rows =>
    obtain ⟨c1, c2, c3, c4, c5, c6, c7, c8, c9, c10⟩ := h.ready.closed
    refine h.around ⟨⟨c1, c2, c3, c4, c5, c6, c7, c8, c9, c10⟩, h.ready.honest⟩ ?_ (fun _ ht => ht) rfl
    apply World.testifies_mono
    · exact fun _ hp => hp
    · exact fun m hm => List.mem_append_left _ hm
  | archive txnIds =>
    refine h.around (World.archive_ready h.ready txnIds) ?_ (fun _ ht => ht) rfl
    intro ht
    simp only [testifying, ht, Bool.not_true, Bool.false_or] at hmeets
    exact hmeets
  | settling e =>
    cases e with
    | recover maxBatch width scope => exact h.recovered maxBatch width scope
    | call index =>
      simp only [Settling.live, Settling.step]
      split
      · exact h
      · rename_i t hi
        split
        · rename_i hidle
          apply h.put hi ((h.settlers t (List.mem_of_getElem? hi)).calls h.ready hidle)
          exact fun report hr hne => absurd (call_reports hr) hne
        · exact h
    | advance index fate =>
      simp only [Settling.live, Settling.step]
      split
      · exact h
      · rename_i t hi
        simp only [testifying, hi, Option.all_some, Bool.and_eq_true, Bool.or_eq_true,
          List.all_eq_true, Option.isNone_iff_eq_none] at hmeets
        apply h.put hi ((h.settlers t (List.mem_of_getElem? hi)).advances h.ready hmeets.1 fate)
        intro report hr _ other ho
        rcases hmeets.2 with hnone | hall
        · rw [hnone] at hr
          cases hr
        · exact hall other ho
    | crash index =>
      exact h.around h.ready (fun ht => ht) (fun t ht => List.mem_of_mem_eraseIdx ht) rfl
    | ask index => exact h
    | prune index => cases hkept
    | post posting =>
      rcases transaction_postEntry env posting h.ready with hland | ⟨hsame, hready⟩
      · exact h.around hland.ready hland.grows.testifies (fun _ ht => ht) rfl
      · exact h.around hready (hsame.grows hready).testifies (fun _ ht => ht) rfl
    | reserve account delta =>
      have hres := σ.world.addReservation_reserves account delta
      exact h.around (hres.ready h.ready) (fun ht => ht) (fun _ ht => ht) rfl

/-! ## Closed for good -/

/-- At `σ'` every object of the session refuses movements, so does every one recovered from there,
and the journal has the rows it had at `σ`. -/
structure Settling.ClosedSince (env : Env) (sessionId : String) (σ σ' : Settling) : Prop where
  refuses : ∀ t ∈ σ'.settlers, ∀ request,
    record env request t.session σ'.world = (.error sessionSettledFault, t.session, σ'.world)
  rebuilt : ∀ maxBatch width scope s w,
    recoverSession env sessionId maxBatch width scope σ'.world = (.ok s, w) →
      ∀ request, record env request s w = (.error sessionSettledFault, s, w)
  rows : σ'.world.movements.filter (·.sessionId = sessionId) =
    σ.world.movements.filter (·.sessionId = sessionId)

theorem Settling.reported_live (h : σ.reported) (e : Episode) : (σ.live env sessionId e).reported := by
  have hput : ∀ {index : Nat} {t : Settler} {after : (Settler × Option SettleReport) × World},
      (σ.put sessionId index t after).reported := by
    intro index t after
    obtain ⟨report, hr, hne⟩ := h
    exact ⟨report, List.mem_append_left _ hr, hne⟩
  have hcalled : ∀ index work, (σ.called index work).reported := by
    intro index work
    unfold Settling.called
    split
    · exact h
    · split <;> exact h
  cases e with
  | record index request => exact hcalled index _
  | flush index => exact hcalled index _
  | elsewhere rows => exact h
  | archive txnIds => exact h
  | settling e =>
    cases e with
    | recover maxBatch width scope =>
      simp only [Settling.live, Settling.step]
      split <;> exact h
    | call index =>
      simp only [Settling.live, Settling.step]
      split
      · exact h
      · split
        · exact hput
        · exact h
    | advance index fate =>
      simp only [Settling.live, Settling.step]
      split
      · exact h
      · exact hput
    | crash index => exact h
    | ask index => exact h
    | prune index =>
      simp only [Settling.live, Settling.step]
      split
      · exact h
      · split <;> exact h
    | post posting => exact h
    | reserve account delta => exact h

theorem Settling.Attested.rows_live (h : σ.Attested sessionId) (hrep : σ.reported) {e : Episode}
    (hkept : e.prunes = false) (hmeets : σ.testifying env sessionId e = true) :
    (σ.live env sessionId e).world.movements.filter (·.sessionId = sessionId) =
      σ.world.movements.filter (·.sessionId = sessionId) := by
  have hall := (h.closed hrep).2
  have hcalled : ∀ (index : Nat) (work : InstanceSession → World → InstanceSession × World),
      (∀ s w, s.settled = true → s.pending = [] → work s w = (s, w)) →
        (σ.called index work).world.movements = σ.world.movements := by
    intro index work hwork
    unfold Settling.called
    split
    · rfl
    · rename_i t hi
      split
      · have ht := List.mem_of_getElem? hi
        simp only [hwork t.session σ.world (hall t ht) ((h.settlers t ht).flushed (Or.inl (hall t ht)))]
      · rfl
  cases e with
  | record index request =>
    apply congrArg (List.filter _)
    apply hcalled
    intro s w hs _
    rw [record_settled hs]
  | flush index =>
    apply congrArg (List.filter _)
    apply hcalled
    intro s w _ hp
    rw [flush_nothing hp]
  | elsewhere rows =>
    have hnone : (rows.filter (·.sessionId ≠ sessionId)).filter (·.sessionId = sessionId) = [] := by
      simp [List.filter_filter]
    simp only [Settling.live, List.filter_append, hnone, List.append_nil]
  | archive txnIds => rfl
  | settling e =>
    cases e with
    | recover maxBatch width scope =>
      simp only [Settling.live, Settling.step]
      rcases hr : recoverSession env sessionId maxBatch width scope σ.world with ⟨res, w'⟩
      cases res with
      | error e => rw [recoverSession_error hr]
      | ok s => rw [(recoverSession_finds hr).1.movements]
    | call index =>
      simp only [Settling.live, Settling.step]
      split
      · rfl
      · rename_i t hi
        split
        · rename_i hidle
          have ht := List.mem_of_getElem? hi
          have hmoves : t.Moves sessionId σ.world (t.call env σ.world) :=
            (h.settlers t ht).calls h.ready hidle
          exact congrArg (List.filter _) (hmoves.movements (hall t ht))
        · rfl
    | advance index fate =>
      simp only [Settling.live, Settling.step]
      split
      · rfl
      · rename_i t hi
        have ht := List.mem_of_getElem? hi
        simp only [testifying, hi, Option.all_some, Bool.and_eq_true] at hmeets
        exact congrArg (List.filter _)
          (((h.settlers t ht).advances h.ready hmeets.1 fate).movements (hall t ht))
    | crash index => rfl
    | ask index => rfl
    | prune index => cases hkept
    | post posting =>
      rcases transaction_postEntry env posting h.ready with hland | ⟨hsame, -⟩
      · exact congrArg (List.filter _) hland.movements
      · exact congrArg (List.filter _) hsame.movements
    | reserve account delta => rfl

theorem Settling.Attested.closedSince (h : σ.Attested sessionId) (hrep : σ.reported) :
    σ.ClosedSince env sessionId σ := by
  obtain ⟨htest, hall⟩ := h.closed hrep
  refine ⟨fun t ht request => record_settled (hall t ht) request, ?_, rfl⟩
  intro maxBatch width scope s w hr request
  exact record_settled ((recoverSession_finds hr).2.2.2 htest) request

theorem attested_begun (hw : w.Ready) :
    (Settling.begun (openInstanceSession sessionId maxBatch width scope) w).Attested sessionId := by
  refine ⟨hw, ?_, ?_⟩
  · intro t ht
    rw [List.mem_singleton.mp ht]
    exact ⟨rfl, fun _ => rfl, trivial⟩
  · rintro ⟨report, hr, -⟩
    cases hr

/-- A step meets the condition short of the retention sweep. -/
def Settling.Testifies (env : Env) (sessionId : String) (σ : Settling) (e : Episode) : Prop :=
  e.prunes = false ∧ σ.testifying env sessionId e = true

instance (env : Env) (sessionId : String) (σ : Settling) (e : Episode) :
    Decidable (σ.Testifies env sessionId e) :=
  inferInstanceAs (Decidable (_ ∧ _))

theorem Settling.Attested.closes {after : List Episode} (h : σ.Attested sessionId) (hrep : σ.reported)
    (hmeets : RunMeets (Settling.live env sessionId) (Settling.Testifies env sessionId) σ after) :
    σ.ClosedSince env sessionId (σ.lives env sessionId after) := by
  have hend := hmeets.inv (I := fun σ' => (σ'.Attested sessionId ∧ σ'.reported) ∧
      σ'.world.movements.filter (·.sessionId = sessionId) =
        σ.world.movements.filter (·.sessionId = sessionId)) ?_ ⟨⟨h, hrep⟩, rfl⟩
  · obtain ⟨⟨hatt, hrep'⟩, hrows⟩ := hend
    have hnow : Settling.ClosedSince env sessionId _ _ := hatt.closedSince hrep'
    exact ⟨hnow.refuses, hnow.rebuilt, hrows⟩
  · rintro σ' e ⟨⟨hatt, hrep'⟩, hrows⟩ ⟨hkept, hm⟩
    exact ⟨⟨hatt.lives hkept hm, Settling.reported_live hrep' e⟩,
      (hatt.rows_live hrep' hkept hm).trans hrows⟩

theorem Settling.lives_append (σ : Settling) (before after : List Episode) :
    σ.lives env sessionId (before ++ after) =
      (σ.lives env sessionId before).lives env sessionId after :=
  List.foldl_append

def Settling.opening (sessionId : String) (maxBatch : Nat) (width : {n : Nat // 0 < n}) (scope : Scope)
    (w : World) : Settling :=
  Settling.begun (openInstanceSession sessionId maxBatch width scope) w

/-- In a run whose settlements end on record with no second writer about, a session whose settlement
of a nonempty journal was reported is closed from then on, until its journal is pruned. -/
theorem settled_session_stays_closed (env : Env) {sessionId : String} {maxBatch : Nat}
    {width : {n : Nat // 0 < n}} {scope : Scope} {w : World} (hw : w.Ready)
    {before after : List Episode}
    (hmeets : RunMeets (Settling.live env sessionId) (Settling.Testifies env sessionId)
      (Settling.opening sessionId maxBatch width scope w) (before ++ after))
    (hreported : ((Settling.opening sessionId maxBatch width scope w).lives env sessionId
      before).reported) :
    Settling.ClosedSince env sessionId
      ((Settling.opening sessionId maxBatch width scope w).lives env sessionId before)
      ((Settling.opening sessionId maxBatch width scope w).lives env sessionId (before ++ after)) := by
  obtain ⟨hbefore, hafter⟩ := hmeets.append
  have hattested : ((Settling.opening sessionId maxBatch width scope w).lives env sessionId
      before).Attested sessionId :=
    hbefore.inv (fun σ e h hm => h.lives hm.1 hm.2) (attested_begun hw)
  rw [Settling.lives_append]
  exact hattested.closes hreported hafter

end Closing

def fundedPayer (env : Env) : World :=
  let issue : Posting := ⟨"txn_1", [⟨SYSTEM.STORED_VALUE, ⟨.credit, 10, .ten⟩⟩,
    ⟨spendable "usr_a", ⟨.credit, -10, .neg_ten⟩⟩], []⟩
  { World.empty with ledger := (runLedger env.digest [.write (.entry 0 issue)]).ledger }

theorem fundedPayer_ready (env : Env) : (fundedPayer env).Ready :=
  World.ready_of_run ⟨rfl, rfl, rfl, rfl, rfl, rfl, rfl, rfl, rfl, rfl⟩ rfl

def settleIn (steps : Nat) : List Episode :=
  .settling (.call 0) :: List.replicate steps (.settling (.advance 0 .proceed))

/-- One movement netted; the session recovered afterwards refuses the next one. -/
theorem settled_session_stays_closed_recovered :
    let env : Env := ⟨List.take 4, fun _ => 0, fun _ => ""⟩
    let σ := Settling.opening "ses_1" 1 ⟨2, by decide⟩ .process (fundedPayer env)
    let before : List Episode := .record 0 (tenFromTo "mv_1" "usr_a" "usr_b") :: settleIn 5
    let after : List Episode :=
      [.settling (.recover 1 ⟨2, by decide⟩ .process), .record 1 (tenFromTo "mv_2" "usr_b" "usr_a")]
    Settling.ClosedSince env "ses_1" (σ.lives env "ses_1" before)
      (σ.lives env "ses_1" (before ++ after)) := by
  intro env σ before after
  apply settled_session_stays_closed env (fundedPayer_ready env)
  · decide +kernel
  · have hnetted : (σ.lives env "ses_1" before).reports.map SettleReport.netted = [1] := by
      decide +kernel
    obtain ⟨report, hr, hn⟩ := List.mem_map.mp (hnetted ▸ List.mem_singleton_self 1)
    exact ⟨report, hr, by simp [hn]⟩

/-- Ten there and ten back: the settlement posts nothing, and the session recovered afterwards takes
another movement. -/
theorem netted_out_session_reopens :
    let env : Env := ⟨List.take 4, fun _ => 0, fun _ => ""⟩
    let σ := Settling.opening "ses_1" 1 ⟨2, by decide⟩ .process (fundedPayer env)
    let before : List Episode := .record 0 (tenFromTo "mv_1" "usr_a" "usr_b") ::
      .record 0 (tenFromTo "mv_2" "usr_b" "usr_a") :: settleIn 6
    let after : List Episode :=
      [.settling (.recover 1 ⟨2, by decide⟩ .process), .record 1 (tenFromTo "mv_3" "usr_a" "usr_b")]
    (fundedPayer env).Ready ∧ (∀ e ∈ before ++ after, e.prunes = false) ∧
      (σ.lives env "ses_1" before).reported ∧
        ¬ Settling.ClosedSince env "ses_1" (σ.lives env "ses_1" before)
          (σ.lives env "ses_1" (before ++ after)) := by
  intro env σ before after
  refine ⟨fundedPayer_ready env, by decide, ?_, ?_⟩
  · have hnetted : (σ.lives env "ses_1" before).reports.map SettleReport.netted = [2] := by
      decide +kernel
    obtain ⟨report, hr, hn⟩ := List.mem_map.mp (hnetted ▸ List.mem_singleton_self 2)
    exact ⟨report, hr, by simp [hn]⟩
  · intro h
    exact absurd (congrArg List.length h.rows) (by decide +kernel)

end EconomyLab
