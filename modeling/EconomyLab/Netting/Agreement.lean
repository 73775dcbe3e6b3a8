import EconomyLab.Netting.Evidence

/-!
# Settlers that agree

As long as every settler cuts the session alike, and no chunk is added once one of them
gave up the netted attempt, all of them find and leave the same state of affairs: a
prefix of the chunks, those compensated among them, and the movements replayed.
-/

namespace EconomyLab

open Foundation

/-! ## What the settlers know -/

namespace SettleReport

def refused (report : SettleReport) : List String := report.rejected.map Prod.fst

end SettleReport

namespace Phase

/-- The keys this settlement has refused so far, or is about to report. -/
def refused : Phase → List String
  | .replaying _ _ rejected => rejected.map Prod.fst
  | .claiming report => report.refused
  | .releasing _ report => report.refused
  | _ => []

/-- The netted attempt was given up. -/
def abandons : Phase → Bool
  | .compensating _ => true
  | .replaying _ _ _ => true
  | .claiming report => report.mode = .replayed
  | .releasing _ report => report.mode = .replayed
  | _ => false

end Phase

namespace Settling

def chunks (ms : List Movement) (σ : Settling) : List Chunk :=
  match σ.width with
  | none => []
  | some width => chunksOf width.1 (positionsOf ms)

/-- The ledger or a report tells that the netted attempt was given up. -/
def abandonedOnRecord (sessionId : String) (ms : List Movement) (σ : Settling) : Bool :=
  ((List.range (σ.chunks ms).length).any fun i => σ.world.posted (compTxnId sessionId i)) ||
    (ms.any fun m => σ.world.posted (movementTxnId sessionId m.seq)) ||
      σ.reports.any fun report => report.mode = .replayed

def abandoned (sessionId : String) (ms : List Movement) (σ : Settling) : Bool :=
  σ.abandonedOnRecord sessionId ms || σ.settlers.any fun t => t.phase.abandons

def Refuses (σ : Settling) (key : String) : Prop :=
  (∃ t ∈ σ.settlers, key ∈ t.phase.refused) ∨ ∃ report ∈ σ.reports, key ∈ report.refused

/-- A report was returned, or every chunk or every movement is on the ledger. -/
def Done (sessionId : String) (ms : List Movement) (σ : Settling) : Prop :=
  σ.reports ≠ [] ∨
    (σ.width ≠ none ∧ ∀ i < (σ.chunks ms).length, σ.world.posted (chunkTxnId sessionId i) = true) ∨
      ∀ m ∈ ms, σ.world.posted (movementTxnId sessionId m.seq) = true

end Settling

section Conditions

variable (env : Env) (sessionId : String) (ms : List Movement) (σ : Settling)

/-- A chunk is posted as it was cut before; it is added only while nobody gave up, and a chunk
already on the ledger is not taken for a failure. -/
structure ChunkMeets (own : List Chunk) (chunk : Chunk) (index : Nat) (fate : Fate) : Prop where
  sameCut : σ.width = none ∨ own = σ.chunks ms
  upheld : fate = .proceed → σ.world.posted (chunkTxnId sessionId index) = false →
    (∃ legs, chunkLegs 1 chunk = .ok legs ∧ Acceptable σ.world.balanceOf legs) →
      σ.abandoned sessionId ms = false
  fresh : fate = .storeError → σ.world.posted (chunkTxnId sessionId index) = false

/-- A movement refused before is not added, and one already on the ledger is not taken for
a failure. -/
structure MovementMeets (m : Movement) (fate : Fate) : Prop where
  unrefused : fate = .proceed → σ.world.posted (movementTxnId sessionId m.seq) = false →
    Acceptable σ.world.balanceOf m.legs → ¬ σ.Refuses m.idempotencyKey
  fresh : fate = .storeError → σ.world.posted (movementTxnId sessionId m.seq) = false

/-- A replay is forced only once every chunk is undone, and a pruned journal is settled only
where the netted attempt went through. -/
structure CallMeets (t : Settler) : Prop where
  undone : t.session.replayForced = true → ∀ i < (σ.chunks ms).length,
    σ.world.posted (chunkTxnId sessionId i) = true → σ.world.posted (compTxnId sessionId i) = true
  unpruned : journal env sessionId σ.world = .ok [] → σ.abandoned sessionId ms = false

/-- The condition on a step. Other postings carry other ids. -/
def Settling.Meets : Event → Prop
  | .call index => ∀ t, σ.settlers[index]? = some t → t.phase = .idle → CallMeets env sessionId ms σ t
  | .advance index fate => ∀ t, σ.settlers[index]? = some t →
    match t.phase with
    | .netting ((chunk, i) :: _) _ => ChunkMeets sessionId ms σ t.chunks chunk i fate
    | .replaying (m :: _) _ _ => MovementMeets sessionId σ m fate
    | _ => True
  | .ask index => ∀ t, σ.settlers[index]? = some t → wasSettled t.session = true → σ.Done sessionId ms
  | .prune index => ∀ t, σ.settlers[index]? = some t → wasSettled t.session = true → σ.Done sessionId ms
  | .post posting => Foreign sessionId ms posting.txnId
  | _ => True

end Conditions

/-! ## What holds along the way -/

section Invariant

variable (sessionId : String) (ms : List Movement) (chunks : List Chunk) (p : Nat) (w : World)

/-- Every posted chunk is compensated. -/
def Undone : Prop := ∀ i < p, w.posted (compTxnId sessionId i) = true

/-- The keys name the movements among `done` that are not on the ledger. -/
structure Refusals (done : List Movement) (keys : List String) : Prop where
  iff : ∀ m ∈ done, m.idempotencyKey ∈ keys ↔ w.posted (movementTxnId sessionId m.seq) = false
  named : ∀ key ∈ keys, ∃ m ∈ done, m.idempotencyKey = key

structure SettleReport.Sound (report : SettleReport) : Prop where
  netted : report.mode = .netted → Whole ms chunks p ∧ report.rejected = []
  replayed : report.mode = .replayed →
    ¬ Whole ms chunks p ∧ Undone sessionId p w ∧ Refusals sessionId w ms report.refused

/-- What a settler in this phase, with its own cut of the session, has done and relies on. -/
def Phase.Sound (own : List Chunk) : Phase → Prop
  | .idle => True
  | .netting rest posted => ∃ k ≤ own.length, posted = List.range k ∧ rest = own.zipIdx.drop k ∧
      (0 < k → own = chunks ∧ k ≤ p)
  | .compensating todo => ¬ Whole ms chunks p ∧ ∃ j ≤ p, todo = (List.range j).reverse ∧
      (0 < j → own = chunks) ∧ ∀ i < p, j ≤ i → w.posted (compTxnId sessionId i) = true
  | .replaying rest _ rejected => ¬ Whole ms chunks p ∧ Undone sessionId p w ∧
      ∃ done, ms = done ++ rest ∧ Refusals sessionId w done (rejected.map Prod.fst)
  | .claiming report => report.Sound sessionId ms chunks p w
  | .releasing _ report => report.Sound sessionId ms chunks p w

structure Settler.Sound (t : Settler) : Prop where
  ofSession : t.session.sessionId = sessionId
  flushed : t.session.pending = []
  forced : t.session.replayForced = true → (∃ i, w.posted (compTxnId sessionId i) = true) ∨
    ∃ m ∈ ms, w.posted (movementTxnId sessionId m.seq) = true
  movements : t.phase ≠ .idle → t.movements = ms
  phase : t.phase.Sound sessionId ms chunks p w t.chunks

/-- The journal holds the session's movements, or was pruned where that is safe. -/
def Kept (env : Env) (σ : Settling) (p : Nat) : Prop :=
  journal env sessionId σ.world = .ok ms ∨
    (journal env sessionId σ.world = .ok [] ∧
      (Whole ms (σ.chunks ms) p ∨ σ.abandonedOnRecord sessionId ms = true))

structure Consistent (env : Env) (start : World) (σ : Settling) (p : Nat) : Prop where
  evidence : Evidence sessionId ms (fun a => start.balanceOf a + σ.others a) (σ.chunks ms) p σ.world
  width : σ.width = none ↔ p = 0
  kept : Kept sessionId ms env σ p
  settlers : ∀ t ∈ σ.settlers, t.Sound sessionId ms (σ.chunks ms) p σ.world
  reports : ∀ report ∈ σ.reports, report.Sound sessionId ms (σ.chunks ms) p σ.world

/-- The ledger of `w'` keeps what stands on that of `σ`, and adds no refused movement. -/
structure Undisturbed (σ : Settling) (w' : World) : Prop where
  posted : ∀ txnId, σ.world.posted txnId = true → w'.posted txnId = true
  refused : ∀ m ∈ ms, σ.Refuses m.idempotencyKey → w'.posted (movementTxnId sessionId m.seq) =
    σ.world.posted (movementTxnId sessionId m.seq)

end Invariant

section Preservation

variable {env : Env} {sessionId : String} {ms : List Movement} {chunks chunks' own : List Chunk} {p : Nat}
  {w w' start : World} {σ σ' : Settling}

theorem Undone.keeps (h : Undone sessionId p w)
    (hposted : ∀ txnId, w.posted txnId = true → w'.posted txnId = true) : Undone sessionId p w' :=
  fun i hi => hposted _ (h i hi)

theorem Refusals.keeps {done : List Movement} {keys : List String} (h : Refusals sessionId w done keys)
    (hposted : ∀ txnId, w.posted txnId = true → w'.posted txnId = true)
    (hrefused : ∀ m ∈ done, m.idempotencyKey ∈ keys → w'.posted (movementTxnId sessionId m.seq) =
      w.posted (movementTxnId sessionId m.seq)) : Refusals sessionId w' done keys := by
  refine ⟨?_, h.named⟩
  intro m hm
  constructor
  · intro hk
    rw [hrefused m hm hk]
    exact (h.iff m hm).mp hk
  · intro hun
    apply (h.iff m hm).mpr
    by_contra hp
    rw [hposted _ (by simpa using hp)] at hun
    cases hun

theorem SettleReport.Sound.keeps {report : SettleReport} (h : report.Sound sessionId ms chunks p w)
    (hposted : ∀ txnId, w.posted txnId = true → w'.posted txnId = true)
    (hrefused : ∀ m ∈ ms, m.idempotencyKey ∈ report.refused →
      w'.posted (movementTxnId sessionId m.seq) = w.posted (movementTxnId sessionId m.seq)) :
    report.Sound sessionId ms chunks p w' := by
  refine ⟨h.netted, ?_⟩
  intro hmode
  obtain ⟨hwhole, hundone, hkeys⟩ := h.replayed hmode
  exact ⟨hwhole, hundone.keeps hposted, hkeys.keeps hposted hrefused⟩

theorem Phase.Sound.keeps {phase : Phase} (h : phase.Sound sessionId ms chunks p w own)
    (hposted : ∀ txnId, w.posted txnId = true → w'.posted txnId = true)
    (hrefused : ∀ m ∈ ms, m.idempotencyKey ∈ phase.refused →
      w'.posted (movementTxnId sessionId m.seq) = w.posted (movementTxnId sessionId m.seq)) :
    phase.Sound sessionId ms chunks p w' own := by
  cases phase with
  | idle => trivial
  | netting rest posted => exact h
  | compensating todo =>
    obtain ⟨hwhole, j, hj, htodo, hown, hcomp⟩ := h
    exact ⟨hwhole, j, hj, htodo, hown, fun i hi hji => hposted _ (hcomp i hi hji)⟩
  | replaying rest postings rejected =>
    obtain ⟨hwhole, hundone, done, hms, hkeys⟩ := h
    refine ⟨hwhole, hundone.keeps hposted, done, hms, hkeys.keeps hposted ?_⟩
    intro m hm
    apply hrefused m
    rw [hms]
    exact List.mem_append_left _ hm
  | claiming report => exact SettleReport.Sound.keeps h hposted hrefused
  | releasing rest report => exact SettleReport.Sound.keeps h hposted hrefused

/-- A chunk more concerns nobody who still nets. -/
theorem Phase.Sound.grows {phase : Phase} (h : phase.Sound sessionId ms chunks p w own)
    (habandons : phase.abandons = false) (hwhole : ¬ Whole ms chunks p) (hcut : 0 < p → chunks' = chunks) :
    phase.Sound sessionId ms chunks' (p + 1) w' own := by
  have hreport : ∀ {report : SettleReport}, report.Sound sessionId ms chunks p w →
      decide (report.mode = .replayed) = false → report.Sound sessionId ms chunks' (p + 1) w' := by
    intro report hr hmode
    cases hm : report.mode with
    | netted => exact absurd (hr.netted hm).1 hwhole
    | replayed => simp [hm] at hmode
  cases phase with
  | idle => trivial
  | netting rest posted =>
    obtain ⟨k, hk, hposted, hrest, hown⟩ := h
    refine ⟨k, hk, hposted, hrest, ?_⟩
    intro hpos
    obtain ⟨hc, hkp⟩ := hown hpos
    exact ⟨hc.trans (hcut (by omega)).symm, by omega⟩
  | compensating todo => cases habandons
  | replaying rest postings rejected => cases habandons
  | claiming report => exact hreport h habandons
  | releasing rest report => exact hreport h habandons

theorem Settler.Sound.keeps {t : Settler} (h : t.Sound sessionId ms chunks p w)
    (hposted : ∀ txnId, w.posted txnId = true → w'.posted txnId = true)
    (hrefused : ∀ m ∈ ms, m.idempotencyKey ∈ t.phase.refused →
      w'.posted (movementTxnId sessionId m.seq) = w.posted (movementTxnId sessionId m.seq)) :
    t.Sound sessionId ms chunks p w' := by
  refine ⟨h.ofSession, h.flushed, ?_, h.movements, h.phase.keeps hposted hrefused⟩
  intro hf
  apply (h.forced hf).imp
  · exact fun ⟨i, hi⟩ => ⟨i, hposted _ hi⟩
  · exact fun ⟨m, hm, hp⟩ => ⟨m, hm, hposted _ hp⟩

theorem Undisturbed.of_posted (h : ∀ txnId, w'.posted txnId = σ.world.posted txnId) :
    Undisturbed sessionId ms σ w' :=
  ⟨fun txnId hp => (h txnId).trans hp, fun _ _ _ => h _⟩

theorem Undisturbed.of_landed {posting : Posting} (h : σ.world.Landed posting w')
    (hid : ∀ m ∈ ms, σ.Refuses m.idempotencyKey → posting.txnId ≠ movementTxnId sessionId m.seq) :
    Undisturbed sessionId ms σ w' := by
  constructor
  · intro txnId hp
    rw [h.posted, hp, Bool.true_or]
  · intro m hm hr
    rw [h.posted, decide_eq_false (hid m hm hr), Bool.or_false]

theorem Settling.chunks_of_width (h : σ'.width = σ.width) : σ'.chunks ms = σ.chunks ms := by
  unfold Settling.chunks
  rw [h]

theorem Settling.flatten_chunks (h : σ.width ≠ none) : (σ.chunks ms).flatten = positionsOf ms := by
  unfold Settling.chunks
  cases hw : σ.width with
  | none => exact absurd hw h
  | some width => exact flatten_chunksOf width.2 (positionsOf ms)

theorem Settling.abandonedOnRecord_mono (hwidth : σ'.width = σ.width)
    (hposted : ∀ txnId, σ.world.posted txnId = true → σ'.world.posted txnId = true)
    (hreports : σ.reports ⊆ σ'.reports) (h : σ.abandonedOnRecord sessionId ms = true) :
    σ'.abandonedOnRecord sessionId ms = true := by
  simp only [Settling.abandonedOnRecord, Bool.or_eq_true, List.any_eq_true,
    Settling.chunks_of_width hwidth] at h ⊢
  apply h.imp
  · apply Or.imp
    · exact fun ⟨i, hi, hp⟩ => ⟨i, hi, hposted _ hp⟩
    · exact fun ⟨m, hm, hp⟩ => ⟨m, hm, hposted _ hp⟩
  · exact fun ⟨report, hr, hmode⟩ => ⟨report, hreports hr, hmode⟩

theorem journal_congr (h : w'.movements = w.movements) :
    journal env sessionId w' = journal env sessionId w := by
  unfold journal
  rw [h]

theorem Consistent.keeps (h : Consistent sessionId ms env start σ p) (hwidth : σ'.width = σ.width)
    (hev : Evidence sessionId ms (fun a => start.balanceOf a + σ'.others a) (σ.chunks ms) p σ'.world)
    (hun : Undisturbed sessionId ms σ σ'.world) (hkept : Kept sessionId ms env σ' p)
    (hsettlers : ∀ t ∈ σ'.settlers, t ∈ σ.settlers ∨ t.Sound sessionId ms (σ.chunks ms) p σ'.world)
    (hreports : ∀ report ∈ σ'.reports,
      report ∈ σ.reports ∨ report.Sound sessionId ms (σ.chunks ms) p σ'.world) :
    Consistent sessionId ms env start σ' p := by
  have hchunks : σ'.chunks ms = σ.chunks ms := Settling.chunks_of_width hwidth
  refine ⟨?_, ?_, hkept, ?_, ?_⟩
  · rw [hchunks]
    exact hev
  · rw [hwidth]
    exact h.width
  · intro t ht
    rw [hchunks]
    rcases hsettlers t ht with ht | ht
    · exact (h.settlers t ht).keeps hun.posted fun m hm hk => hun.refused m hm (Or.inl ⟨t, ht, hk⟩)
    · exact ht
  · intro report hr
    rw [hchunks]
    rcases hreports report hr with hr | hr
    · exact (h.reports report hr).keeps hun.posted fun m hm hk =>
        hun.refused m hm (Or.inr ⟨report, hr, hk⟩)
    · exact hr

theorem Consistent.kept_of (h : Consistent sessionId ms env start σ p) (hwidth : σ'.width = σ.width)
    (hposted : ∀ txnId, σ.world.posted txnId = true → σ'.world.posted txnId = true)
    (hmv : σ'.world.movements = σ.world.movements) (hreports : σ.reports ⊆ σ'.reports) :
    Kept sessionId ms env σ' p := by
  unfold Kept
  rw [journal_congr hmv, Settling.chunks_of_width hwidth]
  apply h.kept.imp_right
  apply And.imp_right
  exact Or.imp_right (Settling.abandonedOnRecord_mono hwidth hposted hreports)

end Preservation

end EconomyLab
