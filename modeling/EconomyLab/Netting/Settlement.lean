import EconomyLab.Netting.Progress

/-!
# Runs of settlers

A journaled session is settled by its own session object and by any number of recovered
ones, each going on, stopping and starting again at any time, while other operations post
and reserve. Runs whose steps meet the conditions stay consistent.
-/

namespace EconomyLab

open Foundation

theorem rebuild_spec (movements : List Movement) (s : InstanceSession) (w : World) :
    (rebuild movements s w).1 = { s with
      accepted := s.accepted ++ movements
      outcomes := (rebuild movements s w).1.outcomes
      head := (rebuild movements s w).1.head
      seq := (rebuild movements s w).1.seq } ∧
    w.Reserves (rebuild movements s w).2 ∧ (s.scope = .shared → (rebuild movements s w).2 = w) := by
  induction movements generalizing s w with
  | nil => exact ⟨by simp [rebuild], World.Reserves.refl w, fun _ => rfl⟩
  | cons m movements ih =>
    obtain ⟨reserved, hrebuild, hreserved, hsame⟩ : ∃ reserved, rebuild (m :: movements) s w =
      rebuild movements
        { s with
          accepted := s.accepted ++ [m]
          outcomes := s.outcomes.set m.idempotencyKey (.accepted m.seq)
          head := m.hash
          seq := m.seq + 1 } reserved ∧ w.Reserves reserved ∧ (s.scope = .shared → reserved = w) := by
      refine ⟨_, rfl, ?_, ?_⟩
      · cases s.scope with
        | shared => exact World.Reserves.refl w
        | process =>
          have hfold := (foldl_addReservation (walletDeltas [m]) 1 w).1
          simp only [one_mul] at hfold
          exact hfold
      · intro hscope
        rw [hscope]
    obtain ⟨hs, hres, hshared⟩ := ih
      { s with
        accepted := s.accepted ++ [m]
        outcomes := s.outcomes.set m.idempotencyKey (.accepted m.seq)
        head := m.hash
        seq := m.seq + 1 } reserved
    rw [hrebuild]
    refine ⟨?_, World.Reserves.trans hreserved hres, ?_⟩
    · rw [List.append_cons s.accepted m movements]
      exact hs
    · exact fun hscope => (hshared hscope).trans (hsame hscope)

theorem probeSettlement_spec (s : InstanceSession) (w : World) :
    probeSettlement s w = { s with
      settled := (probeSettlement s w).settled
      replayForced := (probeSettlement s w).replayForced } ∧
    ((probeSettlement s w).replayForced = true → s.replayForced = true ∨
      (∃ i, w.posted (compTxnId s.sessionId i) = true) ∨
        ∃ m ∈ s.accepted, w.posted (movementTxnId s.sessionId m.seq) = true) := by
  unfold probeSettlement
  split
  · rename_i hcomp
    obtain ⟨i, -, hi⟩ := List.any_eq_true.mp hcomp
    exact ⟨rfl, fun _ => Or.inr (Or.inl ⟨i, hi⟩)⟩
  · split
    · rename_i hmv
      exact ⟨rfl, fun _ => Or.inr (Or.inr (List.any_eq_true.mp hmv))⟩
    · split
      · exact ⟨rfl, fun hf => Or.inl hf⟩
      · exact ⟨rfl, fun hf => Or.inl hf⟩

/-- A recovered session holds the journal, and is forced to replay only on evidence. -/
theorem recoverSession_spec (env : Env) (sessionId : String) (maxBatch : Nat)
    (width : {n : Nat // 0 < n}) (scope : Scope) {w : World} {movements : List Movement}
    (hj : journal env sessionId w = .ok movements) :
    ∃ s w', recoverSession env sessionId maxBatch width scope w = (.ok s, w') ∧
      w.Reserves w' ∧ (scope = .shared → w' = w) ∧ s.sessionId = sessionId ∧ s.pending = [] ∧
      s.accepted = movements ∧ s.released = false ∧ s.scope = scope ∧
      (s.replayForced = true → (∃ i, w.posted (compTxnId sessionId i) = true) ∨
        ∃ m ∈ movements, w.posted (movementTxnId sessionId m.seq) = true) := by
  obtain ⟨hs, hres, hshared⟩ := rebuild_spec movements
    (openInstanceSession sessionId maxBatch width scope) w
  rcases hr : rebuild movements (openInstanceSession sessionId maxBatch width scope) w with ⟨s, w'⟩
  rw [hr] at hs hres hshared
  simp only at hs hres hshared
  obtain ⟨hprobe, hforced⟩ := probeSettlement_spec s w'
  have hid : s.sessionId = sessionId := by rw [hs]; rfl
  have hacc : s.accepted = movements := by rw [hs]; rfl
  have hunforced : s.replayForced = false := by rw [hs]; rfl
  refine ⟨probeSettlement s w', w', ?_, hres, hshared, ?_, ?_, ?_, ?_, ?_, ?_⟩
  · simp only [recoverSession, hj, hr]
  · rw [hprobe]
    exact hid
  · rw [hprobe, hs]
    rfl
  · rw [hprobe]
    exact hacc
  · rw [hprobe, hs]
    rfl
  · rw [hprobe, hs]
    rfl
  · intro hf
    have hbook : w'.ledger.book = w.ledger.book := congrArg MemoryLedger.book hres.ledger
    have h := hforced hf
    rw [hunforced, hid, hacc] at h
    simp only [World.posted_book hbook, Bool.false_eq_true, false_or] at h
    exact h

section System

variable {env : Env} {sessionId : String} {ms : List Movement} {p : Nat} {start : World} {σ : Settling}

theorem Consistent.whole_of_nil (h : Consistent sessionId [] env start σ p) :
    Whole [] (σ.chunks []) p := by
  have hnil : σ.chunks [] = [] := by
    unfold Settling.chunks
    split <;> rfl
  have hp := h.evidence.within
  rw [hnil] at hp ⊢
  exact ⟨Nat.le_zero.mp hp, rfl⟩

theorem Consistent.recovered (h : Consistent sessionId ms env start σ p) (maxBatch : Nat)
    (width : {n : Nat // 0 < n}) (scope : Scope) :
    Consistent sessionId ms env start (σ.step env sessionId (.recover maxBatch width scope)) p := by
  obtain ⟨movements, hj, hsub⟩ : ∃ movements, journal env sessionId σ.world = .ok movements ∧
      ∀ m ∈ movements, m ∈ ms := by
    rcases h.kept with hj | ⟨hj, -⟩
    · exact ⟨ms, hj, fun _ hm => hm⟩
    · exact ⟨[], hj, by simp⟩
  obtain ⟨s, w', hrec, hres, -, hid, hpend, -, -, -, hforced⟩ :=
    recoverSession_spec env sessionId maxBatch width scope hj
  have hbook : w'.ledger.book = σ.world.ledger.book := congrArg MemoryLedger.book hres.ledger
  have hposted := World.posted_book hbook
  simp only [Settling.step, hrec]
  apply h.keeps
  · rfl
  · exact h.evidence.same (hres.ready h.evidence.ready) hbook
  · exact Undisturbed.of_posted hposted
  · exact h.kept_of rfl (fun txnId hp => (hposted txnId).trans hp) hres.movements (List.Subset.refl _)
  · intro t ht
    rcases List.mem_append.mp ht with ht | ht
    · exact Or.inl ht
    · right
      rw [List.mem_singleton.mp ht]
      refine ⟨hid, hpend, ?_, fun hne => absurd rfl hne, trivial⟩
      intro hf
      simp only [hposted]
      exact (hforced hf).imp_right fun ⟨m, hm, hp⟩ => ⟨m, hsub m hm, hp⟩
  · exact fun report hr => Or.inl hr

/-- A call reads the journal and sets out on one of the two ways. -/
theorem Consistent.called (h : Consistent sessionId ms env start σ p) {t : Settler} {index : Nat}
    (hi : σ.settlers[index]? = some t) (hmeets : CallMeets env sessionId ms σ t) :
    Consistent sessionId ms env start (σ.put sessionId index t (t.call env σ.world)) p := by
  have hs := h.settlers t (mem_settlers hi)
  have hid : t.session.sessionId = sessionId := hs.ofSession
  have hflush : flush t.session σ.world = (.ok (), t.session, σ.world) := by
    unfold flush
    rw [if_pos hs.flushed]
  have hempty : journal env sessionId σ.world = .ok [] → Whole ms (σ.chunks ms) p := by
    intro hj
    rcases h.kept with hms | ⟨-, hw | hrec⟩
    · rw [hj, Except.ok.injEq] at hms
      subst hms
      exact h.whole_of_nil
    · exact hw
    · have hab := hmeets.unpruned hj
      rw [Settling.abandoned, hrec, Bool.true_or] at hab
      cases hab
  have hbegin : ∀ {movements : List Movement}, journal env sessionId σ.world = .ok movements →
      movements ≠ [] → movements = ms := by
    intro movements hj hne
    rcases h.kept with hms | ⟨hnil, -⟩
    · rw [hj, Except.ok.injEq] at hms
      exact hms
    · rw [hj, Except.ok.injEq] at hnil
      exact absurd hnil hne
  obtain ⟨movements, hj⟩ : ∃ movements, journal env sessionId σ.world = .ok movements := by
    rcases h.kept with hj | ⟨hj, -⟩
    · exact ⟨_, hj⟩
    · exact ⟨_, hj⟩
  have hj' : journal env t.session.sessionId σ.world = .ok movements := hid.symm ▸ hj
  unfold Settler.call
  simp only [hflush, hj']
  by_cases hne : movements = []
  · rw [if_pos hne]
    subst hne
    have hw := hempty hj
    apply h.put_same h.evidence.ready rfl rfl hs
    intro r hr
    rw [← Option.mem_some.mp hr]
    exact ⟨fun _ => ⟨hw, rfl⟩, fun hmode => by cases hmode⟩
  · rw [if_neg hne]
    obtain rfl := hbegin hj hne
    cases hf : t.session.replayForced with
    | true =>
      rw [if_pos rfl]
      have hwhole : ¬ Whole movements (σ.chunks movements) p := by
        rcases hs.forced hf with ⟨i, hi⟩ | ⟨m, hm, hp⟩
        · exact (h.evidence.comp i hi).2
        · exact (h.evidence.movement m hm hp).2
      have hundone : Undone sessionId p σ.world := by
        intro i hip
        apply hmeets.undone hf i (lt_of_lt_of_le hip h.evidence.within)
        rw [h.evidence.posted]
        exact decide_eq_true hip
      apply h.put_same h.evidence.ready rfl rfl _ (by simp)
      exact ⟨hs.ofSession, hs.flushed, fun _ => hs.forced hf, fun _ => rfl, hwhole, hundone, [], rfl,
        ⟨by simp, by simp⟩⟩
    | false =>
      rw [if_neg Bool.false_ne_true]
      apply h.put_same h.evidence.ready rfl rfl _ (by simp)
      exact ⟨hs.ofSession, hs.flushed, hs.forced, fun _ => rfl, 0, Nat.zero_le _, rfl, rfl,
        fun hpos => absurd hpos (lt_irrefl 0)⟩

theorem Consistent.done_cases (h : Consistent sessionId ms env start σ p)
    (hdone : σ.Done sessionId ms) :
    Whole ms (σ.chunks ms) p ∨ (∃ report ∈ σ.reports, report.mode = .replayed) ∨
      (ms ≠ [] ∧ ∀ m ∈ ms, σ.world.posted (movementTxnId sessionId m.seq) = true) := by
  rcases hdone with hr | ⟨hwidth, hall⟩ | hall
  · obtain ⟨report, rest, hreports⟩ := List.exists_cons_of_ne_nil hr
    have hmem : report ∈ σ.reports := by
      rw [hreports]
      exact List.mem_cons_self
    cases hmode : report.mode with
    | netted => exact Or.inl ((h.reports report hmem).netted hmode).1
    | replayed => exact Or.inr (Or.inl ⟨report, hmem, hmode⟩)
  · left
    refine ⟨le_antisymm h.evidence.within ?_, Settling.flatten_chunks hwidth⟩
    by_contra hlt
    have hp := hall p (by omega)
    rw [h.evidence.posted, decide_eq_true_eq] at hp
    omega
  · by_cases hms : ms = []
    · subst hms
      exact Or.inl h.whole_of_nil
    · exact Or.inr (Or.inr ⟨hms, hall⟩)

theorem journal_pruneSession (w : World) :
    journal env sessionId (Settling.pruneSession sessionId w) = .ok [] := by
  have hnil : bySession sessionId (Settling.pruneSession sessionId w).movements = [] := by
    have hfilter : (w.movements.filter (·.sessionId ≠ sessionId)).filter (·.sessionId = sessionId) =
        [] := by
      simp [List.filter_filter]
    simp only [bySession, Settling.pruneSession, hfilter, List.insertionSort_nil]
  simp only [journal, hnil]
  rfl

theorem Consistent.pruned (h : Consistent sessionId ms env start σ p) (hdone : σ.Done sessionId ms) :
    Consistent sessionId ms env start { σ with world := Settling.pruneSession sessionId σ.world } p := by
  have hready : (Settling.pruneSession sessionId σ.world).Ready := by
    obtain ⟨c1, c2, c3, c4, c5, c6, c7, c8, c9, c10⟩ := h.evidence.ready.closed
    exact ⟨⟨c1, c2, c3, c4, c5, c6, c7, c8, c9, c10⟩, h.evidence.ready.honest⟩
  have hkept : Whole ms (σ.chunks ms) p ∨ σ.abandonedOnRecord sessionId ms = true := by
    rcases h.done_cases hdone with hw | ⟨report, hr, hmode⟩ | ⟨hne, hall⟩
    · exact Or.inl hw
    · right
      simp only [Settling.abandonedOnRecord, Bool.or_eq_true, List.any_eq_true]
      exact Or.inr ⟨report, hr, decide_eq_true hmode⟩
    · right
      obtain ⟨m, rest, rfl⟩ := List.exists_cons_of_ne_nil hne
      simp only [Settling.abandonedOnRecord, Bool.or_eq_true, List.any_eq_true]
      exact Or.inl (Or.inr ⟨m, List.mem_cons_self, hall m List.mem_cons_self⟩)
  apply h.keeps
  · rfl
  · exact h.evidence.same hready rfl
  · exact Undisturbed.of_posted fun _ => rfl
  · exact Or.inr ⟨journal_pruneSession σ.world, hkept⟩
  · exact fun t ht => Or.inl ht
  · exact fun report hr => Or.inl hr

theorem Consistent.others (h : Consistent sessionId ms env start σ p) {posting : Posting}
    (hforeign : Foreign sessionId ms posting.txnId) :
    Consistent sessionId ms env start (σ.step env sessionId (.post posting)) p := by
  have hcases := transaction_postEntry env posting h.evidence.ready
  simp only [Settling.step]
  generalize (transaction (Txn.postEntry env posting) σ.world).2 = w' at hcases ⊢
  have hafter : w'.Ready ∧ w'.movements = σ.world.movements ∧
      (∀ txnId, posting.txnId ≠ txnId → w'.posted txnId = σ.world.posted txnId) ∧
      ∀ txnId, σ.world.posted txnId = true → w'.posted txnId = true := by
    rcases hcases with hland | ⟨hsame, hready⟩
    · have hid : (dropZeroLegs posting).txnId = posting.txnId := rfl
      refine ⟨hland.ready, hland.movements, ?_, ?_⟩
      · intro txnId hne
        rw [hland.posted, hid, decide_eq_false hne, Bool.or_false]
      · intro txnId hp
        rw [hland.posted, hp, Bool.true_or]
    · exact ⟨hready, hsame.movements, fun txnId _ => hsame.posted txnId,
        fun txnId hp => (hsame.posted txnId).trans hp⟩
  obtain ⟨hready, hmv, hposted, hmono⟩ := hafter
  apply h.keeps
  · rfl
  · apply h.evidence.other hready hforeign hposted
    intro a
    simp only [Settling.moved]
    omega
  · exact ⟨hmono, fun m hm _ => hposted _ (hforeign.movement m hm)⟩
  · exact h.kept_of rfl hmono hmv (List.Subset.refl _)
  · exact fun t ht => Or.inl ht
  · exact fun report hr => Or.inl hr

theorem Consistent.advanced (h : Consistent sessionId ms env start σ p) {t : Settler} {index : Nat}
    (hi : σ.settlers[index]? = some t) (hchecked : ∀ m ∈ ms, requireMovementLegs m.legs = .ok ())
    (hseqs : (ms.map Movement.seq).Nodup) (hkeys : (ms.map Movement.idempotencyKey).Nodup) {fate : Fate}
    (hmeets : σ.Meets env sessionId ms (.advance index fate)) :
    ∃ q, Consistent sessionId ms env start (σ.put sessionId index t (t.advance env fate σ.world)) q := by
  have hm := hmeets t hi
  cases hphase : t.phase with
  | idle =>
    refine ⟨p, ?_⟩
    simp only [Settler.advance, hphase]
    exact h.put_same h.evidence.ready rfl rfl (h.settlers t (mem_settlers hi)) (by simp)
  | netting rest posted =>
    cases rest with
    | nil => exact ⟨p, h.netted hi hphase fate⟩
    | cons c rest =>
      simp only [hphase] at hm
      exact h.nets hi hphase hm
  | compensating todo =>
    cases todo with
    | nil => exact ⟨p, h.compensated hi hphase fate⟩
    | cons i todo => exact ⟨p, h.compensates hi hphase fate⟩
  | replaying rest postings rejected =>
    cases rest with
    | nil => exact ⟨p, h.finishes_replay hi hphase fate⟩
    | cons m rest =>
      simp only [hphase] at hm
      exact ⟨p, h.replays hi hchecked hseqs hkeys hphase hm⟩
  | claiming report => exact ⟨p, h.claims hi hphase fate⟩
  | releasing rest report => exact ⟨p, h.releases hi hphase fate⟩

theorem Consistent.step (h : Consistent sessionId ms env start σ p)
    (hchecked : ∀ m ∈ ms, requireMovementLegs m.legs = .ok ()) (hseqs : (ms.map Movement.seq).Nodup)
    (hkeys : (ms.map Movement.idempotencyKey).Nodup) {e : Event} (hmeets : σ.Meets env sessionId ms e) :
    ∃ q, Consistent sessionId ms env start (σ.step env sessionId e) q := by
  cases e with
  | recover maxBatch width scope => exact ⟨p, h.recovered maxBatch width scope⟩
  | call index =>
    refine ⟨p, ?_⟩
    simp only [Settling.step]
    split
    · exact h
    · rename_i t hi
      split
      · rename_i hidle
        exact h.called hi (hmeets t hi hidle)
      · exact h
  | advance index fate =>
    simp only [Settling.step]
    split
    · exact ⟨p, h⟩
    · rename_i t hi
      exact h.advanced hi hchecked hseqs hkeys hmeets
  | crash index =>
    refine ⟨p, h.keeps rfl h.evidence (Undisturbed.of_posted fun _ => rfl) h.kept ?_
      fun report hr => Or.inl hr⟩
    exact fun t ht => Or.inl (List.mem_of_mem_eraseIdx ht)
  | ask index => exact ⟨p, h⟩
  | prune index =>
    refine ⟨p, ?_⟩
    simp only [Settling.step]
    split
    · exact h
    · rename_i t hi
      split
      · rename_i hset
        exact h.pruned (hmeets t hi hset)
      · exact h
  | post posting => exact ⟨p, h.others hmeets⟩
  | reserve account delta =>
    have hres := σ.world.addReservation_reserves account delta
    have hbook := congrArg MemoryLedger.book hres.ledger
    refine ⟨p, h.keeps rfl (h.evidence.same (hres.ready h.evidence.ready) hbook)
      (Undisturbed.of_posted (World.posted_book hbook)) ?_ (fun t ht => Or.inl ht)
      fun report hr => Or.inl hr⟩
    exact h.kept_of rfl (fun txnId hp => (World.posted_book hbook txnId).trans hp) hres.movements
      (List.Subset.refl _)

end System

end EconomyLab
