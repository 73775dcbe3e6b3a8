import EconomyLab.Netting.Agreement

/-!
# One step of a settler

What each atomic step of a running settlement does to the state of affairs, phase by
phase: it adds the next chunk, undoes one, replays a movement, or finds nothing to do.
-/

namespace EconomyLab

open Foundation

theorem drop_zipIdx_cons {α : Type} {xs : List α} {k i : Nat} {x : α} {rest : List (α × Nat)}
    (h : xs.zipIdx.drop k = (x, i) :: rest) :
    k < xs.length ∧ i = k ∧ xs[k]? = some x ∧ rest = xs.zipIdx.drop (k + 1) := by
  have hhead : (xs.zipIdx.drop k)[0]? = some (x, i) := by rw [h, List.getElem?_cons_zero]
  rw [List.getElem?_drop, Nat.add_zero, List.getElem?_zipIdx] at hhead
  obtain ⟨y, hy, he⟩ := Option.map_eq_some_iff.mp hhead
  rw [Nat.zero_add, Prod.mk.injEq] at he
  obtain ⟨rfl, rfl⟩ := he
  refine ⟨(List.getElem?_eq_some_iff.mp hy).1, rfl, hy, ?_⟩
  rw [← List.tail_drop, h, List.tail_cons]

theorem range_reverse_cons {j i : Nat} {todo : List Nat} (h : (List.range j).reverse = i :: todo) :
    j = i + 1 ∧ todo = (List.range i).reverse := by
  cases j with
  | zero => cases h
  | succ j =>
    rw [List.range_succ, List.reverse_append, List.reverse_singleton, List.singleton_append,
      List.cons.injEq] at h
    exact ⟨congrArg (· + 1) h.1, h.1 ▸ h.2.symm⟩

section Steps

variable {env : Env} {sessionId : String} {ms : List Movement} {chunks : List Chunk} {p : Nat}
  {w w' start : World} {σ : Settling} {t : Settler} {index : Nat}

theorem Settler.Sound.at_ (h : t.Sound sessionId ms chunks p w) (hne : t.phase ≠ .idle)
    (hposted : ∀ txnId, w.posted txnId = true → w'.posted txnId = true) {phase : Phase}
    (hphase : phase.Sound sessionId ms chunks p w' t.chunks) :
    (t.at_ phase).Sound sessionId ms chunks p w' := by
  refine ⟨h.ofSession, h.flushed, ?_, fun _ => h.movements hne, hphase⟩
  intro hf
  apply (h.forced hf).imp
  · exact fun ⟨i, hi⟩ => ⟨i, hposted _ hi⟩
  · exact fun ⟨m, hm, hp⟩ => ⟨m, hm, hposted _ hp⟩

theorem Settler.Sound.finish (h : t.Sound sessionId ms chunks p w) :
    t.finish.Sound sessionId ms chunks p w :=
  ⟨h.ofSession, h.flushed, h.forced, fun hne => absurd rfl hne, trivial⟩

variable {chunk : Chunk} {report : SettleReport} {i : Nat} {rest : List (Chunk × Nat)}
  {posted : List Nat}

theorem Settler.Sound.release (h : t.Sound sessionId ms chunks p w) (hne : t.phase ≠ .idle)
    (hr : report.Sound sessionId ms chunks p w) :
    (t.release report).1.Sound sessionId ms chunks p w ∧
      ∀ r ∈ (t.release report).2, r.Sound sessionId ms chunks p w := by
  unfold Settler.release
  split
  · exact ⟨h.finish, fun r hm => Option.mem_some.mp hm ▸ hr⟩
  · split
    · exact ⟨h.at_ hne (fun _ hp => hp) hr, by simp⟩
    · exact ⟨h.at_ hne (fun _ hp => hp) hr, by simp⟩

theorem Settler.Sound.released (h : t.Sound sessionId ms chunks p w)
    (hr : report.Sound sessionId ms chunks p w) :
    (t.released report).1.Sound sessionId ms chunks p w ∧
      ∀ r ∈ (t.released report).2, r.Sound sessionId ms chunks p w :=
  ⟨⟨h.ofSession, h.flushed, h.forced, fun hne => absurd rfl hne, trivial⟩,
    fun _ hm => Option.mem_some.mp hm ▸ hr⟩

theorem Consistent.put (h : Consistent sessionId ms env start σ p)
    {after : (Settler × Option SettleReport) × World}
    (hev : Evidence sessionId ms (fun a => start.balanceOf a + σ.others a) (σ.chunks ms) p after.2)
    (hun : Undisturbed sessionId ms σ after.2) (hmv : after.2.movements = σ.world.movements)
    (ht : after.1.1.Sound sessionId ms (σ.chunks ms) p after.2)
    (hreport : ∀ r ∈ after.1.2, r.Sound sessionId ms (σ.chunks ms) p after.2) :
    Consistent sessionId ms env start (σ.put sessionId index t after) p := by
  have hwidth : (σ.put sessionId index t after).width = σ.width := by
    have hfirst : after.2.posted (chunkTxnId sessionId 0) = σ.world.posted (chunkTxnId sessionId 0) := by
      rw [hev.posted, h.evidence.posted]
    simp [Settling.put, hfirst]
  have hkept : Kept sessionId ms env (σ.put sessionId index t after) p :=
    h.kept_of hwidth hun.posted hmv (List.subset_append_left _ _)
  apply h.keeps hwidth hev hun hkept
  · intro u hu
    rcases List.mem_or_eq_of_mem_set hu with hu | rfl
    · exact Or.inl hu
    · exact Or.inr ht
  · intro r hr
    rcases List.mem_append.mp hr with hr | hr
    · exact Or.inl hr
    · exact Or.inr (hreport r (Option.mem_toList.mp hr))

theorem Consistent.put_same (h : Consistent sessionId ms env start σ p)
    {after : (Settler × Option SettleReport) × World} (hready : after.2.Ready)
    (hbook : after.2.ledger.book = σ.world.ledger.book) (hmv : after.2.movements = σ.world.movements)
    (ht : after.1.1.Sound sessionId ms (σ.chunks ms) p σ.world)
    (hreport : ∀ r ∈ after.1.2, r.Sound sessionId ms (σ.chunks ms) p σ.world) :
    Consistent sessionId ms env start (σ.put sessionId index t after) p := by
  have hposted := World.posted_book hbook
  have hmono : ∀ txnId, σ.world.posted txnId = true → after.2.posted txnId = true :=
    fun txnId hp => (hposted txnId).trans hp
  apply h.put (h.evidence.same hready hbook) (Undisturbed.of_posted hposted) hmv
  · exact ht.keeps hmono fun m _ _ => hposted _
  · exact fun r hr => (hreport r hr).keeps hmono fun m _ _ => hposted _

/-! ## Netting -/

/-- Nobody gave up: nothing is undone or replayed. -/
theorem Consistent.upheld (h : Consistent sessionId ms env start σ p)
    (hab : σ.abandoned sessionId ms = false) :
    (∀ i, σ.world.posted (compTxnId sessionId i) = false) ∧
      (∀ m ∈ ms, σ.world.posted (movementTxnId sessionId m.seq) = false) ∧
      (∀ r ∈ σ.reports, r.mode ≠ .replayed) ∧ ∀ u ∈ σ.settlers, u.phase.abandons = false := by
  simp only [Settling.abandoned, Settling.abandonedOnRecord, Bool.or_eq_false_iff, List.any_eq_false,
    decide_eq_true_eq, Bool.not_eq_true] at hab
  obtain ⟨⟨⟨hcomp, hmv⟩, hreports⟩, hsettlers⟩ := hab
  refine ⟨?_, hmv, hreports, hsettlers⟩
  intro i
  by_cases hi : i < p
  · exact hcomp i (List.mem_range.mpr (lt_of_lt_of_le hi h.evidence.within))
  · exact h.evidence.comp_false (le_of_not_gt hi)

structure NextChunk (sessionId : String) (ms : List Movement) (σ : Settling) (p : Nat) (own : List Chunk)
    (chunk : Chunk) (k : Nat) : Prop where
  lt : k < own.length
  chunk : own.getD k [] = chunk
  cut : 0 < p → own = σ.chunks ms
  reached : k ≤ p
  missing : σ.world.posted (chunkTxnId sessionId k) = false → k = p ∧ ¬ Whole ms (σ.chunks ms) p

theorem Consistent.nextChunk (h : Consistent sessionId ms env start σ p) (ht : t ∈ σ.settlers)
    (hphase : t.phase = .netting ((chunk, i) :: rest) posted)
    (hcut : σ.width = none ∨ t.chunks = σ.chunks ms) :
    NextChunk sessionId ms σ p t.chunks chunk i ∧ posted = List.range i ∧
      rest = t.chunks.zipIdx.drop (i + 1) := by
  have hs := h.settlers t ht
  have hsound := hs.phase
  rw [hphase] at hsound
  obtain ⟨k, hk, hposted, hrest, hown⟩ := hsound
  obtain ⟨hlt, rfl, hget, hrest'⟩ := drop_zipIdx_cons hrest.symm
  have hcut' : 0 < p → t.chunks = σ.chunks ms := by
    intro hp
    rcases hcut with hnone | he
    · exact absurd (h.width.mp hnone) (by omega)
    · exact he
  have hreached : i ≤ p := by
    by_cases hi : 0 < i
    · exact (hown hi).2
    · omega
  refine ⟨⟨hlt, by simp [List.getD_eq_getElem?_getD, hget], hcut', hreached, ?_⟩, hposted, hrest'⟩
  intro hun
  rw [h.evidence.posted, decide_eq_false_iff_not] at hun
  have hip : i = p := by omega
  refine ⟨hip, ?_⟩
  rintro ⟨hlen, hflat⟩
  by_cases hp : 0 < p
  · rw [hcut' hp] at hlt
    omega
  · -- nothing is posted, so the cut is empty and with it the session's positions
    have hnil : σ.chunks ms = [] := List.eq_nil_of_length_eq_zero (by omega)
    rw [hnil, List.flatten_nil] at hflat
    have hmovements : t.movements = ms := hs.movements (by simp [hphase])
    have hempty : t.chunks = [] := by
      simp [Settler.chunks, InstanceSession.chunks, hmovements, ← hflat, chunksOf, chunksFrom]
    simp [hempty] at hlt

theorem Consistent.gives_up (h : Consistent sessionId ms env start σ p) (ht : t ∈ σ.settlers)
    (hphase : t.phase = .netting ((chunk, i) :: rest) posted)
    (hcut : σ.width = none ∨ t.chunks = σ.chunks ms)
    (hun : σ.world.posted (chunkTxnId sessionId i) = false) :
    (t.at_ (.compensating posted.reverse)).Sound sessionId ms (σ.chunks ms) p σ.world := by
  obtain ⟨hnext, rfl, -⟩ := h.nextChunk ht hphase hcut
  obtain ⟨rfl, hwhole⟩ := hnext.missing hun
  apply (h.settlers t ht).at_ (by simp [hphase]) (fun _ hp => hp)
  exact ⟨hwhole, i, le_refl i, rfl, hnext.cut, fun j hj hij => absurd hj (not_lt_of_ge hij)⟩

theorem Consistent.skips (h : Consistent sessionId ms env start σ p) (ht : t ∈ σ.settlers)
    (hphase : t.phase = .netting ((chunk, i) :: rest) posted)
    (hcut : σ.width = none ∨ t.chunks = σ.chunks ms)
    (hp : σ.world.posted (chunkTxnId sessionId i) = true) :
    (t.at_ (.netting rest (posted ++ [i]))).Sound sessionId ms (σ.chunks ms) p σ.world := by
  obtain ⟨hnext, rfl, rfl⟩ := h.nextChunk ht hphase hcut
  rw [h.evidence.posted, decide_eq_true_eq] at hp
  apply (h.settlers t ht).at_ (by simp [hphase]) (fun _ hp => hp)
  exact ⟨i + 1, hnext.lt, List.range_succ.symm, rfl, fun _ => ⟨hnext.cut (by omega), hp⟩⟩

theorem Settler.Sound.grows (h : t.Sound sessionId ms chunks p w) (habandons : t.phase.abandons = false)
    (hwhole : ¬ Whole ms chunks p) {chunks' : List Chunk} (hcut : 0 < p → chunks' = chunks)
    (hposted : ∀ txnId, w.posted txnId = true → w'.posted txnId = true) :
    t.Sound sessionId ms chunks' (p + 1) w' := by
  refine ⟨h.ofSession, h.flushed, ?_, h.movements, h.phase.grows habandons hwhole hcut⟩
  intro hf
  apply (h.forced hf).imp
  · exact fun ⟨i, hi⟩ => ⟨i, hposted _ hi⟩
  · exact fun ⟨m, hm, hp⟩ => ⟨m, hm, hposted _ hp⟩

theorem Consistent.adds (h : Consistent sessionId ms env start σ p) (hi : σ.settlers[index]? = some t)
    (hphase : t.phase = .netting ((chunk, i) :: rest) posted)
    (hcut : σ.width = none ∨ t.chunks = σ.chunks ms)
    (hun : σ.world.posted (chunkTxnId sessionId i) = false)
    (hab : σ.abandoned sessionId ms = false) {shape : Shape} {legs : List Leg}
    (hlegs : chunkLegs 1 chunk = .ok legs)
    (hland : σ.world.Landed (chunkPosting sessionId shape i false legs) w') :
    Consistent sessionId ms env start
      (σ.put sessionId index t ((t.at_ (.netting rest (posted ++ [i])), none), w')) (p + 1) := by
  have ht := List.mem_of_getElem? hi
  obtain ⟨hnext, rfl, rfl⟩ := h.nextChunk ht hphase hcut
  obtain ⟨rfl, hwhole⟩ := hnext.missing hun
  obtain ⟨hcomp, hnone, hreports, hsettlers⟩ := h.upheld hab
  have hmovements : t.movements = ms := (h.settlers t ht).movements (by simp [hphase])
  have hposted : ∀ txnId, σ.world.posted txnId = true → w'.posted txnId = true := by
    intro txnId hp
    rw [hland.posted, hp, Bool.true_or]
  have hev : Evidence sessionId ms (fun a => start.balanceOf a + σ.others a) t.chunks i σ.world := by
    by_cases hp : 0 < i
    · rw [hnext.cut hp]
      exact h.evidence
    · obtain rfl : i = 0 := by omega
      exact h.evidence.recut hnone
  have hev' := hev.chunk hnext.lt (hnext.chunk.symm ▸ hlegs) hland hcomp hnone
  have hwidth : (σ.put sessionId index t
      ((t.at_ (.netting (t.chunks.zipIdx.drop (i + 1)) (List.range i ++ [i])), none), w')).width ≠ none ∧
      (σ.put sessionId index t
        ((t.at_ (.netting (t.chunks.zipIdx.drop (i + 1)) (List.range i ++ [i])), none), w')).chunks ms =
          t.chunks := by
    have hfirst' : w'.posted (chunkTxnId sessionId 0) = true := by
      rw [hev'.posted]
      exact decide_eq_true (Nat.succ_pos i)
    by_cases hp : 0 < i
    · have hfirst : σ.world.posted (chunkTxnId sessionId 0) = true := by
        rw [h.evidence.posted]
        exact decide_eq_true hp
      have hsome : σ.width ≠ none := fun hn => by
        have := h.width.mp hn
        omega
      simp only [Settling.put, hfirst', hfirst, Bool.not_true, Bool.and_false, Bool.false_eq_true,
        if_false, Settling.chunks]
      exact ⟨hsome, (hnext.cut hp).symm⟩
    · have hfirst : σ.world.posted (chunkTxnId sessionId 0) = false := by
        rw [h.evidence.posted]
        exact decide_eq_false hp
      simp [Settling.put, hfirst', hfirst, Settling.chunks, Settler.chunks, InstanceSession.chunks,
        hmovements]
  have hcut' : 0 < i → t.chunks = σ.chunks ms := hnext.cut
  refine ⟨?_, ?_, ?_, ?_, ?_⟩
  · rw [hwidth.2]
    exact hev'
  · exact ⟨fun hn => absurd hn hwidth.1, fun hn => absurd hn (Nat.succ_ne_zero i)⟩
  · left
    rcases h.kept with hj | ⟨-, hw | hr⟩
    · exact (journal_congr hland.movements).trans hj
    · exact absurd hw hwhole
    · rw [Settling.abandoned, hr, Bool.true_or] at hab
      cases hab
  · intro u hu
    rw [hwidth.2]
    rcases List.mem_or_eq_of_mem_set hu with hu | rfl
    · exact (h.settlers u hu).grows (hsettlers u hu) hwhole hcut' hposted
    · apply ((h.settlers t ht).grows (hsettlers t ht) hwhole hcut' hposted).at_ (by simp [hphase])
        (fun _ hp => hp)
      exact ⟨i + 1, hnext.lt, List.range_succ.symm, rfl, fun _ => ⟨rfl, le_refl _⟩⟩
  · intro r hr
    rw [hwidth.2]
    have hr : r ∈ σ.reports := by simpa [Settling.put] using hr
    exact ⟨fun hmode => absurd ((h.reports r hr).netted hmode).1 hwhole,
      fun hmode => absurd hmode (hreports r hr)⟩

theorem mem_settlers (hi : σ.settlers[index]? = some t) : t ∈ σ.settlers := List.mem_of_getElem? hi

theorem chunk_nonzero {s : InstanceSession} {movements : List Movement}
    (h : (s.chunks movements).zipIdx.drop i = (chunk, i) :: rest) :
    ∀ q ∈ chunk, q.2 ≠ 0 := by
  have hmem : (chunk, i) ∈ (s.chunks movements).zipIdx := by
    apply List.mem_of_mem_drop
    rw [h]
    exact List.mem_cons_self
  exact chunks_nonzero s movements _ hmem

theorem Consistent.nets (h : Consistent sessionId ms env start σ p) (hi : σ.settlers[index]? = some t)
    (hphase : t.phase = .netting ((chunk, i) :: rest) posted) {fate : Fate}
    (hmeets : ChunkMeets sessionId ms σ t.chunks chunk i fate) :
    ∃ q, Consistent sessionId ms env start (σ.put sessionId index t (t.advance env fate σ.world)) q := by
  have ht := mem_settlers hi
  obtain ⟨hnext, hposted, hrest⟩ := h.nextChunk ht hphase hmeets.sameCut
  have hid : t.session.sessionId = sessionId := (h.settlers t ht).ofSession
  cases fate with
  | storeError =>
    refine ⟨p, ?_⟩
    simp only [Settler.advance, hphase, Settler.attempt]
    apply h.put_same h.evidence.ready rfl rfl
    · exact h.gives_up ht hphase hmeets.sameCut (hmeets.fresh rfl)
    · simp
  | proceed =>
    simp only [Settler.advance, hphase, Settler.attempt, hid]
    have hnz : ∀ q ∈ chunk, q.2 ≠ 0 := by
      have hsound := (h.settlers t ht).phase
      rw [hphase] at hsound
      obtain ⟨k, -, -, hdrop, -⟩ := hsound
      obtain ⟨-, rfl, -⟩ := drop_zipIdx_cons hdrop.symm
      exact chunk_nonzero hdrop.symm
    rcases postChunk_cases env sessionId t.shape hnz i false h.evidence.ready rfl with
      ⟨hp, -, w', hpost, hsame, hready⟩ | ⟨hun, legs, hlegs, hacc, w', hpost, hland⟩ |
        ⟨hun, hno, e, w', hpost, hsame, hready⟩
    · simp only [hpost]
      exact ⟨p, h.put_same hready hsame.ledger hsame.movements
        (h.skips ht hphase hmeets.sameCut hp) (by simp)⟩
    · simp only [hpost]
      have hab := hmeets.upheld rfl hun ⟨legs, hlegs, hacc⟩
      exact ⟨p + 1, h.adds hi hphase hmeets.sameCut hun hab hlegs hland⟩
    · simp only [hpost]
      -- a chunk whose legs cannot be built was never posted
      have hmissing : σ.world.posted (chunkTxnId sessionId i) = false := by
        rcases hun with hun | hun
        · exact hun
        · by_contra hp
          have hlt : i < p := by simpa [h.evidence.posted] using hp
          apply hun
          rw [← hnext.chunk, hnext.cut (by omega)]
          exact h.evidence.built i hlt
      exact ⟨p, h.put_same hready hsame.ledger hsame.movements
        (h.gives_up ht hphase hmeets.sameCut hmissing) (by simp)⟩

/-- Past its last chunk a settler finds all of them posted. -/
theorem Consistent.netted (h : Consistent sessionId ms env start σ p) (hi : σ.settlers[index]? = some t)
    (hphase : t.phase = .netting [] posted) (fate : Fate) :
    Consistent sessionId ms env start (σ.put sessionId index t (t.advance env fate σ.world)) p := by
  have ht := mem_settlers hi
  have hs := h.settlers t ht
  have hne : t.phase ≠ .idle := by simp [hphase]
  have hsound := hs.phase
  rw [hphase] at hsound
  obtain ⟨k, hk, -, hrest, hown⟩ := hsound
  have hlen : t.chunks.length ≤ k := by simpa using (List.drop_eq_nil_iff.mp hrest.symm)
  have hflat : t.chunks.flatten = positionsOf ms := by
    rw [← hs.movements hne]
    exact flatten_chunksOf t.session.chunkWidth_pos _
  have hwhole : Whole ms (σ.chunks ms) p := by
    by_cases hpos : 0 < k
    · obtain ⟨hcut, hkp⟩ := hown hpos
      rw [← hcut]
      refine ⟨?_, hflat⟩
      have hwithin := h.evidence.within
      rw [← hcut] at hwithin
      omega
    · -- there is no chunk at all
      have hempty : positionsOf ms = [] := by
        rw [← hflat, List.eq_nil_of_length_eq_zero (show t.chunks.length = 0 by omega)]
        rfl
      have hnil : σ.chunks ms = [] := by
        unfold Settling.chunks
        split
        · rfl
        · simp [hempty, chunksOf, chunksFrom]
      have hwithin := h.evidence.within
      rw [hnil] at hwithin ⊢
      exact ⟨Nat.le_zero.mp hwithin, hempty.symm⟩
  have hreport : SettleReport.Sound sessionId ms (σ.chunks ms) p σ.world
      ⟨.netted, t.chunks.length, [], t.head, t.movements.length⟩ := by
    refine ⟨fun _ => ⟨hwhole, rfl⟩, ?_⟩
    intro hmode
    cases hmode
  obtain ⟨h1, h2⟩ := hs.release hne hreport
  simp only [Settler.advance, hphase]
  exact h.put_same h.evidence.ready rfl rfl h1 h2

theorem Consistent.compensates (h : Consistent sessionId ms env start σ p)
    (hi : σ.settlers[index]? = some t) {todo : List Nat}
    (hphase : t.phase = .compensating (i :: todo)) (fate : Fate) :
    Consistent sessionId ms env start (σ.put sessionId index t (t.advance env fate σ.world)) p := by
  have ht := mem_settlers hi
  have hs := h.settlers t ht
  have hid : t.session.sessionId = sessionId := hs.ofSession
  have hne : t.phase ≠ .idle := by simp [hphase]
  have hsound := hs.phase
  rw [hphase] at hsound
  obtain ⟨hwhole, j, hj, htodo, hcut, hcomp⟩ := hsound
  obtain ⟨rfl, rfl⟩ := range_reverse_cons htodo.symm
  have hcut := hcut (Nat.succ_pos i)
  have hstop : (t.at_ .idle).Sound sessionId ms (σ.chunks ms) p σ.world :=
    hs.at_ hne (fun _ hp => hp) trivial
  have hgo : ∀ {w' : World}, (∀ txnId, σ.world.posted txnId = true → w'.posted txnId = true) →
      w'.posted (compTxnId sessionId i) = true →
        (t.at_ (.compensating (List.range i).reverse)).Sound sessionId ms (σ.chunks ms) p w' := by
    intro w' hposted hself
    apply hs.at_ hne hposted
    refine ⟨hwhole, i, by omega, rfl, fun _ => hcut, ?_⟩
    intro n hn hin
    rcases Nat.eq_or_lt_of_le hin with rfl | hlt
    · exact hself
    · exact hposted _ (hcomp n hn hlt)
  cases fate with
  | storeError =>
    simp only [Settler.advance, hphase, Settler.attempt]
    exact h.put_same h.evidence.ready rfl rfl hstop (by simp)
  | proceed =>
    simp only [Settler.advance, hphase, Settler.attempt, hid]
    have hnz : ∀ q ∈ t.chunks.getD i [], q.2 ≠ 0 := by
      intro q hq
      have hlt : i < t.chunks.length := by
        rw [hcut]
        exact lt_of_lt_of_le (by omega) h.evidence.within
      apply chunks_nonzero t.session t.movements (t.chunks.getD i [], i) ?_ q hq
      rw [List.mem_zipIdx_iff_getElem?, List.getD_eq_getElem?_getD]
      simp only [Settler.chunks] at hlt ⊢
      rw [List.getElem?_eq_getElem hlt, Option.getD_some]
    rcases postChunk_cases env sessionId t.shape hnz i true h.evidence.ready rfl with
      ⟨hp, -, w', hpost, hsame, hready⟩ | ⟨hun, legs, hlegs, -, w', hpost, hland⟩ |
        ⟨-, -, e, w', hpost, hsame, hready⟩
    · simp only [hpost]
      exact h.put_same hready hsame.ledger hsame.movements (hgo (fun _ hp => hp) hp) (by simp)
    · simp only [hpost]
      rw [hcut] at hlegs
      apply h.put (h.evidence.compensated (by omega) hun hwhole hlegs hland) _ hland.movements
      · apply hgo
        · intro txnId hp
          rw [hland.posted, hp, Bool.true_or]
        · rw [hland.posted]
          simp [chunkPosting]
      · simp
      · apply Undisturbed.of_landed hland
        exact fun m _ _ => compTxnId_ne_movement sessionId i m.seq
    · simp only [hpost]
      exact h.put_same hready hsame.ledger hsame.movements hstop (by simp)

theorem Consistent.compensated (h : Consistent sessionId ms env start σ p)
    (hi : σ.settlers[index]? = some t) (hphase : t.phase = .compensating []) (fate : Fate) :
    Consistent sessionId ms env start (σ.put sessionId index t (t.advance env fate σ.world)) p := by
  have ht := mem_settlers hi
  have hs := h.settlers t ht
  have hsound := hs.phase
  rw [hphase] at hsound
  obtain ⟨hwhole, j, -, htodo, -, hcomp⟩ := hsound
  have hj : j = 0 := by simpa using htodo
  subst hj
  have hmovements : t.movements = ms := hs.movements (by simp [hphase])
  simp only [Settler.advance, hphase]
  apply h.put_same h.evidence.ready rfl rfl
  · refine ⟨hs.ofSession, hs.flushed, hs.forced, fun _ => hmovements, hwhole, ?_, [], ?_, ?_⟩
    · exact fun i hi => hcomp i hi (Nat.zero_le i)
    · exact hmovements.symm
    · exact ⟨by simp, by simp⟩
  · simp

theorem Refusals.snoc {done : List Movement} {keys : List String} (h : Refusals sessionId w done keys)
    {m : Movement} (hnd : ((done ++ [m]).map Movement.idempotencyKey).Nodup) :
    (w.posted (movementTxnId sessionId m.seq) = true → Refusals sessionId w (done ++ [m]) keys) ∧
      (w.posted (movementTxnId sessionId m.seq) = false →
        Refusals sessionId w (done ++ [m]) (keys ++ [m.idempotencyKey])) := by
  rw [List.map_append, List.nodup_append] at hnd
  have hnew : ∀ m' ∈ done, m'.idempotencyKey ≠ m.idempotencyKey := by
    intro m' hm'
    exact hnd.2.2 _ (List.mem_map.mpr ⟨m', hm', rfl⟩)
      _ (List.mem_map.mpr ⟨m, List.mem_singleton_self m, rfl⟩)
  have hkey : m.idempotencyKey ∉ keys := by
    intro hk
    obtain ⟨m', hm', he⟩ := h.named _ hk
    exact hnew m' hm' he
  constructor
  · intro hp
    constructor
    · intro m' hm'
      rcases List.mem_append.mp hm' with hm' | hm'
      · exact h.iff m' hm'
      · rw [List.mem_singleton.mp hm', hp]
        simp [hkey]
    · intro key hk
      obtain ⟨m', hm', he⟩ := h.named key hk
      exact ⟨m', List.mem_append_left _ hm', he⟩
  · intro hp
    constructor
    · intro m' hm'
      rcases List.mem_append.mp hm' with hm' | hm'
      · rw [← h.iff m' hm', List.mem_append, List.mem_singleton]
        exact or_iff_left (hnew m' hm')
      · rw [List.mem_singleton.mp hm', hp]
        simp
    · intro key hk
      rcases List.mem_append.mp hk with hk | hk
      · obtain ⟨m', hm', he⟩ := h.named key hk
        exact ⟨m', List.mem_append_left _ hm', he⟩
      · exact ⟨m, by simp, (List.mem_singleton.mp hk).symm⟩

theorem replayPosting_encodable (sessionId head : String) (m : Movement) :
    Encodable (replayPosting sessionId head m).fields :=
  ⟨_, rfl⟩

theorem Consistent.replays (h : Consistent sessionId ms env start σ p) (hi : σ.settlers[index]? = some t)
    (hchecked : ∀ m ∈ ms, requireMovementLegs m.legs = .ok ()) (hseqs : (ms.map Movement.seq).Nodup)
    (hkeys : (ms.map Movement.idempotencyKey).Nodup) {m : Movement} {rest : List Movement}
    {postings : Nat} {rejected : List (String × Reason)}
    (hphase : t.phase = .replaying (m :: rest) postings rejected) {fate : Fate}
    (hmeets : MovementMeets sessionId σ m fate) :
    Consistent sessionId ms env start (σ.put sessionId index t (t.advance env fate σ.world)) p := by
  have ht := mem_settlers hi
  have hs := h.settlers t ht
  have hid : t.session.sessionId = sessionId := hs.ofSession
  have hne : t.phase ≠ .idle := by simp [hphase]
  have hmovements : t.movements = ms := hs.movements hne
  have hsound := hs.phase
  rw [hphase] at hsound
  obtain ⟨hwhole, hundone, done, hms, hkeysOf⟩ := hsound
  have hm : m ∈ ms := by
    rw [hms]
    exact List.mem_append_right _ List.mem_cons_self
  have hms' : ms = (done ++ [m]) ++ rest := by
    rw [List.append_assoc]
    exact hms
  have hnd : ((done ++ [m]).map Movement.idempotencyKey).Nodup := by
    rw [hms', List.map_append] at hkeys
    exact (List.nodup_append.mp hkeys).1
  -- the settler goes on with the movement on the ledger, or refused
  have hgo : ∀ {w' : World}, (∀ txnId, σ.world.posted txnId = true → w'.posted txnId = true) →
      Refusals sessionId w' done (rejected.map Prod.fst) →
        w'.posted (movementTxnId sessionId m.seq) = true →
          (t.at_ (.replaying rest (postings + 1) rejected)).Sound sessionId ms (σ.chunks ms) p w' := by
    intro w' hposted hkeysOf' hp
    apply hs.at_ hne hposted
    exact ⟨hwhole, hundone.keeps hposted, done ++ [m], hms', (hkeysOf'.snoc hnd).1 hp⟩
  have hrefuse : ∀ reason, σ.world.posted (movementTxnId sessionId m.seq) = false →
      ({ t with
          session := t.session.remember m.idempotencyKey (.rejected reason)
          phase := .replaying rest postings (rejected ++ [(m.idempotencyKey, reason)]) } :
            Settler).Sound sessionId ms (σ.chunks ms) p σ.world := by
    intro reason hun
    refine ⟨hs.ofSession, hs.flushed, hs.forced, fun _ => hmovements, hwhole, hundone,
      done ++ [m], hms', ?_⟩
    rw [List.map_append]
    exact (hkeysOf.snoc hnd).2 hun
  cases fate with
  | storeError =>
    simp only [Settler.advance, hphase, Settler.attempt]
    exact h.put_same h.evidence.ready rfl rfl (hrefuse _ (hmeets.fresh rfl)) (by simp)
  | proceed =>
    simp only [Settler.advance, hphase, Settler.attempt, hid]
    have hz : ∀ leg ∈ (replayPosting sessionId t.head m).legs, leg.amount.minor ≠ 0 :=
      fun leg hl => ((requireMovementLegs_ok_iff.mp (hchecked m hm)).1 leg hl).2
    rcases postOnce_cases env h.evidence.ready hz (replayPosting_encodable sessionId t.head m) with
      ⟨hp, w', htr, hsame, hready⟩ | ⟨hun, hacc, w', htr, hland⟩ | ⟨hun, -, e, w', htr, hsame, hready⟩
    · simp only [htr]
      exact h.put_same hready hsame.ledger hsame.movements (hgo (fun _ hp => hp) hkeysOf hp) (by simp)
    · simp only [htr]
      have hnot := hmeets.unrefused rfl hun hacc
      have hposted : ∀ txnId, σ.world.posted txnId = true → w'.posted txnId = true := by
        intro txnId hp
        rw [hland.posted, hp, Bool.true_or]
      -- only this movement is added, and nobody refused it
      have hun' : Undisturbed sessionId ms σ w' := by
        apply Undisturbed.of_landed hland
        intro m' hm' hr he
        have hseq : m.seq = m'.seq := movementTxnId_inj.mp he
        have hmm : m = m' := List.inj_on_of_nodup_map hseqs hm hm' hseq
        exact hnot (hmm ▸ hr)
      apply h.put (h.evidence.replays hseqs hm hun hundone hwhole hland) hun' hland.movements
      · apply hgo hposted
        · apply hkeysOf.keeps hposted
          intro m' hm' hk
          have hmem : m' ∈ ms := by
            rw [hms]
            exact List.mem_append_left _ hm'
          apply hun'.refused m' hmem
          exact Or.inl ⟨t, ht, by rw [hphase]; exact hk⟩
        · rw [hland.posted]
          simp [replayPosting]
      · simp
    · simp only [htr]
      exact h.put_same hready hsame.ledger hsame.movements (hrefuse _ hun) (by simp)

theorem Consistent.finishes_replay (h : Consistent sessionId ms env start σ p)
    (hi : σ.settlers[index]? = some t) {postings : Nat} {rejected : List (String × Reason)}
    (hphase : t.phase = .replaying [] postings rejected) (fate : Fate) :
    Consistent sessionId ms env start (σ.put sessionId index t (t.advance env fate σ.world)) p := by
  have hs := h.settlers t (mem_settlers hi)
  have hsound := hs.phase
  rw [hphase] at hsound
  obtain ⟨hwhole, hundone, done, hms, hkeysOf⟩ := hsound
  rw [List.append_nil] at hms
  subst hms
  have hreport : SettleReport.Sound sessionId ms (σ.chunks ms) p σ.world
      ⟨.replayed, postings, rejected, t.head, t.movements.length⟩ := by
    refine ⟨?_, fun _ => ⟨hwhole, hundone, hkeysOf⟩⟩
    intro hmode
    cases hmode
  obtain ⟨h1, h2⟩ := hs.release (by simp [hphase]) hreport
  simp only [Settler.advance, hphase]
  exact h.put_same h.evidence.ready rfl rfl h1 h2

theorem Consistent.claims (h : Consistent sessionId ms env start σ p) (hi : σ.settlers[index]? = some t)
    (hphase : t.phase = .claiming report) (fate : Fate) :
    Consistent sessionId ms env start (σ.put sessionId index t (t.advance env fate σ.world)) p := by
  have hs := h.settlers t (mem_settlers hi)
  have hid : t.session.sessionId = sessionId := hs.ofSession
  have hne : t.phase ≠ .idle := by simp [hphase]
  have hreport := hs.phase
  rw [hphase] at hreport
  obtain ⟨hreleased, hsome⟩ := hs.released hreport
  cases fate with
  | storeError =>
    simp only [Settler.advance, hphase, Settler.attempt]
    exact h.put_same h.evidence.ready rfl rfl (hs.at_ hne (fun _ hp => hp) trivial) (by simp)
  | proceed =>
    simp only [Settler.advance, hphase, Settler.attempt, hid]
    rcases claimRelease_cases env sessionId h.evidence.ready with
      ⟨txn, w', -, htr, hsame, hready⟩ | ⟨-, txn, w', htr, hready, hbook, hmv, -, -⟩
    · simp only [htr]
      exact h.put_same hready hsame.ledger hsame.movements hreleased hsome
    · simp only [htr]
      exact h.put_same hready hbook hmv (hs.at_ hne (fun _ hp => hp) hreport) (by simp)

theorem Consistent.releases (h : Consistent sessionId ms env start σ p) (hi : σ.settlers[index]? = some t)
    {rest : List (AccountRef × Int)}
    (hphase : t.phase = .releasing rest report) (fate : Fate) :
    Consistent sessionId ms env start (σ.put sessionId index t (t.advance env fate σ.world)) p := by
  have hs := h.settlers t (mem_settlers hi)
  have hne : t.phase ≠ .idle := by simp [hphase]
  have hreport := hs.phase
  rw [hphase] at hreport
  obtain ⟨hreleased, hsome⟩ := hs.released hreport
  cases rest with
  | nil =>
    simp only [Settler.advance, hphase]
    exact h.put_same h.evidence.ready rfl rfl hreleased hsome
  | cons q rest =>
    obtain ⟨account, delta⟩ := q
    cases fate with
    | storeError =>
      simp only [Settler.advance, hphase]
      exact h.put_same h.evidence.ready rfl rfl (hs.at_ hne (fun _ hp => hp) trivial) (by simp)
    | proceed =>
      simp only [Settler.advance, hphase]
      have hres := σ.world.addReservation_reserves account (-delta)
      exact h.put_same (hres.ready h.evidence.ready) (congrArg MemoryLedger.book hres.ledger)
        hres.movements (hs.at_ hne (fun _ hp => hp) hreport) (by simp)

end Steps

end EconomyLab
