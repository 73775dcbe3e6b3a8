import EconomyLab.Netting.Closing
import EconomyLab.Worker.Orphans

/-!
# What a sweep leaves on the ledger

The postings of one session are told apart from those of every other by their ids, so the
sweep of a session leaves what is inferred of the others. A settlement leaves evidence just
when the ledger takes its first chunk or, once that is refused, one of its movements.
-/

namespace EconomyLab

open Foundation

/-- The ids under which a session's settlement and its escrow refunds are posted. -/
inductive OwnId (sessionId : String) : String → Prop
  | chunk (index : Nat) : OwnId sessionId (chunkTxnId sessionId index)
  | comp (index : Nat) : OwnId sessionId (compTxnId sessionId index)
  | movement (seq : Nat) : OwnId sessionId (movementTxnId sessionId seq)
  | refund (userId : String) : OwnId sessionId (escrowRefundId sessionId userId)

theorem chunkTxnId_ne_compTxnId (a b : String) (i j : Nat) : chunkTxnId a i ≠ compTxnId b j := by
  intro h
  have hcomp : compTxnId b j = (chunkTxnId b j ++ "_") ++ String.ofList ['c'] ++ "omp" := by
    apply String.toList_inj.mp
    simp [compTxnId]
  have hcut := congrArg (Text.cutLast 'c') h
  rw [hcomp, cutLast_chunkTxnId, Text.cutLast_append 'c' _ _ (by
    decide), Option.some.injEq, Prod.mk.injEq] at hcut
  have hmem : 'o' ∈ (toString i).toList := by
    rw [hcut.2]
    decide
  exact absurd (Text.isDigit_of_mem_toString hmem) (by decide)

theorem movementTxnId_session {a b : String} {i j : Nat} (h : movementTxnId a i = movementTxnId b j) :
    a = b := by
  have hcut : ∀ (c : String) (n : Nat), Text.cutLast '_' (movementTxnId c n) =
      some ("mv_" ++ c, toString n) := by
    intro c n
    have hdigits : '_' ∉ (toString n).toList := fun hmem =>
      absurd (Text.isDigit_of_mem_toString hmem) (by decide)
    exact Text.cutLast_append '_' _ _ hdigits
  have hsame := congrArg (Text.cutLast '_') h
  rw [hcut, hcut, Option.some.injEq, Prod.mk.injEq] at hsame
  exact (String.append_right_inj _).mp hsame.1

theorem head?_escrowRefundId (sessionId userId : String) :
    (escrowRefundId sessionId userId).toList.head? = some 'e' := by
  simp [escrowRefundId]

inductive EvidenceId (sessionId : String) : String → Prop
  | chunk (index : Nat) : EvidenceId sessionId (chunkTxnId sessionId index)
  | comp (index : Nat) : EvidenceId sessionId (compTxnId sessionId index)
  | movement (seq : Nat) : EvidenceId sessionId (movementTxnId sessionId seq)

theorem EvidenceId.head? {sessionId txnId : String} (h : EvidenceId sessionId txnId) :
    txnId.toList.head? = some 'n' ∨ txnId.toList.head? = some 'm' := by
  cases h with
  | chunk index => exact Or.inl (head?_chunkTxnId sessionId index)
  | comp index => exact Or.inl (head?_compTxnId sessionId index)
  | movement seq => exact Or.inr (head?_movementTxnId sessionId seq)

theorem escrowRefundId_evidence (a b userId : String) : ¬ EvidenceId b (escrowRefundId a userId) := by
  intro h
  have hhead := h.head?
  rw [head?_escrowRefundId] at hhead
  revert hhead
  decide

/-- Evidence of another session's settlement is not this one's to post. -/
theorem OwnId.elsewhere {a b txnId : String} (h : OwnId a txnId) (hne : a ≠ b) : ¬ EvidenceId b txnId := by
  have hletter : ∀ {c : Char}, txnId.toList.head? = some c → c ≠ 'm' → ∀ seq, txnId ≠
      movementTxnId b seq := by
    rintro c hc hcm seq rfl
    exact hcm (Option.some.inj (hc.symm.trans (head?_movementTxnId b seq)))
  intro hevidence
  cases h with
  | chunk i =>
    generalize htxn : chunkTxnId a i = txnId at hevidence hletter
    cases hevidence with
    | chunk j => exact hne (chunkTxnId_inj.mp htxn).1
    | comp j => exact chunkTxnId_ne_compTxnId a b i j htxn
    | movement j => exact hletter (htxn ▸ head?_chunkTxnId a i) (by decide) j rfl
  | comp i =>
    generalize htxn : compTxnId a i = txnId at hevidence hletter
    cases hevidence with
    | chunk j => exact chunkTxnId_ne_compTxnId b a j i htxn.symm
    | comp j => exact hne (chunkTxnId_inj.mp ((String.append_left_inj _).mp htxn)).1
    | movement j => exact hletter (htxn ▸ head?_compTxnId a i) (by decide) j rfl
  | movement i =>
    generalize htxn : movementTxnId a i = txnId at hevidence
    cases hevidence with
    | chunk j =>
      have hhead := head?_movementTxnId a i
      rw [htxn, head?_chunkTxnId] at hhead
      cases hhead
    | comp j =>
      have hhead := head?_movementTxnId a i
      rw [htxn, head?_compTxnId] at hhead
      cases hhead
    | movement j => exact hne (movementTxnId_session htxn)
  | refund userId => exact escrowRefundId_evidence a b userId hevidence

/-! ## Worlds that differ by postings -/

/-- `w'` is `w` with more postings, all of them under such ids, and the journal is as it was. -/
structure World.PostsFor (own : String → Prop) (w w' : World) : Prop where
  ready : w'.Ready
  movements : w'.movements = w.movements
  kept : ∀ txnId, w.posted txnId = true → w'.posted txnId = true
  others : ∀ txnId, ¬ own txnId → w'.posted txnId = w.posted txnId

structure World.Posts (own : String → Prop) (w w' : World) : Prop extends World.PostsFor own w w' where
  reservations : w'.reservations = w.reservations
  idempotency : w'.idempotency = w.idempotency

namespace World

variable {own own' : String → Prop} {w w' w'' : World}

theorem PostsFor.refl (hw : w.Ready) : w.PostsFor own w := ⟨hw, rfl, fun _ h => h, fun _ _ => rfl⟩

theorem PostsFor.trans (h : w.PostsFor own w') (h' : w'.PostsFor own w'') : w.PostsFor own w'' where
  ready := h'.ready
  movements := h'.movements.trans h.movements
  kept := fun txnId hp => h'.kept txnId (h.kept txnId hp)
  others := fun txnId hown => (h'.others txnId hown).trans (h.others txnId hown)

theorem PostsFor.widen (h : w.PostsFor own w') (hown : ∀ txnId, own txnId → own' txnId) :
    w.PostsFor own' w' :=
  ⟨h.ready, h.movements, h.kept, fun txnId hnot => h.others txnId fun hin => hnot (hown txnId hin)⟩

theorem PostsFor.of_book (hready : w'.Ready) (hbook : w'.ledger.book = w.ledger.book)
    (hmovements : w'.movements = w.movements) : w.PostsFor own w' :=
  ⟨hready, hmovements, fun txnId hp => (posted_book hbook txnId).trans hp, fun txnId _ =>
    posted_book hbook txnId⟩

theorem Posts.refl (hw : w.Ready) : w.Posts own w := ⟨.refl hw, rfl, rfl⟩

theorem Posts.trans (h : w.Posts own w') (h' : w'.Posts own w'') : w.Posts own w'' :=
  ⟨h.toPostsFor.trans h'.toPostsFor, h'.reservations.trans h.reservations,
    h'.idempotency.trans h.idempotency⟩

theorem SameTables.posts (h : w.SameTables w') (hw : w'.Ready) : w.Posts own w' :=
  ⟨⟨hw, h.movements, fun txnId hp => (h.posted txnId).trans hp, fun txnId _ => h.posted txnId⟩,
    h.reservations,
    h.idempotency⟩

theorem Landed.posts {posting : Posting} (h : w.Landed posting w') (hown : own posting.txnId) :
    w.Posts own w' := by
  refine ⟨⟨h.ready, h.movements, ?_, ?_⟩, h.reservations, h.idempotency⟩
  · intro txnId hp
    rw [h.posted, hp, Bool.true_or]
  · intro txnId hother
    have hne : posting.txnId ≠ txnId := by
      rintro rfl
      exact hother hown
    rw [h.posted, decide_eq_false hne, Bool.or_false]

end World

section Settling

variable {env : Env} {sessionId : String} {w : World}

variable {movements : List Movement} {s : InstanceSession} {chunk : Chunk}

theorem postChunk_posts (env : Env) (sessionId : String) (shape : Shape)
    (hnz : ∀ p ∈ chunk, p.2 ≠ 0) (index : Nat) (compensate : Bool) (hw : w.Ready) :
    w.Posts (OwnId sessionId) (postChunk env sessionId shape chunk index compensate w).2 := by
  have hown : ∀ legs, OwnId sessionId (chunkPosting sessionId shape index compensate legs).txnId := by
    intro legs
    cases compensate with
    | true => exact .comp index
    | false => exact .chunk index
  rcases postChunk_cases env sessionId shape hnz index compensate hw rfl with
    ⟨-, -, w', hrun, hsame, hready⟩ | ⟨-, legs, -, -, w', hrun, hland⟩ | ⟨-, -, e, w', hrun, hsame, hready⟩
  · rw [hrun]
    exact hsame.posts hready
  · rw [hrun]
    exact hland.posts (hown legs)
  · rw [hrun]
    exact hsame.posts hready

theorem postChunks_posts (env : Env) (sessionId : String) (shape : Shape) {chunks : List (Chunk × Nat)}
    (hnz : ∀ c ∈ chunks, ∀ p ∈ c.1, p.2 ≠ 0) (posted : List Nat) (hw : w.Ready) :
    w.Posts (OwnId sessionId) (postChunks env sessionId shape chunks posted w).2 := by
  induction chunks generalizing posted w with
  | nil => exact .refl hw
  | cons c rest ih =>
    obtain ⟨chunk, index⟩ := c
    have hstep := postChunk_posts env sessionId shape (hnz (chunk, index) List.mem_cons_self)
      index false hw
    have hrest : ∀ c ∈ rest, ∀ p ∈ c.1, p.2 ≠ 0 := fun c hc => hnz c (List.mem_cons_of_mem _ hc)
    unfold postChunks
    rcases hrun : postChunk env sessionId shape chunk index false w with ⟨result, w'⟩
    rw [hrun] at hstep
    cases result with
    | error e => exact hstep
    | ok u => exact hstep.trans (ih hrest (posted ++ [index]) hstep.ready)

theorem compensateChunks_posts (env : Env) (sessionId : String) (shape : Shape) {chunks : List Chunk}
    (hnz : ∀ chunk ∈ chunks, ∀ p ∈ chunk, p.2 ≠ 0) (indexes : List Nat) (hw : w.Ready) :
    w.Posts (OwnId sessionId) (compensateChunks env sessionId shape chunks indexes w).2 := by
  induction indexes generalizing w with
  | nil => exact .refl hw
  | cons index rest ih =>
    have hchunk : ∀ p ∈ chunks.getD index [], p.2 ≠ 0 := by
      intro p hp
      rw [List.getD_eq_getElem?_getD] at hp
      cases hget : chunks[index]? with
      | none =>
        rw [hget] at hp
        exact absurd hp List.not_mem_nil
      | some chunk =>
        rw [hget] at hp
        exact hnz chunk (List.mem_of_getElem? hget) p hp
    have hstep := postChunk_posts env sessionId shape hchunk index true hw
    unfold compensateChunks
    rcases hrun : postChunk env sessionId shape (chunks.getD index []) index true w with ⟨result, w'⟩
    rw [hrun] at hstep
    cases result with
    | error e => exact hstep
    | ok u => exact hstep.trans (ih hstep.ready)

theorem replayOne_cases (env : Env) (sessionId head : String) {m : Movement}
    (hm : requireMovementLegs m.legs = .ok ()) (hw : w.Ready)
    (hfresh : w.posted (movementTxnId sessionId m.seq) = false) :
    (Acceptable w.balanceOf m.legs ∧ ∃ w', transaction (postOnce env (replayPosting sessionId head m)) w =
      (.ok (), w') ∧
      w.Landed (replayPosting sessionId head m) w') ∨
    (¬ Acceptable w.balanceOf m.legs ∧ ∃ e w', transaction (postOnce env (replayPosting sessionId head m))
      w =
      (.error e, w') ∧ w.SameTables w' ∧ w'.Ready) := by
  have hnz : ∀ leg ∈ (replayPosting sessionId head m).legs, leg.amount.minor ≠ 0 := fun leg hleg =>
    ((requireMovementLegs_ok_iff.mp hm).1 leg hleg).2
  rcases postOnce_cases env hw hnz ⟨_, rfl⟩ with
    ⟨hposted, -⟩ | ⟨-, haccepted, hlanded⟩ | ⟨-, hrefused, hsame⟩
  · exact absurd (hfresh.symm.trans hposted) Bool.false_ne_true
  · exact Or.inl ⟨haccepted, hlanded⟩
  · exact Or.inr ⟨hrefused, hsame⟩

variable {ms : List Movement} {rest : List Chunk}

theorem replayMovements_posts (env : Env) (sessionId head : String)
    (hms : ∀ m ∈ ms, requireMovementLegs m.legs = .ok ()) (postings : Nat)
    (rejected : List (String × Reason)) (s : InstanceSession) (hw : w.Ready) :
    w.Posts (OwnId sessionId) (replayMovements env sessionId head ms postings rejected s w).2.2 := by
  induction ms generalizing postings rejected s w with
  | nil => exact .refl hw
  | cons m ms ih =>
    have hrest : ∀ m ∈ ms, requireMovementLegs m.legs = .ok () := fun m' hm' =>
      hms m' (List.mem_cons_of_mem _ hm')
    have hnz : ∀ leg ∈ (replayPosting sessionId head m).legs, leg.amount.minor ≠ 0 := fun leg hleg =>
      ((requireMovementLegs_ok_iff.mp (hms m List.mem_cons_self)).1 leg hleg).2
    unfold replayMovements
    rcases postOnce_cases env hw hnz ⟨_, rfl⟩ with
      ⟨-, w', hrun, hsame, hready⟩ | ⟨-, -, w', hrun, hland⟩ | ⟨-, -, e, w', hrun, hsame, hready⟩
    · rw [hrun]
      exact (hsame.posts hready).trans (ih hrest _ _ _ hready)
    · rw [hrun]
      have hown : OwnId sessionId (replayPosting sessionId head m).txnId := .movement m.seq
      exact (hland.posts hown).trans (ih hrest _ _ _ hland.ready)
    · rw [hrun]
      exact (hsame.posts hready).trans (ih hrest _ _ _ hready)

theorem replayMovements_refused (env : Env) (sessionId head : String)
    (hms : ∀ m ∈ ms, requireMovementLegs m.legs = .ok ())
    (hfresh : ∀ m ∈ ms, w.posted (movementTxnId sessionId m.seq) = false)
    (hrefused : ∀ m ∈ ms, ¬ Acceptable w.balanceOf m.legs) (postings : Nat)
    (rejected : List (String × Reason)) (s : InstanceSession) (hw : w.Ready) (txnId : String) :
    (replayMovements env sessionId head ms postings rejected s w).2.2.posted txnId = w.posted txnId := by
  induction ms generalizing postings rejected s w with
  | nil => rfl
  | cons m ms ih =>
    rcases replayOne_cases env sessionId head (hms m List.mem_cons_self) hw
        (hfresh m List.mem_cons_self) with
      ⟨haccepted, -⟩ | ⟨-, e, w', hrun, hsame, hready⟩
    · exact absurd haccepted (hrefused m List.mem_cons_self)
    · have hbalance : w'.balanceOf = w.balanceOf := funext hsame.balanceOf
      unfold replayMovements
      rw [hrun]
      refine (ih (fun m' hm' => hms m' (List.mem_cons_of_mem _ hm')) ?_ ?_ _ _ _ hready).trans
        (hsame.posted txnId)
      · exact fun m' hm' => (hsame.posted _).trans (hfresh m' (List.mem_cons_of_mem _ hm'))
      · intro m' hm'
        rw [hbalance]
        exact hrefused m' (List.mem_cons_of_mem _ hm')

theorem replayMovements_accepted (env : Env) (sessionId head : String)
    (hms : ∀ m ∈ ms, requireMovementLegs m.legs = .ok ())
    (hfresh : ∀ m ∈ ms, w.posted (movementTxnId sessionId m.seq) = false)
    (haccepted : ∃ m ∈ ms, Acceptable w.balanceOf m.legs) (postings : Nat)
    (rejected : List (String × Reason)) (s : InstanceSession) (hw : w.Ready) :
    ∃ m ∈ ms, (replayMovements env sessionId head ms postings rejected s w).2.2.posted
      (movementTxnId sessionId m.seq) = true := by
  induction ms generalizing postings rejected s w with
  | nil =>
    obtain ⟨m, hm, -⟩ := haccepted
    exact absurd hm List.not_mem_nil
  | cons m ms ih =>
    have hrest : ∀ m ∈ ms, requireMovementLegs m.legs = .ok () := fun m' hm' =>
      hms m' (List.mem_cons_of_mem _ hm')
    unfold replayMovements
    rcases replayOne_cases env sessionId head (hms m List.mem_cons_self) hw
        (hfresh m List.mem_cons_self) with
      ⟨-, w', hrun, hland⟩ | ⟨hrefused, e, w', hrun, hsame, hready⟩
    · rw [hrun]
      have hposted : w'.posted (movementTxnId sessionId m.seq) = true := by
        rw [hland.posted]
        exact Bool.or_eq_true_iff.mpr (Or.inr (decide_eq_true rfl))
      exact ⟨m, List.mem_cons_self,
        (replayMovements_posts env sessionId head hrest _ _ _ hland.ready).kept _ hposted⟩
    · rw [hrun]
      have hbalance : w'.balanceOf = w.balanceOf := funext hsame.balanceOf
      obtain ⟨m', hm', hacc⟩ := haccepted
      have htaken : m' ∈ ms := (List.mem_cons.mp hm').resolve_left fun h => hrefused (h ▸ hacc)
      obtain ⟨m'', hm'', hposted⟩ := ih hrest
        (fun m' hm' => (hsame.posted _).trans (hfresh m' (List.mem_cons_of_mem _ hm')))
        ⟨m', htaken, hbalance ▸ hacc⟩ postings (rejected ++ [(m.idempotencyKey, reasonOf e)])
        (s.remember m.idempotencyKey (.rejected (reasonOf e))) hready
      exact ⟨m'', List.mem_cons_of_mem _ hm'', hposted⟩

theorem replay_world (env : Env) (movements : List Movement) (head : String) (s : InstanceSession)
    (hms : ∀ m ∈ movements, requireMovementLegs m.legs = .ok ()) (hw : w.Ready) :
    ∃ w', replayMovements env s.sessionId head movements 0 [] s w =
        ((replayMovements env s.sessionId head movements 0 [] s w).1,
          (replayMovements env s.sessionId head movements 0 [] s w).2.1, w') ∧
      w.Posts (OwnId s.sessionId) w' ∧ w'.PostsFor (OwnId s.sessionId)
        (replay env movements head s w).2.2 ∧
      ∀ txnId, (replay env movements head s w).2.2.posted txnId = w'.posted txnId := by
  have hposts := replayMovements_posts env s.sessionId head hms 0 [] s hw
  rcases hrun : replayMovements env s.sessionId head movements 0 [] s w with ⟨counts, s₁, w₁⟩
  rw [hrun] at hposts
  obtain ⟨w₂, hrelease, hready, hbook, hmovements, -⟩ := releaseReservations_ok env s₁ hposts.ready
  have hworld : (replay env movements head s w).2.2 = w₂ := by
    unfold replay
    simp only [hrun, hrelease]
  rw [hworld]
  exact ⟨w₁, rfl, hposts, .of_book hready hbook hmovements, World.posted_book hbook⟩

theorem settleJournal_afterChunks (env : Env) (head : String)
    (hms : ∀ m ∈ movements, requireMovementLegs m.legs = .ok ()) (hforced : s.replayForced = false)
    (hw : w.Ready) :
    (postChunks env s.sessionId ⟨(s.chunks movements).length, movements.length, head⟩
      (s.chunks movements).zipIdx []
      w).2.PostsFor (OwnId s.sessionId) (settleJournal env movements head s w).2.2 := by
  have hchunks := postChunks_posts env s.sessionId ⟨(s.chunks movements).length, movements.length, head⟩
    (chunks_nonzero s movements) [] hw
  have hnz : ∀ chunk ∈ s.chunks movements, ∀ p ∈ chunk, p.2 ≠ 0 := by
    intro chunk hchunk p hp
    apply positionsOf_nonzero
    rw [← s.chunks_flatten movements, List.flatMap_def, List.zipIdx_map_fst 0 (s.chunks movements)]
    exact List.mem_flatten.mpr ⟨chunk, hchunk, hp⟩
  rcases hrun : postChunks env s.sessionId ⟨(s.chunks movements).length, movements.length, head⟩
    (s.chunks movements).zipIdx [] w with ⟨⟨through, posted⟩, w₁⟩
  rw [hrun] at hchunks
  have hready := hchunks.ready
  cases through with
  | true =>
    obtain ⟨w₂, hrelease, hready₂, hbook, hmovements, -⟩ := releaseReservations_ok env s hready
    have hworld : (settleJournal env movements head s w).2.2 = w₂ := by
      unfold settleJournal
      simp only [hforced, Bool.false_eq_true, if_false, hrun, hrelease]
    rw [hworld]
    exact .of_book hready₂ hbook hmovements
  | false =>
    have hcomp := compensateChunks_posts env s.sessionId ⟨(s.chunks movements).length,
      movements.length, head⟩
      hnz posted.reverse hready
    rcases hundo : compensateChunks env s.sessionId ⟨(s.chunks movements).length, movements.length, head⟩
      (s.chunks movements) posted.reverse w₁ with ⟨result, w₂⟩
    rw [hundo] at hcomp
    cases result with
    | error e =>
      have hworld : (settleJournal env movements head s w).2.2 = w₂ := by
        unfold settleJournal
        simp only [hforced, Bool.false_eq_true, if_false, hrun, hundo]
      rw [hworld]
      exact hcomp.toPostsFor
    | ok u =>
      obtain ⟨w₃, -, hreplayed, hreleased, -⟩ := replay_world env movements head { s with settled := true }
        hms hcomp.ready
      have hworld : (settleJournal env movements head s w).2.2 =
          (replay env movements head { s with settled := true } w₂).2.2 := by
        unfold settleJournal
        simp only [hforced, Bool.false_eq_true, if_false, hrun, hundo]
      rw [hworld]
      exact hcomp.toPostsFor.trans (hreplayed.toPostsFor.trans hreleased)

theorem settleJournal_nothing (env : Env) (head : String)
    (hforced : s.replayForced = false) (hw : w.Ready) (hchunks : s.chunks movements = [])
    (txnId : String) :
    (settleJournal env movements head s w).2.2.posted txnId = w.posted txnId := by
  obtain ⟨w', hrelease, -, hbook, -⟩ := releaseReservations_ok env s hw
  have hworld : (settleJournal env movements head s w).2.2 = w' := by
    unfold settleJournal
    simp only [hforced, Bool.false_eq_true, if_false, hchunks, List.zipIdx_nil, postChunks, hrelease]
  rw [hworld]
  exact World.posted_book hbook txnId

/-- A first chunk that the ledger takes stays there. -/
theorem settleJournal_taken (env : Env) (head : String)
    (hms : ∀ m ∈ movements, requireMovementLegs m.legs = .ok ()) (hforced : s.replayForced = false)
    (hw : w.Ready) (hchunks : s.chunks movements = chunk :: rest)
    (htaken : ∃ legs, chunkLegs 1 chunk = .ok legs ∧ Acceptable w.balanceOf legs) :
    (settleJournal env movements head s w).2.2.posted (chunkTxnId s.sessionId 0) = true := by
  have hafter := settleJournal_afterChunks env head hms hforced hw
  have hnonzero := chunks_nonzero s movements
  rw [hchunks] at hafter hnonzero
  apply hafter.kept
  have hrest : ∀ c ∈ rest.zipIdx 1, ∀ p ∈ c.1, p.2 ≠ 0 := fun c hc =>
    hnonzero c (List.mem_cons_of_mem _ hc)
  rcases postChunk_cases env s.sessionId ⟨(chunk :: rest).length, movements.length, head⟩
      (hnonzero (chunk, 0) List.mem_cons_self) 0 false hw rfl with
    ⟨hposted, -, w', hrun, hsame, hready⟩ | ⟨-, legs, -, -, w', hrun, hland⟩ | ⟨-, hrefused, -⟩
  · rw [List.zipIdx_cons, postChunks, hrun]
    apply (postChunks_posts env s.sessionId _ hrest _ hready).kept
    exact (hsame.posted _).trans hposted
  · rw [List.zipIdx_cons, postChunks, hrun]
    apply (postChunks_posts env s.sessionId _ hrest _ hland.ready).kept
    rw [hland.posted]
    exact Bool.or_eq_true_iff.mpr (Or.inr (decide_eq_true rfl))
  · exact absurd htaken hrefused

/-- A first chunk that the ledger refuses leaves the settlement to the replay. -/
theorem settleJournal_refused (env : Env) (head : String)
    (hforced : s.replayForced = false) (hw : w.Ready)
    (hchunks : s.chunks movements = chunk :: rest) (hfresh : w.posted (chunkTxnId s.sessionId 0) = false)
    (hrefused : ¬ ∃ legs, chunkLegs 1 chunk = .ok legs ∧ Acceptable w.balanceOf legs) :
    ∃ w', w.SameTables w' ∧ w'.Ready ∧ (settleJournal env movements head s w).2.2 =
      (replay env movements head { s with settled := true } w').2.2 := by
  have hnonzero := chunks_nonzero s movements
  rw [hchunks] at hnonzero
  rcases postChunk_cases env s.sessionId ⟨(chunk :: rest).length, movements.length, head⟩
      (hnonzero (chunk, 0) List.mem_cons_self) 0 false hw rfl with
    ⟨hposted, -⟩ | ⟨-, legs, hlegs, haccepted, -⟩ | ⟨-, -, e, w', hrun, hsame, hready⟩
  · exact absurd (hfresh.symm.trans hposted) Bool.false_ne_true
  · exact absurd ⟨legs, hlegs, haccepted⟩ hrefused
  · refine ⟨w', hsame, hready, ?_⟩
    unfold settleJournal
    simp only [hforced, Bool.false_eq_true, if_false, hchunks, List.zipIdx_cons, postChunks, hrun,
      List.reverse_nil, compensateChunks]

/-- A settlement of which nothing was posted posts something just when the ledger takes it. -/
theorem settleJournal_leaves_iff (env : Env) (head : String)
    (hms : ∀ m ∈ movements, requireMovementLegs m.legs = .ok ()) (hforced : s.replayForced = false)
    (hw : w.Ready) (hchunks : s.chunks movements = chunk :: rest)
    (hfirst : w.posted (chunkTxnId s.sessionId 0) = false)
    (hfresh : ∀ m ∈ movements, w.posted (movementTxnId s.sessionId m.seq) = false) :
    let w' := (settleJournal env movements head s w).2.2
    let takes := (∃ legs, chunkLegs 1 chunk = .ok legs ∧ Acceptable w.balanceOf legs) ∨
      ∃ m ∈ movements, Acceptable w.balanceOf m.legs
    (takes → w'.posted (chunkTxnId s.sessionId 0) = true ∨
      ∃ m ∈ movements, w'.posted (movementTxnId s.sessionId m.seq) = true) ∧
    (¬ takes → ∀ txnId, w'.posted txnId = w.posted txnId) := by
  intro w' takes
  by_cases htaken : ∃ legs, chunkLegs 1 chunk = .ok legs ∧ Acceptable w.balanceOf legs
  · exact ⟨fun _ => Or.inl (settleJournal_taken env head hms hforced hw hchunks htaken),
      fun hnone => absurd (Or.inl htaken) hnone⟩
  · obtain ⟨v, hsame, hready, hworld⟩ := settleJournal_refused env head hforced hw hchunks hfirst htaken
    have hbalance : v.balanceOf = w.balanceOf := funext hsame.balanceOf
    have hstill : ∀ m ∈ movements, v.posted (movementTxnId s.sessionId m.seq) = false := fun m hm =>
      (hsame.posted _).trans (hfresh m hm)
    obtain ⟨v', hreplay, -, -, hposted⟩ :=
      replay_world env movements head { s with settled := true } hms hready
    have hv : (replayMovements env s.sessionId head movements 0 [] { s with settled := true } v).2.2 =
      v' :=
      congrArg (fun r => r.2.2) hreplay
    constructor
    · intro htakes
      right
      obtain ⟨m, hm, hacc⟩ := htakes.resolve_left htaken
      obtain ⟨m', hm', hthere⟩ := replayMovements_accepted env s.sessionId head hms hstill
        ⟨m, hm, hbalance ▸ hacc⟩ 0 []
        { s with settled := true } hready
      refine ⟨m', hm', ?_⟩
      rw [hv] at hthere
      change (settleJournal env movements head s w).2.2.posted _ = true
      rw [hworld, hposted]
      exact hthere
    · intro hnone txnId
      have hrefused : ∀ m ∈ movements, ¬ Acceptable v.balanceOf m.legs := by
        intro m hm hacc
        exact hnone (Or.inr ⟨m, hm, hbalance ▸ hacc⟩)
      have hleft := replayMovements_refused env s.sessionId head hms hstill hrefused 0 []
        { s with settled := true } hready txnId
      rw [hv] at hleft
      change (settleJournal env movements head s w).2.2.posted txnId = _
      rw [hworld, hposted, hleft]
      exact hsame.posted txnId

end Settling

def World.settledOnRecord (sessionId : String) (w : World) : Bool :=
  let rows := bySession sessionId w.movements
  ((List.range (((positionsOf rows).length + 16 - 1) / 16)).any fun i =>
    w.posted (compTxnId sessionId i)) ||
    (rows.any fun m => w.posted (movementTxnId sessionId m.seq)) || w.posted (chunkTxnId sessionId 0)

/-- A settlement would put something on the ledger: its first chunk, or else a movement. -/
def World.takesAny (sessionId : String) (w : World) : Prop :=
  let rows := bySession sessionId w.movements
  ∃ chunk rest, chunksOf 16 (positionsOf rows) = chunk :: rest ∧
    ((∃ legs, chunkLegs 1 chunk = .ok legs ∧ Acceptable w.balanceOf legs) ∨
      ∃ m ∈ rows, Acceptable w.balanceOf m.legs)

/-- What a recovery gives back when the journal re-derives. -/
structure Recovered (env : Env) (sessionId : String) (w : World) (s : InstanceSession) (w' : World) :
    Prop where
  journaled : journal env sessionId w = .ok (bySession sessionId w.movements)
  reserves : w.Reserves w'
  ofSession : s.sessionId = sessionId
  pending : s.pending = []
  width : s.chunkWidth = 16
  settled : wasSettled s = w.settledOnRecord sessionId
  unforced : w.settledOnRecord sessionId = false → s.replayForced = false

theorem journal_ok {env : Env} {sessionId : String} {w : World} {movements : List Movement}
    (h : journal env sessionId w = .ok movements) : movements = bySession sessionId w.movements := by
  obtain ⟨_, -, hrows⟩ := except_bind_ok.mp h
  exact (except_pure_ok.mp hrows).symm

theorem recoverByDefault_cases (env : Env) (sessionId : String) (scope : Scope) (w : World) :
    (∃ e, journal env sessionId w = .error e ∧ recoverByDefault env sessionId scope w = (.error e, w)) ∨
    ∃ s w', recoverByDefault env sessionId scope w = (.ok s, w') ∧ Recovered env sessionId w s w' := by
  cases hjournal : journal env sessionId w with
  | error e =>
    left
    refine ⟨e, rfl, ?_⟩
    unfold recoverByDefault recoverSession
    rw [hjournal]
  | ok movements =>
    right
    obtain rfl := journal_ok hjournal
    obtain ⟨hs, hreserves, -⟩ := rebuild_spec (bySession sessionId w.movements)
      (openInstanceSession sessionId 64 ⟨16, by decide⟩ scope) w
    rcases hrebuild : rebuild (bySession sessionId w.movements)
      (openInstanceSession sessionId 64 ⟨16, by decide⟩ scope) w with ⟨s, w'⟩
    rw [hrebuild] at hs hreserves
    have hposted := World.posted_book (congrArg MemoryLedger.book hreserves.ledger)
    have hid : s.sessionId = sessionId := congrArg InstanceSession.sessionId hs
    have haccepted : s.accepted = bySession sessionId w.movements := congrArg InstanceSession.accepted hs
    have hwidth : s.chunkWidth = 16 := congrArg InstanceSession.chunkWidth hs
    have hunforced : s.replayForced = false := congrArg InstanceSession.replayForced hs
    have hunsettled : s.settled = false := congrArg InstanceSession.settled hs
    have hcount : s.chunkCount = ((positionsOf (bySession sessionId w.movements)).length + 16 - 1) /
        16 := by
      unfold InstanceSession.chunkCount
      rw [haccepted, hwidth]
    refine ⟨probeSettlement s w', w', ?_, ⟨hjournal, hreserves, ?_, ?_, ?_, ?_, ?_⟩⟩
    · unfold recoverByDefault recoverSession
      rw [hjournal]
      simp only [hrebuild]
    · rw [(probeSettlement_spec s w').1]
      exact hid
    · rw [(probeSettlement_spec s w').1]
      exact congrArg InstanceSession.pending hs
    · rw [(probeSettlement_spec s w').1]
      exact hwidth
    · unfold probeSettlement World.settledOnRecord wasSettled
      simp only [hcount, hid, haccepted, hposted]
      split
      · rename_i hcomp
        rw [hcomp]
        rfl
      · rename_i hcomp
        split
        · rename_i hmovement
          rw [hmovement, Bool.or_true]
          rfl
        · rename_i hmovement
          rw [Bool.eq_false_iff.mpr hcomp, Bool.eq_false_iff.mpr hmovement]
          split
          · rename_i hchunk
            rw [hchunk]
            rfl
          · rename_i hchunk
            rw [Bool.eq_false_iff.mpr hchunk]
            exact hunsettled
    · intro hnone
      unfold World.settledOnRecord at hnone
      obtain ⟨hboth, hchunk⟩ := Bool.or_eq_false_iff.mp hnone
      obtain ⟨hcomp, hmovement⟩ := Bool.or_eq_false_iff.mp hboth
      unfold probeSettlement
      simp only [hcount, hid, haccepted, hposted, hcomp, hmovement, hchunk, Bool.false_eq_true, if_false]
      exact hunforced

/-- Evidence, read off one posting at a time. -/
theorem World.settledOnRecord_iff {sessionId : String} {w : World} : w.settledOnRecord sessionId = true ↔
    (∃ i < ((positionsOf (bySession sessionId w.movements)).length + 16 - 1) / 16,
      w.posted (compTxnId sessionId i) = true) ∨
    (∃ m ∈ bySession sessionId w.movements, w.posted (movementTxnId sessionId m.seq) = true) ∨
    w.posted (chunkTxnId sessionId 0) = true := by
  simp only [World.settledOnRecord, Bool.or_eq_true, List.any_eq_true, List.mem_range, or_assoc]

theorem World.PostsFor.settledOnRecord {own : String → Prop} {w w' : World} (h : w.PostsFor own w')
    {sessionId : String} (hown : ∀ txnId, own txnId → ¬ EvidenceId sessionId txnId) :
    w'.settledOnRecord sessionId = w.settledOnRecord sessionId := by
  have hsame : ∀ txnId, EvidenceId sessionId txnId → w'.posted txnId = w.posted txnId :=
    fun txnId hevidence =>
    h.others txnId fun hin => hown txnId hin hevidence
  unfold World.settledOnRecord
  simp only [h.movements, hsame _ (.chunk _), hsame _ (.comp _), hsame _ (.movement _)]

section Settled

variable {env : Env} {sessionId : String} {w w' : World} {s : InstanceSession}

theorem Recovered.rows (h : Recovered env sessionId w s w') :
    bySession sessionId w'.movements = bySession sessionId w.movements := by
  rw [h.reserves.movements]

theorem Recovered.settle_eq (h : Recovered env sessionId w s w') {last : Movement}
    (hlast : (bySession sessionId w.movements).getLast? = some last) :
    settle env s w' = settleJournal env (bySession sessionId w.movements) last.hash s w' := by
  have hjournal : journal env s.sessionId w' = .ok (bySession sessionId w.movements) := by
    have hsame : journal env sessionId w' = journal env sessionId w := by
      unfold journal
      rw [h.reserves.movements]
    rw [h.ofSession, hsame]
    exact h.journaled
  unfold settle
  rw [flush_nothing h.pending]
  simp only [hjournal, hlast]

theorem Recovered.settle_postsFor (h : Recovered env sessionId w s w') (hw : w.Ready)
    (hrows : ∀ m ∈ w.movements, requireMovementLegs m.legs = .ok ())
    (hunsettled : w.settledOnRecord sessionId = false) :
    w'.PostsFor (OwnId sessionId) (settle env s w').2.2 := by
  have hready := h.reserves.ready hw
  have hms : ∀ m ∈ bySession sessionId w.movements, requireMovementLegs m.legs = .ok () := fun m hm =>
    hrows m (mem_bySession.mp hm).1
  cases hlast : (bySession sessionId w.movements).getLast? with
  | none =>
    have hempty : bySession sessionId w'.movements = [] := by
      rw [h.rows]
      exact List.getLast?_eq_none_iff.mp hlast
    have hjournal : journal env s.sessionId w' = .ok [] := by
      unfold journal
      rw [h.ofSession, hempty]
      rfl
    have hworld : (settle env s w').2.2 = w' := by
      unfold settle
      rw [flush_nothing h.pending]
      simp only [hjournal, List.getLast?_nil]
    rw [hworld]
    exact .refl hready
  | some last =>
    rw [h.settle_eq hlast]
    have hchunks := postChunks_posts env s.sessionId
      ⟨(s.chunks (bySession sessionId w.movements)).length, (bySession sessionId w.movements).length,
        last.hash⟩
      (chunks_nonzero s (bySession sessionId w.movements)) [] hready
    have hafter := settleJournal_afterChunks env last.hash hms (h.unforced hunsettled) hready
    rw [h.ofSession] at hchunks hafter
    exact hchunks.toPostsFor.trans hafter

theorem Recovered.settle_leaves_iff (h : Recovered env sessionId w s w') (hw : w.Ready)
    (hrows : ∀ m ∈ w.movements, requireMovementLegs m.legs = .ok ())
    (hunsettled : w.settledOnRecord sessionId = false)
    (hsome : ∃ m ∈ w.movements, m.sessionId = sessionId) :
    (settle env s w').2.2.settledOnRecord sessionId = true ↔ w.takesAny sessionId := by
  have hready := h.reserves.ready hw
  have hbalance : w'.balanceOf = w.balanceOf := funext h.reserves.balanceOf
  have hbook := World.posted_book (congrArg MemoryLedger.book h.reserves.ledger)
  have hms : ∀ m ∈ bySession sessionId w.movements, requireMovementLegs m.legs = .ok () := fun m hm =>
    hrows m (mem_bySession.mp hm).1
  obtain ⟨last, hlast⟩ : ∃ last, (bySession sessionId w.movements).getLast? = some last := by
    obtain ⟨m, hm, hid⟩ := hsome
    have hmem : m ∈ bySession sessionId w.movements := mem_bySession.mpr ⟨hm, hid⟩
    cases hlast : (bySession sessionId w.movements).getLast? with
    | none =>
      rw [List.getLast?_eq_none_iff.mp hlast] at hmem
      exact absurd hmem List.not_mem_nil
    | some last => exact ⟨last, rfl⟩
  have hposts := h.settle_postsFor hw hrows hunsettled
  have hnone := hunsettled
  unfold World.settledOnRecord at hnone
  obtain ⟨hboth, hfirst⟩ := Bool.or_eq_false_iff.mp hnone
  obtain ⟨-, hmovement⟩ := Bool.or_eq_false_iff.mp hboth
  have hstart : w'.posted (chunkTxnId s.sessionId 0) = false := by
    rw [h.ofSession, hbook]
    exact hfirst
  have hfresh : ∀ m ∈ bySession sessionId w.movements, w'.posted (movementTxnId s.sessionId m.seq) =
      false := by
    intro m hm
    rw [h.ofSession, hbook]
    exact Bool.eq_false_iff.mpr (List.any_eq_false.mp hmovement m hm)
  have hsame : (∀ txnId, (settle env s w').2.2.posted txnId = w'.posted txnId) →
      (settle env s w').2.2.settledOnRecord sessionId = false := by
    intro hposted
    rw [← hunsettled]
    unfold World.settledOnRecord
    simp only [hposts.movements, h.reserves.movements, hposted, hbook]
  have hmoved : (settle env s w').2.2.movements = w.movements :=
    hposts.movements.trans h.reserves.movements
  rw [h.settle_eq hlast] at hsame hmoved ⊢
  have hwidth : s.chunks (bySession sessionId w.movements) =
      chunksOf 16 (positionsOf (bySession sessionId w.movements)) := by
    unfold InstanceSession.chunks
    rw [h.width]
  cases hchunks : chunksOf 16 (positionsOf (bySession sessionId w.movements)) with
  | nil =>
    have hleft := hsame (settleJournal_nothing env last.hash (h.unforced hunsettled) hready
      (hwidth.trans hchunks))
    constructor
    · intro hsettled
      exact absurd (hleft.symm.trans hsettled) Bool.false_ne_true
    · rintro ⟨chunk, rest, hcons, -⟩
      rw [hchunks] at hcons
      cases hcons
  | cons chunk rest =>
    obtain ⟨hleaves, hnothing⟩ := settleJournal_leaves_iff env last.hash hms (h.unforced hunsettled) hready
      (hwidth.trans hchunks) hstart hfresh
    rw [hbalance, h.ofSession] at hleaves
    rw [hbalance] at hnothing
    constructor
    · intro hsettled
      apply Classical.byContradiction
      intro hnot
      have hleft := hsame (hnothing fun htakes => hnot ⟨chunk, rest, hchunks, htakes⟩)
      exact absurd (hleft.symm.trans hsettled) Bool.false_ne_true
    · rintro ⟨chunk', rest', hcons, htakes⟩
      rw [hchunks] at hcons
      obtain ⟨rfl, rfl⟩ := List.cons.inj hcons
      rw [World.settledOnRecord_iff, hmoved]
      exact Or.inr (hleaves htakes).symm

end Settled

end EconomyLab
