import EconomyLab.Netting.Leaks
import EconomyLab.Netting.Mirror

/-!
# Recovery is a copy

A session that only recorded and flushed is rebuilt from its rows with its head, position,
accepted outcomes and reservations, and answers every later call as the original does: up to
a settlement that posts a chunk it cannot take back.
-/

namespace EconomyLab

open Foundation

/-! ## Later calls -/

inductive Use
  | record (request : MovementRequest)
  | flush
  | settle

inductive Answer
  | recorded (outcome : Except Fault MovementOutcome)
  | flushed (done : Except Fault Unit)
  | settled (report : Except Fault SettleReport)
deriving DecidableEq

def Use.run (env : Env) (s : InstanceSession) (w : World) : Use → Answer × InstanceSession × World
  | .record request => (.recorded (EconomyLab.record env request s w).1,
    (EconomyLab.record env request s w).2)
  | .flush => (.flushed (EconomyLab.flush s w).1, (EconomyLab.flush s w).2)
  | .settle => (.settled (EconomyLab.settle env s w).1, (EconomyLab.settle env s w).2)

/-- The answers of a sequence of calls, and what it leaves. -/
def uses (env : Env) : List Use → InstanceSession → World → List Answer × InstanceSession × World
  | [], s, w => ([], s, w)
  | u :: us, s, w =>
    ((u.run env s w).1 :: (uses env us (u.run env s w).2.1 (u.run env s w).2.2).1,
      (uses env us (u.run env s w).2.1 (u.run env s w).2.2).2)

/-- A settlement of an open session can take back what it posts. -/
def Use.Unwinds (s : InstanceSession) (w : World) : Use → Prop
  | .settle => s.settled = false → Retractable w.balanceOf (s.nextChunks w)
  | _ => True

def UnwindsAll (env : Env) : List Use → InstanceSession → World → Prop
  | [], _, _ => True
  | u :: us, s, w => u.Unwinds s w ∧ UnwindsAll env us (u.run env s w).2.1 (u.run env s w).2.2

/-- None of the calls records a key of the set. -/
def Avoids (keys : String → Prop) (us : List Use) : Prop :=
  ∀ request, Use.record request ∈ us → ¬ keys request.idempotencyKey

section Later

variable {refused : String → Prop} {s s' : InstanceSession} {w w' : World} {env env' : Env}

theorem Mirrored.runs (h : Mirrored refused s w s' w') (hdigest : env'.digest = env.digest) {u : Use}
    (havoid : Avoids refused [u]) (hun : u.Unwinds s w) :
    (u.run env' s' w').1 = (u.run env s w).1 ∧
      Mirrored refused (u.run env s w).2.1 (u.run env s w).2.2
        (u.run env' s' w').2.1 (u.run env' s' w').2.2 := by
  cases u with
  | record request =>
    obtain ⟨hres, hafter⟩ := h.records hdigest (havoid request (List.mem_singleton_self _))
    exact ⟨congrArg Answer.recorded hres, hafter⟩
  | flush =>
    obtain ⟨hres, hafter⟩ := h.flushes
    exact ⟨congrArg Answer.flushed hres, hafter⟩
  | settle =>
    obtain ⟨hres, hafter⟩ := h.settles hdigest hun
    exact ⟨congrArg Answer.settled hres, hafter⟩

/-- Alike sessions answer every sequence of calls alike. -/
theorem Mirrored.runsAll (h : Mirrored refused s w s' w') (hdigest : env'.digest = env.digest)
    {us : List Use} (havoid : Avoids refused us) (hun : UnwindsAll env us s w) :
    (uses env' us s' w').1 = (uses env us s w).1 ∧
      Twin (uses env us s w).2.2 (uses env' us s' w').2.2 := by
  induction us generalizing s w s' w' with
  | nil => exact ⟨rfl, h.worlds⟩
  | cons u us ih =>
    have hfirst : Avoids refused [u] := by
      intro request hm
      exact havoid request (List.mem_cons.mpr (Or.inl (List.mem_singleton.mp hm)))
    have hrest : Avoids refused us := fun request hm => havoid request (List.mem_cons_of_mem _ hm)
    obtain ⟨hres, hafter⟩ := h.runs hdigest hfirst hun.1
    obtain ⟨htail, htwin⟩ := ih hafter hrest hun.2
    exact ⟨congrArg₂ List.cons hres htail, htwin⟩

end Later

def NoSettlement (sessionId : String) (w : World) : Prop :=
  Unposted sessionId w ∧ ∀ seq, w.posted (movementTxnId sessionId seq) = false

/-- Records and flushes that lost no batch. Between them the rest of the system may move the
world, but for the session's rows, its registry and the balances the session read. -/
inductive Recording (env : Env) : InstanceSession → World → InstanceSession → World → Prop
  | done (s : InstanceSession) (w : World) : Recording env s w s w
  | record (request : MovementRequest) {s s' : InstanceSession} {w w' : World}
      (kept : (SessionCall.record request .taken).unwritten env s w = [])
      (later : Recording env (EconomyLab.record env request s w).2.1
        (EconomyLab.record env request s w).2.2 s' w') : Recording env s w s' w'
  | flush {s s' : InstanceSession} {w w' : World} (kept : (EconomyLab.flush s w).1 = .ok ())
      (later : Recording env (EconomyLab.flush s w).2.1 (EconomyLab.flush s w).2.2 s' w') :
      Recording env s w s' w'
  | outside {s s' : InstanceSession} {w w₁ w' : World} (ready : w₁.Ready)
      (rows : bySession s.sessionId w₁.movements = bySession s.sessionId w.movements)
      (registry : ∀ a, w₁.pendingOf a = w.pendingOf a)
      (read : ∀ a, s.opening.get a ≠ none → w₁.balanceOf a = w.balanceOf a)
      (unsettled : NoSettlement s.sessionId w₁)
      (later : Recording env s w₁ s' w') : Recording env s w s' w'

structure Traced (env : Env) (s : InstanceSession) : Prop where
  seqs : s.accepted.map Movement.seq = List.range s.accepted.length
  next : s.seq = s.accepted.length
  chained : verifyChain env.digest GENESIS_HEX s.accepted = .ok ()
  head : s.head = headAfter GENESIS_HEX s.accepted
  answered : ∀ m ∈ s.accepted, s.outcomes.get m.idempotencyKey = some (.accepted m.seq)

/-- An open session with a registry of its own that only recorded and flushed. -/
structure Upright (env : Env) (sessionId : String) (maxBatch : Nat) (chunkWidth : {n : Nat // 0 < n})
    (s : InstanceSession) (w : World) : Prop where
  custody : Custody s w []
  opened : s = { openInstanceSession sessionId maxBatch chunkWidth .process with
    outcomes := s.outcomes
    accepted := s.accepted
    pending := s.pending
    opening := s.opening
    head := s.head
    seq := s.seq }
  traced : Traced env s
  registry : ∀ a, w.pendingOf a = total (walletDeltas s.accepted) a
  current : Current s w
  unsettled : NoSettlement sessionId w

section Before

variable {env env' : Env} {sessionId : String} {maxBatch : Nat} {chunkWidth : {n : Nat // 0 < n}}
  {s s' : InstanceSession} {w w' : World}

theorem flush_kept (h : (flush s w).1 = .ok ()) : unwritten .taken s w = [] := by
  unfold flush at h
  unfold unwritten
  by_cases hp : s.pending = []
  · rw [hp]
    rfl
  · rw [if_neg hp] at h
    cases hm : appendMovements s.pending w.movements with
    | error e =>
      rw [hm] at h
      cases h
    | ok log => rfl

theorem record_frame (env : Env) (request : MovementRequest) (s : InstanceSession) (w : World) :
    (∃ outcomes accepted pending opening head seq, (record env request s w).2.1 = { s with
      outcomes := outcomes
      accepted := accepted
      pending := pending
      opening := opening
      head := head
      seq := seq }) ∧
      (record env request s w).2.2.ledger = w.ledger := by
  rcases record_cases env request s w with h | h
  · exact ⟨⟨_, s.accepted, s.pending, _, s.head, s.seq, h.session⟩, h.world.ledger⟩
  · obtain ⟨s₁, w₁, hs, hw, hend⟩ := h.after
    have hledger : w₁.ledger = w.ledger := by rw [hw]
    rcases hend with hend | hend
    · obtain ⟨hs', hw'⟩ := Prod.mk.inj hend
      rw [hs', hw']
      exact ⟨⟨_, _, _, _, _, _, hs⟩, hledger⟩
    · obtain ⟨⟨pending, hp⟩, log, hl⟩ := flush_frame s₁ w₁
      rw [congrArg Prod.fst hend, congrArg Prod.snd hend, hp, hl]
      refine ⟨⟨s₁.outcomes, s₁.accepted, pending, s₁.opening, s₁.head, s₁.seq, ?_⟩, hledger⟩
      rw [hs]

theorem reserve_session (legs : List Leg) (s : InstanceSession) (w : World) :
    (reserve legs s w).2.1 = { s with opening := (reserve legs s w).2.1.opening } := by
  unfold reserve
  cases requireMovementLegs legs with
  | error e => rfl
  | ok u => exact (reserveLegs_spec legs [] s w).1

theorem record_remembers (env : Env) {request : MovementRequest} {key : String} {outcome : MovementOutcome}
    (h : s.outcomes.get key = some outcome) :
    (record env request s w).2.1.outcomes.get key = some outcome := by
  unfold record
  split
  · exact h
  · cases ho : s.outcomes.get request.idempotencyKey with
    | some known => exact h
    | none =>
      have hne : key ≠ request.idempotencyKey := by
        rintro rfl
        rw [ho] at h
        cases h
      have hsession := reserve_session request.legs s w
      revert hsession
      rcases reserve request.legs s w with ⟨res, s₁, w₁⟩
      intro hsession
      dsimp only at hsession
      have hkept : s₁.outcomes.get key = some outcome := by
        rw [hsession]
        exact h
      have hset : ∀ o, (s₁.outcomes.set request.idempotencyKey o).get key = some outcome := by
        intro o
        rw [Table.get_set_of_ne _ _ hne]
        exact hkept
      cases res with
      | error e => exact hkept
      | ok verdict =>
        cases verdict with
        | some code => exact hset _
        | none =>
          obtain ⟨⟨pending, hp⟩, -⟩ := flush_frame (accept env request s₁ w₁).1
            (accept env request s₁ w₁).2
          simp only
          split
          · revert hp
            rcases flush (accept env request s₁ w₁).1 (accept env request s₁ w₁).2 with ⟨done, s₂, w₂⟩
            intro hp
            simp only at hp
            cases done with
            | error e =>
              simp only [hp]
              exact hset _
            | ok u =>
              simp only [hp]
              exact hset _
          · exact hset _

theorem backOut_taken (entries : List (AccountRef × Int)) :
    (backOut entries []).1 = true ∧ ∀ a, total (backOut entries []).2.1 a = -total entries a := by
  induction entries with
  | nil => exact ⟨rfl, fun a => by simp [backOut]⟩
  | cons p entries ih =>
    obtain ⟨hdone, htotal⟩ := ih
    unfold backOut
    simp only [nextFate]
    refine ⟨hdone, ?_⟩
    intro a
    rw [total_cons, total_cons, htotal]
    split <;> ring

theorem total_reverse (entries : List (AccountRef × Int)) (a : AccountRef) :
    total entries.reverse a = total entries a := by
  induction entries with
  | nil => rfl
  | cons p entries ih =>
    rw [List.reverse_cons, total_append, ih, total_cons, total_cons, total_nil]
    ring

theorem backOut_cancels (applied : List (AccountRef × Int)) (a : AccountRef) :
    total (applied ++ (backOut applied.reverse []).2.1) a = 0 := by
  rw [total_append, (backOut_taken applied.reverse).2, total_reverse]
  ring

/-- A registry that takes every call holds nothing of a movement that is not accepted. -/
theorem leftStanding_taken (view : AccountRef → Int) (legs : List Leg) (applied : List (AccountRef × Int))
    {left : List (AccountRef × Int)} (h : leftStanding view legs applied [] = some left)
    (a : AccountRef) : total left a = 0 := by
  induction legs generalizing applied with
  | nil => cases h
  | cons leg legs ih =>
    unfold leftStanding at h
    split at h
    · exact ih applied h
    · split at h
      · rw [← Option.some.inj h]
        exact backOut_cancels applied a
      · rename_i delta _
        simp only [nextFate] at h
        split at h
        · exact ih _ h
        · split at h
          · have hdone := (backOut_taken (applied ++ [(leg.account, delta.minor)]).reverse).1
            have hcancel := backOut_cancels (applied ++ [(leg.account, delta.minor)]) a
            rcases hb : backOut (applied ++ [(leg.account, delta.minor)]).reverse
                [] with ⟨done, calls, rest⟩
            rw [hb] at h hdone hcancel
            simp only at h hdone hcancel
            subst done
            rw [← Option.some.inj h]
            exact hcancel
          · exact ih _ h

theorem recordLeaves_taken (request : MovementRequest) (s : InstanceSession) (w : World) (a : AccountRef) :
    total (recordLeaves [] request s w) a = 0 := by
  unfold recordLeaves
  split
  · rfl
  · split
    · rfl
    · cases hl : leftStanding (fun a => openingOf s w a + w.pendingOf a) request.legs [] [] with
      | none => rfl
      | some left => exact leftStanding_taken _ _ _ hl a

/-- A record moves the registry by what it adds to the accepted movements. -/
theorem record_registry (env : Env) (request : MovementRequest) (hw : w.Ready)
    (h : ∀ a, w.pendingOf a = total (walletDeltas s.accepted) a) (a : AccountRef) :
    (record env request s w).2.2.pendingOf a =
      total (walletDeltas (record env request s w).2.1.accepted) a := by
  have hspec := (recordUnder_spec env [] request s hw).registry
  rw [recordUnder_taken] at hspec
  rcases hspec with ⟨hacc, hpend⟩ | ⟨m, hacc, -, hpend⟩
  · rw [hpend, recordLeaves_taken, hacc, h]
    ring
  · rw [hpend, hacc, walletDeltas_append, total_append, h]

theorem Traced.records (h : Traced env s) (request : MovementRequest) :
    Traced env (record env request s w).2.1 := by
  obtain ⟨hseqs, hnext, hchained, hhead, hanswered⟩ := h
  have hkeeps : ∀ m ∈ s.accepted, (record env request s w).2.1.outcomes.get m.idempotencyKey =
      some (.accepted m.seq) := fun m hm => record_remembers env (hanswered m hm)
  rcases record_cases env request s w with hu | hr
  · have hacc : (record env request s w).2.1.accepted = s.accepted := by rw [hu.session]
    have hseq : (record env request s w).2.1.seq = s.seq := by rw [hu.session]
    have hsame : (record env request s w).2.1.head = s.head := by rw [hu.session]
    refine ⟨?_, ?_, ?_, ?_, ?_⟩
    · rw [hacc]
      exact hseqs
    · rw [hacc, hseq]
      exact hnext
    · rw [hacc]
      exact hchained
    · rw [hacc, hsame]
      exact hhead
    · rw [hacc]
      exact hkeeps
  · obtain ⟨s₁, w₁, hs, -, hend⟩ := hr.after
    have hfields : (record env request s w).2.1.accepted = s.accepted ++ [nextMovement env request s w] ∧
        (record env request s w).2.1.seq = s.seq + 1 ∧
        (record env request s w).2.1.head = (nextMovement env request s w).hash ∧
        (record env request s w).2.1.outcomes =
          s.outcomes.set request.idempotencyKey (.accepted s.seq) := by
      rcases hend with hend | hend
      · rw [congrArg Prod.fst hend, hs]
        exact ⟨rfl, rfl, rfl, rfl⟩
      · obtain ⟨⟨pending, hp⟩, -⟩ := flush_frame s₁ w₁
        rw [congrArg Prod.fst hend, hp, hs]
        exact ⟨rfl, rfl, rfl, rfl⟩
    obtain ⟨hacc, hseq, hlast, houtcomes⟩ := hfields
    refine ⟨?_, ?_, ?_, ?_, ?_⟩
    · rw [hacc, List.map_append, hseqs, List.length_append, List.length_singleton, List.range_succ,
        ← hnext]
      rfl
    · rw [hacc, hseq, hnext, List.length_append]
      rfl
    · rw [hacc, verifyChain_append, ← hhead]
      exact ⟨hchained, rfl, rfl⟩
    · rw [hacc, hlast, headAfter_append]
    · intro m hm
      rw [hacc] at hm
      rcases List.mem_append.mp hm with hm | hm
      · exact hkeeps m hm
      · rw [List.mem_singleton.mp hm, houtcomes]
        exact Table.get_set_self _ _ _

theorem Traced.flushes (h : Traced env s) : Traced env (flush s w).2.1 := by
  obtain ⟨⟨pending, hp⟩, -⟩ := flush_frame s w
  rw [hp]
  exact ⟨h.seqs, h.next, h.chained, h.head, h.answered⟩

theorem Twin.refl (hw : w.Ready) : Twin w w := ⟨⟨hw, hw⟩, rfl, rfl, rfl, rfl, fun _ => rfl⟩

theorem NoSettlement.ledger (h : NoSettlement sessionId w)
    (hledger : w'.ledger = w.ledger) : NoSettlement sessionId w' := by
  have hposted := @World.posted_book w w' (congrArg MemoryLedger.book hledger)
  refine ⟨fun i => ?_, fun seq => ?_⟩
  · rw [hposted, hposted]
    exact h.1 i
  · rw [hposted]
    exact h.2 seq

theorem Upright.mirrored (h : Upright env sessionId maxBatch chunkWidth s w) :
    Mirrored (fun _ => False) s w s w := by
  refine ⟨⟨rfl, rfl, rfl, fun _ _ => rfl⟩, Twin.refl h.custody.ready, ?_, ?_⟩
  · rw [h.opened]
    rfl
  · intro _
    refine ⟨?_, ?_, h.current, h.current⟩
    · rw [h.opened]
      rfl
    · have hid : s.sessionId = sessionId := by
        rw [h.opened]
        rfl
      rw [hid]
      exact h.unsettled.1

theorem Upright.id_eq (h : Upright env sessionId maxBatch chunkWidth s w) :
    s.sessionId = sessionId := by
  rw [h.opened]
  rfl

theorem Upright.records (h : Upright env sessionId maxBatch chunkWidth s w) {request : MovementRequest}
    (hkept : (SessionCall.record request .taken).unwritten env s w = []) :
    Upright env sessionId maxBatch chunkWidth (record env request s w).2.1
      (record env request s w).2.2 := by
  obtain ⟨⟨outcomes, accepted, pending, opening, head, seq, hs⟩, hledger⟩ :=
    record_frame env request s w
  have hopened : (record env request s w).2.1 =
    { openInstanceSession sessionId maxBatch chunkWidth .process with
      outcomes := outcomes
      accepted := accepted
      pending := pending
      opening := opening
      head := head
      seq := seq } := by
    rw [hs, h.opened]
  have hcustody := @Custody.call env s w [] h.custody (.record request .taken)
  rw [hkept] at hcustody
  unfold SessionCall.after at hcustody
  simp only [recordOver_taken, List.append_nil] at hcustody
  have hmirrored : Mirrored (fun _ => False) (record env request s w).2.1 (record env request s w).2.2
      (record env request s w).2.1 (record env request s w).2.2 := (h.mirrored.records rfl (fun h => h)).2
  have hsettled : (record env request s w).2.1.settled = false := by
    rw [hopened]
    rfl
  refine ⟨hcustody, ?_, h.traced.records request,
    record_registry env request h.custody.ready h.registry, ?_, h.unsettled.ledger hledger⟩
  · rw [hopened]
  · exact (hmirrored.open_ hsettled).2.2.1

theorem Upright.flushes (h : Upright env sessionId maxBatch chunkWidth s w)
    (hkept : (flush s w).1 = .ok ()) :
    Upright env sessionId maxBatch chunkWidth (flush s w).2.1 (flush s w).2.2 := by
  obtain ⟨⟨pending, hs⟩, log, hw⟩ := flush_frame s w
  have hcustody := @Custody.call env s w [] h.custody (.flush .taken)
  have hnone : (SessionCall.flush .taken).unwritten env s w = [] := flush_kept hkept
  rw [hnone] at hcustody
  unfold SessionCall.after at hcustody
  simp only [flushUnder_taken, List.append_nil] at hcustody
  refine ⟨hcustody, ?_, h.traced.flushes, ?_, ?_, ?_⟩
  · rw [hs, h.opened]
  · rw [hs, hw]
    exact h.registry
  · rw [hs, hw]
    exact h.current
  · rw [hw]
    exact h.unsettled

theorem Upright.outside (h : Upright env sessionId maxBatch chunkWidth s w) (hw : w'.Ready)
    (hrows : bySession s.sessionId w'.movements = bySession s.sessionId w.movements)
    (hregistry : ∀ a, w'.pendingOf a = w.pendingOf a)
    (hread : ∀ a, s.opening.get a ≠ none → w'.balanceOf a = w.balanceOf a)
    (hun : NoSettlement s.sessionId w') : Upright env sessionId maxBatch chunkWidth s w' := by
  refine ⟨h.custody.outside hw hrows, h.opened, h.traced, ?_, ?_, ?_⟩
  · intro a
    rw [hregistry, h.registry]
  · intro a v ho
    rw [h.current a v ho, hread a (by rw [ho]; exact Option.some_ne_none v)]
  · rw [← h.id_eq]
    exact hun

theorem Upright.recording (h : Upright env sessionId maxBatch chunkWidth s w)
    (hrec : Recording env s w s' w') : Upright env sessionId maxBatch chunkWidth s' w' := by
  induction hrec with
  | done s w => exact h
  | record request kept later ih => exact ih (h.records kept)
  | flush kept later ih => exact ih (h.flushes kept)
  | outside ready rows registry read unsettled later ih =>
    exact ih (h.outside ready rows registry read unsettled)

theorem Upright.opens (env : Env) (sessionId : String) (maxBatch : Nat) (chunkWidth : {n : Nat // 0 < n})
    (hw : w.Ready) (hfresh : bySession sessionId w.movements = [])
    (hregistry : ∀ a, w.pendingOf a = 0) (hun : NoSettlement sessionId w) :
    Upright env sessionId maxBatch chunkWidth (openInstanceSession sessionId maxBatch chunkWidth .process)
      w := by
  refine ⟨(@Begun.opened env sessionId maxBatch chunkWidth .process w hw hfresh).custody, rfl,
    ?_, ?_, ?_, hun⟩
  · exact ⟨rfl, rfl, rfl, rfl, fun m hm => absurd hm List.not_mem_nil⟩
  · exact hregistry
  · intro a v ho
    cases ho

end Before

section Recovering

variable {env env' : Env} {sessionId : String} {maxBatch : Nat} {chunkWidth : {n : Nat // 0 < n}}
  {s : InstanceSession} {w : World}

/-- What a process without reservations of its own finds. -/
def World.fresh (w : World) (ticks : Nat) : World := { w with reservations := Table.empty, ticks := ticks }

theorem World.Ready.fresh (hw : w.Ready) (ticks : Nat) : (w.fresh ticks).Ready := by
  obtain ⟨h1, h2, h3, h4, h5, h6, h7, h8, h9, h10⟩ := hw.closed
  exact ⟨⟨h1, h2, h3, h4, h5, h6, h7, h8, h9, h10⟩, hw.honest⟩

/-- What a rebuild into a fresh session object makes of the rows. -/
structure Rebuilt (movements : List Movement) (s₀ : InstanceSession) (w₀ : World) (r : InstanceSession)
    (w : World) : Prop where
  session : r = { s₀ with
    outcomes := r.outcomes
    accepted := movements
    head := headAfter GENESIS_HEX movements
    seq := (movements.getLast?.map fun m => m.seq + 1).getD 0 }
  outcomes : ∀ key outcome, r.outcomes.get key = some outcome →
    ∃ m ∈ movements, m.idempotencyKey = key ∧ outcome = .accepted m.seq
  answered : ∀ m ∈ movements, r.outcomes.get m.idempotencyKey ≠ none
  world : w₀.Reserves w
  pending : ∀ a, w.pendingOf a = w₀.pendingOf a + total (walletDeltas movements) a

theorem rebuild_rebuilt (sessionId : String) (maxBatch : Nat) (chunkWidth : {n : Nat // 0 < n})
    (movements : List Movement) (w : World) :
    Rebuilt movements (openInstanceSession sessionId maxBatch chunkWidth .process) w
      (rebuild movements (openInstanceSession sessionId maxBatch chunkWidth .process) w).1
      (rebuild movements (openInstanceSession sessionId maxBatch chunkWidth .process) w).2 := by
  induction movements using List.reverseRecOn with
  | nil =>
    refine ⟨rfl, ?_, ?_, World.Reserves.refl w, ?_⟩
    · intro key outcome ho
      cases ho
    · exact fun m hm => absurd hm List.not_mem_nil
    · intro a
      exact (add_zero _).symm
  | append_singleton movements m ih =>
    have hstep : rebuild (movements ++ [m]) (openInstanceSession sessionId maxBatch chunkWidth .process)
      w =
        rebuild [m] (rebuild movements (openInstanceSession sessionId maxBatch chunkWidth .process) w).1
          (rebuild movements (openInstanceSession sessionId maxBatch chunkWidth .process) w).2 := by
      simp only [rebuild, List.foldl_append]
    rw [hstep]
    revert ih
    rcases rebuild movements (openInstanceSession sessionId maxBatch chunkWidth .process) w with ⟨r, w₁⟩
    rintro ⟨hsession, houtcomes, hanswered, hworld, hpending⟩
    dsimp only at hsession houtcomes hanswered hworld hpending
    have hfold := foldl_addReservation (walletDeltas [m]) 1 w₁
    simp only [one_mul] at hfold
    obtain ⟨hres, hadded⟩ := hfold
    have hscope : r.scope = .process := by
      rw [hsession]
      rfl
    have hone : rebuild [m] r w₁ = ({ r with
        accepted := r.accepted ++ [m]
        outcomes := r.outcomes.set m.idempotencyKey (.accepted m.seq)
        head := m.hash
        seq := m.seq + 1 }, (walletDeltas [m]).foldl (fun w q => w.addReservation q.1 q.2) w₁) := by
      simp only [rebuild, List.foldl_cons, List.foldl_nil, hscope]
    rw [hone]
    refine ⟨?_, ?_, ?_, hworld.trans hres, ?_⟩
    · rw [hsession, headAfter_append, List.getLast?_concat]
      rfl
    · intro key outcome ho
      dsimp only at ho
      by_cases hk : key = m.idempotencyKey
      · subst hk
        rw [Table.get_set_self] at ho
        exact ⟨m, List.mem_append_right _ (List.mem_singleton_self m), rfl, (Option.some.inj ho).symm⟩
      · rw [Table.get_set_of_ne _ _ hk] at ho
        obtain ⟨m', hm', heq⟩ := houtcomes key outcome ho
        exact ⟨m', List.mem_append_left _ hm', heq⟩
    · intro m' hm'
      dsimp only
      by_cases hk : m'.idempotencyKey = m.idempotencyKey
      · rw [hk, Table.get_set_self]
        exact Option.some_ne_none _
      · rw [Table.get_set_of_ne _ _ hk]
        rcases List.mem_append.mp hm' with hm' | hm'
        · exact hanswered m' hm'
        · exact absurd (congrArg Movement.idempotencyKey (List.mem_singleton.mp hm')) hk
    · intro a
      rw [hadded, hpending, walletDeltas_append, total_append]
      ring

theorem probeSettlement_none (h : NoSettlement s.sessionId w) : probeSettlement s w = s := by
  unfold probeSettlement
  rw [if_neg, if_neg, if_neg]
  · rw [(h.1 0).1]
    exact Bool.false_ne_true
  · rw [List.any_eq_true]
    rintro ⟨m, -, hm⟩
    rw [h.2] at hm
    cases hm
  · rw [List.any_eq_true]
    rintro ⟨i, -, hi⟩
    rw [(h.1 i).2] at hi
    cases hi

theorem Traced.position (h : Traced env s) :
    (s.accepted.getLast?.map fun m => m.seq + 1).getD 0 = s.seq := by
  have hseqs := h.seqs
  rw [h.next]
  rcases List.eq_nil_or_concat s.accepted with hnil | ⟨ms, m, hacc⟩
  · rw [hnil]
    rfl
  · rw [List.concat_eq_append] at hacc
    rw [hacc, List.map_append, List.length_append, List.length_singleton, List.range_succ] at hseqs
    have hlast := (List.append_inj' hseqs rfl).2
    rw [hacc, List.getLast?_concat, List.length_append]
    simpa using hlast

def InstanceSession.refuses (s : InstanceSession) (key : String) : Prop :=
  ∃ reason, s.outcomes.get key = some (.rejected reason)

theorem Upright.recovers (h : Upright env sessionId maxBatch chunkWidth s w)
    (hdigest : env'.digest = env.digest) (hflushed : s.pending = []) (ticks : Nat) :
    ∃ r w', recoverSession env' sessionId maxBatch chunkWidth .process (w.fresh ticks) = (.ok r, w') ∧
      Rebuilt s.accepted (openInstanceSession sessionId maxBatch chunkWidth .process)
        (w.fresh ticks) r w' ∧
      Mirrored s.refuses s w r w' := by
  have hrows : bySession sessionId w.movements = s.accepted := by
    have hstanding := (h.custody.unlost_iff.mpr rfl).standing
    rw [h.id_eq, hflushed, List.append_nil] at hstanding
    exact hstanding
  have hjournal : journal env' sessionId (w.fresh ticks) = .ok s.accepted := by
    have hread : bySession sessionId (w.fresh ticks).movements = s.accepted := hrows
    unfold journal
    simp only [hread, hdigest, h.traced.chained]
    rfl
  have hrebuilt := rebuild_rebuilt sessionId maxBatch chunkWidth s.accepted (w.fresh ticks)
  unfold recoverSession
  simp only [hjournal]
  rcases hr : rebuild s.accepted (openInstanceSession sessionId maxBatch chunkWidth .process)
    (w.fresh ticks) with ⟨r, w'⟩
  rw [hr] at hrebuilt
  dsimp only at hrebuilt ⊢
  have hunsettled : NoSettlement sessionId w' := h.unsettled.ledger hrebuilt.world.ledger
  have hid : r.sessionId = sessionId := by
    rw [hrebuilt.session]
    rfl
  have hprobe : probeSettlement r w' = r := by
    apply probeSettlement_none
    rw [hid]
    exact hunsettled
  have hacc : r.accepted = s.accepted := by rw [hrebuilt.session]
  have hpend : r.pending = s.pending := by
    rw [hrebuilt.session, hflushed]
    rfl
  rw [hprobe]
  refine ⟨r, w', rfl, hrebuilt, ⟨?_, ?_, ?_, ?_⟩, ?_, ?_, ?_⟩
  · rw [hrebuilt.session, h.traced.position, ← h.traced.head]
    rw [h.opened]
  · rw [hacc]
  · rw [hpend]
  · intro key hkey
    cases ho : r.outcomes.get key with
    | some outcome =>
      obtain ⟨m, hm, rfl, rfl⟩ := hrebuilt.outcomes key outcome ho
      exact (h.traced.answered m hm).symm
    | none =>
      cases hlive : s.outcomes.get key with
      | none => rfl
      | some outcome =>
        cases outcome with
        | rejected reason => exact absurd ⟨reason, hlive⟩ hkey
        | accepted seq =>
          obtain ⟨m, hm, rfl, -⟩ := h.custody.reported key seq hlive
          exact absurd ho (hrebuilt.answered m hm)
  · refine ⟨⟨h.custody.ready, hrebuilt.world.ready (h.custody.ready.fresh ticks)⟩, ?_, ?_, ?_, ?_, ?_⟩
    · rw [hrebuilt.world.ledger]
      rfl
    · rw [hrebuilt.world.ledger]
      rfl
    · rw [hrebuilt.world.ledger]
      rfl
    · rw [hrebuilt.world.movements]
      rfl
    · intro a
      rw [hrebuilt.pending, h.registry]
      exact zero_add _
  · rw [h.opened]
    rfl
  · intro _
    refine ⟨?_, ?_, h.current, ?_⟩
    · rw [h.opened]
      rfl
    · rw [h.id_eq]
      exact h.unsettled.1
    · intro a v ho
      rw [hrebuilt.session] at ho
      cases ho

end Recovering

/-- A session that only recorded and flushed is recovered with its head, position, accepted outcomes
and reservations. Later calls get the same answers and leave the same rows and postings but for
their dates, so long as each settlement can take back what it posts. -/
theorem recovery_is_faithful {env env' : Env} {sessionId : String} {maxBatch : Nat}
    {chunkWidth : {n : Nat // 0 < n}} {w₀ w : World} {s : InstanceSession}
    (hdigest : env'.digest = env.digest) (hready : w₀.Ready)
    (hfresh : bySession sessionId w₀.movements = []) (hregistry : ∀ a, w₀.pendingOf a = 0)
    (hun : NoSettlement sessionId w₀)
    (hrec : Recording env (openInstanceSession sessionId maxBatch chunkWidth .process) w₀ s w)
    (hflushed : s.pending = []) (ticks : Nat) :
    ∃ r w', recoverSession env' sessionId maxBatch chunkWidth .process (w.fresh ticks) = (.ok r, w') ∧
      r.head = s.head ∧ r.seq = s.seq ∧
      (∀ key seq, r.outcomes.get key = some (.accepted seq) ↔ s.outcomes.get key = some (.accepted seq)) ∧
      (∀ a, w'.pendingOf a = w.pendingOf a) ∧
      ∀ us, Avoids s.refuses us → UnwindsAll env us s w →
        (uses env' us r w').1 = (uses env us s w).1 ∧
        undated (uses env' us r w').2.2.movements = undated (uses env us s w).2.2.movements ∧
        (uses env' us r w').2.2.ledger.tables.log.map StoredPosting.undated =
          (uses env us s w).2.2.ledger.tables.log.map StoredPosting.undated := by
  have hupright := (Upright.opens env sessionId maxBatch chunkWidth hready hfresh hregistry hun).recording
    hrec
  obtain ⟨r, w', hfound, hrebuilt, hmirrored⟩ := hupright.recovers hdigest hflushed ticks
  have hsame := hmirrored.sessions.same
  refine ⟨r, w', hfound, ?_, ?_, ?_, hmirrored.worlds.pending, ?_⟩
  · rw [hsame]
  · rw [hsame]
  · intro key seq
    constructor
    · intro ho
      obtain ⟨m, hm, rfl, hseq⟩ := hrebuilt.outcomes key _ ho
      rw [hseq]
      exact hupright.traced.answered m hm
    · intro ho
      rw [hmirrored.sessions.outcomes key ?_]
      · exact ho
      · rintro ⟨reason, hr⟩
        rw [ho] at hr
        cases hr
  · intro us havoid hunwinds
    obtain ⟨hanswers, htwin⟩ := hmirrored.runsAll hdigest havoid hunwinds
    exact ⟨hanswers, htwin.movements, htwin.log⟩

/-! ## Ten there and five back, and a chunk that stands -/

theorem fundedPayer_unsettled (sessionId : String) : NoSettlement sessionId (fundedPayer outageEnv) := by
  have hlog : (fundedPayer outageEnv).ledger.tables.log.map StoredPosting.txnId = ["txn_1"] := by
    decide +kernel
  have hposted : ∀ {txnId : String}, txnId.toList.head? ≠ some 't' →
      (fundedPayer outageEnv).posted txnId = false := by
    intro txnId hne
    apply World.posted_eq_false
    rw [hlog, List.mem_singleton]
    rintro rfl
    exact hne (by decide)
  refine ⟨fun i => ⟨?_, ?_⟩, fun seq => ?_⟩
  · apply hposted
    rw [head?_chunkTxnId]
    decide
  · apply hposted
    rw [head?_compTxnId]
    decide
  · apply hposted
    rw [head?_movementTxnId]
    decide

theorem settle_unwinds {s : InstanceSession} {w : World} (h : (s.nextChunks w).length ≤ 1) :
    Use.settle.Unwinds s w := by
  intro _
  match hc : s.nextChunks w with
  | [] => trivial
  | [chunk] => exact fun _ => ⟨fun hrest => absurd trivial hrest, trivial⟩
  | _ :: _ :: _ =>
    rw [hc] at h
    exact absurd h (by simp)

def fiveFrom (key payer payee : String) : MovementRequest :=
  ⟨key, [⟨spendable payer, ⟨.credit, 5, .five⟩⟩, ⟨spendable payee, ⟨.credit, -5, .neg_five⟩⟩]⟩

def narrow : InstanceSession := openInstanceSession "ses_1" 64 ⟨5, by decide⟩ .process

def tenFlushed : InstanceSession × World :=
  (uses outageEnv [.record (tenFromTo "mv_1" "usr_a" "usr_b"), .flush] narrow (fundedPayer outageEnv)).2

theorem tenFlushed_recording :
    Recording outageEnv narrow (fundedPayer outageEnv) tenFlushed.1 tenFlushed.2 :=
  .record _ (by decide +kernel) (.flush (by decide +kernel) (.done _ _))

theorem tenFlushed_unwinds :
    UnwindsAll outageEnv [.record (fiveFrom "mv_2" "usr_b" "usr_a"), .flush, .settle] tenFlushed.1
      tenFlushed.2 := by
  simp only [UnwindsAll, and_true]
  refine ⟨trivial, trivial, ?_⟩
  apply settle_unwinds
  decide +kernel

/-- A movement recorded before the recovery, one after it, and one chunk for both. -/
theorem recovered_session_settles :
    let later : List Use := [.record (fiveFrom "mv_2" "usr_b" "usr_a"), .flush, .settle]
    ∃ r w', recoverSession outageEnv "ses_1" 64 ⟨5, by decide⟩ .process (tenFlushed.2.fresh 7) =
        (.ok r, w') ∧ (uses outageEnv later r w').1 =
        (uses outageEnv later tenFlushed.1 tenFlushed.2).1 := by
  intro later
  obtain ⟨r, w', hfound, -, -, -, -, hlater⟩ := recovery_is_faithful rfl (fundedPayer_ready outageEnv) rfl
    (fun _ => rfl) (fundedPayer_unsettled "ses_1") tenFlushed_recording (by decide +kernel) 7
  refine ⟨r, w', hfound, (hlater later ?_ tenFlushed_unwinds).1⟩
  intro request hm
  have hkey : request.idempotencyKey = "mv_2" := by
    simp only [later, List.mem_cons, Use.record.injEq, List.not_mem_nil, reduceCtorEq, or_false] at hm
    rw [hm]
    rfl
  have hnone : tenFlushed.1.outcomes.get "mv_2" = none := by decide +kernel
  rintro ⟨reason, hreason⟩
  rw [hkey, hnone] at hreason
  cases hreason

/-- A movement whose `STORED_VALUE` leg has no negative among the 64-bit amounts. -/
def lowest : MovementRequest :=
  ⟨"mv_1", [⟨SYSTEM.STORED_VALUE, ⟨.credit, -2 ^ 63, by decide⟩⟩,
    ⟨SYSTEM.OPENING_EQUITY, ⟨.credit, 2 ^ 62, by
      decide⟩⟩, ⟨SYSTEM.RECEIVABLE, ⟨.credit, 2 ^ 62, by decide⟩⟩]⟩

/-- A movement between accounts the ledger does not know. -/
def astray : MovementRequest :=
  ⟨"mv_3", [⟨"nowhere", ⟨.credit, 1, .one⟩⟩, ⟨"nobody", ⟨.credit, -1, .neg_one⟩⟩]⟩

def strandedFlushed : InstanceSession × World :=
  (uses outageEnv [.record lowest, .record (fiveFrom "mv_2" "usr_a" "usr_b"), .record astray,
    .flush] narrow
    (fundedPayer outageEnv)).2

/-- The second chunk is refused and the first cannot be taken back: settling fails on either side, and
the payer's next five pass where the balance is remembered and not where it is read. -/
theorem stranded_chunk_parts_recovery :
    let later : List Use := [.settle, .record (fiveFrom "mv_4" "usr_a" "usr_b")]
    (fundedPayer outageEnv).Ready ∧ NoSettlement "ses_1" (fundedPayer outageEnv) ∧
    Recording outageEnv narrow (fundedPayer outageEnv) strandedFlushed.1 strandedFlushed.2 ∧
    strandedFlushed.1.pending = [] ∧ Avoids strandedFlushed.1.refuses later ∧
    ¬ ∃ r w', recoverSession outageEnv "ses_1" 64 ⟨5, by decide⟩ .process (strandedFlushed.2.fresh 0) =
      (.ok r, w') ∧ (uses outageEnv later r w').1 =
      (uses outageEnv later strandedFlushed.1 strandedFlushed.2).1 := by
  intro later
  refine ⟨fundedPayer_ready outageEnv, fundedPayer_unsettled "ses_1",
    .record _ (by decide +kernel) (.record _ (by decide +kernel) (.record _ (by decide +kernel)
      (.flush (by decide +kernel) (.done _ _)))), by decide +kernel, ?_, ?_⟩
  · intro request hm
    have hkey : request.idempotencyKey = "mv_4" := by
      simp only [later, List.mem_cons, Use.record.injEq, List.not_mem_nil, reduceCtorEq, or_false,
        false_or] at hm
      rw [hm]
      rfl
    have hnone : strandedFlushed.1.outcomes.get "mv_4" = none := by decide +kernel
    rintro ⟨reason, hreason⟩
    rw [hkey, hnone] at hreason
    cases hreason
  · rintro ⟨r, w', hfound, hsame⟩
    have hparted : ((recoverSession outageEnv "ses_1" 64 ⟨5, by decide⟩ .process
        (strandedFlushed.2.fresh 0)).1.toOption.all fun r => decide ((uses outageEnv later r
          (recoverSession outageEnv "ses_1" 64 ⟨5, by decide⟩ .process (strandedFlushed.2.fresh 0)).2).1 =
            (uses outageEnv later strandedFlushed.1 strandedFlushed.2).1)) = false := by decide +kernel
    rw [hfound] at hparted
    exact of_decide_eq_false hparted hsame

end EconomyLab
