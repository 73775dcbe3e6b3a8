import EconomyLab.Netting.Closing
import EconomyLab.Netting.Concurrent
import EconomyLab.Netting.Reserving

/-!
# What leaks from a shared registry

Sessions of any number of nodes share one registry. Its totals differ from what the accepted
and unsettled movements reserve by what calls left standing: a run in which no step leaves a
net credit behind never grants headroom that does not exist.
-/

namespace EconomyLab

open Foundation

/-! ## The nodes and their registry -/

/-- The session objects over their store. `held` records the movements accepted so far that were
neither lost with a node nor settled. -/
structure Pool where
  world : World
  settlers : List Settler
  held : List Movement

inductive PoolEvent
  | opens (sessionId : String) (maxBatch : Nat) (width : {n : Nat // 0 < n})
  | recover (sessionId : String) (maxBatch : Nat) (width : {n : Nat // 0 < n})
  | record (index : Nat) (request : MovementRequest) (fates : List CallFate)
  | flush (index : Nat)
  | call (index : Nat)
  | advance (index : Nat) (fate : Fate)
  | loses (index : Nat)
  | crash (index : Nat)
  | post (posting : Posting)

namespace Settler

/-- The step takes the settlement past its postings and past the claim: its movements are settled. -/
def settles (t : Settler) (fate : Fate) : Bool :=
  match t.phase with
  | .netting [] _ => t.session.released || t.session.scope = .process
  | .replaying [] _ _ => t.session.released || t.session.scope = .process
  | .claiming _ => fate = .proceed
  | _ => false

/-- What the settlement releases: what its own session object accepted, where it wins the claim. -/
def releasing (t : Settler) (w : World) : List (AccountRef × Int) :=
  match t.phase with
  | .claiming _ => if w.claimed t.session.sessionId then [] else walletDeltas t.session.accepted
  | _ => if t.session.released then [] else walletDeltas t.session.accepted

/-- The legs a release still has to take back. -/
def outstanding (t : Settler) : List (AccountRef × Int) :=
  match t.phase with
  | .releasing rest _ => rest
  | _ => []

/-- A release call took effect and its answer was lost. -/
def loses (t : Settler) (w : World) : Settler × World :=
  match t.phase with
  | .releasing ((account, delta) :: _) _ => (t.at_ .idle, w.addReservation account (-delta))
  | _ => (t, w)

end Settler

namespace Pool

def put (index : Nat) (t : Settler) (w : World) (σ : Pool) : Pool :=
  { σ with world := w, settlers := σ.settlers.set index t }

/-- The movements that die with a node: it accepted them, no row has them and no other node. -/
def lost (index : Nat) (t : Settler) (σ : Pool) : List Movement :=
  σ.held.filter fun m => m ∈ t.session.accepted && m ∉ σ.world.movements &&
    (σ.settlers.eraseIdx index).all fun other => m ∉ other.session.accepted

def step (env : Env) (σ : Pool) : PoolEvent → Pool
  | .opens sessionId maxBatch width =>
    { σ with
      settlers := σ.settlers ++ [⟨openInstanceSession sessionId maxBatch width .shared, [], .idle⟩] }
  | .recover sessionId maxBatch width =>
    match recoverSession env sessionId maxBatch width .shared σ.world with
    | (.error _, w) => { σ with world := w }
    | (.ok s, w) => { σ with world := w, settlers := σ.settlers ++ [⟨s, [], .idle⟩] }
  | .record index request fates =>
    match σ.settlers[index]? with
    | none => σ
    | some t =>
      match t.phase with
      | .idle =>
        let (_, s, w) := recordUnder env fates request t.session σ.world
        { σ.put index { t with session := s } w with
          held := σ.held ++ s.accepted.drop t.session.accepted.length }
      | _ => σ
  | .flush index =>
    match σ.settlers[index]? with
    | none => σ
    | some t =>
      match t.phase with
      | .idle =>
        let (_, s, w) := EconomyLab.flush t.session σ.world
        σ.put index { t with session := s } w
      | _ => σ
  | .call index =>
    match σ.settlers[index]? with
    | none => σ
    | some t =>
      match t.phase with
      | .idle => σ.put index (t.call env σ.world).1.1 (t.call env σ.world).2
      | _ => σ
  | .advance index fate =>
    match σ.settlers[index]? with
    | none => σ
    | some t =>
      { σ.put index (t.advance env fate σ.world).1.1 (t.advance env fate σ.world).2 with
        held := if t.settles fate then σ.held.filter (·.sessionId ≠ t.session.sessionId) else σ.held }
  | .loses index =>
    match σ.settlers[index]? with
    | none => σ
    | some t => σ.put index (t.loses σ.world).1 (t.loses σ.world).2
  | .crash index =>
    match σ.settlers[index]? with
    | none => σ
    | some t =>
      { σ with settlers := σ.settlers.eraseIdx index, held := σ.held.filter (· ∉ σ.lost index t) }
  | .post posting => { σ with world := (transaction (Txn.postEntry env posting) σ.world).2 }

def run (env : Env) (σ : Pool) (events : List PoolEvent) : Pool := events.foldl (step env) σ

/-- The natural deltas of the movements still accepted and unsettled; a release in progress counts
for the legs it has not taken back. -/
def unsettled (σ : Pool) (a : AccountRef) : Int :=
  total (walletDeltas σ.held) a + (σ.settlers.map fun t => t.phase.owes a).sum

/-- What a step leaves in the registry that no accepted and unsettled movement accounts for. -/
def leaves (σ : Pool) (e : PoolEvent) (a : AccountRef) : Int :=
  match e with
  | .record index request fates =>
    match σ.settlers[index]? with
    | none => 0
    | some t =>
      match t.phase with
      | .idle => total (recordLeaves fates request t.session σ.world) a
      | _ => 0
  | .advance index fate =>
    match σ.settlers[index]? with
    | none => 0
    | some t =>
      if t.settles fate then
        -- what the session's movements hold and the release does not take back
        total (walletDeltas (σ.held.filter (·.sessionId = t.session.sessionId))) a -
          total (t.releasing σ.world) a
      else if fate = .storeError then total t.outstanding a else 0
  | .loses index =>
    match σ.settlers[index]? with
    | none => 0
    | some t => total t.outstanding.tail a
  | .crash index =>
    match σ.settlers[index]? with
    | none => 0
    | some t => total (walletDeltas (σ.lost index t)) a + total t.outstanding a
  | _ => 0

def LeavesNoCredit (σ : Pool) (e : PoolEvent) : Prop := ∀ a, σ.leaves e a ≤ 0

/-- The registry's total never exceeds what is accepted and unsettled. -/
def Conservative (σ : Pool) : Prop := ∀ a, σ.world.pendingOf a ≤ σ.unsettled a

end Pool

section Drift

variable {env : Env} {w : World} {σ : Pool} {t : Settler} {index : Nat}

theorem walletDeltas_append (ms ms' : List Movement) :
    walletDeltas (ms ++ ms') = walletDeltas ms ++ walletDeltas ms' := by
  simp [walletDeltas]

theorem total_filter_split (p : Movement → Bool) (ms : List Movement) (a : AccountRef) :
    total (walletDeltas (ms.filter p)) a + total (walletDeltas (ms.filter fun m => !p m)) a =
      total (walletDeltas ms) a := by
  induction ms with
  | nil => rfl
  | cons m ms ih =>
    have hcons : ∀ ms, walletDeltas (m :: ms) = walletDeltas [m] ++ walletDeltas ms :=
      fun ms => walletDeltas_append [m] ms
    cases hp : p m with
    | true =>
      simp only [List.filter_cons, hp, if_true, Bool.not_true, Bool.false_eq_true, if_false]
      rw [hcons, hcons ms, total_append, total_append]
      omega
    | false =>
      simp only [List.filter_cons, hp, if_true, Bool.not_false, Bool.false_eq_true, if_false]
      rw [hcons, hcons ms, total_append, total_append]
      omega

theorem sum_eraseIdx (f : Settler → Int) {settlers : List Settler} (hi : settlers[index]? = some t) :
    ((settlers.eraseIdx index).map f).sum = (settlers.map f).sum - f t := by
  induction settlers generalizing index with
  | nil => simp at hi
  | cons x settlers ih =>
    cases index with
    | zero =>
      simp only [List.getElem?_cons_zero, Option.some.injEq] at hi
      subst hi
      simp
    | succ index =>
      simp only [List.getElem?_cons_succ] at hi
      simp only [List.eraseIdx_cons_succ, List.map_cons, List.sum_cons, ih hi]
      ring

theorem pendingOf_congr {w w' : World} (h : w'.reservations = w.reservations) (a : AccountRef) :
    w'.pendingOf a = w.pendingOf a := by
  unfold World.pendingOf
  rw [h]

structure Settler.Pays (t : Settler) (w : World) (fate : Fate) (after : Settler × World) : Prop where
  ready : after.2.Ready
  pending : ∀ a, after.2.pendingOf a - after.1.phase.owes a = w.pendingOf a - t.phase.owes a +
    if t.settles fate then -total (t.releasing w) a
    else if fate = .storeError then total t.outstanding a else 0

variable {t' : Settler} {w' : World}

theorem Settler.Pays.still {fate : Fate} (hready : w'.Ready)
    (hres : w'.reservations = w.reservations) (howes : ∀ a, t'.phase.owes a = t.phase.owes a)
    (hset : t.settles fate = false) (hout : t.outstanding = []) : t.Pays w fate (t', w') := by
  refine ⟨hready, ?_⟩
  intro a
  rw [pendingOf_congr hres, howes, hset, hout]
  simp

theorem Settler.release_pays (hw : w.Ready) (fate : Fate) (report : SettleReport)
    (hsettles : t.settles fate = (t.session.released || t.session.scope = .process))
    (hreleasing : t.releasing w = if t.session.released then [] else walletDeltas t.session.accepted)
    (howes : ∀ a, t.phase.owes a = 0) (hout : t.outstanding = []) :
    t.Pays w fate ((t.release report).1, w) := by
  refine ⟨hw, ?_⟩
  intro a
  unfold Settler.release
  rw [howes, hsettles, hreleasing, hout]
  cases hrel : t.session.released with
  | true => simp [Settler.finish, Phase.owes]
  | false =>
    cases hscope : t.session.scope with
    | process => simp [Settler.at_, Phase.owes, sub_eq_add_neg]
    | shared => simp [Settler.at_, Phase.owes]

theorem Settler.advance_pays (env : Env) (t : Settler) (hw : w.Ready) (fate : Fate) :
    t.Pays w fate ((t.advance env fate w).1.1, (t.advance env fate w).2) := by
  unfold Settler.advance
  cases hp : t.phase with
  | idle =>
    exact Settler.Pays.still hw rfl (fun _ => rfl) (by simp [settles, hp]) (by simp [outstanding, hp])
  | netting rest posted =>
    have howes : ∀ a, t.phase.owes a = 0 := by simp [hp, Phase.owes]
    have hout : t.outstanding = [] := by simp [outstanding, hp]
    cases rest with
    | nil =>
      exact Settler.release_pays hw fate _ (by simp [settles, hp]) (by simp [releasing, hp]) howes hout
    | cons c rest =>
      obtain ⟨chunk, i⟩ := c
      have hset : t.settles fate = false := by simp [settles, hp]
      have hattempt := attempt_grows hw
        (postChunk_grows env t.session.sessionId t.shape chunk i false hw).1 fate
      simp only
      rcases hr : Settler.attempt fate (postChunk env t.session.sessionId t.shape chunk i false) w with
        ⟨res, w'⟩
      rw [hr] at hattempt
      cases res <;> exact Settler.Pays.still hattempt.ready hattempt.reservations
        (fun a => (howes a).symm) hset hout
  | compensating todo =>
    have howes : ∀ a, t.phase.owes a = 0 := by simp [hp, Phase.owes]
    have hout : t.outstanding = [] := by simp [outstanding, hp]
    have hset : t.settles fate = false := by simp [settles, hp]
    cases todo with
    | nil => exact Settler.Pays.still hw rfl (fun a => (howes a).symm) hset hout
    | cons i todo =>
      have hattempt := attempt_grows hw
        (postChunk_grows env t.session.sessionId t.shape (t.chunks.getD i []) i true hw).1 fate
      simp only
      rcases hr : Settler.attempt fate
        (postChunk env t.session.sessionId t.shape (t.chunks.getD i []) i true) w with ⟨res, w'⟩
      rw [hr] at hattempt
      cases res <;> exact Settler.Pays.still hattempt.ready hattempt.reservations
        (fun a => (howes a).symm) hset hout
  | replaying rest postings rejected =>
    have howes : ∀ a, t.phase.owes a = 0 := by simp [hp, Phase.owes]
    have hout : t.outstanding = [] := by simp [outstanding, hp]
    cases rest with
    | nil =>
      exact Settler.release_pays hw fate _ (by simp [settles, hp]) (by simp [releasing, hp]) howes hout
    | cons m rest =>
      have hset : t.settles fate = false := by simp [settles, hp]
      have hattempt := attempt_grows hw
        (transaction_postOnce_grows env (replayPosting t.session.sessionId t.head m) hw).1 fate
      simp only
      rcases hr : Settler.attempt fate
        (transaction (postOnce env (replayPosting t.session.sessionId t.head m))) w with ⟨res, w'⟩
      rw [hr] at hattempt
      cases res <;> exact Settler.Pays.still hattempt.ready hattempt.reservations
        (fun a => (howes a).symm) hset hout
  | claiming report =>
    have howes : ∀ a, t.phase.owes a = 0 := by simp [hp, Phase.owes]
    have hout : t.outstanding = [] := by simp [outstanding, hp]
    cases fate with
    | storeError =>
      exact Settler.Pays.still hw rfl (fun a => (howes a).symm) (by simp [settles, hp]) hout
    | proceed =>
      have hset : t.settles .proceed = true := by simp [settles, hp]
      simp only [Settler.attempt]
      rcases claimRelease_cases env t.session.sessionId hw with
        ⟨txn, w', hk, htr, hsame, hready⟩ | ⟨hk, txn, w', htr, hready, -, -, hresv, -⟩
      · have hclaimed : w.claimed t.session.sessionId = true := by simp [World.claimed, hk]
        rw [htr]
        refine ⟨hready, ?_⟩
        intro a
        rw [pendingOf_congr hsame.reservations, howes, hset]
        simp [releasing, hp, hclaimed, Settler.released, Settler.finish, Phase.owes]
      · have hfree : w.claimed t.session.sessionId = false := by simp [World.claimed, hk]
        rw [htr]
        refine ⟨hready, ?_⟩
        intro a
        rw [pendingOf_congr hresv, howes, hset]
        simp [releasing, hp, hfree, Settler.at_, Phase.owes, sub_eq_add_neg]
  | releasing rest report =>
    have hset : t.settles fate = false := by simp [settles, hp]
    cases rest with
    | nil =>
      apply Settler.Pays.still hw rfl _ hset (by simp [outstanding, hp])
      intro a
      rw [hp]
      rfl
    | cons q rest =>
      obtain ⟨account, delta⟩ := q
      cases fate with
      | storeError =>
        refine ⟨hw, ?_⟩
        intro a
        simp [hset, outstanding, hp, Phase.owes, Settler.at_]
      | proceed =>
        refine ⟨(w.addReservation_reserves account (-delta)).ready hw, ?_⟩
        intro a
        simp only [hset, hp, Phase.owes, Settler.at_, World.pendingOf_addReservation, total_cons]
        split
        · simp
          ring
        · simp

/-! ## Steps of the nodes -/

structure Pool.Drifts (σ σ' : Pool) (left : AccountRef → Int) : Prop where
  ready : σ'.world.Ready
  drift : ∀ a, σ'.world.pendingOf a - σ'.unsettled a = σ.world.pendingOf a - σ.unsettled a + left a

theorem Pool.Drifts.refl (hw : σ.world.Ready) : σ.Drifts σ fun _ => 0 := ⟨hw, by simp⟩

theorem Pool.put_unsettled (hi : σ.settlers[index]? = some t) (t' : Settler) (w : World)
    (held : List Movement) (a : AccountRef) :
    ({ σ.put index t' w with held := held } : Pool).unsettled a =
      total (walletDeltas held) a +
        ((σ.settlers.map fun t => t.phase.owes a).sum - t.phase.owes a + t'.phase.owes a) := by
  unfold Pool.unsettled Pool.put
  simp only
  rw [sum_map_set (fun t : Settler => t.phase.owes a) hi]

theorem Pool.Drifts.idle (hi : σ.settlers[index]? = some t)
    (hready : w'.Ready) (howes : ∀ a, t'.phase.owes a = t.phase.owes a) {held : List Movement}
    {left : AccountRef → Int}
    (hpend : ∀ a, w'.pendingOf a + total (walletDeltas σ.held) a =
      σ.world.pendingOf a + total (walletDeltas held) a + left a) :
    σ.Drifts { σ.put index t' w' with held := held } left := by
  refine ⟨hready, ?_⟩
  intro a
  have hp := hpend a
  rw [Pool.put_unsettled hi, howes]
  unfold Pool.unsettled
  simp only [Pool.put]
  omega

theorem Pool.Drifts.none (hw : σ.world.Ready) {σ' : Pool} {left : AccountRef → Int} (hσ : σ' = σ)
    (hleft : ∀ a, left a = 0) : σ.Drifts σ' left := by
  subst hσ
  exact ⟨hw, fun a => by rw [hleft, add_zero]⟩

theorem Pool.Drifts.still (hi : σ.settlers[index]? = some t)
    (hready : w'.Ready) (howes : ∀ a, t'.phase.owes a = t.phase.owes a)
    (hres : w'.reservations = σ.world.reservations) : σ.Drifts (σ.put index t' w') fun _ => 0 := by
  have hidle : σ.Drifts { σ.put index t' w' with held := σ.held } fun _ => 0 := by
    apply Pool.Drifts.idle hi hready howes
    intro a
    rw [pendingOf_congr hres, add_zero]
  exact hidle

theorem Pool.recordDrifts (hw : σ.world.Ready) (env : Env) (index : Nat) (request : MovementRequest)
    (fates : List CallFate) :
    σ.Drifts (σ.step env (.record index request fates)) (σ.leaves (.record index request fates)) := by
  cases hi : σ.settlers[index]? with
  | none => exact Pool.Drifts.none hw (by simp [Pool.step, hi]) (by simp [Pool.leaves, hi])
  | some t =>
    by_cases hidle : t.phase = .idle
    · obtain ⟨hready, hregistry⟩ := recordUnder_spec env fates request t.session hw
      simp only [Pool.step, hi, hidle]
      apply Pool.Drifts.idle hi hready (fun a => by rw [hidle])
      intro a
      simp only [Pool.leaves, hi, hidle]
      rcases hregistry with ⟨hacc, hpend⟩ | ⟨m, hacc, hnone, hpend⟩
      · rw [hacc, List.drop_length, List.append_nil, hpend]
        ring
      · rw [hacc, List.drop_left, walletDeltas_append, total_append, hpend, hnone, total_nil]
        ring
    · apply Pool.Drifts.none hw
      · simp only [Pool.step, hi]
      · intro a
        simp only [Pool.leaves, hi]

theorem Pool.flushDrifts (hw : σ.world.Ready) (env : Env) (index : Nat) :
    σ.Drifts (σ.step env (.flush index)) fun _ => 0 := by
  simp only [Pool.step]
  split
  · exact Pool.Drifts.refl hw
  · rename_i t hi
    split
    · refine Pool.Drifts.still hi (flush_ready hw) (fun _ => rfl) ?_
      rw [(flush_cases t.session σ.world).2]
    · exact Pool.Drifts.refl hw

theorem Settler.call_reservations (env : Env) (t : Settler) (w : World) :
    (t.call env w).2.reservations = w.reservations := by
  have hsame : (flush t.session w).2.2.reservations = w.reservations := by
    rw [(flush_cases t.session w).2]
  unfold Settler.call
  rcases hf : flush t.session w with ⟨res, s, w'⟩
  rw [hf] at hsame
  cases res with
  | error e => exact hsame
  | ok u =>
    simp only
    split
    · exact hsame
    · split
      · exact hsame
      · split <;> exact hsame

theorem Settler.call_owes (env : Env) (hidle : t.phase = .idle) (w : World)
    (a : AccountRef) : (t.call env w).1.1.phase.owes a = t.phase.owes a := by
  rw [hidle]
  unfold Settler.call
  split
  · simp [hidle]
  · split
    · simp [hidle]
    · split
      · simp [hidle]
      · split <;> rfl

theorem Settler.call_ready (env : Env) (t : Settler) (hw : w.Ready) : (t.call env w).2.Ready := by
  have hready := flush_ready (s := t.session) hw
  unfold Settler.call
  rcases hf : flush t.session w with ⟨res, s, w'⟩
  rw [hf] at hready
  cases res with
  | error e => exact hready
  | ok u =>
    simp only
    split
    · exact hready
    · split
      · exact hready
      · split <;> exact hready

theorem Pool.callDrifts (hw : σ.world.Ready) (env : Env) (index : Nat) :
    σ.Drifts (σ.step env (.call index)) fun _ => 0 := by
  simp only [Pool.step]
  split
  · exact Pool.Drifts.refl hw
  · rename_i t hi
    split
    · rename_i hidle
      exact Pool.Drifts.still hi (t.call_ready env hw) (Settler.call_owes env hidle σ.world)
        (t.call_reservations env σ.world)
    · exact Pool.Drifts.refl hw

theorem Pool.advanceDrifts (hw : σ.world.Ready) (env : Env) (index : Nat) (fate : Fate) :
    σ.Drifts (σ.step env (.advance index fate)) (σ.leaves (.advance index fate)) := by
  cases hi : σ.settlers[index]? with
  | none => exact Pool.Drifts.none hw (by simp [Pool.step, hi]) (by simp [Pool.leaves, hi])
  | some t =>
    obtain ⟨hready, hpend⟩ := t.advance_pays env hw fate
    simp only [Pool.step, hi]
    refine ⟨hready, ?_⟩
    intro a
    have hp := hpend a
    have hsplit := total_filter_split (·.sessionId = t.session.sessionId) σ.held a
    have hrest : (σ.held.filter fun m => !decide (m.sessionId = t.session.sessionId)) =
        σ.held.filter (·.sessionId ≠ t.session.sessionId) := by simp only [ne_eq, decide_not]
    rw [hrest] at hsplit
    rw [Pool.put_unsettled hi]
    simp only [Pool.leaves, hi, Pool.unsettled, Pool.put]
    cases hset : t.settles fate with
    | true =>
      simp only [hset, if_true] at hp ⊢
      omega
    | false =>
      simp only [hset, Bool.false_eq_true, if_false] at hp ⊢
      omega

theorem Settler.loses_ready (t : Settler) (hw : w.Ready) : (t.loses w).2.Ready := by
  unfold Settler.loses
  split
  · exact (w.addReservation_reserves _ _).ready hw
  · exact hw

theorem Settler.loses_pays (t : Settler) (w : World) (a : AccountRef) :
    (t.loses w).2.pendingOf a - (t.loses w).1.phase.owes a =
      w.pendingOf a - t.phase.owes a + total t.outstanding.tail a := by
  unfold Settler.loses Settler.outstanding
  cases hp : t.phase with
  | releasing rest report =>
    cases rest with
    | nil => simp [hp]
    | cons q rest =>
      simp only [World.pendingOf_addReservation, Settler.at_, Phase.owes, total_cons, List.tail_cons]
      split <;> omega
  | _ => simp [hp]

theorem Pool.losesDrifts (hw : σ.world.Ready) (env : Env) (index : Nat) :
    σ.Drifts (σ.step env (.loses index)) (σ.leaves (.loses index)) := by
  cases hi : σ.settlers[index]? with
  | none => exact Pool.Drifts.none hw (by simp [Pool.step, hi]) (by simp [Pool.leaves, hi])
  | some t =>
    simp only [Pool.step, hi]
    refine ⟨t.loses_ready hw, ?_⟩
    intro a
    have hpays := t.loses_pays σ.world a
    have hput : (σ.put index (t.loses σ.world).1 (t.loses σ.world).2).unsettled a = _ :=
      Pool.put_unsettled hi (t.loses σ.world).1 (t.loses σ.world).2 σ.held a
    rw [hput]
    simp only [Pool.leaves, hi, Pool.unsettled, Pool.put]
    omega

theorem Phase.owes_outstanding (t : Settler) (a : AccountRef) :
    t.phase.owes a = total t.outstanding a := by
  obtain ⟨session, movements, phase⟩ := t
  cases phase <;> rfl

theorem Pool.crashDrifts (hw : σ.world.Ready) (env : Env) (index : Nat) :
    σ.Drifts (σ.step env (.crash index)) (σ.leaves (.crash index)) := by
  cases hi : σ.settlers[index]? with
  | none => exact Pool.Drifts.none hw (by simp [Pool.step, hi]) (by simp [Pool.leaves, hi])
  | some t =>
    simp only [Pool.step, hi]
    refine ⟨hw, ?_⟩
    intro a
    have hsplit := total_filter_split (· ∈ σ.lost index t) σ.held a
    have hlost : σ.held.filter (· ∈ σ.lost index t) = σ.lost index t := by
      unfold Pool.lost
      apply List.filter_congr
      intro m hm
      apply Bool.eq_iff_iff.mpr
      simp only [decide_eq_true_eq, List.mem_filter, hm, true_and]
    have hkept : (σ.held.filter fun m => !decide (m ∈ σ.lost index t)) =
        σ.held.filter (· ∉ σ.lost index t) := by simp only [decide_not]
    rw [hlost, hkept] at hsplit
    have howes := Phase.owes_outstanding t a
    simp only [Pool.leaves, hi, Pool.unsettled, sum_eraseIdx (fun t : Settler => t.phase.owes a) hi]
    omega

theorem Pool.joins (hw : σ.world.Ready) (s : InstanceSession) :
    σ.Drifts { σ with settlers := σ.settlers ++ [⟨s, [], .idle⟩] } fun _ => 0 := by
  refine ⟨hw, ?_⟩
  intro a
  simp [Pool.unsettled, Phase.owes]

theorem Pool.step_drifts (hw : σ.world.Ready) (env : Env) (e : PoolEvent) :
    σ.Drifts (σ.step env e) (σ.leaves e) := by
  cases e with
  | opens sessionId maxBatch width => exact Pool.joins hw _
  | recover sessionId maxBatch width =>
    simp only [Pool.step]
    rcases hr : recoverSession env sessionId maxBatch width .shared σ.world with ⟨res, w'⟩
    cases res with
    | error e =>
      rw [recoverSession_error hr]
      exact Pool.Drifts.refl hw
    | ok s =>
      have hsame : w' = σ.world := by
        cases hj : journal env sessionId σ.world with
        | error e => simp [recoverSession, hj] at hr
        | ok movements =>
          obtain ⟨s', w'', heq, -, hshared, -⟩ := recoverSession_spec env sessionId maxBatch width
            .shared hj
          rw [hr, Prod.mk.injEq] at heq
          rw [heq.2]
          exact hshared rfl
      rw [hsame]
      exact Pool.joins hw s
  | record index request fates => exact Pool.recordDrifts hw env index request fates
  | flush index => exact Pool.flushDrifts hw env index
  | call index => exact Pool.callDrifts hw env index
  | advance index fate => exact Pool.advanceDrifts hw env index fate
  | loses index => exact Pool.losesDrifts hw env index
  | crash index => exact Pool.crashDrifts hw env index
  | post posting =>
    rcases transaction_postEntry env posting hw with hland | ⟨hsame, hready⟩
    · refine ⟨hland.ready, ?_⟩
      intro a
      simp only [Pool.step, Pool.leaves, Pool.unsettled, pendingOf_congr hland.reservations, add_zero]
    · refine ⟨hready, ?_⟩
      intro a
      simp only [Pool.step, Pool.leaves, Pool.unsettled, pendingOf_congr hsame.reservations, add_zero]

/-- The nodes start on a ready store that holds no movement and no reservation. -/
def Pool.started (w : World) : Pool := ⟨w, [], []⟩

/-- What the steps of a run leave, all together. -/
def Pool.left (env : Env) : Pool → List PoolEvent → AccountRef → Int
  | _, [], _ => 0
  | σ, e :: events, a => σ.leaves e a + Pool.left env (σ.step env e) events a

/-- The registry is as far from what is unsettled as the steps have left. -/
theorem Pool.run_drifts (hw : σ.world.Ready) (env : Env) (events : List PoolEvent) :
    σ.Drifts (σ.run env events) (Pool.left env σ events) := by
  induction events generalizing σ with
  | nil => exact Pool.Drifts.refl hw
  | cons e events ih =>
    have hstep := Pool.step_drifts hw env e
    obtain ⟨hready, hdrift⟩ := ih hstep.ready
    refine ⟨hready, ?_⟩
    intro a
    have h1 := hstep.drift a
    have h2 := hdrift a
    simp only [Pool.left]
    change (Pool.run env (σ.step env e) events).world.pendingOf a -
      (Pool.run env (σ.step env e) events).unsettled a = _
    omega

theorem Pool.left_nonpos {events : List PoolEvent}
    (h : RunMeets (Pool.step env) Pool.LeavesNoCredit σ events) (a : AccountRef) :
    Pool.left env σ events a ≤ 0 := by
  induction events generalizing σ with
  | nil => exact le_refl 0
  | cons e events ih =>
    have hhere := h.1 a
    have hrest := ih h.2
    simp only [Pool.left]
    omega

/-- From an empty registry the total stays within what is accepted and unsettled exactly while what
the steps leave is nowhere a net credit; so it does where no step leaves one. -/
theorem registry_errs_safe (env : Env) (hw : w.Ready) (hnone : ∀ a, w.pendingOf a = 0)
    (events : List PoolEvent) :
    (((Pool.started w).run env events).Conservative ↔
        ∀ a, Pool.left env (Pool.started w) events a ≤ 0) ∧
      (RunMeets (Pool.step env) Pool.LeavesNoCredit (Pool.started w) events →
        ((Pool.started w).run env events).Conservative) := by
  have hdrift : ∀ a, ((Pool.started w).run env events).world.pendingOf a -
      ((Pool.started w).run env events).unsettled a = Pool.left env (Pool.started w) events a := by
    intro a
    have hd := (Pool.run_drifts (σ := Pool.started w) hw env events).drift a
    have hstart : (Pool.started w).unsettled a = 0 := by
      simp [Pool.started, Pool.unsettled, walletDeltas]
    have hpend : (Pool.started w).world.pendingOf a = 0 := hnone a
    omega
  have hiff : ((Pool.started w).run env events).Conservative ↔
      ∀ a, Pool.left env (Pool.started w) events a ≤ 0 := by
    constructor
    · intro h a
      have := h a
      have := hdrift a
      omega
    · intro h a
      have := h a
      have := hdrift a
      omega
  exact ⟨hiff, fun hmeets => hiff.mpr (Pool.left_nonpos hmeets)⟩

end Drift

def Pool.leavesNothing (σ : Pool) : PoolEvent → Bool
  | .record index request fates => σ.settlers[index]?.all fun t =>
    recordLeaves fates request t.session σ.world = []
  | .advance index fate => σ.settlers[index]?.all fun t =>
    if t.settles fate then
      walletDeltas (σ.held.filter (·.sessionId = t.session.sessionId)) = t.releasing σ.world
    else fate = .proceed || t.outstanding = []
  | .loses index => σ.settlers[index]?.all fun t => t.outstanding.tail = []
  | .crash index => σ.settlers[index]?.all fun t => σ.lost index t = [] && t.outstanding = []
  | _ => true

theorem Pool.leavesNoCredit_of_nothing (σ : Pool) (e : PoolEvent) (h : σ.leavesNothing e = true) :
    σ.LeavesNoCredit e := by
  intro a
  cases e with
  | record index request fates =>
    cases hi : σ.settlers[index]? with
    | none => simp [leaves, hi]
    | some t =>
      simp only [leavesNothing, hi, Option.all_some, decide_eq_true_eq] at h
      simp only [leaves, hi, h]
      split <;> simp
  | advance index fate =>
    cases hi : σ.settlers[index]? with
    | none => simp [leaves, hi]
    | some t =>
      simp only [leavesNothing, hi, Option.all_some] at h
      simp only [leaves, hi]
      cases hset : t.settles fate with
      | true =>
        simp only [hset, if_true, decide_eq_true_eq] at h
        simp [h]
      | false =>
        cases fate with
        | proceed => simp
        | storeError =>
          have hout : t.outstanding = [] := by simpa [hset] using h
          simp [hout]
  | loses index =>
    cases hi : σ.settlers[index]? with
    | none => simp [leaves, hi]
    | some t =>
      simp only [leavesNothing, hi, Option.all_some, decide_eq_true_eq] at h
      simp [leaves, hi, h]
  | crash index =>
    cases hi : σ.settlers[index]? with
    | none => simp [leaves, hi]
    | some t =>
      simp only [leavesNothing, hi, Option.all_some, Bool.and_eq_true, decide_eq_true_eq] at h
      simp [leaves, hi, h.1, h.2, walletDeltas]
  | _ => exact le_refl 0

/-- A purchase recorded, settled and released leaves nothing on any account. -/
theorem registry_errs_safe_settled :
    let env : Env := ⟨List.take 4, fun _ => 0, fun _ => ""⟩
    let events : List PoolEvent := [.opens "ses_1" 64 ⟨2, by decide⟩,
      .record 0 (tenFromTo "mv_1" "usr_a" "usr_b") [], .call 0, .advance 0 .proceed,
      .advance 0 .proceed, .advance 0 .proceed, .advance 0 .proceed, .advance 0 .proceed]
    ((Pool.started (fundedPayer env)).run env events).Conservative := by
  intro env events
  apply (registry_errs_safe env (fundedPayer_ready env) (fun _ => rfl) events).2
  have hnothing : RunMeets (Pool.step env) (fun σ e => σ.leavesNothing e = true)
      (Pool.started (fundedPayer env)) events := by decide +kernel
  exact hnothing.imp Pool.leavesNoCredit_of_nothing

/-- Three ways to a credit nobody has: the node dies before it flushed the payee's ten; the registry
goes down after the credit leg; a refused movement whose back-out fails half-way is backed out again,
the payer's leg twice. -/
theorem registry_grants_headroom :
    let env : Env := ⟨List.take 4, fun _ => 0, fun _ => ""⟩
    let σ := Pool.started (fundedPayer env)
    let opens : PoolEvent := .opens "ses_1" 64 ⟨2, by decide⟩
    ¬ (σ.run env [opens, .record 0 (tenFromTo "mv_1" "usr_a" "usr_b") [], .crash 0]).Conservative ∧
      ¬ (σ.run env [opens,
        .record 0 ⟨"mv_1", payerFirst.reverse⟩ [.taken, .thrown, .thrown]]).Conservative ∧
      ¬ (σ.run env [opens, .record 0 ⟨"mv_1", (tenFromTo "" "usr_c" "usr_b").legs.reverse⟩
        [.taken, .taken, .taken, .thrown]]).Conservative := by
  intro env σ opens
  refine ⟨?_, ?_, ?_⟩
  · intro h
    exact absurd (h (spendable "usr_b")) (by decide +kernel)
  · intro h
    exact absurd (h (spendable "usr_b")) (by decide +kernel)
  · intro h
    exact absurd (h (spendable "usr_c")) (by decide +kernel)

end EconomyLab
