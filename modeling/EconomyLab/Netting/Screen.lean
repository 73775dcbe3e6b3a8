import Mathlib.Algebra.Order.BigOperators.Group.List
import EconomyLab.Foundation.Runs
import EconomyLab.Netting.Sessions

/-!
# Sessions sharing a registry

Any number of sessions record and settle over one ledger and one registry. What the
sessions still draw out of a guarded account must be on it: then every settlement, in any
order, takes all its movements.
-/

namespace EconomyLab

open Foundation

structure Netting where
  world : World
  sessions : List InstanceSession

inductive Call
  | record (index : Nat) (request : MovementRequest)
  | settle (index : Nat)

namespace Netting

def put (index : Nat) (after : InstanceSession × World) (σ : Netting) : Netting :=
  ⟨after.2, σ.sessions.set index after.1⟩

def step (env : Env) (σ : Netting) : Call → Netting
  | .record index request =>
    match σ.sessions[index]? with
    | none => σ
    | some s => σ.put index (EconomyLab.record env request s σ.world).2
  | .settle index =>
    match σ.sessions[index]? with
    | none => σ
    | some s => σ.put index (settle env s σ.world).2

def run (env : Env) (σ : Netting) (calls : List Call) : Netting := calls.foldl (step env) σ

/-- Sessions just opened under their own ids, over any ledger and journal. -/
structure Opened (env : Env) (σ : Netting) : Prop where
  closed : σ.world.Closed
  ledger : ∃ cmds, σ.world.ledger = (runLedger env.digest cmds).ledger
  opened : ∀ s ∈ σ.sessions, ∃ maxBatch width scope,
    s = openInstanceSession s.sessionId maxBatch width scope
  distinct : (σ.sessions.map InstanceSession.sessionId).Nodup
  unjournaled : ∀ s ∈ σ.sessions, ∀ row ∈ σ.world.movements, row.sessionId ≠ s.sessionId
  unposted : ∀ s ∈ σ.sessions, ∀ i, σ.world.posted (chunkTxnId s.sessionId i) = false

end Netting

/-! ## What the sessions draw -/

def InstanceSession.netOf (s : InstanceSession) (a : AccountRef) : Int :=
  if s.settled then 0 else naturalOf a (total (movementAmounts s.accepted) a)

def InstanceSession.draws (s : InstanceSession) (a : AccountRef) : Int := max 0 (-s.netOf a)

def Netting.drawn (σ : Netting) (a : AccountRef) : Int :=
  (σ.sessions.map fun s => s.draws a).sum

/-- What the account would hold past all draws if the session accepted these legs. -/
def Netting.room (σ : Netting) (s : InstanceSession) (legs : List Leg) (a : AccountRef) : Int :=
  σ.world.balanceOf a - (σ.drawn a - s.draws a + max 0 (-(s.netOf a + total (deltas legs) a)))

theorem draws_nonneg (s : InstanceSession) (a : AccountRef) : 0 ≤ s.draws a := le_max_left _ _

variable {σ : Netting} {s s' : InstanceSession}

theorem netOf_congr (hset : s'.settled = s.settled)
    (hacc : s'.accepted = s.accepted) (a : AccountRef) : s'.netOf a = s.netOf a := by
  unfold InstanceSession.netOf
  rw [hset, hacc]

theorem draws_le_drawn (hs : s ∈ σ.sessions) (a : AccountRef) : s.draws a ≤ σ.drawn a := by
  apply List.single_le_sum
  · intro d hd
    obtain ⟨t, -, rfl⟩ := List.mem_map.mp hd
    exact draws_nonneg t a
  · exact List.mem_map.mpr ⟨s, hs, rfl⟩

variable {i : Nat} {request : MovementRequest}

theorem drawn_put (hi : σ.sessions[i]? = some s) (after : InstanceSession × World) (a : AccountRef) :
    (σ.put i after).drawn a = σ.drawn a - s.draws a + after.1.draws a :=
  sum_map_set (fun s : InstanceSession => s.draws a) hi

def Netting.KeyIsFree (σ : Netting) (s : InstanceSession) (key : String) : Prop :=
  (∀ row ∈ σ.world.movements, row.sessionId ≠ s.sessionId → row.idempotencyKey ≠ key) ∧
    ∀ t ∈ σ.sessions, t.sessionId ≠ s.sessionId → ∀ m ∈ t.accepted, m.idempotencyKey ≠ key

/-- When every figure of the screen is fine, so is what each debited account really has left. -/
def Netting.ScreenTells (σ : Netting) (s : InstanceSession) (legs : List Leg) : Prop :=
  (∀ a, isWalletAccount a = true → total (deltas legs) a < 0 → 0 ≤ screenView s σ.world legs a) →
    ∀ a, isUserGuarded a = true → total (deltas legs) a < 0 → 0 ≤ σ.room s legs a

/-- The ledger takes each position, and the clearing account each chunk sum. -/
def Netting.Postable (σ : Netting) (s : InstanceSession) : Prop :=
  (∀ p ∈ positionsOf s.accepted,
      EconomyLab.Postable σ.world.balanceOf p ∧ p.1 ≠ SYSTEM.NETTING_CLEARING) ∧
    ClearingCarries (σ.world.balanceOf SYSTEM.NETTING_CLEARING) (s.chunks s.accepted)

/-- What a call is asked: a new movement brings its own key and a screen that tells the truth,
and a first settlement meets a ledger that takes its chunks. -/
def Netting.Meets (σ : Netting) : Call → Prop
  | .record index request => ∀ s, σ.sessions[index]? = some s → s.settled = false →
      s.outcomes.get request.idempotencyKey = none → requireMovementLegs request.legs = .ok () →
        σ.KeyIsFree s request.idempotencyKey ∧ σ.ScreenTells s request.legs
  | .settle index => ∀ s, σ.sessions[index]? = some s → s.settled = false → σ.Postable s

/-- Every session journals under its own keys, and the guarded accounts hold what is drawn. -/
structure Netting.Sound (env : Env) (σ : Netting) : Prop where
  ready : σ.world.Ready
  distinct : (σ.sessions.map InstanceSession.sessionId).Nodup
  sessions : ∀ s ∈ σ.sessions, Journaling env σ.world s
  apart : ∀ s ∈ σ.sessions, ∀ t ∈ σ.sessions, s.sessionId ≠ t.sessionId →
    ∀ m ∈ s.accepted, ∀ m' ∈ t.accepted, m.idempotencyKey ≠ m'.idempotencyKey
  covered : ∀ a, isUserGuarded a = true → 0 < σ.drawn a → σ.drawn a ≤ σ.world.balanceOf a

theorem map_id_set {l : List InstanceSession} (hi : l[i]? = some s) (hid : s'.sessionId = s.sessionId) :
    (l.set i s').map InstanceSession.sessionId = l.map InstanceSession.sessionId := by
  induction l generalizing i with
  | nil => simp at hi
  | cons x l ih =>
    cases i with
    | zero =>
      simp only [List.getElem?_cons_zero, Option.some.injEq] at hi
      subst hi
      simp [hid]
    | succ i =>
      simp only [List.getElem?_cons_succ] at hi
      simp [ih hi]

theorem mem_set_of_distinct {l : List InstanceSession} {s s' t : InstanceSession}
    (hnd : (l.map InstanceSession.sessionId).Nodup) (hi : l[i]? = some s) (ht : t ∈ l.set i s') :
    t = s' ∨ (t ∈ l ∧ t.sessionId ≠ s.sessionId) := by
  induction l generalizing i with
  | nil => simp at hi
  | cons x l ih =>
    rw [List.map_cons, List.nodup_cons] at hnd
    cases i with
    | zero =>
      simp only [List.getElem?_cons_zero, Option.some.injEq] at hi
      subst hi
      rw [List.set_cons_zero] at ht
      rcases List.mem_cons.mp ht with rfl | ht
      · exact Or.inl rfl
      · right
        refine ⟨List.mem_cons_of_mem _ ht, ?_⟩
        intro he
        apply hnd.1
        rw [← he]
        exact List.mem_map.mpr ⟨t, ht, rfl⟩
    | succ i =>
      simp only [List.getElem?_cons_succ] at hi
      rw [List.set_cons_succ] at ht
      rcases List.mem_cons.mp ht with rfl | ht
      · right
        refine ⟨List.mem_cons_self, ?_⟩
        intro he
        apply hnd.1
        rw [he]
        exact List.mem_map.mpr ⟨s, List.mem_of_getElem? hi, rfl⟩
      · rcases ih hnd.2 hi ht with h | ⟨h, hne⟩
        · exact Or.inl h
        · exact Or.inr ⟨List.mem_cons_of_mem _ h, hne⟩

theorem Netting.Opened.sound {env : Env} (h : σ.Opened env) : σ.Sound env := by
  obtain ⟨cmds, hl⟩ := h.ledger
  have hempty : ∀ s ∈ σ.sessions, s.accepted = [] := by
    intro s hs
    obtain ⟨maxBatch, width, scope, he⟩ := h.opened s hs
    rw [he]
    rfl
  refine ⟨World.ready_of_run h.closed hl, h.distinct, ?_, ?_, ?_⟩
  · intro s hs
    obtain ⟨maxBatch, width, scope, he⟩ := h.opened s hs
    rw [he]
    exact journaling_open (h.unjournaled s hs) (h.unposted s hs)
  · intro s hs t _ _ m hm
    rw [hempty s hs] at hm
    cases hm
  · intro a _ hpos
    have hzero : σ.drawn a = 0 := by
      apply List.sum_eq_zero
      intro d hd
      obtain ⟨s, hs, rfl⟩ := List.mem_map.mp hd
      simp [InstanceSession.draws, InstanceSession.netOf, hempty s hs, movementAmounts]
    omega

section Step

variable {env : Env} {σ : Netting} {i : Nat} {s : InstanceSession}

theorem Netting.Sound.put (h : σ.Sound env) (hi : σ.sessions[i]? = some s)
    {w' : World} (hready : w'.Ready) (hid : s'.sessionId = s.sessionId) (hj : Journaling env w' s')
    (added : List Movement) (hmv : w'.movements = σ.world.movements ++ added)
    (hadded : ∀ row ∈ added, row ∈ s'.accepted)
    (hposted : ∀ t ∈ σ.sessions, t.sessionId ≠ s.sessionId → ∀ j,
      w'.posted (chunkTxnId t.sessionId j) = σ.world.posted (chunkTxnId t.sessionId j))
    (hkeys : ∀ t ∈ σ.sessions, t.sessionId ≠ s.sessionId →
      ∀ m ∈ s'.accepted, ∀ m' ∈ t.accepted, m.idempotencyKey ≠ m'.idempotencyKey)
    (hcovered : ∀ a, isUserGuarded a = true → 0 < (σ.put i (s', w')).drawn a →
      (σ.put i (s', w')).drawn a ≤ w'.balanceOf a) : (σ.put i (s', w')).Sound env := by
  refine ⟨hready, ?_, ?_, ?_, hcovered⟩
  · exact (map_id_set hi hid).symm ▸ h.distinct
  · intro t ht
    rcases mem_set_of_distinct h.distinct hi ht with rfl | ⟨hm, hne⟩
    · exact hj
    · refine (h.sessions t hm).frame hmv ?_ (hposted t hm hne)
      intro row hr
      refine ⟨?_, ?_⟩
      · rw [hj.stamped row (hadded row hr), hid]
        exact Ne.symm hne
      · exact hkeys t hm hne row (hadded row hr)
  · intro t ht u hu hne m hm m' hm'
    rcases mem_set_of_distinct h.distinct hi ht with rfl | ⟨htm, htne⟩
    · rcases mem_set_of_distinct h.distinct hi hu with rfl | ⟨hum, hune⟩
      · exact absurd rfl hne
      · exact hkeys u hum hune m hm m' hm'
    · rcases mem_set_of_distinct h.distinct hi hu with rfl | ⟨hum, hune⟩
      · exact Ne.symm (hkeys t htm htne m' hm' m hm)
      · exact h.apart t htm u hum hne m hm m' hm'

theorem netOf_accepted {w : World}
    (hset : s'.settled = s.settled) (hacc : Accepts env request s w s') (a : AccountRef) :
    s'.netOf a = s.netOf a + total (deltas request.legs) a := by
  unfold InstanceSession.netOf
  rw [hset, hacc.unsettled, hacc.accepted, movementAmounts_eq, movementAmounts_eq]
  simp only [Bool.false_eq_true, if_false, List.flatMap_append, total_append, naturalOf_add]
  rw [total_deltas]
  simp [nextMovement]

theorem Netting.Sound.record (h : σ.Sound env) (hi : σ.sessions[i]? = some s)
    (hmeets : σ.Meets (.record i request)) :
    (σ.put i (EconomyLab.record env request s σ.world).2).Sound env := by
  have hs := List.mem_of_getElem? hi
  have hj := h.sessions s hs
  obtain ⟨hj', hid, hset, hbook, hready, ⟨added, hmv, hadded⟩, hcase⟩ :=
    hj.record request fun h1 h2 h3 => (hmeets s hi h1 h2 h3).1.1
  have hbal := World.balanceOf_book hbook
  refine h.put hi (hready h.ready) hid hj' added hmv hadded
    (fun t _ _ j => World.posted_book hbook _) ?_ ?_
  · intro t ht hne m hm m' hm'
    rcases hcase with he | hacc
    · rw [he] at hm
      exact h.apart s hs t ht (Ne.symm hne) m hm m' hm'
    · rw [hacc.accepted] at hm
      rcases List.mem_append.mp hm with hm | hm
      · exact h.apart s hs t ht (Ne.symm hne) m hm m' hm'
      · rw [List.mem_singleton.mp hm]
        have hfree := (hmeets s hi hacc.unsettled hacc.fresh hacc.checked).1
        exact Ne.symm (hfree.2 t ht hne m' hm')
  · intro a hg
    rw [drawn_put hi, hbal]
    rcases hcase with he | hacc
    · have hdraws : (EconomyLab.record env request s σ.world).2.1.draws a = s.draws a := by
        unfold InstanceSession.draws
        rw [netOf_congr hset he]
      rw [hdraws, sub_add_cancel]
      exact h.covered a hg
    · have hdraws : (EconomyLab.record env request s σ.world).2.1.draws a =
          max 0 (-(s.netOf a + total (deltas request.legs) a)) := by
        unfold InstanceSession.draws
        rw [netOf_accepted hset hacc]
      rw [hdraws]
      by_cases hneg : total (deltas request.legs) a < 0
      · -- a debited account is covered because the screen told the truth about it
        intro _
        obtain ⟨s₁, w₁, hpassed⟩ := hacc.passed
        have htells := (hmeets s hi hacc.unsettled hacc.fresh hacc.checked).2
        have hroom := htells (fun b hb hbneg => hpassed.view_nonneg hb hbneg) a hg hneg
        unfold Netting.room at hroom
        omega
      · intro hpos
        have hle : max 0 (-(s.netOf a + total (deltas request.legs) a)) ≤ s.draws a := by
          unfold InstanceSession.draws
          omega
        have hcov := h.covered a hg (by omega)
        omega

/-- What the guarded accounts hold is enough for the session's own positions. -/
theorem Netting.Sound.affords (h : σ.Sound env) (hs : s ∈ σ.sessions) (hset : s.settled = false) :
    ∀ p ∈ positionsOf s.accepted, NonOverdrawing σ.world.balanceOf p := by
  intro p hp hg hneg
  have hnet : s.netOf p.1 = naturalOf p.1 p.2 := by
    unfold InstanceSession.netOf
    rw [hset, ← positionsOf_total]
    have ht := total_of_mem (positionsOf_nodup s.accepted) (k := p.1) (v := p.2) hp
    simp [ht]
  have hdraws : s.draws p.1 = -naturalOf p.1 p.2 := by
    unfold InstanceSession.draws
    rw [hnet]
    omega
  have hle := draws_le_drawn hs p.1
  have hcov := h.covered p.1 hg (by omega)
  omega

theorem Netting.Sound.settle (h : σ.Sound env) (hi : σ.sessions[i]? = some s)
    (hmeets : σ.Meets (.settle i)) :
    (∃ report s' w', EconomyLab.settle env s σ.world = (.ok report, s', w') ∧
      report.mode = .netted ∧ report.rejected = []) ∧
    (σ.put i (EconomyLab.settle env s σ.world).2).Sound env := by
  have hs := List.mem_of_getElem? hi
  have hj := h.sessions s hs
  cases hset : s.settled with
  | true =>
    obtain ⟨report, s', w', he, hmode, hrej, hs', hready, hbook, hmv⟩ := hj.settles_again hset h.ready
    refine ⟨⟨report, s', w', he, hmode, hrej⟩, ?_⟩
    rw [he]
    have hbal := World.balanceOf_book hbook
    have hj' : Journaling env w' s' := by
      obtain ⟨h1, h2, h3, h4, h5, h6, h7, h8, h9, h10, h11, h12, h13⟩ := hj
      rw [hs']
      refine ⟨h1, hmv ▸ h2, h3, h4, h5, h6, h7, h8, h9, h10, hmv ▸ h11, ?_, ?_⟩
      · intro hc j
        rw [World.posted_book hbook]
        exact h12 hc j
      · intro hc
        refine ⟨(h13 hc).1, ?_⟩
        intro c hcm
        rw [World.posted_book hbook]
        exact (h13 hc).2 c hcm
    refine h.put hi hready (by rw [hs']) hj' [] (by rw [hmv, List.append_nil]) (by simp)
      (fun t _ _ j => World.posted_book hbook _) ?_ ?_
    · intro t ht hne m hm m' hm'
      rw [hs'] at hm
      exact h.apart s hs t ht (Ne.symm hne) m hm m' hm'
    · intro a hg
      have hdraws : s'.draws a = s.draws a := by
        unfold InstanceSession.draws
        rw [hs']
        rfl
      rw [drawn_put hi, hbal, hdraws, sub_add_cancel]
      exact h.covered a hg
  | false =>
    obtain ⟨hpost, hcarry⟩ := hmeets s hi hset
    obtain ⟨s', w', hinto, hj'⟩ := hj.settles hset h.ready (h.affords hs hset) hpost hcarry
    obtain ⟨report, he, hmode, hrej⟩ := hinto.report
    refine ⟨⟨report, s', w', he, hmode, hrej⟩, ?_⟩
    rw [he]
    have hacc : s'.accepted = s.accepted := by rw [hinto.session]
    refine h.put hi hinto.ready (by rw [hinto.session]) hj' s.pending
      (by rw [hinto.movements, hj.flushes]) ?_ ?_ ?_ ?_
    · intro row hr
      rw [hacc, ← hj.rows]
      exact List.mem_append_right _ hr
    · intro t _ hne j
      rw [hinto.posted, Bool.or_eq_left_iff_imp]
      intro hany
      exfalso
      obtain ⟨c, -, hc⟩ := List.any_eq_true.mp hany
      exact hne (chunkTxnId_inj.mp (of_decide_eq_true hc)).1.symm
    · intro t ht hne m hm m' hm'
      rw [hacc] at hm
      exact h.apart s hs t ht (Ne.symm hne) m hm m' hm'
    · intro a hg
      have hnet : s.netOf a = naturalOf a (total (positionsOf s.accepted) a) := by
        unfold InstanceSession.netOf
        rw [hset, positionsOf_total]
        simp
      have hdraws : s'.draws a = 0 := by
        unfold InstanceSession.draws InstanceSession.netOf
        rw [hinto.session]
        by_cases hempty : s.accepted = []
        · simp [hempty, movementAmounts]
        · simp [hempty]
      have hown : s.draws a = max 0 (-s.netOf a) := rfl
      rw [drawn_put hi, hinto.balance, ← hnet, hdraws]
      intro hpos
      have hcov := h.covered a hg (by omega)
      omega

end Step

theorem Netting.step_sound (env : Env) (σ : Netting) (call : Call) (h : σ.Sound env)
    (hmeets : σ.Meets call) : (σ.step env call).Sound env := by
  cases call with
  | record index request =>
    cases hi : σ.sessions[index]? with
    | none => simpa only [Netting.step, hi] using h
    | some s =>
      simp only [Netting.step, hi]
      exact h.record hi hmeets
  | settle index =>
    cases hi : σ.sessions[index]? with
    | none => simpa only [Netting.step, hi] using h
    | some s =>
      simp only [Netting.step, hi]
      exact (h.settle hi hmeets).2

/-- In a run whose calls meet their conditions, every settlement takes all its movements. -/
theorem settlements_take_all (env : Env) {σ : Netting} (hopened : σ.Opened env) {calls : List Call}
    (hmeets : RunMeets (Netting.step env) Netting.Meets σ calls) {pre post : List Call} {index : Nat}
    (hcalls : calls = pre ++ .settle index :: post) {s : InstanceSession}
    (hs : (σ.run env pre).sessions[index]? = some s) :
    ∃ report s' w', settle env s (σ.run env pre).world = (.ok report, s', w') ∧
      report.mode = .netted ∧ report.rejected = [] := by
  obtain ⟨hsound, hsettle⟩ := hmeets.before (Netting.step_sound env) hopened.sound hcalls
  exact (hsound.settle hs hsettle).1

instance (σ : Netting) (s : InstanceSession) (key : String) : Decidable (σ.KeyIsFree s key) :=
  inferInstanceAs (Decidable (_ ∧ _))

instance (σ : Netting) (s : InstanceSession) : Decidable (σ.Postable s) :=
  inferInstanceAs (Decidable (_ ∧ _))

theorem meets_record_of_debits {index : Nat}
    (h : ∀ s ∈ σ.sessions[index]?.toList, σ.KeyIsFree s request.idempotencyKey ∧
      ∀ leg ∈ request.legs, leg.delta < 0 → 0 ≤ σ.room s request.legs leg.account) :
    σ.Meets (.record index request) := by
  intro s hs _ _ _
  obtain ⟨hkey, hroom⟩ := h s (Option.mem_toList.mpr hs)
  refine ⟨hkey, ?_⟩
  intro _ a _ hneg
  obtain ⟨leg, hl, rfl, hd⟩ := exists_debit_of_total_neg hneg
  exact hroom leg hl hd

theorem meets_settle_of_postable {index : Nat}
    (h : ∀ s ∈ σ.sessions[index]?.toList, σ.Postable s) : σ.Meets (.settle index) :=
  fun s hs _ => h s (Option.mem_toList.mpr hs)

/-- Two sessions over a ledger on which `usr_b` holds ten. -/
def twoSessions (env : Env) : Netting :=
  let ten : Amount := ⟨.credit, 10, .ten⟩
  let minusTen : Amount := ⟨.credit, -10, .neg_ten⟩
  let issue : Posting := ⟨"txn_1", [⟨SYSTEM.STORED_VALUE, ten⟩, ⟨spendable "usr_b", minusTen⟩], []⟩
  { world := { World.empty with ledger := (runLedger env.digest [.write (.entry 0 issue)]).ledger }
    sessions := [openInstanceSession "ses_1" 1 ⟨100, by decide⟩ .process,
      openInstanceSession "ses_2" 1 ⟨100, by decide⟩ .process] }

def tenFromTo (key : String) (payer payee : String) : MovementRequest :=
  ⟨key, [⟨spendable payer, ⟨.credit, 10, .ten⟩⟩, ⟨spendable payee, ⟨.credit, -10, .neg_ten⟩⟩]⟩

theorem twoSessions_opened : (twoSessions ⟨List.take 4, fun _ => 0, fun _ => ""⟩).Opened
    ⟨List.take 4, fun _ => 0, fun _ => ""⟩ where
  closed := ⟨rfl, rfl, rfl, rfl, rfl, rfl, rfl, rfl, rfl, rfl⟩
  ledger := ⟨_, rfl⟩
  opened := by
    intro s hs
    rcases List.mem_cons.mp hs with rfl | hs
    · exact ⟨1, ⟨100, by decide⟩, .process, rfl⟩
    · rw [List.mem_singleton.mp hs]
      exact ⟨1, ⟨100, by decide⟩, .process, rfl⟩
  distinct := by decide
  unjournaled := by decide
  unposted := by
    intro s hs j
    have hlog : (twoSessions ⟨List.take 4, fun _ => 0, fun _ => ""⟩).world.ledger.tables.log.map
        StoredPosting.txnId = ["txn_1"] := by decide
    apply World.posted_eq_false
    rw [hlog, List.mem_singleton]
    intro hid
    have hhead := congrArg (fun text => text.toList.head?) hid
    simp [chunkTxnId] at hhead

/-- The incoming ten is settled before it is spent. -/
theorem settlements_take_all_in_turn :
    let env : Env := ⟨List.take 4, fun _ => 0, fun _ => ""⟩
    let pre : List Call := [.record 1 (tenFromTo "mv_1" "usr_b" "usr_a"), .settle 1,
      .record 0 (tenFromTo "mv_2" "usr_a" "usr_c")]
    ∃ s, ((twoSessions env).run env pre).sessions[0]? = some s ∧
      ∃ report s' w', settle env s ((twoSessions env).run env pre).world = (.ok report, s', w') ∧
        report.mode = .netted ∧ report.rejected = [] := by
  intro env pre
  obtain ⟨s, hs⟩ : ∃ s, ((twoSessions env).run env pre).sessions[0]? = some s :=
    Option.isSome_iff_exists.mp (by decide +kernel)
  have hmeets : RunMeets (Netting.step env) Netting.Meets (twoSessions env)
      (pre ++ .settle 0 :: []) := by
    refine ⟨?_, ?_, ?_, ?_, trivial⟩
    · exact meets_record_of_debits (by decide +kernel)
    · exact meets_settle_of_postable (by decide +kernel)
    · exact meets_record_of_debits (by decide +kernel)
    · exact meets_settle_of_postable (by decide +kernel)
  exact ⟨s, hs, settlements_take_all env twoSessions_opened hmeets rfl hs⟩

/-- The screen counts ten that another session has not settled yet: both movements are
accepted, and the session that settles first falls back and refuses its own. -/
theorem pending_credit_replays :
    let env : Env := ⟨List.take 4, fun _ => 0, fun _ => ""⟩
    let σ := (twoSessions env).run env [.record 1 (tenFromTo "mv_1" "usr_b" "usr_a"),
      .record 0 (tenFromTo "mv_2" "usr_a" "usr_c")]
    (twoSessions env).Opened env ∧ (σ.sessions.map fun s => s.accepted.length) = [1, 1] ∧
      σ.sessions[0]?.map (fun s => (settle env s σ.world).1.toOption.map
        fun report => (report.mode, report.rejected)) =
          some (some (.replayed, [("mv_2", .error .overdraft)])) := by
  intro env σ
  exact ⟨twoSessions_opened, by decide +kernel, by decide +kernel⟩

end EconomyLab
