import EconomyLab.Foundation.Rounds
import EconomyLab.Worker.Sweeping
import Mathlib

/-!
# Working off a backlog

Both sweeps look at the first sessions of the enumeration and start from the top each time. The
orphan sweep never gets beyond its limit, and the retention sweep gets beyond it only as far as it
prunes.
-/

namespace EconomyLab

open Foundation

variable {sessionId : String}

theorem mem_sessionIds {log : List Movement} :
    sessionId ∈ sessionIds log ↔ ∃ m ∈ log, m.sessionId = sessionId := by
  unfold sessionIds Text.sortStrings
  rw [List.mem_insertionSort, List.mem_dedup, List.mem_map]

theorem nodup_sessionIds (log : List Movement) : (sessionIds log).Nodup :=
  (List.perm_insertionSort _ _).nodup_iff.mpr (List.nodup_dedup _)

theorem sessionIds_filter (keep : String → Bool) (log : List Movement) :
    sessionIds (log.filter fun m => keep m.sessionId) = (sessionIds log).filter keep := by
  let r : String → String → Prop := fun a b => Text.codeUnitLe a b
  have total : Std.Total r := ⟨fun a b => Text.unitsLe_total _ _⟩
  have trans : IsTrans String r := ⟨fun a b c => Text.unitsLe_trans⟩
  have hperm : ((log.filter fun m => keep m.sessionId).map Movement.sessionId).dedup.Perm
      ((sessionIds log).filter keep) := by
    apply (List.perm_ext_iff_of_nodup (List.nodup_dedup _) ((nodup_sessionIds log).filter _)).mpr
    intro id
    rw [List.mem_dedup, List.mem_map, List.mem_filter, mem_sessionIds]
    constructor
    · rintro ⟨m, hm, rfl⟩
      obtain ⟨hlog, hkeep⟩ := List.mem_filter.mp hm
      exact ⟨⟨m, hlog, rfl⟩, hkeep⟩
    · rintro ⟨⟨m, hm, rfl⟩, hkeep⟩
      exact ⟨m, List.mem_filter.mpr ⟨hm, hkeep⟩, rfl⟩
  have hsorted : ((sessionIds log).filter keep).Pairwise r := (List.pairwise_insertionSort r _).filter _
  exact (Text.sortStrings_perm hperm).trans hsorted.insertionSort_eq

def RefundId (sessionId txnId : String) : Prop := ∃ userId, txnId = escrowRefundId sessionId userId

section Refunds

variable {env : Env} {sessionId : String} {w : World}

theorem escrowRefund_postsFor (env : Env) (sessionId userId : String) (remainder : Amount) (hw : w.Ready) :
    w.PostsFor (RefundId sessionId) (transaction (escrowRefund env sessionId userId remainder) w).2 := by
  cases hcredit : credit (spendable userId) remainder with
  | error e =>
    have hclosed := transaction_closed (escrowRefund env sessionId userId remainder) hw.closed
    have hrun : (escrowRefund env sessionId userId remainder).run w.opened = (.error e, w.opened) := by
      unfold escrowRefund
      rw [hcredit]
      rfl
    rcases transaction_cases (escrowRefund env sessionId userId remainder) hw.closed hw.sound with
      ⟨txn, w', hok, -⟩ | ⟨e', w', -, htransaction, hsame⟩
    · rw [hrun] at hok
      cases hok
    · rw [htransaction] at hclosed ⊢
      exact (hsame.posts (hsame.ready hclosed hw)).toPostsFor
  | ok returned =>
    let posting : Posting := ⟨escrowRefundId sessionId userId,
      [debit (sessionEscrow userId sessionId) remainder, returned],
      [("kind", .string "prefund_refund"), ("sessionId", .string sessionId), ("userId", .string userId)]⟩
    have hone : transaction (escrowRefund env sessionId userId remainder) w =
        transaction (Txn.postEntry env posting) w := by
      unfold transaction escrowRefund
      rw [hcredit]
      rfl
    rw [hone]
    rcases transaction_postEntry env posting hw with hland | ⟨hsame, hready⟩
    · exact (hland.posts ⟨userId, rfl⟩).toPostsFor
    · exact (hsame.posts hready).toPostsFor

theorem refundEscrowRemainder_postsFor (env : Env) (sessionId userId : String) (hw : w.Ready) :
    w.PostsFor (RefundId sessionId) (refundEscrowRemainder env sessionId userId w).2 := by
  unfold refundEscrowRemainder
  split
  · exact .refl hw
  · rename_i remainder _
    have hposts := escrowRefund_postsFor env sessionId userId remainder hw
    split
    · exact .refl hw
    · split
      · rename_i hrefund
        rw [hrefund] at hposts
        exact hposts
      · rename_i hrefund
        rw [hrefund] at hposts
        exact hposts

theorem refundOwners_postsFor (env : Env) (sessionId : String) (owners : List String) (hw : w.Ready) :
    w.PostsFor (RefundId sessionId) (refundOwners env sessionId owners w).2.2 := by
  induction owners generalizing w with
  | nil => exact .refl hw
  | cons userId owners ih =>
    have hposts := refundEscrowRemainder_postsFor env sessionId userId hw
    unfold refundOwners
    rcases hrefund : refundEscrowRemainder env sessionId userId w with ⟨result, w'⟩
    rw [hrefund] at hposts
    cases result with
    | error e => exact hposts
    | ok minor => exact hposts.trans (ih hposts.ready)

theorem refundSessionEscrows_postsFor (env : Env) (sessionId : String) (hw : w.Ready) :
    w.PostsFor (RefundId sessionId) (refundSessionEscrows env sessionId w).2.2 :=
  refundOwners_postsFor env sessionId (escrowOwners sessionId w) hw

end Refunds

/-! ## One session of the orphan sweep -/

/-- A journaled session that counts as unsettled, and whose newest movement is older than the bound. -/
structure OrphanSweepInput.Stale (env : Env) (input : OrphanSweepInput) (sessionId : String) (w : World) :
    Prop where
  listed : sessionId ∈ sessionIds w.movements
  verified : (journal env sessionId w).isOk = true
  unsettled : w.settledOnRecord sessionId = false
  ripe : input.ripe (input.now - newestMovementAt sessionId w) = true

/-- No transaction is open, and each journaled movement passed the check of `record`. -/
structure World.Journaled (w : World) : Prop where
  ready : w.Ready
  rows : ∀ m ∈ w.movements, requireMovementLegs m.legs = .ok ()

theorem World.PostsFor.journaled {own : String → Prop} {w w' : World} (h : w.PostsFor own w')
    (hw : w.Journaled) :
    w'.Journaled := by
  refine ⟨h.ready, ?_⟩
  rw [h.movements]
  exact hw.rows

section OrphanStep

variable {env : Env} {input : OrphanSweepInput} {sessionId : String} {w : World}

theorem OrphanSweepSummary.refunded_world (summary : OrphanSweepSummary) (sessionId : String)
    (refunds : Except Fault Unit × List (String × String × Int) × World) :
    (summary.refunded sessionId refunds).2 = refunds.2.2 := by
  unfold OrphanSweepSummary.refunded
  cases refunds.1 <;> rfl

theorem newestMovementAt_same {w' : World} (h : w'.movements = w.movements) (sessionId : String) :
    newestMovementAt sessionId w' = newestMovementAt sessionId w := by
  unfold newestMovementAt
  rw [h]

/-- The sweep of a session posts for that session alone, and leaves it settled on record just when it was,
or when it is stale and the ledger takes something of it. -/
theorem sweepSession_spec (env : Env) (input : OrphanSweepInput) (summary : OrphanSweepSummary)
    (hjournaled : w.Journaled) (hlisted : sessionId ∈ sessionIds w.movements) :
    w.PostsFor (OwnId sessionId) (sweepSession env input sessionId summary w).2 ∧
      ((sweepSession env input sessionId summary w).2.settledOnRecord sessionId = true ↔
        w.settledOnRecord sessionId = true ∨ (input.Stale env sessionId w ∧ w.takesAny sessionId)) := by
  obtain ⟨hw, hrows⟩ := hjournaled
  rcases recoverByDefault_cases env sessionId input.registry w with ⟨e, hjournal, hrun⟩ |
      ⟨s, w', hrun, hrecovered⟩
  · have hworld : (sweepSession env input sessionId summary w).2 = w := by
      unfold sweepSession
      rw [hrun]
    rw [hworld]
    refine ⟨.refl hw, fun h => Or.inl h, fun h => h.resolve_right ?_⟩
    rintro ⟨hstale, -⟩
    have hok := hstale.verified
    rw [hjournal] at hok
    cases hok
  · have hready := hrecovered.reserves.ready hw
    have hmoved := hrecovered.reserves.movements
    have hrecover : w.PostsFor (OwnId sessionId) w' :=
      .of_book hready (congrArg MemoryLedger.book hrecovered.reserves.ledger) hmoved
    have hsame : w'.settledOnRecord sessionId = w.settledOnRecord sessionId :=
      (World.PostsFor.of_book hready (congrArg MemoryLedger.book hrecovered.reserves.ledger) hmoved :
        w.PostsFor (fun _ => False) w').settledOnRecord fun _ hnone => hnone.elim
    have hrefunds : ∀ {v : World}, v.Ready →
        v.PostsFor (OwnId sessionId) (refundSessionEscrows env sessionId v).2.2 ∧
          (refundSessionEscrows env sessionId v).2.2.settledOnRecord sessionId =
            v.settledOnRecord sessionId := by
      intro v hv
      have hposts := refundSessionEscrows_postsFor env sessionId hv
      refine ⟨hposts.widen ?_, hposts.settledOnRecord ?_⟩
      · rintro txnId ⟨userId, rfl⟩
        exact .refund userId
      · rintro txnId ⟨userId, rfl⟩
        exact escrowRefundId_evidence sessionId sessionId userId
    by_cases hsettled : w.settledOnRecord sessionId = true
    · obtain ⟨hposts, hkept⟩ := hrefunds hready
      have hworld : (sweepSession env input sessionId summary w).2 =
          (refundSessionEscrows env sessionId w').2.2 := by
        unfold sweepSession
        simp only [hrun, hrecovered.settled, hsettled, if_true, OrphanSweepSummary.refunded_world]
      rw [hworld, hkept, hsame]
      exact ⟨hrecover.trans hposts, fun h => Or.inl h, fun _ => hsettled⟩
    · have hunsettled := Bool.eq_false_iff.mpr hsettled
      by_cases hripe : input.ripe (input.now - newestMovementAt sessionId w) = true
      · have hsettle := hrecovered.settle_postsFor hw hrows hunsettled
        have hiff := hrecovered.settle_leaves_iff hw hrows hunsettled (mem_sessionIds.mp hlisted)
        have hstale : input.Stale env sessionId w := by
          refine ⟨hlisted, ?_, hunsettled, hripe⟩
          rw [hrecovered.journaled]
          rfl
        obtain ⟨v, hposts, hv, hworld⟩ : ∃ v, (settle env s w').2.2.PostsFor (OwnId sessionId) v ∧
            v.settledOnRecord sessionId = (settle env s w').2.2.settledOnRecord sessionId ∧
            (sweepSession env input sessionId summary w).2 = v := by
          rcases hdone : settle env s w' with ⟨result, s', v⟩
          rw [hdone] at hsettle
          have hripe' : input.ripe (input.now - newestMovementAt sessionId w') = true := by
            rw [newestMovementAt_same hmoved]
            exact hripe
          cases result with
          | error e =>
            refine ⟨v, .refl hsettle.ready, rfl, ?_⟩
            unfold sweepSession
            simp only [hrun, hrecovered.settled, hunsettled, Bool.false_eq_true, if_false, hripe',
              if_true, hdone]
          | ok report =>
            obtain ⟨hrefund, hkept⟩ := hrefunds hsettle.ready
            refine ⟨_, hrefund, hkept, ?_⟩
            unfold sweepSession
            simp only [hrun, hrecovered.settled, hunsettled, Bool.false_eq_true, if_false, hripe', if_true,
              hdone, OrphanSweepSummary.refunded_world]
        rw [hworld, hv]
        refine ⟨hrecover.trans (hsettle.trans hposts), ?_⟩
        rw [hiff]
        exact ⟨fun htakes => Or.inr ⟨hstale, htakes⟩, fun h => (h.resolve_left hsettled).2⟩
      · have hworld : (sweepSession env input sessionId summary w).2 = w' := by
          have hripe' : input.ripe (input.now - newestMovementAt sessionId w') = false := by
            rw [newestMovementAt_same hmoved]
            exact Bool.eq_false_iff.mpr hripe
          unfold sweepSession
          simp only [hrun, hrecovered.settled, hunsettled, Bool.false_eq_true, if_false, hripe']
        rw [hworld, hsame]
        exact ⟨hrecover, fun h => Or.inl h, fun h => h.resolve_right fun htaken => hripe htaken.1.ripe⟩

/-- What another session's sweep posted leaves a session as stale as it was. -/
theorem World.PostsFor.stale_iff {own : String → Prop} {w' : World} (h : w.PostsFor own w')
    (hown : ∀ txnId, own txnId → ¬ EvidenceId sessionId txnId) :
    input.Stale env sessionId w' ↔ input.Stale env sessionId w := by
  have hjournal : journal env sessionId w' = journal env sessionId w := by
    unfold journal
    rw [h.movements]
  have hsettled := h.settledOnRecord hown
  have hnewest := newestMovementAt_same h.movements sessionId
  constructor
  · rintro ⟨hlisted, hverified, hunsettled, hripe⟩
    rw [h.movements] at hlisted
    rw [hjournal] at hverified
    rw [hsettled] at hunsettled
    rw [hnewest] at hripe
    exact ⟨hlisted, hverified, hunsettled, hripe⟩
  · rintro ⟨hlisted, hverified, hunsettled, hripe⟩
    rw [← h.movements] at hlisted
    rw [← hjournal] at hverified
    rw [← hsettled] at hunsettled
    rw [← hnewest] at hripe
    exact ⟨hlisted, hverified, hunsettled, hripe⟩

end OrphanStep

def turnOf (env : Env) (input : OrphanSweepInput) (sessionId : String) (ids : List String) (w : World) :
    World :=
  (sweepSessions env input (ids.takeWhile (· ≠ sessionId)) w).2

section OrphanRun

variable {env : Env} {input : OrphanSweepInput} {w : World}

theorem sweepSessions_snoc (ids : List String) (sessionId : String) :
    sweepSessions env input (ids ++ [sessionId]) w =
      sweepSession env input sessionId (sweepSessions env input ids w).1
        (sweepSessions env input ids w).2 :=
  List.foldl_concat _ _ _ _

theorem sweepSessions_postsFor (hw : w.Journaled) {ids : List String}
    (hids : ∀ id ∈ ids, id ∈ sessionIds w.movements) :
    w.PostsFor (fun txnId => ∃ id ∈ ids, OwnId id txnId) (sweepSessions env input ids w).2 := by
  induction ids using List.reverseRecOn with
  | nil => exact .refl hw.ready
  | append_singleton ids id ih =>
    have hbefore := ih fun id' hid' => hids id' (List.mem_append_left _ hid')
    have hlisted : id ∈ sessionIds (sweepSessions env input ids w).2.movements := by
      rw [hbefore.movements]
      exact hids id (List.mem_append_right _ List.mem_cons_self)
    obtain ⟨hstep, -⟩ := sweepSession_spec env input (sweepSessions env input ids w).1
      (hbefore.journaled hw) hlisted
    rw [sweepSessions_snoc]
    refine (hbefore.widen ?_).trans (hstep.widen ?_)
    · rintro txnId ⟨id', hid', hown⟩
      exact ⟨id', List.mem_append_left _ hid', hown⟩
    · exact fun txnId hown => ⟨id, List.mem_append_right _ List.mem_cons_self, hown⟩

theorem takeWhile_ne_append {ids more : List String} (h : sessionId ∈ ids) :
    (ids ++ more).takeWhile (· ≠ sessionId) = ids.takeWhile (· ≠ sessionId) := by
  rw [List.takeWhile_append, if_neg]
  intro hlength
  have hall := (List.takeWhile_sublist (fun x => decide (x ≠ sessionId)) (l := ids)).eq_of_length hlength
  exact of_decide_eq_true (List.takeWhile_eq_self_iff.mp hall sessionId h) rfl

/-- A run leaves a session settled on record just when it was, or when it is stale, it has its turn, and
the ledger takes something of it then. -/
theorem sweepSessions_settles_iff (hw : w.Journaled) {ids : List String} (hnodup : ids.Nodup)
    (hids : ∀ id ∈ ids, id ∈ sessionIds w.movements) (sessionId : String) :
    (sweepSessions env input ids w).2.settledOnRecord sessionId = true ↔
      w.settledOnRecord sessionId = true ∨
        (sessionId ∈ ids ∧ input.Stale env sessionId w ∧ (turnOf env input sessionId ids w).takesAny
          sessionId) := by
  induction ids using List.reverseRecOn with
  | nil =>
    constructor
    · exact Or.inl
    · rintro (h | ⟨h, -⟩)
      · exact h
      · exact absurd h List.not_mem_nil
  | append_singleton ids id ih =>
    obtain ⟨hnodup', -, hapart⟩ := List.nodup_append.mp hnodup
    have hlast : id ∉ ids := fun hin => hapart id hin id List.mem_cons_self rfl
    have hbefore := @sweepSessions_postsFor env input w hw ids fun id' hid' =>
      hids id' (List.mem_append_left _ hid')
    have hlisted : id ∈ sessionIds (sweepSessions env input ids w).2.movements := by
      rw [hbefore.movements]
      exact hids id (List.mem_append_right _ List.mem_cons_self)
    obtain ⟨hstep, hiff⟩ := sweepSession_spec env input (sweepSessions env input ids w).1
      (hbefore.journaled hw) hlisted
    have hrest := ih hnodup' fun id' hid' => hids id' (List.mem_append_left _ hid')
    rw [sweepSessions_snoc]
    by_cases hsame : sessionId = id
    · subst hsame
      have hown : ∀ txnId, (∃ id ∈ ids, OwnId id txnId) → ¬ EvidenceId sessionId txnId := by
        rintro txnId ⟨id', hid', hown⟩
        apply hown.elsewhere
        rintro rfl
        exact hlast hid'
      have hturn : turnOf env input sessionId (ids ++ [sessionId]) w =
          (sweepSessions env input ids w).2 := by
        unfold turnOf
        rw [List.takeWhile_append_of_pos, List.takeWhile_cons_of_neg, List.append_nil]
        · exact fun h => of_decide_eq_true h rfl
        · intro id' hid'
          apply decide_eq_true
          rintro rfl
          exact hlast hid'
      rw [hiff, hbefore.settledOnRecord hown, hbefore.stale_iff hown, hturn]
      apply or_congr_right
      exact ⟨fun h => ⟨List.mem_append_right _ List.mem_cons_self, h⟩, fun h => h.2⟩
    · have hother : ∀ txnId, OwnId id txnId → ¬ EvidenceId sessionId txnId := fun txnId hown =>
        hown.elsewhere (Ne.symm hsame)
      rw [hstep.settledOnRecord hother, hrest]
      apply or_congr_right
      have hmem : sessionId ∈ ids ++ [id] ↔ sessionId ∈ ids := by
        rw [List.mem_append, List.mem_singleton, or_iff_left hsame]
      rw [hmem]
      apply and_congr_right
      intro hin
      have hturn : turnOf env input sessionId (ids ++ [id]) w = turnOf env input sessionId ids w := by
        unfold turnOf
        rw [takeWhile_ne_append hin]
      rw [hturn]

end OrphanRun

/-- The store after so many runs; the `n`-th is given the time `now n`. -/
def orphanRuns (env : Env) (input : OrphanSweepInput) (now : Nat → Int) (w : World) : Nat → World
  | 0 => w
  | n + 1 => (sweepOrphanSessions env { input with now := now n } (orphanRuns env input now w n)).2

def orphanTurn (env : Env) (input : OrphanSweepInput) (sessionId : String) (w : World) : World :=
  turnOf env input sessionId ((sessionIds w.movements).take input.limit) w

/-- From some run on, every run leaves no session stale. -/
def SweepsAll (env : Env) (input : OrphanSweepInput) (now : Nat → Int) (w : World) : Prop :=
  ∃ start, ∀ n, start ≤ n → ∀ sessionId,
    ¬ { input with now := now n }.Stale env sessionId (orphanRuns env input now w (n + 1))

/-- Every session that is ever stale is within the limit, and in some run in which it is stale the ledger
takes something of it at its turn. -/
def Reaches (env : Env) (input : OrphanSweepInput) (now : Nat → Int) (w : World) : Prop :=
  ∀ sessionId, (∃ n, { input with now := now n }.Stale env sessionId w) →
    sessionId ∈ (sessionIds w.movements).take input.limit ∧
      ∃ n, { input with now := now n }.Stale env sessionId (orphanRuns env input now w n) ∧
        (orphanTurn env { input with now := now n } sessionId (orphanRuns env input now w n)).takesAny
          sessionId

section OrphanRuns

variable {env : Env} {input : OrphanSweepInput} {now : Nat → Int} {w : World}

theorem orphanRuns_keeps (env : Env) (input : OrphanSweepInput) (now : Nat → Int) (hw : w.Journaled)
    (n : Nat) :
    (orphanRuns env input now w n).Journaled ∧ (orphanRuns env input now w n).movements = w.movements := by
  induction n with
  | zero => exact ⟨hw, rfl⟩
  | succ n ih =>
    obtain ⟨hjournaled, hmovements⟩ := ih
    have hposts := @sweepSessions_postsFor env { input with now := now n } _ hjournaled
      ((sessionIds (orphanRuns env input now w n).movements).take input.limit) fun id hid =>
        List.mem_of_mem_take hid
    exact ⟨hposts.journaled hjournaled, hposts.movements.trans hmovements⟩

theorem orphanRuns_settles_iff (hw : w.Journaled) (sessionId : String) (n : Nat) :
    (orphanRuns env input now w (n + 1)).settledOnRecord sessionId = true ↔
      (orphanRuns env input now w n).settledOnRecord sessionId = true ∨
        (sessionId ∈ (sessionIds w.movements).take input.limit ∧
          { input with now := now n }.Stale env sessionId (orphanRuns env input now w n) ∧
          (orphanTurn env { input with now := now n } sessionId (orphanRuns env input now w n)).takesAny
            sessionId) := by
  obtain ⟨hjournaled, hmovements⟩ := orphanRuns_keeps env input now hw n
  have hiff := @sweepSessions_settles_iff env { input with now := now n } _ hjournaled
    ((sessionIds (orphanRuns env input now w n).movements).take input.limit)
    ((nodup_sessionIds _).sublist (List.take_sublist _ _))
    (fun id hid => List.mem_of_mem_take hid) sessionId
  unfold orphanTurn
  rw [← hmovements]
  exact hiff

theorem orphanRuns_settled_mono (hw : w.Journaled) {sessionId : String} {m n : Nat} (h : m ≤ n)
    (hsettled : (orphanRuns env input now w m).settledOnRecord sessionId = true) :
    (orphanRuns env input now w n).settledOnRecord sessionId = true := by
  induction n, h using Nat.le_induction with
  | base => exact hsettled
  | succ n _ ih => exact (orphanRuns_settles_iff hw sessionId n).mpr (Or.inl ih)

/-- A stale session stays stale as time goes on, unless it counts as settled. -/
theorem OrphanSweepInput.Stale.later {w w' : World} {early late : Int}
    (h : { input with now := early }.Stale env sessionId w) (hlate : early ≤ late)
    (hmovements : w'.movements = w.movements)
    (hunsettled : w'.settledOnRecord sessionId = false) :
    { input with now := late }.Stale env sessionId w' := by
  obtain ⟨hlisted, hverified, -, hripe⟩ := h
  refine ⟨?_, ?_, hunsettled, ?_⟩
  · rw [hmovements]
    exact hlisted
  · have hjournal : journal env sessionId w' = journal env sessionId w := by
      unfold journal
      rw [hmovements]
    rw [hjournal]
    exact hverified
  · rw [newestMovementAt_same hmovements]
    unfold OrphanSweepInput.ripe at hripe ⊢
    cases hbound : input.settleOlderThanMs with
    | none =>
      rw [hbound] at hripe
      cases hripe
    | some bound =>
      rw [hbound] at hripe
      have hover : bound < early - newestMovementAt sessionId w := of_decide_eq_true hripe
      have hstill : bound < late - newestMovementAt sessionId w := by omega
      exact decide_eq_true hstill

/-- The orphan sweep works off its backlog just when it reaches every session of it. -/
theorem orphan_progress_iff (env : Env) (input : OrphanSweepInput) (hnow : Monotone now)
    (hw : w.Journaled) : SweepsAll env input now w ↔ Reaches env input now w := by
  have hmovements := fun n => (orphanRuns_keeps env input now hw n).2
  constructor
  · rintro ⟨start, hnone⟩ sessionId ⟨k, hstale⟩
    have hsettled : (orphanRuns env input now w (max start k + 1)).settledOnRecord sessionId = true := by
      by_contra hunsettled
      apply hnone (max start k) (le_max_left _ _) sessionId
      exact hstale.later (hnow (le_max_right _ _)) (hmovements _) (Bool.eq_false_iff.mpr hunsettled)
    obtain ⟨n, hbefore, hafter⟩ : ∃ n, (orphanRuns env input now w n).settledOnRecord sessionId = false ∧
        (orphanRuns env input now w (n + 1)).settledOnRecord sessionId = true := by
      by_contra hno
      push Not at hno
      have hall : ∀ n, (orphanRuns env input now w n).settledOnRecord sessionId = false := by
        intro n
        induction n with
        | zero => exact hstale.unsettled
        | succ n ih => exact Bool.eq_false_iff.mpr (hno n ih)
      rw [hall] at hsettled
      cases hsettled
    rcases (orphanRuns_settles_iff hw sessionId n).mp hafter with hwas | ⟨hin, hripe, htakes⟩
    · rw [hbefore] at hwas
      cases hwas
    · exact ⟨hin, n, hripe, htakes⟩
  · intro hreaches
    obtain ⟨start, hall⟩ := @all_due String (fun n id => (orphanRuns env input now w n).settledOnRecord id)
      (fun n id hsettled => orphanRuns_settled_mono hw (Nat.le_succ n) hsettled) (sessionIds w.movements)
    refine ⟨start, ?_⟩
    intro n hn sessionId hstale
    have hunsettled : w.settledOnRecord sessionId = false := by
      cases hsettled : w.settledOnRecord sessionId with
      | false => rfl
      | true =>
        have hstill := @orphanRuns_settled_mono env input now w hw sessionId 0 (n + 1)
          (Nat.zero_le _) hsettled
        exact absurd (hstale.unsettled.symm.trans hstill) Bool.false_ne_true
    have hfirst := hstale.later (le_refl (now n)) (hmovements (n + 1)).symm hunsettled
    obtain ⟨hin, k, hripe, htakes⟩ := hreaches sessionId ⟨n, hfirst⟩
    have hsettles := (orphanRuns_settles_iff hw sessionId k).mpr (Or.inr ⟨hin, hripe, htakes⟩)
    have hbound := hall sessionId hfirst.listed ⟨k + 1, hsettles⟩
    have hstill := orphanRuns_settled_mono hw (hn.trans (Nat.le_succ n)) hbound
    exact absurd (hstale.unsettled.symm.trans hstill) Bool.false_ne_true

end OrphanRuns

/-! ## One session of the retention sweep -/

/-- A session whose rows the retention sweep drops when it gets to it. -/
def prunable (env : Env) (input : RetentionSweepInput) (w : World) (sessionId : String) : Bool :=
  (journal env sessionId w).isOk && w.settledOnRecord sessionId &&
    decide (input.sessionsOlderThanMs < input.now - newestMovementAt sessionId w)

/-- `w'` is `w` without the rows of some sessions, and with escrow refunds. -/
structure World.Thins (gone : String → Bool) (w w' : World) : Prop where
  ready : w'.Ready
  movements : w'.movements = w.movements.filter fun m => !gone m.sessionId
  posted : ∀ txnId, (∀ sessionId, ¬ RefundId sessionId txnId) → w'.posted txnId = w.posted txnId

section RetentionStep

variable {env : Env} {input : RetentionSweepInput} {w w' : World} {gone : String → Bool}

theorem World.PostsFor.thins (h : w.PostsFor (RefundId sessionId) w') : w.Thins (fun _ => false) w' :=
  ⟨h.ready, h.movements.trans (List.filter_eq_self.mpr fun _ _ => rfl).symm,
    fun txnId hnone => h.others txnId (hnone sessionId)⟩

theorem Settling.pruneSession_ready (hw : w.Ready) (sessionId : String) :
    (Settling.pruneSession sessionId w).Ready := by
  obtain ⟨h1, h2, h3, h4, h5, h6, h7, h8, h9, h10⟩ := hw.closed
  exact ⟨⟨h1, h2, h3, h4, h5, h6, h7, h8, h9, h10⟩, hw.honest⟩

theorem World.Thins.rows (h : w.Thins gone w') (hkept : gone sessionId = false) :
    bySession sessionId w'.movements = bySession sessionId w.movements := by
  unfold bySession
  rw [h.movements, List.filter_filter]
  congr 1
  apply List.filter_congr
  intro m _
  by_cases hid : m.sessionId = sessionId
  · rw [hid, hkept, decide_eq_true rfl]
    rfl
  · rw [decide_eq_false hid]
    rfl

theorem World.Thins.settledOnRecord (h : w.Thins gone w') (hkept : gone sessionId = false) :
    w'.settledOnRecord sessionId = w.settledOnRecord sessionId := by
  have hsame : ∀ txnId, EvidenceId sessionId txnId → w'.posted txnId = w.posted txnId := by
    intro txnId hevidence
    apply h.posted
    rintro other ⟨userId, rfl⟩
    exact escrowRefundId_evidence other sessionId userId hevidence
  unfold World.settledOnRecord
  simp only [h.rows hkept, hsame _ (.chunk _), hsame _ (.comp _), hsame _ (.movement _)]

theorem World.Thins.prunable (h : w.Thins gone w') (hkept : gone sessionId = false) :
    EconomyLab.prunable env input w' sessionId = EconomyLab.prunable env input w sessionId := by
  unfold EconomyLab.prunable newestMovementAt journal
  rw [h.settledOnRecord hkept, h.rows hkept]

theorem World.Thins.trans {gone' : String → Bool} {w'' : World} (h : w.Thins gone w')
    (h' : w'.Thins gone' w'') :
    w.Thins (fun sessionId => gone sessionId || gone' sessionId) w'' := by
  refine ⟨h'.ready, ?_, fun txnId hnone => (h'.posted txnId hnone).trans (h.posted txnId hnone)⟩
  rw [h'.movements, h.movements, List.filter_filter]
  apply List.filter_congr
  intro m _
  rw [Bool.not_or, Bool.and_comm]

theorem World.Thins.none (hw : w.Ready) (h : ∀ sessionId, gone sessionId = false) : w.Thins gone w := by
  refine ⟨hw, ?_, fun _ _ => rfl⟩
  apply Eq.symm
  apply List.filter_eq_self.mpr
  intro m _
  rw [h]
  rfl

theorem pruneIfSettled_failed (env : Env) (input : RetentionSweepInput) (sessionId : String)
    (lane : SessionsLane) (w : World)
    (hclean : (pruneIfSettled env input sessionId lane w).1.failed = []) : lane.failed = [] := by
  unfold pruneIfSettled at hclean
  split at hclean
  · exact (List.append_eq_nil_iff.mp hclean).1
  · split at hclean
    · exact hclean
    · split at hclean
      · exact hclean
      · split at hclean
        · exact (List.append_eq_nil_iff.mp hclean).1
        · exact hclean

/-- A look at a session that does not fail drops its rows just when it is prunable. -/
theorem pruneIfSettled_spec (env : Env) (input : RetentionSweepInput) (sessionId : String)
    {lane : SessionsLane} (hw : w.Ready)
    (hclean : (pruneIfSettled env input sessionId lane w).1.failed = []) :
    w.Thins (fun id => decide (id = sessionId) && prunable env input w sessionId)
      (pruneIfSettled env input sessionId lane w).2 := by
  have hadd : ∀ reason : Reason, lane.failed ++ [(sessionId, reason)] ≠ [] := fun _ =>
    List.append_ne_nil_of_right_ne_nil _ (List.cons_ne_nil _ _)
  rcases recoverByDefault_cases env sessionId .process w with ⟨e, hjournal, hrun⟩ |
      ⟨s, w', hrun, hrecovered⟩
  · have hinspect : inspectSession env sessionId w = .error e := congrArg Prod.fst hrun
    unfold pruneIfSettled at hclean
    simp only [hinspect] at hclean
    exact absurd hclean (hadd _)
  · have hinspect : inspectSession env sessionId w = .ok s := congrArg Prod.fst hrun
    have hverified : (journal env sessionId w).isOk = true := by
      rw [hrecovered.journaled]
      rfl
    unfold pruneIfSettled at hclean ⊢
    simp only [hinspect, hrecovered.settled] at hclean ⊢
    by_cases hdue : prunable env input w sessionId = true
    · obtain ⟨hboth, hold⟩ := Bool.and_eq_true_iff.mp hdue
      have hsettled := (Bool.and_eq_true_iff.mp hboth).2
      have hage := not_le.mpr (of_decide_eq_true hold)
      have hposts := refundSessionEscrows_postsFor env sessionId hw
      rw [hsettled, Bool.not_true, if_neg Bool.false_ne_true, if_neg hage] at hclean ⊢
      rcases hrefunds : refundSessionEscrows env sessionId w with ⟨result, refunds, w₁⟩
      rw [hrefunds] at hposts hclean
      cases result with
      | error e => exact absurd hclean (hadd _)
      | ok u =>
        have hprune : w₁.Thins (fun id => decide (id = sessionId))
            (Settling.pruneSession sessionId w₁) := by
          refine ⟨Settling.pruneSession_ready hposts.ready sessionId, ?_, fun _ _ => rfl⟩
          apply List.filter_congr
          intro m _
          exact decide_not
        have hthins := hposts.thins.trans hprune
        simp only [hdue, Bool.and_true]
        simp only [Bool.false_or] at hthins
        exact hthins
    · have hnone : w.Thins (fun id => decide (id = sessionId) && prunable env input w sessionId) w := by
        apply World.Thins.none hw
        intro id
        rw [Bool.eq_false_iff.mpr hdue, Bool.and_false]
      by_cases hsettled : w.settledOnRecord sessionId = true
      · have hyoung : input.now - newestMovementAt sessionId w ≤ input.sessionsOlderThanMs := by
          by_contra hold
          apply hdue
          unfold prunable
          rw [hverified, hsettled, decide_eq_true (not_le.mp hold)]
          rfl
        rw [hsettled, Bool.not_true, if_neg Bool.false_ne_true, if_pos hyoung]
        exact hnone
      · rw [Bool.eq_false_iff.mpr hsettled, Bool.not_false, if_pos rfl]
        exact hnone

theorem pruneSessions_spec (env : Env) (input : RetentionSweepInput) (hw : w.Ready) {ids : List String}
    (hnodup : ids.Nodup) (hclean : (pruneSessions env input ids w).1.failed = []) :
    w.Thins (fun id => decide (id ∈ ids) && prunable env input w id)
      (pruneSessions env input ids w).2 := by
  induction ids using List.reverseRecOn with
  | nil => exact World.Thins.none hw fun _ => rfl
  | append_singleton ids id ih =>
    obtain ⟨hnodup', -, hapart⟩ := List.nodup_append.mp hnodup
    have hlast : id ∉ ids := fun hin => hapart id hin id List.mem_cons_self rfl
    have hsnoc : pruneSessions env input (ids ++ [id]) w =
        pruneIfSettled env input id (pruneSessions env input ids w).1 (pruneSessions env input ids w).2 :=
      List.foldl_concat _ _ _ _
    rw [hsnoc] at hclean ⊢
    have hbefore := ih hnodup' (pruneIfSettled_failed env input id _ _ hclean)
    have hstep := hbefore.trans (pruneIfSettled_spec env input id hbefore.ready hclean)
    have hkept : (decide (id ∈ ids) && prunable env input w id) = false := by
      rw [decide_eq_false hlast, Bool.false_and]
    rw [hbefore.prunable hkept] at hstep
    refine ⟨hstep.ready, hstep.movements.trans ?_, hstep.posted⟩
    apply List.filter_congr
    intro m _
    congr 1
    by_cases hid : m.sessionId = id
    · subst hid
      rw [decide_eq_false hlast, decide_eq_true rfl,
        decide_eq_true (List.mem_append_right _ List.mem_cons_self)]
      rfl
    · have hmem : m.sessionId ∈ ids ++ [id] ↔ m.sessionId ∈ ids := by
        rw [List.mem_append, List.mem_singleton, or_iff_left hid]
      rw [decide_eq_false hid, decide_eq_decide.mpr hmem]
      exact Bool.or_false _

theorem pruneSettledSessions_spec (env : Env) (input : RetentionSweepInput) (hw : w.Ready)
    (hclean : (pruneSettledSessions env input w).1.failed = []) :
    w.Thins (fun id => decide (id ∈ (sessionIds w.movements).take input.limit) && prunable env input w id)
        (pruneSettledSessions env input w).2 ∧
      sessionIds (pruneSettledSessions env input w).2.movements =
        dropDue input.limit (prunable env input w) (sessionIds w.movements) := by
  have hnodup := nodup_sessionIds w.movements
  have hthins := pruneSessions_spec env input hw (hnodup.sublist (List.take_sublist input.limit _)) hclean
  refine ⟨hthins, ?_⟩
  have hids := sessionIds_filter
    (fun id => !(decide (id ∈ (sessionIds w.movements).take input.limit) && prunable env input w id))
      w.movements
  rw [← hthins.movements] at hids
  exact hids.trans (dropDue_eq_filter hnodup).symm

end RetentionStep

def retentionRuns (env : Env) (input : RetentionSweepInput) (now : Nat → Int) (w : World) : Nat → World
  | 0 => w
  | n + 1 => (pruneSettledSessions env { input with now := now n } (retentionRuns env input now w n)).2

/-- From some run on, every run leaves no session prunable. -/
def PrunesAll (env : Env) (input : RetentionSweepInput) (now : Nat → Int) (w : World) : Prop :=
  ∃ start, ∀ n, start ≤ n → ∀ sessionId ∈ sessionIds (retentionRuns env input now w (n + 1)).movements,
    prunable env { input with now := now n } (retentionRuns env input now w (n + 1)) sessionId = false

/-- Before each session that is ever prunable there are fewer sessions that never are than the limit. -/
def Unblocked (env : Env) (input : RetentionSweepInput) (now : Nat → Int) (w : World) : Prop :=
  ∀ sessionId ∈ sessionIds w.movements,
    (∃ n, prunable env { input with now := now n } w sessionId = true) →
    (((sessionIds w.movements).takeWhile (· ≠ sessionId)).filter
      (stays fun n => prunable env { input with now := now n } w)).length < input.limit

section RetentionRuns

variable {env : Env} {input : RetentionSweepInput} {now : Nat → Int} {w : World}

theorem retentionRuns_thins (hw : w.Ready)
    (hclean : ∀ n, (pruneSettledSessions env { input with now := now n }
      (retentionRuns env input now w n)).1.failed = [])
    (n : Nat) : ∃ gone, w.Thins gone (retentionRuns env input now w n) := by
  induction n with
  | zero => exact ⟨fun _ => false, .none hw fun _ => rfl⟩
  | succ n ih =>
    obtain ⟨gone, hthins⟩ := ih
    exact ⟨_, hthins.trans (pruneSettledSessions_spec env _ hthins.ready (hclean n)).1⟩

theorem World.Thins.listed {gone : String → Bool} {w' : World} (h : w.Thins gone w')
    (hlisted : sessionId ∈ sessionIds w'.movements) : gone sessionId = false := by
  obtain ⟨m, hm, rfl⟩ := mem_sessionIds.mp hlisted
  rw [h.movements] at hm
  have hkept := (List.mem_filter.mp hm).2
  rw [Bool.not_eq_true'] at hkept
  exact hkept

theorem prunable_later {early late : Int} (hlate : early ≤ late)
    (h : prunable env { input with now := early } w sessionId = true) :
    prunable env { input with now := late } w sessionId = true := by
  obtain ⟨hboth, hold⟩ := Bool.and_eq_true_iff.mp h
  have hover : input.sessionsOlderThanMs < early - newestMovementAt sessionId w := of_decide_eq_true hold
  have hstill : input.sessionsOlderThanMs < late - newestMovementAt sessionId w := by omega
  exact Bool.and_eq_true_iff.mpr ⟨hboth, decide_eq_true hstill⟩

theorem takeWhile_ne_split {before after : List String}
    (hnodup : (before ++ sessionId :: after).Nodup) :
    (before ++ sessionId :: after).takeWhile (· ≠ sessionId) = before := by
  have hapart := (List.nodup_append.mp hnodup).2.2
  rw [List.takeWhile_append_of_pos, List.takeWhile_cons_of_neg, List.append_nil]
  · exact fun h => of_decide_eq_true h rfl
  · intro id hid
    exact decide_eq_true (hapart id hid sessionId List.mem_cons_self)

/-- The retention sweep works off its backlog just when nothing that stays blocks it. -/
theorem retention_progress_iff (env : Env) (input : RetentionSweepInput)
    (hnow : Monotone now) (hw : w.Ready)
    (hclean : ∀ n,
      (pruneSettledSessions env { input with now := now n } (retentionRuns env input now w n)).1.failed =
      []) :
    PrunesAll env input now w ↔ Unblocked env input now w := by
  let due : Nat → String → Bool := fun n => prunable env { input with now := now n } w
  let s : Nat → List String := fun n => sessionIds (retentionRuns env input now w n).movements
  have hdue : ∀ k n, ∀ id ∈ s n, prunable env { input with now := now k } (retentionRuns env input now w n)
      id = due k id := by
    intro k n id hid
    obtain ⟨gone, hthins⟩ := retentionRuns_thins hw hclean n
    exact hthins.prunable (hthins.listed hid)
  have hround : ∀ n, s (n + 1) = dropDue input.limit (due n) (s n) := by
    intro n
    obtain ⟨gone, hthins⟩ := retentionRuns_thins hw hclean n
    have hstep := (pruneSettledSessions_spec env { input with now := now n } hthins.ready (hclean n)).2
    exact hstep.trans (dropDue_congr (hdue n n))
  have hmono : ∀ n id, due n id = true → due (n + 1) id = true := fun n id h =>
    prunable_later (hnow (Nat.le_succ n)) h
  have hnodup : (s 0).Nodup := nodup_sessionIds _
  have hiff : ∀ id ∈ s 0, (∃ n, id ∉ s n) ↔ (∃ n, due n id = true) ∧
      (((s 0).takeWhile (· ≠ id)).filter (stays due)).length < input.limit := by
    intro id hid
    obtain ⟨before, after, hsplit⟩ := List.append_of_mem hid
    rw [dropped_iff hround hmono hsplit hnodup, hsplit, takeWhile_ne_split (hsplit ▸ hnodup)]
  constructor
  · rintro ⟨start, hnone⟩ id hid ⟨k, hk⟩
    refine ((hiff id hid).mp ⟨max start k + 1, ?_⟩).2
    intro hstill
    have hgone := hnone (max start k) (le_max_left _ _) id hstill
    rw [hdue _ _ id hstill] at hgone
    exact absurd (hgone.symm.trans (due_later hmono (le_max_right _ _) hk)) Bool.false_ne_true
  · intro hfree
    obtain ⟨start, hall⟩ := @all_due String (fun n id => decide (id ∉ s n)) (fun n id h => by
      apply decide_eq_true
      exact fun hin => of_decide_eq_true h ((rounds_sublist hround (Nat.le_succ n)).subset hin)) (s 0)
    refine ⟨start, ?_⟩
    intro n hn id hid
    have hfirst : id ∈ s 0 := (rounds_sublist hround (Nat.zero_le (n + 1))).subset hid
    rw [hdue n (n + 1) id hid, ← Bool.not_eq_true]
    intro hprunable
    obtain ⟨k, hk⟩ := (hiff id hfirst).mpr ⟨⟨n, hprunable⟩, hfree id hfirst ⟨n, hprunable⟩⟩
    have hgone := of_decide_eq_true (hall id hfirst ⟨k, decide_eq_true hk⟩)
    exact hgone ((rounds_sublist hround (hn.trans (Nat.le_succ n))).subset hid)

end RetentionRuns

/-- The sweeps work off their backlogs just when the limit lets them: the orphan sweep when every session
that is ever stale is within the limit and has something that the ledger takes, the retention sweep when
before each session that is ever prunable fewer sessions stay than the limit. -/
theorem sweeps_progress_iff (env : Env) {w : World} (hw : w.Journaled) {now : Nat → Int}
    (hnow : Monotone now) :
    (∀ input : OrphanSweepInput, SweepsAll env input now w ↔ Reaches env input now w) ∧
    ∀ input : RetentionSweepInput,
      (∀ n, (pruneSettledSessions env { input with now := now n }
        (retentionRuns env input now w n)).1.failed = []) →
      (PrunesAll env input now w ↔ Unblocked env input now w) :=
  ⟨fun input => orphan_progress_iff env input hnow hw,
    fun input hclean => retention_progress_iff env input hnow hw.ready hclean⟩

def orphanEnv : Env := ⟨List.take 4, fun _ => 0, fun _ => ""⟩

/-- Five credits from one user to another, as the first movement of a session. -/
def fiveIn (sessionId key : String) : Movement :=
  let legs : List Leg := [⟨spendable "usr_a", ⟨.credit, 5, .five⟩⟩,
    ⟨spendable "usr_b", ⟨.credit, -5, .neg_five⟩⟩]
  ⟨sessionId, 0, key, legs, GENESIS_HEX, chain orphanEnv.digest GENESIS_HEX key legs, 0⟩

def oneOrphan : World := { fundedPayer orphanEnv with movements := [fiveIn "ses_1" "mv_1"] }

def twoOrphans : World :=
  { fundedPayer orphanEnv with movements := [fiveIn "ses_1" "mv_1", fiveIn "ses_2" "mv_2"] }

def settleOne : OrphanSweepInput := ⟨1000, 1, some 10, .shared⟩

theorem oneOrphan_journaled : oneOrphan.Journaled := by
  refine ⟨World.ready_of_run ⟨rfl, rfl, rfl, rfl, rfl, rfl, rfl, rfl, rfl, rfl⟩ rfl, ?_⟩
  decide

theorem twoOrphans_journaled : twoOrphans.Journaled := by
  refine ⟨World.ready_of_run ⟨rfl, rfl, rfl, rfl, rfl, rfl, rfl, rfl, rfl, rfl⟩ rfl, ?_⟩
  decide

/-- A session that counts as settled and touched no escrow is passed over without a failure. -/
theorem sweepSession_quiet {env : Env} {input : OrphanSweepInput}
    {summary : OrphanSweepSummary} {w : World} (hverified : (journal env sessionId w).isOk = true)
    (hsettled : w.settledOnRecord sessionId = true) (hnone : escrowOwners sessionId w = []) :
    (sweepSession env input sessionId summary w).1.failed = summary.failed := by
  rcases recoverByDefault_cases env sessionId input.registry w with ⟨e, hjournal, -⟩ |
      ⟨s, w', hrun, hrecovered⟩
  · rw [hjournal] at hverified
    cases hverified
  · have howners : escrowOwners sessionId w' = [] := by
      unfold escrowOwners at hnone ⊢
      rw [hrecovered.reserves.movements]
      exact hnone
    unfold sweepSession
    simp only [hrun, hrecovered.settled, hsettled, if_true, refundSessionEscrows, howners, refundOwners,
      OrphanSweepSummary.refunded]

/-- The second orphan is never settled. -/
theorem second_orphan_starves :
    twoOrphans.Journaled ∧
    (∀ n, (sweepOrphanSessions orphanEnv settleOne (orphanRuns orphanEnv settleOne (fun _ => 1000)
      twoOrphans n)).1.failed =
      []) ∧
    ¬ SweepsAll orphanEnv settleOne (fun _ => 1000) twoOrphans := by
  obtain ⟨hfirst, hsettled, hids, howners, hverified, hstale⟩ :
      (sweepOrphanSessions orphanEnv settleOne twoOrphans).1.failed = [] ∧
        (sweepOrphanSessions orphanEnv settleOne twoOrphans).2.settledOnRecord "ses_1" = true ∧
        sessionIds twoOrphans.movements = ["ses_1", "ses_2"] ∧ escrowOwners "ses_1" twoOrphans = [] ∧
        (journal orphanEnv "ses_1" twoOrphans).isOk = true ∧
        ((journal orphanEnv "ses_2" twoOrphans).isOk = true ∧ twoOrphans.settledOnRecord "ses_2" = false ∧
          settleOne.ripe (settleOne.now - newestMovementAt "ses_2" twoOrphans) = true) := by
    decide +kernel
  refine ⟨twoOrphans_journaled, ?_, ?_⟩
  · intro n
    cases n with
    | zero => exact hfirst
    | succ n =>
      have hmovements := (orphanRuns_keeps orphanEnv settleOne (fun _ => 1000)
        twoOrphans_journaled (n + 1)).2
      have hstill := @orphanRuns_settled_mono orphanEnv settleOne (fun _ => 1000) twoOrphans
        twoOrphans_journaled "ses_1" 1
        (n + 1) (Nat.le_add_left 1 n) hsettled
      have htop : (sessionIds twoOrphans.movements).take settleOne.limit = ["ses_1"] := by
        rw [hids]
        rfl
      generalize orphanRuns orphanEnv settleOne (fun _ => 1000) twoOrphans (n + 1) =
        v at hmovements hstill ⊢
      unfold sweepOrphanSessions sweepSessions
      rw [hmovements, htop]
      unfold escrowOwners at howners
      unfold journal at hverified
      rw [← hmovements] at howners hverified
      exact sweepSession_quiet hverified hstill howners
  · rw [orphan_progress_iff orphanEnv settleOne (fun _ _ _ => le_refl _) twoOrphans_journaled]
    intro hreaches
    have hlisted : "ses_2" ∈ sessionIds twoOrphans.movements := by
      rw [hids]
      decide
    obtain ⟨hin, -⟩ := hreaches "ses_2" ⟨0, hlisted, hstale.1, hstale.2.1, hstale.2.2⟩
    rw [hids] at hin
    revert hin
    decide

theorem retentionRuns_empty {env : Env} {input : RetentionSweepInput} {now : Nat → Int} {w : World}
    (h : (retentionRuns env input now w 1).movements = []) (n : Nat) :
    (retentionRuns env input now w (n + 1)).movements = [] ∧
      (pruneSettledSessions env { input with now := now (n + 1) }
        (retentionRuns env input now w (n + 1))).1.failed = [] := by
  have hnothing : ∀ (k : Nat) (v : World), v.movements = [] →
      pruneSettledSessions env { input with now := now k } v = ({}, v) := by
    intro k v hv
    have hids : sessionIds v.movements = [] := by
      unfold sessionIds
      rw [hv, List.map_nil, List.dedup_nil]
      rfl
    unfold pruneSettledSessions
    rw [hids, List.take_nil]
    rfl
  have hempty : (retentionRuns env input now w (n + 1)).movements = [] := by
    induction n with
    | zero => exact h
    | succ n ih =>
      change (pruneSettledSessions env _ (retentionRuns env input now w (n + 1))).2.movements = []
      rw [hnothing (n + 1) _ ih]
      exact ih
  refine ⟨hempty, ?_⟩
  rw [hnothing (n + 1) _ hempty]

/-- A single orphan is settled, and pruned afterwards. -/
theorem single_orphan_progress :
    Reaches orphanEnv settleOne (fun _ => 1000) oneOrphan ∧
    PrunesAll orphanEnv ⟨0, 1, 10⟩ (fun _ => 1000)
      (orphanRuns orphanEnv settleOne (fun _ => 1000) oneOrphan 1) := by
  have hkeeps := orphanRuns_keeps orphanEnv settleOne (fun _ => 1000) oneOrphan_journaled
  obtain ⟨hsettled, hids, hclean, hpruned⟩ :
      let v := (sweepOrphanSessions orphanEnv settleOne oneOrphan).2
      v.settledOnRecord "ses_1" = true ∧ sessionIds oneOrphan.movements = ["ses_1"] ∧
        (pruneSettledSessions orphanEnv ⟨1000, 1, 10⟩ v).1.failed = [] ∧
        (pruneSettledSessions orphanEnv ⟨1000, 1, 10⟩ v).2.movements = [] := by
    decide +kernel
  obtain ⟨horphans, -⟩ := sweeps_progress_iff orphanEnv oneOrphan_journaled
    (fun _ _ _ => le_refl (1000 : Int))
  obtain ⟨-, hretention⟩ := sweeps_progress_iff orphanEnv (hkeeps 1).1 (fun _ _ _ => le_refl (1000 : Int))
  constructor
  · apply (horphans settleOne).mp
    refine ⟨0, ?_⟩
    intro n _ sessionId hstale
    have hlisted := hstale.listed
    rw [(hkeeps (n + 1)).2, hids] at hlisted
    obtain rfl := List.mem_singleton.mp hlisted
    have hstill := @orphanRuns_settled_mono orphanEnv settleOne (fun _ => 1000) oneOrphan
      oneOrphan_journaled "ses_1" 1
      (n + 1) (Nat.le_add_left 1 n) hsettled
    exact absurd (hstale.unsettled.symm.trans hstill) Bool.false_ne_true
  · have hempty := @retentionRuns_empty orphanEnv ⟨0, 1, 10⟩ (fun _ => 1000)
      (orphanRuns orphanEnv settleOne (fun _ => 1000) oneOrphan 1) hpruned
    apply (hretention ⟨0, 1, 10⟩ ?_).mpr
    · intro sessionId hlisted _
      rw [(hkeeps 1).2, hids] at hlisted ⊢
      obtain rfl := List.mem_singleton.mp hlisted
      have hfirst : ["ses_1"].takeWhile (fun id => decide (id ≠ "ses_1")) = [] := by decide
      rw [hfirst]
      decide
    · intro n
      cases n with
      | zero => exact hclean
      | succ n => exact (hempty n).2

end EconomyLab
