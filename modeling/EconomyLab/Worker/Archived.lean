import EconomyLab.Chain.Verdict
import EconomyLab.Worker.Renewing

/-!
# Money that rests on archived history

Archiving prunes the oldest postings while the balances stay. A matured read walks only the
lots that are left, and a renewal re-proves a first charge that may be gone.
-/

namespace EconomyLab

open Foundation

def ReadsAlike (t t' : LedgerTables) (account : AccountRef) (now : Int) (config : Config) : Prop :=
  maturedBalance t account now config = maturedBalance t' account now config ∧
    ∀ amount live, (∀ l, live = some l → l.minor = t.balanceOf account) →
      maturedAtLeast t account now config amount live = maturedAtLeast t' account now config amount live

/-- Past all the lots in the log, no archived lot that the balance still reaches has matured. -/
def RestsOnKept (balance : Int) (cut kept : List StoredPosting) (account : AccountRef) (now : Int)
    (config : Config) : Prop :=
  Unreached Lot.minor (fun lot => isMatured lot now config)
    (balance - totalSize Lot.minor (lotsOf kept account)) (lotsOf cut account)

section Reads

variable {t t' : LedgerTables} {cut kept : List StoredPosting}
  (h : Honest t ⟨cut ++ kept, kept⟩) (h' : Honest t' ⟨cut ++ kept, cut ++ kept⟩)
include h h'

theorem archived_balanceOf : t.balanceOf = t'.balanceOf := by
  funext account
  exact (h.indexes.balanceOf account).trans (h'.indexes.balanceOf account).symm

omit h h' in
theorem settledPart_archived (account : AccountRef) (now : Int) (config : Config) :
    settledPart (lotsOf (cut ++ kept) account) (t.balanceOf account) now config =
        settledPart (lotsOf kept account) (t.balanceOf account) now config ↔
      RestsOnKept (t.balanceOf account) cut kept account now config := by
  unfold RestsOnKept
  rw [← taken_eq_zero_iff lotsOf_pos, lotsOf_append, settledPart, settledPart, taken_append lotsOf_pos]
  omega

theorem readsAlike_iff (account : AccountRef) (now : Int) (config : Config) :
    ReadsAlike t t' account now config ↔
      RestsOnKept (t.balanceOf account) cut kept account now config := by
  rw [← settledPart_archived account now config]
  have hbalance := archived_balanceOf h h'
  obtain ⟨matured, hread, hcurrency, hminor⟩ := maturedBalance_eq h account now config
  obtain ⟨matured', hread', hcurrency', hminor'⟩ := maturedBalance_eq h' account now config
  rw [← hbalance] at hminor'
  simp only at hminor hminor'
  constructor
  · rintro ⟨hsame, -⟩
    rw [hread, hread', Except.ok.injEq] at hsame
    rw [← hminor, ← hminor', hsame]
  · intro hsame
    have hequal : matured = matured' :=
      Amount.ext (hcurrency.trans hcurrency'.symm) (by rw [hminor, hminor', hsame])
    refine ⟨by rw [hread, hread', hequal], ?_⟩
    intro amount live hlive
    have hlive' : ∀ l, live = some l → l.minor = t'.balanceOf account := fun l hl =>
      hbalance ▸ hlive l hl
    rw [maturedAtLeast_eq h account now config amount hlive,
      maturedAtLeast_eq h' account now config amount hlive', ← hbalance]
    simp only [hsame]

end Reads

/-- With unique ids, a first charge that re-derives on the whole log does so on what is left of it
exactly when it is still there. -/
theorem anchored_iff {digest : Digest} {t t' : LedgerTables} {cut kept : List StoredPosting}
    (hids : ((cut ++ kept).map StoredPosting.txnId).Nodup) (hlog : t.log = kept)
    (hlog' : t'.log = cut ++ kept) {sub : Subscription}
    (h : assertSubscriptionAnchored digest t' sub = .ok ()) :
    assertSubscriptionAnchored digest t sub = .ok () ↔ sub.txnId ∈ kept.map StoredPosting.txnId := by
  by_cases hm : sub.txnId ∈ kept.map StoredPosting.txnId
  · have hcut : ∀ row ∈ cut, ¬row.txnId = sub.txnId := by
      intro row hr he
      rw [List.map_append] at hids
      exact (List.nodup_append.mp hids).2.2 _ (List.mem_map_of_mem hr) _ hm he
    have hfind : t.log.find? (·.txnId = sub.txnId) = t'.log.find? (·.txnId = sub.txnId) := by
      have hnone : cut.find? (·.txnId = sub.txnId) = none :=
        List.find?_eq_none.mpr fun row hr => by simpa using hcut row hr
      rw [hlog, hlog', List.find?_append, hnone, Option.none_or]
    have hsame : assertSubscriptionAnchored digest t sub = assertSubscriptionAnchored digest t' sub := by
      simp only [assertSubscriptionAnchored, verifiedPosting, LedgerTables.findPosting, LedgerTables.links,
        hfind]
    exact iff_of_true (hsame.trans h) hm
  · have hnone : t.findPosting sub.txnId = none := by
      have hfind : t.log.find? (·.txnId = sub.txnId) = none := by
        apply List.find?_eq_none.mpr
        intro row hr
        have hne : row.txnId ≠ sub.txnId := fun he => hm (List.mem_map.mpr ⟨row, hlog ▸ hr, he⟩)
        simpa using hne
      simp [LedgerTables.findPosting, hfind]
    refine iff_of_false ?_ hm
    simp [assertSubscriptionAnchored, verifiedPosting, hnone, bind, Except.bind]

theorem Books.post_undos (digest : Digest) (now : Int) (posting : Posting) {s : Books}
    (h : s.ledger.book.undos = none) : (s.post digest now posting).2.ledger.book.undos = none := by
  have hpost : (postEntry digest now posting s.ledger).2.book.undos = none := by
    rcases postEntry_row digest now posting s.ledger with ⟨e, -, hbook⟩ |
        ⟨row, next, -, -, -, -, -, -, happ⟩
    · rw [hbook]
      exact h
    · rw [happ]
      simp [Journaled.write, Journaled.record, h]
  unfold Books.post
  split
  · rename_i hrun
    rw [hrun] at hpost
    exact hpost
  · rename_i hrun
    rw [hrun] at hpost
    exact hpost

theorem ChainStep.step_undos (digest : Digest) (signer : Signer) {k : Chronicle}
    (h : k.books.ledger.book.undos = none) (c : ChainStep) :
    (c.step digest signer k).books.ledger.book.undos = none := by
  cases c with
  | post now posting =>
    have hpost := Books.post_undos digest now posting h
    simp only [ChainStep.step]
    split
    · rename_i hrun
      rw [hrun] at hpost
      exact hpost
    · rename_i hrun
      rw [hrun] at hpost
      exact hpost
  | checkpoint now id crashed =>
    simp only [ChainStep.step]
    split
    · exact h
    · rw [(Books.record_ledger digest signer now id crashed k.books).1]
      exact h
  | archive input stop =>
    apply archiveSealedPrefix_keeps (P := fun s => s.ledger.book.undos = none)
    · exact fun s page hs => hs
    · exact fun s checkpoints hs => hs
    · intro s page hs
      unfold Books.prune pruneFromLog
      simp only
      split
      · exact hs
      · simp [Journaled.write, Journaled.record, hs]
    · exact h

theorem runBooks_undos (digest : Digest) (signer : Signer) (steps : List ChainStep) :
    (runBooks digest signer steps).books.ledger.book.undos = none := by
  have key : ∀ k : Chronicle, k.books.ledger.book.undos = none →
      (steps.foldl (ChainStep.step digest signer) k).books.ledger.book.undos = none := by
    induction steps with
    | nil => exact fun _ h => h
    | cons c steps ih => exact fun k h => ih _ (c.step_undos digest signer h)
  exact key _ rfl

def World.over (w : World) (ledger : MemoryLedger) : World := { w with ledger }

theorem transaction_answer {α : Type} (work : Txn α) {w : World} (h : w.Closed) :
    (transaction work w).1 = (work.run w.opened).1 := by
  unfold transaction
  rw [h.beginAll]
  simp only
  split <;> rename_i hr <;> rw [hr]

/-- What a read of the archived books and a renewal over them still find: nothing matured rests
on archived lots, and the price is matured in what is left with the first charge still there. -/
theorem archiving_transparent_iff (env : Env) (signer : Signer) (steps : List ChainStep)
    (hids : ((runBooks env.digest signer steps).appended.map StoredPosting.txnId).Nodup)
    {cut : List StoredPosting}
    (hcut : (runBooks env.digest signer steps).appended =
      cut ++ (runBooks env.digest signer steps).books.log) :
    let k := runBooks env.digest signer steps
    let bare := runBooks env.digest signer (steps.filter fun c => !c.archives)
    (∀ account now config,
      ReadsAlike k.books.ledger.tables bare.books.ledger.tables account now config ↔
        RestsOnKept (k.books.ledger.tables.balanceOf account) cut k.books.log account now config) ∧
    ∀ config sub (w : World), w.Closed →
      (transaction (renew env config sub) (w.over bare.books.ledger)).1 = .ok .charged →
      ((transaction (renew env config sub) (w.over k.books.ledger)).1 = .ok .charged ↔
        sub.txnId ∈ k.books.log.map StoredPosting.txnId ∧
          (sub.price.minor ≤ 0 ∨ sub.price.minor ≤ settledPart (lotsOf k.books.log (spendable sub.userId))
            (k.books.ledger.tables.balanceOf (spendable sub.userId)) (env.clock w.ticks) config)) := by
  intro k bare
  have hk : Faithful env.digest k.books k.appended := runBooks_faithful env.digest signer steps
  have hbare : Faithful env.digest bare.books bare.appended := runBooks_faithful env.digest signer _
  have hsame : SameHistoryOf k bare := by
    apply runBooks_history env.digest signer steps
    intro c hc
    cases c with
    | post now posting => rfl
    | checkpoint now id crashed => rfl
    | archive input stop => cases hc
  have hkeeps : KeepsLog bare := by
    apply runBooks_keepsLog
    intro c hc
    simpa using (List.mem_filter.mp hc).2
  have hlog : bare.books.log = cut ++ k.books.log := by rw [hkeeps.log, ← hsame.appended, hcut]
  have honest : Honest k.books.ledger.tables ⟨cut ++ k.books.log, k.books.log⟩ := hcut ▸ hk.honest
  have honest' : Honest bare.books.ledger.tables ⟨cut ++ k.books.log, cut ++ k.books.log⟩ := by
    have hb := hbare.honest
    rw [hlog, ← hsame.appended, hcut] at hb
    exact hb
  refine ⟨fun account now config => readsAlike_iff honest honest' account now config, ?_⟩
  intro config sub w hw hcharged
  have hclosed : ∀ l : MemoryLedger, l.book.undos = none → (w.over l).Closed := fun l hl =>
    { hw with ledger := hl }
  have hclosedK := hclosed _ (runBooks_undos env.digest signer steps)
  have hclosedBare := hclosed _ (runBooks_undos env.digest signer (steps.filter fun c => !c.archives))
  obtain ⟨hheads, hbalances⟩ := hsame.tables hk hbare
  have halike : (w.over bare.books.ledger).opened.Alike (w.over k.books.ledger).opened :=
    ⟨rfl, hheads, hbalances, hsame.seq⟩
  rw [transaction_answer _ hclosedBare, renew_charged_iff] at hcharged
  obtain ⟨-, hanchored, hrest⟩ := hcharged
  have hrest' : ((renewOver env config sub (fun _ _ => pure true) (pure ())).run
      (w.over k.books.ledger).opened).1 = .ok .charged :=
    (renewOver_blind (fun _ _ => Txn.Blind.pure true) (Txn.Blind.pure ()) _ _ halike).1.trans hrest
  have hanchor := anchored_iff (hcut ▸ hids) rfl hlog hanchored
  have hcleared : (∃ available, (w.over k.books.ledger).opened.ledger.tables.balance
    (spendable sub.userId) =
        .ok available ∧ maturedAtLeast (w.over k.books.ledger).opened.ledger.tables (spendable sub.userId)
          (env.clock w.ticks) config sub.price (some available) = .ok true) ↔
      (sub.price.minor ≤ 0 ∨ sub.price.minor ≤ settledPart (lotsOf k.books.log (spendable sub.userId))
        (k.books.ledger.tables.balanceOf (spendable sub.userId)) (env.clock w.ticks) config) := by
    have hbal : (w.over k.books.ledger).opened.ledger.tables.balance (spendable sub.userId) =
        .ok ⟨currency (spendable sub.userId), k.books.ledger.tables.balanceOf (spendable sub.userId),
          honest.inRange _⟩ :=
      toAmount_ok (honest.inRange _)
    have hread : ∀ available : Amount,
        available.minor = k.books.ledger.tables.balanceOf (spendable sub.userId) →
        maturedAtLeast k.books.ledger.tables (spendable sub.userId) (env.clock w.ticks) config sub.price
          (some available) =
        .ok (decide (sub.price.minor ≤ 0 ∨ sub.price.minor ≤ settledPart
          (lotsOf k.books.log (spendable sub.userId))
          (k.books.ledger.tables.balanceOf (spendable sub.userId)) (env.clock w.ticks) config)) := by
      intro available hminor
      apply maturedAtLeast_eq honest (spendable sub.userId) (env.clock w.ticks) config sub.price
      intro l hl
      rw [← Option.some.inj hl]
      exact hminor
    constructor
    · rintro ⟨available, hb, hm⟩
      rw [hbal, Except.ok.injEq] at hb
      have hanswer := (hread available (by rw [← hb])).symm.trans hm
      simpa using hanswer
    · intro hprice
      refine ⟨_, hbal, (hread _ rfl).trans ?_⟩
      rw [decide_eq_true hprice]
  rw [transaction_answer _ hclosedK, renew_charged_iff]
  constructor
  · rintro ⟨hc, ha, -⟩
    exact ⟨hanchor.mp ha, hcleared.mp hc⟩
  · rintro ⟨ha, hc⟩
    exact ⟨hcleared.mpr hc, hanchor.mpr ha, hrest'⟩

def sampleSubscription : Subscription :=
  ⟨"sub_1", "usr_a", "usr_s", "pass", ⟨.credit, 1, .one⟩, "txn_1", 10, .active, 0, 0, 50, 0⟩

/-- The posting that funded the buyer also anchors the subscription. -/
def sampleFirstCharge : Posting :=
  ⟨"txn_1", [⟨SYSTEM.REVENUE, ⟨.credit, 5, .five⟩⟩, ⟨spendable "usr_a", ⟨.credit, -5, .neg_five⟩⟩],
    [("kind", .string "subscribe"), ("subscriptionId", .string "sub_1"), ("userId", .string "usr_a"),
      ("sellerId", .string "usr_s"), ("price", .string (encodeAmount ⟨.credit, 1, .one⟩)),
      ("periodMs", .number 10)]⟩

def sampleSubscribed : List ChainStep :=
  [.post 0 sampleFirstCharge, .checkpoint 1 "chk_1" false, .archive ⟨0, 10, 2⟩ none]

def sampleHorizon : Config :=
  ⟨[("card", 10)], 0, 1, false, 3, 100, 10000, 1000, 1000, none, none, none, none, 10, 1000,
    150, [], 100, 0,
    none⟩

def sampleSweep : Env := ⟨weighDigest, fun _ => 50, fun _ => "txn_2"⟩

def sampleSubscriber : World :=
  { World.empty with subscriptions := ⟨OrderedTable.empty.set "sub_1" sampleSubscription, none⟩ }

theorem sampleSubscriber_charged :
    (transaction (renew sampleSweep sampleHorizon sampleSubscription)
      (sampleSubscriber.over (runBooks sampleSweep.digest echoSigner
        (sampleSubscribed.filter fun c => !c.archives)).books.ledger)).1 = .ok .charged := by
  decide +kernel

theorem archiving_transparent_subscribed :
    (transaction (renew sampleSweep sampleHorizon sampleSubscription)
      (sampleSubscriber.over (runBooks sampleSweep.digest echoSigner sampleSubscribed).books.ledger)).1 ≠
        .ok .charged := by
  have hlog : (runBooks sampleSweep.digest echoSigner sampleSubscribed).books.log.length = 0 := by
    decide +kernel
  have hnil := List.eq_nil_of_length_eq_zero hlog
  have hposts := runBooks_history sampleSweep.digest echoSigner sampleSubscribed fun _ hc => hc
  have hids : ((runBooks sampleSweep.digest echoSigner sampleSubscribed).appended.map
      StoredPosting.txnId).Nodup := by
    rw [hposts.appended]
    decide +kernel
  have hclosed : sampleSubscriber.Closed := ⟨rfl, rfl, rfl, rfl, rfl, rfl, rfl, rfl, rfl, rfl⟩
  have hcut : (runBooks sampleSweep.digest echoSigner sampleSubscribed).appended =
      (runBooks sampleSweep.digest echoSigner sampleSubscribed).appended ++
        (runBooks sampleSweep.digest echoSigner sampleSubscribed).books.log := by
    rw [hnil, List.append_nil]
  have hiff := (archiving_transparent_iff sampleSweep echoSigner sampleSubscribed hids hcut).2
    sampleHorizon sampleSubscription sampleSubscriber hclosed sampleSubscriber_charged
  intro hcharged
  have hkept := (hiff.mp hcharged).1
  rw [hnil] at hkept
  exact List.not_mem_nil hkept

/-- The funds had matured and the renewal was due and paid for; after the archive run neither the
read nor the renewal finds them. -/
theorem archived_funds_unread :
    (maturedBalance (runBooks sampleSweep.digest echoSigner (sampleSubscribed.filter fun c =>
      !c.archives)).books.ledger.tables
      (spendable "usr_a") 50 sampleHorizon).toOption.map Amount.minor = some 5 ∧
    (maturedBalance (runBooks sampleSweep.digest echoSigner sampleSubscribed).books.ledger.tables
      (spendable "usr_a") 50 sampleHorizon).toOption.map Amount.minor = some 0 ∧
    (transaction (renew sampleSweep sampleHorizon sampleSubscription)
      (sampleSubscriber.over (runBooks sampleSweep.digest echoSigner
        (sampleSubscribed.filter fun c => !c.archives)).books.ledger)).1 = .ok .charged ∧
    (transaction (renew sampleSweep sampleHorizon sampleSubscription)
      (sampleSubscriber.over (runBooks sampleSweep.digest echoSigner sampleSubscribed).books.ledger)).1 =
        .ok .immature := by
  refine ⟨?_, ?_, sampleSubscriber_charged, ?_⟩ <;> decide +kernel

end EconomyLab
