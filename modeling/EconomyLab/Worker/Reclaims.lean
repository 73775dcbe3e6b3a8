import Mathlib.Algebra.Order.BigOperators.Group.List
import EconomyLab.Economy.Locking
import EconomyLab.Foundation.Runs
import EconomyLab.Worker.Promos

/-!
# What the expiry of promo grants takes back

The grant rows are marked once, so no grant is reversed twice, and never for more than its
amount. The balance that a sweep draws on is pooled, so it leaves the grants that have not
expired alone only where the balance covers them beside what is due.
-/

namespace EconomyLab

open Foundation

def promoBalance (w : World) (userId : String) : Int := w.ledger.tables.balanceOf (promo userId)

structure Reversed (grant : PromoGrant) (amount : Amount) (w w' : World) : Prop where
  posted : ∃ row : StoredPosting, w'.ledger.tables.log = w.ledger.tables.log ++ [row] ∧
    metaText row.fields "grantId" = some grant.id ∧
    row.legs.head? = some (debit (promo grant.userId) amount)
  taken : promoBalance w grant.userId - amount.minor ≤ promoBalance w' grant.userId
  others : ∀ userId, userId ≠ grant.userId → promoBalance w' userId = promoBalance w userId

structure SettlesGrant (grant : PromoGrant) (amount : Amount) (w w' : World) : Prop where
  minor : amount.minor = min (promoBalance w grant.userId) grant.amount.minor
  row : w'.promos = (PromoWrite.markReversed grant.id).run w.promos
  books : if 0 < amount.minor then Reversed grant amount w w' else w'.ledger = w.ledger

variable {w w' : World}

variable (env : Env) {grant : PromoGrant} {amount : Amount}

theorem postReversal_reversed {env : Env} (hpositive : 0 < amount.minor) {u : Unit}
    (h : (postReversal env grant amount).run w = (.ok u, w')) :
    Reversed grant amount w w' ∧ w'.promos = w.promos := by
  obtain ⟨txnId, w₁, hminted, h⟩ := Txn.bind_ok h
  obtain ⟨legs, w₂, hlegs, h⟩ := Txn.bind_ok h
  obtain ⟨transaction, w₃, hposted, h⟩ := Txn.bind_ok h
  obtain rfl : w₃ = w' := congrArg Prod.snd h
  obtain rfl : w₁ = w₂ := congrArg Prod.snd hlegs
  have hledger : w₁.ledger = w.ledger := congrArg (fun r => r.2.ledger) hminted.symm
  have hpromos : w₁.promos = w.promos := congrArg (fun r => r.2.promos) hminted.symm
  obtain ⟨toFloat, hfloat, hbuilt⟩ := except_bind_ok.mp (congrArg Prod.fst hlegs)
  obtain rfl := except_pure_ok.mp hbuilt
  obtain ⟨hfloatAccount, hfloatMinor⟩ := credit_ok hfloat
  have hwork : (Work.postEntry env ⟨txnId, [debit (promo grant.userId) amount, toFloat],
      [("kind", .string "promos.expiry"), ("grantId", .string grant.id)]⟩).txn.run w₁ =
        (.ok transaction, w₃) := hposted
  obtain ⟨row, hrow, -, -, hlog, hbalances⟩ := postEntry_posted hwork
  have hrowLegs : row.legs = [debit (promo grant.userId) amount, toFloat] := by
    have hfilter : row.legs = [debit (promo grant.userId) amount, toFloat].filter (·.amount.minor ≠ 0) :=
      congrArg Posting.legs hrow
    have hdebit : (debit (promo grant.userId) amount).amount.minor ≠ 0 := hpositive.ne'
    have hcredit : toFloat.amount.minor ≠ 0 := by omega
    rw [hfilter, List.filter_cons_of_pos (by
      simpa using hdebit), List.filter_cons_of_pos (by simpa using hcredit),
      List.filter_nil]
  have hmoved : ∀ userId, total (deltas row.legs) (promo userId) =
      if userId = grant.userId then (debit (promo grant.userId) amount).delta else 0 := by
    intro userId
    have hapart : toFloat.account ≠ promo userId := by
      rw [hfloatAccount]
      exact system_ne_wallet promoFloat_system userId .promo
    rw [hrowLegs]
    unfold deltas
    rw [List.map_cons, List.map_cons, List.map_nil, total_cons, total_cons, total_nil]
    simp only [hapart, if_false, Int.add_zero]
    by_cases hsame : userId = grant.userId
    · rw [if_pos hsame, hsame]
      exact if_pos (Eq.refl _)
    · rw [if_neg hsame]
      apply if_neg
      intro haccount
      exact hsame (wallet_inj.mp haccount).1.symm
  refine ⟨⟨⟨row, ?_, ?_, ?_⟩, ?_, ?_⟩, (congrArg (fun r => r.2.promos) hposted.symm).trans hpromos⟩
  · rw [hlog, hledger]
  · have hfields : row.fields = [("kind", .string "promos.expiry"), ("grantId", .string grant.id)] :=
      congrArg Posting.fields hrow
    rw [hfields]
    rfl
  · rw [hrowLegs]
    rfl
  · unfold promoBalance
    rw [hbalances, hmoved, if_pos (Eq.refl _), hledger]
    have hdelta : -amount.minor ≤ (debit (promo grant.userId) amount).delta := by
      unfold Leg.delta debit
      split
      · change -amount.minor ≤ amount.minor
        omega
      · exact le_refl _
    omega
  · intro userId hother
    unfold promoBalance
    rw [hbalances, hmoved, if_neg hother, hledger, Int.add_zero]

theorem markReversed_ends {id : String} {reversed amount : Amount}
    (h : (do Txn.promo (.markReversed id); return reversed : Txn Amount).run w = (.ok amount, w')) :
    amount = reversed ∧ w'.ledger = w.ledger ∧ w'.promos = (PromoWrite.markReversed id).run w.promos := by
  obtain ⟨_, w₁, hmarked, h⟩ := Txn.bind_ok h
  have hanswer := Except.ok.inj (congrArg Prod.fst h)
  have hworld : w₁ = w' := congrArg Prod.snd h
  refine ⟨hanswer.symm, ?_, ?_⟩
  · rw [← hworld]
    exact congrArg (fun r => r.2.ledger) hmarked.symm
  · rw [← hworld]
    exact congrArg (fun r => r.2.promos) hmarked.symm

theorem settleGrant_settles {env : Env}
    (h : (settleGrant env grant).run w = (.ok amount, w')) : SettlesGrant grant amount w w' := by
  obtain ⟨_, w₁, hproved, h⟩ := Txn.bind_ok h
  obtain rfl : w = w₁ := congrArg Prod.snd hproved
  obtain ⟨bal, w₂, hbal, h⟩ := Txn.bind_ok h
  obtain rfl : w = w₂ := congrArg Prod.snd hbal
  obtain ⟨reversed, w₃, hreversed, h⟩ := Txn.bind_ok h
  obtain rfl : w = w₃ := congrArg Prod.snd hreversed
  have hbalance : bal.minor = promoBalance w grant.userId := (toAmount_eq_ok.mp (congrArg Prod.fst hbal)).2
  have hminor := (toAmount_eq_ok.mp (congrArg Prod.fst hreversed)).2
  have hmin : reversed.minor = min (promoBalance w grant.userId) grant.amount.minor := by
    rw [hminor, hbalance]
    split
    · omega
    · omega
  by_cases hpositive : (if bal.minor < grant.amount.minor then bal.minor else grant.amount.minor) > 0
  · rw [if_pos hpositive] at h
    obtain ⟨_, w₄, hposted, h⟩ := Txn.bind_ok h
    obtain ⟨rfl, hledger, hpromos⟩ := markReversed_ends h
    have hamount : 0 < amount.minor := by
      rw [hminor]
      exact hpositive
    obtain ⟨hreversal, hsame⟩ := postReversal_reversed hamount hposted
    refine ⟨hmin, hsame ▸ hpromos, ?_⟩
    rw [if_pos hamount]
    refine ⟨?_, ?_, ?_⟩
    · rw [hledger]
      exact hreversal.posted
    · unfold promoBalance
      rw [hledger]
      exact hreversal.taken
    · intro userId hother
      unfold promoBalance
      rw [hledger]
      exact hreversal.others userId hother
  · rw [if_neg hpositive] at h
    obtain ⟨rfl, hledger, hpromos⟩ := markReversed_ends h
    refine ⟨hmin, hpromos, ?_⟩
    have hamount : ¬ 0 < amount.minor := by
      rw [hminor]
      exact hpositive
    rw [if_neg hamount]
    exact hledger

/-- The user's balance falls by no more than what it holds, and no other balance moves. -/
theorem SettlesGrant.balance (h : SettlesGrant grant amount w w') (userId : String) :
    promoBalance w userId - (if grant.userId = userId then max 0 amount.minor else 0) ≤
      promoBalance w' userId := by
  have hbooks := h.books
  by_cases hpositive : 0 < amount.minor
  · rw [if_pos hpositive] at hbooks
    by_cases hsame : grant.userId = userId
    · have htaken := hbooks.taken
      rw [if_pos hsame, ← hsame]
      omega
    · rw [if_neg hsame, hbooks.others userId (Ne.symm hsame), sub_zero]
  · rw [if_neg hpositive] at hbooks
    unfold promoBalance
    rw [hbooks]
    split
    · omega
    · omega

/-! ## A sweep -/

section Sweep

/-- The unspent amounts that a user's grants may still have: those of grants that have not expired. -/
def liveGrants (rows : OrderedTable String PromoGrant) (userId : String) (now : Int) : Int :=
  ((rows.values.filter fun grant => grant.userId = userId && now < grant.expiresAt).map
    (·.amount.minor)).sum

def grantedTo (grants : List PromoGrant) (userId : String) : Int :=
  ((grants.filter fun grant => grant.userId = userId).map (·.amount.minor)).sum

structure MarksOnly (t t' : OrderedTable String PromoGrant) : Prop where
  filed : GrantsFiled t'
  kept : ∀ id grant, t.get id = some grant → ∃ reversed, t'.get id = some { grant with reversed } ∧
    (grant.reversed = true → reversed = true)

theorem MarksOnly.refl {t : OrderedTable String PromoGrant} (h : GrantsFiled t) : MarksOnly t t :=
  ⟨h, fun _ grant hget => ⟨grant.reversed, hget, fun hreversed => hreversed⟩⟩

theorem MarksOnly.trans {t t' t'' : OrderedTable String PromoGrant} (h : MarksOnly t t')
    (h' : MarksOnly t' t'') :
    MarksOnly t t'' := by
  refine ⟨h'.filed, ?_⟩
  intro id grant hget
  obtain ⟨reversed, hget', hstays⟩ := h.kept id grant hget
  obtain ⟨reversed', hget'', hstays'⟩ := h'.kept id _ hget'
  exact ⟨reversed', hget'', fun hreversed => hstays' (hstays hreversed)⟩

theorem MarksOnly.of_keeps {t t' : OrderedTable String PromoGrant} (h : GrantsFiled t)
    (hkeeps : KeepsGrants t t') :
    MarksOnly t t' :=
  ⟨(hkeeps h).1, fun id grant hget =>
    ⟨grant.reversed, (hkeeps h).2 id grant hget, fun hreversed => hreversed⟩⟩

theorem markReversed_marks {j : Journaled (OrderedTable String PromoGrant)} (h : GrantsFiled j.rows)
    (id : String) :
    MarksOnly j.rows ((PromoWrite.markReversed id).run j).rows ∧
      ∀ grant, j.rows.get id = some grant →
        ((PromoWrite.markReversed id).run j).rows.get id = some { grant with reversed := true } := by
  unfold PromoWrite.run
  simp only
  cases hget : j.rows.get id with
  | none => exact ⟨.refl h, fun _ hgrant => by cases hgrant⟩
  | some grant =>
    simp only
    by_cases hreversed : grant.reversed = true
    · rw [if_pos hreversed]
      refine ⟨.refl h, ?_⟩
      intro grant' hgrant
      obtain rfl := Option.some.inj hgrant
      rw [hget, ← hreversed]
    · rw [if_neg hreversed]
      change MarksOnly j.rows (j.rows.set id { grant with reversed := true }) ∧ ∀ grant', _ →
        (j.rows.set id { grant with reversed := true }).get id = _
      refine ⟨⟨⟨OrderedTable.nodup_keys_set h.distinct _ _, ?_, ?_⟩, ?_⟩, ?_⟩
      · intro k g hk
        rw [OrderedTable.get_set] at hk
        split at hk
        · rename_i hid
          rw [hid, ← Option.some.inj hk]
          exact h.own id grant hget
        · exact h.own k g hk
      · intro k g hk
        rw [OrderedTable.get_set] at hk
        split at hk
        · rw [← Option.some.inj hk]
          exact h.positive id grant hget
        · exact h.positive k g hk
      · intro k g hk
        rw [OrderedTable.get_set]
        split
        · rename_i hid
          rw [hid, hget] at hk
          obtain rfl := Option.some.inj hk
          exact ⟨true, Eq.refl _, fun _ => Eq.refl _⟩
        · exact ⟨g.reversed, hk, fun hr => hr⟩
      · intro grant' hgrant
        obtain rfl := Option.some.inj hgrant
        rw [OrderedTable.get_set_self]

theorem grantedTo_append (gs gs' : List PromoGrant) (userId : String) :
    grantedTo (gs ++ gs') userId = grantedTo gs userId + grantedTo gs' userId := by
  unfold grantedTo
  rw [List.filter_append, List.map_append, List.sum_append]

theorem grantedTo_singleton (grant : PromoGrant) (userId : String) :
    grantedTo [grant] userId = if grant.userId = userId then grant.amount.minor else 0 := by
  unfold grantedTo
  by_cases h : grant.userId = userId
  · simp only [List.filter_cons, h, decide_true, if_true, List.filter_nil, List.map_cons, List.map_nil,
      List.sum_cons, List.sum_nil, Int.add_zero]
  · simp only [List.filter_cons, h, decide_false, Bool.false_eq_true, if_false, List.filter_nil,
      List.map_nil, List.sum_nil]

def ReversalOf (reclaim : PromoGrant × Amount) (row : StoredPosting) : Prop :=
  metaText row.fields "grantId" = some reclaim.1.id ∧
    row.legs.head? = some (debit (promo reclaim.1.userId) reclaim.2)

/-- From `w` to `w'` these grants were swept, and these were taken back. -/
structure SweepsGrants (gs : List PromoGrant) (w w' : World) (reclaims : List (PromoGrant × Amount)) :
    Prop where
  settled : w'.Settled
  marks : MarksOnly w.promos.rows w'.promos.rows
  floor : ∀ userId, min (promoBalance w userId) 0 ≤ promoBalance w' userId
  taken : ∀ userId, promoBalance w userId - grantedTo gs userId ≤ promoBalance w' userId
  among : (reclaims.map Prod.fst).Sublist gs
  bounded : ∀ r ∈ reclaims, r.2.minor ≤ r.1.amount.minor
  marked : ∀ r ∈ reclaims, ∃ grant, w'.promos.rows.get r.1.id = some grant ∧ grant.reversed = true
  posted : ∃ rows, w'.ledger.tables.log = w.ledger.tables.log ++ rows ∧
    List.Forall₂ ReversalOf (reclaims.filter fun r => 0 < r.2.minor) rows

namespace SweepsGrants

variable {gs gs' : List PromoGrant} {w w' w'' : World} {reclaims reclaims' : List (PromoGrant × Amount)}

/-- Nothing that is read here has changed. -/
theorem unchanged (gs : List PromoGrant) (hsettled : w'.Settled) (hfiled : GrantsFiled w.promos.rows)
    (hpositive : ∀ grant ∈ gs, 0 < grant.amount.minor) (hledger : w'.ledger.tables = w.ledger.tables)
    (hpromos : w'.promos = w.promos) : SweepsGrants gs w w' [] := by
  have hbalance : ∀ userId, promoBalance w' userId = promoBalance w userId := by
    intro userId
    unfold promoBalance
    rw [hledger]
  refine ⟨hsettled, ?_, ?_, ?_, List.nil_sublist gs, ?_, ?_, [], ?_, .nil⟩
  · rw [hpromos]
    exact .refl hfiled
  · intro userId
    rw [hbalance]
    exact min_le_left _ _
  · intro userId
    have hsum : 0 ≤ grantedTo gs userId := by
      apply List.sum_nonneg
      intro minor hminor
      obtain ⟨grant, hgrant, rfl⟩ := List.mem_map.mp hminor
      exact (hpositive grant (List.mem_of_mem_filter hgrant)).le
    rw [hbalance]
    omega
  · exact fun r hr => absurd hr List.not_mem_nil
  · exact fun r hr => absurd hr List.not_mem_nil
  · rw [hledger, List.append_nil]

theorem trans (h : SweepsGrants gs w w' reclaims) (h' : SweepsGrants gs' w' w'' reclaims') :
    SweepsGrants (gs ++ gs') w w'' (reclaims ++ reclaims') := by
  obtain ⟨rows, hlog, hrows⟩ := h.posted
  obtain ⟨rows', hlog', hrows'⟩ := h'.posted
  refine ⟨h'.settled, h.marks.trans h'.marks, ?_, ?_, ?_, ?_, ?_, rows ++ rows', ?_, ?_⟩
  · intro userId
    have hfirst := h.floor userId
    have hsecond := h'.floor userId
    omega
  · intro userId
    have hfirst := h.taken userId
    have hsecond := h'.taken userId
    rw [grantedTo_append]
    omega
  · rw [List.map_append]
    exact h.among.append h'.among
  · intro r hr
    rcases List.mem_append.mp hr with hr | hr
    · exact h.bounded r hr
    · exact h'.bounded r hr
  · intro r hr
    rcases List.mem_append.mp hr with hr | hr
    · obtain ⟨grant, hget, hreversed⟩ := h.marked r hr
      obtain ⟨reversed, hget', hstays⟩ := h'.marks.kept _ _ hget
      exact ⟨_, hget', hstays hreversed⟩
    · exact h'.marked r hr
  · rw [hlog', hlog, List.append_assoc]
  · rw [List.filter_append]
    exact List.rel_append hrows hrows'

end SweepsGrants

theorem reverseOne_sweeps (tally : PromoExpiryTally) (h : w.Settled)
    (hfiled : GrantsFiled w.promos.rows) {grant row : PromoGrant} (hpositive : 0 < grant.amount.minor)
    (hrow : w.promos.rows.get grant.id = some row) :
    ∃ reclaims, SweepsGrants [grant] w (reverseOne env (tally, w) grant).2 reclaims ∧
      (reverseOne env (tally, w) grant).1.reversed = tally.reversed ++ reclaims.map fun r =>
      (r.1.id, r.2) := by
  unfold reverseOne
  rcases transaction_cases (settleGrant env grant) h.closed h.sound with
    ⟨amount, done, hrun, htransaction⟩ | ⟨e, done, hrun, htransaction, hsame⟩
  · simp only [htransaction]
    have hsettles := settleGrant_settles hrun
    have hsound := transaction_sound (settleGrant env grant) h.closed h.sound
    rw [htransaction] at hsound
    have hbefore : ∀ userId, promoBalance w.opened userId = promoBalance w userId := fun _ => Eq.refl _
    have hafter : ∀ userId, promoBalance done.commitAll userId = promoBalance done userId :=
      fun _ => Eq.refl _
    have hmin := hsettles.minor
    rw [hbefore] at hmin
    have hmarked := markReversed_marks (j := w.opened.promos) hfiled grant.id
    rw [← hsettles.row] at hmarked
    refine ⟨[(grant, amount)], ⟨⟨World.commitAll_closed _, hsound⟩, hmarked.1, ?_, ?_, ?_, ?_, ?_, ?_⟩,
      Eq.refl _⟩
    · intro userId
      have hfall := hsettles.balance userId
      rw [hafter, ← hbefore]
      rw [hbefore] at hfall ⊢
      by_cases hsame : grant.userId = userId
      · rw [if_pos hsame] at hfall
        rw [hsame] at hmin
        omega
      · rw [if_neg hsame] at hfall
        omega
    · intro userId
      have hfall := hsettles.balance userId
      rw [grantedTo_singleton, hafter]
      rw [hbefore] at hfall
      by_cases hsame : grant.userId = userId
      · rw [if_pos hsame] at hfall ⊢
        omega
      · rw [if_neg hsame] at hfall ⊢
        exact hfall
    · exact List.Sublist.refl _
    · intro r hr
      rw [List.mem_singleton.mp hr, hmin]
      exact min_le_right _ _
    · intro r hr
      rw [List.mem_singleton.mp hr]
      exact ⟨_, hmarked.2 row hrow, Eq.refl _⟩
    · have hbooks := hsettles.books
      by_cases hamount : 0 < amount.minor
      · rw [if_pos hamount] at hbooks
        obtain ⟨posted, hlog, hgrantId, hlegs⟩ := hbooks.posted
        refine ⟨[posted], hlog, ?_⟩
        rw [List.filter_cons_of_pos (by simpa using hamount), List.filter_nil]
        exact .cons ⟨hgrantId, hlegs⟩ .nil
      · rw [if_neg hamount] at hbooks
        refine ⟨[], ?_, ?_⟩
        · change done.ledger.tables.log = _
          rw [hbooks, List.append_nil]
          rfl
        · rw [List.filter_cons_of_neg (by simpa using hamount), List.filter_nil]
          exact .nil
  · simp only [htransaction]
    refine ⟨[], .unchanged [grant] ⟨World.rollbackAll_closed _, hsame.sound h.sound⟩ hfiled ?_ ?_
      hsame.promos, ?_⟩
    · intro g hg
      rw [List.mem_singleton.mp hg]
      exact hpositive
    · exact congrArg Journaled.rows hsame.ledger
    · exact (List.append_nil _).symm

theorem reverseAll_sweeps (gs : List PromoGrant) (tally : PromoExpiryTally)
    (h : w.Settled) (hfiled : GrantsFiled w.promos.rows) (hpositive : ∀ grant ∈ gs, 0 < grant.amount.minor)
    (hrows : ∀ grant ∈ gs, ∃ row, w.promos.rows.get grant.id = some row) :
    ∃ reclaims, SweepsGrants gs w (gs.foldl (reverseOne env) (tally, w)).2 reclaims ∧
      (gs.foldl (reverseOne env) (tally, w)).1.reversed = tally.reversed ++ reclaims.map fun r =>
      (r.1.id, r.2) := by
  induction gs generalizing tally w with
  | nil =>
    refine ⟨[], .unchanged [] h hfiled hpositive (Eq.refl _) (Eq.refl _), ?_⟩
    exact (List.append_nil _).symm
  | cons grant gs ih =>
    obtain ⟨row, hrow⟩ := hrows grant List.mem_cons_self
    obtain ⟨first, hfirst, htally⟩ := reverseOne_sweeps env tally h hfiled
      (hpositive grant List.mem_cons_self) hrow
    have hrows' : ∀ g ∈ gs, ∃ row, (reverseOne env (tally, w) grant).2.promos.rows.get g.id =
        some row := by
      intro g hg
      obtain ⟨row, hget⟩ := hrows g (List.mem_cons_of_mem _ hg)
      obtain ⟨reversed, hkept, -⟩ := hfirst.marks.kept _ _ hget
      exact ⟨_, hkept⟩
    obtain ⟨rest, hrest, htallies⟩ := ih (reverseOne env (tally, w) grant).1 hfirst.settled
      hfirst.marks.filed
      (fun g hg => hpositive g (List.mem_cons_of_mem _ hg)) hrows'
    refine ⟨first ++ rest, hfirst.trans hrest, ?_⟩
    rw [List.foldl_cons, htallies, htally, List.map_append, List.append_assoc]

/-- The grants that a sweep claims are rows that are not marked, each once. -/
theorem claimDueGrants_rows {rows : OrderedTable String PromoGrant} (h : GrantsFiled rows) (now : Int)
    (limit : Nat) :
    (∀ grant ∈ claimDueGrants rows now limit,
      rows.get grant.id = some grant ∧ grant.reversed = false ∧ grant.expiresAt ≤ now) ∧
      ((claimDueGrants rows now limit).map (·.id)).Nodup := by
  have hget : ∀ grant ∈ rows.values, rows.get grant.id = some grant := by
    intro grant hgrant
    obtain ⟨entry, hentry, rfl⟩ := List.mem_map.mp hgrant
    have hfound := (OrderedTable.get_eq_some h.distinct).mpr hentry
    rw [h.own _ _ hfound]
    exact hfound
  constructor
  · intro grant hgrant
    have hdue := List.mem_filter.mp ((List.mem_insertionSort _).mp (List.mem_of_mem_take hgrant))
    have hcond := Bool.and_eq_true_iff.mp hdue.2
    exact ⟨hget grant hdue.1, Bool.not_eq_true' _ ▸ hcond.1, of_decide_eq_true hcond.2⟩
  · have hids : rows.values.map (·.id) = rows.keys := by
      unfold OrderedTable.values OrderedTable.keys
      rw [List.map_map]
      apply List.map_congr_left
      intro entry hentry
      exact h.own _ _ ((OrderedTable.get_eq_some h.distinct).mpr hentry)
    have hall : (rows.values.map (·.id)).Nodup := hids ▸ h.distinct
    apply List.Nodup.sublist ((List.take_sublist _ _).map _)
    apply ((List.perm_insertionSort _ _).map _).nodup_iff.mpr
    exact hall.sublist (List.filter_sublist.map _)

theorem sweepExpiredPromos_sweeps (now : Int) (limit : Nat) (h : w.Settled)
    (hfiled : GrantsFiled w.promos.rows) :
    ∃ reclaims, SweepsGrants (claimDueGrants w.promos.rows now limit) w
      (sweepExpiredPromos env now limit w).2 reclaims ∧
      (sweepExpiredPromos env now limit w).1.reversed = reclaims.map fun r => (r.1.id, r.2) := by
  have hdue := (claimDueGrants_rows hfiled now limit).1
  apply reverseAll_sweeps env _ ⟨[], []⟩ h hfiled
  · exact fun grant hgrant => hfiled.positive _ _ (hdue grant hgrant).1
  · exact fun grant hgrant => ⟨grant, (hdue grant hgrant).1⟩

end Sweep

/-! ## Runs -/

inductive PromoMove
  | submit (operation : Operation) (now : Int)
  | sweep (now : Int) (limit : Nat)

structure PromoSweep where
  before : World
  now : Int
  after : World
  reversed : List (String × Amount)

structure PromoRun where
  world : World
  sweeps : List PromoSweep

def PromoMove.step (ports : Ports) (env : Env) (config : Config) (run : PromoRun) : PromoMove → PromoRun
  | submit operation now =>
    { run with world := (EconomyLab.submit (registry ports) env config operation now run.world).2 }
  | sweep now limit =>
    let swept := sweepExpiredPromos env now limit run.world
    ⟨swept.2, run.sweeps ++ [⟨run.world, now, swept.2, swept.1.reversed⟩]⟩

def runPromos (ports : Ports) (env : Env) (config : Config) (moves : List PromoMove) : PromoRun :=
  moves.foldl (PromoMove.step ports env config) ⟨World.empty, []⟩

/-- No sweep leaves a user less than the grants that have not expired, nor less than there was. -/
def PromoSweep.SparesLive (swept : PromoSweep) : Prop :=
  ∀ userId, min (promoBalance swept.before userId) (liveGrants swept.before.promos.rows userId swept.now) ≤
    promoBalance swept.after userId

/-- What a sweep reversed is what it posted, for no grant more than its amount. -/
structure PromoSweep.Exact (rows : OrderedTable String PromoGrant) (swept : PromoSweep) : Prop where
  posted : ∃ (reclaims : List (PromoGrant × Amount)) (appended : List StoredPosting), swept.reversed =
    reclaims.map (fun r => (r.1.id, r.2)) ∧
    swept.after.ledger.tables.log = swept.before.ledger.tables.log ++ appended ∧
    List.Forall₂ ReversalOf (reclaims.filter fun r => 0 < r.2.minor) appended
  bounded : ∀ r ∈ swept.reversed, ∃ grant, rows.get r.1 = some grant ∧ grant.reversed = true ∧
    r.2.minor ≤ grant.amount.minor

structure PromoRun.ReclaimsOnce (run : PromoRun) : Prop where
  once : ((run.sweeps.flatMap (·.reversed)).map Prod.fst).Nodup
  exact_ : ∀ swept ∈ run.sweeps, swept.Exact run.world.promos.rows

/-- The balance of a user whose grants are due covers them beside the ones that have not expired,
unless there is nothing to take or nothing that could be taken by mistake. -/
def CoversLive (w : World) (now : Int) (limit : Nat) : Prop :=
  ∀ grant ∈ claimDueGrants w.promos.rows now limit,
    promoBalance w grant.userId ≤ 0 ∨ liveGrants w.promos.rows grant.userId now ≤ 0 ∨
      liveGrants w.promos.rows grant.userId now +
        grantedTo (claimDueGrants w.promos.rows now limit) grant.userId ≤ promoBalance w grant.userId

def PromoMove.Covered (run : PromoRun) : PromoMove → Prop
  | submit _ _ => True
  | sweep now limit => CoversLive run.world now limit

instance (w : World) (now : Int) (limit : Nat) : Decidable (CoversLive w now limit) :=
  inferInstanceAs (Decidable (∀ grant ∈ claimDueGrants w.promos.rows now limit, _))

instance PromoMove.Covered.decide (run : PromoRun) :
    (move : PromoMove) → Decidable (PromoMove.Covered run move)
  | submit _ _ => .isTrue trivial
  | sweep now limit => inferInstanceAs (Decidable (CoversLive run.world now limit))

/-! ## What holds over a run -/

theorem PromoSweep.Exact.kept {rows rows' : OrderedTable String PromoGrant} (h : MarksOnly rows rows')
    {swept : PromoSweep} (hexact : swept.Exact rows) : swept.Exact rows' := by
  refine ⟨hexact.posted, ?_⟩
  intro r hr
  obtain ⟨grant, hget, hreversed, hbounded⟩ := hexact.bounded r hr
  obtain ⟨reversed, hget', hstays⟩ := h.kept _ _ hget
  exact ⟨_, hget', hstays hreversed, hbounded⟩

structure PromoRun.Sound (run : PromoRun) : Prop where
  settled : run.world.Settled
  filed : GrantsFiled run.world.promos.rows
  reclaims : run.ReclaimsOnce

variable {run : PromoRun}

theorem PromoRun.Sound.reclaimed (h : run.Sound) {r : String × Amount}
    (hr : r ∈ run.sweeps.flatMap (·.reversed)) :
    ∃ grant, run.world.promos.rows.get r.1 = some grant ∧ grant.reversed = true := by
  obtain ⟨swept, hswept, hr⟩ := List.mem_flatMap.mp hr
  obtain ⟨grant, hget, hreversed, -⟩ := (h.reclaims.exact_ swept hswept).bounded r hr
  exact ⟨grant, hget, hreversed⟩

theorem PromoRun.Sound.sweep (h : run.Sound) (env : Env) (now : Int) (limit : Nat) :
    PromoRun.Sound ⟨(sweepExpiredPromos env now limit run.world).2, run.sweeps ++ [⟨run.world, now,
      (sweepExpiredPromos env now limit run.world).2,
      (sweepExpiredPromos env now limit run.world).1.reversed⟩]⟩ := by
  obtain ⟨reclaims, hsweeps, hreversed⟩ := sweepExpiredPromos_sweeps env now limit h.settled h.filed
  obtain ⟨hdue, hids⟩ := claimDueGrants_rows h.filed now limit
  refine ⟨hsweeps.settled, hsweeps.marks.filed, ?_, ?_⟩
  · rw [List.flatMap_append, List.map_append, List.nodup_append]
    refine ⟨h.reclaims.once, ?_, ?_⟩
    · rw [List.flatMap_singleton, hreversed, List.map_map]
      have hnew : (reclaims.map fun r => r.1.id).Nodup := by
        have hsub := hsweeps.among.map (·.id)
        rw [List.map_map] at hsub
        exact hids.sublist hsub
      exact hnew
    · intro old hold id hnew hsame
      obtain ⟨r, hr, rfl⟩ := List.mem_map.mp hold
      obtain ⟨grant, hget, hmarked⟩ := h.reclaimed hr
      rw [List.flatMap_singleton, hreversed, List.map_map] at hnew
      obtain ⟨r', hr', hid⟩ := List.mem_map.mp hnew
      obtain ⟨hget', hunmarked, -⟩ := hdue r'.1 (hsweeps.among.subset (List.mem_map.mpr ⟨r', hr', rfl⟩))
      have hid' : r'.1.id = r.1 := hid.trans hsame.symm
      rw [hid', hget] at hget'
      rw [Option.some.inj hget', hunmarked] at hmarked
      cases hmarked
  · intro swept hswept
    rcases List.mem_append.mp hswept with hold | hnew
    · exact (h.reclaims.exact_ swept hold).kept hsweeps.marks
    · rw [List.mem_singleton.mp hnew]
      refine ⟨?_, ?_⟩
      · obtain ⟨rows, hlog, hrows⟩ := hsweeps.posted
        exact ⟨reclaims, rows, hreversed, hlog, hrows⟩
      · intro r hr
        simp only at hr
        rw [hreversed] at hr
        obtain ⟨r', hr', rfl⟩ := List.mem_map.mp hr
        obtain ⟨grant, hget, hmarked⟩ := hsweeps.marked r' hr'
        obtain ⟨hbefore, -, -⟩ := hdue r'.1 (hsweeps.among.subset (List.mem_map.mpr ⟨r', hr', rfl⟩))
        obtain ⟨reversed, hafter, -⟩ := hsweeps.marks.kept _ _ hbefore
        refine ⟨grant, hget, hmarked, ?_⟩
        rw [hget] at hafter
        rw [Option.some.inj hafter]
        exact hsweeps.bounded r' hr'

/-- A covered sweep leaves the grants that have not expired alone. -/
theorem PromoRun.Sound.spares (h : run.Sound) (env : Env) {now : Int} {limit : Nat}
    (hcovers : CoversLive run.world now limit) :
    PromoSweep.SparesLive ⟨run.world, now, (sweepExpiredPromos env now limit run.world).2,
      (sweepExpiredPromos env now limit run.world).1.reversed⟩ := by
  obtain ⟨reclaims, hsweeps, -⟩ := sweepExpiredPromos_sweeps env now limit h.settled h.filed
  intro userId
  have hfloor := hsweeps.floor userId
  have htaken := hsweeps.taken userId
  simp only
  by_cases hany : ∃ grant ∈ claimDueGrants run.world.promos.rows now limit, grant.userId = userId
  · obtain ⟨grant, hgrant, hsame⟩ := hany
    have hcase := hcovers grant hgrant
    rw [hsame] at hcase
    omega
  · have hnone : grantedTo (claimDueGrants run.world.promos.rows now limit) userId = 0 := by
      unfold grantedTo
      have hfilter : (claimDueGrants run.world.promos.rows now limit).filter (fun grant => grant.userId =
          userId) = [] := by
        apply List.filter_eq_nil_iff.mpr
        intro grant hgrant hsame
        exact hany ⟨grant, hgrant, of_decide_eq_true hsame⟩
      rw [hfilter]
      rfl
    omega

theorem PromoRun.Sound.step (ports : Ports) (env : Env) (config : Config) (h : run.Sound)
    (move : PromoMove) : (move.step ports env config run).Sound := by
  cases move with
  | submit operation now =>
    obtain ⟨hsettled, hkeeps⟩ := submit_keepsGrants ports env config operation now h.settled
    have hmarks := MarksOnly.of_keeps h.filed hkeeps
    exact ⟨hsettled, hmarks.filed, h.reclaims.once,
      fun swept hswept => (h.reclaims.exact_ swept hswept).kept hmarks⟩
  | sweep now limit => exact h.sweep env now limit

theorem PromoRun.Sound.empty : PromoRun.Sound ⟨World.empty, []⟩ where
  settled := ⟨World.empty_closed, World.empty_sound⟩
  filed := ⟨List.nodup_nil, fun _ _ hget => (by cases hget), fun _ _ hget => (by cases hget)⟩
  reclaims := ⟨List.nodup_nil, fun _ hswept => absurd hswept List.not_mem_nil⟩

/-- Over every run no grant is taken back twice or for more than its amount, and a run whose sweeps
find their balances covering the grants that have not expired leaves these to their users. -/
theorem expiry_takes_only_expired (ports : Ports) (env : Env) (config : Config) (moves : List PromoMove)
    (hcovered : RunMeets (PromoMove.step ports env config) PromoMove.Covered ⟨World.empty, []⟩ moves) :
    (∀ swept ∈ (runPromos ports env config moves).sweeps, swept.SparesLive) ∧
      (runPromos ports env config moves).ReclaimsOnce := by
  have hstep : ∀ (run : PromoRun) move, (run.Sound ∧ ∀ swept ∈ run.sweeps, swept.SparesLive) →
      PromoMove.Covered run move → (move.step ports env config run).Sound ∧
        ∀ swept ∈ (move.step ports env config run).sweeps, swept.SparesLive := by
    intro run move hrun hmove
    refine ⟨hrun.1.step ports env config move, ?_⟩
    cases move with
    | submit operation now => exact hrun.2
    | sweep now limit =>
      intro swept hswept
      rcases List.mem_append.mp hswept with hold | hnew
      · exact hrun.2 swept hold
      · rw [List.mem_singleton.mp hnew]
        exact hrun.1.spares env hmove
  have hdone := hcovered.inv hstep ⟨.empty, fun swept hswept => absurd hswept List.not_mem_nil⟩
  exact ⟨hdone.2, hdone.1.reclaims⟩

def promoGrantOf (key : String) (expiresAt : Int) : PromoMove :=
  .submit (.grantPromo ⟨key, .operator "ops", "a", ⟨.credit, 400, by decide⟩, expiresAt⟩) 0

def promoPurchase (key orderId : String) : PromoMove := .submit (.spend (purchase key orderId)) 0

/-- The user spends half a grant once the first one is gone. -/
def lateSpend : List PromoMove :=
  [promoGrantOf "k1" 10, promoGrantOf "k2" 1000, .sweep 20 10, promoPurchase "k3" "o", .sweep 2000 10]

theorem lateSpend_spares :
    (runPromos parPorts tickEnv twoShards lateSpend).sweeps.map (fun swept => swept.reversed.map fun r =>
      (r.1, r.2.minor)) =
      [[("txn_0", 400)], [("txn_3", 200)]] ∧
      (∀ swept ∈ (runPromos parPorts tickEnv twoShards lateSpend).sweeps, swept.SparesLive) ∧
      (runPromos parPorts tickEnv twoShards lateSpend).ReclaimsOnce :=
  ⟨by decide +kernel, expiry_takes_only_expired parPorts tickEnv twoShards lateSpend (by decide +kernel)⟩

/-- The user spends half a grant before the first one is gone. -/
def earlySpend : List PromoMove :=
  [promoGrantOf "k1" 10, promoGrantOf "k2" 1000, promoPurchase "k3" "o", .sweep 20 10]

/-- Half of the grant that has not expired is taken back. -/
theorem earlySpend_takes_live :
    ∃ swept ∈ (runPromos parPorts tickEnv twoShards earlySpend).sweeps,
      promoBalance swept.before "a" = 600 ∧ liveGrants swept.before.promos.rows "a" swept.now = 400 ∧
        promoBalance swept.after "a" = 200 ∧ ¬ swept.SparesLive := by
  have hrun : (runPromos parPorts tickEnv twoShards earlySpend).sweeps.map (fun swept =>
      (promoBalance swept.before "a", liveGrants swept.before.promos.rows "a" swept.now,
        promoBalance swept.after "a")) =
      [(600, 400, 200)] := by decide +kernel
  obtain ⟨swept, hsweeps, hvalues⟩ := List.map_eq_singleton_iff.mp hrun
  obtain ⟨hbefore, hrest⟩ := Prod.mk.inj hvalues
  obtain ⟨hlive, hafter⟩ := Prod.mk.inj hrest
  refine ⟨swept, by rw [hsweeps]; exact List.mem_cons_self, hbefore, hlive, hafter, ?_⟩
  intro hspares
  have hleft := hspares "a"
  rw [hbefore, hlive, hafter] at hleft
  omega

end EconomyLab
