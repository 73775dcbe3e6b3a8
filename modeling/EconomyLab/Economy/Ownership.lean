import EconomyLab.Economy.Commits
import EconomyLab.Economy.Locking
import EconomyLab.Ledger.Solvency

/-!
# Whose wallet it is

Ownership is a matter of prefixes: a caller may debit the accounts whose ids begin with the caller's
and a colon. User ids are free text, so an id may begin with another one, and a platform account's.
-/

namespace EconomyLab

open Foundation Text

/-- The session is part of what an escrow is. -/
inductive WalletKind
  | spendable
  | earned
  | promo
  | escrow (sessionId : String)
deriving DecidableEq

def walletOf (userId : String) : WalletKind → AccountRef
  | .spendable => spendable userId
  | .earned => earned userId
  | .promo => promo userId
  | .escrow sessionId => sessionEscrow userId sessionId

def WalletKind.account : WalletKind → AccountKind
  | spendable => .spendable
  | earned => .earned
  | promo => .promo
  | escrow _ => .escrow

def holderOf (userId : String) : WalletKind → String
  | .escrow sessionId => userId ++ ":" ++ sessionId
  | _ => userId

theorem walletOf_eq (userId : String) (kind : WalletKind) :
    walletOf userId kind = wallet (holderOf userId kind) kind.account := by
  cases kind <;> rfl

/-- Two escrows whose users and sessions spell the same text, cut at different colons. -/
def Respelled (userId userId' : String) (kind kind' : WalletKind) : Prop :=
  ∃ sessionId sessionId', kind = .escrow sessionId ∧ kind' = .escrow sessionId' ∧
    ∃ between, userId' = userId ++ ":" ++ between ∧ sessionId = between ++ ":" ++ sessionId' ∨
      userId = userId' ++ ":" ++ between ∧ sessionId' = between ++ ":" ++ sessionId

theorem append_colon_eq {u u' s s' : List Char} (h : u ++ ':' :: s = u' ++ ':' :: s') :
    u = u' ∧ s = s' ∨ ∃ between, u' = u ++ ':' :: between ∧ s = between ++ ':' :: s' ∨
      u = u' ++ ':' :: between ∧ s' = between ++ ':' :: s := by
  rcases List.append_eq_append_iff.mp h with ⟨gap, hu, hs⟩ | ⟨gap, hu, hs⟩
  · cases gap with
    | nil =>
      rw [List.append_nil] at hu
      exact Or.inl ⟨hu.symm, (List.cons.inj hs).2⟩
    | cons c gap =>
      obtain ⟨rfl, hrest⟩ := List.cons.inj hs
      exact Or.inr ⟨gap, Or.inl ⟨hu, hrest⟩⟩
  · cases gap with
    | nil =>
      rw [List.append_nil] at hu
      exact Or.inl ⟨hu, (List.cons.inj hs).2.symm⟩
    | cons c gap =>
      obtain ⟨rfl, hrest⟩ := List.cons.inj hs
      exact Or.inr ⟨gap, Or.inr ⟨hu, hrest⟩⟩

theorem holder_eq_iff {u u' s s' : String} : u ++ ":" ++ s = u' ++ ":" ++ s' ↔
    u = u' ∧ s = s' ∨ ∃ between, u' = u ++ ":" ++ between ∧ s = between ++ ":" ++ s' ∨
      u = u' ++ ":" ++ between ∧ s' = between ++ ":" ++ s := by
  constructor
  · intro h
    have hl := congrArg String.toList h
    simp only [String.toList_append, List.append_assoc] at hl
    rcases append_colon_eq hl with ⟨hu, hs⟩ | ⟨between, ⟨hu, hs⟩ | ⟨hu, hs⟩⟩
    · exact Or.inl ⟨String.toList_inj.mp hu, String.toList_inj.mp hs⟩
    · refine Or.inr ⟨String.ofList between, Or.inl ⟨?_, ?_⟩⟩
      · apply String.toList_inj.mp
        simpa using hu
      · apply String.toList_inj.mp
        simpa using hs
    · refine Or.inr ⟨String.ofList between, Or.inr ⟨?_, ?_⟩⟩
      · apply String.toList_inj.mp
        simpa using hu
      · apply String.toList_inj.mp
        simpa using hs
  · rintro (⟨rfl, rfl⟩ | ⟨between, ⟨rfl, rfl⟩ | ⟨rfl, rfl⟩⟩)
    · rfl
    · simp only [String.append_assoc]
    · simp only [String.append_assoc]

theorem walletOf_ne_iff {userId userId' : String} {kind kind' : WalletKind}
    (h : userId ≠ userId' ∨ kind ≠ kind') :
    walletOf userId kind ≠ walletOf userId' kind' ↔ ¬ Respelled userId userId' kind kind' := by
  apply not_congr
  rw [walletOf_eq, walletOf_eq, wallet_inj]
  constructor
  · rintro ⟨hholder, haccount⟩
    cases kind <;> cases kind' <;> try cases haccount
    · exact absurd (h.resolve_right (not_not_intro rfl)) (not_not_intro hholder)
    · exact absurd (h.resolve_right (not_not_intro rfl)) (not_not_intro hholder)
    · exact absurd (h.resolve_right (not_not_intro rfl)) (not_not_intro hholder)
    · rename_i sessionId sessionId'
      rcases holder_eq_iff.mp hholder with ⟨rfl, rfl⟩ | hbetween
      · rcases h with h | h
        · exact absurd rfl h
        · exact absurd rfl h
      · exact ⟨sessionId, sessionId', rfl, rfl, hbetween⟩
  · rintro ⟨sessionId, sessionId', rfl, rfl, hbetween⟩
    exact ⟨holder_eq_iff.mpr (Or.inr hbetween), rfl⟩

/-! ## Wallets that read as the platform's -/

theorem lookup_system {ref : AccountRef} {traits : Traits} (h : SYSTEM_TRAITS.lookup ref = some traits) :
    ref ∈ SYSTEM.values ∧ startsWith ref "platform:" = true := by
  have hall : ∀ row ∈ SYSTEM_TRAITS, row.1 ∈ SYSTEM.values ∧ startsWith row.1 "platform:" = true := by
    decide
  obtain ⟨before, later, hrows, -⟩ := List.lookup_eq_some_iff.mp h
  apply hall (ref, traits)
  rw [hrows]
  exact List.mem_append_right _ List.mem_cons_self

theorem startsWith_append {s pre : String} (h : startsWith s pre = true) (rest : String) :
    startsWith (s ++ rest) pre = true := by
  simp only [startsWith, List.isPrefixOf_iff_prefix, String.toList_append] at h ⊢
  exact h.trans (List.prefix_append _ _)

theorem takeWhile_append_of_mem {c : Char} {s : List Char} (h : c ∈ s) (rest : List Char) :
    (s ++ rest).takeWhile (· ≠ c) = s.takeWhile (· ≠ c) := by
  induction s with
  | nil => exact absurd h List.not_mem_nil
  | cons x s ih =>
    by_cases hx : x = c
    · simp [hx]
    · have hrest := ih (List.mem_of_ne_of_mem (Ne.symm hx) h)
      simp only [List.cons_append, List.takeWhile_cons, hrest]

theorem beforeFirst_append {s : String} (h : includes s '#' = true) (rest : String) :
    beforeFirst '#' (s ++ rest) = beforeFirst '#' s := by
  have hmem : '#' ∈ s.toList := List.contains_iff_mem.mp h
  simp only [beforeFirst, String.toList_append, takeWhile_append_of_mem hmem]

theorem beforeFirst_of_not_includes {s : String} (h : includes s '#' = false) : beforeFirst '#' s = s := by
  have hmem : '#' ∉ s.toList := fun hm => Bool.noConfusion (h.symm.trans (List.contains_iff_mem.mpr hm))
  have hall : s.toList.takeWhile (· ≠ '#') = s.toList := by
    rw [List.takeWhile_eq_self_iff]
    intro x hx
    simp only [ne_eq, decide_eq_true_eq]
    rintro rfl
    exact hmem hx
  simp only [beforeFirst, hall, String.ofList_toList]

theorem startsWith_beforeFirst {s pre : String} (h : startsWith (beforeFirst '#' s) pre = true) :
    startsWith s pre = true := by
  simp only [startsWith, List.isPrefixOf_iff_prefix, beforeFirst, String.toList_ofList] at h ⊢
  exact h.trans (List.takeWhile_prefix _)

variable {userId : String} (owner : String)

/-- The shard sign decides: what stands before it in the holder's id is looked up. -/
theorem traitsOf_wallet (kind : AccountKind) : traitsOf (wallet owner kind) =
      if includes owner '#' then SYSTEM_TRAITS.lookup (beforeFirst '#' owner) else none := by
  have hid : wallet owner kind = owner ++ (":" ++ kind.text) := String.append_assoc
  cases hsharp : includes owner '#' with
  | true =>
    simp only [if_true]
    have hbefore : beforeFirst '#' (wallet owner kind) = beforeFirst '#' owner :=
      hid ▸ beforeFirst_append hsharp _
    cases hplatform : startsWith (wallet owner kind) "platform:" with
    | true => simp only [traitsOf, baseOf, hplatform, if_true, hbefore]
    | false =>
      have hnone : traitsOf (wallet owner kind) = none := traitsOf_none (by simp [hplatform])
      cases hlook : SYSTEM_TRAITS.lookup (beforeFirst '#' owner) with
      | none => exact hnone
      | some traits =>
        have hstarts := startsWith_append (startsWith_beforeFirst (lookup_system hlook).2)
          (":" ++ kind.text)
        rw [← hid, hplatform] at hstarts
        cases hstarts
  | false =>
    simp only [Bool.false_eq_true, if_false]
    have hnot : includes (wallet owner kind) '#' = false := by
      have hkind : '#' ∉ kind.text.toList := by cases kind <;> decide
      have howner : '#' ∉ owner.toList :=
        fun hm => Bool.noConfusion (hsharp.symm.trans (List.contains_iff_mem.mpr hm))
      simp only [includes, wallet, String.toList_append, List.contains_eq_mem, List.mem_append, hkind,
        howner, or_false, false_or, decide_eq_false_iff_not]
      decide
    have hbase : baseOf (wallet owner kind) = wallet owner kind := by
      unfold baseOf
      split
      · exact beforeFirst_of_not_includes hnot
      · rfl
    cases hlook : SYSTEM_TRAITS.lookup (wallet owner kind) with
    | none => simp only [traitsOf, hbase, hlook]
    | some traits => exact absurd rfl (system_ne_wallet (lookup_system hlook).1 owner kind)

theorem isDebitNormal_wallet (kind kind' : AccountKind) :
    isDebitNormal (wallet owner kind) = isDebitNormal (wallet owner kind') := by
  simp only [isDebitNormal, traitsOf_wallet]

/-- How a wallet of its kind is classed when no platform row says otherwise. -/
def AccountKind.class : AccountKind → AccountClass
  | spendable => .custodial
  | escrow => .custodial
  | earned => .excluded
  | promo => .excluded

/-- The wallet passes for a user's, has its kind's class and sign, and the overdraft guard covers it. -/
structure ReadsAsUsers (userId : String) (kind : WalletKind) : Prop where
  users : isWalletAccount (walletOf userId kind) = true
  classed : classify (walletOf userId kind) = kind.account.class
  signed : isDebitNormal (walletOf userId kind) = false
  guarded : isUserGuarded (walletOf userId kind) = true

theorem startsWith_wallet {userId : String} {kind : WalletKind} :
    startsWith (walletOf userId kind) "platform:" = true ↔
      userId = "platform" ∨ startsWith userId "platform:" = true := by
  have hid : ∃ rest, walletOf userId kind = userId ++ ":" ++ rest := by
    cases kind with
    | spendable => exact ⟨_, rfl⟩
    | earned => exact ⟨_, rfl⟩
    | promo => exact ⟨_, rfl⟩
    | escrow sessionId => exact ⟨sessionId ++ (":" ++ "escrow"), by
        simp only [walletOf, sessionEscrow, wallet, AccountKind.text, String.append_assoc]⟩
  obtain ⟨rest, hid⟩ := hid
  rw [hid]
  constructor
  · exact fun h => (startsWith_platform_append h).symm
  · rintro (rfl | h)
    · exact startsWith_append (by decide) rest
    · rw [String.append_assoc]
      exact startsWith_append h _

theorem readsAsUsers_iff (userId : String) (kind : WalletKind) :
    ReadsAsUsers userId kind ↔ ¬ (userId = "platform" ∨ startsWith userId "platform:" = true) := by
  rw [← @startsWith_wallet userId kind]
  constructor
  · intro h hstarts
    have husers := h.users
    simp [isWalletAccount, hstarts] at husers
  · intro hstarts
    have htraits := traitsOf_none hstarts
    have hclassed : classify (walletOf userId kind) = kind.account.class := by
      unfold classify
      simp only [htraits]
      cases kind with
      | spendable => simp only [walletOf, spendable, walletKindOf_wallet]; rfl
      | earned => simp only [walletOf, earned, walletKindOf_wallet]; rfl
      | promo => simp only [walletOf, promo, walletKindOf_wallet]; rfl
      | escrow sessionId => simp only [walletOf, sessionEscrow, walletKindOf_wallet]; rfl
    constructor
    · rw [walletOf_eq] at hstarts ⊢
      simp only [isWalletAccount, includes_wallet, Bool.true_and, Bool.not_eq_true']
      exact Bool.not_eq_true _ ▸ hstarts
    · exact hclassed
    · simp only [isDebitNormal, htraits]
      rfl
    · rw [walletOf_eq] at htraits ⊢
      exact isUserGuarded_wallet htraits

section Charged

variable {payer userId key : String} {sellers : List String} {price : Int} {shards : Nat} {accrual : Bool}
  {plan : SpendPlan} {built : List Leg} {s : Watch}

/-- No wallet of another user is lowered by these lines. -/
def TakesFrom (userId : String) (legs : List Leg) : Prop :=
  ∀ other kind, other ≠ userId → 0 ≤ total (deltas legs) (walletOf other kind)

theorem debit_delta (kind : AccountKind) (amount : Amount) : (debit (wallet owner kind) amount).delta =
      if isDebitNormal (spendable owner) then amount.minor else -amount.minor := by
  unfold Leg.delta
  rw [show (debit (wallet owner kind) amount).account = wallet owner kind from rfl,
    isDebitNormal_wallet owner kind .spendable]
  rfl

variable (h : ChargeWatch payer sellers price key shards accrual plan built s)
include h

/-- A charge lowers the wallets of its payer, unless they read as debit-normal ones, and may lower
the balances it credits when these do. -/
theorem ChargeWatch.takesFrom_iff (hprice : 0 < price) : TakesFrom userId s.posted ↔
    (payer = userId ∨ isDebitNormal (spendable payer) = true) ∧
      ∀ other, other ≠ userId → 0 ≤ Foundation.total (deltas s.posted) (earned other) := by
  have hwallet : ∀ owner kind, kind ≠ AccountKind.earned → Foundation.total (deltas s.posted)
    (wallet owner kind) =
      (if promo payer = wallet owner kind then (debit (promo payer) plan.promoPart).delta else 0) +
        if spendable payer = wallet owner kind then
          (debit (spendable payer) plan.spendablePart).delta else 0 := by
    intro owner kind hkind
    rw [h.total, h.charge.charged_wallets accrual key shards hkind]
  have hpromoDelta := debit_delta payer .promo plan.promoPart
  have hspendableDelta := debit_delta payer .spendable plan.spendablePart
  have hpromo := h.splits.promo
  have hspendable := h.splits.spendable
  have hsum := h.splits.sum
  constructor
  · intro htakes
    refine ⟨?_, fun other hother => htakes other .earned hother⟩
    by_cases hpayer : payer = userId
    · exact Or.inl hpayer
    · right
      by_contra hnormal
      have hatPromo : 0 ≤ Foundation.total (deltas s.posted) (wallet payer .promo) :=
        htakes payer .promo hpayer
      have hatSpendable : 0 ≤ Foundation.total (deltas s.posted) (wallet payer .spendable) :=
        htakes payer .spendable hpayer
      have hne : wallet payer .promo ≠ wallet payer .spendable := wallet_ne_of_kind nofun
      rw [hwallet payer .promo nofun] at hatPromo
      rw [hwallet payer .spendable nofun] at hatSpendable
      have hfalse : isDebitNormal (spendable payer) = false := Bool.not_eq_true _ ▸ hnormal
      simp only [promo, spendable] at hatPromo hatSpendable hpromoDelta hspendableDelta hfalse
      simp only [if_true, if_neg hne, if_neg hne.symm, hpromoDelta, hspendableDelta, hfalse,
        Bool.false_eq_true, if_false] at hatPromo hatSpendable
      omega
  · rintro ⟨hpayer, hearned⟩ other kind hother
    have hfree : ∀ kind, kind ≠ AccountKind.earned → ∀ owner, (kind ≠ .escrow → owner = other) →
        0 ≤ Foundation.total (deltas s.posted) (wallet owner kind) := by
      intro kind hkind owner howner
      rw [hwallet owner kind hkind]
      rcases hpayer with hpayer | hnormal
      · have hpromoNe : promo payer ≠ wallet owner kind := by
          intro he
          obtain ⟨hsame, hpromoKind⟩ := wallet_inj.mp he
          exact hother ((howner (hpromoKind ▸ nofun)).symm.trans (hsame.symm.trans hpayer))
        have hspendableNe : spendable payer ≠ wallet owner kind := by
          intro he
          obtain ⟨hsame, hspendableKind⟩ := wallet_inj.mp he
          exact hother ((howner (hspendableKind ▸ nofun)).symm.trans (hsame.symm.trans hpayer))
        simp only [if_neg hpromoNe, if_neg hspendableNe]
        exact le_refl _
      · simp only [promo, spendable] at hpromoDelta hspendableDelta hnormal ⊢
        rw [hpromoDelta, hspendableDelta]
        simp only [hnormal, if_true]
        split <;> split <;> omega
    cases kind with
    | spendable => exact hfree .spendable nofun other fun _ => rfl
    | earned => exact hearned other hother
    | promo => exact hfree .promo nofun other fun _ => rfl
    | escrow sessionId => exact hfree .escrow nofun _ fun hne => absurd rfl hne

theorem ChargeWatch.sellers_gain (hsellers : ∀ seller ∈ sellers, isWalletAccount (earned seller) = true)
    (other : String) : 0 ≤ Foundation.total (deltas s.posted) (earned other) := by
  rw [h.total, h.charge.charged_earned]
  split
  · exact le_refl _
  · apply total_deltas_nonneg
    intro leg hleg ha
    rcases h.charge.sides leg hleg with hp | hs | hside | hside | ⟨seller, hseller, hearned, hminor⟩
    · exact absurd (hp.symm.trans ha) (wallet_ne_of_kind fun h => by cases h)
    · exact absurd (hs.symm.trans ha) (wallet_ne_of_kind fun h => by cases h)
    · exact absurd (hside.symm.trans ha) (system_ne_wallet promoFloat_system other .earned)
    · exact absurd (hside.symm.trans ha) (system_ne_wallet revenue_system other .earned)
    · have hwallet := hsellers seller hseller
      simp only [isWalletAccount, Bool.and_eq_true, Bool.not_eq_true'] at hwallet
      have htraits : traitsOf leg.account = none := traitsOf_none (by simp [hearned, hwallet.2])
      have hnormal : isDebitNormal leg.account = false := by simp [isDebitNormal, htraits]
      simp only [Leg.delta, hnormal, Bool.false_eq_true, if_false]
      omega

end Charged

/-- The seller of a first period gets nothing: no promo balance pays, and the fee takes it all. -/
def SellerUnpaid (config : Config) (w : World) (operation : SubscribeOperation) : Prop :=
  w.ledger.tables.balanceOf (promo operation.userId) ≤ 0 ∧
    feeForPrice operation.price.minor config.platformFeeBps = .ok operation.price.minor

section FirstPeriod

variable {config : Config} {operation : SubscribeOperation} {legs : List Leg}

/-- What some lines bring to the seller, and to no other earned balance. -/
def BringsSeller (seller : String) (net : Int) (legs : List Leg) : Prop :=
  ∀ other, total (deltas legs) (earned other) =
    if other = seller then (if isDebitNormal (earned seller) then -net else net) else 0

theorem BringsSeller.none (seller : String) : BringsSeller seller 0 [] := by
  intro other
  split
  · split <;> rfl
  · rfl

theorem BringsSeller.append {seller : String} {net net' : Int} {legs legs' : List Leg}
    (h : BringsSeller seller net legs) (h' : BringsSeller seller net' legs') :
    BringsSeller seller (net + net') (legs ++ legs') := by
  intro other
  rw [deltas_append, total_append, h other, h' other]
  split
  · split <;> omega
  · rfl

theorem BringsSeller.of_credit {seller : String} {amount : Amount} {leg : Leg} {before later : List Leg}
    (h : credit (earned seller) amount = .ok leg)
    (hothers : ∀ line ∈ before ++ later, ∀ other, line.account ≠ earned other) :
    BringsSeller seller amount.minor (before ++ leg :: later) := by
  intro other
  have hbefore : total (deltas before) (earned other) = 0 :=
    total_deltas_eq_zero fun line hline => hothers line (List.mem_append_left _ hline) other
  have hlater : total (deltas later) (earned other) = 0 :=
    total_deltas_eq_zero fun line hline => hothers line (List.mem_append_right _ hline) other
  obtain ⟨haccount, hminor⟩ := credit_ok h
  simp only [deltas_append, deltas_cons, total_append, total_cons, hbefore, hlater, haccount, Int.zero_add,
    Int.add_zero]
  by_cases hother : other = seller
  · subst hother
    simp only [if_true, Leg.delta, haccount, hminor, Int.neg_neg]
  · have hne : earned seller ≠ earned other := fun he => hother (wallet_inj.mp he).1.symm
    simp only [if_neg hne, if_neg hother]

theorem subscribePromoLegs_brings {promoPart : Amount}
    (h : subscribePromoLegs operation promoPart = .ok legs) :
    BringsSeller operation.sellerId promoPart.minor legs := by
  unfold subscribePromoLegs at h
  split at h
  · rename_i hzero
    obtain rfl := except_pure_ok.mp h
    rw [hzero]
    exact .none _
  · obtain ⟨toFloat, hfloat, h⟩ := except_bind_ok.mp h
    obtain ⟨toSeller, hseller, h⟩ := except_bind_ok.mp h
    obtain rfl := except_pure_ok.mp h
    apply @BringsSeller.of_credit _ _ _ [debit (promo operation.userId) promoPart, toFloat,
      debit SYSTEM.REVENUE promoPart] [] hseller
    intro line hline other
    simp only [List.append_nil, List.mem_cons, List.not_mem_nil, or_false] at hline
    rcases hline with rfl | rfl | rfl
    · exact wallet_ne_of_kind fun h => by cases h
    · exact (credit_ok hfloat).1 ▸ system_ne_wallet promoFloat_system other .earned
    · exact system_ne_wallet revenue_system other .earned

theorem subscribeSpendableLegs_brings {spendablePart : Amount}
    (h : subscribeSpendableLegs config operation spendablePart = .ok legs) :
    ∃ net, BringsSeller operation.sellerId net legs ∧ 0 ≤ net ∧ (net = 0 ↔ spendablePart.minor = 0 ∨
      feeForPrice spendablePart.minor config.platformFeeBps = .ok spendablePart.minor) := by
  unfold subscribeSpendableLegs at h
  split at h
  · rename_i hzero
    obtain rfl := except_pure_ok.mp h
    exact ⟨0, .none _, le_refl _, fun _ => Or.inl hzero, fun _ => rfl⟩
  · rename_i hnonzero
    obtain ⟨fee, hfee, h⟩ := except_bind_ok.mp h
    obtain ⟨net, hnet, h⟩ := except_bind_ok.mp h
    obtain ⟨toSeller, hseller, h⟩ := except_bind_ok.mp h
    obtain ⟨kept, -, h⟩ := except_bind_ok.mp h
    obtain ⟨toHouse, hhouse, h⟩ := except_bind_ok.mp h
    obtain rfl := except_pure_ok.mp h
    have hminor : net.minor = spendablePart.minor - fee := (toAmount_eq_ok.mp hnet).2
    have hle := feeForPrice_le hfee
    refine ⟨net.minor, ?_, by omega, ?_⟩
    · apply @BringsSeller.of_credit _ _ _ [debit (spendable operation.userId) spendablePart]
        [toHouse] hseller
      intro line hline other
      simp only [List.cons_append, List.nil_append, List.mem_cons, List.not_mem_nil, or_false] at hline
      rcases hline with rfl | rfl
      · exact wallet_ne_of_kind fun h => by cases h
      · exact (credit_ok hhouse).1 ▸ system_ne_wallet revenue_system other .earned
    · rw [hfee, or_iff_right hnonzero]
      constructor
      · intro hzero
        exact congrArg Except.ok (by omega)
      · intro htaken
        have htaken := Except.ok.inj htaken
        omega

theorem buildSubscribeLegs_brings {plan : SpendPlan} (hpromo : 0 ≤ plan.promoPart.minor)
    (h : buildSubscribeLegs config operation plan = .ok legs) :
    ∃ net, BringsSeller operation.sellerId net legs ∧ 0 ≤ net ∧ (net = 0 ↔ plan.promoPart.minor = 0 ∧
      (plan.spendablePart.minor = 0 ∨
        feeForPrice plan.spendablePart.minor config.platformFeeBps = .ok plan.spendablePart.minor)) := by
  obtain ⟨promoLegs, hpromoLegs, h⟩ := except_bind_ok.mp h
  obtain ⟨rest, hrest, h⟩ := except_bind_ok.mp h
  obtain rfl := except_pure_ok.mp h
  obtain ⟨net, hbrings, hnet, hzero⟩ := subscribeSpendableLegs_brings hrest
  refine ⟨plan.promoPart.minor + net, (subscribePromoLegs_brings hpromoLegs).append hbrings, by omega, ?_⟩
  rw [← hzero]
  omega

theorem planSpend_promo {price promoBalance : Amount} {plan : SpendPlan} (hprice : 0 < price.minor)
    (h : planSpend price promoBalance = .ok plan) :
    (plan.promoPart.minor = 0 ↔ promoBalance.minor ≤ 0) ∧
      plan.promoPart.minor + plan.spendablePart.minor = price.minor := by
  obtain ⟨promoPart, hpromo, h⟩ := except_bind_ok.mp h
  obtain ⟨rest, hrest, h⟩ := except_bind_ok.mp h
  obtain rfl := except_pure_ok.mp h
  have hpromoMinor := (toAmount_eq_ok.mp hpromo).2
  have hrestMinor := (toAmount_eq_ok.mp hrest).2
  simp only [hpromoMinor, hrestMinor]
  constructor
  · by_cases hpositive : promoBalance.minor > 0
    · simp only [if_pos hpositive]
      split <;> omega
    · simp only [if_neg hpositive]
      split <;> omega
  · omega

end FirstPeriod

/-! ## What a committed operation of a user takes from others -/

/-- No wallet built for another user id stands lower. -/
def SparesOthers (userId : String) (w w' : World) : Prop :=
  ∀ other kind, other ≠ userId →
    w.ledger.tables.balanceOf (walletOf other kind) ≤ w'.ledger.tables.balanceOf (walletOf other kind)

/-- The operation debits its caller, or accounts that a debit raises; and a subscription credits no
account that a credit lowers. -/
def DebitsOwn (config : Config) (w : World) (userId : String) : Operation → Prop
  | .spend o => o.buyerId = userId ∨ isDebitNormal (spendable o.buyerId) = true
  | .requestPayout o => o.userId = userId ∨ isDebitNormal (earned o.userId) = true
  | .subscribe o => (o.userId = userId ∨ isDebitNormal (spendable o.userId) = true) ∧
      (config.accrualDrain = true ∨ o.sellerId = userId ∨ isDebitNormal (earned o.sellerId) = false ∨
        SellerUnpaid config w o)
  | _ => True

section Committed

variable {ports : Ports} {env : Env} {config : Config} {w w' : World} {transaction : Transaction}

theorem CommitsFrom.moves {operation : Operation}
    (h : CommitsFrom (registry ports) env config operation transaction w w') :
    ∃ w₁ w₂, w.Fronts w₁ ∧
      (handlerOf ports env config operation).txn.run w₁ = (.ok (.committed transaction), w₂) ∧
      ∀ locked a, w'.ledger.tables.balanceOf a = w.ledger.tables.balanceOf a +
        total (deltas (coverage.after (.start locked)
          ((handlerOf ports env config operation).trace w₁)).posted) a := by
  obtain ⟨w₁, w₂, hfronts, hrun, hfiles⟩ := h.handled
  refine ⟨w₁, w₂, hfronts, hrun, ?_⟩
  intro locked a
  have hbooked := ((handlerOf ports env config operation).books hrun).balance a
  rw [after_posted, hfiles.ledger, hbooked, hfronts.ledger]
  rfl

theorem sparesOthers_iff {legs : List Leg}
    (h : ∀ a, w'.ledger.tables.balanceOf a = w.ledger.tables.balanceOf a + total (deltas legs) a) :
    SparesOthers userId w w' ↔ TakesFrom userId legs := by
  constructor
  · intro hspares other kind hother
    have hle := hspares other kind hother
    rw [h] at hle
    omega
  · intro htakes other kind hother
    have hnonneg := htakes other kind hother
    rw [h]
    omega

theorem spend_spares_iff {o : SpendOperation} (hvalid : validateOperation config (.spend o) = .ok ())
    (h : CommitsFrom (registry ports) env config (.spend o) transaction w w') :
    SparesOthers userId w w' ↔ DebitsOwn config w userId (.spend o) := by
  obtain ⟨w₁, w₂, -, hrun, hmoves⟩ := h.moves
  obtain ⟨-, -, hcommitted⟩ := (spend_guarded env config o w₁).2 hrun
  obtain ⟨hsellers, plan, built, hwatch⟩ := hcommitted ⟨transaction, rfl⟩
  have hgain := hwatch.sellers_gain fun seller hseller => by
    obtain ⟨r, hr, rfl⟩ := List.mem_map.mp hseller
    exact hsellers r hr
  have htakes := @ChargeWatch.takesFrom_iff _ userId _ _ _ _ _ _ _ _ hwatch
    (amount_positive hvalid rfl rfl)
  exact ((sparesOthers_iff (hmoves _)).trans htakes).trans (and_iff_left fun other _ => hgain other)

theorem subscribe_spares_iff {o : SubscribeOperation}
    (hvalid : validateOperation config (.subscribe o) = .ok ())
    (h : CommitsFrom (registry ports) env config (.subscribe o) transaction w w') :
    SparesOthers userId w w' ↔ DebitsOwn config w userId (.subscribe o) := by
  have hprice := amount_positive hvalid rfl rfl
  obtain ⟨w₁, w₂, hfronts, hrun, hmoves⟩ := h.moves
  obtain ⟨-, -, hcommitted⟩ := (subscribe_guarded env config o hprice w₁).2 hrun
  obtain ⟨hdiffer, promoBalance, plan, built, hbalance, hplan, hbuilt, hwatch⟩ :=
    hcommitted ⟨transaction, rfl⟩
  have htakes := @ChargeWatch.takesFrom_iff _ userId _ _ _ _ _ _ _ _ hwatch hprice
  refine ((sparesOthers_iff (hmoves _)).trans htakes).trans (and_congr_right fun _ => ?_)
  obtain ⟨net, hbrings, hnet, hzero⟩ := buildSubscribeLegs_brings hwatch.splits.promo hbuilt
  have hearned : ∀ other, total (deltas
    (coverage.after (.start (LOCK_SETS.subscribe o config.platformShards
      config.accrualDrain)) ((subscribe env config o).trace w₁)).posted) (earned other) =
      if config.accrualDrain = true then 0 else
        if other = o.sellerId then (if isDebitNormal (earned o.sellerId) then -net else net) else 0 := by
    intro other
    rw [hwatch.total, hwatch.charge.charged_earned, ← hbrings other]
  have hunpaid : net = 0 ↔ SellerUnpaid config w o := by
    obtain ⟨hpromo, hsum⟩ := planSpend_promo hprice hplan
    have hon : promoBalance.minor = w.ledger.tables.balanceOf (promo o.userId) := by
      rw [← hfronts.ledger]
      exact (toAmount_eq_ok.mp hbalance).2
    rw [hzero, hpromo, hon]
    refine and_congr_right fun hnone => ?_
    have hnopromo : plan.promoPart.minor = 0 := hpromo.mpr (hon ▸ hnone)
    have hall : plan.spendablePart.minor = o.price.minor := by omega
    rw [hall]
    exact or_iff_right (by omega)
  constructor
  · intro hall
    by_cases haccrual : config.accrualDrain = true
    · exact Or.inl haccrual
    · by_cases hseller : o.sellerId = userId
      · exact Or.inr (Or.inl hseller)
      · have hgain := hall o.sellerId hseller
        rw [hearned, if_neg haccrual, if_pos rfl] at hgain
        cases hnormal : isDebitNormal (earned o.sellerId) with
        | false => exact Or.inr (Or.inr (Or.inl rfl))
        | true =>
          rw [hnormal, if_pos rfl] at hgain
          exact Or.inr (Or.inr (Or.inr (hunpaid.mp (by omega))))
  · intro hcondition other hother
    rw [hearned]
    split
    · exact le_refl _
    · rename_i haccrual
      split
      · rename_i hseller
        subst hseller
        rcases hcondition with hdrain | hself | hnormal | hnone
        · exact absurd hdrain haccrual
        · exact absurd hself hother
        · rw [hnormal, if_neg Bool.false_ne_true]
          exact hnet
        · rw [hunpaid.mpr hnone]
          split <;> exact le_refl _
      · exact le_refl _

theorem requestPayout_spares_iff {o : RequestPayoutOperation}
    (h : CommitsFrom (registry ports) env config (.requestPayout o) transaction w w') :
    SparesOthers userId w w' ↔ DebitsOwn config w userId (.requestPayout o) := by
  obtain ⟨w₁, w₂, -, hrun, hmoves⟩ := h.moves
  obtain ⟨-, -, hcommitted⟩ := (requestPayout_guarded env config ports.rates ports.payees o w₁).2 hrun
  obtain ⟨hpositive, legs, hlegs, hposted⟩ := hcommitted ⟨transaction, rfl⟩
  have htotal : ∀ other kind, total (deltas (coverage.after (.start (LOCK_SETS.requestPayout o
      config.platformShards)) ((requestPayout env config ports.rates ports.payees o).trace w₁)).posted)
      (walletOf other kind) = if earned o.userId = walletOf other kind then
        (debit (earned o.userId) o.amount).delta else 0 := by
    intro other kind
    obtain ⟨line, hline, hpair⟩ := except_bind_ok.mp hlegs
    obtain rfl := except_pure_ok.mp hpair
    rw [hposted, walletOf_eq]
    have hfilter := @total_filter
      (routePlatformLegs [debit (earned o.userId) o.amount, line] o.userId config.platformShards)
      (fun leg => decide (leg.amount.minor ≠ 0)) (wallet (holderOf other kind) kind.account)
      fun leg _ _ hzero => Leg.delta_of_zero (by simpa using hzero)
    rw [hfilter, total_routed]
    have hreserve : line.account ≠ wallet (holderOf other kind) kind.account :=
      (credit_ok hline).1 ▸ system_ne_wallet (by decide) _ _
    simp only [deltas_cons, deltas_nil, total_cons, total_nil, if_neg hreserve, Int.add_zero]
    rfl
  have hdelta : (debit (earned o.userId) o.amount).delta =
      if isDebitNormal (earned o.userId) = true then o.amount.minor else -o.amount.minor := rfl
  suffices htakes : TakesFrom userId
    (coverage.after (.start (LOCK_SETS.requestPayout o config.platformShards))
      ((requestPayout env config ports.rates ports.payees o).trace w₁)).posted ↔
      DebitsOwn config w userId (.requestPayout o) from (sparesOthers_iff (hmoves _)).trans htakes
  constructor
  · intro htakes
    by_cases hself : o.userId = userId
    · exact Or.inl hself
    · right
      have hgain := htakes o.userId .earned hself
      have hsame : earned o.userId = walletOf o.userId .earned := rfl
      rw [htotal o.userId .earned, if_pos hsame, hdelta] at hgain
      by_contra hnormal
      rw [if_neg hnormal] at hgain
      omega
  · intro hcondition other kind hother
    rw [htotal, hdelta]
    split
    · rename_i hsame
      rcases hcondition with hself | hnormal
      · rw [walletOf_eq] at hsame
        obtain ⟨hholder, hkind⟩ := wallet_inj.mp hsame
        cases kind with
        | earned => exact absurd (hholder.symm.trans hself) hother
        | spendable => cases hkind
        | promo => cases hkind
        | escrow sessionId => cases hkind
      · rw [if_pos hnormal]
        exact hpositive.le
    · exact le_refl _

theorem cancelSubscription_spares {o : CancelSubscriptionOperation}
    (h : CommitsFrom (registry ports) env config (.cancelSubscription o) transaction w w') :
    SparesOthers userId w w' := by
  obtain ⟨w₁, w₂, -, hrun, hmoves⟩ := h.moves
  have hstays := cancelSubscription_staysOn env o w₁
  have hlocked := (hstays.2 hrun).2
  have hposted := accepts_posted hstays.1 fun leg hleg => absurd hleg List.not_mem_nil
  rw [hlocked] at hposted
  have hnone := List.eq_nil_iff_forall_not_mem.mpr fun leg hleg => List.not_mem_nil (hposted leg hleg)
  have htakes : TakesFrom userId (coverage.after (.start [])
      ((cancelSubscription env o).trace w₁)).posted := by
    intro other kind _
    rw [hnone]
    exact le_refl _
  exact (sparesOthers_iff (hmoves [])).mpr htakes

end Committed

/-- Whom a committed operation of a user may lower, which wallets share an id, and which read as
the platform's. -/
theorem ownership_iff (ports : Ports) (env : Env) (config : Config) :
    (∀ {operation : Operation} {userId : String} {now : Int} {w w' : World} {transaction : Transaction},
      operation.actor = .user userId →
      submit (registry ports) env config operation now w = (.ok (.committed transaction), w') →
      (SparesOthers userId w w' ↔ DebitsOwn config w userId operation)) ∧
    (∀ {userId userId' : String} {kind kind' : WalletKind}, userId ≠ userId' ∨ kind ≠ kind' →
      (walletOf userId kind ≠ walletOf userId' kind' ↔ ¬ Respelled userId userId' kind kind')) ∧
    ∀ userId kind, ReadsAsUsers userId kind ↔
      ¬ (userId = "platform" ∨ startsWith userId "platform:" = true) := by
  refine ⟨?_, fun h => walletOf_ne_iff h, readsAsUsers_iff⟩
  intro operation userId now w w' transaction hactor hsubmit
  have h := submit_committed (registry_orderly ports) hsubmit
  have hallowed : RESTRICTED_TO_PRIVILEGED operation = false := by
    have hauthorized : authorize operation = .ok () := h.authorized
    unfold authorize at hauthorized
    rw [hactor] at hauthorized
    cases hrestricted : RESTRICTED_TO_PRIVILEGED operation with
    | false => rfl
    | true =>
      rw [hrestricted] at hauthorized
      cases hauthorized
  cases operation with
  | spend o => exact spend_spares_iff h.valid h
  | subscribe o => exact subscribe_spares_iff h.valid h
  | requestPayout o => exact requestPayout_spares_iff h
  | cancelSubscription o => exact iff_of_true (cancelSubscription_spares h) trivial
  | _ => cases hallowed

def nestedFunds : World :=
  ((Work.postEntry tickEnv ⟨"t0", [⟨SYSTEM.STORED_VALUE, ⟨.credit, 1000, .thousand⟩⟩,
    ⟨spendable "a:b", ⟨.credit, -1000, .neg_thousand⟩⟩], []⟩).txn.run World.empty).2

/-- The user `a` buys at the expense of `a:b`. -/
def nestedPurchase : SpendOperation :=
  ⟨"k1", .user "a", "o", "a:b", "sku", ⟨.credit, 200, .two_hundred⟩, [⟨"s", 10000⟩], false, none⟩

def nestedSlot : Slot × World :=
  submit (registry parPorts) tickEnv twoShards (.spend nestedPurchase) 0 nestedFunds

theorem nestedPurchase_takes :
    (∃ transaction, nestedSlot.1 = .ok (.committed transaction)) ∧
    ¬ SparesOthers "a" nestedFunds nestedSlot.2 ∧
    walletOf "a" (.escrow "b:c") = walletOf "a:b" (.escrow "c") ∧
    isDebitNormal (walletOf "platform:receivable#1" .earned) = true := by
  obtain ⟨transaction, hcommitted⟩ := Option.isSome_iff_exists.mp
    (by decide +kernel : (committedOf nestedSlot.1).isSome = true)
  refine ⟨⟨transaction, committedOf_eq_some.mp hcommitted⟩, ?_, by decide +kernel, by decide +kernel⟩
  intro h
  have hle := h "a:b" .spendable (by decide)
  have hlt : nestedSlot.2.ledger.tables.balanceOf (walletOf "a:b" .spendable) <
      nestedFunds.ledger.tables.balanceOf (walletOf "a:b" .spendable) := by decide +kernel
  exact absurd hle (Int.not_le.mpr hlt)

theorem nestedPurchase_spares_iff :
    (∃ transaction, nestedSlot.1 = .ok (.committed transaction)) ∧
    (SparesOthers "a" nestedFunds nestedSlot.2 ↔
      DebitsOwn twoShards nestedFunds "a" (.spend nestedPurchase)) ∧
    (walletOf "a" .spendable ≠ walletOf "a:b" .spendable ↔
      ¬ Respelled "a" "a:b" .spendable .spendable) := by
  obtain ⟨hspares, hdiffer, -⟩ := ownership_iff parPorts tickEnv twoShards
  obtain ⟨transaction, hcommitted⟩ := Option.isSome_iff_exists.mp
    (by decide +kernel : (committedOf nestedSlot.1).isSome = true)
  have hslot := committedOf_eq_some.mp hcommitted
  have hsubmit : submit (registry parPorts) tickEnv twoShards (.spend nestedPurchase) 0 nestedFunds =
      (.ok (.committed transaction), nestedSlot.2) := eq_of_slot hslot
  exact ⟨⟨transaction, hslot⟩, hspares rfl hsubmit, hdiffer (Or.inl (by decide))⟩

end EconomyLab
