import EconomyLab.Chain.Links

/-!
# Reading a posting back

`verifiedPosting` recomputes the link of every account a stored posting names and checks
that the legs net to zero. An edit it does not notice regroups amounts that links vouch for.
-/

namespace EconomyLab

open Foundation Text

def LedgerTables.links (t : LedgerTables) (txnId : String) : List Link :=
  ((t.log.find? (·.txnId = txnId)).map StoredPosting.links).getD []

/-- The link rows as a map by account: the last row of an account stands. -/
def linkFor (links : List Link) (account : AccountRef) : Option Link :=
  (links.filter (·.account = account)).getLast?

def failedToReDerive : Fault :=
  fault .chainBroken
    ("A stored posting failed to re-derive against its chain links; refusing to derive money from " ++
      "tampered history.")

def checkLink (digest : Digest) (posting : Posting) (links : List Link) (account : AccountRef) :
    Except Fault Unit :=
  match linkFor links account with
  | none => .error failedToReDerive
  | some link => do
    let recomputed ← chainHash digest (← fromHex link.prevHash) account posting
    if recomputed = link.hash then .ok () else .error failedToReDerive

def checkLinks (digest : Digest) (posting : Posting) (links : List Link) :
    List AccountRef → Except Fault Unit
  | [] => .ok ()
  | account :: accounts => do
    checkLink digest posting links account
    checkLinks digest posting links accounts

def assertZeroSum (posting : Posting) : Except Fault Unit :=
  if (tally (currencyAmounts posting.legs)).all (·.2 = 0) then .ok ()
  else .error (fault .chainBroken
    "A stored posting no longer nets to zero; refusing to derive money from tampered history.")

def verifiedPosting (digest : Digest) (t : LedgerTables) (txnId : String) :
    Except Fault (Option Posting) :=
  match t.findPosting txnId with
  | none => .ok none
  | some posting => do
    checkLinks digest posting (t.links txnId) (distinctAccounts posting.legs)
    assertZeroSum posting
    return some posting

/-! ## Edits in place -/

structure Edit where
  legs : List Leg
  fields : Meta
  links : List Link

def StoredPosting.edited (row : StoredPosting) (e : Edit) : StoredPosting :=
  { row with legs := e.legs, fields := e.fields, links := e.links }

/-- The first row under the id is edited, as reads find it. -/
def tamperPosting (txnId : String) (e : Edit) : List StoredPosting → List StoredPosting
  | [] => []
  | row :: log => if row.txnId = txnId then row.edited e :: log else row :: tamperPosting txnId e log

def LedgerTables.tampered (t : LedgerTables) (txnId : String) (e : Edit) : LedgerTables :=
  { t with log := tamperPosting txnId e t.log }

/-- Every stored pair of hashes is one the posting was committed with. -/
def Edit.InPlace (e : Edit) (row : StoredPosting) : Prop :=
  ∀ link ∈ e.links, ∃ written ∈ row.links, written.prevHash = link.prevHash ∧ written.hash = link.hash

theorem find_tamperPosting {txnId : String} {e : Edit} {log : List StoredPosting} {row : StoredPosting}
    (h : log.find? (·.txnId = txnId) = some row) :
    (tamperPosting txnId e log).find? (·.txnId = txnId) = some (row.edited e) := by
  induction log with
  | nil => cases h
  | cons first log ih =>
    by_cases hid : first.txnId = txnId
    · have hfirst : first = row := by simpa [hid] using h
      subst hfirst
      have hedited : (first.edited e).txnId = txnId := hid
      simp [tamperPosting, hid, hedited]
    · have hrest : log.find? (·.txnId = txnId) = some row := by simpa [hid] using h
      simp [tamperPosting, hid, ih hrest]

def OnlyHistory (row : StoredPosting) : Except Fault (Option Posting) → Prop
  | .error e => e.code = some .chainBroken
  | .ok none => False
  | .ok (some posting) =>
    posting.legs.Perm row.legs ∧ Meta.sorted posting.fields = Meta.sorted row.fields

/-- The account finds a link row that was written over exactly the amounts it now has. -/
def VouchedFor (row : StoredPosting) (e : Edit) (account : AccountRef) : Prop :=
  ∃ link, linkFor e.links account = some link ∧
    ∃ written ∈ row.links, written.prevHash = link.prevHash ∧ written.hash = link.hash ∧
      (amountsOf account e.legs).Perm (amountsOf written.account row.legs) ∧
      canonicalMeta (.object e.fields) = canonicalMeta (.object row.fields)

/-- Other legs or metadata, every account of which some link row vouches for. -/
structure Regrouped (row : StoredPosting) (e : Edit) : Prop where
  vouched : ∀ account ∈ e.legs.map Leg.account, VouchedFor row e account
  zeroSum : ZeroSum e.legs
  changed : ¬ (e.legs.Perm row.legs ∧ Meta.sorted e.fields = Meta.sorted row.fields)

/-- The preimages hashed for a posting when it was committed and when it is read back. -/
def linkPreimages (row : StoredPosting) (e : Edit) : Set (List UInt8) :=
  {bytes | ∃ link ∈ row.links, ∃ prev account, fromHex link.prevHash = .ok prev ∧
    (chainPreimage prev account row.posting = .ok bytes ∨
      chainPreimage prev account (row.edited e).posting = .ok bytes)}

/-- No two of the hashed texts share a digest. -/
def CollisionFree (digest : Digest) (hashed : Set (List UInt8)) : Prop := Set.InjOn digest hashed

theorem toHex_inj {xs ys : List UInt8} (h : toHex xs = toHex ys) : xs = ys := by
  have hx := fromHex_toHex xs
  rw [h, fromHex_toHex] at hx
  exact (Except.ok.inj hx).symm

theorem assertZeroSum_cases (posting : Posting) :
    (assertZeroSum posting = .ok () ∧ ZeroSum posting.legs) ∨
    (∃ f, assertZeroSum posting = .error f ∧ f.code = some .chainBroken ∧ ¬ ZeroSum posting.legs) := by
  unfold assertZeroSum
  split
  · rename_i h
    left
    refine ⟨rfl, ?_⟩
    intro c
    by_cases hc : c ∈ (currencyAmounts posting.legs).map Prod.fst
    · have hm : (c, total (currencyAmounts posting.legs) c) ∈ tally (currencyAmounts posting.legs) :=
        mem_tally.mpr ⟨hc, rfl⟩
      simpa using List.all_eq_true.mp h _ hm
    · exact total_eq_zero hc
  · rename_i h
    right
    refine ⟨_, rfl, rfl, ?_⟩
    intro hz
    apply h
    rw [List.all_eq_true]
    rintro ⟨c, v⟩ hm
    have hv := (mem_tally.mp hm).2
    simp [hv, hz c]

section Reading

variable {digest : Digest} {before : List StoredPosting} {row : StoredPosting} {e : Edit}

theorem chainHash_ok {prev : List UInt8} {account : AccountRef} {posting : Posting} {hash : String} :
    chainHash digest prev account posting = .ok hash ↔
      ∃ bytes, chainPreimage prev account posting = .ok bytes ∧ toHex (digest bytes) = hash := by
  unfold chainHash
  rw [except_bind_ok]
  simp only [except_pure_ok]

theorem mem_of_linkFor {links : List Link} {account : AccountRef} {link : Link}
    (h : linkFor links account = some link) : link ∈ links ∧ link.account = account := by
  have hm := List.mem_filter.mp (List.mem_of_getLast? h)
  exact ⟨hm.1, by simpa using hm.2⟩

/-- A link is accepted exactly when it vouches for the account's edited amounts. -/
theorem checkLink_cases (hw : RowLinked digest before row) (hplace : e.InPlace row)
    (hplain : (Json.object e.fields).Plain) (hframed : row.posting.Framed)
    (hframed' : (row.edited e).posting.Framed) (hfree : CollisionFree digest (linkPreimages row e))
    (account : AccountRef) :
    (checkLink digest (row.edited e).posting e.links account = .ok () ∧ VouchedFor row e account) ∨
    (checkLink digest (row.edited e).posting e.links account = .error failedToReDerive ∧
      ¬ VouchedFor row e account) := by
  cases hl : linkFor e.links account with
  | none =>
    right
    refine ⟨by simp [checkLink, hl], ?_⟩
    rintro ⟨link, h, -⟩
    rw [hl] at h
    cases h
  | some link =>
    obtain ⟨written, hm, hp, hh⟩ := hplace link (mem_of_linkFor hl).1
    obtain ⟨prev, hprev, hhash⟩ := (hw.links written hm).hash
    obtain ⟨bytes, hbytes, hwritten⟩ := chainHash_ok.mp hhash
    obtain ⟨text, htext⟩ := hplain
    have hedited : chainPreimage prev account (row.edited e).posting = .ok
        (lengthPrefixed (prev :: postingFrames account (row.edited e).posting text)) :=
      chainPreimage_ok.mpr ⟨text, htext, rfl⟩
    generalize lengthPrefixed (prev :: postingFrames account (row.edited e).posting text) =
      bytes' at hedited
    have hrecompute : chainHash digest prev account (row.edited e).posting =
        .ok (toHex (digest bytes')) := chainHash_ok.mpr ⟨bytes', hedited, rfl⟩
    have hcheck : checkLink digest (row.edited e).posting e.links account =
        if toHex (digest bytes') = link.hash then .ok () else .error failedToReDerive := by
      rw [hp] at hprev
      simp [checkLink, hl, hprev, hrecompute, bind, Except.bind]
    by_cases heq : toHex (digest bytes') = link.hash
    · left
      refine ⟨by rw [hcheck, if_pos heq], link, hl, written, hm, hp, hh, ?_⟩
      have hdigest : digest bytes' = digest bytes := toHex_inj (by rw [heq, hwritten, hh])
      have hsame : bytes' = bytes :=
        hfree ⟨written, hm, prev, account, hprev, Or.inr hedited⟩
          ⟨written, hm, prev, written.account, hprev, Or.inl hbytes⟩ hdigest
      subst hsame
      obtain ⟨-, -, hamounts, hmeta⟩ := chainPreimage_inj rfl hframed' hframed hedited hbytes
      exact ⟨hamounts, hmeta⟩
    · right
      refine ⟨by rw [hcheck, if_neg heq], ?_⟩
      rintro ⟨link', hl', written', hm', hp', hh', hamounts, hmeta⟩
      obtain rfl : link = link' := Option.some.inj (hl.symm.trans hl')
      obtain ⟨prev', hprev', hhash'⟩ := (hw.links written' hm').hash
      obtain rfl : prev' = prev := by
        rw [hp', ← hp, hprev] at hprev'
        exact (Except.ok.inj hprev').symm
      obtain ⟨bytes'', hbytes'', hwritten'⟩ := chainHash_ok.mp hhash'
      have hcongr : chainPreimage prev' account (row.edited e).posting =
          chainPreimage prev' written'.account row.posting :=
        chainPreimage_congr rfl hamounts hmeta
      rw [hedited, hbytes''] at hcongr
      obtain rfl := Except.ok.inj hcongr
      exact heq (hwritten'.trans hh')

theorem checkLinks_cases (hw : RowLinked digest before row) (hplace : e.InPlace row)
    (hplain : (Json.object e.fields).Plain) (hframed : row.posting.Framed)
    (hframed' : (row.edited e).posting.Framed) (hfree : CollisionFree digest (linkPreimages row e))
    (accounts : List AccountRef) :
    (checkLinks digest (row.edited e).posting e.links accounts = .ok () ∧
      ∀ account ∈ accounts, VouchedFor row e account) ∨
    (checkLinks digest (row.edited e).posting e.links accounts = .error failedToReDerive ∧
      ∃ account ∈ accounts, ¬ VouchedFor row e account) := by
  induction accounts with
  | nil => exact Or.inl ⟨rfl, by simp⟩
  | cons account accounts ih =>
    rcases checkLink_cases hw hplace hplain hframed hframed' hfree account with ⟨hok, hv⟩ | ⟨herr, hv⟩
    · have hstep : checkLinks digest (row.edited e).posting e.links (account :: accounts) =
          checkLinks digest (row.edited e).posting e.links accounts := by
        simp [checkLinks, hok, bind, Except.bind]
      rw [hstep]
      rcases ih with ⟨hrest, hall⟩ | ⟨hrest, account', hm, hn⟩
      · left
        refine ⟨hrest, ?_⟩
        intro a ha
        rcases List.mem_cons.mp ha with rfl | ha
        · exact hv
        · exact hall a ha
      · exact Or.inr ⟨hrest, account', List.mem_cons_of_mem _ hm, hn⟩
    · right
      refine ⟨?_, account, List.mem_cons_self, hv⟩
      simp [checkLinks, herr, bind, Except.bind]

/-- Reading an edited row back returns only history, unless the edit regrouped it. -/
theorem onlyHistory_iff {t : LedgerTables} {txnId : String} (hw : RowLinked digest before row)
    (hfind : t.log.find? (·.txnId = txnId) = some (row.edited e)) (hplace : e.InPlace row)
    (hplain : (Json.object e.fields).Plain) (hframed : row.posting.Framed)
    (hframed' : (row.edited e).posting.Framed) (hfree : CollisionFree digest (linkPreimages row e)) :
    OnlyHistory row (verifiedPosting digest t txnId) ↔ ¬ Regrouped row e := by
  have hposting : t.findPosting txnId = some (row.edited e).posting := by
    simp [LedgerTables.findPosting, hfind]
  have hlinks : t.links txnId = e.links := by
    simp [LedgerTables.links, hfind, StoredPosting.edited]
  have hmem : ∀ a, a ∈ distinctAccounts (row.edited e).posting.legs ↔ a ∈ e.legs.map Leg.account :=
    fun a => mem_distinctAccounts
  unfold verifiedPosting
  rw [hposting, hlinks]
  rcases checkLinks_cases hw hplace hplain hframed hframed' hfree
    (distinctAccounts (row.edited e).posting.legs) with ⟨hok, hall⟩ | ⟨herr, account, hm, hn⟩
  · rcases assertZeroSum_cases (row.edited e).posting with ⟨hzero, hz⟩ | ⟨f, hzero, hf, hz⟩
    · simp only [hok, hzero, bind, Except.bind, pure, Except.pure, OnlyHistory]
      have hvouched : ∀ a ∈ e.legs.map Leg.account, VouchedFor row e a :=
        fun a ha => hall a ((hmem a).mpr ha)
      constructor
      · intro h hr
        exact hr.changed h
      · intro h
        by_contra hc
        exact h ⟨hvouched, hz, hc⟩
    · simp only [hok, hzero, bind, Except.bind, OnlyHistory, hf, true_iff]
      exact fun hr => hz hr.zeroSum
  · simp only [herr, bind, Except.bind, OnlyHistory, failedToReDerive, fault_code, true_iff]
    exact fun hr => hn (hr.vouched account ((hmem account).mp hm))

end Reading

/-- On every honest ledger, an edit of a posting that keeps the stored hashes is caught, or
left the posting as it was committed, unless it regrouped what its links vouch for. -/
theorem verifiedPosting_only_history (digest : Digest) (cmds : List Command) (txnId : String)
    (row : StoredPosting) (e : Edit)
    (hrow : (runLedger digest cmds).ledger.tables.log.find? (·.txnId = txnId) = some row)
    (hplace : e.InPlace row) (hplain : (Json.object e.fields).Plain) (hframed : row.posting.Framed)
    (hframed' : (row.edited e).posting.Framed) (hfree : CollisionFree digest (linkPreimages row e)) :
    OnlyHistory row
      (verifiedPosting digest ((runLedger digest cmds).ledger.tables.tampered txnId e) txnId) ↔
      ¬ Regrouped row e := by
  have hexact := (runLedger_exact digest cmds).rows.indexes
  have hm : row ∈ (runLedger digest cmds).history.rows.appended := by
    refine hexact.kept.subset ?_
    rw [← hexact.log]
    exact List.mem_of_find?_eq_some hrow
  obtain ⟨before, hw⟩ := (runLedger_chained digest cmds).1.of_mem hm
  exact onlyHistory_iff hw (find_tamperPosting hrow) hplace hplain hframed hframed' hfree

theorem Posting.framed_of {posting : Posting} (htxn : EconomyLab.Framed (utf8 posting.txnId))
    (hamounts : ∀ account ∈ posting.legs.map Leg.account,
      EconomyLab.Framed (utf8 ("\u0000".intercalate (ownAmounts account posting.legs))))
    (hmeta : EconomyLab.Framed (utf8 (Json.object posting.fields).text)) : posting.Framed := by
  intro account text htext frame hframe
  simp only [postingFrames, List.mem_cons, List.not_mem_nil, or_false] at hframe
  rcases hframe with rfl | rfl | rfl
  · exact htxn
  · by_cases ha : account ∈ posting.legs.map Leg.account
    · exact hamounts account ha
    · have hnone : posting.legs.filter (·.account = account) = [] := by
        refine List.filter_eq_nil_iff.mpr ?_
        intro leg hleg he
        exact ha (List.mem_map.mpr ⟨leg, hleg, by simpa using he⟩)
      have hempty : ownAmounts account posting.legs = [] := by
        rw [ownAmounts, hnone]
        rfl
      rw [hempty]
      decide
  · rw [← Json.text_of_ok htext]
    exact hmeta

/-- A purchase of credits with a bonus: two pairs of legs that each net to zero. -/
def bonusTopUp : Posting :=
  ⟨"txn_1", [⟨SYSTEM.STORED_VALUE, ⟨.credit, 10, .ten⟩⟩, ⟨spendable "usr_a", ⟨.credit, -10, .neg_ten⟩⟩,
    ⟨SYSTEM.PROMO_FLOAT, ⟨.credit, 5, .five⟩⟩, ⟨promo "usr_a", ⟨.credit, -5, .neg_five⟩⟩], []⟩

def bonusLedger : LedgerTables := (runLedger id [.write (.entry 0 bonusTopUp)]).ledger.tables

def keepBonus (row : StoredPosting) : Edit := ⟨row.legs.drop 2, row.fields, row.links⟩

theorem bonusLedger_row : (bonusLedger.log.find? (·.txnId = "txn_1")).isSome = true := by
  decide +kernel

theorem not_onlyHistory_of_length {row : StoredPosting} {result : Except Fault (Option Posting)}
    {n : Nat} (hr : result.toOption.join.map (·.legs.length) = some n) (hn : n ≠ row.legs.length) :
    ¬ OnlyHistory row result := by
  intro h
  match result, h, hr with
  | .ok (some posting), h, hr =>
    obtain rfl : posting.legs.length = n := Option.some.inj hr
    exact hn h.1.length_eq

def bonusRow : StoredPosting := (bonusLedger.log.find? (·.txnId = "txn_1")).get bonusLedger_row

theorem verifiedPosting_drops_legs :
    (keepBonus bonusRow).links = bonusRow.links ∧ (keepBonus bonusRow).fields = bonusRow.fields ∧
      CollisionFree id (linkPreimages bonusRow (keepBonus bonusRow)) ∧
      ¬ OnlyHistory bonusRow
        (verifiedPosting id (bonusLedger.tampered "txn_1" (keepBonus bonusRow)) "txn_1") := by
  refine ⟨rfl, rfl, Function.injective_id.injOn, ?_⟩
  have hlegs : (verifiedPosting id (bonusLedger.tampered "txn_1" (keepBonus bonusRow))
      "txn_1").toOption.join.map (·.legs.length) = some 2 := by
    decide +kernel
  have hrow : bonusRow.legs.length = 4 := by decide +kernel
  exact not_onlyHistory_of_length hlegs (by omega)

theorem verifiedPosting_only_history_bonus :
    OnlyHistory bonusRow
        (verifiedPosting id (bonusLedger.tampered "txn_1" (keepBonus bonusRow)) "txn_1") ↔
      ¬ Regrouped bonusRow (keepBonus bonusRow) := by
  refine verifiedPosting_only_history id [.write (.entry 0 bonusTopUp)] "txn_1" bonusRow
    (keepBonus bonusRow) (Option.some_get _).symm ?_ ?_ ?_ ?_ Function.injective_id.injOn
  · intro link hm
    exact ⟨link, hm, rfl, rfl⟩
  · exact ⟨"\x7b\x7d", by decide +kernel⟩
  · exact Posting.framed_of (by decide +kernel) (by decide +kernel) (by decide +kernel)
  · exact Posting.framed_of (by decide +kernel) (by decide +kernel) (by decide +kernel)

end EconomyLab
