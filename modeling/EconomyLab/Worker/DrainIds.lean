import EconomyLab.Foundation.Runs
import EconomyLab.Worker.Draining

/-!
# The ids of the drains

The id of a drain is a digest of the keys of its rows, sorted and joined by line breaks. An
order id may hold a line break itself, and two sets of rows whose keys are cut into the same
lines get one id. The second of them is marked as drained and nothing is posted for it.
-/

namespace EconomyLab

open Foundation Text

/-! ## Keys that are cut alike -/

def rowKeyText (row : AccrualRow) : String := row.orderId ++ "|" ++ row.sellerId ++ "|" ++ toString row.seq

def keysText (rows : List AccrualRow) : String := "\n".intercalate (sortStrings (rows.map rowKeyText))

/-- The keys of the rows in their order, cut at the line breaks in them. -/
def keyLines (rows : List AccrualRow) : List (List Char) :=
  ((sortStrings (rows.map rowKeyText)).map String.toList).flatMap (List.splitOn '\n')

def CutAlike (rows rows' : List AccrualRow) : Prop := keyLines rows = keyLines rows'

instance (rows rows' : List AccrualRow) : Decidable (CutAlike rows rows') :=
  inferInstanceAs (Decidable (keyLines rows = keyLines rows'))

variable {rows rows' : List AccrualRow} (env : Env) {w w' : World} {plan : DrainPlan}

theorem CutAlike.symm (h : CutAlike rows rows') : CutAlike rows' rows :=
  Eq.symm h

theorem length_sortedKeys (rows : List AccrualRow) :
    (sortStrings (rows.map rowKeyText)).length = rows.length := by
  unfold sortStrings
  rw [List.length_insertionSort, List.length_map]

theorem keysText_toList (rows : List AccrualRow) :
    (keysText rows).toList = ['\n'].intercalate (keyLines rows) := by
  unfold keysText keyLines
  rw [String.toList_intercalate]
  by_cases hnone : (sortStrings (rows.map rowKeyText)).map String.toList = []
  · rw [hnone]
    rfl
  · rw [← splitOn_joined '\n' hnone, List.intercalate_splitOn]
    rfl

theorem rowKeyText_ne_empty (row : AccrualRow) : (rowKeyText row).toList ≠ [] := by
  intro h
  unfold rowKeyText at h
  simp only [String.toList_append, List.append_eq_nil_iff] at h
  exact absurd h.1.2 (by decide)

theorem keysText_eq_nil (h : (keysText rows).toList = []) : rows = [] := by
  unfold keysText at h
  rw [String.toList_intercalate] at h
  have hkeys : ∀ key ∈ sortStrings (rows.map rowKeyText), key.toList ≠ [] := by
    intro key hkey
    obtain ⟨row, -, hrow⟩ := List.mem_map.mp ((List.mem_insertionSort _).mp hkey)
    rw [← hrow]
    exact rowKeyText_ne_empty row
  have hlength := length_sortedKeys rows
  generalize sortStrings (rows.map rowKeyText) = keys at h hkeys hlength
  cases keys with
  | nil => exact List.length_eq_zero_iff.mp hlength.symm
  | cons key keys =>
    have hkey := hkeys key List.mem_cons_self
    cases keys with
    | nil =>
      simp only [List.map_cons, List.map_nil, List.intercalate_singleton] at h
      exact absurd h hkey
    | cons second keys =>
      simp only [List.map_cons, List.intercalate_cons_cons, List.append_eq_nil_iff] at h
      exact absurd h.1.1 hkey

theorem keyLines_eq (h : rows ≠ []) : keyLines rows = (keysText rows).toList.splitOn '\n' := by
  have hsome : (sortStrings (rows.map rowKeyText)).map String.toList ≠ [] := by
    intro hnone
    have hlength := length_sortedKeys rows
    rw [List.map_eq_nil_iff.mp hnone] at hlength
    exact h (List.length_eq_zero_iff.mp hlength.symm)
  unfold keysText keyLines
  rw [String.toList_intercalate]
  exact (splitOn_joined '\n' hsome).symm

theorem keysText_eq_iff : keysText rows = keysText rows' ↔ CutAlike rows rows' := by
  constructor
  · intro h
    by_cases hnone : rows = []
    · have hempty : (keysText rows').toList = [] := by
        rw [← h, hnone]
        rfl
      have hnone' := keysText_eq_nil hempty
      rw [hnone, hnone']
      rfl
    · have hsome : rows' ≠ [] := by
        intro hnone'
        apply hnone
        apply keysText_eq_nil
        rw [h, hnone']
        rfl
      unfold CutAlike
      rw [keyLines_eq hnone, keyLines_eq hsome, h]
  · intro h
    apply String.toList_inj.mp
    rw [keysText_toList, keysText_toList, h]

/-! ## Ids without separators -/

/-- The ids in a row hold none of the separators that would blur its key. -/
structure PlainIds (row : AccrualRow) : Prop where
  order_line : '\n' ∉ row.orderId.toList
  seller_line : '\n' ∉ row.sellerId.toList
  seller_bar : '|' ∉ row.sellerId.toList

def SamePlaces (rows rows' : List AccrualRow) : Prop :=
  ∀ place, place ∈ rows.map AccrualRow.place ↔ place ∈ rows'.map AccrualRow.place

theorem not_mem_toString_seq {c : Char} (hc : c.isDigit = false) (n : Nat) : c ∉ (toString n).toList := by
  intro h
  have hdigit := isDigit_of_mem_toString h
  rw [hc] at hdigit
  cases hdigit

theorem PlainIds.no_line {row : AccrualRow} (h : PlainIds row) : '\n' ∉ (rowKeyText row).toList := by
  unfold rowKeyText
  simp only [String.toList_append, List.mem_append, not_or]
  have hbar : '\n' ∉ "|".toList := by decide
  exact ⟨⟨⟨⟨h.order_line, hbar⟩, h.seller_line⟩, hbar⟩, not_mem_toString_seq (by decide) row.seq⟩

theorem PlainIds.place_eq {row row' : AccrualRow} (h : PlainIds row) (h' : PlainIds row')
    (hkey : rowKeyText row = rowKeyText row') : row.place = row'.place := by
  have hseq := cutLast_append '|' (row.orderId ++ "|" ++ row.sellerId) (toString row.seq)
    (not_mem_toString_seq (by decide) row.seq)
  have hseq' := cutLast_append '|' (row'.orderId ++ "|" ++ row'.sellerId) (toString row'.seq)
    (not_mem_toString_seq (by decide) row'.seq)
  have hcut := hseq.symm.trans ((congrArg (cutLast '|') hkey).trans hseq')
  obtain ⟨hfront, hnumber⟩ := Prod.mk.inj (Option.some.inj hcut)
  have hseller := cutLast_append '|' row.orderId row.sellerId h.seller_bar
  have hseller' := cutLast_append '|' row'.orderId row'.sellerId h'.seller_bar
  have hcut' := hseller.symm.trans ((congrArg (cutLast '|') hfront).trans hseller')
  obtain ⟨horder, hname⟩ := Prod.mk.inj (Option.some.inj hcut')
  exact Prod.ext horder (Prod.ext hname (toString_nat_inj hnumber))

theorem keyLines_plain (h : ∀ row ∈ rows, PlainIds row) :
    keyLines rows = (sortStrings (rows.map rowKeyText)).map String.toList := by
  unfold keyLines
  rw [List.flatMap_def]
  have hsingle : ((sortStrings (rows.map rowKeyText)).map String.toList).map (List.splitOn '\n') =
      ((sortStrings (rows.map rowKeyText)).map String.toList).map fun key => [key] := by
    apply List.map_congr_left
    intro line hline
    obtain ⟨key, hkey, rfl⟩ := List.mem_map.mp hline
    obtain ⟨row, hrow, rfl⟩ := List.mem_map.mp ((List.mem_insertionSort _).mp hkey)
    exact List.splitOn_eq_singleton (h row hrow).no_line
  rw [hsingle, ← List.flatMap_def, List.flatMap_singleton']

theorem CutAlike.samePlaces (hplain : ∀ row ∈ rows, PlainIds row)
    (hplain' : ∀ row ∈ rows', PlainIds row) (h : CutAlike rows rows') : SamePlaces rows rows' := by
  have hkeys : ∀ key, key ∈ rows.map rowKeyText ↔ key ∈ rows'.map rowKeyText := by
    have hlines : (sortStrings (rows.map rowKeyText)).map String.toList =
        (sortStrings (rows'.map rowKeyText)).map String.toList := by
      rw [← keyLines_plain hplain, ← keyLines_plain hplain']
      exact h
    have hsorted := List.map_injective_iff.mpr (fun _ _ => String.toList_inj.mp) hlines
    intro key
    have hmem : key ∈ sortStrings (rows.map rowKeyText) ↔ key ∈ sortStrings (rows'.map rowKeyText) := by
      rw [hsorted]
    unfold sortStrings at hmem
    rwa [List.mem_insertionSort, List.mem_insertionSort] at hmem
  have hplace : ∀ {xs ys : List AccrualRow}, (∀ row ∈ xs, PlainIds row) → (∀ row ∈ ys, PlainIds row) →
      (∀ key, key ∈ xs.map rowKeyText → key ∈ ys.map rowKeyText) →
      ∀ place, place ∈ xs.map AccrualRow.place → place ∈ ys.map AccrualRow.place := by
    intro xs ys hxs hys hsub place hplace
    obtain ⟨row, hrow, rfl⟩ := List.mem_map.mp hplace
    obtain ⟨row', hrow', hsame⟩ := List.mem_map.mp (hsub _ (List.mem_map_of_mem hrow))
    exact List.mem_map.mpr ⟨row', hrow', (hys row' hrow').place_eq (hxs row hrow) hsame⟩
  intro place
  exact ⟨hplace hplain hplain' (fun key => (hkeys key).mp) place,
    hplace hplain' hplain (fun key => (hkeys key).mpr) place⟩

def drainPrefix (digest : Digest) (text : String) : List Char :=
  (toHex (digest (utf8 text))).toList.take 32

def PrefixFree (digest : Digest) (texts : List String) : Prop :=
  ∀ text ∈ texts, ∀ text' ∈ texts, drainPrefix digest text = drainPrefix digest text' → text = text'

theorem PrefixFree.pair {digest : Digest} {texts : List String} (h : PrefixFree digest texts)
    {text text' : String} (htext : text ∈ texts) (htext' : text' ∈ texts) :
    PrefixFree digest [text, text'] := by
  have hall : ∀ s ∈ [text, text'], s ∈ texts := by
    intro s hs
    rcases List.mem_pair.mp hs with rfl | rfl
    · exact htext
    · exact htext'
  exact fun s hs t ht hsame => h s (hall s hs) t (hall t ht) hsame

theorem drainTxnId_eq (digest : Digest) (rows : List AccrualRow) :
    drainTxnId digest rows = "acc_" ++ String.ofList (drainPrefix digest (keysText rows)) := rfl

theorem drainTxnId_starts (digest : Digest) (rows : List AccrualRow) :
    startsWith (drainTxnId digest rows) "acc_" = true := by
  rw [drainTxnId_eq, startsWith, String.toList_append]
  exact List.isPrefixOf_iff_prefix.mpr (List.prefix_append _ _)

/-- Two sets of rows get one id exactly when their keys are cut alike. -/
theorem drainTxnId_eq_iff {digest : Digest} (h : PrefixFree digest [keysText rows, keysText rows']) :
    drainTxnId digest rows = drainTxnId digest rows' ↔ CutAlike rows rows' := by
  rw [← keysText_eq_iff]
  constructor
  · intro hid
    rw [drainTxnId_eq, drainTxnId_eq] at hid
    have htail := List.append_cancel_left (by
      simpa only [String.toList_append] using congrArg String.toList hid)
    simp only [String.toList_ofList] at htail
    exact h _ List.mem_cons_self _ (List.mem_cons_of_mem _ List.mem_cons_self) htail
  · intro htext
    rw [drainTxnId_eq, drainTxnId_eq, htext]

/-! ## Runs of drains -/

/-- What the other transactions do to the ledger and the rows. -/
inductive AccrualAct
  | post (posting : Posting) (apart : startsWith posting.txnId "acc_" = false)
  | put (rows : List AccrualRow)
  | refund (places : List (String × String × Nat)) (txnId : String)

def AccrualAct.work (env : Env) : AccrualAct → Txn Unit
  | .post posting _ => do
    let _ ← Txn.postEntry env posting
    return ()
  | .put rows => Txn.putAccruals rows
  | .refund places txnId => Txn.markAccruals places .refunded txnId

def actsWork (env : Env) : List AccrualAct → Txn Unit
  | [] => return ()
  | act :: acts => do
    act.work env
    actsWork env acts

def crashFault : Fault := plainError "crashed"

def crashedDrain (env : Env) (sellerId : String) (limit : Nat) : Txn (Option Drained) := do
  let rows ← Txn.read fun w => .ok (claimSellerPending w.accruals.rows.listed sellerId limit)
  Txn.read fun w => assertRowsProvable env.digest w.ledger.tables rows
  if sharesOf rows = [] then return none
  else do
    let plan ← Txn.lift (planDrain sellerId rows)
    postDrain env sellerId rows plan
    throw crashFault

inductive DrainMove
  | others (acts : List AccrualAct)
  | drain (sellerId : String) (now : Int) (limit : Nat)
  | crash (sellerId : String) (limit : Nat)

structure MarkedDrain where
  sellerId : String
  rows : List AccrualRow
  posted : List Leg

/-- The posting of exactly the rows of the drain was made with the marks. -/
def MarkedDrain.Backed (drain : MarkedDrain) : Prop :=
  ∃ plan, planDrain drain.sellerId drain.rows = .ok plan ∧ drain.posted =
    plan.legs.filter (·.amount.minor ≠ 0)

structure DrainRun where
  world : World
  drains : List MarkedDrain

def DrainRun.drained (run : DrainRun) (sellerId : String) (limit : Nat) :
    Except Fault (Option Drained) × World → DrainRun
  | (.ok (some _), w) =>
    ⟨w, run.drains ++ [⟨sellerId, claimSellerPending run.world.accruals.rows.listed sellerId limit,
      postedSince run.world w⟩]⟩
  | (_, w) => { run with world := w }

def DrainMove.step (env : Env) (run : DrainRun) : DrainMove → DrainRun
  | .others acts => { run with world := (transaction (actsWork env acts) run.world).2 }
  | .crash sellerId limit =>
    { run with world := (transaction (crashedDrain env sellerId limit) run.world).2 }
  | .drain sellerId now limit =>
    run.drained sellerId limit (transaction (drainSeller env sellerId now limit) run.world)

def runDrains (env : Env) (moves : List DrainMove) : DrainRun :=
  moves.foldl (DrainMove.step env) ⟨World.empty, []⟩

/-! ## What the other transactions keep -/

/-- The row of a key was settled, by a drain or by a refund. -/
def AccrualTables.SettledAt (t : AccrualTables) (key : String) : Prop :=
  ∃ row ∈ t.listed, row.key = key ∧ row.status ≠ .pending

theorem AccrualTables.SettledAt.mark {j : Journaled AccrualTables} (hfiled : j.rows.Filed)
    {status : AccrualStatus} (hstatus : status ≠ .pending) (settledTxnId : String)
    (keys : List (String × String × Nat)) {key : String} (h : j.rows.SettledAt key) :
    ((AccrualWrite.mark keys status settledTxnId).run j).rows.SettledAt key := by
  obtain ⟨row, hrow, hkey, hsettled⟩ := h
  have hlisted := (AccrualTables.mark_listed hstatus settledTxnId keys hfiled).2
  have hsame : ∀ marked, AccrualTables.settledRow marked status settledTxnId row = row :=
    fun _ => if_neg fun hpending => hsettled hpending.2
  refine ⟨row, ?_, hkey, hsettled⟩
  rw [hlisted]
  exact List.mem_map.mpr ⟨row, hrow, hsame _⟩

theorem AccrualTables.SettledAt.put {j : Journaled AccrualTables} (hfiled : j.rows.Filed) {key : String}
    (batch : List AccrualRow) (h : j.rows.SettledAt key) :
    (AccrualTables.put batch j).rows.SettledAt key := by
  induction batch generalizing j with
  | nil => exact h
  | cons row batch ih =>
    have hone := @AccrualTables.putOne_listed _ hfiled row
    unfold AccrualTables.put at hone ⊢
    cases hget : j.rows.rows.get row.key with
    | some taken => exact h
    | none =>
      apply ih (hfiled.add hget)
      obtain ⟨settled, hsettled, hrest⟩ := h
      refine ⟨settled, ?_, hrest⟩
      exact hfiled.listed_add hget ▸ List.mem_append_left _ hsettled

structure KeepsDrains (w w' : World) : Prop where
  filed : w'.accruals.rows.Filed
  settled : ∀ key, w.accruals.rows.SettledAt key → w'.accruals.rows.SettledAt key
  ids : ∀ id, startsWith id "acc_" = true → w'.posted id = w.posted id

namespace KeepsDrains

theorem refl (h : w.accruals.rows.Filed) : KeepsDrains w w :=
  ⟨h, fun _ hsettled => hsettled, fun _ _ => rfl⟩

theorem trans {w w' w'' : World} (h : KeepsDrains w w') (h' : KeepsDrains w' w'') : KeepsDrains w w'' where
  filed := h'.filed
  settled := fun key hkey => h'.settled key (h.settled key hkey)
  ids := fun id hid => (h'.ids id hid).trans (h.ids id hid)

theorem of_sameTables (hfiled : w.accruals.rows.Filed) (h : w.SameTables w') : KeepsDrains w w' where
  filed := h.accruals ▸ hfiled
  settled := fun _ hkey => h.accruals ▸ hkey
  ids := fun id _ => h.posted id

end KeepsDrains

theorem posted_append {row : StoredPosting}
    (hlog : w'.ledger.tables.log = w.ledger.tables.log ++ [row]) (id : String) :
    w'.posted id = (w.posted id || decide (row.txnId = id)) := by
  simp only [World.posted, LedgerTables.findPosting, hlog, List.find?_append, Option.isSome_map,
    Option.isSome_or]
  by_cases hrow : row.txnId = id
  · simp only [hrow, decide_true, List.find?_singleton, if_true, Option.isSome_some]
  · simp only [hrow, decide_false, List.find?_singleton, Bool.false_eq_true, if_false, Option.isSome_none]

theorem AccrualAct.work_keeps {env : Env} {act : AccrualAct} {u : Unit}
    (hfiled : w.accruals.rows.Filed) (h : (act.work env).run w = (.ok u, w')) : KeepsDrains w w' := by
  cases act with
  | post posting apart =>
    obtain ⟨transaction, w₁, hposted, h⟩ := Txn.bind_ok h
    obtain rfl : w₁ = w' := congrArg Prod.snd h
    have hwork : (Work.postEntry env posting).txn.run w = (.ok transaction, w₁) := hposted
    obtain ⟨row, hrow, -, -, hlog, -⟩ := postEntry_posted hwork
    have haccruals : w₁.accruals = w.accruals := congrArg (fun r => r.2.accruals) hposted.symm
    have hid : row.txnId = posting.txnId := congrArg Posting.txnId hrow
    refine ⟨haccruals ▸ hfiled, fun _ hkey => haccruals ▸ hkey, ?_⟩
    intro id hstarts
    have hother : row.txnId ≠ id := by
      rintro hsame
      rw [← hsame, hid, apart] at hstarts
      cases hstarts
    rw [posted_append hlog, decide_eq_false hother, Bool.or_false]
  | put rows =>
    have haccruals : w'.accruals = (AccrualWrite.put rows).run w.accruals :=
      congrArg (fun r => r.2.accruals) h.symm
    have hledger : w'.ledger = w.ledger := congrArg (fun r => r.2.ledger) h.symm
    refine ⟨haccruals ▸ AccrualTables.put_filed rows hfiled, ?_, ?_⟩
    · intro key hkey
      rw [haccruals]
      exact hkey.put hfiled rows
    · intro id _
      rw [World.posted, hledger]
      rfl
  | refund places txnId =>
    have haccruals : w'.accruals = (AccrualWrite.mark places .refunded txnId).run w.accruals :=
      congrArg (fun r => r.2.accruals) h.symm
    have hledger : w'.ledger = w.ledger := congrArg (fun r => r.2.ledger) h.symm
    refine ⟨haccruals ▸ AccrualWrite.run_filed hfiled _, ?_, ?_⟩
    · intro key hkey
      rw [haccruals]
      exact hkey.mark hfiled (by decide) txnId places
    · intro id _
      rw [World.posted, hledger]
      rfl

theorem actsWork_keeps {env : Env} {acts : List AccrualAct} {u : Unit}
    (hfiled : w.accruals.rows.Filed) (h : (actsWork env acts).run w = (.ok u, w')) : KeepsDrains w w' := by
  induction acts generalizing w with
  | nil =>
    obtain rfl : w = w' := congrArg Prod.snd h
    exact KeepsDrains.refl hfiled
  | cons act acts ih =>
    obtain ⟨_, w₁, hact, hacts⟩ := Txn.bind_ok h
    have hkeeps := AccrualAct.work_keeps hfiled hact
    exact hkeeps.trans (ih hkeeps.filed hacts)

theorem acts_keeps (acts : List AccrualAct) (hclosed : w.Closed) (hsound : w.Sound)
    (hfiled : w.accruals.rows.Filed) : KeepsDrains w (transaction (actsWork env acts) w).2 := by
  rcases transaction_cases (actsWork env acts) hclosed hsound with
    ⟨answer, done, hrun, htransaction⟩ | ⟨e, done, hrun, htransaction, hsame⟩
  · rw [htransaction]
    have hkeeps := actsWork_keeps (w := w.opened) hfiled hrun
    exact ⟨hkeeps.filed, hkeeps.settled, hkeeps.ids⟩
  · rw [htransaction]
    exact KeepsDrains.of_sameTables hfiled hsame

theorem crashedDrain_settles_nothing {env : Env} {sellerId : String} {limit : Nat}
    {answer : Option Drained} (h : (crashedDrain env sellerId limit).run w = (.ok answer, w')) :
    w' = w := by
  obtain ⟨claimed, w₁, hclaimed, h⟩ := Txn.bind_ok h
  obtain rfl : w = w₁ := congrArg Prod.snd hclaimed
  obtain ⟨_, w₂, hprovable, h⟩ := Txn.bind_ok h
  obtain rfl : w = w₂ := congrArg Prod.snd hprovable
  by_cases hnone : sharesOf claimed = []
  · rw [if_pos hnone] at h
    exact (congrArg Prod.snd h).symm
  · rw [if_neg hnone] at h
    obtain ⟨plan, w₃, hplan, h⟩ := Txn.bind_ok h
    obtain ⟨_, w₄, hposted, h⟩ := Txn.bind_ok h
    cases h

theorem crashedDrain_sameTables (sellerId : String) (limit : Nat)
    (hclosed : w.Closed) (hsound : w.Sound) :
    w.SameTables (transaction (crashedDrain env sellerId limit) w).2 := by
  rcases transaction_cases (crashedDrain env sellerId limit) hclosed hsound with
    ⟨answer, done, hrun, htransaction⟩ | ⟨e, done, hrun, htransaction, hsame⟩
  · rw [htransaction, crashedDrain_settles_nothing hrun]
    exact World.opened_commitAll hclosed
  · rw [htransaction]
    exact hsame

section Settled

variable {env : Env} {sellerId : String} {now : Int} {limit : Nat} {w w' : World} {settled : Drained}

theorem postDrain_files {u : Unit} (h : (postDrain env sellerId rows plan).run w = (.ok u, w')) :
    (∀ id, w'.posted id = (w.posted id || decide (drainTxnId env.digest rows = id))) ∧
      (w.posted (drainTxnId env.digest rows) = true → w'.ledger = w.ledger) := by
  rcases postDrain_cases h with ⟨hfiled, rfl⟩ | ⟨hfresh, transaction, hposted⟩
  · refine ⟨fun id => ?_, fun _ => rfl⟩
    by_cases hid : drainTxnId env.digest rows = id
    · have hposted : w'.posted id = true := hid ▸ hfiled
      rw [hposted, Bool.true_or]
    · rw [decide_eq_false hid, Bool.or_false]
  · obtain ⟨row, hrow, -, -, hlog, -⟩ := postEntry_posted hposted
    have hid : row.txnId = drainTxnId env.digest rows := congrArg Posting.txnId hrow
    refine ⟨fun id => ?_, fun hfound => ?_⟩
    · rw [posted_append hlog, hid]
    · rw [World.posted, hfresh] at hfound
      cases hfound

theorem drainSeller_files (hfiled : w.accruals.rows.Filed)
    (h : (drainSeller env sellerId now limit).run w = (.ok (some settled), w')) :
    (∀ id, w'.posted id = (w.posted id ||
      decide (drainTxnId env.digest (claimSellerPending w.accruals.rows.listed sellerId limit) = id))) ∧
      (w.posted (drainTxnId env.digest (claimSellerPending w.accruals.rows.listed sellerId limit)) = true →
        w'.ledger = w.ledger) := by
  obtain ⟨-, ⟨hanswer, -⟩ | ⟨plan, w₁, -, -, hposted, hsettled, -⟩⟩ := drainSeller_answers h
  · cases hanswer
  · obtain ⟨hids, hfound⟩ := postDrain_files hposted
    have hfiled₁ : w₁.accruals.rows.Filed := (postDrain_posts hposted).2 ▸ hfiled
    have hledger := (settleRows_settles hfiled₁ hsettled).1
    refine ⟨fun id => ?_, fun hsome => hledger.trans (hfound hsome)⟩
    rw [World.posted, hledger]
    exact hids id

/-- A drain is backed exactly when nothing was filed under its id, and otherwise posts nothing. -/
theorem Settles.backed_iff (h : Settles env sellerId now limit w w' settled plan) :
    ((⟨sellerId, claimSellerPending w.accruals.rows.listed sellerId limit, postedSince w w'⟩ :
      MarkedDrain).Backed ↔
      w.posted (drainTxnId env.digest (claimSellerPending w.accruals.rows.listed sellerId limit)) =
        false) ∧
    (w.posted (drainTxnId env.digest (claimSellerPending w.accruals.rows.listed sellerId limit)) = true →
      postedSince w w' = []) := by
  cases h.posts with
  | made fresh posted =>
    have hfresh : w.posted (drainTxnId env.digest (claimSellerPending w.accruals.rows.listed sellerId
        limit)) = false := by
      rw [World.posted, fresh]
      rfl
    refine ⟨iff_of_true ⟨plan, h.planned, posted⟩ hfresh, fun hfound => ?_⟩
    rw [hfresh] at hfound
    cases hfound
  | found filed posted =>
    refine ⟨iff_of_false ?_ ?_, fun _ => posted⟩
    · rintro ⟨plan', hplan', hposted⟩
      obtain rfl : plan = plan' := Except.ok.inj (h.planned.symm.trans hplan')
      obtain ⟨hearned, hreceivable⟩ := h.credits hposted
      rw [posted] at hearned hreceivable
      have hparked := minorOf_pos h.some_shares sharesOf_pos
      change 0 = _ at hearned
      change 0 = _ at hreceivable
      omega
    · intro hfresh
      exact Bool.noConfusion (hfresh.symm.trans filed)

theorem Settles.settledAt (h : Settles env sellerId now limit w w' settled plan) :
    ∃ row ∈ claimSellerPending w.accruals.rows.listed sellerId limit, w'.accruals.rows.SettledAt
      row.key := by
  obtain ⟨row, hrow⟩ := List.exists_mem_of_ne_nil _ h.some_shares
  refine ⟨row, (mem_sharesOf.mp hrow).1, row.drainedBy settled.txnId,
    h.drained (List.mem_append_left _ hrow), rfl, ?_⟩
  exact fun hpending => nomatch hpending

/-- What a drain marks was settled by no one before, and what was settled stays so. -/
theorem Settles.keeps (hfiled : w.accruals.rows.Filed)
    (h : Settles env sellerId now limit w w' settled plan) {key : String}
    (hkey : w.accruals.rows.SettledAt key) :
    w'.accruals.rows.SettledAt key := by
  obtain ⟨row, hrow, hsame, hsettled⟩ := hkey
  refine ⟨row, ?_, hsame, hsettled⟩
  apply h.kept hfiled hrow
  intro hmarked
  exact hsettled (mem_claimed (h.marked hmarked)).2.2

end Settled

theorem AccrualRow.key_of_place {row row' : AccrualRow} (h : row.place = row'.place) :
    row.key = row'.key := by
  obtain ⟨horder, hrest⟩ := Prod.mk.inj h
  obtain ⟨hseller, hseq⟩ := Prod.mk.inj hrest
  unfold AccrualRow.key
  rw [horder, hseller, hseq]

theorem not_claimed_of_settledAt {t : AccrualTables} (hfiled : t.Filed) {row : AccrualRow}
    (h : t.SettledAt row.key) (sellerId : String) (limit : Nat) :
    row.place ∉ (claimSellerPending t.listed sellerId limit).map AccrualRow.place := by
  intro hplace
  obtain ⟨claimed, hclaimed, hsame⟩ := List.mem_map.mp hplace
  obtain ⟨hlisted, -, hpending⟩ := mem_claimed hclaimed
  obtain ⟨before, hbefore, hkey, hsettled⟩ := h
  have hkeys := AccrualRow.key_of_place hsame
  have heq := hfiled.eq_of_key hlisted hbefore (hkeys.trans hkey.symm)
  rw [heq] at hpending
  exact hsettled hpending

/-! ## What holds in every run -/

/-- The ids of the drains on the ledger are those of the drains of the run, and a drain is backed
exactly when no drain before it had its id. -/
structure DrainsTracked (env : Env) (run : DrainRun) : Prop where
  closed : run.world.Closed
  sound : run.world.Sound
  filed : run.world.accruals.rows.Filed
  ids : ∀ id, startsWith id "acc_" = true →
    (run.world.posted id = true ↔ ∃ drain ∈ run.drains, drainTxnId env.digest drain.rows = id)
  settled : ∀ drain ∈ run.drains, ∃ row ∈ drain.rows, run.world.accruals.rows.SettledAt row.key
  backed : (∀ drain ∈ run.drains, drain.Backed) ↔
    run.drains.Pairwise fun drain later => drainTxnId env.digest drain.rows ≠
      drainTxnId env.digest later.rows
  whole : ∀ drain ∈ run.drains, drain.Backed ∨ drain.posted = []
  apart : run.drains.Pairwise fun drain later => ¬SamePlaces drain.rows later.rows

namespace DrainsTracked

variable {env : Env} {run : DrainRun}

theorem start (env : Env) : DrainsTracked env ⟨World.empty, []⟩ where
  closed := World.empty_closed
  sound := World.empty_sound
  filed := AccrualTables.Filed.empty
  ids := fun _ _ => ⟨fun h => (by cases h), fun ⟨_, hdrain, _⟩ => absurd hdrain List.not_mem_nil⟩
  settled := fun _ hdrain => absurd hdrain List.not_mem_nil
  backed := iff_of_true (fun _ hdrain => absurd hdrain List.not_mem_nil) List.Pairwise.nil
  whole := fun _ hdrain => absurd hdrain List.not_mem_nil
  apart := List.Pairwise.nil

theorem of_keeps (h : DrainsTracked env run) (hclosed : w.Closed) (hsound : w.Sound)
    (hkeeps : KeepsDrains run.world w) : DrainsTracked env { run with world := w } where
  closed := hclosed
  sound := hsound
  filed := hkeeps.filed
  ids := fun id hid => by
    rw [hkeeps.ids id hid]
    exact h.ids id hid
  settled := fun drain hdrain => by
    obtain ⟨row, hrow, hsettled⟩ := h.settled drain hdrain
    exact ⟨row, hrow, hkeeps.settled row.key hsettled⟩
  backed := h.backed
  whole := h.whole
  apart := h.apart

theorem drain (h : DrainsTracked env run) {sellerId : String} {now : Int} {limit : Nat} {settled : Drained}
    {done : World}
    (hrun : (drainSeller env sellerId now limit).run run.world.opened = (.ok (some settled), done))
    (hclosed : done.commitAll.Closed) (hsound : done.commitAll.Sound) :
    DrainsTracked env ⟨done.commitAll, run.drains ++ [⟨sellerId,
      claimSellerPending run.world.accruals.rows.listed sellerId limit,
        postedSince run.world done.commitAll⟩]⟩ := by
  have hopened : run.world.opened.accruals.rows.Filed := h.filed
  obtain ⟨plan, hsettles⟩ := drainSeller_settles hopened hrun
  obtain ⟨hids, -⟩ := drainSeller_files hopened hrun
  obtain ⟨hbacked, hnothing⟩ := hsettles.backed_iff
  have hstarts := drainTxnId_starts env.digest
    (claimSellerPending run.world.accruals.rows.listed sellerId limit)
  have hearlier := h.ids _ hstarts
  refine ⟨hclosed, hsound, hsettles.filed, ?_, ?_, ?_, ?_, ?_⟩
  · intro id hid
    have hafter : done.commitAll.posted id = _ := hids id
    rw [hafter, Bool.or_eq_true, decide_eq_true_eq]
    simp only [List.mem_append, List.mem_singleton, or_and_right, exists_or, exists_eq_left]
    exact or_congr (h.ids id hid) Iff.rfl
  · intro drain hdrain
    rcases List.mem_append.mp hdrain with hdrain | hdrain
    · obtain ⟨row, hrow, hsettled⟩ := h.settled drain hdrain
      exact ⟨row, hrow, hsettles.keeps hopened hsettled⟩
    · rw [List.mem_singleton.mp hdrain]
      exact hsettles.settledAt
  · rw [List.pairwise_append]
    simp only [List.forall_mem_append, List.forall_mem_singleton, List.pairwise_singleton, true_and]
    apply and_congr h.backed
    have hfresh : run.world.posted
        (drainTxnId env.digest (claimSellerPending run.world.accruals.rows.listed sellerId limit)) =
          false ↔ _ :=
      Bool.eq_false_iff.trans (not_congr hearlier)
    apply hbacked.trans
    apply hfresh.trans
    simp only [not_exists, not_and]
  · intro drain hdrain
    rcases List.mem_append.mp hdrain with hdrain | hdrain
    · exact h.whole drain hdrain
    · rw [List.mem_singleton.mp hdrain]
      by_cases hposted : run.world.posted
          (drainTxnId env.digest (claimSellerPending run.world.accruals.rows.listed sellerId limit)) = true
      · exact Or.inr (hnothing hposted)
      · exact Or.inl (hbacked.mpr (Bool.eq_false_iff.mpr hposted))
  · apply List.pairwise_append.mpr
    refine ⟨h.apart, List.pairwise_singleton _ _, ?_⟩
    intro drain hdrain later hlater hsame
    obtain ⟨row, hrow, hsettled⟩ := h.settled drain hdrain
    rw [List.mem_singleton.mp hlater] at hsame
    exact not_claimed_of_settledAt h.filed hsettled sellerId limit
      ((hsame row.place).mp (List.mem_map_of_mem hrow))

theorem step (h : DrainsTracked env run) (move : DrainMove) : DrainsTracked env (move.step env run) := by
  cases move with
  | others acts =>
    exact h.of_keeps (transaction_closed _ h.closed) (transaction_sound _ h.closed h.sound)
      (acts_keeps env acts h.closed h.sound h.filed)
  | crash sellerId limit =>
    exact h.of_keeps (transaction_closed _ h.closed) (transaction_sound _ h.closed h.sound)
      (KeepsDrains.of_sameTables h.filed (crashedDrain_sameTables env sellerId limit h.closed h.sound))
  | drain sellerId now limit =>
    have hclosed := transaction_closed (drainSeller env sellerId now limit) h.closed
    have hsound := transaction_sound (drainSeller env sellerId now limit) h.closed h.sound
    change DrainsTracked env (run.drained sellerId limit
      (transaction (drainSeller env sellerId now limit) run.world))
    rcases drainSeller_cases env sellerId now limit h.closed h.sound with
      ⟨settled, done, hrun, htransaction⟩ | ⟨-, hunsettled, hsame⟩
    · rw [htransaction] at hclosed hsound ⊢
      exact h.drain hrun hclosed hsound
    · have hkeeps := KeepsDrains.of_sameTables h.filed hsame
      rcases hdone : transaction (drainSeller env sellerId now limit) run.world with ⟨answer, w⟩
      rw [hdone] at hclosed hsound hunsettled hkeeps
      rcases answer with e | _ | settled
      · exact h.of_keeps hclosed hsound hkeeps
      · exact h.of_keeps hclosed hsound hkeeps
      · exact absurd rfl (hunsettled settled)

end DrainsTracked

theorem runDrains_tracked (moves : List DrainMove) : DrainsTracked env (runDrains env moves) := by
  have hrun : ∀ run, DrainsTracked env run → DrainsTracked env (moves.foldl (DrainMove.step env) run) := by
    induction moves with
    | nil => exact fun _ h => h
    | cons move moves ih => exact fun _ h => ih _ (h.step move)
  exact hrun _ (DrainsTracked.start env)

/-- Drains whose rows have plain ids are all backed, if no two of their texts share a prefix. -/
theorem plain_drains_backed (moves : List DrainMove)
    (hdigest : PrefixFree env.digest ((runDrains env moves).drains.map fun drain => keysText drain.rows))
    (hplain : ∀ drain ∈ (runDrains env moves).drains, ∀ row ∈ drain.rows, PlainIds row) :
    ∀ drain ∈ (runDrains env moves).drains, drain.Backed := by
  have htracked := runDrains_tracked env moves
  apply htracked.backed.mpr
  apply htracked.apart.imp_of_mem
  intro drain later hdrain hlater hapart hid
  apply hapart
  apply CutAlike.samePlaces (hplain drain hdrain) (hplain later hlater)
  exact (drainTxnId_eq_iff (hdigest.pair (List.mem_map_of_mem hdrain) (List.mem_map_of_mem hlater))).mp hid

end EconomyLab
