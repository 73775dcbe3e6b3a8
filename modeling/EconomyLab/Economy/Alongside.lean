import EconomyLab.Economy.Registry
import EconomyLab.Economy.Sequence

/-!
# The batch and the sequence side by side

While both run, the stores hold the same rows; only the windows of the batch trail behind by the
attempts of the operations that were refused so far.
-/

namespace EconomyLab

open Foundation TrustTables

/-- What the caller sees of a result. -/
def slotOf : Except Thrown Outcome → Slot
  | .ok outcome => .ok outcome
  | .error thrown => thrown.slot

@[simp] theorem slotOf_rejectionsRollBack (result : Slot) :
    slotOf (rejectionsRollBack result) = result := by
  rcases result with e | outcome
  · rfl
  · cases outcome <;> rfl

def backOf : Except Thrown Outcome × Option RiskCheck → Option (String × Attempt)
  | (.ok _, _) => none
  | (.error _, check) => check.map fun check => (check.subject, check.attempt)

theorem settleBatchSlots_eq (results : List (Except Thrown Outcome × Option RiskCheck)) (w : World) :
    settleBatchSlots results w =
      (results.map (slotOf ·.1), { w with trust := putBackAll (results.filterMap backOf) w.trust }) := by
  induction results generalizing w with
  | nil => rfl
  | cons result results ih =>
    obtain ⟨result, check⟩ := result
    cases result with
    | ok outcome => simp only [settleBatchSlots, settleBatchSlot, ih, List.map_cons, List.filterMap_cons,
        backOf, slotOf]
    | error thrown =>
      cases check with
      | none => simp only [settleBatchSlots, settleBatchSlot, ih, List.map_cons, List.filterMap_cons,
          backOf, slotOf, putBack, Option.map_none]
      | some check => simp only [settleBatchSlots, settleBatchSlot, ih, List.map_cons,
          List.filterMap_cons, backOf, slotOf, putBack, Option.map_some, putBackAll, List.foldl_cons]

namespace Foundation.Journaled

variable {σ : Type}

/-- Rolling back all is rolling back to the first mark. -/
theorem rollback_rows {j : Journaled σ} (hopen : j.recording = true) :
    j.rollback.rows = (j.rollbackTo 0).rows := by
  obtain ⟨rows, undos⟩ := j
  cases undos with
  | none => simp [recording] at hopen
  | some undos =>
    have hall := @Recoils.popTo_append σ undos []  rows
    rw [List.append_nil] at hall
    simp only [rollback, rollbackTo]
    exact (congrArg Prod.fst hall).symm

end Foundation.Journaled

section Alongside

variable {Op : Type} (p : Catalog Op) (env : Env) (config : Config)

def screenSlot (entry : Op × Int) : Slot ⊕ Op :=
  match screenOperation p config entry.1 entry.2 with
  | .error e => .inl (.error e)
  | .ok (some refused) => .inl (.ok refused)
  | .ok none => .inr entry.1

/-- The operations that are well formed and authorized. -/
def vetted (ops : List (Op × Int)) : List (Op × Int) :=
  ops.filter fun entry => (do
    p.validateOperation config entry.1
    p.authorize entry.1 : Except Fault Unit).toBool

/-- No key comes twice among the operations that are well formed and authorized. -/
def DistinctKeys (ops : List (Op × Int)) : Prop := ((vetted p config ops).map (p.idempotencyKey ·.1)).Nodup

variable {now : Int} {ops : List (Op × Int)}

theorem DistinctKeys.of_nodup (h : (ops.map (p.idempotencyKey ·.1)).Nodup) :
    DistinctKeys p config ops := (List.filter_sublist.map _).nodup h

theorem DistinctKeys.tail {entry : Op × Int}
    (h : DistinctKeys p config (entry :: ops)) : DistinctKeys p config ops :=
  (((List.sublist_cons_self entry ops).filter _).map _).nodup h

theorem screenBatch_eq (seen : List String) (ops : List (Op × Int)) (hdistinct : DistinctKeys p config ops)
    (hseen : ∀ entry ∈ vetted p config ops, p.idempotencyKey entry.1 ∉ seen) :
    screenBatch p config seen ops = ops.map (screenSlot p config) := by
  induction ops generalizing seen with
  | nil => rfl
  | cons entry ops ih =>
    obtain ⟨op, now⟩ := entry
    have htail := hdistinct.tail
    rw [List.map_cons, screenBatch]
    unfold screenSlot screenOperation
    cases hvalid : p.validateOperation config op with
    | error e =>
      have hskip : vetted p config ((op, now) :: ops) = vetted p config ops :=
        List.filter_cons_of_neg (by simp [hvalid, bind, Except.bind, Except.toBool])
      rw [hskip] at hseen
      simp only [bind, Except.bind]
      exact congrArg _ (ih seen htail hseen)
    | ok valid =>
      cases hauth : p.authorize op with
      | error e =>
        have hskip : vetted p config ((op, now) :: ops) = vetted p config ops :=
          List.filter_cons_of_neg (by simp [hvalid, hauth, bind, Except.bind, Except.toBool])
        rw [hskip] at hseen
        simp only [bind, Except.bind]
        exact congrArg _ (ih seen htail hseen)
      | ok allowed =>
        have hkeep : vetted p config ((op, now) :: ops) = (op, now) :: vetted p config ops :=
          List.filter_cons_of_pos (by simp [hvalid, hauth, bind, Except.bind, Except.toBool])
        unfold DistinctKeys at hdistinct
        rw [hkeep, List.map_cons, List.nodup_cons] at hdistinct
        rw [hkeep] at hseen
        have hhead : p.idempotencyKey op ∉ seen := hseen (op, now) List.mem_cons_self
        have hfresh : ∀ entry ∈ vetted p config ops, p.idempotencyKey entry.1 ∉ p.idempotencyKey
            op :: seen := by
          intro entry h hmem
          cases List.mem_cons.mp hmem with
          | inl heq => exact hdistinct.1 (heq ▸ List.mem_map_of_mem h)
          | inr hold => exact hseen entry (List.mem_cons_of_mem _ h) hold
        simp only [bind, Except.bind, if_neg hhead]
        rw [ih _ htail hfresh]
        by_cases hpaused : ((p.actor op).isUser && economyPaused now config) = true
        · rw [if_pos hpaused, if_pos hpaused]
          rfl
        · rw [if_neg hpaused, if_neg hpaused]
          rfl

/-- No attempt ages out while the clock gives its readings. -/
def Brief : Prop := ∀ m n, env.clock n - config.velocityWindowMs < env.clock m

/-- The attempt was made at a reading of the clock. -/
def Stamped (attempt : Attempt) : Prop := ∃ n, attempt.at_ = env.clock n

/-- The windows of `t'` are those of `t`, up to the measuring that the screen of `op` did. -/
def MeasuredFor (op : Op) (w : World) (t t' : TrustTables) : Prop :=
  match screenedAt p env op w with
  | none => t' = t
  | some screened => Measured (screened.2 - config.velocityWindowMs) screened.1.subject t t'

theorem runClaimed_extends (op : Op) {w : World} (h : w.Sound) :
    w.Extends ((runClaimed p env config op).run w).2 := (runClaimed p env config op).undoable w h

variable {p env config}

theorem Brief.recent (h : Brief env config) {op : Op} {w : World} {screened : RiskCheck × Int}
    (hs : screenedAt p env op w = some screened) (attempt : Attempt) (ha : Stamped env attempt) :
    screened.2 - config.velocityWindowMs < attempt.at_ := by
  obtain ⟨-, -, n, hn⟩ := screenedAt_attempt p env hs
  obtain ⟨m, hm⟩ := ha
  rw [hn, hm]
  exact h m n

theorem runClaimed_recording (op : Op) {w : World} (h : w.trust.recording = true) :
    ((runClaimed p env config op).run w).2.trust.recording = true := by
  rw [runClaimed_trust]
  cases screenedAt p env op w with
  | none => exact h
  | some screened => exact (TrustWrite.run_recording _ _ _ _).trans h

/-- Rolled back to its marks, the work leaves the windows measured. -/
theorem rollbackTo_measured (hbrief : Brief env config) (op : Op) {w : World}
    (hcounted : w.trust.rows.Counted) (hopen : w.trust.recording = true) :
    MeasuredFor p env config op w w.trust.rows
      (((runClaimed p env config op).run w).2.trust.rollbackTo w.trust.mark).rows := by
  unfold MeasuredFor
  rw [runClaimed_trust]
  cases hs : screenedAt p env op w with
  | none =>
    have hback := (Journaled.Extends.refl w.trust).rollbackTo hopen
    exact congrArg Journaled.rows hback
  | some screened =>
    obtain ⟨-, hstamped, -⟩ := screenedAt_attempt p env hs
    exact (rollbackTo_record_spec hcounted _ _ hopen (hbrief.recent hs _ hstamped)).2

theorem rollback_measured (hbrief : Brief env config) (op : Op) {w : World}
    (hcounted : w.trust.rows.Counted) :
    MeasuredFor p env config op w.opened w.trust.rows
      ((runClaimed p env config op).run w.opened).2.rollbackAll.trust.rows := by
  have hrows : ((runClaimed p env config op).run w.opened).2.rollbackAll.trust.rows =
      (((runClaimed p env config op).run w.opened).2.trust.rollbackTo w.opened.trust.mark).rows :=
    Journaled.rollback_rows (runClaimed_recording op rfl)
  rw [hrows]
  exact rollbackTo_measured hbrief op hcounted rfl

variable (p env config)

def passes (op : Op) (now : Int) : Bool :=
  match screenOperation p config op now with
  | .ok none => true
  | _ => false

def wasRefused (result : Slot) : Bool :=
  match rejectionsRollBack result with
  | .ok _ => false
  | .error _ => true

/-- What a batch puts aside where `submit` inserts it at once. -/
def asideOf (op : Op) (now : Int) (w : World) : List (String × Attempt) :=
  if passes p config op now && wasRefused (submit p env config op now w).1 then
    unseenOf ((staged p env op w.opened).toList.map fun check => (check.subject, check.attempt))
      w.trust.rows
  else []

/-- The verdict of the velocity screen on a total without the attempts put aside. -/
def verdictWithout (aside : List (String × Attempt)) (op : Op) (w : World) :
    Except Fault (Option Outcome) :=
  match screenedAt p env op w with
  | none => .ok none
  | some screened => judged config screened.1
      (((recordedBy config screened w.trust).rows.window screened.1.subject).sumMinor -
        withheld aside screened.1.subject)

/-- The velocity verdict is the same without the attempts put aside. -/
def Unmoved (aside : List (String × Attempt)) (op : Op) (w : World) : Prop :=
  verdictWithout p env config aside op w = verdictOf p env config op w

/-- The window's total is an amount, with and without the attempts put aside. -/
def Totalled (aside : List (String × Attempt)) (op : Op) (w : World) : Prop :=
  (∃ verdict, verdictWithout p env config aside op w = .ok verdict) ∧
    ∃ verdict, verdictOf p env config op w = .ok verdict

/-- A condition on every operation that gets as far as its transaction, in the sequence; it is told
what a batch would have put aside by then. -/
def Along (holds : List (String × Attempt) → Op → World → Prop) :
    List (String × Attempt) → List (Op × Int) → World → Prop
  | _, [], _ => True
  | aside, (op, now) :: ops, w =>
    (passes p config op now = true → holds aside op w.opened) ∧
      Along holds (aside ++ asideOf p env config op now w) ops (submit p env config op now w).2

variable {p config}

/-- `s` is the store of the sequence and `b` that of the batch, which has `backs` to put back. -/
structure Beside (backs : List (String × Attempt)) (s b : World) : Prop where
  view : s.view = b.view
  closed : s.Closed
  sound : s.Sound
  recording : b.Recording
  sound_batch : b.Sound
  trailing : Trailing (Stamped env) (unseenOf backs b.trust.rows) s.trust.rows b.trust.rows
  nodup : (backs.map (·.2.idempotencyKey)).Nodup

variable {env}

theorem TrustTables.Trailing.measuredFor {recent : Attempt → Prop} {aside : List (String × Attempt)}
    {t t' u u' : TrustTables}
    (h : Trailing recent aside t t') {op : Op} {w w' : World} (hw : w.view = w'.view)
    (hrecent : ∀ screened, screenedAt p env op w = some screened →
      ∀ a, recent a → screened.2 - config.velocityWindowMs < a.at_)
    (hu : MeasuredFor p env config op w t u) (hu' : MeasuredFor p env config op w' t' u') :
    Trailing recent aside u u' := by
  unfold MeasuredFor at hu hu'
  rw [← screenedAt_view p env op hw] at hu'
  cases hs : screenedAt p env op w with
  | none =>
    rw [hs] at hu hu'
    rw [hu, hu']
    exact h
  | some screened =>
    rw [hs] at hu hu'
    exact h.measured (hrecent screened hs) hu hu'

theorem MeasuredFor.seen {op : Op} {w : World} {t t' : TrustTables}
    (h : MeasuredFor p env config op w t t') (key : String) :
    key ∈ t'.seenAttempts ↔ key ∈ t.seenAttempts := by
  unfold MeasuredFor at h
  cases hs : screenedAt p env op w with
  | none =>
    rw [hs] at h
    rw [h]
  | some screened =>
    rw [hs] at h
    exact h.seen key

theorem Beside.verdict {backs : List (String × Attempt)} {s b : World} (h : Beside env backs s b)
    (hbrief : Brief env config) (op : Op) (hkey : ∀ a ∈ backs, a.2.idempotencyKey ≠ p.idempotencyKey op) :
    verdictOf p env config op b =
      verdictWithout p env config (unseenOf backs b.trust.rows) op s.opened := by
  have hview : s.opened.view = b.view := h.view
  rw [verdictOf_eq, verdictWithout, ← screenedAt_view p env op hview]
  cases hs : screenedAt p env op s.opened with
  | none => rfl
  | some screened =>
    obtain ⟨hattempt, hstamped, -⟩ := screenedAt_attempt p env hs
    have hother : ∀ a ∈ unseenOf backs b.trust.rows,
        a.2.idempotencyKey ≠ screened.1.attempt.idempotencyKey := by
      intro a ha
      rw [hattempt]
      exact hkey a (List.mem_of_mem_filter ha)
    have hrecorded : Trailing (Stamped env) (unseenOf backs b.trust.rows)
        (recordedBy config screened s.opened.trust).rows (recordedBy config screened b.trust).rows :=
      h.trailing.record hstamped hother (show s.opened.trust.rows = s.trust.rows from rfl) rfl
        (hbrief.recent hs)
    simp only [hrecorded.spent screened.1.subject, Int.add_sub_cancel]

theorem screenNeeds_keeps (needs : List (AccountRef × Amount)) (w : World) (window : RiskClass)
    (limitMinor : Int) :
    ((screenNeeds needs).run w).1 ≠ .ok (some (.rejected (.riskDenied window limitMinor))) := by
  induction needs generalizing w with
  | nil =>
    intro h
    cases h
  | cons need needs ih =>
    intro h
    rcases hr : (screenNeeds (need :: needs)).run w with ⟨res, w'⟩
    rw [hr] at h
    simp only at h
    subst h
    obtain ⟨have_, w₁, -, hrest⟩ := Txn.bind_ok hr
    obtain ⟨_, w₂, -, hcompare⟩ := Txn.bind_ok hrest
    split at hcompare
    · cases hcompare
    · exact ih w₂ (congrArg Prod.fst hcompare)

theorem settleClaimed_keeps (op : Op) (w : World) (window : RiskClass) (limitMinor : Int) :
    ((settleClaimed p env config op).run w).1 ≠
      .ok (.inr (.rejected (.riskDenied window limitMinor))) := by
  intro h
  rcases hr : (settleClaimed p env config op).run w with ⟨res, w'⟩
  rw [hr] at h
  simp only at h
  subst h
  obtain ⟨screened, w₁, hscreen, hrest⟩ := Txn.bind_ok hr
  cases screened with
  | some denied =>
    cases hrest
    obtain ⟨needs, w₂, -, hneeds⟩ := Txn.bind_ok hscreen
    exact screenNeeds_keeps needs w₂ window limitMinor (congrArg Prod.fst hneeds)
  | none =>
    obtain ⟨outcome, w₂, hhandler, hout⟩ := Txn.bind_ok hrest
    cases outcome with
    | committed transaction => cases hout
    | duplicate transaction => cases hout
    | rejected detail =>
      cases hout
      exact p.handler_keeps env config op w₁ window limitMinor (congrArg Prod.fst hhandler)

variable {op : Op} {w a : World} {check : RiskCheck}

theorem heardRisk_run (hcheck : checkAt p env op a = some check)
    (verdict : Except Fault (Option Outcome)) :
    (heardRisk p env op verdict).run a = (verdict, { a with ticks := a.ticks + 2 }) := by
  obtain ⟨found, hfound, hok⟩ := Option.bind_eq_some_iff.mp hcheck
  have hrisk : (p.riskSubject op).isSome = true := by
    obtain ⟨risk, hrisk, -⟩ := Option.map_eq_some_iff.mp hfound
    rw [hrisk]
    rfl
  have hnow : (Txn.now env).run a = (.ok (env.clock a.ticks), { a with ticks := a.ticks + 1 }) := rfl
  unfold heardRisk
  rw [if_pos hrisk, Txn.run_bind_ok hnow]
  simp only [hfound]
  cases found with
  | error e => cases hok
  | ok check => rfl

theorem admitted_run (ha : admitted p env op w = some a) :
    w.idempotency.rows.committed.get (p.idempotencyKey op) = none ∧
      (p.preClaim op).run (w.withIdempotency (claimKey (env.clock w.ticks) (p.idempotencyKey op)
        w.idempotency)) =
        (.ok none, a) := by
  unfold admitted at ha
  cases hcommitted : w.idempotency.rows.committed.get (p.idempotencyKey op) with
  | some txn => simp [hcommitted] at ha
  | none =>
    simp only [hcommitted] at ha
    split at ha
    · rename_i w' hrun
      cases ha
      exact ⟨rfl, hrun⟩
    · cases ha

variable (ha : admitted p env op w = some a) (hcheck : checkAt p env op a = some check)
include ha hcheck

theorem heardWork_denied (denied : Outcome) :
    ((heardWork p env config op (.ok (some denied))).run w).1 = .ok denied := by
  obtain ⟨hcommitted, hprobe⟩ := admitted_run ha
  have hbody : (claimedBody p env config op (heardRisk p env op (.ok (some denied)))).run
      (w.withIdempotency (claimKey (env.clock w.ticks) (p.idempotencyKey op) w.idempotency)) =
      (.ok (.inr denied), { a with ticks := a.ticks + 2 }) := by
    unfold claimedBody
    rw [Txn.run_bind_ok hprobe, Txn.run_bind_ok (heardRisk_run hcheck _)]
    rfl
  simp only [heardWork, runClaimedOver, Txn.claiming, hcommitted, hbody]

theorem heardWork_passed (window : RiskClass) (limitMinor : Int) :
    ((heardWork p env config op (.ok none)).run w).1 ≠
      .ok (.rejected (.riskDenied window limitMinor)) := by
  obtain ⟨hcommitted, hprobe⟩ := admitted_run ha
  have hbody : (claimedBody p env config op (heardRisk p env op (.ok none))).run
      (w.withIdempotency (claimKey (env.clock w.ticks) (p.idempotencyKey op) w.idempotency)) =
      (settleClaimed p env config op).run { a with ticks := a.ticks + 2 } := by
    unfold claimedBody
    rw [Txn.run_bind_ok hprobe, Txn.run_bind_ok (heardRisk_run hcheck _)]
  have hkeeps : ((settleClaimed p env config op).run { a with ticks := a.ticks + 2 }).1 ≠
      .ok (.inr (.rejected (.riskDenied window limitMinor))) := settleClaimed_keeps op _ window limitMinor
  simp only [heardWork, runClaimedOver, Txn.claiming, hcommitted, hbody]
  rcases hr : (settleClaimed p env config op).run { a with ticks := a.ticks + 2 } with ⟨res, b⟩
  rw [hr] at hkeeps
  cases res with
  | error e => simp
  | ok out =>
    cases out with
    | inr outcome =>
      intro h
      cases h
      exact hkeeps rfl
    | inl out =>
      intro h
      rcases hafter : (claimedAfter p env op out.1).run
        (b.withIdempotency (recordKey (env.clock b.ticks) (p.idempotencyKey op) out.1 b.idempotency)) with
          ⟨res, c⟩
      simp only [hafter] at h
      subst h
      obtain ⟨_, _, -, hout⟩ := Txn.bind_ok hafter
      cases hout

omit ha hcheck

def denialOf (config : Config) (check : RiskCheck) : Outcome :=
  .rejected (.riskDenied check.window (classLimitMinor config check.window))

theorem judged_ok {spentMinor : Int} {verdict : Option Outcome}
    (h : judged config check spentMinor = .ok verdict) :
    verdict = none ∨ verdict = some (denialOf config check) := by
  unfold judged at h
  cases hspent : toAmount VELOCITY_CURRENCY spentMinor with
  | error e =>
    rw [hspent] at h
    cases h
  | ok spent =>
    rw [hspent] at h
    cases h
    unfold riskVerdict
    split
    · exact Or.inr rfl
    · exact Or.inl rfl

/-- Where the screen finds a total at all, equal slots mean equal verdicts. -/
theorem verdict_of_slot {w' : World} (hw : w.view = w'.view)
    (hslot : ((runClaimed p env config op).run w).1 = ((runClaimed p env config op).run w').1)
    {verdict verdict' : Option Outcome} (h : verdictOf p env config op w = .ok verdict)
    (h' : verdictOf p env config op w' = .ok verdict') : verdict = verdict' := by
  have hheard := (runClaimed_heard p env config op (rfl : w.view = w.view)).answer
  have hheard' := (runClaimed_heard p env config op hw.symm).answer
  rw [h] at hheard
  rw [h'] at hheard'
  have hanswers := (hheard.symm.trans hslot).trans hheard'
  have hscreened := screenedAt_view p env op hw
  rw [verdictOf_eq] at h h'
  rw [← hscreened] at h'
  cases hs : screenedAt p env op w with
  | none =>
    rw [hs] at h h'
    cases h
    cases h'
    rfl
  | some screened =>
    rw [hs] at h h'
    obtain ⟨a, ha, hmeasured⟩ := Option.bind_eq_some_iff.mp hs
    obtain ⟨check, hcheck, rfl⟩ := Option.map_eq_some_iff.mp hmeasured
    rcases judged_ok h with rfl | rfl
    · rcases judged_ok h' with rfl | rfl
      · rfl
      · rw [heardWork_denied ha hcheck] at hanswers
        exact absurd hanswers (heardWork_passed ha hcheck _ _)
    · rcases judged_ok h' with rfl | rfl
      · rw [heardWork_denied ha hcheck] at hanswers
        exact absurd hanswers.symm (heardWork_passed ha hcheck _ _)
      · rfl

/-! ## A step of both -/

theorem submit_eq {s : World} (hc : s.Closed) (hpass : passes p config op now = true) :
    submit p env config op now s =
      match rejectionsRollBack ((runClaimed p env config op).run s.opened).1 with
      | .ok outcome => (.ok outcome, ((runClaimed p env config op).run s.opened).2.commitAll)
      | .error thrown => (thrown.slot, putBack (staged p env op s.opened)
          ((runClaimed p env config op).run s.opened).2.rollbackAll) := by
  have hscreen : screenOperation p config op now = .ok none := by
    unfold passes at hpass
    split at hpass
    · assumption
    · cases hpass
  unfold submit
  cases hrun : rejectionsRollBack ((runClaimed p env config op).run s.opened).1 with
  | ok outcome => simp only [hscreen, hc.beginAll, hrun]
  | error thrown => simp only [hscreen, hc.beginAll, hrun]

theorem submit_slot {s : World} (hc : s.Closed) (hpass : passes p config op now = true) :
    (submit p env config op now s).1 = ((runClaimed p env config op).run s.opened).1 := by
  have hslot := slotOf_rejectionsRollBack ((runClaimed p env config op).run s.opened).1
  rw [submit_eq hc hpass]
  cases hresult : rejectionsRollBack ((runClaimed p env config op).run s.opened).1 with
  | ok outcome =>
    rw [hresult] at hslot
    exact hslot
  | error thrown =>
    rw [hresult] at hslot
    exact hslot

theorem batchItem_slot (op : Op) (b : World) :
    slotOf (batchItem p env config op b).1 = ((runClaimed p env config op).run b).1 := by
  rw [← slotOf_rejectionsRollBack ((runClaimed p env config op).run b).1]
  unfold batchItem
  simp only
  cases rejectionsRollBack ((runClaimed p env config op).run b).1 <;> rfl

variable {backs : List (String × Attempt)} {s b : World} (h : Beside env backs s b)
include h

theorem Beside.sameRun (hverdict : verdictOf p env config op b = verdictOf p env config op s.opened) :
    Txn.SameRun ((runClaimed p env config op).run s.opened) ((runClaimed p env config op).run b) := by
  have hview : b.view = s.opened.view := h.view.symm
  have hs := runClaimed_heard p env config op (rfl : s.opened.view = s.opened.view)
  have hb := runClaimed_heard p env config op hview
  rw [hverdict] at hb
  exact ⟨hs.answer.trans hb.answer.symm, hs.view.trans hb.view.symm⟩

theorem Beside.recorded (hbrief : Brief env config) (op : Op)
    (hkey : ∀ a ∈ backs, a.2.idempotencyKey ≠ p.idempotencyKey op) :
    Trailing (Stamped env) (unseenOf backs b.trust.rows)
      ((runClaimed p env config op).run s.opened).2.trust.rows
      ((runClaimed p env config op).run b).2.trust.rows ∧
    unseenOf backs ((runClaimed p env config op).run b).2.trust.rows = unseenOf backs b.trust.rows := by
  have hview : s.opened.view = b.view := h.view
  rw [runClaimed_trust, runClaimed_trust, ← screenedAt_view p env op hview]
  cases hs : screenedAt p env op s.opened with
  | none => exact ⟨h.trailing, rfl⟩
  | some screened =>
    obtain ⟨hattempt, hstamped, -⟩ := screenedAt_attempt p env hs
    have hother : ∀ a ∈ backs, a.2.idempotencyKey ≠ screened.1.attempt.idempotencyKey :=
      fun a ha => hattempt ▸ hkey a ha
    constructor
    · exact h.trailing.record hstamped (fun a ha => hother a (List.mem_of_mem_filter ha))
        (show s.opened.trust.rows = s.trust.rows from rfl) rfl (hbrief.recent hs)
    · apply unseenOf_congr
      intro a ha
      constructor
      · intro hseen
        rcases (record_seen _ _ _).mp hseen with heq | hk
        · exact absurd heq (hother a ha)
        · exact hk
      · exact fun hk => (record_seen _ _ _).mpr (Or.inr hk)

theorem Beside.committed (hbrief : Brief env config)
    (hkey : ∀ a ∈ backs, a.2.idempotencyKey ≠ p.idempotencyKey op)
    (hrun : Txn.SameRun ((runClaimed p env config op).run s.opened) ((runClaimed p env config op).run b)) :
    Beside env backs ((runClaimed p env config op).run s.opened).2.commitAll
      ((runClaimed p env config op).run b).2 := by
  have hs := (runClaimed_extends p env config op (opened_sound h.sound)).sound
  have hb := runClaimed_extends p env config op h.sound_batch
  obtain ⟨htrailing, hunseen⟩ := h.recorded hbrief op hkey
  exact {
    view := hrun.view
    closed := World.commitAll_closed _
    sound := ⟨hs.lots, hs.columns⟩
    recording := hb.recording h.recording (runClaimed_recording op h.recording.trust)
    sound_batch := hb.sound
    trailing := by
      rw [hunseen]
      exact htrailing
    nodup := h.nodup }

omit h in
theorem putBack_trust (check : Option RiskCheck) (v : World) :
    putBack check v = { v with trust := (putBack check v).trust } := by
  cases check <;> rfl

theorem Beside.refused (hbrief : Brief env config)
    (hkey : ∀ a ∈ backs, a.2.idempotencyKey ≠ p.idempotencyKey op)
    (hrun : Txn.SameRun ((runClaimed p env config op).run s.opened) ((runClaimed p env config op).run b)) :
    let news := (staged p env op b).toList.map fun check => (check.subject, check.attempt)
    let b' := b.rollbackTo ((runClaimed p env config op).run b).2
    Beside env (backs ++ news)
        (putBack (staged p env op s.opened) ((runClaimed p env config op).run s.opened).2.rollbackAll) b' ∧
      unseenOf (backs ++ news) b'.trust.rows = unseenOf backs b.trust.rows ++ unseenOf news
        s.trust.rows := by
  intro news b'
  have hview : s.opened.view = b.view := h.view
  have hs := runClaimed_extends p env config op (opened_sound h.sound)
  have hb := runClaimed_extends p env config op h.sound_batch
  have hu := rollback_measured (p := p) hbrief op h.trailing.counted
  have hu' := rollbackTo_measured (p := p) hbrief op h.trailing.counted_behind h.recording.trust
  have hmeasured := h.trailing.measuredFor hview (fun screened => hbrief.recent) hu hu'
  have hsame : staged p env op b = staged p env op s.opened := by
    rw [staged_eq, staged_eq, screenedAt_view p env op hview]
  have hnews : ∀ a ∈ news, a.2.idempotencyKey = p.idempotencyKey op := by
    intro a ha
    obtain ⟨check, hcheck, rfl⟩ := List.mem_map.mp ha
    rw [Option.mem_toList, staged_eq] at hcheck
    obtain ⟨screened, hs, rfl⟩ := Option.map_eq_some_iff.mp hcheck
    exact (screenedAt_attempt p env hs).1
  have hbacks : unseenOf backs b'.trust.rows = unseenOf backs b.trust.rows :=
    unseenOf_congr fun a _ => hu'.seen _
  have hnew : unseenOf news b'.trust.rows = unseenOf news s.trust.rows := by
    apply unseenOf_congr
    intro a ha
    have hother : ∀ c ∈ unseenOf backs b.trust.rows, c.2.idempotencyKey ≠ a.2.idempotencyKey := by
      intro c hc
      rw [hnews a ha]
      exact hkey c (List.mem_of_mem_filter hc)
    exact (hu'.seen _).trans (h.trailing.seen_iff hother).symm
  have hunseen : unseenOf (backs ++ news) b'.trust.rows =
      unseenOf backs b.trust.rows ++ unseenOf news s.trust.rows := by
    rw [unseenOf_append, hbacks, hnew]
  refine ⟨?_, hunseen⟩
  have hrolled : ((runClaimed p env config op).run s.opened).2.rollbackAll.view = b'.view := by
    rw [World.rollbackAll_view h.closed hs]
    exact (World.burned_view h.view hrun.view).trans (World.rollbackTo_view hb h.recording).symm
  exact {
    view := by
      rw [putBack_trust]
      exact hrolled
    closed := by
      have hclosed := World.rollbackAll_closed ((runClaimed p env config op).run s.opened).2
      rw [putBack_trust]
      refine { hclosed with trust := ?_ }
      cases staged p env op s.opened with
      | none => exact hclosed.trust
      | some check => exact insert_closed hclosed.trust
    sound := by
      rw [putBack_trust]
      have hrest := (World.rollbackAll_sameTables h.closed hs).sound h.sound
      exact ⟨hrest.lots, hrest.columns⟩
    recording := World.rollbackTo_recording hb h.recording (runClaimed_recording op h.recording.trust)
    sound_batch := World.rollbackTo_sound hb h.recording h.sound_batch
    trailing := by
      rw [hunseen]
      cases hs : screenedAt p env op s.opened with
      | none =>
        have hstaged : staged p env op s.opened = none := by rw [staged_eq, hs, Option.map_none]
        have hnone : news = [] := by simp only [news, hsame, hstaged, Option.toList_none, List.map_nil]
        rw [hnone, hstaged]
        exact (List.append_nil (unseenOf backs b.trust.rows)).symm ▸ hmeasured
      | some screened =>
        obtain ⟨-, hstamped, -⟩ := screenedAt_attempt p env hs
        have hstaged : staged p env op s.opened = some screened.1 := by rw [staged_eq, hs, Option.map_some]
        have hone : news = [(screened.1.subject, screened.1.attempt)] := by
          simp only [news, hsame, hstaged, Option.toList_some, List.map_cons, List.map_nil]
        have hrest : unseenOf news s.trust.rows =
            unseenOf news ((runClaimed p env config op).run s.opened).2.rollbackAll.trust.rows :=
          unseenOf_congr fun a _ => (hu.seen _).symm
        rw [hrest, hone, hstaged]
        exact hmeasured.bumped screened.1.subject hstamped rfl
    nodup := by
      rw [List.map_append, List.nodup_append]
      refine ⟨h.nodup, ?_, ?_⟩
      · simp only [news]
        cases staged p env op b <;> simp
      · intro key hk key' hk' heq
        obtain ⟨a, ha, rfl⟩ := List.mem_map.mp hk
        obtain ⟨c, hc, rfl⟩ := List.mem_map.mp hk'
        exact hkey a ha (heq.trans (hnews c hc)) }

theorem Beside.step (hbrief : Brief env config)
    (hpass : passes p config op now = true) (hkey : ∀ a ∈ backs, a.2.idempotencyKey ≠ p.idempotencyKey op)
    (hverdict : verdictOf p env config op b = verdictOf p env config op s.opened) :
    let item := batchItem p env config op b
    let backs' := backs ++ (backOf (item.1, staged p env op b)).toList
    (submit p env config op now s).1 = slotOf item.1 ∧
      Beside env backs' (submit p env config op now s).2 item.2 ∧
      unseenOf backs' item.2.trust.rows = unseenOf backs b.trust.rows ++ asideOf p env config
        op now s := by
  have hrun := h.sameRun hverdict
  have hslot : (submit p env config op now s).1 = slotOf (batchItem p env config op b).1 := by
    rw [submit_slot h.closed hpass, batchItem_slot]
    exact hrun.answer
  refine ⟨hslot, ?_⟩
  have haside : asideOf p env config op now s =
      if wasRefused ((runClaimed p env config op).run s.opened).1 then
        unseenOf ((staged p env op s.opened).toList.map fun check => (check.subject, check.attempt))
          s.trust.rows
      else [] := by
    rw [asideOf, submit_slot h.closed hpass, hpass, Bool.true_and]
  rw [haside, submit_eq h.closed hpass]
  unfold batchItem wasRefused
  simp only
  rw [← hrun.answer]
  cases rejectionsRollBack ((runClaimed p env config op).run s.opened).1 with
  | ok outcome =>
    simp only [backOf, Option.toList_none, List.append_nil, if_neg Bool.false_ne_true]
    exact ⟨h.committed hbrief hkey hrun, (h.recorded hbrief op hkey).2⟩
  | error thrown =>
    have hstaged : staged p env op s.opened = staged p env op b := by
      rw [staged_eq, staged_eq, screenedAt_view p env op (show s.opened.view = b.view from h.view)]
    have hback : (backOf (.error thrown, staged p env op b)).toList =
        (staged p env op b).toList.map fun check => (check.subject, check.attempt) := by
      cases staged p env op b <;> rfl
    have hsides := h.refused hbrief hkey hrun
    simp only [hback, if_true]
    rw [hstaged] at hsides ⊢
    exact hsides

omit h in
theorem submit_screened (env : Env) (hpass : passes p config op now = false) (s : World) :
    (submit p env config op now s).2 = s ∧ screenSlot p config (op, now) =
      .inl (submit p env config op now s).1 := by
  unfold passes at hpass
  unfold submit screenSlot
  rcases hscreen : screenOperation p config op now with e | answer | answer
  · exact ⟨rfl, rfl⟩
  · rw [hscreen] at hpass
    cases hpass
  · exact ⟨rfl, rfl⟩

omit h in
theorem screenSlot_passes (hpass : passes p config op now = true) :
    screenSlot p config (op, now) = .inr op := by
  unfold passes at hpass
  unfold screenSlot
  split at hpass
  · rename_i hscreen
    simp only [hscreen]
  · cases hpass

omit h in
theorem asideOf_screened (hpass : passes p config op now = false) (s : World) :
    asideOf p env config op now s = [] := by
  rw [asideOf, hpass, Bool.false_and]
  rfl

omit h in
theorem backOf_key {result : Except Thrown Outcome} {a : String × Attempt}
    (ha : a ∈ (backOf (result, staged p env op b)).toList) : a.2.idempotencyKey = p.idempotencyKey op := by
  rw [Option.mem_toList] at ha
  cases result with
  | ok outcome => cases ha
  | error thrown =>
    obtain ⟨check, hcheck, rfl⟩ := Option.map_eq_some_iff.mp ha
    rw [staged_eq] at hcheck
    obtain ⟨screened, hs, rfl⟩ := Option.map_eq_some_iff.mp hcheck
    exact (screenedAt_attempt p env hs).1

/-! ## A run of both -/

omit h in
theorem vetted_passes (hpass : passes p config op now = true) :
    vetted p config ((op, now) :: ops) = (op, now) :: vetted p config ops := by
  apply List.filter_cons_of_pos
  unfold passes screenOperation at hpass
  cases hvalid : p.validateOperation config op with
  | error e =>
    rw [hvalid] at hpass
    cases hpass
  | ok valid =>
    cases hauth : p.authorize op with
    | error e =>
      rw [hvalid, hauth] at hpass
      cases hpass
    | ok allowed => rfl

omit h in
theorem vetted_tail {entry other : Op × Int} (hm : other ∈ vetted p config ops) :
    other ∈ vetted p config (entry :: ops) :=
  ((List.sublist_cons_self entry ops).filter _).subset hm

omit h in
theorem keys_step {result : Except Thrown Outcome}
    (hpass : passes p config op now = true) (hdistinct : DistinctKeys p config ((op, now) :: ops))
    (hkeys : ∀ entry ∈ vetted p config ((op, now) :: ops), ∀ a ∈ backs,
      a.2.idempotencyKey ≠ p.idempotencyKey entry.1) :
    ∀ entry ∈ vetted p config ops, ∀ a ∈ backs ++ (backOf (result, staged p env op b)).toList,
      a.2.idempotencyKey ≠ p.idempotencyKey entry.1 := by
  intro entry hentry a ha
  unfold DistinctKeys at hdistinct
  rw [vetted_passes hpass, List.map_cons, List.nodup_cons] at hdistinct
  cases List.mem_append.mp ha with
  | inl ha => exact hkeys entry (vetted_tail hentry) a ha
  | inr ha =>
    rw [backOf_key ha]
    exact fun heq => hdistinct.1 (heq ▸ List.mem_map_of_mem hentry)

/-- As long as no verdict needs what is put aside, the batch keeps up with the sequence. -/
theorem Beside.run (hbrief : Brief env config) (ops : List (Op × Int))
    (hdistinct : DistinctKeys p config ops)
    (hkeys : ∀ entry ∈ vetted p config ops, ∀ a ∈ backs, a.2.idempotencyKey ≠ p.idempotencyKey entry.1)
    (hunmoved : Along p env config (Unmoved p env config) (unseenOf backs b.trust.rows) ops s) :
    let ran := batchItems p env config ((ops.map (screenSlot p config)).filterMap Sum.getRight?) b
    (submitEach p env config ops s).1 = fillSlots (ops.map (screenSlot p config))
    (ran.1.map (slotOf ·.1)) ∧
      Beside env (backs ++ ran.1.filterMap backOf) (submitEach p env config ops s).2 ran.2 := by
  induction ops generalizing backs s b with
  | nil => exact ⟨rfl, (List.append_nil backs).symm ▸ h⟩
  | cons entry ops ih =>
    obtain ⟨op, now⟩ := entry
    obtain ⟨hhere, hrest⟩ := hunmoved
    cases hpass : passes p config op now with
    | false =>
      obtain ⟨hstay, hscreened⟩ := submit_screened env hpass s
      rw [asideOf_screened hpass, List.append_nil, hstay] at hrest
      have hrun := ih h hdistinct.tail (fun e he => hkeys e (vetted_tail he)) hrest
      simp only [submitEach, List.map_cons, hscreened, List.filterMap_cons, Sum.getRight?,
        fillSlots, hstay]
      exact ⟨congrArg _ hrun.1, hrun.2⟩
    | true =>
      have hkey : ∀ a ∈ backs, a.2.idempotencyKey ≠ p.idempotencyKey op :=
        hkeys (op, now) (by rw [vetted_passes hpass]; exact List.mem_cons_self)
      have hverdict : verdictOf p env config op b = verdictOf p env config op s.opened :=
        (h.verdict hbrief op hkey).trans (hhere hpass)
      obtain ⟨hslot, hbeside, haside⟩ := h.step hbrief hpass hkey hverdict
      rw [← haside] at hrest
      obtain ⟨hslots, hrun⟩ := ih hbeside hdistinct.tail (keys_step hpass hdistinct hkeys) hrest
      simp only [submitEach, List.map_cons, screenSlot_passes hpass, List.filterMap_cons, Sum.getRight?,
        batchItems, fillSlots]
      refine ⟨hslot ▸ congrArg _ hslots, ?_⟩
      rw [List.append_assoc] at hrun
      generalize backOf ((batchItem p env config op b).1, staged p env op b) = back at hrun ⊢
      cases back with
      | none => exact hrun
      | some back => exact hrun

theorem Beside.unmoved (hbrief : Brief env config) (ops : List (Op × Int))
    (hdistinct : DistinctKeys p config ops)
    (hkeys : ∀ entry ∈ vetted p config ops, ∀ a ∈ backs, a.2.idempotencyKey ≠ p.idempotencyKey entry.1)
    (htotalled : Along p env config (Totalled p env config) (unseenOf backs b.trust.rows) ops s)
    (hslots : (submitEach p env config ops s).1 =
      fillSlots (ops.map (screenSlot p config))
        ((batchItems p env config ((ops.map (screenSlot p config)).filterMap Sum.getRight?) b).1.map
          (slotOf ·.1))) :
    Along p env config (Unmoved p env config) (unseenOf backs b.trust.rows) ops s := by
  induction ops generalizing backs s b with
  | nil => trivial
  | cons entry ops ih =>
    obtain ⟨op, now⟩ := entry
    obtain ⟨hhere, hrest⟩ := htotalled
    cases hpass : passes p config op now with
    | false =>
      obtain ⟨hstay, hscreened⟩ := submit_screened env hpass s
      rw [asideOf_screened hpass, List.append_nil, hstay] at hrest
      simp only [submitEach, List.map_cons, hscreened, List.filterMap_cons, Sum.getRight?, fillSlots,
        hstay] at hslots
      refine ⟨fun htrue => absurd (hpass.symm.trans htrue) Bool.false_ne_true, ?_⟩
      rw [asideOf_screened hpass, List.append_nil, hstay]
      exact ih h hdistinct.tail (fun e he => hkeys e (vetted_tail he)) hrest
        (List.cons.inj hslots).2
    | true =>
      have hkey : ∀ a ∈ backs, a.2.idempotencyKey ≠ p.idempotencyKey op :=
        hkeys (op, now) (by rw [vetted_passes hpass]; exact List.mem_cons_self)
      simp only [submitEach, List.map_cons, screenSlot_passes hpass, List.filterMap_cons, Sum.getRight?,
        batchItems, fillSlots] at hslots
      obtain ⟨hfirst, hothers⟩ := List.cons.inj hslots
      obtain ⟨⟨verdict, hwithout⟩, verdict', hwith⟩ := hhere hpass
      have hbatch := (h.verdict hbrief op hkey).trans hwithout
      rw [submit_slot h.closed hpass, batchItem_slot] at hfirst
      have hsame := verdict_of_slot (show s.opened.view = b.view from h.view) hfirst hwith hbatch
      have hverdict : verdictOf p env config op b = verdictOf p env config op s.opened := by
        rw [hbatch, hwith, hsame]
      have hhead : Unmoved p env config (unseenOf backs b.trust.rows) op s.opened := by
        rw [Unmoved, hwithout, hwith, hsame]
      refine ⟨fun _ => hhead, ?_⟩
      obtain ⟨-, hbeside, haside⟩ := h.step hbrief hpass hkey hverdict
      rw [← haside] at hrest ⊢
      exact ih hbeside hdistinct.tail (keys_step hpass hdistinct hkeys) hrest hothers

omit h

/-- The batch answered as the sequence did, and left the same rows and the same attempts. -/
structure Agrees (each : List Slot × World) (batch : Except Fault (List Slot) × World) : Prop where
  slots : batch.1 = .ok each.1
  view : each.2.view = batch.2.view
  attempts : SameAttempts each.2.trust.rows batch.2.trust.rows

theorem Beside.start (hc : w.Closed) (hs : w.Sound) (ht : w.trust.rows.Counted) :
    Beside env [] w w.opened where
  view := rfl
  closed := hc
  sound := hs
  recording := World.opened_recording w
  sound_batch := opened_sound hs
  trailing := .refl ht _
  nodup := List.nodup_nil

theorem submitBatch_eq {w : World} (hc : w.Closed) (ops : List (Op × Int))
    (hdistinct : DistinctKeys p config ops) :
    let ran := batchItems p env config ((ops.map (screenSlot p config)).filterMap Sum.getRight?) w.opened
    (submitBatch p env config ops w).1 =
        .ok (fillSlots (ops.map (screenSlot p config)) (ran.1.map (slotOf ·.1))) ∧
      (submitBatch p env config ops w).2.view = ran.2.view ∧
      (submitBatch p env config ops w).2.trust.rows =
        (putBackAll (ran.1.filterMap backOf) ran.2.commitAll.trust).rows ∧
      (submitBatch p env config ops w).2.Closed := by
  intro ran
  unfold submitBatch
  rw [screenBatch_eq p config [] ops hdistinct fun _ _ => List.not_mem_nil]
  simp only
  cases hentries : (ops.map (screenSlot p config)).filterMap Sum.getRight? with
  | nil =>
    have hran : ran = ([], w.opened) := by
      simp only [ran, hentries, batchItems]
    rw [hran]
    exact ⟨rfl, rfl, rfl, hc⟩
  | cons op entries =>
    have hran : ran = batchItems p env config (op :: entries) w.opened := by
      simp only [ran, hentries]
    rw [hran]
    simp only [List.isEmpty_cons, if_neg Bool.false_ne_true, hc.beginAll, settleBatchSlots_eq]
    exact ⟨trivial, rfl, trivial, { World.commitAll_closed _ with trust := putBackAll_closed _ rfl }⟩

/-- The sequence has nothing on the batches that came before: the stores hold the same rows, and
the windows the same attempts. -/
structure Even (env : Env) (s b : World) : Prop where
  beside : Beside env [] s b.opened
  closed : b.Closed

theorem Even.start (hc : w.Closed) (hs : w.Sound) (ht : w.trust.rows.Counted) : Even env w w :=
  ⟨.start hc hs ht, hc⟩

theorem Even.same (h : Even env s b) : s.view = b.view ∧ SameAttempts s.trust.rows b.trust.rows :=
  ⟨h.beside.view, h.beside.trailing.same⟩

/-- A batch answers as the sequence does and is even with it again, as long as no velocity verdict
needs the attempt of an operation of the batch that was refused before. -/
theorem Even.batch (hbrief : Brief env config) (h : Even env s b) (ops : List (Op × Int))
    (hdistinct : DistinctKeys p config ops)
    (hunmoved : Along p env config (Unmoved p env config) [] ops s) :
    (submitBatch p env config ops b).1 = .ok (submitEach p env config ops s).1 ∧
      Even env (submitEach p env config ops s).2 (submitBatch p env config ops b).2 := by
  have hkeys : ∀ entry ∈ vetted p config ops, ∀ a ∈ ([] : List (String × Attempt)),
      a.2.idempotencyKey ≠ p.idempotencyKey entry.1 := fun _ _ _ ha => absurd ha List.not_mem_nil
  obtain ⟨hslots, hview, hrows, hclosed⟩ := @submitBatch_eq _ p env config b h.closed ops hdistinct
  obtain ⟨heach, hbeside⟩ := h.beside.run hbrief ops hdistinct hkeys hunmoved
  refine ⟨hslots.trans (congrArg _ heach.symm), ⟨?_, hclosed⟩⟩
  have htrailing := @Trailing.settled _ _ _
    (batchItems p env config ((ops.map (screenSlot p config)).filterMap Sum.getRight?)
      b.opened).2.commitAll.trust
    hbeside.trailing hbeside.nodup
  rw [List.nil_append, ← hrows] at htrailing
  exact {
    view := hbeside.view.trans hview.symm
    closed := hbeside.closed
    sound := hbeside.sound
    recording := World.opened_recording _
    sound_batch := opened_sound (World.sound_of_view hview.symm hbeside.sound_batch)
    trailing := htrailing
    nodup := List.nodup_nil }

/-- A batch equals the sequence as long as no velocity verdict needs the attempt of an operation
that was refused before, and only then. -/
theorem submitBatch_agrees_iff (hbrief : Brief env config) {w : World} (hc : w.Closed) (hs : w.Sound)
    (ht : w.trust.rows.Counted) (ops : List (Op × Int)) (hnodup : (ops.map (p.idempotencyKey ·.1)).Nodup) :
    (Along p env config (Unmoved p env config) [] ops w →
        Agrees (submitEach p env config ops w) (submitBatch p env config ops w)) ∧
      (Along p env config (Totalled p env config) [] ops w →
        Agrees (submitEach p env config ops w) (submitBatch p env config ops w) →
        Along p env config (Unmoved p env config) [] ops w) := by
  have hstart : Beside env [] w w.opened := .start hc hs ht
  have hdistinct : DistinctKeys p config ops := .of_nodup p config hnodup
  constructor
  · intro hunmoved
    obtain ⟨hslots, heven⟩ := (Even.start hc hs ht).batch hbrief ops hdistinct hunmoved
    exact ⟨hslots, heven.same.1, heven.same.2⟩
  · intro htotalled hagrees
    apply hstart.unmoved hbrief ops hdistinct (fun _ _ _ ha => absurd ha List.not_mem_nil) htotalled
    exact Except.ok.inj (hagrees.slots.symm.trans (submitBatch_eq hc ops hdistinct).1)

end Alongside

/-! ## Two purchases that cannot be paid -/

def sampleLimited : Config :=
  ⟨[], 0, 1, false, 3, 0, 1000, 1000, 100, none, none, none, none, 3, 0, 0, [], 0, 0, none⟩

def sampleStill : Env := ⟨fun _ => [7], fun _ => 0, fun n => toString n⟩

def samplePorts : Ports := ⟨⟨⟨1, 0, "buy"⟩, ⟨1, 0, "par"⟩, fun _ => ⟨1, 0, "payout"⟩⟩, none⟩

def samplePurchase (key : String) (price : Amount) : Operation :=
  .spend ⟨key, .user "usr_a", key, "usr_a", "sku_a", price, [⟨"usr_b", 10000⟩], false, none⟩

/-- The limit is 100, so a second purchase is denied when it comes after one over 60. -/
def samplePair (second : Amount) : List (Operation × Int) :=
  [(samplePurchase "key_1" ⟨.credit, 60, by decide⟩, 0), (samplePurchase "key_2" second, 0)]

theorem sampleStill_brief : Brief sampleStill sampleLimited :=
  fun _ _ => show (0 : Int) - 1000 < 0 by decide

def isClear (verdict : Except Fault (Option Outcome)) : Bool :=
  match verdict with
  | .ok none => true
  | _ => false

theorem Unmoved.of_clear {Op : Type} {p : Catalog Op} {env : Env} {config : Config}
    {aside : List (String × Attempt)} {op : Op} {w : World}
    (hwithout : isClear (verdictWithout p env config aside op w) = true)
    (hwith : isClear (verdictOf p env config op w) = true) : Unmoved p env config aside op w := by
  have clear : ∀ {verdict}, isClear verdict = true → verdict = .ok none := by
    intro verdict h
    unfold isClear at h
    split at h
    · rfl
    · cases h
  exact (clear hwithout).trans (clear hwith).symm

/-- Both stay within the limit whether or not the first one counts. -/
theorem samplePair_unmoved : Along (registry samplePorts) sampleStill sampleLimited
    (Unmoved (registry samplePorts) sampleStill sampleLimited) [] (samplePair ⟨.credit, 40, by decide⟩)
    World.empty := by
  refine ⟨fun _ => .of_clear ?_ ?_, fun _ => .of_clear ?_ ?_, trivial⟩ <;> decide +kernel

theorem submitBatch_agrees_within : Agrees
    (submitEach (registry samplePorts) sampleStill sampleLimited (samplePair ⟨.credit, 40, by
      decide⟩) World.empty)
    (submitBatch (registry samplePorts) sampleStill sampleLimited (samplePair ⟨.credit, 40, by decide⟩)
      World.empty) :=
  (submitBatch_agrees_iff sampleStill_brief World.empty_closed World.empty_sound
    TrustTables.empty_counted _
    (by decide)).1 samplePair_unmoved

def slotReason : Slot → Option RejectionCode
  | .ok (.rejected detail) => some detail.reason
  | _ => none

/-- One after the other the second is denied; in a batch the first does not count against it. -/
theorem batch_probes_free : ¬ Agrees
    (submitEach (registry samplePorts) sampleStill sampleLimited (samplePair ⟨.credit, 60, by
      decide⟩) World.empty)
    (submitBatch (registry samplePorts) sampleStill sampleLimited (samplePair ⟨.credit, 60, by decide⟩)
      World.empty) := by
  intro h
  have heach : (submitEach (registry samplePorts) sampleStill sampleLimited
      (samplePair ⟨.credit, 60, by decide⟩) World.empty).1.map slotReason =
        [some .insufficientFunds, some .riskDenied] := by
    decide +kernel
  have hbatch : (submitBatch (registry samplePorts) sampleStill sampleLimited
      (samplePair ⟨.credit, 60, by decide⟩) World.empty).1.toOption.map (List.map slotReason) =
        some [some .insufficientFunds, some .insufficientFunds] := by
    decide +kernel
  rw [h.slots] at hbatch
  have hsame := Option.some.inj hbatch
  rw [heach] at hsame
  cases hsame

end EconomyLab
