import EconomyLab.Engines.GroupCommit
import EconomyLab.Foundation.Trials
import EconomyLab.Stores.Contents

/-!
# The batch strategies of the three engines

Postgres commits a group at once and halves it when it fails; MySQL and the memory store run one
transaction with a savepoint around every item. A work is a function of what it finds in the store.
-/

namespace EconomyLab.Engines

open Foundation

/-- The fields of a thrown value that MySQL's `isTransientConflict` reads. -/
structure MysqlError where
  errno : Option Nat
  sqlMessage : Option String
  message : Option String
deriving DecidableEq, Repr

structure Thrown (E : Type) where
  pg : E → PgError
  mysql : E → MysqlError

section Strategies

variable {E T : Type} (thrown : Thrown E)

/-- The loop of `withTransientRetry` for any test of transience, with `left` more tries. -/
def retryOn {α D : Type} (isTransient : E → Bool) (attempt : D → Except E α × D) :
    Nat → D → Except E α × D
  | 0, db => attempt db
  | left + 1, db =>
    match attempt db with
    | (.ok value, db') => (.ok value, db')
    | (.error error, db') =>
      if isTransient error then retryOn isTransient attempt left db' else (.error error, db')

theorem retryOn_once {α D : Type} {isTransient : E → Bool} {attempt : D → Except E α × D} {db : D}
    (h : ∀ error db', attempt db = (.error error, db') → isTransient error = false) (left : Nat) :
    retryOn isTransient attempt left db = attempt db := by
  cases left with
  | zero => rfl
  | succ left =>
    rw [retryOn]
    rcases hr : attempt db with ⟨answer, db'⟩
    cases answer with
    | ok value => rfl
    | error error => simp [h error db' hr]

/-! ## Sessions -/

/-- A connection in a transaction: the rows committed before it, those it sees, and its savepoints. -/
structure Session (σ : Type) where
  committed : σ
  view : σ
  savepoints : List (Nat × σ)

namespace Session

variable {σ : Type}

def begin (db : σ) : Session σ := ⟨db, db, []⟩

def commit (session : Session σ) : σ := session.view

def rollback (session : Session σ) : σ := session.committed

/-- `SAVEPOINT op_i`: one of the same name goes. -/
def savepoint (i : Nat) (session : Session σ) : Session σ :=
  { session with savepoints := (i, session.view) :: session.savepoints.filter (·.1 ≠ i) }

/-- `RELEASE SAVEPOINT op_i`, with those set after it. -/
def release (i : Nat) (session : Session σ) : Session σ :=
  { session with savepoints := (session.savepoints.dropWhile (·.1 ≠ i)).tail }

/-- `ROLLBACK TO SAVEPOINT op_i`: the savepoint stays, those set after it go. -/
def rollbackTo (i : Nat) (session : Session σ) : Session σ :=
  match session.savepoints.dropWhile (·.1 ≠ i) with
  | [] => session
  | (name, view) :: savepoints => { session with view, savepoints := (name, view) :: savepoints }

end Session

namespace Postgres

variable {σ : Type}

def isTransientConflict (error : E) : Bool := Engines.isTransientConflict (thrown.pg error)

/-- Begin, the works in order, commit; an error anywhere rolls back. -/
def groupAttempt (works : List (Trial σ E T)) (db : σ) : Except E (List T) × σ :=
  let opened := Session.begin db
  match Trial.together works opened.view with
  | (.ok values, view) => (.ok values, { opened with view }.commit)
  | (.error error, view) => (.error error, { opened with view }.rollback)

/-- `runBatchTransaction`: no savepoints; a group that fails is halved. -/
def runBatchTransaction (works : List (Trial σ E T)) (db : σ) : Except E (List (Except E T)) × σ :=
  if _h0 : works.length = 0 then (.ok [], db)
  else
    match retryOn (isTransientConflict thrown) (groupAttempt works) (maxAttempts - 1) db with
    | (.ok values, db') => (.ok (values.map .ok), db')
    | (.error error, db') =>
      if isTransientConflict thrown error then (.error error, db')
      else if _h1 : works.length = 1 then (.ok [.error error], db')
      else
        match runBatchTransaction (works.take (midOf works)) db' with
        | (.error error, db'') => (.error error, db'')
        | (.ok left, db'') =>
          match runBatchTransaction (works.drop (midOf works)) db'' with
          | (.error error, db''') => (.error error, db''')
          | (.ok right, db''') => (.ok (left ++ right), db''')
termination_by works.length
decreasing_by
  · exact take_midOf_lt _h0 _h1
  · exact drop_midOf_lt _h0

variable {works : List (Trial σ E T)}

theorem groupAttempt_ok {db db' : σ} {values : List T}
    (h : groupAttempt works db = (.ok values, db')) : Trial.together works db = (.ok values, db') := by
  unfold groupAttempt at h
  rcases hr : Trial.together works db with ⟨answer, view⟩
  cases answer with
  | error error => simp [Session.begin, hr] at h
  | ok found => simpa [Session.begin, Session.commit, hr] using h

theorem groupAttempt_error {db db' : σ} {error : E} (h : groupAttempt works db = (.error error, db')) :
    db' = db ∧ ∃ view, Trial.together works db = (.error error, view) := by
  unfold groupAttempt at h
  rcases hr : Trial.together works db with ⟨answer, view⟩
  cases answer with
  | ok found => simp [Session.begin, hr] at h
  | error found =>
    simp only [Session.begin, Session.rollback, hr, Prod.mk.injEq, Except.error.injEq] at h
    obtain ⟨rfl, rfl⟩ := h
    exact ⟨rfl, view, rfl⟩

/-- However a batch is halved, its works come to what each of them comes to on its own. -/
theorem runBatchTransaction_eq (h : Trial.Without (isTransientConflict thrown) works) (db : σ) :
    runBatchTransaction thrown works db = (.ok (Trial.each works db).1, (Trial.each works db).2) := by
  induction hn : works.length using Nat.strongRecOn generalizing works db with
  | ind n ih =>
    have hplain : ∀ error db', groupAttempt works db = (.error error, db') →
        isTransientConflict thrown error = false := by
      intro error db' hr
      obtain ⟨-, view, hfails⟩ := groupAttempt_error hr
      exact h.together hfails
    have honce := retryOn_once hplain (maxAttempts - 1)
    rw [runBatchTransaction]
    by_cases h0 : works.length = 0
    · have hnil : works = [] := List.length_eq_zero_iff.mp h0
      subst hnil
      simp [Trial.each]
    rw [dif_neg h0, honce]
    rcases hr : groupAttempt works db with ⟨answer, db'⟩
    cases answer with
    | ok values =>
      rw [Trial.each_of_together_ok (groupAttempt_ok hr)]
    | error error =>
      obtain ⟨rfl, view, hfails⟩ := groupAttempt_error hr
      simp only [h.together hfails, Bool.false_eq_true, if_false]
      by_cases h1 : works.length = 1
      · obtain ⟨work, rfl⟩ := List.length_eq_one_iff.mp h1
        rw [dif_pos h1, Trial.each_singleton_error hfails]
      · have hleft : Trial.Without (isTransientConflict thrown) (works.take (midOf works)) :=
          fun work hw => h work (List.mem_of_mem_take hw)
        have hright : Trial.Without (isTransientConflict thrown) (works.drop (midOf works)) :=
          fun work hw => h work (List.mem_of_mem_drop hw)
        have hhalves := Trial.each_append (works.take (midOf works)) (works.drop (midOf works)) db'
        rw [List.take_append_drop] at hhalves
        rw [dif_neg h1, ih _ (hn ▸ take_midOf_lt h0 h1) hleft db' rfl]
        simp only
        rw [ih _ (hn ▸ drop_midOf_lt h0) hright _ rfl, hhalves]

end Postgres

namespace Mysql

variable {σ : Type}

/-- Deadlock, lock timeout, named-lock deadlock, or the two faces of a stale chain head. -/
def isTransientConflict (error : E) : Bool :=
  let e := thrown.mysql error
  let text := (e.sqlMessage <|> e.message).getD ""
  e.errno == some 1213 ||
  e.errno == some 1205 ||
  e.errno == some 3058 ||
  (e.errno == some 1062 && decide (chainForkIndex.toList <:+: text.toList)) ||
  (e.errno == some 1644 && decide (chainContinuityMarker.toList <:+: text.toList))

/-- `runSavepointed` from item `i` on. -/
def runSavepointed : Nat → List (Trial σ E T) → Session σ → Except E (List (Except E T)) × Session σ
  | _, [], session => (.ok [], session)
  | i, work :: works, session =>
    let marked := session.savepoint i
    match work marked.view with
    | (.ok value, view) =>
      match runSavepointed (i + 1) works ({ marked with view }.release i) with
      | (.ok slots, session') => (.ok (.ok value :: slots), session')
      | (.error error, session') => (.error error, session')
    | (.error error, view) =>
      -- A transient abort poisons the whole transaction.
      if isTransientConflict thrown error then (.error error, { marked with view })
      else
        match runSavepointed (i + 1) works ({ marked with view }.rollbackTo i) with
        | (.ok slots, session') => (.ok (.error error :: slots), session')
        | (.error error, session') => (.error error, session')

/-- `batchAttempt`: the savepoint walk between begin and commit. -/
def batchAttempt (works : List (Trial σ E T)) (db : σ) : Except E (List (Except E T)) × σ :=
  match runSavepointed thrown 0 works (Session.begin db) with
  | (.ok slots, session) => (.ok slots, session.commit)
  | (.error error, session) => (.error error, session.rollback)

def batchTransaction (works : List (Trial σ E T)) (db : σ) : Except E (List (Except E T)) × σ :=
  retryOn (isTransientConflict thrown) (batchAttempt thrown works) (maxAttempts - 1) db

theorem runSavepointed_eq {works : List (Trial σ E T)}
    (h : Trial.Without (isTransientConflict thrown) works) (i : Nat) (session : Session σ) :
    ∃ session', runSavepointed thrown i works session =
      (.ok (Trial.each works session.view).1, session') ∧
        session'.view = (Trial.each works session.view).2 := by
  induction works generalizing i session with
  | nil => exact ⟨session, rfl, rfl⟩
  | cons work works ih =>
    have hrest : Trial.Without (isTransientConflict thrown) works :=
      fun work hw => h work (List.mem_cons_of_mem _ hw)
    rcases hr : work session.view with ⟨answer, view⟩
    cases answer with
    | ok value =>
      obtain ⟨session', hrun, hview⟩ := ih hrest (i + 1) ({ session.savepoint i with view }.release i)
      refine ⟨session', ?_, ?_⟩
      · have hmarked : work (session.savepoint i).view = (.ok value, view) := hr
        simp only [runSavepointed, hmarked, hrun]
        simp [Trial.each, Trial.isolated_ok hr, Session.release]
      · simpa [Trial.each, Trial.isolated_ok hr, Session.release] using hview
    | error error =>
      obtain ⟨session', hrun, hview⟩ :=
        ih hrest (i + 1) ({ session.savepoint i with view }.rollbackTo i)
      have hback : ({ session.savepoint i with view }.rollbackTo i).view = session.view := by
        simp [Session.rollbackTo, Session.savepoint]
      rw [hback] at hrun hview
      refine ⟨session', ?_, ?_⟩
      · have hmarked : work (session.savepoint i).view = (.error error, view) := hr
        have hplain := h work List.mem_cons_self _ _ _ hr
        simp only [runSavepointed, hmarked, hplain, hrun]
        simp [Trial.each, Trial.isolated_error hr]
      · simpa [Trial.each, Trial.isolated_error hr] using hview

theorem batchTransaction_eq {works : List (Trial σ E T)}
    (h : Trial.Without (isTransientConflict thrown) works) (db : σ) :
    batchTransaction thrown works db = (.ok (Trial.each works db).1, (Trial.each works db).2) := by
  obtain ⟨session, hrun, hview⟩ := runSavepointed_eq thrown h 0 (Session.begin db)
  have hattempt : batchAttempt thrown works db =
      (.ok (Trial.each works db).1, (Trial.each works db).2) := by
    simp only [batchAttempt, hrun, Session.commit, hview]
    rfl
  unfold batchTransaction
  rw [retryOn_once ?_, hattempt]
  intro error db' hfails
  rw [hattempt] at hfails
  cases hfails

end Mysql

end Strategies

/-! ## The memory store -/

/-- What a work reads and calls, one after the other, and what it comes to. It reads what the
store holds at the time. -/
inductive UnitWork (Op E T : Type)
  | settle (answer : Except E T)
  | call (c : StoreCall Op) (next : UnitWork Op E T)
  | read (now : Int) (next : Contents Op → UnitWork Op E T)

namespace UnitWork

variable {Op E T : Type} (deps : MemoryDeps)

def run : UnitWork Op E T → Participants Op → Except E T × Participants Op
  | settle answer, s => (answer, s)
  | call c next, s => next.run (s.write deps c)
  | read now next, s => (next (s.contents (now - deps.velocityWindowMs))).run s

def calls : UnitWork Op E T → Participants Op → List (StoreCall Op)
  | settle _, _ => []
  | call c next, s => c :: next.calls (s.write deps c)
  | read now next, s => (next (s.contents (now - deps.velocityWindowMs))).calls s

/-- Every reading of the clock falls between the two. -/
def Between (start stop : Int) : UnitWork Op E T → Prop
  | settle _ => True
  | call c next => start ≤ c.now ∧ c.now ≤ stop ∧ next.Between start stop
  | read now next => start ≤ now ∧ now ≤ stop ∧ ∀ held, (next held).Between start stop

/-- The clock does not go back from one work to the next. -/
def InOrder (start : Int) : List (UnitWork Op E T) → Int → Prop
  | [], stop => start ≤ stop
  | work :: works, stop => ∃ next, start ≤ next ∧ work.Between start next ∧ InOrder next works stop

theorem run_store (work : UnitWork Op E T) (s : Participants Op) :
    (work.run deps s).2 = (work.calls deps s).foldl (Participants.write deps) s := by
  induction work generalizing s with
  | settle answer => rfl
  | call c next ih => exact ih _
  | read now next ih => exact ih _ s

theorem Between.calls {start stop : Int} {work : UnitWork Op E T} (h : work.Between start stop)
    (s : Participants Op) : ∀ c ∈ work.calls deps s, c.now ≤ stop := by
  induction work generalizing s with
  | settle answer => simp [UnitWork.calls]
  | call c next ih =>
    intro c' hc
    cases List.mem_cons.mp hc with
    | inl heq => exact heq ▸ h.2.1
    | inr hmem => exact ih h.2.2 _ c' hmem
  | read now next ih => exact ih _ (h.2.2 _) s

/-- A work cannot tell two stores of the same contents apart. -/
theorem run_alike {start stop floor : Int} {work : UnitWork Op E T} (h : work.Between start stop)
    (hfloor : floor ≤ start - deps.velocityWindowMs) {s s' : Participants Op} (hs : s.Sound)
    (hs' : s'.Sound) (hsame : s.contents floor = s'.contents floor) :
    (work.run deps s).1 = (work.run deps s').1 ∧
      (work.run deps s).2.contents floor = (work.run deps s').2.contents floor := by
  induction work generalizing s s' with
  | settle answer => exact ⟨rfl, hsame⟩
  | call c next ih =>
    exact ih h.2.2 (hs.write deps c) (hs'.write deps c) (Participants.contents_write hs hs' hsame c)
  | read now next ih =>
    have hread := Participants.contents_of_le
      (Int.le_trans hfloor (Int.sub_le_sub_right h.1 deps.velocityWindowMs)) hsame
    simp only [run, hread]
    exact ih _ (h.2.2 _) hs hs' hsame

end UnitWork

namespace Memory

variable {Op E T : Type} (deps : MemoryDeps)

/-- One item of the walk: a work that fails goes back to the marks it began with. -/
def runItem (work : UnitWork Op E T) (s : Participants Op) : Except E T × Participants Op :=
  match work.run deps s with
  | (.ok value, s') => (.ok value, s')
  | (.error error, s') => (.error error, s.rollbackTo s')

def walk : List (UnitWork Op E T) → Participants Op → List (Except E T) × Participants Op
  | [], s => ([], s)
  | work :: works, s =>
    let first := runItem deps work s
    let rest := walk works first.2
    (first.1 :: rest.1, rest.2)

/-- Every journal opens once, all items run, every journal commits. -/
def runMemoryBatch (works : List (UnitWork Op E T)) (s : Participants Op) :
    List (Except E T) × Participants Op :=
  let ran := walk deps works s.opened
  (ran.1, ran.2.commitAll)

/-- Every call of a work that fails can be reversed to where the work began. -/
def AllReversible (works : List (UnitWork Op E T)) (s : Participants Op) : Prop :=
  RunMeets (fun s work => (runItem deps work s).2)
    (fun s work => ∀ error, (work.run deps s).1 = .error error →
      RunMeets (Participants.write deps) (Participants.Reversible s) s (work.calls deps s))
    s.opened works

variable {deps}

/-- Against a store with the same contents, an item does what the work does on its own. -/
theorem runItem_isolated {start stop : Int} (hle : start ≤ stop) {work : UnitWork Op E T}
    (hwork : work.Between start stop) {e m : Participants Op} (he : e.Sound) (hm : m.Sound)
    (hopen : m.Recording) (hsame : e.contents (start - deps.velocityWindowMs) =
      m.contents (start - deps.velocityWindowMs))
    (hcalls : ∀ error, (work.run deps m).1 = .error error →
      RunMeets (Participants.write deps) (Participants.Reversible m) m (work.calls deps m)) :
    let alone := Trial.isolated (work.run deps) e
    let item := runItem deps work m
    item.1 = alone.1 ∧ alone.2.Sound ∧ item.2.Sound ∧ item.2.Recording ∧
      alone.2.contents (stop - deps.velocityWindowMs) =
        item.2.contents (stop - deps.velocityWindowMs) := by
  obtain ⟨hanswer, hleft⟩ := UnitWork.run_alike deps hwork (Int.le_refl _) he hm hsame
  have hfloor : start - deps.velocityWindowMs ≤ stop - deps.velocityWindowMs :=
    Int.sub_le_sub_right hle _
  have hstore := work.run_store deps m
  have hstore' := work.run_store deps e
  have hkept := (hm.kept (stop - deps.velocityWindowMs)).calls
    fun c hc => Int.sub_le_sub_right (hwork.calls deps m c hc) deps.velocityWindowMs
  simp only [Trial.isolated, runItem]
  rcases hrun : work.run deps m with ⟨answer, m'⟩
  rcases hrun' : work.run deps e with ⟨answer', e'⟩
  rw [hrun] at hanswer hleft hstore hcalls
  rw [hrun'] at hanswer hleft hstore'
  simp only at hanswer hleft hstore hstore' hcalls
  subst hanswer hstore hstore'
  cases answer' with
  | ok value =>
    exact ⟨rfl, he.calls deps _, hm.calls deps _, hopen.calls hm deps _,
      Participants.contents_of_le hfloor hleft⟩
  | error error =>
    have hnear := (hkept (hcalls error rfl)).rollbackTo hopen
    exact ⟨rfl, he, hnear.sound hm, (hopen.calls hm deps _).rollbackTo m,
      (Participants.contents_of_le hfloor hsame).trans (hnear.contents_eq hm).symm⟩

theorem walk_each {start stop : Int} {works : List (UnitWork Op E T)}
    (hclock : UnitWork.InOrder start works stop) {e m : Participants Op} (he : e.Sound) (hm : m.Sound)
    (hopen : m.Recording) (hsame : e.contents (start - deps.velocityWindowMs) =
      m.contents (start - deps.velocityWindowMs))
    (hcalls : RunMeets (fun s work => (runItem deps work s).2)
      (fun s work => ∀ error, (work.run deps s).1 = .error error →
        RunMeets (Participants.write deps) (Participants.Reversible s) s (work.calls deps s)) m works) :
    let alone := Trial.each (works.map (UnitWork.run deps)) e
    (walk deps works m).1 = alone.1 ∧
      alone.2.contents (stop - deps.velocityWindowMs) =
        (walk deps works m).2.contents (stop - deps.velocityWindowMs) := by
  induction works generalizing start e m with
  | nil => exact ⟨rfl, Participants.contents_of_le (Int.sub_le_sub_right hclock _) hsame⟩
  | cons work works ih =>
    obtain ⟨next, hle, hwork, hrest⟩ := hclock
    obtain ⟨hanswer, he', hm', hopen', hsame'⟩ :=
      runItem_isolated hle hwork he hm hopen hsame hcalls.1
    obtain ⟨hslots, hleft⟩ := ih hrest he' hm' hopen' hsame' hcalls.2
    simp only [walk, List.map_cons, Trial.each]
    exact ⟨by rw [hanswer, hslots], hleft⟩

end Memory

/-- The strategies fill the same slots in the same order, and once the clock has come to `latest`
the memory store holds what the rows of the other two engines hold. -/
def Agree {Op E T : Type} (thrown : Thrown E) (deps : MemoryDeps) (latest : Int)
    (works : List (UnitWork Op E T)) (s : Participants Op) : Prop :=
  ∃ slots db, slots.length = works.length ∧
    Postgres.runBatchTransaction thrown (works.map (UnitWork.run deps)) s = (.ok slots, db) ∧
    Mysql.batchTransaction thrown (works.map (UnitWork.run deps)) s = (.ok slots, db) ∧
    (Memory.runMemoryBatch deps works s).1 = slots ∧
    db.contents (latest - deps.velocityWindowMs) =
      (Memory.runMemoryBatch deps works s).2.contents (latest - deps.velocityWindowMs)

/-- The strategies agree on works whose failures are not transient, in every batch in which all
calls of the failing works can be reversed. -/
theorem strategies_agree {Op E T : Type} (thrown : Thrown E) {deps : MemoryDeps} {start latest : Int}
    {works : List (UnitWork Op E T)} {s : Participants Op} (hs : s.Sound)
    (hclock : UnitWork.InOrder start works latest)
    (hpostgres : Trial.Without (Postgres.isTransientConflict thrown) (works.map (UnitWork.run deps)))
    (hmysql : Trial.Without (Mysql.isTransientConflict thrown) (works.map (UnitWork.run deps)))
    (hcalls : Memory.AllReversible deps works s) : Agree thrown deps latest works s := by
  obtain ⟨hslots, hleft⟩ :=
    Memory.walk_each hclock hs hs.opened (Participants.opened_recording s) rfl hcalls
  refine ⟨_, _, ?_, Postgres.runBatchTransaction_eq thrown hpostgres s,
    Mysql.batchTransaction_eq thrown hmysql s, hslots, hleft⟩
  rw [Trial.each_length, List.length_map]

def plainTexts : Thrown String :=
  ⟨fun text => ⟨none, none, some text⟩, fun text => ⟨none, none, some text⟩⟩

def lettered : Participants Unit :=
  Participants.memoryStore.write Participants.plainDeps ⟨0, .outbox (.enqueue Participants.letter)⟩

def counting : UnitWork Unit String Nat := .call ⟨1, .outbox (.recordFailure "msg_1")⟩ (.settle (.ok 1))

def gaveUp : UnitWork Unit String Nat :=
  .call ⟨1, .outbox (.recordFailure "msg_1")⟩
    (.call ⟨1, .outbox (.deadLetter "msg_1" "PROVIDER.FAILURE")⟩ (.settle (.error "SINK.UNREACHABLE")))

/-- Gives a message up that it finds in the outbox, and throws. -/
def dropping : UnitWork Unit String Nat :=
  .read 2 fun held =>
    if held.outboxOrder.contains "msg_1" then
      .call ⟨2, .outbox (.deadLetter "msg_1" "PROVIDER.FAILURE")⟩ (.settle (.error "SINK.UNREACHABLE"))
    else .settle (.ok 0)

def relaying : UnitWork Unit String Nat := .call ⟨3, .outbox (.markRelayed ["msg_1"])⟩ (.settle (.ok 3))

theorem plain_error {work : UnitWork Unit String Nat}
    (hwork : work ∈ [counting, gaveUp, dropping, relaying]) (s : Participants Unit) :
    ∀ error, (work.run Participants.plainDeps s).1 = .error error →
      error = "SINK.UNREACHABLE" := by
  intro error h
  simp only [List.mem_cons, List.not_mem_nil, or_false] at hwork
  rcases hwork with rfl | rfl | rfl | rfl
  · cases h
  · cases h
    rfl
  · simp only [dropping, UnitWork.run] at h
    split at h
    · cases h
      rfl
    · cases h
  · cases h

theorem plain_without {works : List (UnitWork Unit String Nat)} {kind : String → Bool}
    (hkind : kind "SINK.UNREACHABLE" = false)
    (hworks : ∀ work ∈ works, work ∈ [counting, gaveUp, dropping, relaying]) :
    Trial.Without kind (works.map (UnitWork.run Participants.plainDeps)) := by
  intro trial htrial s error s' h
  obtain ⟨work, hwork, rfl⟩ := List.mem_map.mp htrial
  rw [plain_error (hworks work hwork) s error (congrArg Prod.fst h)]
  exact hkind

/-- The memory store keeps the attempt of the work that threw; the engines do not. -/
theorem not_agree_gaveUp :
    UnitWork.InOrder 1 [gaveUp] 1 ∧
      Trial.Without (Postgres.isTransientConflict plainTexts)
        ([gaveUp].map (UnitWork.run Participants.plainDeps)) ∧
      Trial.Without (Mysql.isTransientConflict plainTexts)
        ([gaveUp].map (UnitWork.run Participants.plainDeps)) ∧
      ¬ Agree plainTexts Participants.plainDeps 1 [gaveUp] lettered := by
  have hpostgres : Trial.Without (Postgres.isTransientConflict plainTexts)
      ([gaveUp].map (UnitWork.run Participants.plainDeps)) := plain_without (by decide) (by simp)
  refine ⟨⟨1, le_rfl, ⟨le_rfl, le_rfl, le_rfl, le_rfl, trivial⟩, le_rfl⟩, hpostgres,
    plain_without (by decide) (by simp), ?_⟩
  rintro ⟨slots, db, -, hrun, -, -, hcontents⟩
  rw [Postgres.runBatchTransaction_eq plainTexts hpostgres] at hrun
  obtain ⟨-, rfl⟩ := Prod.mk.inj hrun
  have hattempts := congrArg (fun held => held.outbox.map (·.2.attempts)) hcontents
  exact absurd hattempts (by decide)

/-- A work that reads, gives the message up and throws, between two that go through. -/
theorem strategies_agree_dropping :
    Agree plainTexts Participants.plainDeps 3 [counting, dropping, relaying] lettered := by
  have hclock : UnitWork.InOrder 1 [counting, dropping, relaying] 3 := by
    refine ⟨1, le_rfl, ⟨le_rfl, le_rfl, trivial⟩, 2, by decide, ⟨by decide, le_rfl, fun held => ?_⟩,
      3, by decide, ⟨by decide, le_rfl, trivial⟩, le_rfl⟩
    beta_reduce
    split
    · exact ⟨by decide, le_rfl, trivial⟩
    · trivial
  apply strategies_agree plainTexts (Participants.memoryStore_sound.write _ _) hclock
    (plain_without (by decide) (by simp)) (plain_without (by decide) (by simp))
  have hcounting : ∀ s : Participants Unit, ∀ error,
      (counting.run Participants.plainDeps s).1 = .error error → False := by
    intro s error h
    cases h
  have hrelaying : ∀ s : Participants Unit, ∀ error,
      (relaying.run Participants.plainDeps s).1 = .error error → False := by
    intro s error h
    cases h
  refine ⟨fun error h => (hcounting _ error h).elim, fun error _ => ⟨fun _ => ?_, trivial⟩,
    fun error h => (hrelaying _ error h).elim, trivial⟩
  intro r₀ obj h₀ hobj _
  exact congrArg Obj.value (Option.some.inj (hobj.symm.trans h₀))

end EconomyLab.Engines
