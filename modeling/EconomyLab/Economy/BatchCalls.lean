import EconomyLab.Economy.Alongside
import EconomyLab.Foundation.InTurn

/-!
# Batches under way

`submitBatch` screens its operations at once and leaves the others to the store's queue of
transactions. The velocity attempts it puts back come after its transaction, and by then the
journals of the next batch may be open: an attempt put back while an operation of that batch is
at work goes when the operation is refused.
-/

namespace EconomyLab

open Foundation Coalescer TrustTables

abbrev BatchResult := Except Thrown Outcome × Option RiskCheck

/-- How far a call of `submitBatch` has got; `found` is the store at the marks of the operation
at work. -/
inductive Stage (Op : Type)
  | waiting (entries : List Op)
  | between (results : List BatchResult) (entries : List Op)
  | marked (found : World) (op : Op) (results : List BatchResult) (entries : List Op)
  | worked (found : World) (result : BatchResult) (results : List BatchResult) (entries : List Op)
  | settling (slots : List Slot) (results : List BatchResult)
  | answered (answers : List Slot)

structure BatchCall (Op : Type) where
  screened : List (Slot ⊕ Op)
  stage : Stage Op

namespace BatchCall

variable {Op : Type}

/-- The call has left the store's queue. -/
def committed (call : BatchCall Op) : Bool :=
  match call.stage with
  | .settling _ _ => true
  | .answered _ => true
  | _ => false

/-- The attempts that the call has still to put back. -/
def backs (call : BatchCall Op) : List (String × Attempt) :=
  match call.stage with
  | .settling _ results => results.filterMap backOf
  | _ => []

end BatchCall

/-- The calls of `submitBatch` in the order they were made, over one store. -/
structure Batches (Op : Type) where
  world : World
  calls : List (BatchCall Op)

section Calls

variable {Op : Type} (p : Catalog Op) (env : Env) (config : Config)

def BatchCall.start (ops : List (Op × Int)) : BatchCall Op :=
  let screened := screenBatch p config [] ops
  let entries := screened.filterMap Sum.getRight?
  ⟨screened, if entries.isEmpty then .answered (fillSlots screened []) else .waiting entries⟩

/-- The call's next step; `first` says that all calls before it have left the store's queue. -/
def BatchCall.step (first : Bool) (w : World) (call : BatchCall Op) : World × Stage Op :=
  match call.stage with
  | .waiting entries =>
    if first then
      match w.beginAll with
      | none => (w, .answered (call.screened.map fun _ =>
          .error (plainError "in-memory transactions do not nest")))
      | some opened => (opened, .between [] entries)
    else (w, .waiting entries)
  | .between results [] => (w.commitAll, .settling [] results)
  | .between results (op :: entries) => (w, .marked w op results entries)
  | .marked found op results entries =>
    let done := (runClaimed p env config op).run w
    (done.2, .worked found (rejectionsRollBack done.1, staged p env op w) results entries)
  | .worked found result results entries =>
    let left := match result.1 with
      | .ok _ => w
      | .error _ => found.rollbackTo w
    (left, .between (results ++ [result]) entries)
  | .settling slots [] => (w, .answered (fillSlots call.screened slots))
  | .settling slots (result :: results) =>
    let settled := settleBatchSlot result.1 result.2 w
    (settled.2, .settling (slots ++ [settled.1]) results)
  | .answered answers => (w, .answered answers)

namespace Batches

def hand (ops : List (Op × Int)) (q : Batches Op) : Nat × Batches Op :=
  (q.calls.length, { q with calls := q.calls ++ [.start p config ops] })

def isFirst (q : Batches Op) (n : Nat) : Bool := (q.calls.take n).all BatchCall.committed

def advance (n : Nat) (q : Batches Op) : Batches Op :=
  match q.calls[n]? with
  | none => q
  | some call =>
    let next := call.step p env config (q.isFirst n) q.world
    ⟨next.1, q.calls.set n { call with stage := next.2 }⟩

def collect (n : Nat) (q : Batches Op) : Option (List Slot) :=
  match q.calls[n]? with
  | some ⟨_, .answered answers⟩ => some answers
  | _ => none

/-- The call's next step opens the journals. -/
def opens (q : Batches Op) (n : Nat) : Bool :=
  match q.calls[n]? with
  | some ⟨_, .waiting _⟩ => q.isFirst n
  | _ => false

/-- No journals are opened while an earlier batch has attempts to put back. -/
def Apart (q : Batches Op) (n : Nat) : Prop := q.opens n = true → ∀ call ∈ q.calls, call.backs = []

end Batches

def batchService : Service (Op × Int) (Batches Op) Nat Slot where
  hand := Batches.hand p config
  collect := Batches.collect
  advance := Batches.advance p env config

/-- What the callers of a batch get that runs by itself; when the batch fails, all get its fault. -/
def batchAnswers (ops : List (Op × Int)) (w : World) : List Slot × World :=
  match submitBatch p env config ops w with
  | (.ok slots, w') => (slots, w')
  | (.error e, w') => (ops.map fun _ => .error e, w')

theorem screenBatch_length (seen : List String) (ops : List (Op × Int)) :
    (screenBatch p config seen ops).length = ops.length := by
  induction ops generalizing seen with
  | nil => rfl
  | cons entry ops ih =>
    obtain ⟨op, now⟩ := entry
    rw [screenBatch]
    simp only
    split
    · rw [List.length_cons, ih, List.length_cons]
    · split
      · rw [List.length_cons, ih, List.length_cons]
      · rw [List.length_cons, ih, List.length_cons]

theorem batchItems_append (ops more : List Op) (w : World) :
    batchItems p env config (ops ++ more) w =
      ((batchItems p env config ops w).1 ++
          (batchItems p env config more (batchItems p env config ops w).2).1,
        (batchItems p env config more (batchItems p env config ops w).2).2) := by
  induction ops generalizing w with
  | nil => rfl
  | cons op ops ih => simp only [List.cons_append, batchItems, ih]

variable {p env config}

theorem batchAnswers_screened {ops : List (Op × Int)} {answers : List Slot}
    (h : (BatchCall.start p config ops).stage = .answered answers) (w : World) :
    batchAnswers p env config ops w = (answers, w) := by
  unfold BatchCall.start at h
  simp only at h
  by_cases hempty : ((screenBatch p config [] ops).filterMap Sum.getRight?).isEmpty = true
  · rw [if_pos hempty, Stage.answered.injEq] at h
    simp only [batchAnswers, submitBatch, if_pos hempty, h]
  · rw [if_neg hempty] at h
    cases h

variable (env) in
/-- A batch that runs: what it answers and the store it leaves, put-backs included. -/
theorem batchAnswers_run {ops : List (Op × Int)} {entries : List Op} {w opened : World}
    (h : (BatchCall.start p config ops).stage = .waiting entries) (hopen : w.beginAll = some opened) :
    batchAnswers p env config ops w =
      (fillSlots (screenBatch p config [] ops)
        ((batchItems p env config entries opened).1.map (slotOf ·.1)),
        { (batchItems p env config entries opened).2.commitAll with
          trust := putBackAll ((batchItems p env config entries opened).1.filterMap backOf)
            (batchItems p env config entries opened).2.commitAll.trust }) := by
  unfold BatchCall.start at h
  simp only at h
  by_cases hempty : ((screenBatch p config [] ops).filterMap Sum.getRight?).isEmpty = true
  · rw [if_pos hempty] at h
    cases h
  · rw [if_neg hempty, Stage.waiting.injEq] at h
    subst h
    simp only [batchAnswers, submitBatch, if_neg hempty, hopen, settleBatchSlots_eq]

variable (env) in
theorem batchAnswers_nested {ops : List (Op × Int)} {entries : List Op} {w : World}
    (h : (BatchCall.start p config ops).stage = .waiting entries) (hopen : w.beginAll = none) :
    batchAnswers p env config ops w =
      ((screenBatch p config [] ops).map fun _ =>
        .error (plainError "in-memory transactions do not nest"), w) := by
  unfold BatchCall.start at h
  simp only at h
  by_cases hempty : ((screenBatch p config [] ops).filterMap Sum.getRight?).isEmpty = true
  · rw [if_pos hempty] at h
    cases h
  · simp only [batchAnswers, submitBatch, if_neg hempty, hopen, List.map_const', screenBatch_length]

end Calls

section InTurn

variable {Op : Type} (p : Catalog Op) (env : Env) (config : Config) (w₀ : World)
  (batches : List (List (Op × Int) × Nat))

def storeAfter (n : Nat) : World := (inTurn (batchAnswers p env config) w₀ (batches.take n)).2

/-- The call has answered so, or has only to put attempts back before it does. -/
def BatchCall.Keeps (call : BatchCall Op) (answers : List Slot) : Prop :=
  match call.stage with
  | .settling slots results => fillSlots call.screened (slots ++ results.map (slotOf ·.1)) = answers
  | .answered given => given = answers
  | _ => False

/-- The first `m` calls are through with their transactions, and those from `m + 1` on are as they
were made. -/
structure Through (m : Nat) (q : Batches Op) : Prop where
  bound : m ≤ batches.length
  length : q.calls.length = batches.length
  refs : ∀ (i : Nat) (ops : List (Op × Int)) (ref : Nat), batches[i]? = some (ops, ref) → ref = i
  past : ∀ (i : Nat) (call : BatchCall Op) (ops : List (Op × Int)) (ref : Nat), i < m → q.calls[i]? =
    some call → batches[i]? = some (ops, ref) →
    call.Keeps (batchAnswers p env config ops (storeAfter p env config w₀ batches i)).1
  later : ∀ i : Nat, m < i → q.calls[i]? = batches[i]?.map fun batch => .start p config batch.1

/-- No journals are open; at most one call has attempts to put back, and with them the store is
the one after the first `m` batches. -/
structure Idle (m : Nat) (q : Batches Op) : Prop where
  here : q.calls[m]? = batches[m]?.map fun batch => .start p config batch.1
  store : ∃ (owner : Nat) (backs : List (String × Attempt)),
    (∀ (i : Nat) (call : BatchCall Op), q.calls[i]? = some call → call.backs = if i =
      owner then backs else []) ∧
    (backs ≠ [] → owner < q.calls.length) ∧
    { q.world with trust := putBackAll backs q.world.trust } = storeAfter p env config w₀ batches m

/-- How far a batch has got from the opened store. -/
def Stage.Reached (all : List Op) (opened w : World) : Stage Op → Prop
  | .between results entries => ∃ done, all = done ++ entries ∧
      batchItems p env config done opened = (results, w)
  | .marked found op results entries => found = w ∧ ∃ done, all = done ++ op :: entries ∧
      batchItems p env config done opened = (results, w)
  | .worked found result results entries => ∃ done op, all = done ++ op :: entries ∧
      batchItems p env config done opened = (results, found) ∧
      w = ((runClaimed p env config op).run found).2 ∧
      result = (rejectionsRollBack ((runClaimed p env config op).run found).1, staged p env op found)
  | _ => False

/-- The call `m` is at work on the opened store, and nothing is left to put back. -/
structure Running (m : Nat) (q : Batches Op) : Prop where
  here : ∃ (call : BatchCall Op) (ops : List (Op × Int)) (ref : Nat) (entries : List Op) (opened : World),
    q.calls[m]? = some call ∧ batches[m]? = some (ops, ref) ∧
    (BatchCall.start p config ops).stage = .waiting entries ∧
    call.screened = screenBatch p config [] ops ∧
    (storeAfter p env config w₀ batches m).beginAll = some opened ∧
    call.stage.Reached p env config entries opened q.world
  settled : ∀ call ∈ q.calls, call.backs = []

/-- The batches are served one after the other. -/
def Served (batches : List (List (Op × Int) × Nat)) (q : Batches Op) : Prop :=
  ∃ m, Through p env config w₀ batches m q ∧
    (Idle p env config w₀ batches m q ∨ Running p env config w₀ batches m q)

variable {p env config w₀ batches}

variable {m n : Nat} {q : Batches Op} {call : BatchCall Op} {ops : List (Op × Int)}

theorem storeAfter_succ {ref : Nat} (h : batches[n]? = some (ops, ref)) :
    storeAfter p env config w₀ batches (n + 1) =
      (batchAnswers p env config ops (storeAfter p env config w₀ batches n)).2 := by
  unfold storeAfter inTurn
  rw [List.take_add_one, h, Option.toList_some, List.map_append, oneByOne_append]
  rfl

theorem storeAfter_append {n : Nat} (h : n ≤ batches.length) (more : List (List (Op × Int) × Nat)) :
    storeAfter p env config w₀ (batches ++ more) n = storeAfter p env config w₀ batches n := by
  unfold storeAfter
  rw [List.take_append_of_le_length h]

theorem inTurn_answers {ref : Nat} (h : batches[n]? = some (ops, ref)) :
    (inTurn (batchAnswers p env config) w₀ batches).1[n]? =
      some (batchAnswers p env config ops (storeAfter p env config w₀ batches n)).1 := by
  obtain ⟨hlt, hget⟩ := List.getElem?_eq_some_iff.mp h
  have hsplit : batches = batches.take n ++ (ops, ref) :: batches.drop (n + 1) := by
    rw [← hget, List.cons_getElem_drop_succ, List.take_append_drop]
  have hlength : (inTurn (batchAnswers p env config) w₀ (batches.take n)).1.length = n := by
    rw [inTurn, oneByOne_length, List.length_map, List.length_take]
    omega
  have hall : (inTurn (batchAnswers p env config) w₀ batches).1 =
      (inTurn (batchAnswers p env config) w₀ (batches.take n)).1 ++
        (batchAnswers p env config ops (storeAfter p env config w₀ batches n)).1 ::
          (oneByOne (batchAnswers p env config) ((batches.drop (n + 1)).map Prod.fst)
            (batchAnswers p env config ops (storeAfter p env config w₀ batches n)).2).1 := by
    conv_lhs => rw [hsplit]
    unfold inTurn
    rw [List.map_append, oneByOne_append]
    rfl
  rw [hall, ← hlength]
  simp [hlength]

theorem set_get {α : Type} {l : List α} {a : α} (h : l[n]? = some a) (b : α) (i : Nat) :
    (l.set n b)[i]? = if n = i then some b else l[i]? := by
  rw [List.getElem?_set]
  by_cases hi : n = i
  · rw [if_pos hi, if_pos hi, if_pos (List.getElem?_eq_some_iff.mp h).1]
  · rw [if_neg hi, if_neg hi]

theorem Through.set (h : Through p env config w₀ batches m q) (hn : n ≤ m)
    {call call' : BatchCall Op} (hcall : q.calls[n]? = some call)
    (hkeeps : n < m → ∀ answers, call.Keeps answers → call'.Keeps answers) (w : World) :
    Through p env config w₀ batches m ⟨w, q.calls.set n call'⟩ := by
  refine ⟨h.bound, (List.length_set ..).trans h.length, h.refs, ?_, ?_⟩
  · intro i found ops ref hi hfound hbatch
    simp only [set_get hcall] at hfound
    by_cases he : n = i
    · subst he
      rw [if_pos rfl, Option.some.injEq] at hfound
      subst hfound
      exact hkeeps hi _ (h.past n call ops ref hi hcall hbatch)
    · rw [if_neg he] at hfound
      exact h.past i found ops ref hi hfound hbatch
  · intro i hi
    simp only [set_get hcall]
    rw [if_neg (by omega)]
    exact h.later i hi

theorem Through.next (h : Through p env config w₀ batches m q) {ref : Nat}
    (hcall : q.calls[m]? = some call) (hbatch : batches[m]? = some (ops, ref))
    (hkeeps : call.Keeps (batchAnswers p env config ops (storeAfter p env config w₀ batches m)).1) :
    Through p env config w₀ batches (m + 1) q := by
  refine ⟨(List.getElem?_eq_some_iff.mp hbatch).1, h.length, h.refs, ?_, fun i hi => h.later i (by omega)⟩
  intro i found ops' ref' hi hfound hbatch'
  by_cases he : i = m
  · subst he
    rw [hcall, Option.some.injEq] at hfound
    rw [hbatch, Option.some.injEq, Prod.mk.injEq] at hbatch'
    rw [← hfound, ← hbatch'.1]
    exact hkeeps
  · exact h.past i found ops' ref' (by omega) hfound hbatch'

theorem Batches.advance_same (hcall : q.calls[n]? = some call)
    (hstep : call.step p env config (q.isFirst n) q.world = (q.world, call.stage)) :
    q.advance p env config n = q := by
  obtain ⟨hlt, hget⟩ := List.getElem?_eq_some_iff.mp hcall
  have hset : q.calls.set n call = q.calls := by
    rw [← hget, List.set_getElem_self]
  simp only [Batches.advance, hcall, hstep, hset]

theorem BatchCall.start_backs (ops : List (Op × Int)) : (BatchCall.start p config ops).backs = [] := by
  unfold BatchCall.start BatchCall.backs
  simp only
  split
  · rename_i hstage
    split at hstage <;> cases hstage
  · rfl

theorem BatchCall.start_stage (ops : List (Op × Int)) :
    (∃ entries, (BatchCall.start p config ops).stage = .waiting entries) ∨
      ∃ answers, (BatchCall.start p config ops).stage = .answered answers := by
  unfold BatchCall.start
  simp only
  split
  · exact Or.inr ⟨_, rfl⟩
  · exact Or.inl ⟨_, rfl⟩

theorem BatchCall.step_answered {answers : List Slot}
    (h : call.stage = .answered answers) (first : Bool) (w : World) :
    call.step p env config first w = (w, call.stage) := by
  unfold BatchCall.step
  rw [h]

theorem BatchCall.step_queued {entries : List Op} (h : call.stage = .waiting entries)
    (w : World) : call.step p env config false w = (w, call.stage) := by
  unfold BatchCall.step
  rw [h]
  rfl

theorem Batches.isFirst_committed {n i : Nat} (h : q.isFirst n = true) (hi : i < n)
    (hcall : q.calls[i]? = some call) : call.committed = true := by
  refine List.all_eq_true.mp h call (List.mem_of_getElem? (i := i) ?_)
  rw [List.getElem?_take_of_lt hi]
  exact hcall

theorem Idle.skip (h : Through p env config w₀ batches m q)
    (hidle : Idle p env config w₀ batches m q) (hcall : q.calls[m]? = some call)
    (hdone : call.committed = true) :
    Through p env config w₀ batches (m + 1) q ∧ Idle p env config w₀ batches (m + 1) q := by
  have hhere := hidle.here
  rw [hcall] at hhere
  obtain ⟨⟨ops, ref⟩, hbatch, rfl⟩ := Option.map_eq_some_iff.mp hhere.symm
  rcases @BatchCall.start_stage _ p config ops with ⟨entries, hstage⟩ | ⟨answers, hstage⟩
  · simp only [BatchCall.committed, hstage] at hdone
    cases hdone
  · have hserved := @batchAnswers_screened _ p env config ops answers hstage
      (storeAfter p env config w₀ batches m)
    obtain ⟨owner, backs, howner, hlt, hstore⟩ := hidle.store
    refine ⟨h.next hcall hbatch ?_, h.later (m + 1) (Nat.lt_succ_self m), owner, backs, howner, hlt, ?_⟩
    · simp only [BatchCall.Keeps, hstage, hserved]
    · rw [hstore, storeAfter_succ hbatch, hserved]

theorem Idle.reach (h : Through p env config w₀ batches m q)
    (hidle : Idle p env config w₀ batches m q) (hmn : m ≤ n) (hfirst : q.isFirst n = true)
    (hn : n ≤ q.calls.length) :
    Through p env config w₀ batches n q ∧ Idle p env config w₀ batches n q := by
  have key : ∀ k, m ≤ k → k ≤ n →
      Through p env config w₀ batches k q ∧ Idle p env config w₀ batches k q := by
    intro k hmk
    induction k, hmk using Nat.le_induction with
    | base => exact fun _ => ⟨h, hidle⟩
    | succ k hmk ih =>
      intro hk
      obtain ⟨hthrough, hhere⟩ := ih (by omega)
      obtain ⟨found, hcall⟩ : ∃ found, q.calls[k]? = some found :=
        ⟨_, List.getElem?_eq_getElem (by omega)⟩
      exact hhere.skip hthrough hcall (Batches.isFirst_committed hfirst (by omega) hcall)
  exact key n hmn (Nat.le_refl n)

/-- A call that is through with its transaction puts an attempt back or answers. -/
theorem Through.settle (h : Through p env config w₀ batches m q) (hn : n < m)
    (hcall : q.calls[n]? = some call) :
    ∃ w call', q.advance p env config n = ⟨w, q.calls.set n call'⟩ ∧
      Through p env config w₀ batches m ⟨w, q.calls.set n call'⟩ ∧
      { w with trust := putBackAll call'.backs w.trust } =
        { q.world with trust := putBackAll call.backs q.world.trust } ∧
      (call.backs = [] → call'.backs = [] ∧ w = q.world) := by
  obtain ⟨⟨ops, ref⟩, hbatch⟩ : ∃ batch, batches[n]? = some batch :=
    ⟨_, List.getElem?_eq_getElem (by have := h.bound; omega)⟩
  have hkeeps := h.past n call ops ref hn hcall hbatch
  obtain ⟨screened, stage⟩ := call
  cases stage with
  | waiting _ => exact hkeeps.elim
  | between _ _ => exact hkeeps.elim
  | marked _ _ _ _ => exact hkeeps.elim
  | worked _ _ _ _ => exact hkeeps.elim
  | answered answers =>
    refine ⟨q.world, ⟨screened, .answered answers⟩, ?_, ?_, rfl, fun _ => ⟨rfl, rfl⟩⟩
    · simp only [Batches.advance, hcall, BatchCall.step]
    · exact h.set (Nat.le_of_lt hn) hcall (fun _ _ hk => hk) _
  | settling slots results =>
    cases results with
    | nil =>
      refine ⟨q.world, ⟨screened, .answered (fillSlots screened slots)⟩, ?_, ?_, rfl, fun _ => ⟨rfl, rfl⟩⟩
      · simp only [Batches.advance, hcall, BatchCall.step]
      · refine h.set (Nat.le_of_lt hn) hcall (fun _ answers hk => ?_) _
        simpa [BatchCall.Keeps] using hk
    | cons result results =>
      obtain ⟨answer, check⟩ := result
      have hslot : (settleBatchSlot answer check q.world).1 = slotOf answer := by
        cases answer <;> rfl
      refine ⟨(settleBatchSlot answer check q.world).2,
        ⟨screened, .settling (slots ++ [(settleBatchSlot answer check q.world).1]) results⟩,
          ?_, ?_, ?_, ?_⟩
      · simp only [Batches.advance, hcall, BatchCall.step]
      · refine h.set (Nat.le_of_lt hn) hcall (fun _ answers hk => ?_) _
        simpa [BatchCall.Keeps, hslot] using hk
      · cases answer with
        | ok outcome => rfl
        | error thrown => cases check <;> rfl
      · intro hnone
        cases answer with
        | ok outcome => exact ⟨hnone, rfl⟩
        | error thrown =>
          cases check with
          | none => exact ⟨hnone, rfl⟩
          | some check => cases hnone

theorem Idle.settle (h : Through p env config w₀ batches m q)
    (hidle : Idle p env config w₀ batches m q) (hn : n < m)
    (hcall : q.calls[n]? = some call) : Served p env config w₀ batches (q.advance p env config n) := by
  obtain ⟨w, call', hadvance, hthrough, hworld, hnone⟩ := h.settle hn hcall
  rw [hadvance]
  obtain ⟨owner, backs, howner, hlt, hstore⟩ := hidle.store
  have hbacks := howner n call hcall
  refine ⟨m, hthrough, Or.inl ⟨?_, ?_⟩⟩
  · simp only [set_get hcall]
    rw [if_neg (by omega)]
    exact hidle.here
  · by_cases hown : n = owner
    · rw [if_pos hown] at hbacks
      refine ⟨n, call'.backs, ?_, ?_, ?_⟩
      · intro i found hfound
        simp only [set_get hcall] at hfound
        by_cases hi : n = i
        · rw [if_pos hi, Option.some.injEq] at hfound
          rw [if_pos hi.symm, hfound]
        · rw [if_neg hi] at hfound
          rw [howner i found hfound, if_neg (fun he => hi (hown.trans he.symm)), if_neg (Ne.symm hi)]
      · intro _
        rw [List.length_set]
        exact (List.getElem?_eq_some_iff.mp hcall).1
      · rw [hworld, hbacks]
        exact hstore
    · rw [if_neg hown] at hbacks
      obtain ⟨hbacks', hsame⟩ := hnone hbacks
      refine ⟨owner, backs, ?_, ?_, ?_⟩
      · intro i found hfound
        simp only [set_get hcall] at hfound
        by_cases hi : n = i
        · rw [if_pos hi, Option.some.injEq] at hfound
          rw [if_neg (fun he => hown (hi.trans he)), ← hfound, hbacks']
        · rw [if_neg hi] at hfound
          exact howner i found hfound
      · rw [List.length_set]
        exact hlt
      · rw [hsame]
        exact hstore

theorem Idle.open (h : Through p env config w₀ batches m q)
    (hidle : Idle p env config w₀ batches m q) {entries : List Op}
    (hcall : q.calls[m]? = some call) (hstage : call.stage = .waiting entries)
    (hfirst : q.isFirst m = true) (hnone : ∀ call ∈ q.calls, call.backs = []) :
    Served p env config w₀ batches (q.advance p env config m) := by
  have hhere := hidle.here
  rw [hcall] at hhere
  obtain ⟨⟨ops, ref⟩, hbatch, rfl⟩ := Option.map_eq_some_iff.mp hhere.symm
  have hscreened : (BatchCall.start p config ops).screened = screenBatch p config [] ops := rfl
  obtain ⟨owner, backs, howner, hlt, hstore⟩ := hidle.store
  have hbacks : backs = [] := by
    by_contra hne
    obtain ⟨found, hget⟩ : ∃ found, q.calls[owner]? = some found :=
      ⟨_, List.getElem?_eq_getElem (hlt hne)⟩
    have hmine := howner owner found hget
    rw [if_pos rfl, hnone found (List.mem_of_getElem? hget)] at hmine
    exact hne hmine.symm
  subst hbacks
  have hworld : q.world = storeAfter p env config w₀ batches m := hstore
  have hadvance : q.advance p env config m = match q.world.beginAll with
      | none => ⟨q.world, q.calls.set m ⟨screenBatch p config [] ops, .answered
          ((screenBatch p config [] ops).map fun _ =>
            .error (plainError "in-memory transactions do not nest"))⟩⟩
      | some opened => ⟨opened, q.calls.set m ⟨screenBatch p config [] ops, .between [] entries⟩⟩ := by
    simp only [Batches.advance, hcall, BatchCall.step, hstage, hfirst, if_true, hscreened]
    cases q.world.beginAll <;> rfl
  have hset : ∀ (w : World) (stage : Stage Op), Through p env config w₀ batches m
      ⟨w, q.calls.set m ⟨screenBatch p config [] ops, stage⟩⟩ := fun w stage =>
    h.set (Nat.le_refl m) hcall (fun hlt => absurd hlt (Nat.lt_irrefl m)) w
  have hnew : ∀ stage : Stage Op, (q.calls.set m ⟨screenBatch p config [] ops, stage⟩)[m]? =
      some ⟨screenBatch p config [] ops, stage⟩ := fun stage => by
    rw [set_get hcall, if_pos rfl]
  rw [hadvance]
  cases hopen : q.world.beginAll with
  | none =>
    have hserved := batchAnswers_nested env hstage (hworld ▸ hopen)
    refine ⟨m + 1, (hset _ _).next (hnew _) hbatch ?_,
      Or.inl ⟨?_, m, [], ?_, fun hne => absurd rfl hne, ?_⟩⟩
    · simp only [BatchCall.Keeps, hserved]
    · rw [set_get hcall, if_neg (by omega)]
      exact h.later (m + 1) (Nat.lt_succ_self m)
    · intro i found hfound
      rw [set_get hcall] at hfound
      rw [ite_self]
      by_cases hi : m = i
      · rw [if_pos hi, Option.some.injEq] at hfound
        rw [← hfound]
        rfl
      · rw [if_neg hi] at hfound
        exact hnone found (List.mem_of_getElem? hfound)
    · rw [storeAfter_succ hbatch, hserved]
      exact hstore
  | some opened =>
    refine ⟨m, hset _ _, Or.inr ⟨⟨_, ops, ref, entries, opened, hnew _, hbatch, hstage, rfl,
      hworld ▸ hopen, [], rfl, rfl⟩, ?_⟩⟩
    intro found hfound
    rcases List.mem_or_eq_of_mem_set hfound with hold | rfl
    · exact hnone found hold
    · rfl

theorem Batches.queued (hcall : q.calls[n]? = some (.start p config ops))
    (hstay : ∀ entries, (BatchCall.start p config ops).stage = .waiting entries → q.isFirst n = false) :
    q.advance p env config n = q := by
  apply Batches.advance_same hcall
  rcases @BatchCall.start_stage _ p config ops with ⟨entries, hstage⟩ | ⟨answers, hstage⟩
  · rw [hstay entries hstage]
    exact BatchCall.step_queued hstage q.world
  · exact BatchCall.step_answered hstage _ q.world

theorem Idle.advance (h : Through p env config w₀ batches m q)
    (hidle : Idle p env config w₀ batches m q) (hapart : q.Apart n) :
    Served p env config w₀ batches (q.advance p env config n) := by
  cases hcall : q.calls[n]? with
  | none =>
    simp only [Batches.advance, hcall]
    exact ⟨m, h, Or.inl hidle⟩
  | some call =>
    by_cases hn : n < m
    · exact hidle.settle h hn hcall
    · have hstart : q.calls[n]? = batches[n]?.map fun batch => .start p config batch.1 := by
        by_cases he : n = m
        · rw [he]
          exact hidle.here
        · exact h.later n (by omega)
      rw [hcall] at hstart
      obtain ⟨⟨ops, ref⟩, -, rfl⟩ := Option.map_eq_some_iff.mp hstart.symm
      by_cases hopens : ∃ entries, (BatchCall.start p config ops).stage = .waiting entries ∧
          q.isFirst n = true
      · obtain ⟨entries, hstage, hfirst⟩ := hopens
        have hlt := (List.getElem?_eq_some_iff.mp hcall).1
        obtain ⟨hthrough, hhere⟩ := hidle.reach h (by omega) hfirst (Nat.le_of_lt hlt)
        refine hhere.open hthrough hcall hstage hfirst (hapart ?_)
        unfold Batches.opens
        rw [hcall]
        generalize BatchCall.start p config ops = call at hstage
        obtain ⟨screened, stage⟩ := call
        obtain rfl : stage = .waiting entries := hstage
        exact hfirst
      · rw [Batches.queued hcall fun entries hstage => Bool.eq_false_iff.mpr fun hfirst =>
          hopens ⟨entries, hstage, hfirst⟩]
        exact ⟨m, h, Or.inl hidle⟩

/-- The batch at work takes its next step: an operation, or the commit. -/
theorem Running.work (h : Through p env config w₀ batches m q)
    (hrunning : Running p env config w₀ batches m q) :
    Served p env config w₀ batches (q.advance p env config m) := by
  obtain ⟨⟨call, ops, ref, entries, opened, hcall, hbatch, hstage, hscreened, hopen, hreached⟩,
    hsettled⟩ :=
    hrunning
  obtain ⟨screened, stage⟩ := call
  obtain rfl : screened = screenBatch p config [] ops := hscreened
  have hset : ∀ (w : World) (stage : Stage Op), Through p env config w₀ batches m
      ⟨w, q.calls.set m ⟨screenBatch p config [] ops, stage⟩⟩ := fun w stage =>
    h.set (Nat.le_refl m) hcall (fun hlt => absurd hlt (Nat.lt_irrefl m)) w
  have hnew : ∀ stage : Stage Op, (q.calls.set m ⟨screenBatch p config [] ops, stage⟩)[m]? =
      some ⟨screenBatch p config [] ops, stage⟩ := fun stage => by
    rw [set_get hcall, if_pos rfl]
  have hstill : ∀ (w : World) (stage : Stage Op),
      (⟨screenBatch p config [] ops, stage⟩ : BatchCall Op).backs = [] →
      stage.Reached p env config entries opened w →
      Served p env config w₀ batches ⟨w, q.calls.set m ⟨screenBatch p config [] ops, stage⟩⟩ := by
    intro w stage hbacks hr
    refine ⟨m, hset w stage, Or.inr ⟨⟨_, ops, ref, entries, opened, hnew stage, hbatch, hstage, rfl,
      hopen, hr⟩, ?_⟩⟩
    intro found hfound
    rcases List.mem_or_eq_of_mem_set hfound with hold | rfl
    · exact hsettled found hold
    · exact hbacks
  cases stage with
  | waiting _ => exact hreached.elim
  | settling _ _ => exact hreached.elim
  | answered _ => exact hreached.elim
  | between results left =>
    obtain ⟨done, hall, hran⟩ := hreached
    cases left with
    | cons op left =>
      simp only [Batches.advance, hcall, BatchCall.step]
      exact hstill _ _ rfl ⟨rfl, done, hall, hran⟩
    | nil =>
      rw [List.append_nil] at hall
      subst hall
      have hserved := batchAnswers_run env hstage hopen
      rw [hran] at hserved
      simp only [Batches.advance, hcall, BatchCall.step]
      refine ⟨m + 1, (hset _ _).next (hnew _) hbatch ?_,
        Or.inl ⟨?_, m, results.filterMap backOf, ?_, ?_, ?_⟩⟩
      · simp only [BatchCall.Keeps, hserved, List.nil_append]
      · rw [set_get hcall, if_neg (by omega)]
        exact h.later (m + 1) (Nat.lt_succ_self m)
      · intro i found hfound
        rw [set_get hcall] at hfound
        by_cases hi : m = i
        · rw [if_pos hi, Option.some.injEq] at hfound
          rw [if_pos hi.symm, ← hfound]
          rfl
        · rw [if_neg hi] at hfound
          rw [if_neg (Ne.symm hi)]
          exact hsettled found (List.mem_of_getElem? hfound)
      · intro _
        rw [List.length_set]
        exact (List.getElem?_eq_some_iff.mp hcall).1
      · rw [storeAfter_succ hbatch, hserved]
  | marked found op results left =>
    obtain ⟨rfl, done, hall, hran⟩ := hreached
    simp only [Batches.advance, hcall, BatchCall.step]
    exact hstill _ _ rfl ⟨done, op, hall, hran, rfl, rfl⟩
  | worked found result results left =>
    obtain ⟨done, op, hall, hran, hworld, rfl⟩ := hreached
    simp only [Batches.advance, hcall, BatchCall.step]
    apply hstill _ _ rfl
    refine ⟨done ++ [op], by rw [hall, List.append_assoc]; rfl, ?_⟩
    rw [batchItems_append, hran, hworld]
    simp only [batchItems, batchItem]
    cases rejectionsRollBack ((runClaimed p env config op).run found).1 <;> rfl

theorem Running.advance (h : Through p env config w₀ batches m q)
    (hrunning : Running p env config w₀ batches m q) :
    Served p env config w₀ batches (q.advance p env config n) := by
  have hhere := hrunning.here
  obtain ⟨mine, ops, ref, entries, opened, hmine, hbatch, hstage, hscreened, hopen, hreached⟩ := hhere
  cases hcall : q.calls[n]? with
  | none =>
    simp only [Batches.advance, hcall]
    exact ⟨m, h, Or.inr hrunning⟩
  | some call =>
    rcases Nat.lt_trichotomy n m with hn | rfl | hn
    · obtain ⟨w, call', hadvance, hthrough, -, hnone⟩ := h.settle hn hcall
      obtain ⟨hbacks, rfl⟩ := hnone (hrunning.settled call (List.mem_of_getElem? hcall))
      rw [hadvance]
      refine ⟨m, hthrough, Or.inr ⟨⟨mine, ops, ref, entries, opened, ?_, hbatch, hstage, hscreened,
        hopen, hreached⟩, ?_⟩⟩
      · simp only [set_get hcall]
        rw [if_neg (by omega)]
        exact hmine
      · intro found hfound
        rcases List.mem_or_eq_of_mem_set hfound with hold | rfl
        · exact hrunning.settled found hold
        · exact hbacks
    · exact hrunning.work h
    · have hstart := h.later n hn
      rw [hcall] at hstart
      obtain ⟨⟨ops', ref'⟩, -, rfl⟩ := Option.map_eq_some_iff.mp hstart.symm
      rw [Batches.queued hcall fun entries' _ => Bool.eq_false_iff.mpr fun hfirst => ?_]
      · exact ⟨m, h, Or.inr hrunning⟩
      · have hcommitted := Batches.isFirst_committed hfirst hn hmine
        obtain ⟨screened, stage⟩ := mine
        cases stage with
        | settling _ _ => exact hreached.elim
        | answered _ => exact hreached.elim
        | waiting _ => cases hcommitted
        | between _ _ => cases hcommitted
        | marked _ _ _ _ => cases hcommitted
        | worked _ _ _ _ => cases hcommitted

theorem Served.start (w : World) : Served p env config w [] ⟨w, []⟩ := by
  refine ⟨0, ⟨Nat.le_refl 0, rfl, ?_, ?_, fun i _ => by
    simp⟩, Or.inl ⟨rfl, 0, [], ?_, fun h => absurd rfl h, rfl⟩⟩
  · intro i ops ref h
    cases h
  · intro i call ops ref hi
    cases hi
  · intro i call h
    cases h

theorem Served.hand (h : Served p env config w₀ batches q) (ops : List (Op × Int)) :
    Served p env config w₀ (batches ++ [(ops, (q.hand p config ops).1)]) (q.hand p config ops).2 := by
  obtain ⟨m, hthrough, hstate⟩ := h
  have hlength := hthrough.length
  have hbound := hthrough.bound
  have hcalls : (q.hand p config ops).2.calls = q.calls ++ [.start p config ops] := rfl
  have hafter := @storeAfter_append _ p env config w₀ batches m hthrough.bound
  have hgrown : ∀ i : Nat, i < batches.length →
      (batches ++ [(ops, q.calls.length)])[i]? = batches[i]? :=
    fun i hi => List.getElem?_append_left hi
  have hcalled : ∀ i : Nat, i < batches.length →
      (q.hand p config ops).2.calls[i]? = q.calls[i]? := fun i hi => by
    rw [hcalls, List.getElem?_append_left (by omega)]
  have hfresh : ∀ i : Nat, batches.length ≤ i →
      (q.hand p config ops).2.calls[i]? =
        (batches ++ [(ops, q.calls.length)])[i]?.map fun batch => .start p config batch.1 := by
    intro i hi
    rw [hcalls, List.getElem?_append_right (by omega), List.getElem?_append_right hi, hlength]
    cases i - batches.length <;> rfl
  have hlater : ∀ i : Nat, (i < batches.length →
      q.calls[i]? = batches[i]?.map fun batch => .start p config batch.1) →
      (q.hand p config ops).2.calls[i]? =
        (batches ++ [(ops, q.calls.length)])[i]?.map fun batch => .start p config batch.1 := by
    intro i hold
    by_cases hi : i < batches.length
    · rw [hcalled i hi, hgrown i hi]
      exact hold hi
    · exact hfresh i (by omega)
  have hback : ∀ found ∈ (q.hand p config ops).2.calls, found ∈ q.calls ∨ found.backs = [] := by
    intro found hfound
    rw [hcalls, List.mem_append, List.mem_singleton] at hfound
    rcases hfound with hold | rfl
    · exact Or.inl hold
    · exact Or.inr (BatchCall.start_backs ops)
  refine ⟨m, ⟨?_, ?_, ?_, ?_, fun i hi => hlater i fun _ => hthrough.later i hi⟩, ?_⟩
  · rw [List.length_append]
    omega
  · rw [hcalls, List.length_append, List.length_append, hlength]
    rfl
  · intro i ops' ref hbatch
    by_cases hi : i < batches.length
    · rw [← hthrough.refs i ops' ref ((hgrown i hi).symm.trans hbatch)]
    · have hlt := (List.getElem?_eq_some_iff.mp hbatch).1
      rw [List.length_append, List.length_singleton] at hlt
      have he : i = batches.length := by omega
      rw [he, List.getElem?_concat_length, Option.some.injEq, Prod.mk.injEq] at hbatch
      rw [he, ← hbatch.2]
      exact hlength
  · intro i call ops' ref hi hcall hbatch
    rw [hcalled i (by omega)] at hcall
    rw [show (batches ++ [(ops, (q.hand p config ops).1)])[i]? = batches[i]? from hgrown i (by
      omega)] at hbatch
    rw [storeAfter_append (by omega)]
    exact hthrough.past i call ops' ref hi hcall hbatch
  · rcases hstate with hidle | hrunning
    · left
      obtain ⟨owner, backs, howner, hlt, hstore⟩ := hidle.store
      refine ⟨hlater m fun _ => hidle.here, owner, backs, ?_, ?_, ?_⟩
      · intro i found hfound
        by_cases hi : i < batches.length
        · exact howner i found ((hcalled i hi).symm.trans hfound)
        · rw [hfresh i (by omega)] at hfound
          obtain ⟨batch, -, rfl⟩ := Option.map_eq_some_iff.mp hfound
          rw [BatchCall.start_backs]
          by_cases hown : i = owner
          · rw [if_pos hown]
            by_contra hne
            have := hlt (Ne.symm hne)
            omega
          · rw [if_neg hown]
      · intro hne
        rw [hcalls, List.length_append]
        exact Nat.lt_add_right _ (hlt hne)
      · rw [hafter]
        exact hstore
    · right
      obtain ⟨⟨call, ops', ref, entries, opened, hcall, hbatch, hrest⟩, hsettled⟩ := hrunning
      have hlt := (List.getElem?_eq_some_iff.mp hbatch).1
      refine ⟨⟨call, ops', ref, entries, opened, (hcalled m hlt).trans hcall,
        (hgrown m hlt).trans hbatch, ?_⟩, ?_⟩
      · rw [hafter]
        exact hrest
      · intro found hfound
        rcases hback found hfound with hold | hnone
        · exact hsettled found hold
        · exact hnone

/-- As long as no journals are opened before every attempt of the batches before is put back, the
batches are answered as one after the other. -/
theorem batches_in_turn (p : Catalog Op) (env : Env) (config : Config) (w₀ : World) :
    ServesInTurn (batchAnswers p env config) w₀ (batchService p env config) Batches.Apart
      (Served p env config w₀) where
  hand := fun _ _ ops h => h.hand ops
  advance := by
    rintro batches q n ⟨m, hthrough, hidle | hrunning⟩ hapart
    · exact hidle.advance hthrough hapart
    · exact hrunning.advance hthrough
  collect := by
    rintro batches q ref answers given ⟨m, hthrough, hstate⟩ ⟨i, ops, hbatch, hdue⟩ hgiven
    have hi : ref = i := hthrough.refs i ops ref hbatch
    subst hi
    rw [inTurn_answers hbatch, Option.some.injEq] at hdue
    have hcollect : q.collect ref = some given := hgiven
    unfold Batches.collect at hcollect
    split at hcollect
    · rename_i screened answers' hcall
      rw [Option.some.injEq] at hcollect
      subst hcollect
      rw [← hdue]
      by_cases hm : ref < m
      · exact hthrough.past ref _ ops ref hm hcall hbatch
      · have hstart : q.calls[ref]? = batches[ref]?.map fun batch => .start p config batch.1 := by
          by_cases he : ref = m
          · rcases hstate with hidle | hrunning
            · rw [he]
              exact hidle.here
            · obtain ⟨⟨call, ops', ref', entries, opened, hmine, -, -, -, -, hreached⟩, -⟩ := hrunning
              rw [← he, hcall, Option.some.injEq] at hmine
              rw [← hmine] at hreached
              exact hreached.elim
          · exact hthrough.later ref (by omega)
        rw [hcall, hbatch, Option.map_some, Option.some.injEq] at hstart
        rw [batchAnswers_screened (congrArg BatchCall.stage hstart.symm)]
    · cases hcollect

end InTurn

end EconomyLab
