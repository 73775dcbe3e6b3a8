import EconomyLab.Economy.Pipeline
import EconomyLab.Stores.Savepoint

/-!
# Batches

A batch runs the same pipeline for every operation inside one transaction, each under its own
savepoint. The velocity attempts of those that rolled back are put back after the commit.
-/

namespace EconomyLab

open Foundation

section Batch

variable {Op : Type} (p : Catalog Op) (env : Env) (config : Config)

/-- A key that came before in the list is refused, and a paused or faulty operation stays out of
the transaction; every operation comes with the reading of its pause gate. -/
def screenBatch : List String → List (Op × Int) → List (Slot ⊕ Op)
  | _, [] => []
  | seen, (op, now) :: ops =>
    let checked : Except Fault Unit := do
      p.validateOperation config op
      p.authorize op
    match checked with
    | .error e => .inl (.error e) :: screenBatch seen ops
    | .ok () =>
      if p.idempotencyKey op ∈ seen then
        .inl (.error (fault .malformedOperation
          "A submitBatch may not carry the same idempotencyKey twice.")) :: screenBatch seen ops
      else
        let entry : Slot ⊕ Op :=
          if (p.actor op).isUser && economyPaused now config then
            .inl (.ok (.rejected (.economyPaused config.pauseEndMs)))
          else .inr op
        entry :: screenBatch (p.idempotencyKey op :: seen) ops

/-- One work item of `runMemoryBatch`: a failing one goes back to its own marks. -/
def batchItem (op : Op) (w : World) : Except Thrown Outcome × World :=
  let done := (runClaimed p env config op).run w
  match rejectionsRollBack done.1 with
  | .ok outcome => (.ok outcome, done.2)
  | .error thrown => (.error thrown, w.rollbackTo done.2)

def batchItems : List Op → World → List (Except Thrown Outcome × Option RiskCheck) × World
  | [], w => ([], w)
  | op :: ops, w =>
    let item := batchItem p env config op w
    let rest := batchItems ops item.2
    ((item.1, staged p env op w) :: rest.1, rest.2)

def settleBatchSlot (result : Except Thrown Outcome) (check : Option RiskCheck) (w : World) :
    Slot × World :=
  match result with
  | .ok outcome => (.ok outcome, w)
  | .error thrown => (thrown.slot, putBack check w)

def settleBatchSlots : List (Except Thrown Outcome × Option RiskCheck) → World → List Slot × World
  | [], w => ([], w)
  | (result, check) :: results, w =>
    let slot := settleBatchSlot result check w
    let rest := settleBatchSlots results slot.2
    (slot.1 :: rest.1, rest.2)

def fillSlots : List (Slot ⊕ Op) → List Slot → List Slot
  | .inl slot :: screened, settled => slot :: fillSlots screened settled
  | .inr _ :: screened, slot :: settled => slot :: fillSlots screened settled
  | _, _ => []

def submitBatch (ops : List (Op × Int)) (w : World) : Except Fault (List Slot) × World :=
  let screened := screenBatch p config [] ops
  let entries := screened.filterMap Sum.getRight?
  if entries.isEmpty then (.ok (fillSlots screened []), w)
  else
    match w.beginAll with
    | none => (.error (plainError "in-memory transactions do not nest"), w)
    | some opened =>
      let ran := batchItems p env config entries opened
      let settled := settleBatchSlots ran.1 ran.2.commitAll
      (.ok (fillSlots screened settled.1), settled.2)

/-- The operations submitted one by one, with what each throws captured. -/
def submitEach : List (Op × Int) → World → List Slot × World
  | [], w => ([], w)
  | (op, now) :: ops, w =>
    let first := submit p env config op now w
    let rest := submitEach ops first.2
    (first.1 :: rest.1, rest.2)

end Batch

end EconomyLab
