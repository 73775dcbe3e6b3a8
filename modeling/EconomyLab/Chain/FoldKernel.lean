import EconomyLab.Chain.Integrity
import EconomyLab.Foundation.Wasm

/-!
# The fold kernel

The balance fold is assembled byte by byte as a WebAssembly module and run over its linear memory. It
answers as the reference fold does: the sum, or a trap at the first running total that no longer fits.
-/

namespace EconomyLab

open Foundation Foundation.Wasm

/-! ## The assembler -/

/-- The digits of an unsigned LEB128 number, within a bound on their count. -/
def ulebDigits : Nat → Nat → List UInt8
  | 0, _ => []
  | bound + 1, n =>
    if n / 128 = 0 then [UInt8.ofNat (n % 128)] else UInt8.ofNat (n % 128 + 128) :: ulebDigits
      bound (n / 128)

def uleb (value : Nat) : List UInt8 := ulebDigits (value + 1) value

def wasmSection (id : UInt8) (payload : List UInt8) : List UInt8 := id :: (uleb payload.length ++ payload)

def charCodes (text : String) : List UInt8 := text.toList.map fun c => UInt8.ofNat c.toNat

def wasmName (text : String) : List UInt8 := UInt8.ofNat text.length :: charCodes text

namespace OP

def unreachable : UInt8 := 0x00
def block : UInt8 := 0x02
def loop : UInt8 := 0x03
def ifThen : UInt8 := 0x04
def done : UInt8 := 0x0b
def br : UInt8 := 0x0c
def brIf : UInt8 := 0x0d
def localGet : UInt8 := 0x20
def localSet : UInt8 := 0x21
def i64Load : UInt8 := 0x29
def i32Const : UInt8 := 0x41
def i64Const : UInt8 := 0x42
def i32GeU : UInt8 := 0x4f
def i64LtS : UInt8 := 0x53
def i32Add : UInt8 := 0x6a
def i32Shl : UInt8 := 0x74
def i64Add : UInt8 := 0x7c
def i64And : UInt8 := 0x83
def i64Xor : UInt8 := 0x85
def void : UInt8 := 0x40
def i32 : UInt8 := 0x7f
def i64 : UInt8 := 0x7e
def funcType : UInt8 := 0x60

end OP

def foldBody : List UInt8 :=
  let ptr := 0
  let len := 1
  let sum := 2
  let v := 3
  let s := 4
  let stop := 5
  [2, 3, OP.i64, 1, OP.i32,
    OP.localGet, ptr, OP.localGet, len, OP.i32Const, 3, OP.i32Shl, OP.i32Add,
    OP.localSet, stop,
    OP.block, OP.void,
    OP.loop, OP.void,
    OP.localGet, ptr, OP.localGet, stop, OP.i32GeU, OP.brIf, 1,
    OP.localGet, ptr, OP.i64Load, 3, 0, OP.localSet, v,
    OP.localGet, sum, OP.localGet, v, OP.i64Add, OP.localSet, s,
    OP.localGet, sum, OP.localGet, s, OP.i64Xor,
    OP.localGet, v, OP.localGet, s, OP.i64Xor,
    OP.i64And, OP.i64Const, 0, OP.i64LtS,
    OP.ifThen, OP.void, OP.unreachable, OP.done,
    OP.localGet, s, OP.localSet, sum,
    OP.localGet, ptr, OP.i32Const, 8, OP.i32Add, OP.localSet, ptr,
    OP.br, 0,
    OP.done,
    OP.done,
    OP.localGet, sum,
    OP.done]

def moduleBytes : List UInt8 :=
  [0x00, 0x61, 0x73, 0x6d, 0x01, 0x00, 0x00, 0x00] ++
    wasmSection 1 [1, OP.funcType, 2, OP.i32, OP.i32, 1, OP.i64] ++
    wasmSection 3 [1, 0] ++
    wasmSection 5 [1, 0, 1] ++
    wasmSection 7 ([2] ++ wasmName "memory" ++ [2, 0] ++ wasmName "fold" ++ [0, 0]) ++
    wasmSection 10 ([1] ++ uleb foldBody.length ++ foldBody)

def foldType : FuncType := ⟨[.i32, .i32], [.i64]⟩

/-- One leg: leave at the end of the column, trap where the total wraps, else go round again. -/
def foldRound : List Instr :=
  [.localGet 0, .localGet 5, .i32GeU, .brIf 1,
    .localGet 0, .i64Load 3 0, .localSet 3,
    .localGet 2, .localGet 3, .i64Add, .localSet 4,
    .localGet 2, .localGet 4, .i64Xor,
    .localGet 3, .localGet 4, .i64Xor,
    .i64And, .i64Const 0, .i64LtS,
    .ifThen [.unreachable],
    .localGet 4, .localSet 2,
    .localGet 0, .i32Const 8, .i32Add, .localSet 0,
    .br 0]

def foldCode : Code where
  locals := [.i64, .i64, .i64, .i32]
  body :=
    [.localGet 0, .localGet 1, .i32Const 3, .i32Shl, .i32Add, .localSet 5,
      .block [.loop foldRound],
      .localGet 2]

theorem moduleBytes_length : moduleBytes.length = 125 := by decide +kernel

set_option maxRecDepth 20000 in
theorem decode_moduleBytes : decode moduleBytes =
    some ⟨[foldType], [0], [1], [(charCodes "memory", .memory 0), (charCodes "fold", .func 0)],
      [foldCode]⟩ := by
  rfl

-- From here on the bytes are known by what they decode to.
attribute [irreducible] moduleBytes

/-- The kernel's test: the sum has another sign than both of its terms. -/
theorem wraps_iff (a b : BitVec 64) :
    ((a ^^^ (a + b)) &&& (b ^^^ (a + b))).slt 0#64 = true ↔ ¬I64 (a.toInt + b.toInt) := by
  have hover : a.saddOverflow b = true ↔ ¬I64 (a.toInt + b.toInt) := by
    unfold BitVec.saddOverflow I64
    rw [Bool.or_eq_true, decide_eq_true_eq, decide_eq_true_eq]
    omega
  rw [← hover, BitVec.saddOverflow_eq, BitVec.slt_zero_eq_msb, BitVec.msb_and, BitVec.msb_xor,
    BitVec.msb_xor]
  cases a.msb <;> cases b.msb <;> cases (a + b).msb <;> decide

theorem toInt_add_of_i64 {a b : BitVec 64} (h : I64 (a.toInt + b.toInt)) :
    (a + b).toInt = a.toInt + b.toInt := by
  apply BitVec.toInt_add_of_not_saddOverflow
  unfold I64 at h
  unfold BitVec.saddOverflow
  rw [Bool.or_eq_true, decide_eq_true_eq, decide_eq_true_eq]
  omega

/-- The locals between two rounds. -/
def kernelFrame (ptr len stop : BitVec 32) (sum v s : BitVec 64) : Frame :=
  ⟨[], [.i32 ptr, .i32 len, .i64 sum, .i64 v, .i64 s, .i32 stop]⟩

theorem foldRound_end (memory : Memory) (rounds : Nat) {ptr len stop : BitVec 32} (sum v s : BitVec 64)
    (h : stop ≤ ptr) : runAll memory rounds foldRound (kernelFrame ptr len stop sum v s) =
      .branch 1 (kernelFrame ptr len stop sum v s) := by
  simp [foldRound, runAll, Instr.run, kernelFrame, truth, h]

variable {memory : Memory}

theorem foldRound_leg (rounds : Nat) {ptr len stop : BitVec 32} (sum v s : BitVec 64)
    {leg : BitVec 64} (h : ¬stop ≤ ptr) (hload : memory.load ptr.toNat = some leg) :
    runAll memory rounds foldRound (kernelFrame ptr len stop sum v s) =
      if I64 (sum.toInt + leg.toInt) then
        .branch 0 (kernelFrame (ptr + 8) len stop (sum + leg) leg (sum + leg))
      else .trap := by
  have hwraps := wraps_iff sum leg
  by_cases hfits : I64 (sum.toInt + leg.toInt)
  · simp [foldRound, runAll, Instr.run, kernelFrame, truth, i64Binary, i32Binary, h, hload, hwraps, hfits]
  · simp [foldRound, runAll, Instr.run, kernelFrame, truth, i64Binary, leave, h, hload, hwraps, hfits]

/-! ## The whole column -/

def legsAt (memory : Memory) (ptr : Nat) : Nat → List (BitVec 64)
  | 0 => []
  | len + 1 => (memory.load ptr).getD 0 :: legsAt memory (ptr + 8) len

def foldFrom (sum : Int) (values : List Int) : Except Fault Int :=
  values.foldlM (fun sum value => do
    let value ← checkI64 value
    checkI64 (sum + value)) sum

theorem foldRef_eq (values : List Int) : foldRef values = foldFrom 0 values := rfl

theorem toInt_i64 (v : BitVec 64) : I64 v.toInt := by
  have hlow := BitVec.le_toInt v
  have hhigh := BitVec.toInt_lt (x := v)
  exact ⟨by simpa using hlow, by omega⟩

theorem toInt_ofInt_of_i64 {n : Int} (h : I64 n) : (BitVec.ofInt 64 n).toInt = n := by
  unfold I64 at h
  rw [BitVec.toInt_ofInt]
  exact Int.bmod_eq_of_le (by omega) (by omega)

theorem foldFrom_cons (sum value : Int) (values : List Int) :
    foldFrom sum (value :: values) =
      if I64 value ∧ I64 (sum + value) then foldFrom (sum + value) values
      else .error (plainError "i64 overflow") := by
  by_cases hvalue : I64 value
  · have hv : checkI64 value = .ok value := if_pos hvalue
    by_cases hsum : I64 (sum + value)
    · have hs : checkI64 (sum + value) = .ok (sum + value) := if_pos hsum
      simp [foldFrom, hv, hs, hvalue, hsum, bind, Except.bind]
    · have hs : checkI64 (sum + value) = .error (plainError "i64 overflow") := if_neg hsum
      simp [foldFrom, hv, hs, hsum, bind, Except.bind]
  · have hv : checkI64 value = .error (plainError "i64 overflow") := if_neg hvalue
    simp [foldFrom, hv, hvalue, bind, Except.bind]

/-- How the loop ends: it leaves the block with the total, or traps where the total does not fit. -/
def FoldsTo (expected : Except Fault Int) (outcome : Outcome) : Prop :=
  match expected with
  | .ok total =>
    ∃ ptr len stop sum v s, outcome = .branch 1 (kernelFrame ptr len stop sum v s) ∧ sum.toInt = total
  | .error _ => outcome = .trap

/-- The loop stands before the last `rest` legs, and the fold of these from its total is the whole fold. -/
structure Underway (memory : Memory) (expected : Except Fault Int) (frame : Frame) (start rest : Nat)
    (len : BitVec 32) (sum v s : BitVec 64) : Prop where
  frame : frame = kernelFrame (BitVec.ofNat 32 start) len (BitVec.ofNat 32 (start + 8 * rest)) sum v s
  inside : start + 8 * rest ≤ memory.length
  narrow : start + 8 * rest < 2 ^ 32
  fold : foldFrom sum.toInt ((legsAt memory start rest).map BitVec.toInt) = expected

def legsLeft (frame : Frame) : Nat :=
  match frame.locals with
  | [.i32 ptr, _, _, _, _, .i32 stop] => (stop.toNat - ptr.toNat) / 8
  | _ => 0

theorem legsLeft_kernelFrame {start rest : Nat} (h : start + 8 * rest < 2 ^ 32) (len : BitVec 32)
    (sum v s : BitVec 64) :
    legsLeft (kernelFrame (BitVec.ofNat 32 start) len (BitVec.ofNat 32 (start + 8 * rest)) sum v s) =
      rest := by
  simp only [legsLeft, kernelFrame, BitVec.toNat_ofNat]
  rw [Nat.mod_eq_of_lt h, Nat.mod_eq_of_lt (by omega)]
  omega

theorem Underway.round {expected : Except Fault Int} {frame : Frame} {start rest : Nat}
    {len : BitVec 32} {sum v s : BitVec 64} (h : Underway memory expected frame start rest len sum v s)
    (rounds : Nat) :
    (∃ next, runAll memory rounds foldRound frame = .branch 0 next ∧
      (∃ start rest sum v s, Underway memory expected { next with stack := [] } start rest len sum v s) ∧
      legsLeft { next with stack := [] } < legsLeft frame) ∨
    ((∀ next, runAll memory rounds foldRound frame ≠ .branch 0 next) ∧
      FoldsTo expected (runAll memory rounds foldRound frame)) := by
  obtain ⟨rfl, hinside, hnarrow, hfold⟩ := h
  have hstart : (BitVec.ofNat 32 start).toNat = start := Nat.mod_eq_of_lt (by omega)
  cases rest with
  | zero =>
    have hend := @foldRound_end memory rounds _ len _ sum v s (BitVec.le_refl (BitVec.ofNat 32 start))
    right
    rw [Nat.mul_zero, Nat.add_zero, hend]
    constructor
    · intro next hnext
      cases hnext
    · rw [← hfold]
      exact ⟨_, _, _, _, _, _, rfl, rfl⟩
  | succ rest =>
    have hbefore : ¬BitVec.ofNat 32 (start + 8 * (rest + 1)) ≤ BitVec.ofNat 32 start := by
      rw [BitVec.le_def, hstart, BitVec.toNat_ofNat, Nat.mod_eq_of_lt hnarrow]
      omega
    obtain ⟨leg, hleg⟩ : ∃ leg, memory.load start = some leg := by
      unfold Memory.load
      rw [if_pos (by omega)]
      exact ⟨_, rfl⟩
    rw [legsAt, hleg, Option.getD_some, List.map_cons, foldFrom_cons] at hfold
    rw [foldRound_leg rounds sum v s hbefore (by rw [hstart]; exact hleg)]
    by_cases hfits : I64 (sum.toInt + leg.toInt)
    · rw [if_pos ⟨toInt_i64 leg, hfits⟩] at hfold
      rw [if_pos hfits]
      have hstep : BitVec.ofNat 32 start + 8 = BitVec.ofNat 32 (start + 8) :=
        (BitVec.ofNat_add start 8).symm
      have hstop : start + 8 * (rest + 1) = start + 8 + 8 * rest := by omega
      left
      refine ⟨_, rfl, ⟨start + 8, rest, sum + leg, leg, sum + leg, ?_⟩, ?_⟩
      · constructor
        · rw [hstep, hstop]
          rfl
        · omega
        · omega
        · rw [toInt_add_of_i64 hfits]
          exact hfold
      · have hnow := legsLeft_kernelFrame hnarrow len sum v s
        have hnext := legsLeft_kernelFrame (hstop ▸ hnarrow) len (sum + leg) leg (sum + leg)
        rw [hnow, hstep, hstop]
        exact Nat.lt_of_le_of_lt (Nat.le_of_eq hnext) (Nat.lt_succ_self rest)
    · rw [if_neg (not_and_of_not_right _ hfits)] at hfold
      rw [if_neg hfits]
      right
      constructor
      · intro next hnext
        cases hnext
      · rw [← hfold]
        rfl

/-- The assembled module folds as the reference does, whatever else lies in its memory. -/
theorem fold_kernel (memory : Memory) {ptr len : Nat} (hinside : ptr + 8 * len ≤ memory.length)
    (hnarrow : ptr + 8 * len < 2 ^ 32) {rounds : Nat} (hrounds : len < rounds) :
    ∃ m, decode moduleBytes = some m ∧
      m.invoke (charCodes "fold") memory rounds [.i32 (BitVec.ofNat 32 ptr), .i32 (BitVec.ofNat 32 len)] =
        match foldRef ((legsAt memory ptr len).map BitVec.toInt) with
        | .ok sum => .returned [.i64 (BitVec.ofInt 64 sum)]
        | .error _ => .trap := by
  refine ⟨_, decode_moduleBytes, ?_⟩
  have hloop : FoldsTo (foldRef ((legsAt memory ptr len).map BitVec.toInt))
      (again (runAll memory rounds foldRound) rounds
        (kernelFrame (BitVec.ofNat 32 ptr) (BitVec.ofNat 32 len)
        (BitVec.ofNat 32 (ptr + 8 * len)) 0 0 0)) := by
    apply again_total
      (fun frame => ∃ start rest sum v s,
        Underway memory (foldRef ((legsAt memory ptr len).map BitVec.toInt)) frame start rest
          (BitVec.ofNat 32 len)
          sum v s)
      legsLeft
    · rintro frame ⟨start, rest, sum, v, s, h⟩
      exact h.round rounds
    · exact ⟨ptr, len, 0, 0, 0, rfl, hinside, hnarrow, rfl⟩
    · rw [legsLeft_kernelFrame hnarrow]
      exact hrounds
  have hstop : BitVec.ofNat 32 ptr + BitVec.ofNat 32 len <<< 3 = BitVec.ofNat 32 (ptr + 8 * len) := by
    apply BitVec.eq_of_toNat_eq
    simp only [BitVec.toNat_add, BitVec.toNat_shiftLeft, BitVec.toNat_ofNat, Nat.shiftLeft_eq]
    omega
  have hcall : call foldType foldCode memory rounds
    [.i32 (BitVec.ofNat 32 ptr), .i32 (BitVec.ofNat 32 len)] =
      (runAll memory rounds [.block [.loop foldRound], .localGet 2] (kernelFrame (BitVec.ofNat 32 ptr)
        (BitVec.ofNat 32 len) (BitVec.ofNat 32 (ptr + 8 * len)) 0 0 0)).answer foldType := by
    rw [← hstop]
    rfl
  have hinvoke : ∀ args, Module.invoke ⟨[foldType], [0], [1],
      [(charCodes "memory", .memory 0), (charCodes "fold", .func 0)], [foldCode]⟩ (charCodes "fold")
        memory rounds
        args = call foldType foldCode memory rounds args := fun _ => rfl
  rw [hinvoke, hcall, runAll, Instr.run, runAll_single, Instr.run]
  cases hfold : foldRef ((legsAt memory ptr len).map BitVec.toInt) with
  | ok total =>
    rw [hfold] at hloop
    obtain ⟨p, n, stop, sum, v, s, hout, hsum⟩ := hloop
    simp only [kernelFrame] at hout ⊢
    rw [hout, ← hsum, BitVec.ofInt_toInt]
    rfl
  | error e =>
    rw [hfold] at hloop
    have htrap : again _ _ _ = .trap := hloop
    simp only [kernelFrame] at htrap ⊢
    rw [htrap]
    rfl

def PAGE_BYTES : Nat := 65536

/-- A trap and a memory that cannot grow both reach the caller as a range error. -/
inductive FoldError
  | range
  | invalid
  | unfinished
deriving DecidableEq

/-- A column in a buffer of its own, one that lies in the module's memory, or plain bigints. -/
inductive FoldInput
  | column (values : List (BitVec 64))
  | resident (byteOffset count : Nat)
  | bigints (values : List Int)

/-- The memory grown by whole pages until it holds so many legs. -/
def Fold.view (memory : Memory) (count : Nat) : Except FoldError Memory :=
  if 8 * count ≤ memory.length then .ok memory
  else
    let pages := (8 * count - memory.length + (PAGE_BYTES - 1)) / PAGE_BYTES
    if memory.length + pages * PAGE_BYTES ≤ 2 ^ 32 then
      .ok (memory ++ List.replicate (pages * PAGE_BYTES) 0)
    else .error .range

def Fold.store (memory : Memory) (values : List (BitVec 64)) : Memory :=
  values.flatMap (fun v => bytesOf 8 v.toNat) ++ memory.drop (8 * values.length)

def FoldError.ofAnswer : Answer → Except FoldError Int
  | .returned [.i64 sum] => .ok sum.toInt
  | .trap => .error .range
  | .unfinished => .error .unfinished
  | _ => .error .invalid

def Fold.run (memory : Memory) (ptr count : Nat) : Except FoldError Int :=
  match decode moduleBytes with
  | none => .error .invalid
  | some m => FoldError.ofAnswer
      (m.invoke (charCodes "fold") memory (count + 1) [.i32 (BitVec.ofNat 32 ptr),
        .i32 (BitVec.ofNat 32 count)])

def Fold.fold (memory : Memory) : FoldInput → Except FoldError Int × Memory
  | .resident byteOffset count => (Fold.run memory byteOffset count, memory)
  | .column values =>
    match Fold.view memory values.length with
    | .error e => (.error e, memory)
    | .ok grown =>
      let target := Fold.store grown values
      (Fold.run target 0 values.length, target)
  | .bigints values =>
    match Fold.view memory values.length with
    | .error e => (.error e, memory)
    | .ok grown =>
      let fitting := values.takeWhile fun value => I64 value
      let target := Fold.store grown (fitting.map (BitVec.ofInt 64))
      if fitting.length = values.length then (Fold.run target 0 values.length, target)
        else (.error .range, target)

/-- What an instance goes through: a fold, or bytes its host writes into the memory. -/
inductive FolderStep
  | fold (input : FoldInput)
  | write (offset : Nat) (bytes : List UInt8)

def FolderStep.run (memory : Memory) : FolderStep → Memory
  | .fold input => (Fold.fold memory input).2
  | .write offset bytes =>
    if offset + bytes.length ≤ memory.length then
      memory.take offset ++ bytes ++ memory.drop (offset + bytes.length)
    else memory

/-- A fresh instance has one page of zeros. -/
def runFolder (steps : List FolderStep) : Memory :=
  steps.foldl FolderStep.run (List.replicate PAGE_BYTES 0)

/-! ## A fold answers as the reference does -/

def FoldInput.values (memory : Memory) : FoldInput → List Int
  | .column values => values.map BitVec.toInt
  | .resident byteOffset count => (legsAt memory byteOffset count).map BitVec.toInt
  | .bigints values => values

/-- The input ends before the last address a 32-bit pointer can name, a resident one inside the memory. -/
def FoldInput.Fits (memory : Memory) : FoldInput → Prop
  | .column values => 8 * values.length < 2 ^ 32
  | .resident byteOffset count => byteOffset + 8 * count < 2 ^ 32 ∧ byteOffset + 8 * count ≤ memory.length
  | .bigints values => 8 * values.length < 2 ^ 32

def Paged (memory : Memory) : Prop := PAGE_BYTES ∣ memory.length ∧ memory.length ≤ 2 ^ 32

theorem load_bytesOf (front : Memory) (v : BitVec 64) (back : Memory) :
    (front ++ (bytesOf 8 v.toNat ++ back)).load front.length = some v := by
  have hlen := bytesOf_length 8 v.toNat
  unfold Memory.load
  rw [if_pos (by
    simp only [List.length_append, hlen]; omega), List.drop_left, List.take_left' hlen, little_bytesOf]
  congr 1
  apply BitVec.eq_of_toNat_eq
  rw [BitVec.toNat_ofNat]
  have hv := v.isLt
  omega

theorem legsAt_stored (front : Memory) (values : List (BitVec 64)) (back : Memory) :
    legsAt (front ++ (values.flatMap (fun v => bytesOf 8 v.toNat) ++ back)) front.length values.length =
      values := by
  induction values generalizing front with
  | nil => rfl
  | cons v values ih =>
    have hnext := ih (front ++ bytesOf 8 v.toNat)
    rw [List.length_append, bytesOf_length, List.append_assoc] at hnext
    rw [List.flatMap_cons, List.append_assoc, List.length_cons, legsAt, load_bytesOf,
      Option.getD_some, hnext]

theorem legsAt_store (memory : Memory) (values : List (BitVec 64)) :
    legsAt (Fold.store memory values) 0 values.length = values := legsAt_stored [] values _

theorem store_length {values : List (BitVec 64)} (h : 8 * values.length ≤ memory.length) :
    (Fold.store memory values).length = memory.length := by
  have hflat : (values.flatMap fun v => bytesOf 8 v.toNat).length = 8 * values.length := by
    simp [List.length_flatMap, bytesOf_length, Nat.mul_comm]
  unfold Fold.store
  rw [List.length_append, hflat, List.length_drop]
  omega

theorem view_paged {memory grown : Memory} (hpaged : Paged memory) {count : Nat}
    (h : Fold.view memory count = .ok grown) : Paged grown ∧ 8 * count ≤ grown.length := by
  obtain ⟨⟨k, hk⟩, hmax⟩ := hpaged
  unfold Fold.view PAGE_BYTES at h
  unfold PAGE_BYTES at hk
  split at h
  · rename_i hroom
    cases h
    exact ⟨⟨⟨k, hk⟩, hmax⟩, hroom⟩
  · simp only at h
    split at h
    · rename_i hfits
      cases h
      unfold Paged PAGE_BYTES
      rw [List.length_append, List.length_replicate]
      refine ⟨⟨?_, hfits⟩, by omega⟩
      rw [hk]
      exact Nat.dvd_add (Nat.dvd_mul_right _ _) (Nat.dvd_mul_left _ _)
    · cases h

/-- A paged memory can grow to any column that a 32-bit pointer can pass. -/
theorem view_grows (hpaged : Paged memory) {count : Nat} (h : 8 * count < 2 ^ 32) :
    ∃ grown, Fold.view memory count = .ok grown := by
  obtain ⟨⟨k, hk⟩, hmax⟩ := hpaged
  unfold Fold.view PAGE_BYTES
  unfold PAGE_BYTES at hk
  by_cases hroom : 8 * count ≤ memory.length
  · rw [if_pos hroom]
    exact ⟨memory, rfl⟩
  · have hfits : memory.length + (8 * count - memory.length + (65536 - 1)) / 65536 * 65536 ≤ 2 ^ 32 := by
      omega
    rw [if_neg hroom]
    simp only [if_pos hfits]
    exact ⟨_, rfl⟩

theorem foldFrom_ok {sum total : Int} {values : List Int} (hsum : I64 sum)
    (h : foldFrom sum values = .ok total) :
    I64 total ∧ ∀ value ∈ values, I64 value := by
  induction values generalizing sum with
  | nil =>
    cases h
    exact ⟨hsum, fun _ hv => by cases hv⟩
  | cons value values ih =>
    rw [foldFrom_cons] at h
    split at h
    · rename_i hfits
      have hrest := ih hfits.2 h
      refine ⟨hrest.1, fun v hv => ?_⟩
      rcases List.mem_cons.mp hv with rfl | hv
      · exact hfits.1
      · exact hrest.2 v hv
    · cases h

/-- What a range check answers, read off the reference. -/
def inRange : Except Fault Int → Except FoldError Int
  | .ok sum => .ok sum
  | .error _ => .error .range

theorem runFold_eq {ptr count : Nat} (hinside : ptr + 8 * count ≤ memory.length)
    (hnarrow : ptr + 8 * count < 2 ^ 32) :
    Fold.run memory ptr count = inRange (foldRef ((legsAt memory ptr count).map BitVec.toInt)) := by
  obtain ⟨m, hm, hinvoke⟩ := fold_kernel memory hinside hnarrow (Nat.lt_succ_self count)
  have hrun : Fold.run memory ptr count =
    FoldError.ofAnswer (m.invoke (charCodes "fold") memory (count + 1)
      [.i32 (BitVec.ofNat 32 ptr), .i32 (BitVec.ofNat 32 count)]) := by
    rw [Fold.run, hm]
  rw [hrun, hinvoke]
  cases hfold : foldRef ((legsAt memory ptr count).map BitVec.toInt) with
  | error e => rfl
  | ok sum =>
    have hsum := (foldFrom_ok (by decide) hfold).1
    exact congrArg Except.ok (toInt_ofInt_of_i64 hsum)

theorem foldRef_overflow {values : List Int} (h : ∃ value ∈ values, ¬I64 value) :
    inRange (foldRef values) = .error .range := by
  cases hfold : foldRef values with
  | error e => rfl
  | ok total =>
    obtain ⟨value, hmem, hout⟩ := h
    exact absurd ((foldFrom_ok (by decide) hfold).2 value hmem) hout

theorem takeWhile_i64 {values : List Int} (h : ∀ value ∈ values, I64 value) :
    (values.takeWhile fun value => I64 value) = values :=
  List.takeWhile_eq_self_iff.mpr fun value hv => decide_eq_true (h value hv)

theorem map_toInt_ofInt {values : List Int} (h : ∀ value ∈ values, I64 value) :
    (values.map (BitVec.ofInt 64)).map BitVec.toInt = values := by
  rw [List.map_map]
  exact (List.map_congr_left fun value hv => toInt_ofInt_of_i64 (h value hv)).trans (List.map_id values)

theorem takeWhile_i64_short {values : List Int} (h : ¬∀ value ∈ values, I64 value) :
    (values.takeWhile fun value => I64 value).length ≠ values.length := by
  intro heq
  have hself := List.IsPrefix.eq_of_length (List.takeWhile_prefix _) heq
  apply h
  intro value hv
  exact of_decide_eq_true (List.takeWhile_eq_self_iff.mp hself value hv)

theorem fold_eq (hpaged : Paged memory) {input : FoldInput} (h : input.Fits memory) :
    (Fold.fold memory input).1 = inRange (foldRef (input.values memory)) := by
  cases input with
  | resident byteOffset count =>
    simp only [Fold.fold, FoldInput.values]
    exact runFold_eq h.2 h.1
  | column values =>
    obtain ⟨grown, hgrown⟩ := view_grows hpaged h
    have hroom := (view_paged hpaged hgrown).2
    have hlen := store_length hroom
    have hnarrow : 0 + 8 * values.length < 2 ^ 32 := by
      rw [Nat.zero_add]
      exact h
    simp only [Fold.fold, hgrown, FoldInput.values]
    rw [runFold_eq (by omega) hnarrow, legsAt_store]
  | bigints values =>
    obtain ⟨grown, hgrown⟩ := view_grows hpaged h
    simp only [Fold.fold, hgrown, FoldInput.values]
    by_cases hall : ∀ value ∈ values, I64 value
    · have hroom : 8 * (values.map (BitVec.ofInt 64)).length ≤ grown.length := by
        rw [List.length_map]
        exact (view_paged hpaged hgrown).2
      have hlen := store_length hroom
      have hnarrow : 0 + 8 * values.length < 2 ^ 32 := by
        rw [Nat.zero_add]
        exact h
      have hlegs := legsAt_store grown (values.map (BitVec.ofInt 64))
      rw [List.length_map] at hlegs hroom
      rw [takeWhile_i64 hall, if_pos rfl, runFold_eq (by omega) hnarrow, hlegs,
        map_toInt_ofInt hall]
    · rw [if_neg (takeWhile_i64_short hall)]
      push Not at hall
      exact (foldRef_overflow hall).symm

theorem fold_paged (hpaged : Paged memory) (input : FoldInput) : Paged (Fold.fold memory input).2 := by
  have hstored : ∀ {grown : Memory} {values : List (BitVec 64)}, Paged grown →
      8 * values.length ≤ grown.length → Paged (Fold.store grown values) := by
    intro grown values hpages hroom
    unfold Paged
    rw [store_length hroom]
    exact hpages
  cases input with
  | resident byteOffset count => exact hpaged
  | column values =>
    cases hview : Fold.view memory values.length with
    | error e =>
      simp only [Fold.fold, hview]
      exact hpaged
    | ok grown =>
      obtain ⟨hpages, hroom⟩ := view_paged hpaged hview
      simp only [Fold.fold, hview]
      exact hstored hpages hroom
  | bigints values =>
    cases hview : Fold.view memory values.length with
    | error e =>
      simp only [Fold.fold, hview]
      exact hpaged
    | ok grown =>
      obtain ⟨hpages, hroom⟩ := view_paged hpaged hview
      have hshort : (values.takeWhile fun value => I64 value).length ≤ values.length :=
        (List.takeWhile_prefix _).length_le
      have hkept : Paged (Fold.store grown
          ((values.takeWhile fun value => I64 value).map (BitVec.ofInt 64))) := by
        apply hstored hpages
        rw [List.length_map]
        omega
      simp only [Fold.fold, hview]
      split
      · exact hkept
      · exact hkept

theorem FolderStep.run_paged (hpaged : Paged memory) (step : FolderStep) : Paged (step.run memory) := by
  cases step with
  | fold input => exact fold_paged hpaged input
  | write offset bytes =>
    simp only [FolderStep.run]
    split
    · rename_i hinside
      unfold Paged
      simp only [List.length_append, List.length_take, List.length_drop]
      have hlen : min offset memory.length + bytes.length + (memory.length - (offset + bytes.length)) =
          memory.length := by
        omega
      rw [hlen]
      exact hpaged
    · exact hpaged

theorem runFolder_paged (steps : List FolderStep) : Paged (runFolder steps) := by
  have hstart : Paged (List.replicate PAGE_BYTES 0) := by
    unfold Paged
    rw [List.length_replicate]
    exact ⟨Nat.dvd_refl _, by decide⟩
  unfold runFolder
  induction steps using List.reverseRecOn with
  | nil => exact hstart
  | append_singleton steps step ih =>
    rw [List.foldl_append]
    exact step.run_paged ih

/-- Whatever an instance has folded before and its host has written into its memory, its next fold answers
as the reference does: the sum, or a range error where a value or a running total leaves 64 bits. -/
theorem folder_agrees (steps : List FolderStep) {input : FoldInput} (h : input.Fits (runFolder steps)) :
    (Fold.fold (runFolder steps) input).1 = inRange (foldRef (input.values (runFolder steps))) :=
  fold_eq (runFolder_paged steps) h

/-- The second fold runs over what the first one left in memory. -/
theorem folder_agrees_used :
    (Fold.fold (runFolder [.fold (.bigints [7, 8, 9])]) (.column [5, -2])).1 = .ok 3 ∧
    (Fold.fold (runFolder [.fold (.bigints [7, 8, 9])])
      (.column [BitVec.ofInt 64 (2 ^ 63 - 1), 1, -2])).1 =
      .error .range := by
  have hpair : FoldInput.Fits (runFolder [.fold (.bigints [7, 8, 9])]) (.column [5, -2]) :=
    (by decide : 8 * 2 < 2 ^ 32)
  have hthree : FoldInput.Fits (runFolder [.fold (.bigints [7, 8, 9])])
      (.column [BitVec.ofInt 64 (2 ^ 63 - 1), 1, -2]) := (by decide : 8 * 3 < 2 ^ 32)
  constructor
  · exact (folder_agrees _ hpair).trans (by decide)
  · exact (folder_agrees _ hthree).trans (by decide)

end EconomyLab
