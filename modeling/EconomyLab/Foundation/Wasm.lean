import Mathlib

/-!
# A core of WebAssembly

Structured control without block results, two integer types, locals and loads from one linear memory.
A run is given the rounds each of its loops may go; a loop that needs more leaves the run unfinished.
-/

namespace EconomyLab.Foundation.Wasm

inductive ValType
  | i32
  | i64
deriving DecidableEq

inductive Value
  | i32 (n : BitVec 32)
  | i64 (n : BitVec 64)
deriving DecidableEq

def Value.type : Value → ValType
  | .i32 _ => .i32
  | .i64 _ => .i64

def ValType.zero : ValType → Value
  | .i32 => .i32 0
  | .i64 => .i64 0

inductive Instr
  | unreachable
  | block (body : List Instr)
  | loop (body : List Instr)
  | ifThen (body : List Instr)
  | br (label : Nat)
  | brIf (label : Nat)
  | localGet (index : Nat)
  | localSet (index : Nat)
  | i64Load (align offset : Nat)
  | i32Const (n : BitVec 32)
  | i64Const (n : BitVec 64)
  | i32GeU
  | i64LtS
  | i32Add
  | i32Shl
  | i64Add
  | i64And
  | i64Xor

abbrev Memory := List UInt8

/-- Bytes, least significant first. -/
def little : List UInt8 → Nat
  | [] => 0
  | b :: bytes => b.toNat + 256 * little bytes

/-- The lowest `width` bytes of a number, least significant first. -/
def bytesOf : Nat → Nat → List UInt8
  | 0, _ => []
  | width + 1, n => UInt8.ofNat n :: bytesOf width (n / 256)

/-- Eight bytes from an address, unless they reach beyond the memory. -/
def Memory.load (memory : Memory) (address : Nat) : Option (BitVec 64) :=
  if address + 8 ≤ memory.length then some (BitVec.ofNat 64 (little ((memory.drop address).take 8)))
    else none

theorem bytesOf_length (width n : Nat) : (bytesOf width n).length = width := by
  induction width generalizing n with
  | zero => rfl
  | succ width ih => rw [bytesOf, List.length_cons, ih]

theorem little_bytesOf (width n : Nat) : little (bytesOf width n) = n % 256 ^ width := by
  induction width generalizing n with
  | zero => rw [Nat.pow_zero, Nat.mod_one]; rfl
  | succ width ih =>
    have hpow : 256 ^ (width + 1) = 256 * 256 ^ width := Nat.pow_succ'
    rw [bytesOf, little, ih, UInt8.toNat_ofNat', hpow, Nat.mod_mul]

structure Frame where
  stack : List Value
  locals : List Value

inductive Outcome
  | done (frame : Frame)
  | branch (label : Nat) (frame : Frame)
  | trap
  | stuck
  | unfinished

/-- The end of a block that was entered over `stack`: its label is the innermost one. -/
def leave (stack : List Value) : Outcome → Outcome
  | .done frame => if frame.stack = [] then .done { frame with stack } else .stuck
  | .branch 0 frame => .done { frame with stack }
  | .branch (label + 1) frame => .branch label frame
  | .trap => .trap
  | .stuck => .stuck
  | .unfinished => .unfinished

/-- A branch to the label of a loop starts the next round. -/
def again (body : Frame → Outcome) : Nat → Frame → Outcome
  | 0, _ => .unfinished
  | rounds + 1, frame =>
    match body frame with
    | .branch 0 frame => again body rounds { frame with stack := [] }
    | outcome => outcome

def i32Binary (op : BitVec 32 → BitVec 32 → BitVec 32) (frame : Frame) : Outcome :=
  match frame.stack with
  | .i32 b :: .i32 a :: stack => .done { frame with stack := .i32 (op a b) :: stack }
  | _ => .stuck

def i64Binary (op : BitVec 64 → BitVec 64 → BitVec 64) (frame : Frame) : Outcome :=
  match frame.stack with
  | .i64 b :: .i64 a :: stack => .done { frame with stack := .i64 (op a b) :: stack }
  | _ => .stuck

def truth (b : Bool) : Value := .i32 (if b then 1 else 0)

mutual

def Instr.run (memory : Memory) (rounds : Nat) : Instr → Frame → Outcome
  | .unreachable, _ => .trap
  | .block body, frame => leave frame.stack (runAll memory rounds body { frame with stack := [] })
  | .loop body, frame =>
    leave frame.stack (again (runAll memory rounds body) rounds { frame with stack := [] })
  | .ifThen body, frame =>
    match frame.stack with
    | .i32 c :: stack =>
      if c = 0 then .done { frame with stack }
      else leave stack (runAll memory rounds body { frame with stack := [] })
    | _ => .stuck
  | .br label, frame => .branch label frame
  | .brIf label, frame =>
    match frame.stack with
    | .i32 c :: stack => if c = 0 then .done { frame with stack } else .branch label { frame with stack }
    | _ => .stuck
  | .localGet index, frame =>
    match frame.locals[index]? with
    | some value => .done { frame with stack := value :: frame.stack }
    | none => .stuck
  | .localSet index, frame =>
    match frame.stack with
    | value :: stack =>
      if index < frame.locals.length then .done ⟨stack, frame.locals.set index value⟩ else .stuck
    | [] => .stuck
  | .i64Load _ offset, frame =>
    match frame.stack with
    | .i32 base :: stack =>
      match memory.load (base.toNat + offset) with
      | some n => .done { frame with stack := .i64 n :: stack }
      | none => .trap
    | _ => .stuck
  | .i32Const n, frame => .done { frame with stack := .i32 n :: frame.stack }
  | .i64Const n, frame => .done { frame with stack := .i64 n :: frame.stack }
  | .i32GeU, frame =>
    match frame.stack with
    | .i32 b :: .i32 a :: stack => .done { frame with stack := truth (b ≤ a) :: stack }
    | _ => .stuck
  | .i64LtS, frame =>
    match frame.stack with
    | .i64 b :: .i64 a :: stack => .done { frame with stack := truth (a.slt b) :: stack }
    | _ => .stuck
  | .i32Add, frame => i32Binary (· + ·) frame
  | .i32Shl, frame => i32Binary (fun a b => a <<< (b.toNat % 32)) frame
  | .i64Add, frame => i64Binary (· + ·) frame
  | .i64And, frame => i64Binary (· &&& ·) frame
  | .i64Xor, frame => i64Binary (· ^^^ ·) frame

def runAll (memory : Memory) (rounds : Nat) : List Instr → Frame → Outcome
  | [], frame => .done frame
  | instr :: rest, frame =>
    match instr.run memory rounds frame with
    | .done frame => runAll memory rounds rest frame
    | outcome => outcome

end

theorem runAll_single (memory : Memory) (rounds : Nat) (instr : Instr) (frame : Frame) :
    runAll memory rounds [instr] frame = instr.run memory rounds frame := by
  rw [runAll]
  cases instr.run memory rounds frame <;> rfl

structure FuncType where
  params : List ValType
  results : List ValType
deriving DecidableEq

structure Code where
  locals : List ValType
  body : List Instr

inductive Export
  | func (index : Nat)
  | memory (index : Nat)
deriving DecidableEq

structure Module where
  types : List FuncType
  functions : List Nat
  memories : List Nat
  exports : List (List UInt8 × Export)
  codes : List Code

inductive Answer
  | returned (values : List Value)
  | trap
  | stuck
  | unfinished
deriving DecidableEq

/-- The results are what is left on the stack, deepest first. -/
def Outcome.answer (type : FuncType) : Outcome → Answer
  | .done frame => if frame.stack.length = type.results.length then
    .returned frame.stack.reverse else .stuck
  | .branch 0 frame =>
    if type.results.length ≤ frame.stack.length then
      .returned (frame.stack.take type.results.length).reverse
    else .stuck
  | .branch _ _ => .stuck
  | .trap => .trap
  | .stuck => .stuck
  | .unfinished => .unfinished

def call (type : FuncType) (code : Code) (memory : Memory) (rounds : Nat) (args : List Value) : Answer :=
  if args.map Value.type = type.params then
    (runAll memory rounds code.body ⟨[], args ++ code.locals.map ValType.zero⟩).answer type
  else .stuck

def Module.exported (m : Module) (name : List UInt8) : Option (FuncType × Code) := do
  let (_, .func index) ← m.exports.find? (·.1 = name) | none
  let typeIndex ← m.functions[index]?
  let type ← m.types[typeIndex]?
  let code ← m.codes[index]?
  return (type, code)

def Module.invoke (m : Module) (name : List UInt8) (memory : Memory) (rounds : Nat) (args : List Value) :
    Answer :=
  match m.exported name with
  | some (type, code) => call type code memory rounds args
  | none => .stuck

/-! ## The binary format -/

abbrev Decoder := StateT (List UInt8) Option

namespace Decoder

variable {α : Type}

def byte : Decoder UInt8
  | [] => none
  | b :: rest => some (b, rest)

def unsigned : Nat → Decoder Nat
  | 0 => failure
  | width + 1 => do
    let b ← byte
    if b < 128 then pure b.toNat
    else do
      let high ← unsigned width
      pure (b.toNat - 128 + 128 * high)

def signed : Nat → Decoder Int
  | 0 => failure
  | width + 1 => do
    let b ← byte
    if b < 64 then pure b.toNat
    else if b < 128 then pure (b.toNat - 128)
    else do
      let high ← signed width
      pure (b.toNat - 128 + 128 * high)

def u32 : Decoder Nat := do
  let n ← unsigned 5
  if n < 2 ^ 32 then pure n else failure

def expect (b : UInt8) : Decoder Unit := do
  let found ← byte
  if found = b then pure () else failure

def times (item : Decoder α) : Nat → Decoder (List α)
  | 0 => pure []
  | n + 1 => do
    let first ← item
    let rest ← times item n
    pure (first :: rest)

def vector (item : Decoder α) : Decoder (List α) := do
  let n ← u32
  times item n

/-- The item takes all of the next `size` bytes. -/
def sized (item : Decoder α) : Decoder α := do
  let size ← u32
  let bytes ← get
  if bytes.length < size then failure
  else
    match item.run (bytes.take size) with
    | some (a, []) => do
      set (bytes.drop size)
      pure a
    | _ => failure

def valType : Decoder ValType := do
  let b ← byte
  if b = 0x7f then pure .i32 else if b = 0x7e then pure .i64 else failure

def funcType : Decoder FuncType := do
  expect 0x60
  let params ← vector valType
  let results ← vector valType
  pure ⟨params, results⟩

def limits : Decoder Nat := do
  expect 0
  u32

def exportEntry : Decoder (List UInt8 × Export) := do
  let name ← vector byte
  let kind ← byte
  let index ← u32
  if kind = 0 then pure (name, .func index) else if kind = 2 then pure (name, .memory index) else failure

/-- One instruction by its opcode; a nested body is read by `body`. -/
def instr (body : Decoder (List Instr)) (opcode : UInt8) : Decoder Instr :=
  match opcode.toNat with
  | 0x00 => pure .unreachable
  | 0x02 => do expect 0x40; pure (.block (← body))
  | 0x03 => do expect 0x40; pure (.loop (← body))
  | 0x04 => do expect 0x40; pure (.ifThen (← body))
  | 0x0c => do pure (.br (← u32))
  | 0x0d => do pure (.brIf (← u32))
  | 0x20 => do pure (.localGet (← u32))
  | 0x21 => do pure (.localSet (← u32))
  | 0x29 => do pure (.i64Load (← u32) (← u32))
  | 0x41 => do pure (.i32Const (BitVec.ofInt 32 (← signed 5)))
  | 0x42 => do pure (.i64Const (BitVec.ofInt 64 (← signed 10)))
  | 0x4f => pure .i32GeU
  | 0x53 => pure .i64LtS
  | 0x6a => pure .i32Add
  | 0x74 => pure .i32Shl
  | 0x7c => pure .i64Add
  | 0x83 => pure .i64And
  | 0x85 => pure .i64Xor
  | _ => failure

/-- Instructions up to their end, of at most so many bytes. -/
def expr : Nat → Decoder (List Instr)
  | 0 => failure
  | size + 1 => do
    let opcode ← byte
    if opcode = 0x0b then pure []
    else do
      let first ← instr (expr size) opcode
      let rest ← expr size
      pure (first :: rest)

def localGroup : Decoder (List ValType) := do
  let n ← u32
  let type ← valType
  pure (List.replicate n type)

def code : Decoder Code := do
  let groups ← vector localGroup
  let bytes ← get
  let body ← expr bytes.length
  pure ⟨groups.flatten, body⟩

def sectionOf (id : UInt8) (payload : Decoder α) : Decoder α := do
  expect id
  sized payload

def wholeModule : Decoder Module := do
  let header ← times byte 8
  if header ≠ [0x00, 0x61, 0x73, 0x6d, 0x01, 0x00, 0x00, 0x00] then failure
  else do
    let types ← sectionOf 1 (vector funcType)
    let functions ← sectionOf 3 (vector u32)
    let memories ← sectionOf 5 (vector limits)
    let exports ← sectionOf 7 (vector exportEntry)
    let codes ← sectionOf 10 (vector (sized code))
    if functions.length = codes.length then pure ⟨types, functions, memories, exports, codes⟩ else failure

end Decoder

/-- The module whose binary form these bytes are. -/
def decode (bytes : List UInt8) : Option Module :=
  match Decoder.wholeModule.run bytes with
  | some (m, []) => some m
  | _ => none

/-- A loop whose invariant holds ends in what its body establishes, before the measure runs out. -/
theorem again_total {body : Frame → Outcome} (invariant : Frame → Prop) (measure : Frame → Nat)
    (post : Outcome → Prop)
    (hround : ∀ frame, invariant frame →
      (∃ next, body frame = .branch 0 next ∧ invariant { next with stack := [] } ∧
        measure { next with stack := [] } < measure frame) ∨
      ((∀ next, body frame ≠ .branch 0 next) ∧ post (body frame)))
    {rounds : Nat} {frame : Frame} (h : invariant frame) (hrounds : measure frame < rounds) :
    post (again body rounds frame) := by
  induction rounds generalizing frame with
  | zero => exact absurd hrounds (Nat.not_lt_zero _)
  | succ rounds ih =>
    rw [again]
    rcases hround frame h with ⟨next, hnext, hinvariant, hmeasure⟩ | ⟨hleaves, hpost⟩
    · rw [hnext]
      exact ih hinvariant (by omega)
    · split
      · rename_i next hnext
        exact absurd hnext (hleaves next)
      · exact hpost

end EconomyLab.Foundation.Wasm
