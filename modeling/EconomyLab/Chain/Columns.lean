import EconomyLab.Chain.FoldKernel

/-!
# Resident columns

An account's deltas sit in a buffer that doubles when it is full. Short columns are summed in a plain
loop, long ones by the fold kernel, or by the reference where there is no WebAssembly. All three agree.
-/

namespace EconomyLab

open Foundation Foundation.Wasm

/-! ## The growing buffer -/

structure I64Column where
  buffer : List (BitVec 64)
  size : Nat

namespace I64Column

def create (capacity : Nat) : I64Column := ⟨List.replicate capacity 0, 0⟩

/-- A value is stored modulo 2 ^ 64. -/
def push (column : I64Column) (value : Int) : I64Column :=
  let buffer :=
    if column.size = column.buffer.length then column.buffer ++ List.replicate column.buffer.length 0
    else column.buffer
  ⟨buffer.set column.size (BitVec.ofInt 64 value), column.size + 1⟩

def pop (column : I64Column) : I64Column :=
  if 0 < column.size then { column with size := column.size - 1 } else column

def view (column : I64Column) : List (BitVec 64) := column.buffer.take column.size

end I64Column

inductive ColumnStep
  | push (value : Int)
  | pop

def ColumnStep.run (column : I64Column) : ColumnStep → I64Column
  | .push value => column.push value
  | .pop => column.pop

def runColumn (steps : List ColumnStep) : I64Column := steps.foldl ColumnStep.run (I64Column.create 8)

/-- `none` has not been tried yet, `some none` is a runtime without WebAssembly. -/
abbrev Folder := Option (Option Memory)

def resolveFolder (webAssembly : Bool) (folder : Folder) : Option Memory :=
  folder.getD (if webAssembly then some (List.replicate PAGE_BYTES 0) else none)

def foldOverflow : Fault :=
  fault .amountOverflow "Re-derived balance leaves the 64-bit range the ledger stores."

def FoldError.fault : FoldError → Fault
  | .range => foldOverflow
  | .invalid => plainError "the folder is not a module"
  | .unfinished => plainError "the fold did not end"

def foldResident (webAssembly : Bool) (folder : Folder) (column : I64Column) : Except Fault Int × Folder :=
  if column.view.length < FOLD_MIN_LEGS then (.ok (column.view.map BitVec.toInt).sum, folder)
  else
    match resolveFolder webAssembly folder with
    | some memory =>
      let folded := Fold.fold memory (.column column.view)
      (folded.1.mapError FoldError.fault, some (some folded.2))
    | none => ((foldRef (column.view.map BitVec.toInt)).mapError fun _ => foldOverflow, some none)

def runFolds (webAssembly : Bool) (columns : List I64Column) : Folder :=
  columns.foldl (fun folder column => (foldResident webAssembly folder column).2) none

/-! ## A column is a stack -/

def ColumnStep.onList (values : List Int) : ColumnStep → List Int
  | .push value => values ++ [value]
  | .pop => values.dropLast

def stackOf (steps : List ColumnStep) : List Int := steps.foldl ColumnStep.onList []

structure I64Column.Holds (column : I64Column) (values : List Int) : Prop where
  view : column.view = values.map (BitVec.ofInt 64)
  size : column.size = values.length
  fits : column.size ≤ column.buffer.length
  room : 0 < column.buffer.length

theorem take_set_end {α : Type} {xs : List α} {n : Nat} (h : n < xs.length) (a : α) :
    (xs.set n a).take (n + 1) = xs.take n ++ [a] := by
  rw [List.take_add_one, List.take_set_of_le (Nat.le_refl n), List.getElem?_set_self h]
  rfl

theorem I64Column.Holds.push {column : I64Column} {values : List Int} (h : column.Holds values)
    (value : Int) :
    (column.push value).Holds (values ++ [value]) := by
  obtain ⟨hview, hsize, hfits, hroom⟩ := h
  unfold I64Column.view at hview
  have hstored : ∀ buffer : List (BitVec 64), column.size < buffer.length →
      buffer.take column.size = column.buffer.take column.size →
      (⟨buffer.set column.size (BitVec.ofInt 64 value), column.size + 1⟩ : I64Column).Holds
        (values ++ [value]) := by
    intro buffer hlt hsame
    constructor
    · unfold I64Column.view
      rw [take_set_end hlt, hsame, hview, List.map_append]
      rfl
    · rw [List.length_append, hsize]
      rfl
    · rw [List.length_set]
      exact hlt
    · rw [List.length_set]
      exact Nat.lt_of_le_of_lt (Nat.zero_le _) hlt
  unfold I64Column.push
  by_cases hfull : column.size = column.buffer.length
  · rw [if_pos hfull]
    apply hstored
    · rw [List.length_append, List.length_replicate]
      omega
    · exact List.take_append_of_le_length hfits
  · rw [if_neg hfull]
    exact hstored column.buffer (by omega) rfl

theorem I64Column.Holds.pop {column : I64Column} {values : List Int} (h : column.Holds values) :
    column.pop.Holds values.dropLast := by
  obtain ⟨hview, hsize, hfits, hroom⟩ := h
  unfold I64Column.view at hview
  unfold I64Column.pop
  by_cases hsome : 0 < column.size
  · rw [if_pos hsome]
    constructor
    · unfold I64Column.view
      simp only
      rw [List.map_dropLast, ← hview, List.dropLast_eq_take, List.take_take, List.length_take]
      congr 1
      omega
    · rw [List.length_dropLast, hsize]
    · exact Nat.le_trans (Nat.sub_le _ _) hfits
    · exact hroom
  · have hnil : values = [] := List.eq_nil_of_length_eq_zero (by omega)
    rw [if_neg hsome, hnil]
    rw [hnil] at hview hsize
    exact ⟨hview, hsize, hfits, hroom⟩

theorem runColumn_holds (steps : List ColumnStep) : (runColumn steps).Holds (stackOf steps) := by
  unfold runColumn stackOf
  induction steps using List.reverseRecOn with
  | nil => exact ⟨rfl, rfl, by decide, by decide⟩
  | append_singleton steps step ih =>
    rw [List.foldl_append, List.foldl_append]
    cases step with
    | push value => exact ih.push value
    | pop => exact ih.pop

theorem stackOf_i64 {steps : List ColumnStep} (h : ∀ value, .push value ∈ steps → I64 value) :
    ∀ value ∈ stackOf steps, I64 value := by
  unfold stackOf
  induction steps using List.reverseRecOn with
  | nil =>
    intro value hv
    cases hv
  | append_singleton steps step ih =>
    have hbefore := ih fun value hv => h value (List.mem_append_left _ hv)
    intro value hv
    rw [List.foldl_append] at hv
    cases step with
    | push pushed =>
      rcases List.mem_append.mp hv with hv | hv
      · exact hbefore value hv
      · rw [List.mem_singleton.mp hv]
        exact h pushed (List.mem_append_right _ List.mem_cons_self)
    | pop => exact hbefore value ((List.dropLast_sublist _).subset hv)

theorem resolveFolder_paged {webAssembly : Bool} {folder : Folder}
    (h : ∀ memory, folder = some (some memory) → Paged memory) {memory : Memory}
    (hmemory : resolveFolder webAssembly folder = some memory) : Paged memory := by
  unfold resolveFolder at hmemory
  cases folder with
  | some resolved => exact h memory (congrArg some hmemory)
  | none =>
    cases webAssembly with
    | true =>
      cases hmemory
      exact runFolder_paged []
    | false => cases hmemory

theorem runFolds_paged (webAssembly : Bool) (columns : List I64Column) :
    ∀ memory, runFolds webAssembly columns = some (some memory) → Paged memory := by
  unfold runFolds
  induction columns using List.reverseRecOn with
  | nil =>
    intro memory hmemory
    cases hmemory
  | append_singleton columns column ih =>
    intro memory hmemory
    rw [List.foldl_append, List.foldl_cons, List.foldl_nil, foldResident] at hmemory
    split at hmemory
    · exact ih memory hmemory
    · split at hmemory
      · rename_i before hbefore
        cases hmemory
        exact fold_paged (resolveFolder_paged ih hbefore) _
      · cases hmemory

/-- Whatever was folded before and with or without WebAssembly, a column sums to what the reference makes
of the deltas that were pushed and not popped. -/
theorem resident_columns_agree (webAssembly : Bool) (folded : List I64Column) {steps : List ColumnStep}
    (hvalues : ∀ value, .push value ∈ steps → I64 value) (hshort : 8 * (stackOf steps).length < 2 ^ 32) :
    (foldResident webAssembly (runFolds webAssembly folded) (runColumn steps)).1 =
      foldColumn (stackOf steps) := by
  have hview : (runColumn steps).view.map BitVec.toInt = stackOf steps := by
    rw [(runColumn_holds steps).view, map_toInt_ofInt (stackOf_i64 hvalues)]
  have hlength : (runColumn steps).view.length = (stackOf steps).length := by
    rw [← hview, List.length_map]
  unfold foldResident foldColumn
  rw [hlength]
  by_cases hfew : (stackOf steps).length < FOLD_MIN_LEGS
  · rw [if_pos hfew, if_pos hfew, hview]
  · rw [if_neg hfew, if_neg hfew]
    split
    · rename_i memory hmemory
      have hpaged := resolveFolder_paged (runFolds_paged webAssembly folded) hmemory
      have hfits : FoldInput.Fits memory (.column (runColumn steps).view) := by
        change 8 * (runColumn steps).view.length < 2 ^ 32
        rw [hlength]
        exact hshort
      have hfold := fold_eq hpaged hfits
      simp only [hfold, FoldInput.values, hview]
      cases foldRef (stackOf steps) <;> rfl
    · rw [hview]
      cases foldRef (stackOf steps) <;> rfl

/-- A column that outgrew its buffer and lost its last delta again. -/
theorem resident_columns_agree_regrown :
    (foldResident true (runFolds true [runColumn [.push 7]]) (runColumn
      ((List.range 9).map (fun n => .push n) ++ [.pop]))).1 = .ok 28 := by
  rw [resident_columns_agree true [runColumn [.push 7]]]
  · decide
  · intro value hv
    rcases List.mem_append.mp hv with hv | hv
    · obtain ⟨n, hn, heq⟩ := List.mem_map.mp hv
      cases heq
      have hsmall := List.mem_range.mp hn
      unfold I64
      omega
    · cases List.mem_singleton.mp hv
  · decide

end EconomyLab
