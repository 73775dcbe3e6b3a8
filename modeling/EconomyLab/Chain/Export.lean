import EconomyLab.Chain.Prove

/-!
# Verifying an export offline

A file carries every account's links and, at its end, the latest checkpoint. What a file
re-derives, together with a root over its heads and sums, fixes the whole history.
-/

namespace EconomyLab

open Foundation HashTree Text

inductive CheckpointVersion
  | v1
  | v2
deriving DecidableEq, Repr

/-- A signed snapshot; the sum is kept as the number its decimal text stands for. -/
structure Checkpoint where
  id : String
  root : String
  signature : String
  count : Nat
  takenAt : Int
  v : CheckpointVersion
  sum : Option Int
  kid : Option String
deriving DecidableEq

structure Signer where
  sign : List UInt8 → List UInt8
  verify : List UInt8 → List UInt8 → Bool
  kid : Option String

def sumRootPayload (root : RootNode) : Except Fault (List UInt8) := do
  return root.hash ++ (← toInt64BE root.sum)

def merkleRoot (digest : Digest) (heads : List (AccountRef × String)) : Except Fault (List UInt8) := do
  let level := (sortHeads heads).map fun p => digest (0 :: utf8 (p.1 ++ ":" ++ p.2))
  match level with
  | [] => return GENESIS
  | first :: _ =>
    let top ← joinRounds (fun left right => .ok (digest (1 :: (left ++ right)))) level.length level
    return top.headD first

def verifyCheckpoint (digest : Digest) (verify : List UInt8 → List UInt8 → Bool) (view : ChainView)
    (checkpoint : Checkpoint) : Except Fault Bool :=
  match checkpoint.v with
  | .v2 =>
    if view.headSums.length < checkpoint.count then .ok false
    else do
      let root ← merkleSumRoot digest view.headSums
      if toHex root.hash ≠ checkpoint.root then return false
      else if checkpoint.sum ≠ some root.sum then return false
      else return verify (← sumRootPayload root) (← fromHex checkpoint.signature)
  | .v1 =>
    if view.heads.length < checkpoint.count then .ok false
    else do
      let root ← merkleRoot digest view.heads
      if toHex root ≠ checkpoint.root then return false
      else return verify (← fromHex checkpoint.root) (← fromHex checkpoint.signature)

/-! ## Files -/

def EXPORT_FORMAT : String := "economy-lab/ledger-export"

inductive ExportLine
  | header (format : String)
  | link (account : AccountRef) (link : StoredLink)
  | checkpoint (row : Checkpoint)
  | unknown (type : String)

structure ParsedExport where
  lineage : OrderedTable AccountRef (List StoredLink)
  checkpoint : Option Checkpoint

def ParsedExport.empty : ParsedExport := ⟨OrderedTable.empty, none⟩

def ParsedExport.addLink (file : ParsedExport) (account : AccountRef) (link : StoredLink) :
    ParsedExport :=
  { file with lineage := file.lineage.set account ((file.lineage.get account).getD [] ++ [link]) }

/-- The lines after the header. -/
def parseRows : List ExportLine → ParsedExport → Except Fault ParsedExport
  | [], file => .ok file
  | .link account link :: lines, file => parseRows lines (file.addLink account link)
  | .checkpoint row :: lines, file => parseRows lines { file with checkpoint := some row }
  | .header _ :: _, _ => .error (plainError "Unknown export line type: undefined.")
  | .unknown type :: _, _ => .error (plainError ("Unknown export line type: " ++ type ++ "."))

def notAnExport : Fault :=
  plainError ("Not a ledger export: the first line must declare format '" ++ EXPORT_FORMAT ++ "'.")

def parseExport : List ExportLine → Except Fault ParsedExport
  | [] => .error (plainError "Empty input: no export header line.")
  | .header format :: lines =>
    if format = EXPORT_FORMAT then parseRows lines ParsedExport.empty else .error notAnExport
  | _ => .error notAnExport

/-- An account's raw signed leg total over its links. -/
def ownSum (account : AccountRef) (links : List StoredLink) : Int :=
  (links.map fun link => ((amountsOf account link.legs).map Amount.minor).sum).sum

def fileLedger (file : ParsedExport) : ChainView where
  heads := file.lineage.entries.map fun p => (p.1, lastHash "" p.2)
  headSums := file.lineage.entries.map fun p => ⟨p.1, lastHash "" p.2, ownSum p.1 p.2⟩
  lineage := fun account _ => (file.lineage.get account).getD []

structure CheckpointReport where
  present : Bool
  id : Option String
  kid : Option String
  signatureChecked : Bool
  verified : Option Bool

structure VerifyReport where
  chainIntact : Bool
  firstBreak : Option ChainBreak
  accounts : Nat
  checkpoint : CheckpointReport

/-- `ed25519 key bytes signature` is the platform's check under one public key. -/
def verifyExport (ed25519 : String → List UInt8 → List UInt8 → Bool) (digest : Digest)
    (publicKeysHex : List String) (lines : List ExportLine) : Except Fault VerifyReport := do
  let file ← parseExport lines
  let chain ← proveChain digest none (fileLedger file)
  match file.checkpoint with
  | none =>
    return ⟨chain.intact, chain.firstBreak, chain.count, ⟨false, none, none, false, none⟩⟩
  | some row =>
    if publicKeysHex.isEmpty then
      return ⟨chain.intact, chain.firstBreak, chain.count, ⟨true, some row.id, row.kid, false, none⟩⟩
    else
      let verified ← verifyCheckpoint digest
        (fun bytes signature => publicKeysHex.any fun key => ed25519 key bytes signature)
        (fileLedger file) row
      return ⟨chain.intact, chain.firstBreak, chain.count,
        ⟨true, some row.id, row.kid, true, some verified⟩⟩

/-- One entry an account, none of them without links. -/
structure ParsedExport.WellFormed (file : ParsedExport) : Prop where
  keys : file.lineage.keys.Nodup
  links : ∀ p ∈ file.lineage.entries, p.2 ≠ []

theorem ParsedExport.WellFormed.addLink {file : ParsedExport} (h : file.WellFormed)
    (account : AccountRef) (link : StoredLink) : (file.addLink account link).WellFormed := by
  have hkeys := OrderedTable.nodup_keys_set h.keys account ((file.lineage.get account).getD [] ++ [link])
  refine ⟨hkeys, ?_⟩
  rintro ⟨a, links⟩ hp
  have hget := (OrderedTable.get_eq_some hkeys).mpr hp
  rw [OrderedTable.get_set] at hget
  split at hget
  · rw [← Option.some.inj hget]
    simp
  · exact h.links _ ((OrderedTable.get_eq_some h.keys).mp hget)

theorem parseRows_wellFormed {lines : List ExportLine} {file parsed : ParsedExport}
    (hf : file.WellFormed) (h : parseRows lines file = .ok parsed) : parsed.WellFormed := by
  induction lines generalizing file with
  | nil =>
    cases h
    exact hf
  | cons line lines ih =>
    cases line with
    | link account link => exact ih (hf.addLink account link) h
    | checkpoint row =>
      have hf' : ({ file with checkpoint := some row } : ParsedExport).WellFormed := ⟨hf.keys, hf.links⟩
      exact ih hf' h
    | header format => cases h
    | unknown type => cases h

theorem parseExport_wellFormed {lines : List ExportLine} {file : ParsedExport}
    (h : parseExport lines = .ok file) : file.WellFormed := by
  cases lines with
  | nil => cases h
  | cons line lines =>
    cases line with
    | header format =>
      simp only [parseExport] at h
      split at h
      · refine parseRows_wellFormed ⟨?_, ?_⟩ h <;> simp [ParsedExport.empty, OrderedTable.empty,
          OrderedTable.keys]
      · cases h
    | link account link => cases h
    | checkpoint row => cases h
    | unknown type => cases h

end EconomyLab
