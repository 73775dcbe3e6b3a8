import EconomyLab.Chain.Links
import EconomyLab.Chain.SumRoot
import EconomyLab.Foundation.OrderedTable

/-!
# Proving chains

`proveChain` walks every account's lineage and recomputes each link; a checkpoint is
checked against the root recomputed over the heads and sums a ledger reports.
-/

namespace EconomyLab

open Foundation Text

/-- What the provers read of a ledger: `heads`, `headSums` and `lineage`. -/
structure ChainView where
  heads : List (AccountRef × String)
  headSums : List SealHead
  lineage : AccountRef → Option String → List StoredLink

structure ArchiveBoundary where
  anchors : OrderedTable AccountRef String
  rawSums : OrderedTable AccountRef Int

inductive BreakReason
  | brokenLink
  | tamperedHash
deriving DecidableEq, Repr

structure ChainBreak where
  account : AccountRef
  txnId : String
  reason : BreakReason
  expected : String
  actual : String

structure ChainReport where
  intact : Bool
  firstBreak : Option ChainBreak
  count : Nat

/-- One step a link, with the head reached so far, whether the anchor was met and whether
this is the first link. -/
def walkLinks (digest : Digest) (account : AccountRef) (anchor : Option String) :
    List StoredLink → String → Bool → Bool → Except Fault (Option ChainBreak)
  | [], prev, anchorSeen, first =>
    if !anchorSeen && !first then
      .ok (some ⟨account, "", .brokenLink, anchor.getD "", prev⟩)
    else .ok none
  | link :: links, prev, anchorSeen, first =>
    let anchored := first && anchor == some link.prevHash
    let expected := if anchored then link.prevHash else prev
    -- an anchored account may start its walk anywhere, once
    if link.prevHash ≠ expected ∧ (!first || anchor.isNone) then
      .ok (some ⟨account, link.txnId, .brokenLink, expected, link.prevHash⟩)
    else do
      let recomputed ← recomputeLink digest account link
      if recomputed ≠ link.hash then
        return some ⟨account, link.txnId, .tamperedHash, recomputed, link.hash⟩
      else
        walkLinks digest account anchor links link.hash
          (anchorSeen || anchored || anchor == some link.hash) false

def recomputeAccount (digest : Digest) (boundary : Option ArchiveBoundary) (view : ChainView)
    (account : AccountRef) : Except Fault (Option ChainBreak) :=
  let anchor := boundary.bind fun b => b.anchors.get account
  walkLinks digest account anchor (view.lineage account none) GENESIS_HEX anchor.isNone true

def sortHeads (heads : List (AccountRef × String)) : List (AccountRef × String) :=
  heads.insertionSort fun a b => codeUnitLe a.1 b.1

def firstBroken (digest : Digest) (boundary : Option ArchiveBoundary) (view : ChainView) :
    List (AccountRef × String) → Except Fault (Option ChainBreak)
  | [] => .ok none
  | (account, _) :: heads => do
    match ← recomputeAccount digest boundary view account with
    | some broken => return some broken
    | none => firstBroken digest boundary view heads

def proveChain (digest : Digest) (boundary : Option ArchiveBoundary) (view : ChainView) :
    Except Fault ChainReport := do
  match ← firstBroken digest boundary view (sortHeads view.heads) with
  | some broken => return ⟨false, some broken, view.heads.length⟩
  | none => return ⟨true, none, view.heads.length⟩

/-! ## What an unbroken walk says -/

/-- Each link extends the head before it and re-derives. -/
def Rederives (digest : Digest) (account : AccountRef) : String → List StoredLink → Prop
  | _, [] => True
  | prev, link :: links =>
    link.prevHash = prev ∧ recomputeLink digest account link = .ok link.hash ∧
      Rederives digest account link.hash links

/-- The head a walk ends at. -/
def lastHash (prev : String) (links : List StoredLink) : String :=
  (links.getLast?.map StoredLink.hash).getD prev

variable {links : List StoredLink} (prev : String) {boundary : Option ArchiveBoundary}
  {view : ChainView}

@[simp] theorem lastHash_nil : lastHash prev [] = prev := rfl

@[simp] theorem lastHash_cons (link : StoredLink) (links : List StoredLink) :
    lastHash prev (link :: links) = lastHash link.hash links := by
  cases links <;> simp [lastHash, List.getLast?_cons]

theorem lastHash_append (links more : List StoredLink) :
    lastHash prev (links ++ more) = lastHash (lastHash prev links) more := by
  induction links generalizing prev with
  | nil => rfl
  | cons link links ih => simp [ih]

variable {digest : Digest} {account : AccountRef}

theorem rederives_append {prev : String}
    {links more : List StoredLink} : Rederives digest account prev (links ++ more) ↔
      Rederives digest account prev links ∧ Rederives digest account (lastHash prev links) more := by
  induction links generalizing prev with
  | nil => simp [Rederives]
  | cons link links ih =>
    simp only [List.cons_append, Rederives, lastHash_cons, ih]
    tauto

/-- Past its first link a walk is plain re-derivation, and the anchor must have been met. -/
theorem walkLinks_later {anchor : Option String} {prev : String} {seen : Bool} :
    walkLinks digest account anchor links prev seen false = .ok none ↔
      Rederives digest account prev links ∧
        (seen = true ∨ ∃ link ∈ links, anchor = some link.hash) := by
  induction links generalizing prev seen with
  | nil => cases seen <;> simp [walkLinks, Rederives]
  | cons link links ih =>
    by_cases hprev : link.prevHash = prev
    · cases hr : recomputeLink digest account link with
      | error e => simp [walkLinks, Rederives, hprev, hr, bind, Except.bind]
      | ok recomputed =>
        by_cases hh : recomputed = link.hash
        · have hstep : walkLinks digest account anchor (link :: links) prev seen false =
              walkLinks digest account anchor links link.hash
                (seen || anchor == some link.hash) false := by
            simp [walkLinks, hprev, hr, hh, bind, Except.bind]
          rw [hstep, ih]
          simp only [Rederives, hprev, hr, hh, Bool.or_eq_true, beq_iff_eq, List.mem_cons]
          constructor
          · rintro ⟨hd, (hs | ha) | ⟨l, hl, ha⟩⟩
            · exact ⟨⟨trivial, trivial, hd⟩, Or.inl hs⟩
            · exact ⟨⟨trivial, trivial, hd⟩, Or.inr ⟨link, Or.inl rfl, ha⟩⟩
            · exact ⟨⟨trivial, trivial, hd⟩, Or.inr ⟨l, Or.inr hl, ha⟩⟩
          · rintro ⟨⟨-, -, hd⟩, hs | ⟨l, rfl | hl, ha⟩⟩
            · exact ⟨hd, Or.inl (Or.inl hs)⟩
            · exact ⟨hd, Or.inl (Or.inr ha)⟩
            · exact ⟨hd, Or.inr ⟨l, hl, ha⟩⟩
        · simp [walkLinks, Rederives, hprev, hr, hh, bind, Except.bind, pure, Except.pure]
    · simp [walkLinks, Rederives, hprev]

theorem walkLinks_genesis : walkLinks digest account none links GENESIS_HEX true true = .ok none ↔
      Rederives digest account GENESIS_HEX links := by
  cases links with
  | nil => simp [walkLinks, Rederives]
  | cons link links =>
    by_cases hprev : link.prevHash = GENESIS_HEX
    · cases hr : recomputeLink digest account link with
      | error e => simp [walkLinks, Rederives, hprev, hr, bind, Except.bind]
      | ok recomputed =>
        by_cases hh : recomputed = link.hash
        · have hstep : walkLinks digest account none (link :: links) GENESIS_HEX true true =
              walkLinks digest account none links link.hash true false := by
            simp [walkLinks, hprev, hr, hh, bind, Except.bind]
          rw [hstep, walkLinks_later]
          simp [Rederives, hprev, hr, hh]
        · simp [walkLinks, Rederives, hprev, hr, hh, bind, Except.bind, pure, Except.pure]
    · simp [walkLinks, Rederives, hprev]

/-- An anchored walk may start anywhere, as long as it starts at the anchor or meets it. -/
theorem walkLinks_anchored {anchor : String} :
    walkLinks digest account (some anchor) links GENESIS_HEX false true = .ok none ↔
      links = [] ∨ ∃ link rest, links = link :: rest ∧
        Rederives digest account link.prevHash links ∧
        (link.prevHash = anchor ∨ ∃ l ∈ links, l.hash = anchor) := by
  cases links with
  | nil => simp [walkLinks]
  | cons link links =>
    have hfirst : walkLinks digest account (some anchor) (link :: links) GENESIS_HEX false true =
        (do
          let recomputed ← recomputeLink digest account link
          if recomputed ≠ link.hash then
            return some ⟨account, link.txnId, .tamperedHash, recomputed, link.hash⟩
          else
            walkLinks digest account (some anchor) links link.hash
              (anchor == link.prevHash || anchor == link.hash) false) := by
      simp [walkLinks]
    rw [hfirst]
    cases hr : recomputeLink digest account link with
    | error e => simp [Rederives, hr, bind, Except.bind]
    | ok recomputed =>
      by_cases hh : recomputed = link.hash
      · simp only [bind, Except.bind, hh, ne_eq, not_true_eq_false, if_false]
        rw [walkLinks_later]
        simp only [Bool.or_eq_true, beq_iff_eq, Option.some.injEq]
        constructor
        · rintro ⟨hd, h⟩
          refine Or.inr ⟨link, links, rfl, ⟨rfl, hh ▸ hr, hd⟩, ?_⟩
          rcases h with (h | h) | ⟨l, hl, h⟩
          · exact Or.inl h.symm
          · exact Or.inr ⟨link, List.mem_cons_self, h.symm⟩
          · exact Or.inr ⟨l, List.mem_cons_of_mem _ hl, h.symm⟩
        · rintro (hnil | ⟨link', links', he, ⟨-, -, hd⟩, h⟩)
          · cases hnil
          · obtain ⟨rfl, rfl⟩ := List.cons.inj he
            refine ⟨hd, ?_⟩
            rcases h with h | ⟨l, hl, h⟩
            · exact Or.inl (Or.inl h.symm)
            · rcases List.mem_cons.mp hl with rfl | hl
              · exact Or.inl (Or.inr h.symm)
              · exact Or.inr ⟨l, hl, h.symm⟩
      · simp [Rederives, hr, hh, bind, Except.bind, pure, Except.pure]

def AcceptedLineage (digest : Digest) (boundary : Option ArchiveBoundary) (account : AccountRef)
    (links : List StoredLink) : Prop :=
  match boundary.bind fun b => b.anchors.get account with
  | none => Rederives digest account GENESIS_HEX links
  | some anchor => ∀ link rest, links = link :: rest →
    Rederives digest account link.prevHash links ∧
      (link.prevHash = anchor ∨ ∃ l ∈ links, l.hash = anchor)

theorem recomputeAccount_ok : recomputeAccount digest boundary view account = .ok none ↔
      AcceptedLineage digest boundary account (view.lineage account none) := by
  unfold recomputeAccount AcceptedLineage
  cases boundary.bind fun b => b.anchors.get account with
  | none => exact walkLinks_genesis
  | some anchor =>
    refine walkLinks_anchored.trans ?_
    constructor
    · rintro (hnil | ⟨link, rest, he, h⟩)
      · intro link rest he
        rw [hnil] at he
        cases he
      · intro link' rest' he'
        obtain ⟨rfl, rfl⟩ := List.cons.inj (he.symm.trans he')
        exact h
    · intro h
      cases hl : view.lineage account none with
      | nil => exact Or.inl rfl
      | cons link rest => exact Or.inr ⟨link, rest, rfl, hl ▸ h link rest hl⟩

theorem firstBroken_ok
    {heads : List (AccountRef × String)} : firstBroken digest boundary view heads = .ok none ↔
      ∀ p ∈ heads, AcceptedLineage digest boundary p.1 (view.lineage p.1 none) := by
  induction heads with
  | nil => simp [firstBroken]
  | cons p heads ih =>
    obtain ⟨account, head⟩ := p
    rw [List.forall_mem_cons, ← ih, ← recomputeAccount_ok]
    cases hr : recomputeAccount digest boundary view account with
    | error e => simp [firstBroken, hr, bind, Except.bind]
    | ok broken =>
      cases broken with
      | none => simp [firstBroken, hr, bind, Except.bind]
      | some broken => simp [firstBroken, hr, bind, Except.bind, pure, Except.pure]

def Intact (digest : Digest) (boundary : Option ArchiveBoundary) (view : ChainView) : Prop :=
  ∃ report, proveChain digest boundary view = .ok report ∧ report.intact = true

theorem intact_iff : Intact digest boundary view ↔
      ∀ p ∈ view.heads, AcceptedLineage digest boundary p.1 (view.lineage p.1 none) := by
  have hsorted : (∀ p ∈ view.heads, AcceptedLineage digest boundary p.1 (view.lineage p.1 none)) ↔
      firstBroken digest boundary view (sortHeads view.heads) = .ok none := by
    rw [firstBroken_ok]
    simp [sortHeads]
  rw [hsorted]
  unfold Intact proveChain
  cases hf : firstBroken digest boundary view (sortHeads view.heads) with
  | error e => simp [bind, Except.bind]
  | ok broken =>
    cases broken with
    | none => simp [bind, Except.bind, pure, Except.pure]
    | some broken => simp [bind, Except.bind, pure, Except.pure]

end EconomyLab
