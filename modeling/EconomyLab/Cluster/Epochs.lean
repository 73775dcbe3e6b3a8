import EconomyLab.Foundation.Table
import EconomyLab.Text
import Mathlib

/-!
# Epoch session ids

A process brands the session ids it mints with a nonce of its own and counts the epochs of each scope. No
id comes twice, neither from one process nor from another one that was started before or after it.
-/

namespace EconomyLab

open Foundation Text

/-- `s.slice(-n)`. -/
def sliceLast (n : Nat) (s : String) : String := String.ofList (s.toList.drop (s.toList.length - n))

def epochSessionId (scope nonce : String) (epoch : Nat) : String :=
  "sess:" ++ scope ++ ":" ++ nonce ++ "-" ++ toString epoch

structure EpochMinter where
  nonce : String
  epochs : Table String Nat

/-- `id` is the fresh id whose tail becomes the nonce. -/
def epochMinter (id : String) : EpochMinter := ⟨sliceLast 12 id, Table.empty⟩

namespace EpochMinter

def epochOf (m : EpochMinter) (scope : String) : Nat := (m.epochs.get scope).getD 0

def mint (m : EpochMinter) (scope : String) : String × EpochMinter :=
  (epochSessionId scope m.nonce (m.epochOf scope),
    { m with epochs := m.epochs.set scope (m.epochOf scope + 1) })

def mintAll (m : EpochMinter) : List String → List String
  | [] => []
  | scope :: scopes => (m.mint scope).1 :: (m.mint scope).2.mintAll scopes

end EpochMinter

theorem length_sliceLast {n : Nat} {s : String} (h : n ≤ s.toList.length) :
    (sliceLast n s).toList.length = n := by
  simp only [sliceLast, String.toList_ofList, List.length_drop]
  omega

/-- The last dash stands before the epoch, and the nonce has a fixed length: an id tells what it was made
of, whatever characters the scope has. -/
theorem epochSessionId_inj {scope scope' nonce nonce' : String} {epoch epoch' : Nat}
    (hlength : nonce.toList.length = nonce'.toList.length)
    (h : epochSessionId scope nonce epoch = epochSessionId scope' nonce' epoch') :
    scope = scope' ∧ nonce = nonce' ∧ epoch = epoch' := by
  have hcut : ∀ (scope nonce : String) (epoch : Nat), cutLast '-' (epochSessionId scope nonce epoch) =
      some ("sess:" ++ scope ++ ":" ++ nonce, toString epoch) := by
    intro scope nonce epoch
    apply cutLast_append
    intro hdash
    exact ne_minus_of_isDigit (isDigit_of_mem_toString hdash) rfl
  have hparts := hcut scope nonce epoch
  rw [h, hcut] at hparts
  obtain ⟨hbrand, hepoch⟩ := Prod.mk.inj (Option.some.inj hparts)
  have hlist := congrArg String.toList hbrand
  simp only [String.toList_append] at hlist
  obtain ⟨hfront, hnonce⟩ := List.append_inj' hlist hlength.symm
  have hscope : scope'.toList = scope.toList := by
    simpa using hfront
  exact ⟨(String.toList_injective hscope).symm, (String.toList_injective hnonce).symm,
    (toString_nat_inj hepoch).symm⟩

namespace EpochMinter

@[simp] theorem epochOf_mint (m : EpochMinter) (scope other : String) :
    (m.mint scope).2.epochOf other = if other = scope then m.epochOf scope + 1 else m.epochOf other := by
  by_cases h : other = scope
  · simp [mint, epochOf, h]
  · simp [mint, epochOf, h]

/-- What is minted from here on is of no epoch that is over. -/
theorem mem_mintAll {scopes : List String} {m : EpochMinter} {id : String} (h : id ∈ m.mintAll scopes) :
    ∃ scope epoch, id = epochSessionId scope m.nonce epoch ∧ m.epochOf scope ≤ epoch := by
  induction scopes generalizing m with
  | nil => cases h
  | cons scope scopes ih =>
    rcases List.mem_cons.mp h with rfl | h
    · exact ⟨scope, m.epochOf scope, rfl, Nat.le_refl _⟩
    · obtain ⟨other, epoch, hid, hle⟩ := ih h
      refine ⟨other, epoch, hid, ?_⟩
      rw [epochOf_mint] at hle
      split at hle
      · rename_i hsame
        rw [hsame]
        omega
      · exact hle

theorem mintAll_nodup (scopes : List String) (m : EpochMinter) : (m.mintAll scopes).Nodup := by
  induction scopes generalizing m with
  | nil => exact List.nodup_nil
  | cons scope scopes ih =>
    refine List.nodup_cons.mpr ⟨?_, ih _⟩
    intro hagain
    obtain ⟨other, epoch, hid, hle⟩ := mem_mintAll hagain
    obtain ⟨rfl, -, hepoch⟩ := epochSessionId_inj rfl hid
    rw [epochOf_mint, if_pos rfl] at hle
    omega

end EpochMinter

/-- A process: the fresh id it was started with, and the scopes it opened epochs for, in order. -/
structure EpochProcess where
  id : String
  scopes : List String

def EpochProcess.sessions (p : EpochProcess) : List String := (epochMinter p.id).mintAll p.scopes

/-- Over all processes there ever were no session id is minted twice, whatever the scopes are called: the
tails of the ids that processes start with have to differ. -/
theorem epochs_never_reused {processes : List EpochProcess}
    (hlong : ∀ p ∈ processes, 12 ≤ p.id.toList.length)
    (hfresh : (processes.map fun p => sliceLast 12 p.id).Nodup) :
    (processes.flatMap EpochProcess.sessions).Nodup := by
  rw [List.nodup_flatMap]
  constructor
  · intro p _
    exact EpochMinter.mintAll_nodup p.scopes _
  · rw [List.Nodup, List.pairwise_map] at hfresh
    refine hfresh.imp_of_mem ?_
    intro p p' hp hp' hne id hid hid'
    obtain ⟨scope, epoch, heq, -⟩ := EpochMinter.mem_mintAll hid
    obtain ⟨scope', epoch', heq', -⟩ := EpochMinter.mem_mintAll hid'
    have hlength : (epochMinter p.id).nonce.toList.length = (epochMinter p'.id).nonce.toList.length :=
      (length_sliceLast (hlong p hp)).trans (length_sliceLast (hlong p' hp')).symm
    exact hne (epochSessionId_inj hlength (heq.symm.trans heq')).2.1

/-- A restart, and scopes that try to look like the ids of others. -/
theorem epochs_never_reused_restart :
    ([⟨"evt_000000000001", ["w", "w:000000000002-0", "w"]⟩, ⟨"evt_000000000002", ["w"]⟩].flatMap
      EpochProcess.sessions).Nodup :=
  epochs_never_reused (by decide) (by decide)

end EconomyLab
