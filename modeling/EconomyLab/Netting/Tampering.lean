import EconomyLab.Chain.Verified
import EconomyLab.Netting.Sessions

/-!
# Tampering with a session journal

An edit of the journal that keeps the anchored head is refused unless every row still
spells the text its hash was taken of. The text is not framed, so it can be spelled by
other keys, accounts and legs: which rows were recorded is only known together with where
their separators fall.
-/

namespace EconomyLab

open Foundation Text

/-- What the session chain hashes of a row after the previous head. -/
def Movement.text (m : Movement) : String :=
  m.idempotencyKey ++ "|" ++ ";".intercalate (m.legs.map legText)

def Movement.spelling (m : Movement) : String × String × String := (m.prevHash, m.text, m.hash)

/-- No field of the row holds the separator that ends it. -/
def Movement.Plain (m : Movement) : Prop :=
  '|' ∉ m.idempotencyKey.toList ∧ ∀ leg ∈ m.legs, ';' ∉ leg.account.toList

variable {digest : Digest} {ms ms' : List Movement}

/-- The first two legs in one: the account swallows what stands between them. -/
def Movement.respelled (m : Movement) : Movement :=
  match m.legs with
  | a :: b :: legs => { m with legs := ⟨legText a ++ ";" ++ b.account, b.amount⟩ :: legs }
  | _ => m

def journaling (ms : List Movement) : World := { World.empty with movements := ms }

end EconomyLab
