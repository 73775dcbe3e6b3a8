import EconomyLab.Meta
import Mathlib.Algebra.Group.Nat.Defs

/-!
# Bytes and hex

Lowercase hex both ways, and the length-prefixed framing of the hash preimages.
-/

namespace EconomyLab

def toHex (bytes : List UInt8) : String :=
  String.ofList (bytes.flatMap fun b => [hexChar (b.toNat / 16), hexChar (b.toNat % 16)])

def hexDigit (c : Char) : Except Fault Nat :=
  if 48 ≤ c.toNat ∧ c.toNat ≤ 57 then .ok (c.toNat - 48)
  else if 97 ≤ c.toNat ∧ c.toNat ≤ 102 then .ok (c.toNat - 87)
  else .error (fault .malformedOperation "Hex string has a non-hex digit.")

def fromHexChars : List Char → Except Fault (List UInt8)
  | [] => .ok []
  | [_] => .error (fault .malformedOperation "Hex string has an odd length.")
  | a :: b :: rest => do
    let high ← hexDigit a
    let low ← hexDigit b
    let bytes ← fromHexChars rest
    return UInt8.ofNat (high * 16 + low) :: bytes

/-- The length is checked before any digit is read. -/
def fromHex (hex : String) : Except Fault (List UInt8) :=
  if hex.toList.length % 2 ≠ 0 then
    .error (fault .malformedOperation "Hex string has an odd length.")
  else fromHexChars hex.toList

def GENESIS : List UInt8 := List.replicate 32 0

def GENESIS_HEX : String := String.ofList (List.replicate 64 '0')

def frameLength (n : Nat) : List UInt8 :=
  [UInt8.ofNat (n / 2 ^ 24), UInt8.ofNat (n / 2 ^ 16), UInt8.ofNat (n / 2 ^ 8), UInt8.ofNat n]

/-- Each frame behind its length, four bytes big-endian. -/
def lengthPrefixed (frames : List (List UInt8)) : List UInt8 :=
  frames.flatMap fun frame => frameLength frame.length ++ frame

theorem mem_toHex {bytes : List UInt8} {c : Char} (h : c ∈ (toHex bytes).toList) :
    ∃ n < 16, c = hexChar n := by
  unfold toHex at h
  rw [String.toList_ofList, List.mem_flatMap] at h
  obtain ⟨b, -, hm⟩ := h
  have hb : b.toNat < 256 := b.toNat_lt
  simp only [List.mem_cons, List.not_mem_nil, or_false] at hm
  rcases hm with hm | hm
  · exact ⟨_, by omega, hm⟩
  · exact ⟨_, by omega, hm⟩

theorem hexDigit_hexChar : ∀ n < 16, hexDigit (hexChar n) = .ok n := by decide

theorem fromHexChars_toHex (bytes : List UInt8) :
    fromHexChars (bytes.flatMap fun b => [hexChar (b.toNat / 16), hexChar (b.toNat % 16)]) =
      .ok bytes := by
  induction bytes with
  | nil => rfl
  | cons b bytes ih =>
    have hb : b.toNat < 256 := b.toNat_lt
    have high := hexDigit_hexChar (b.toNat / 16) (by omega)
    have low := hexDigit_hexChar (b.toNat % 16) (by omega)
    have hjoin : b.toNat / 16 * 16 + b.toNat % 16 = b.toNat := by omega
    simp only [List.flatMap_cons, List.cons_append, List.nil_append, fromHexChars, high, low, ih]
    simp [bind, Except.bind, pure, Except.pure, hjoin]

theorem fromHex_toHex (bytes : List UInt8) : fromHex (toHex bytes) = .ok bytes := by
  have hlen : (bytes.flatMap fun b => [hexChar (b.toNat / 16), hexChar (b.toNat % 16)]).length % 2 =
      0 := by
    induction bytes with
    | nil => rfl
    | cons b bytes ih =>
      simp only [List.flatMap_cons, List.length_append, List.length_cons, List.length_nil] at ih ⊢
      omega
  simp only [fromHex, toHex, String.toList_ofList, hlen, ne_eq, not_true_eq_false, if_false]
  exact fromHexChars_toHex bytes

end EconomyLab
