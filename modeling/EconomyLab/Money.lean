import Mathlib.Tactic.Ring
import EconomyLab.Errors

/-!
# Money

Amounts are minor units inside the signed 64-bit range the ledger stores. The range
is part of the amount, so an unstorable one cannot be built.
-/

namespace EconomyLab

inductive Currency
  | credit
  | usd
deriving DecidableEq, Repr

def Currency.text : Currency → String
  | credit => "CREDIT"
  | usd => "USD"

def I64 (minor : Int) : Prop := -2 ^ 63 ≤ minor ∧ minor ≤ 2 ^ 63 - 1

instance (minor : Int) : Decidable (I64 minor) :=
  inferInstanceAs (Decidable (_ ∧ _))

/-! Minors of sample amounts. -/

theorem I64.one : I64 1 := by decide

theorem I64.neg_one : I64 (-1) := by decide

theorem I64.five : I64 5 := by decide

theorem I64.neg_five : I64 (-5) := by decide

theorem I64.ten : I64 10 := by decide

theorem I64.neg_ten : I64 (-10) := by decide

theorem I64.two_hundred : I64 200 := by decide

theorem I64.thousand : I64 1000 := by decide

theorem I64.neg_thousand : I64 (-1000) := by decide

structure Amount where
  currency : Currency
  minor : Int
  inRange : I64 minor
deriving DecidableEq

@[ext] theorem Amount.ext {a b : Amount} (hc : a.currency = b.currency) (hm : a.minor = b.minor) :
    a = b := by
  cases a
  cases b
  simp_all

/-- Minor units per whole unit. -/
def SCALE : Int := 100

def toAmount (currency : Currency) (minor : Int) : Except Fault Amount :=
  if h : I64 minor then .ok ⟨currency, minor, h⟩
  else .error (fault .amountOverflow "Amount is outside the 64-bit range the ledger stores.")

theorem toAmount_ok {c : Currency} {m : Int} (h : I64 m) : toAmount c m = .ok ⟨c, m, h⟩ := by
  simp [toAmount, h]

theorem toAmount_eq_ok {c : Currency} {m : Int} {a : Amount} :
    toAmount c m = .ok a ↔ a.currency = c ∧ a.minor = m := by
  unfold toAmount
  split
  · rename_i h
    constructor
    · intro he
      cases he
      exact ⟨rfl, rfl⟩
    · rintro ⟨hc, hm⟩
      exact congrArg Except.ok (Amount.ext hc.symm hm.symm)
  · rename_i h
    constructor
    · intro he
      cases he
    · rintro ⟨-, rfl⟩
      exact absurd a.inRange h

def isZero (a : Amount) : Bool := a.minor == 0

def zero (currency : Currency) : Amount := ⟨currency, 0, by decide⟩

@[simp] theorem zero_minor (c : Currency) : (zero c).minor = 0 := rfl

@[simp] theorem zero_currency (c : Currency) : (zero c).currency = c := rfl

def assertSameCurrency (a b : Amount) : Except Fault Unit :=
  if a.currency = b.currency then .ok ()
  else .error (fault .currencyMismatch
    ("Cannot combine " ++ a.currency.text ++ " with " ++ b.currency.text ++ "."))

def add (a b : Amount) : Except Fault Amount := do
  assertSameCurrency a b
  toAmount a.currency (a.minor + b.minor)

def negate (a : Amount) : Except Fault Amount := toAmount a.currency (-a.minor)

/-! ## Rounded division -/

inductive Rounding
  | floor
  | ceil
  | trunc
  | halfEven
  | halfUp
deriving DecidableEq, Repr

def checkI64 (minor : Int) : Except Fault Int :=
  if I64 minor then .ok minor else .error (plainError "i64 overflow")

def divRound (num den : Int) (mode : Rounding) : Except Fault Int :=
  if den = 0 then .error (plainError "divRound: zero divisor")
  else
    let q := num.tdiv den
    let r := num.tmod den
    if r = 0 then checkI64 q
    else
      let negative : Bool := decide (num < 0) != decide (den < 0)
      let step : Int := if negative then -1 else 1
      let twice : Int := 2 * (if r < 0 then -r else r)
      let magnitude : Int := if den < 0 then -den else den
      match mode with
      | .trunc => checkI64 q
      | .floor => checkI64 (if negative then q - 1 else q)
      | .ceil => checkI64 (if negative then q else q + 1)
      | .halfUp => if twice < magnitude then checkI64 q else checkI64 (q + step)
      | .halfEven =>
        if twice < magnitude then checkI64 q
        else if magnitude < twice then checkI64 (q + step)
        else checkI64 (if q.tmod 2 = 0 then q else q + step)

def mulDiv (value num den : Int) (mode : Rounding) : Except Fault Int :=
  divRound (value * num) den mode

/-- An exchange rate: the multiplier is `rate / 10 ^ scale`. -/
structure Rate where
  rate : Int
  scale : Nat
  rateId : String
deriving DecidableEq, Repr

def rateGte (a b : Rate) : Bool := a.rate * 10 ^ b.scale ≥ b.rate * 10 ^ a.scale

def convertMinor (minor : Int) (rate : Rate) (mode : Rounding) : Except Fault Int :=
  match mulDiv minor rate.rate (10 ^ rate.scale) mode with
  | .ok m => .ok m
  | .error _ => .error (fault .amountOverflow
      "Conversion result is outside the 64-bit range the ledger stores.")

def convertFloor (amount : Amount) (rate : Rate) (target : Currency) : Except Fault Amount := do
  toAmount target (← convertMinor amount.minor rate .floor)

def convertCeil (amount : Amount) (rate : Rate) (target : Currency) : Except Fault Amount := do
  toAmount target (← convertMinor amount.minor rate .ceil)

theorem checkI64_eq_ok {m n : Int} : checkI64 m = .ok n ↔ I64 m ∧ n = m := by
  unfold checkI64
  split <;> rename_i h
  · simp [h, eq_comm]
  · simp [h]

theorem divRound_floor (num : Int) {den : Int} (hden : 0 < den) :
    divRound num den .floor = checkI64 (num / den) := by
  have hne : den ≠ 0 := ne_of_gt hden
  have hnd : ¬ den < 0 := not_lt_of_gt hden
  simp only [divRound, hne, if_false, hnd, decide_false, Bool.bne_false]
  have hdiv := Int.tdiv_eq_ediv (a := num) (b := den)
  have hmod := Int.tmod_eq_emod (a := num) (b := den)
  by_cases hr : num.tmod den = 0
  · have hdvd : den ∣ num := Int.dvd_of_tmod_eq_zero hr
    rw [if_pos hr, hdiv]
    simp [hdvd]
  · rw [if_neg hr]
    have hdvd : ¬ den ∣ num := fun h => hr (Int.tmod_eq_zero_of_dvd h)
    rw [hdiv]
    by_cases hn : num < 0
    · have hn' : ¬ 0 ≤ num := not_le_of_gt hn
      simp [hn, hn', hdvd, Int.sign_eq_one_of_pos hden]
    · have hn' : 0 ≤ num := le_of_not_gt hn
      simp [hn, hn']

theorem divRound_ceil (num : Int) {den : Int} (hden : 0 < den) :
    divRound num den .ceil = checkI64 (-(-num / den)) := by
  have hne : den ≠ 0 := ne_of_gt hden
  have hnd : ¬ den < 0 := not_lt_of_gt hden
  simp only [divRound, hne, if_false, hnd, decide_false, Bool.bne_false]
  have hdiv := Int.tdiv_eq_ediv (a := num) (b := den)
  have hneg := Int.neg_ediv (a := num) (b := den)
  rw [Int.sign_eq_one_of_pos hden] at hdiv hneg
  by_cases hr : num.tmod den = 0
  · have hdvd : den ∣ num := Int.dvd_of_tmod_eq_zero hr
    rw [if_pos hr, hdiv, hneg]
    simp [hdvd]
  · rw [if_neg hr]
    have hdvd : ¬ den ∣ num := fun h => hr (Int.tmod_eq_zero_of_dvd h)
    rw [hdiv, hneg]
    by_cases hn : num < 0
    · have hn' : ¬ 0 ≤ num := not_le_of_gt hn
      simp [hn, hn', hdvd]
      congr 1
      ring
    · have hn' : 0 ≤ num := le_of_not_gt hn
      simp [hn, hn', hdvd]
      congr 1
      ring

def padStart (n : Nat) (c : Char) (s : List Char) : List Char :=
  List.replicate (n - s.length) c ++ s

/-- `format(minor, exp, { group: '' })`. -/
def format (minor : Int) (exp : Nat) : String :=
  let digits := padStart (exp + 1) '0' (toString minor.natAbs).toList
  let sign := if minor < 0 then "-" else ""
  if exp = 0 then sign ++ String.ofList digits
  else sign ++ String.ofList (digits.take (digits.length - exp)) ++ "." ++
    String.ofList (digits.drop (digits.length - exp))

def encodeAmount (amount : Amount) : String :=
  amount.currency.text ++ ":" ++ format amount.minor 2

example : encodeAmount ⟨.credit, -1234, by decide⟩ = "CREDIT:-12.34" := by decide

def requirePositiveCredit (amount : Amount) (label : String) : Except Fault Amount :=
  if amount.currency ≠ .credit then
    .error (fault .malformedOperation (label ++ " must be CREDIT."))
  else if amount.minor ≤ 0 then
    .error (fault .invalidAmount (label ++ " must be positive."))
  else .ok amount

end EconomyLab
