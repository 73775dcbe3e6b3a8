import EconomyLab.Economy.Locking
import EconomyLab.Foundation.Trees
import EconomyLab.Stores.Mailboxes

/-!
# Operations on the wire

An operation is stored and sent with each of its amounts as text. The walk back takes every
text that reads as an amount for one, whatever field it stands in.
-/

namespace EconomyLab

open Foundation Text

/-! ## Decimal texts -/

/-- `\d+`. -/
def isDigits (cs : List Char) : Bool := !cs.isEmpty && cs.all Char.isDigit

/-- `\d{1,3}(?:,\d{3})+`. -/
def isGrouped (cs : List Char) : Bool :=
  match cs.splitOn ',' with
  | first :: second :: groups =>
    isDigits first && first.length ≤ 3 && (second :: groups).all fun group =>
      isDigits group && group.length = 3
  | _ => false

/-- `-?`, and the rest. -/
def takeSign (cs : List Char) : Bool × List Char :=
  if cs.head? = some '-' then (true, cs.tail) else (false, cs)

/-- The whole part, up to the first point, and the digits after it. -/
def matchUnsigned (cs : List Char) : Option (List Char × Option (List Char)) :=
  let whole := cs.takeWhile (· ≠ '.')
  if isDigits whole || isGrouped whole then
    match cs.dropWhile (· ≠ '.') with
    | [] => some (whole, none)
    | _ :: fraction => if isDigits fraction then some (whole, some fraction) else none
  else none

/-- `/^(-?)(\d+|\d{1,3}(?:,\d{3})+)(?:\.(\d+))?$/`. -/
def matchDecimal (cs : List Char) : Option (Bool × List Char × Option (List Char)) :=
  (matchUnsigned (takeSign cs).2).map fun parts => ((takeSign cs).1, parts)

def padEnd (n : Nat) (c : Char) (cs : List Char) : List Char := cs ++ List.replicate (n - cs.length) c

def signed (negative : Bool) (n : Nat) : Int := if negative then -n else n

def parse (text : String) (exp : Nat) : Option Int := do
  let (negative, wholeRaw, fraction) ← matchDecimal text.toList
  if fraction.any fun digits => exp = 0 || exp < digits.length then none
  else
    let whole := wholeRaw.filter (· ≠ ',')
    let minor := signed negative (Nat.ofDigitChars 10 (whole ++ padEnd exp '0' (fraction.getD [])) 0)
    if I64 minor then some minor else none

/-- A decimal text without digit grouping. -/
def decodeAmount (decimal : String) (currency : Currency) : Except Fault Amount :=
  match if includes decimal ',' then none else parse decimal 2 with
  | none => .error (fault .invalidAmount ("Not a 2-decimal money string: " ++ decimal ++ "."))
  | some minor => toAmount currency minor

def isCurrency (text : String) : Option Currency :=
  if text = "CREDIT" then some .credit
  else if text = "USD" then some .usd
  else none

/-- The currency is what stands before the first colon. -/
def decodeAmountWire (encoded : String) : Except Fault Amount :=
  let notEncoded := fault .invalidAmount ("Not an encoded amount: " ++ encoded ++ ".")
  match cutFirst ':' encoded with
  | none => .error notEncoded
  | some (text, decimal) =>
    match isCurrency text with
    | none => .error notEncoded
    | some currency => decodeAmount decimal currency

def tryDecodeAmountString (wire : String) : Option Amount :=
  if includes wire ':' then (decodeAmountWire wire).toOption else none

inductive Atom
  | null
  | bool (b : Bool)
  | number (n : Int)
  | decimal (d : Decimal)
  | bigint (n : Int)
  | text (s : String)
  | amount (a : Amount)

abbrev Value := Tree String Atom

def encodeAtom : Atom → Atom
  | .amount a => .text (encodeAmount a)
  | .bigint n => .text (toString n)
  | atom => atom

def decodeAtom : Atom → Atom
  | .text s => ((tryDecodeAmountString s).map Atom.amount).getD (.text s)
  | atom => atom

def encodeAmounts (value : Value) : Value := value.map encodeAtom

def decodeAmounts (value : Value) : Value := value.map decodeAtom

namespace InboxMessage

def encodeWire (entry : InboxMessage Value) : InboxMessage Value :=
  { entry with operation := encodeAmounts entry.operation }

def decodeWire (wire : InboxMessage Value) : InboxMessage Value :=
  { wire with operation := decodeAmounts wire.operation }

end InboxMessage

/-! ## Operations as values -/

namespace Value

def text (s : String) : Value := .leaf (.text s)

def number (n : Int) : Value := .leaf (.number n)

def amount (a : Amount) : Value := .leaf (.amount a)

/-- A field that is left out when there is nothing in it. -/
def optional {α : Type} (key : String) (f : α → Value) (field : Option α) : List (String × Value) :=
  (field.map fun a => (key, f a)).toList

def flag (key : String) (b : Bool) : List (String × Value) := if b then [(key, .leaf (.bool true))] else []

end Value

def Principal.value : Principal → Value
  | .user userId => .object [("kind", Value.text "user"), ("userId", Value.text userId)]
  | .system service => .object [("kind", Value.text "system"), ("service", Value.text service)]
  | .operator operatorId => .object
    [("kind", Value.text "operator"), ("operatorId", Value.text operatorId)]

def Recipient.value (recipient : Recipient) : Value :=
  .object [("sellerId", Value.text recipient.sellerId), ("shareBps", Value.number recipient.shareBps)]

def EntitlementAttributes.value (attrs : EntitlementAttributes) : Value :=
  .object (Value.optional "quantity" (fun n : Nat => Value.number n) attrs.quantity ++
    Value.optional "version" (fun n : Nat => Value.number n) attrs.version ++
    Value.optional "expiresAt" Value.number attrs.expiresAt ++ Value.optional "source" Value.text
      attrs.source)

def envelopeFields (kind : String) (envelope : Envelope) : List (String × Value) :=
  [("kind", Value.text kind), ("idempotencyKey", Value.text envelope.idempotencyKey),
    ("actor", envelope.actor.value)]

def Operation.fields : Operation → String × List (String × Value)
  | .topUp o => ("topUp", [("userId", Value.text o.userId), ("amount", Value.amount o.amount),
    ("source", Value.text o.source)])
  | .spend o => ("spend", [("orderId", Value.text o.orderId), ("buyerId", Value.text o.buyerId),
    ("sku", Value.text o.sku),
      ("price", Value.amount o.price), ("recipients", .array (o.recipients.map Recipient.value))] ++
      Value.flag "ageRestricted" o.ageRestricted ++ Value.optional "giftTo" Value.text o.giftTo)
  | .refund o => ("refund", ("orderId", Value.text o.orderId) :: Value.optional "reason"
    Value.text o.reason)
  | .clawback o => ("clawback", [("userId", Value.text o.userId), ("amount", Value.amount o.amount)] ++
      Value.optional "orderId" Value.text o.orderId ++ Value.optional "key" Value.text o.key ++
      Value.optional "reason" Value.text o.reason)
  | .requestPayout o => ("requestPayout",
    [("userId", Value.text o.userId), ("amount", Value.amount o.amount)])
  | .subscribe o => ("subscribe", [("userId", Value.text o.userId), ("sellerId", Value.text o.sellerId),
    ("sku", Value.text o.sku),
      ("price", Value.amount o.price), ("periodMs", Value.number o.periodMs)])
  | .cancelSubscription o => ("cancelSubscription", [("subscriptionId", Value.text o.subscriptionId)])
  | .grantEntitlement o => ("grantEntitlement",
    [("userId", Value.text o.userId), ("sku", Value.text o.sku)] ++
      Value.optional "attrs" EntitlementAttributes.value o.attrs)
  | .revokeEntitlement o => ("revokeEntitlement",
    [("userId", Value.text o.userId), ("sku", Value.text o.sku)] ++
      Value.optional "reason" Value.text o.reason)
  | .grantPromo o => ("grantPromo", [("userId", Value.text o.userId), ("amount", Value.amount o.amount),
      ("expiresAt", Value.number o.expiresAt)])
  | .adjust o => ("adjust", [("account", Value.text o.account), ("amount", Value.amount o.amount),
    ("reason", Value.text o.reason)])
  | .reverse o => ("reverse", [("txnId", Value.text o.txnId), ("reason", Value.text o.reason)])
  | .reversePayout o => ("reversePayout",
    [("userId", Value.text o.userId), ("sagaId", Value.text o.sagaId),
      ("reason", Value.text o.reason)] ++ Value.flag "providerReported" o.providerReported)
  | .settlePayout o => ("settlePayout",
    [("sagaId", Value.text o.sagaId), ("providerRef", Value.text o.providerRef)] ++
      Value.optional "providerAmount" Value.amount o.providerAmount)

def Operation.value (operation : Operation) : Value :=
  .object (envelopeFields operation.fields.1 operation.envelope ++ operation.fields.2)

def Value.texts (value : Value) : List String :=
  value.leaves.filterMap fun
    | .text s => some s
    | _ => none

/-! ## Texts that read as amounts -/

variable {cs : List Char}

theorem isDigits_iff : isDigits cs = true ↔ cs ≠ [] ∧ ∀ c ∈ cs, c.isDigit = true := by
  unfold isDigits
  simp only [Bool.and_eq_true, Bool.not_eq_true', List.isEmpty_eq_false_iff, List.all_eq_true]

theorem not_mem_of_isDigits (h : isDigits cs = true) {c : Char} (hc : c.isDigit = false) : c ∉ cs := by
  intro hmem
  have hdigit := (isDigits_iff.mp h).2 c hmem
  rw [hc] at hdigit
  cases hdigit

theorem isGrouped_eq_false (h : ',' ∉ cs) : isGrouped cs = false := by
  unfold isGrouped
  rw [List.splitOn_eq_singleton h]

def signText (negative : Bool) : List Char := if negative then ['-'] else []

def fractionText : Option (List Char) → List Char
  | none => []
  | some digits => '.' :: digits

theorem matchUnsigned_eq_some_iff (hcomma : ',' ∉ cs) {whole : List Char}
    {fraction : Option (List Char)} :
    matchUnsigned cs = some (whole, fraction) ↔
      isDigits whole = true ∧ (∀ digits ∈ fraction, isDigits digits = true) ∧ cs =
        whole ++ fractionText fraction := by
  unfold matchUnsigned
  constructor
  · intro h
    have hgrouped : isGrouped (cs.takeWhile (· ≠ '.')) = false :=
      isGrouped_eq_false fun hmem => hcomma ((List.takeWhile_prefix _).subset hmem)
    have hparts : cs.takeWhile (· ≠ '.') ++ cs.dropWhile (· ≠ '.') = cs := List.takeWhile_append_dropWhile
    simp only [hgrouped, Bool.or_false] at h
    split at h
    · rename_i hwhole
      split at h
      · rename_i hnone
        obtain ⟨hw, hf⟩ := Prod.mk.inj (Option.some.inj h)
        rw [hnone] at hparts
        rw [← hw, ← hf]
        exact ⟨hwhole, fun _ hdigits => (by cases hdigits), hparts.symm⟩
      · rename_i point digits hsome
        split at h
        · rename_i hdigits
          obtain ⟨hw, hf⟩ := Prod.mk.inj (Option.some.inj h)
          have hpoint : point = '.' := by
            have hhead := List.head_dropWhile_not (· ≠ '.') (l := cs) (by
              rw [hsome]; exact List.cons_ne_nil _ _)
            simp only [hsome, List.head_cons] at hhead
            simpa using hhead
          rw [hsome, hpoint] at hparts
          rw [← hw, ← hf]
          refine ⟨hwhole, fun _ hmem => ?_, hparts.symm⟩
          rw [← Option.mem_some_iff.mp hmem]
          exact hdigits
        · cases h
    · cases h
  · rintro ⟨hwhole, hfraction, rfl⟩
    have hnotPoint : ∀ c ∈ whole, decide (c ≠ '.') = true := by
      intro c hc
      apply decide_eq_true
      rintro rfl
      exact not_mem_of_isDigits hwhole (by decide) hc
    simp only [List.takeWhile_append_of_pos hnotPoint, List.dropWhile_append_of_pos hnotPoint]
    cases fraction with
    | none =>
      simp only [fractionText, List.takeWhile_nil, List.dropWhile_nil, List.append_nil, hwhole,
      Bool.true_or, if_true]
    | some digits =>
      have hdigits := hfraction digits rfl
      simp [fractionText, hwhole, hdigits]

theorem takeSign_append (cs : List Char) : signText (takeSign cs).1 ++ (takeSign cs).2 = cs := by
  unfold takeSign
  split
  · rename_i hminus
    cases cs with
    | nil => cases hminus
    | cons c cs =>
      obtain rfl : c = '-' := Option.some.inj hminus
      rfl
  · rfl

theorem takeSign_signText (negative : Bool) (h : cs.head? ≠ some '-') :
    takeSign (signText negative ++ cs) = (negative, cs) := by
  unfold takeSign
  cases negative with
  | true => rfl
  | false => exact if_neg h

theorem matchDecimal_eq_some_iff (hcomma : ',' ∉ cs) {negative : Bool} {whole : List Char}
    {fraction : Option (List Char)} :
    matchDecimal cs = some (negative, whole, fraction) ↔
      isDigits whole = true ∧ (∀ digits ∈ fraction, isDigits digits = true) ∧
        cs = signText negative ++ (whole ++ fractionText fraction) := by
  have hsplit := takeSign_append cs
  unfold matchDecimal
  rw [Option.map_eq_some_iff]
  constructor
  · rintro ⟨⟨w, f⟩, hmatch, hparts⟩
    obtain ⟨hnegative, hwf⟩ := Prod.mk.inj hparts
    obtain ⟨rfl, rfl⟩ := Prod.mk.inj hwf
    have hrest : ',' ∉ (takeSign cs).2 := by
      intro hmem
      rw [← hsplit] at hcomma
      exact hcomma (List.mem_append_right _ hmem)
    obtain ⟨hwhole, hfraction, hbody⟩ := (matchUnsigned_eq_some_iff hrest).mp hmatch
    refine ⟨hwhole, hfraction, ?_⟩
    rw [← hnegative, ← hbody]
    exact hsplit.symm
  · rintro ⟨hwhole, hfraction, rfl⟩
    have hhead : (whole ++ fractionText fraction).head? ≠ some '-' := by
      intro hminus
      cases whole with
      | nil => exact (isDigits_iff.mp hwhole).1 rfl
      | cons c cs =>
        obtain rfl : c = '-' := Option.some.inj hminus
        exact not_mem_of_isDigits hwhole (by decide) List.mem_cons_self
    have hrest : ',' ∉ whole ++ fractionText fraction :=
      fun hmem => hcomma (List.mem_append_right _ hmem)
    refine ⟨(whole, fraction), ?_, ?_⟩
    · rw [takeSign_signText negative hhead]
      exact (matchUnsigned_eq_some_iff hrest).mpr ⟨hwhole, hfraction, rfl⟩
    · rw [takeSign_signText negative hhead]

structure AmountText where
  currency : Currency
  negative : Bool
  whole : List Char
  fraction : Option (List Char)
  whole_digits : isDigits whole = true
  fraction_digits : ∀ digits ∈ fraction, isDigits digits = true ∧ digits.length ≤ 2
  inRange : I64 (signed negative (Nat.ofDigitChars 10 (whole ++ padEnd 2 '0' (fraction.getD [])) 0))

namespace AmountText

def decimal (t : AmountText) : String :=
  String.ofList (signText t.negative ++ (t.whole ++ fractionText t.fraction))

def text (t : AmountText) : String := t.currency.text ++ ":" ++ t.decimal

def amount (t : AmountText) : Amount := ⟨t.currency, _, t.inRange⟩

theorem comma_not_mem (t : AmountText) : ',' ∉ t.decimal.toList := by
  unfold decimal
  rw [String.toList_ofList, List.mem_append, List.mem_append]
  rintro (hsign | hwhole | hfraction)
  · cases hneg : t.negative with
    | true =>
      rw [hneg] at hsign
      exact absurd hsign (by decide)
    | false =>
      rw [hneg] at hsign
      exact absurd hsign List.not_mem_nil
  · exact not_mem_of_isDigits t.whole_digits (by decide) hwhole
  · cases hdigits : t.fraction with
    | none =>
      rw [hdigits] at hfraction
      exact absurd hfraction List.not_mem_nil
    | some digits =>
      rw [hdigits] at hfraction
      rcases List.mem_cons.mp hfraction with hpoint | hmem
      · exact absurd hpoint (by decide)
      · exact not_mem_of_isDigits (t.fraction_digits digits hdigits).1 (by decide) hmem

end AmountText

theorem filter_comma_eq_self (h : isDigits cs = true) : cs.filter (· ≠ ',') = cs := by
  apply List.filter_eq_self.mpr
  intro c hc
  apply decide_eq_true
  rintro rfl
  exact not_mem_of_isDigits h (by decide) hc

/-- A decimal text is decoded exactly when it is made of these parts. -/
theorem decodeAmount_eq_ok_iff {decimal : String} {currency : Currency} {a : Amount} :
    decodeAmount decimal currency = .ok a ↔
      ∃ t : AmountText, t.currency = currency ∧ t.decimal = decimal ∧ t.amount = a := by
  unfold decodeAmount
  constructor
  · intro h
    by_cases hcomma : includes decimal ',' = true
    · rw [if_pos hcomma] at h
      cases h
    · have hnone : ',' ∉ decimal.toList := fun hmem => hcomma (List.contains_iff_mem.mpr hmem)
      rw [if_neg hcomma] at h
      cases hparse : parse decimal 2 with
      | none =>
        rw [hparse] at h
        cases h
      | some minor =>
        rw [hparse] at h
        obtain ⟨hcurrency, hminor⟩ := toAmount_eq_ok.mp h
        obtain ⟨⟨negative, whole, fraction⟩, hmatch, hparts⟩ := Option.bind_eq_some_iff.mp hparse
        obtain ⟨hwhole, hfraction, htext⟩ := (matchDecimal_eq_some_iff hnone).mp hmatch
        simp only [filter_comma_eq_self hwhole] at hparts
        split at hparts
        · cases hparts
        · rename_i hshort
          split at hparts
          · rename_i hrange
            have hvalue := Option.some.inj hparts
            refine ⟨⟨currency, negative, whole, fraction, hwhole, ?_, hrange⟩, rfl, ?_, ?_⟩
            · intro digits hdigits
              refine ⟨hfraction digits hdigits, ?_⟩
              rw [Option.mem_def.mp hdigits] at hshort
              simpa using hshort
            · apply String.toList_inj.mp
              rw [htext, AmountText.decimal, String.toList_ofList]
            · exact Amount.ext hcurrency.symm (hvalue.trans hminor.symm)
          · cases hparts
  · rintro ⟨t, rfl, rfl, rfl⟩
    have hcomma : ¬includes t.decimal ',' = true := fun hmem =>
      t.comma_not_mem (List.contains_iff_mem.mp hmem)
    have hmatch : matchDecimal t.decimal.toList = some (t.negative, t.whole, t.fraction) := by
      apply (matchDecimal_eq_some_iff t.comma_not_mem).mpr
      refine ⟨t.whole_digits, fun digits hdigits => (t.fraction_digits digits hdigits).1, ?_⟩
      rw [AmountText.decimal, String.toList_ofList]
    have hshort : ¬(t.fraction.any fun digits => (2 : Nat) = 0 || 2 < digits.length) = true := by
      cases hfraction : t.fraction with
      | none => exact Bool.false_ne_true
      | some digits =>
        have hlength := (t.fraction_digits digits hfraction).2
        simp only [Option.any_some, decide_eq_true_eq, Bool.or_eq_true, not_or]
        omega
    have hparse : parse t.decimal 2 = some t.amount.minor := by
      unfold parse
      rw [hmatch]
      simp only [Option.bind_eq_bind, Option.bind_some, filter_comma_eq_self t.whole_digits]
      rw [if_neg hshort, if_pos t.inRange]
      rfl
    rw [if_neg hcomma, hparse]
    exact toAmount_eq_ok.mpr ⟨rfl, rfl⟩

theorem cutFirst_append {c : Char} {s t : String} (h : c ∉ s.toList) :
    cutFirst c (s ++ String.ofList [c] ++ t) = some (s, t) := by
  have hbefore : ∀ x ∈ s.toList, decide (x ≠ c) = true := by
    intro x hx
    apply decide_eq_true
    rintro rfl
    exact h hx
  unfold cutFirst beforeFirst
  simp only [String.toList_append, String.toList_ofList, List.append_assoc,
    List.takeWhile_append_of_pos hbefore,
    List.dropWhile_append_of_pos hbefore, List.singleton_append, List.dropWhile_cons,
      List.takeWhile_cons, ne_eq,
    not_true_eq_false, decide_false, Bool.false_eq_true, if_false, List.append_nil, String.ofList_toList]

theorem cutFirst_eq_some {c : Char} {s before after : String} (h : cutFirst c s = some (before, after)) :
    s = before ++ String.ofList [c] ++ after := by
  unfold cutFirst at h
  split at h
  · cases h
  · rename_i x rest hrest
    obtain ⟨hbefore, hafter⟩ := Prod.mk.inj (Option.some.inj h)
    have hx : x = c := by
      have hhead := List.head_dropWhile_not (· ≠ c) (l := s.toList) (by
        rw [hrest]; exact List.cons_ne_nil _ _)
      simp only [hrest, List.head_cons] at hhead
      simpa using hhead
    have hparts : s.toList.takeWhile (· ≠ c) ++ s.toList.dropWhile (· ≠ c) = s.toList :=
      List.takeWhile_append_dropWhile
    apply String.toList_inj.mp
    rw [← hbefore, ← hafter, ← hparts, hrest, hx, beforeFirst]
    simp only [String.toList_append, String.toList_ofList, List.append_assoc, List.singleton_append]

theorem isCurrency_eq_some {text : String} {currency : Currency} (h : isCurrency text = some currency) :
    text = currency.text := by
  unfold isCurrency at h
  split at h
  · rename_i hcredit
    rw [← Option.some.inj h]
    exact hcredit
  · split at h
    · rename_i husd
      rw [← Option.some.inj h]
      exact husd
    · cases h

theorem isCurrency_text (currency : Currency) : isCurrency currency.text = some currency := by
  cases currency <;> rfl

theorem decodeAmountWire_eq_ok_iff {encoded : String} {a : Amount} :
    decodeAmountWire encoded = .ok a ↔ ∃ t : AmountText, t.text = encoded ∧ t.amount = a := by
  unfold decodeAmountWire
  constructor
  · intro h
    cases hcut : cutFirst ':' encoded with
    | none =>
      rw [hcut] at h
      cases h
    | some parts =>
      obtain ⟨text, decimal⟩ := parts
      rw [hcut] at h
      cases hcurrency : isCurrency text with
      | none =>
        simp only [hcurrency] at h
        cases h
      | some currency =>
        simp only [hcurrency] at h
        obtain ⟨t, rfl, rfl, hamount⟩ := decodeAmount_eq_ok_iff.mp h
        refine ⟨t, ?_, hamount⟩
        rw [cutFirst_eq_some hcut, isCurrency_eq_some hcurrency]
        rfl
  · rintro ⟨t, rfl, rfl⟩
    have hcolon : ':' ∉ t.currency.text.toList := by cases t.currency <;> decide
    have hcut : cutFirst ':' t.text = some (t.currency.text, t.decimal) := cutFirst_append hcolon
    rw [hcut]
    simp only [isCurrency_text]
    exact decodeAmount_eq_ok_iff.mpr ⟨t, rfl, rfl, rfl⟩

theorem tryDecodeAmountString_eq_some_iff {wire : String} {a : Amount} :
    tryDecodeAmountString wire = some a ↔ ∃ t : AmountText, t.text = wire ∧ t.amount = a := by
  rw [← decodeAmountWire_eq_ok_iff]
  unfold tryDecodeAmountString
  split
  · cases decodeAmountWire wire with
    | ok decoded =>
      exact ⟨fun h => congrArg Except.ok (Option.some.inj h), fun h => congrArg some (Except.ok.inj h)⟩
    | error e => exact ⟨fun h => (by cases h), fun h => (by cases h)⟩
  · rename_i hcolon
    refine ⟨fun h => (by cases h), fun h => ?_⟩
    obtain ⟨t, rfl, -⟩ := decodeAmountWire_eq_ok_iff.mp h
    apply absurd _ hcolon
    apply List.contains_iff_mem.mpr
    unfold AmountText.text
    simp only [String.toList_append, List.mem_append]
    exact Or.inl (Or.inr (by decide))

theorem encodeAmount_reads (a : Amount) : ∃ t : AmountText, t.text = encodeAmount a ∧ t.amount = a := by
  generalize hdigits : padStart 3 '0' (toString a.minor.natAbs).toList = digits
  have hall : ∀ c ∈ digits, c.isDigit = true := by
    intro c hc
    rw [← hdigits] at hc
    exact isDigit_of_mem_padStart hc
  have hlength : 3 ≤ digits.length := by
    rw [← hdigits, padStart, List.length_append, List.length_replicate]
    omega
  have hvalue : Nat.ofDigitChars 10 digits 0 = a.minor.natAbs := by
    rw [← hdigits]
    exact padStart_value 3 _
  have hcents : (digits.drop (digits.length - 2)).length = 2 := by
    rw [List.length_drop]
    omega
  have hwhole : isDigits (digits.take (digits.length - 2)) = true := by
    apply isDigits_iff.mpr
    refine ⟨?_, fun c hc => hall c (List.mem_of_mem_take hc)⟩
    apply List.ne_nil_of_length_pos
    rw [List.length_take]
    omega
  have hfraction : isDigits (digits.drop (digits.length - 2)) = true := by
    apply isDigits_iff.mpr
    refine ⟨?_, fun c hc => hall c (List.mem_of_mem_drop hc)⟩
    apply List.ne_nil_of_length_pos
    omega
  have hminor : signed (decide (a.minor < 0)) (Nat.ofDigitChars 10 (digits.take (digits.length - 2) ++
      padEnd 2 '0' ((some (digits.drop (digits.length - 2))).getD [])) 0) = a.minor := by
    have hpad : padEnd 2 '0' (digits.drop (digits.length - 2)) = digits.drop (digits.length - 2) := by
      unfold padEnd
      rw [hcents]
      exact List.append_nil _
    rw [Option.getD_some, hpad, List.take_append_drop, hvalue]
    unfold signed
    split
    · rename_i hneg
      have hlt := of_decide_eq_true hneg
      omega
    · rename_i hnonneg
      have hge := of_decide_eq_false (Bool.eq_false_iff.mpr hnonneg)
      omega
  refine ⟨⟨a.currency, decide (a.minor < 0), digits.take (digits.length - 2),
    some (digits.drop (digits.length - 2)), hwhole, ?_, (congrArg I64 hminor).mpr a.inRange⟩, ?_,
      Amount.ext rfl hminor⟩
  · intro cents hmem
    rw [← Option.mem_some_iff.mp hmem]
    exact ⟨hfraction, hcents.le⟩
  · apply String.toList_inj.mp
    unfold AmountText.text AmountText.decimal encodeAmount format
    have hexp : ¬(2 : Nat) = 0 := by decide
    simp only [hdigits, hexp, if_false, fractionText]
    by_cases hneg : a.minor < 0 <;> simp [hneg, signText]

theorem not_includes_colon_toString (n : Int) : includes (toString n) ':' = false := by
  apply Bool.eq_false_iff.mpr
  intro h
  rcases mem_toString_int (List.contains_iff_mem.mp h) with hdigit | hminus
  · exact absurd hdigit (by decide)
  · exact absurd hminus (by decide)

/-- What becomes of one atom: a `bigint` comes back as text, and a text as an amount if it reads as one. -/
theorem decodeAtom_encodeAtom_eq_iff (atom : Atom) :
    decodeAtom (encodeAtom atom) = atom ↔
      (∀ n, atom ≠ .bigint n) ∧ ∀ s, atom = .text s → ¬∃ t : AmountText, t.text = s := by
  cases atom with
  | null | bool b | number n | decimal d =>
    exact iff_of_true rfl ⟨fun _ => Atom.noConfusion, fun _ => nofun⟩
  | bigint n =>
    have hnone : tryDecodeAmountString (toString n) = none := by
      rw [tryDecodeAmountString, not_includes_colon_toString]
      rfl
    refine iff_of_false ?_ fun h => h.1 n rfl
    simp only [encodeAtom, decodeAtom, hnone, Option.map_none, Option.getD_none]
    exact Atom.noConfusion
  | amount a =>
    refine iff_of_true ?_ ⟨fun _ => Atom.noConfusion, fun _ => nofun⟩
    simp only [encodeAtom, decodeAtom, tryDecodeAmountString_eq_some_iff.mpr (encodeAmount_reads a),
      Option.map_some, Option.getD_some]
  | text s =>
    simp only [encodeAtom, decodeAtom]
    cases hdecoded : tryDecodeAmountString s with
    | none =>
      refine iff_of_true rfl ⟨fun _ => Atom.noConfusion, ?_⟩
      rintro _ hsame ⟨t, ht⟩
      obtain rfl := Atom.text.inj hsame
      rw [tryDecodeAmountString_eq_some_iff.mpr ⟨t, ht, rfl⟩] at hdecoded
      cases hdecoded
    | some a =>
      obtain ⟨t, ht, -⟩ := tryDecodeAmountString_eq_some_iff.mp hdecoded
      refine iff_of_false ?_ fun h => h.2 s rfl ⟨t, ht⟩
      exact fun h => Atom.noConfusion h

theorem Value.mem_texts {value : Value} {s : String} : s ∈ value.texts ↔ Atom.text s ∈ value.leaves := by
  unfold Value.texts
  rw [List.mem_filterMap]
  constructor
  · rintro ⟨atom, hatom, hs⟩
    cases atom with
    | text s' => exact Option.some.inj hs ▸ hatom
    | null | bool b | number n | decimal d | bigint n | amount a => cases hs
  · exact fun h => ⟨_, h, rfl⟩

/-- A value survives the wire exactly when it holds no `bigint` and none of its texts reads as an amount.
-/
theorem decodeAmounts_encodeAmounts_iff (value : Value) :
    decodeAmounts (encodeAmounts value) = value ↔
      (∀ n, Atom.bigint n ∉ value.leaves) ∧ ∀ s ∈ value.texts, ¬∃ t : AmountText, t.text = s := by
  unfold decodeAmounts encodeAmounts
  rw [Tree.map_map, Tree.map_eq_self_iff]
  simp only [Function.comp_apply, decodeAtom_encodeAtom_eq_iff, Value.mem_texts]
  constructor
  · intro h
    exact ⟨fun n hn => (h _ hn).1 n rfl, fun s hs => (h _ hs).2 s rfl⟩
  · rintro ⟨hbigint, htext⟩ atom hatom
    refine ⟨fun n hn => hbigint n (hn ▸ hatom), fun s hs => htext s (hs ▸ hatom)⟩

/-! ## Operations hold no bigint -/

def NoBigint (fields : List (String × Value)) : Prop := ∀ n, Atom.bigint n ∉ Tree.fieldLeaves fields

namespace NoBigint

variable {fields later : List (String × Value)}

theorem nil : NoBigint [] := fun _ => List.not_mem_nil

theorem append (h : NoBigint fields) (h' : NoBigint later) : NoBigint (fields ++ later) := by
  intro n hn
  rw [Tree.fieldLeaves_append] at hn
  rcases List.mem_append.mp hn with hn | hn
  · exact h n hn
  · exact h' n hn

theorem cons {key : String} {value : Value} (hvalue : ∀ n, Atom.bigint n ∉ value.leaves)
    (h : NoBigint fields) :
    NoBigint ((key, value) :: fields) := by
  intro n hn
  rcases List.mem_append.mp hn with hn | hn
  · exact hvalue n hn
  · exact h n hn

theorem text (s : String) (n : Int) : Atom.bigint n ∉ (Value.text s).leaves :=
  fun h => Atom.noConfusion (List.mem_singleton.mp h)

theorem number (m n : Int) : Atom.bigint n ∉ (Value.number m).leaves :=
  fun h => Atom.noConfusion (List.mem_singleton.mp h)

theorem amount (a : Amount) (n : Int) : Atom.bigint n ∉ (Value.amount a).leaves :=
  fun h => Atom.noConfusion (List.mem_singleton.mp h)

theorem optional {α : Type} (key : String) {f : α → Value} (h : ∀ a n, Atom.bigint n ∉ (f a).leaves)
    (field : Option α) : NoBigint (Value.optional key f field) := by
  cases field with
  | none => exact nil
  | some a => exact cons (h a) nil

theorem flag (key : String) (b : Bool) : NoBigint (Value.flag key b) := by
  cases b with
  | false => exact nil
  | true => exact cons (fun _ h => Atom.noConfusion (List.mem_singleton.mp h)) nil

theorem object (h : NoBigint fields) (n : Int) : Atom.bigint n ∉ Tree.leaves (.object fields : Value) :=
  h n

theorem principal (actor : Principal) (n : Int) : Atom.bigint n ∉ actor.value.leaves := by
  cases actor with
  | user id | system id | operator id => exact object (cons (text _) (cons (text id) nil)) n

theorem recipients (list : List Recipient) (n : Int) :
    Atom.bigint n ∉ Tree.leaves (.array (list.map Recipient.value) : Value) := by
  unfold Tree.leaves
  induction list with
  | nil => exact List.not_mem_nil
  | cons recipient list ih =>
    intro hn
    rcases List.mem_append.mp hn with hn | hn
    · exact object (cons (text _) (cons (number _) nil)) n hn
    · exact ih hn

theorem attributes (attrs : EntitlementAttributes) (n : Int) : Atom.bigint n ∉ attrs.value.leaves :=
  object ((((optional _ (fun _ => number _) _).append (optional _ (fun _ => number _) _)).append
    (optional _ number _)).append (optional _ text _)) n

theorem operationFields (operation : Operation) : NoBigint operation.fields.2 := by
  cases operation with
  | topUp o => exact cons (text _) (cons (amount _) (cons (text _) nil))
  | spend o =>
    exact ((cons (text _) (cons (text _)
      (cons (text _) (cons (amount _) (cons (recipients o.recipients) nil))))).append
      (flag _ _)).append (optional _ text _)
  | refund o => exact cons (text _) (optional _ text _)
  | clawback o =>
    exact (((cons (text _) (cons (amount _) nil)).append (optional _ text _)).append
      (optional _ text _)).append
      (optional _ text _)
  | requestPayout o => exact cons (text _) (cons (amount _) nil)
  | subscribe o =>
    exact cons (text _) (cons (text _) (cons (text _) (cons (amount _) (cons (number _) nil))))
  | cancelSubscription o => exact cons (text _) nil
  | grantEntitlement o => exact (cons (text _) (cons (text _) nil)).append (optional _ attributes _)
  | revokeEntitlement o => exact (cons (text _) (cons (text _) nil)).append (optional _ text _)
  | grantPromo o => exact cons (text _) (cons (amount _) (cons (number _) nil))
  | adjust o => exact cons (text _) (cons (amount _) (cons (text _) nil))
  | reverse o => exact cons (text _) (cons (text _) nil)
  | reversePayout o => exact (cons (text _) (cons (text _) (cons (text _) nil))).append (flag _ _)
  | settlePayout o => exact (cons (text _) (cons (text _) nil)).append (optional _ amount _)

theorem operation (operation : Operation) (n : Int) : Atom.bigint n ∉ operation.value.leaves := by
  have henvelope : NoBigint (envelopeFields operation.fields.1 operation.envelope) :=
    cons (text _) (cons (text _) (cons (principal _) nil))
  exact object (henvelope.append (operationFields operation)) n

end NoBigint

/-- An operation comes back from the wire, by itself or in its inbox row, exactly when none of its
texts reads as an amount. -/
theorem operation_round_trip_iff (operation : Operation) :
    (decodeAmounts (encodeAmounts operation.value) = operation.value ↔
      ∀ s ∈ operation.value.texts, ¬∃ t : AmountText, t.text = s) ∧
    (∀ entry : InboxMessage Value, entry.operation = operation.value →
      (entry.encodeWire.decodeWire = entry ↔ ∀ s ∈ operation.value.texts, ¬∃ t : AmountText,
        t.text = s)) ∧
    ∀ s ∈ operation.value.texts, ∀ t : AmountText, t.text = s →
      decodeAmounts (encodeAmounts (Value.text s)) = Value.amount t.amount := by
  have hvalue : decodeAmounts (encodeAmounts operation.value) = operation.value ↔
      ∀ s ∈ operation.value.texts, ¬∃ t : AmountText, t.text = s := by
    rw [decodeAmounts_encodeAmounts_iff]
    exact and_iff_right (NoBigint.operation operation)
  refine ⟨hvalue, fun entry hentry => ?_, fun s _ t ht => ?_⟩
  · rw [← hvalue, ← hentry]
    constructor
    · exact fun h => congrArg InboxMessage.operation h
    · intro h
      unfold InboxMessage.decodeWire InboxMessage.encodeWire
      rw [h]
  · have hread := tryDecodeAmountString_eq_some_iff.mpr ⟨t, ht, rfl⟩
    have hatom : decodeAtom (encodeAtom (.text s)) = .amount t.amount := by
      simp only [encodeAtom, decodeAtom, hread, Option.map_some, Option.getD_some]
    exact congrArg Foundation.Tree.leaf hatom

def amountReason : Operation := .refund ⟨"r1", .operator "op", "o1", some "USD:5.00"⟩

/-- The reason comes back as an amount of five dollars. -/
theorem amountReason_changed :
    validateOperation twoShards amountReason = .ok () ∧ "USD:5.00" ∈ amountReason.value.texts ∧
      decodeAtom (encodeAtom (.text "USD:5.00")) = .amount ⟨.usd, 500, by decide⟩ ∧
      decodeAmounts (encodeAmounts amountReason.value) ≠ amountReason.value := by
  have hdecoded : tryDecodeAmountString "USD:5.00" = some ⟨.usd, 500, by decide⟩ := by decide +kernel
  have htext : "USD:5.00" ∈ amountReason.value.texts := by decide +kernel
  refine ⟨by decide +kernel, htext, ?_, ?_⟩
  · simp only [encodeAtom, decodeAtom, hdecoded, Option.map_some, Option.getD_some]
  · intro hsame
    obtain ⟨t, ht, -⟩ := tryDecodeAmountString_eq_some_iff.mp hdecoded
    exact (decodeAmounts_encodeAmounts_iff _).mp hsame |>.2 _ htext ⟨t, ht⟩

end EconomyLab
