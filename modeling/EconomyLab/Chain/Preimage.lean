import EconomyLab.Chain.Canonical
import EconomyLab.Ledger.Posting

/-!
# What a link hash commits to

The preimage of a link reads back to the prior head, the transaction id, the account's own
amounts and the metadata; the account itself is not among its frames.
-/

namespace EconomyLab

open Foundation Text

/-! ## Amounts -/

def amountsOf (account : AccountRef) (legs : List Leg) : List Amount :=
  (legs.filter (·.account = account)).map Leg.amount

variable {account account' : AccountRef} {c : Char}

theorem isDigit_of_mem_padStart {k n : Nat}
    (h : c ∈ padStart k '0' (toString n).toList) : c.isDigit := by
  rcases List.mem_append.mp h with h | h
  · rw [List.eq_of_mem_replicate h]
    decide
  · exact isDigit_of_mem_toString h

theorem format_toList (minor : Int) :
    ∃ whole cents, padStart 3 '0' (toString minor.natAbs).toList = whole ++ cents ∧
      (format minor 2).toList = (if minor < 0 then ['-'] else []) ++ whole ++ '.' :: cents := by
  generalize hd : padStart 3 '0' (toString minor.natAbs).toList = digits
  refine ⟨_, _, (List.take_append_drop (digits.length - 2) digits).symm, ?_⟩
  have hexp : ¬ (2 : Nat) = 0 := by decide
  unfold format
  simp only [hd, hexp, if_false]
  by_cases hneg : minor < 0 <;> simp [hneg]

/-- The digits of `format`, with the point taken out. -/
theorem format_digits (minor : Int) :
    (format minor 2).toList.filter (· ≠ '.') =
      (if minor < 0 then ['-'] else []) ++ padStart 3 '0' (toString minor.natAbs).toList := by
  obtain ⟨whole, cents, hdigits, hformat⟩ := format_toList minor
  have hkeep : ∀ l : List Char, (∀ c ∈ l, c ∈ whole ++ cents) → l.filter (· ≠ '.') = l := by
    intro l hl
    refine List.filter_eq_self.mpr ?_
    intro c hc
    have hdigit := isDigit_of_mem_padStart (hdigits ▸ hl c hc)
    rw [decide_eq_true_eq]
    rintro rfl
    exact absurd hdigit (by decide)
  have hwhole := hkeep whole fun c hc => List.mem_append_left _ hc
  have hcents := hkeep cents fun c hc => List.mem_append_right _ hc
  rw [hformat, hdigits, List.filter_append, List.filter_append, hwhole,
    List.filter_cons_of_neg (by decide), hcents, List.append_assoc]
  split <;> simp

theorem padStart_value (k n : Nat) : Nat.ofDigitChars 10 (padStart k '0' (toString n).toList) 0 = n := by
  rw [padStart, Nat.ofDigitChars_append, Nat.ofDigitChars_replicate_zero, Nat.toString_eq_repr,
    Nat.toList_repr, Nat.mul_zero, Nat.ofDigitChars_ten_toDigits]

theorem format_inj {m n : Int} (h : format m 2 = format n 2) : m = n := by
  have hd := congrArg (fun s : String => s.toList.filter (· ≠ '.')) h
  simp only [format_digits] at hd
  have hvalue : ∀ j k : Nat, padStart 3 '0' (toString j).toList = padStart 3 '0' (toString k).toList →
      j = k := by
    intro j k he
    rw [← padStart_value 3 j, he, padStart_value]
  have hminus : ∀ (k : Nat) (t : List Char), '-' :: t ≠ padStart 3 '0' (toString k).toList := by
    intro k t he
    have hm : '-' ∈ padStart 3 '0' (toString k).toList := he ▸ List.mem_cons_self
    rcases List.mem_append.mp hm with hm | hm
    · exact absurd (List.eq_of_mem_replicate hm) (by decide)
    · exact ne_minus_of_isDigit (isDigit_of_mem_toString hm) rfl
  split at hd <;> split at hd
  · have := hvalue _ _ (List.cons.inj hd).2
    omega
  · exact absurd hd (hminus _ _)
  · exact absurd hd.symm (hminus _ _)
  · have := hvalue _ _ hd
    omega

theorem encodeAmount_toList (a : Amount) :
    (encodeAmount a).toList = a.currency.text.toList ++ ':' :: (format a.minor 2).toList := by
  simp [encodeAmount]

theorem encodeAmount_inj {a b : Amount} (h : encodeAmount a = encodeAmount b) : a = b := by
  have hl := congrArg String.toList h
  rw [encodeAmount_toList, encodeAmount_toList] at hl
  have hcur : a.currency = b.currency := by
    have hhead := congrArg List.head? hl
    cases ha : a.currency <;> cases hb : b.currency <;> simp [ha, hb, Currency.text] at hhead ⊢
  rw [hcur] at hl
  exact Amount.ext hcur (format_inj (String.toList_inj.mp (List.cons.inj (List.append_cancel_left hl)).2))

def amountSymbols : List Char := "CREDITUS:-.".toList

theorem mem_encodeAmount {a : Amount} (h : c ∈ (encodeAmount a).toList) :
    c.isDigit ∨ c ∈ amountSymbols := by
  obtain ⟨whole, cents, hdigits, hformat⟩ := format_toList a.minor
  have hcur : ∀ c ∈ a.currency.text.toList, c ∈ amountSymbols := by
    apply List.subset_def.mp
    cases a.currency <;> decide
  have hsign : ∀ c ∈ (if a.minor < 0 then ['-'] else []), c ∈ amountSymbols := by
    apply List.subset_def.mp
    split <;> decide
  rw [encodeAmount_toList, hformat] at h
  simp only [List.mem_append, List.mem_cons] at h
  rcases h with h | rfl | (h | h) | rfl | h
  · exact Or.inr (hcur c h)
  · exact Or.inr (by decide)
  · exact Or.inr (hsign c h)
  · exact Or.inl (isDigit_of_mem_padStart (hdigits ▸ List.mem_append_left _ h))
  · exact Or.inr (by decide)
  · exact Or.inl (isDigit_of_mem_padStart (hdigits ▸ List.mem_append_right _ h))

/-- The separator of a joined list of amounts, and a symbol to close it with. -/
def amountStop (c : Char) : Prop := c = Char.ofNat 0 ∨ c = '!'

theorem not_amountStop {a : Amount} (h : c ∈ (encodeAmount a).toList) : ¬ amountStop c := by
  rintro (rfl | rfl) <;> exact absurd (mem_encodeAmount h) (by decide)

theorem encodeAmount_toldApart (a b : Amount) :
    ToldApart amountStop (fun a => (encodeAmount a).toList) id a b := by
  intro r r' hr hr' h
  obtain ⟨hs, ht⟩ := append_stop_inj (fun c => not_amountStop) (fun c => not_amountStop) hr hr' h
  exact ⟨encodeAmount_inj (String.toList_inj.mp hs), ht⟩

theorem joinedAmounts_inj {xs ys : List Amount}
    (h : "\u0000".intercalate (xs.map encodeAmount) = "\u0000".intercalate (ys.map encodeAmount)) :
    xs = ys := by
  have hclosed : [Char.ofNat 0].intercalate (xs.map fun a => (encodeAmount a).toList) ++ ['!'] =
      [Char.ofNat 0].intercalate (ys.map fun a => (encodeAmount a).toList) ++ ['!'] := by
    have hl := congrArg String.toList h
    simp only [String.toList_intercalate, List.map_map, Function.comp_def] at hl
    exact congrArg (· ++ ['!']) hl
  have hstart : ∀ a ∈ xs ++ ys,
      (encodeAmount a).toList ≠ [] ∧ ∀ c ∈ (encodeAmount a).toList.head?, c ≠ '!' := by
    intro a _
    refine ⟨by simp [encodeAmount_toList], ?_⟩
    rw [encodeAmount_toList]
    cases a.currency <;> simp [Currency.text]
  have hread : ∀ a ∈ xs, ∀ b ∈ ys, ToldApart amountStop (fun a => (encodeAmount a).toList) id a b :=
    fun a _ b _ => encodeAmount_toldApart a b
  have hsep : amountStop (Char.ofNat 0) := Or.inl rfl
  have hclose : amountStop '!' := Or.inr rfl
  simpa using (joined_inj hsep hclose (by decide) hstart hread hclosed).1

theorem ownAmounts_eq (account : AccountRef) (legs : List Leg) :
    ∃ sorted : List Amount, sorted.Perm (amountsOf account legs) ∧
      ownAmounts account legs = sorted.map encodeAmount := by
  refine ⟨(amountsOf account legs).insertionSort fun a b => codeUnitLe (encodeAmount a) (encodeAmount b),
    List.perm_insertionSort _ _, ?_⟩
  have h := List.map_insertionSort (fun a b : Amount => codeUnitLe (encodeAmount a) (encodeAmount b) =
    true)
    (fun a b : String => codeUnitLe a b = true) encodeAmount (amountsOf account legs)
    (fun _ _ _ _ => Iff.rfl)
  rw [h, amountsOf, List.map_map]
  rfl

theorem ownAmounts_inj {legs legs' : List Leg} (h : "\u0000".intercalate (ownAmounts account legs) =
      "\u0000".intercalate (ownAmounts account' legs')) :
    (amountsOf account legs).Perm (amountsOf account' legs') := by
  obtain ⟨xs, hxs, hx⟩ := ownAmounts_eq account legs
  obtain ⟨ys, hys, hy⟩ := ownAmounts_eq account' legs'
  rw [hx, hy] at h
  obtain rfl := joinedAmounts_inj h
  exact hxs.symm.trans hys

theorem frameLength_inj {m n : Nat} (hm : m < 2 ^ 32) (hn : n < 2 ^ 32)
    (h : frameLength m = frameLength n) : m = n := by
  simp only [frameLength, List.cons.injEq, and_true] at h
  obtain ⟨h3, h2, h1, h0⟩ := h
  have e3 := congrArg UInt8.toNat h3
  have e2 := congrArg UInt8.toNat h2
  have e1 := congrArg UInt8.toNat h1
  have e0 := congrArg UInt8.toNat h0
  simp only [UInt8.toNat_ofNat'] at e3 e2 e1 e0
  omega

/-- A frame is shorter than what its four length bytes can say. -/
def Framed (frame : List UInt8) : Prop := frame.length < 2 ^ 32

instance (frame : List UInt8) : Decidable (Framed frame) := inferInstanceAs (Decidable (_ < _))

theorem lengthPrefixed_cons_inj {f g : List UInt8} {fs gs : List (List UInt8)} (hf : Framed f)
    (hg : Framed g) (h : lengthPrefixed (f :: fs) = lengthPrefixed (g :: gs)) :
    f = g ∧ lengthPrefixed fs = lengthPrefixed gs := by
  simp only [lengthPrefixed, List.flatMap_cons, List.append_assoc] at h
  obtain ⟨hlen, h⟩ := List.append_inj h rfl
  exact List.append_inj h (frameLength_inj hf hg hlen)

/-- Frames of the lengths a text can have are read back one by one. -/
theorem lengthPrefixed_inj {fs gs : List (List UInt8)} (hlen : fs.length = gs.length)
    (hf : ∀ f ∈ fs, Framed f) (hg : ∀ g ∈ gs, Framed g)
    (h : lengthPrefixed fs = lengthPrefixed gs) : fs = gs := by
  induction fs generalizing gs with
  | nil => exact (List.eq_nil_of_length_eq_zero hlen.symm).symm
  | cons f fs ih =>
    cases gs with
    | nil => cases hlen
    | cons g gs =>
      obtain ⟨rfl, htail⟩ :=
        lengthPrefixed_cons_inj (hf f List.mem_cons_self) (hg g List.mem_cons_self) h
      rw [ih (by simpa using hlen) (fun x hx => hf x (List.mem_cons_of_mem _ hx))
        (fun x hx => hg x (List.mem_cons_of_mem _ hx)) htail]

/-- The frames behind the prior head, in the order they are hashed. -/
def postingFrames (account : AccountRef) (posting : Posting) (text : String) : List (List UInt8) :=
  [utf8 posting.txnId, utf8 ("\u0000".intercalate (ownAmounts account posting.legs)), utf8 text]

theorem chainPreimage_ok {prev : List UInt8} {posting : Posting} {bytes : List UInt8} :
    chainPreimage prev account posting = .ok bytes ↔
      ∃ text, canonicalMeta (.object posting.fields) = .ok text ∧
        lengthPrefixed (prev :: postingFrames account posting text) = bytes := by
  unfold chainPreimage
  rw [except_bind_ok]
  simp only [except_pure_ok]
  rfl

/-- No text of a posting reaches 4 GiB, which is far past what a JavaScript string holds. -/
def Posting.Framed (posting : Posting) : Prop :=
  ∀ account text, canonicalMeta (.object posting.fields) = .ok text →
    ∀ frame ∈ postingFrames account posting text, EconomyLab.Framed frame

theorem chainPreimage_inj {prev prev' : List UInt8}
    {posting posting' : Posting} {bytes : List UInt8} (hlen : prev.length = prev'.length)
    (hf : posting.Framed) (hf' : posting'.Framed)
    (h : chainPreimage prev account posting = .ok bytes)
    (h' : chainPreimage prev' account' posting' = .ok bytes) :
    prev = prev' ∧ posting.txnId = posting'.txnId ∧
      (amountsOf account posting.legs).Perm (amountsOf account' posting'.legs) ∧
      canonicalMeta (.object posting.fields) = canonicalMeta (.object posting'.fields) := by
  obtain ⟨text, htext, hbytes⟩ := chainPreimage_ok.mp h
  obtain ⟨text', htext', hbytes'⟩ := chainPreimage_ok.mp h'
  have hall := hbytes.trans hbytes'.symm
  simp only [lengthPrefixed, List.flatMap_cons, List.append_assoc, hlen, List.append_cancel_left_eq]
    at hall
  obtain ⟨hprev, hrest⟩ := List.append_inj hall hlen
  have hcount : (postingFrames account posting text).length =
      (postingFrames account' posting' text').length := rfl
  have hframes := lengthPrefixed_inj hcount (hf account text htext) (hf' account' text' htext') hrest
  simp only [postingFrames, List.cons.injEq, and_true] at hframes
  obtain ⟨htxn, hamounts, hmeta⟩ := hframes
  obtain rfl := utf8_inj hmeta
  exact ⟨hprev, utf8_inj htxn, ownAmounts_inj (utf8_inj hamounts), htext.trans htext'.symm⟩

/-- What two links commit to alike hashes alike. -/
theorem chainPreimage_congr {prev : List UInt8}
    {posting posting' : Posting} (htxn : posting.txnId = posting'.txnId)
    (hamounts : (amountsOf account posting.legs).Perm (amountsOf account' posting'.legs))
    (hmeta : canonicalMeta (.object posting.fields) = canonicalMeta (.object posting'.fields)) :
    chainPreimage prev account posting = chainPreimage prev account' posting' := by
  have hown : ownAmounts account posting.legs = ownAmounts account' posting'.legs := by
    have hperm := sortStrings_perm (hamounts.map encodeAmount)
    simpa [amountsOf, ownAmounts, Function.comp_def] using hperm
  unfold chainPreimage
  rw [hmeta, htxn, hown]

/-- The prior head and every text of this account's preimage are short enough for their length bytes. -/
def FramesFit (prev : List UInt8) (account : AccountRef) (posting : Posting) : Prop :=
  Framed prev ∧ ∀ text, canonicalMeta (.object posting.fields) = .ok text →
    ∀ frame ∈ postingFrames account posting text, Framed frame

/-- Two chain inputs have the same bytes exactly when they agree on the prior head, the transaction
id, the account's own amounts in whatever order, and the metadata up to the order of its keys. -/
theorem chainPreimage_same_iff {prev prev' : List UInt8} {account account' : AccountRef}
    {posting posting' : Posting} (hfit : FramesFit prev account posting)
    (hfit' : FramesFit prev' account' posting') (hplain : (Json.object posting.fields).Plain)
    (hplain' : (Json.object posting'.fields).Plain) :
    chainPreimage prev account posting = chainPreimage prev' account' posting' ↔
      prev = prev' ∧ posting.txnId = posting'.txnId ∧
        (amountsOf account posting.legs).Perm (amountsOf account' posting'.legs) ∧
        Meta.sorted posting.fields = Meta.sorted posting'.fields := by
  have hbytes : chainPreimage prev account posting = .ok
      (lengthPrefixed (prev :: postingFrames account posting (Json.object posting.fields).text)) :=
    chainPreimage_ok.mpr ⟨_, hplain.ok, rfl⟩
  constructor
  · intro h
    rw [hbytes] at h
    obtain ⟨text, htext, hsame⟩ := chainPreimage_ok.mp h.symm
    have hcount : (prev' :: postingFrames account' posting' text).length =
        (prev :: postingFrames account posting (Json.object posting.fields).text).length := rfl
    have hframed : ∀ frame ∈ prev :: postingFrames account posting (Json.object posting.fields).text,
        Framed frame := List.forall_mem_cons.mpr ⟨hfit.1, hfit.2 _ hplain.ok⟩
    have hframed' : ∀ frame ∈ prev' :: postingFrames account' posting' text, Framed frame :=
      List.forall_mem_cons.mpr ⟨hfit'.1, hfit'.2 _ htext⟩
    have hframes := lengthPrefixed_inj hcount hframed' hframed hsame
    simp only [postingFrames, List.cons.injEq, and_true] at hframes
    obtain ⟨hprev, htxn, hamounts, hmeta⟩ := hframes
    have hmeta := utf8_inj hmeta
    subst hmeta
    exact ⟨hprev.symm, (utf8_inj htxn).symm, ownAmounts_inj (utf8_inj hamounts.symm),
      canonicalMeta_inj hplain.ok htext⟩
  · rintro ⟨rfl, htxn, hamounts, hmeta⟩
    apply chainPreimage_congr htxn hamounts
    rw [hplain.ok, hplain'.ok, Json.text_of_sorted hplain hplain' hmeta]

def tipLegs : List Leg :=
  [⟨spendable "usr_a", ⟨.credit, -5, .neg_five⟩⟩, ⟨spendable "usr_a", ⟨.credit, 3, by decide⟩⟩,
    ⟨SYSTEM.REVENUE, ⟨.credit, 2, by decide⟩⟩]

def tipPosting (legs : List Leg) (fields : Meta) : Posting := ⟨"txn_1", legs, fields⟩

/-- The same tip with its legs and its metadata the other way round. -/
theorem tip_same_preimage :
    chainPreimage [0] (spendable "usr_a") (tipPosting tipLegs [("a", .number 1), ("b", .null)]) =
      chainPreimage [0] (spendable "usr_a")
        (tipPosting tipLegs.reverse [("b", .null), ("a", .number 1)]) := by
  have htext : canonicalMeta (.object [("a", .number 1), ("b", .null)]) =
      .ok "\x7b\"a\":1,\"b\":null\x7d" := by
    decide +kernel
  have htext' : canonicalMeta (.object [("b", .null), ("a", .number 1)]) =
      .ok "\x7b\"a\":1,\"b\":null\x7d" := by
    decide +kernel
  have hfits : ∀ legs fields, legs = tipLegs ∨ legs = tipLegs.reverse →
      canonicalMeta (.object fields) = .ok "\x7b\"a\":1,\"b\":null\x7d" →
      FramesFit [0] (spendable "usr_a") (tipPosting legs fields) := by
    intro legs fields hlegs hfields
    refine ⟨by decide, fun text ht => ?_⟩
    rw [show (tipPosting legs fields).fields = fields from rfl, hfields] at ht
    cases ht
    -- the frames do not read the fields any more
    have hframes : postingFrames (spendable "usr_a") (tipPosting legs fields) =
        postingFrames (spendable "usr_a") (tipPosting legs []) := rfl
    rw [hframes]
    rcases hlegs with rfl | rfl <;> decide +kernel
  apply (chainPreimage_same_iff (hfits _ _ (Or.inl rfl) htext) (hfits _ _ (Or.inr rfl) htext')
    ⟨_, htext⟩ ⟨_, htext'⟩).mpr
  refine ⟨rfl, rfl, ?_, canonicalMeta_inj htext htext'⟩
  decide

end EconomyLab
