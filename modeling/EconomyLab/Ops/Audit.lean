import EconomyLab.Chain.SumRoot
import EconomyLab.Chain.Verified
import EconomyLab.Foundation.JsonText

/-!
# The audit trail

Every record is one line of JSON that names the hash of the line before and ends in its own. The
verifier cuts the hash off the end of a line and reads the name of the line before out of its JSON.
-/

namespace EconomyLab

open Foundation Foundation.JsonText Text

inductive SignatureName
  | deadlockStorm
  | stuckSaga
  | integrityMismatch
  | engineStall
  | treasuryBreach
  | velocityAnomaly
  | signalSilence
  | retryExhaustion
  | outboxBacklog
  | webhookReplayStorm
  | checkpointSealSlow
  | inboxDeadLetter
deriving DecidableEq, Repr

def SignatureName.text : SignatureName → String
  | deadlockStorm => "deadlock-storm"
  | stuckSaga => "stuck-saga"
  | integrityMismatch => "integrity-mismatch"
  | engineStall => "engine-stall"
  | treasuryBreach => "treasury-breach"
  | velocityAnomaly => "velocity-anomaly"
  | signalSilence => "signal-silence"
  | retryExhaustion => "retry-exhaustion"
  | outboxBacklog => "outbox-backlog"
  | webhookReplayStorm => "webhook-replay-storm"
  | checkpointSealSlow => "checkpoint-seal-slow"
  | inboxDeadLetter => "inbox-dead-letter"

inductive AuditTier
  | one
  | three
deriving DecidableEq, Repr

def AuditTier.number : AuditTier → Int
  | one => 1
  | three => 3

inductive AuditPhase
  | detected
  | decided
  | acted
  | verified
  | escalated
deriving DecidableEq, Repr

def AuditPhase.text : AuditPhase → String
  | detected => "detected"
  | decided => "decided"
  | acted => "acted"
  | verified => "verified"
  | escalated => "escalated"

mutual

/-- Every number that is kept as its printed text is a number of the JSON grammar. -/
def Json.numerals : Json → Bool
  | .decimal d => numberEnd d.text.toList = some []
  | .array items => numeralsItems items
  | .object fields => numeralsFields fields
  | _ => true

def numeralsItems : List Json → Bool
  | [] => true
  | item :: items => item.numerals && numeralsItems items

def numeralsFields : List (String × Json) → Bool
  | [] => true
  | (_, value) :: fields => value.numerals && numeralsFields fields

end

structure AuditRecord where
  recordedAt : Int
  signature : SignatureName
  tier : AuditTier
  phase : AuditPhase
  subject : Option String
  detail : Meta
  numerals : (Json.object detail).numerals

mutual

/-- `JSON.stringify` with the replacer that writes a bigint as an object. -/
def stringify : Json → String
  | .null => "null"
  | .bool b => if b then "true" else "false"
  | .number n => toString n
  | .decimal d => d.text
  | .string s => quote s
  | .bigint n => "\x7b" ++ quote "$bigint" ++ ":" ++ quote (toString n) ++ "\x7d"
  | .array items => "[" ++ ",".intercalate (stringifyItems items) ++ "]"
  | .object fields => "\x7b" ++ ",".intercalate (stringifyFields fields) ++ "\x7d"

def stringifyItems : List Json → List String
  | [] => []
  | item :: items => stringify item :: stringifyItems items

def stringifyFields : List (String × Json) → List String
  | [] => []
  | (key, value) :: fields => (quote key ++ ":" ++ stringify value) :: stringifyFields fields

end

def AuditRecord.fields (record : AuditRecord) (prev : String) : List (String × Json) :=
  [("prev", .string prev), ("at", .number record.recordedAt), ("signature", .string record.signature.text),
    ("tier", .number record.tier.number), ("phase", .string record.phase.text),
    ("subject", (record.subject.map Json.string).getD .null), ("detail", .object record.detail)]

def AuditRecord.body (record : AuditRecord) (prev : String) : String :=
  stringify (.object (record.fields prev))

def AuditRecord.hash (digest : Digest) (record : AuditRecord) (prev : String) : String :=
  toHex (digest (utf8 (record.body prev)))

/-- The body without its closing brace, then the hash. -/
def AuditRecord.line (digest : Digest) (record : AuditRecord) (prev : String) : String :=
  String.ofList (record.body prev).toList.dropLast ++ ",\"hash\":\"" ++ record.hash digest prev ++ "\"\x7d"

/-- The lines the sink writes of the records it is given, `prev` being the last hash. -/
def hashChainedAuditSink (digest : Digest) : String → List AuditRecord → List String
  | _, [] => []
  | prev, record :: records =>
    record.line digest prev :: hashChainedAuditSink digest (record.hash digest prev) records

def auditTrail (digest : Digest) (records : List AuditRecord) : List String :=
  hashChainedAuditSink digest GENESIS_HEX records

inductive AuditBreakReason
  | malformed
  | brokenLink
  | tamperedHash
deriving DecidableEq, Repr

structure AuditBreak where
  line : Nat
  reason : AuditBreakReason
deriving DecidableEq, Repr

structure AuditChainReport where
  intact : Bool
  firstBreak : Option AuditBreak
  count : Nat
deriving DecidableEq, Repr

def isHashDigit (c : Char) : Bool := c ∈ hexDigits

/-- `HASH_SUFFIX`: the text before the suffix, and the hash in it. The suffix has one length, so a
line has at most one. -/
def hashSuffix (line : String) : Option (String × String) :=
  let head := line.toList.take (line.toList.length - 75)
  let suffix := line.toList.drop (line.toList.length - 75)
  let hash := (suffix.drop 9).take 64
  if head.head? = some '\x7b' ∧ suffix = ",\"hash\":\"".toList ++ hash ++ "\"\x7d".toList ∧
      hash.length = 64 ∧ hash.all isHashDigit then
    some (String.ofList head, String.ofList hash)
  else none

def namesPrev (parsed : JsonValue) (prev : String) : Bool :=
  match field (codeUnits "prev") parsed with
  | some (.string units) => units = codeUnits prev
  | _ => false

/-- The checks of one line, and the hash the next one has to name. -/
@[irreducible] def checkAuditLine (digest : Digest) (prev line : String) :
    Except AuditBreakReason String :=
  match hashSuffix line with
  | none => .error .malformed
  | some (head, hash) =>
    match JsonText.read unitsOf line.toList with
    | none => .error .malformed
    | some parsed =>
      if namesPrev parsed prev = false then .error .brokenLink
      else
        let recomputed := toHex (digest (utf8 (head ++ "\x7d")))
        if recomputed ≠ hash then .error .tamperedHash else .ok recomputed

def verifyLines (digest : Digest) : String → Nat → List String → AuditChainReport
  | _, count, [] => ⟨true, none, count⟩
  | prev, count, line :: lines =>
    match checkAuditLine digest prev line with
    | .error reason => ⟨false, some ⟨count + 1, reason⟩, count⟩
    | .ok hash => verifyLines digest hash (count + 1) lines

def verifyAuditChain (digest : Digest) (lines : List String) : AuditChainReport :=
  verifyLines digest GENESIS_HEX 0 lines

/-! ## Written text is read back -/

mutual

/-- What `JSON.parse` makes of a value that was written out. -/
def Json.parsed : Json → JsonValue
  | .null => .null
  | .bool b => .bool b
  | .number n => .number (toString n).toList
  | .decimal d => .number d.text.toList
  | .string s => .string (codeUnits s)
  | .bigint n => .object [(codeUnits "$bigint", .string (codeUnits (toString n)))]
  | .array items => .array (parsedItems items)
  | .object fields => .object (parsedFields fields)

def parsedItems : List Json → List JsonValue
  | [] => []
  | item :: items => item.parsed :: parsedItems items

def parsedFields : List (String × Json) → List (List Nat × JsonValue)
  | [] => []
  | (key, value) :: fields => (codeUnits key, value.parsed) :: parsedFields fields

end

theorem parsedItems_eq (items : List Json) : parsedItems items = items.map Json.parsed := by
  induction items with
  | nil => rfl
  | cons item items ih => rw [parsedItems, ih, List.map_cons]

theorem parsedFields_eq (fields : List (String × Json)) :
    parsedFields fields = fields.map fun p => (codeUnits p.1, p.2.parsed) := by
  induction fields with
  | nil => rfl
  | cons p fields ih => rw [parsedFields, ih, List.map_cons]

theorem stringifyItems_eq (items : List Json) : stringifyItems items = items.map stringify := by
  induction items with
  | nil => rfl
  | cons item items ih => rw [stringifyItems, ih, List.map_cons]

theorem stringifyFields_eq (fields : List (String × Json)) :
    stringifyFields fields = fields.map fun p => quote p.1 ++ ":" ++ stringify p.2 := by
  induction fields with
  | nil => rfl
  | cons p fields ih => rw [stringifyFields, ih, List.map_cons]

theorem numeralsItems_mem {items : List Json} (h : numeralsItems items) {item : Json} (hm : item ∈ items) :
    item.numerals := by
  induction items with
  | nil => cases hm
  | cons first items ih =>
    rw [numeralsItems, Bool.and_eq_true] at h
    rcases List.mem_cons.mp hm with rfl | hm
    · exact h.1
    · exact ih h.2 hm

theorem numeralsFields_mem {fields : List (String × Json)} (h : numeralsFields fields) {p : String × Json}
    (hm : p ∈ fields) : p.2.numerals := by
  induction fields with
  | nil => cases hm
  | cons first fields ih =>
    rw [numeralsFields, Bool.and_eq_true] at h
    rcases List.mem_cons.mp hm with rfl | hm
    · exact h.1
    · exact ih h.2 hm

theorem hexUnits_hexChar :
    ∀ n < 32, hexUnits '0' '0' (hexChar (n / 16)) (hexChar (n % 16)) = some n := by decide

theorem escapeChar_body (c : Char) (rest : List Char) :
    stringBody unitsOf ((escapeChar c).toList ++ rest) =
      (stringBody unitsOf rest).map fun p => (unitsOf c ++ p.1, p.2) := by
  have hshort : ∀ {c : Char} (e : Char) (n : Nat), (escapeChar c).toList = ['\\', e] → e ≠ 'u' →
      escaped e = some n → unitsOf c = [n] →
      stringBody unitsOf ((escapeChar c).toList ++ rest) =
        (stringBody unitsOf rest).map fun p => (unitsOf c ++ p.1, p.2) := by
    intro c e n htext hu he hunits
    rw [htext, hunits]
    exact stringBody_escape hu he rest
  have heq : ∀ n, n < 128 → c.toNat = n → c = Char.ofNat n := by
    intro n _ hn
    rw [← hn, Char.ofNat_toNat]
  by_cases hq : c = '"'
  · subst hq
    exact hshort '"' 34 (by decide) (by decide) (by decide) (by decide)
  by_cases hb : c = '\\'
  · subst hb
    exact hshort '\\' 92 (by decide) (by decide) (by decide) (by decide)
  by_cases h8 : c.toNat = 8
  · rw [heq 8 (by decide) h8]
    exact hshort 'b' 8 (by decide) (by decide) (by decide) (by decide)
  by_cases h9 : c.toNat = 9
  · rw [heq 9 (by decide) h9]
    exact hshort 't' 9 (by decide) (by decide) (by decide) (by decide)
  by_cases h10 : c.toNat = 10
  · rw [heq 10 (by decide) h10]
    exact hshort 'n' 10 (by decide) (by decide) (by decide) (by decide)
  by_cases h12 : c.toNat = 12
  · rw [heq 12 (by decide) h12]
    exact hshort 'f' 12 (by decide) (by decide) (by decide) (by decide)
  by_cases h13 : c.toNat = 13
  · rw [heq 13 (by decide) h13]
    exact hshort 'r' 13 (by decide) (by decide) (by decide) (by decide)
  by_cases hctl : c.toNat < 32
  · have htext : (escapeChar c).toList =
        ['\\', 'u', '0', '0', hexChar (c.toNat / 16), hexChar (c.toNat % 16)] := by
      simp [escapeChar, hq, hb, h8, h9, h10, h12, h13, hctl]
    have hunits : unitsOf c = [c.toNat] := by
      unfold unitsOf
      rw [if_pos (by omega)]
    rw [htext, hunits]
    exact stringBody_hex (hexUnits_hexChar c.toNat hctl) rest
  · have hplain : (escapeChar c).toList = [c] := by
      simp [escapeChar, hq, hb, h8, h9, h10, h12, h13, hctl]
    rw [hplain]
    exact stringBody_plain hq hb hctl rest

theorem quote_body (s : String) (rest : List Char) :
    stringBody unitsOf (s.toList.flatMap (fun c => (escapeChar c).toList) ++ '"' :: rest) =
      some (codeUnits s, rest) := by
  unfold codeUnits
  induction s.toList with
  | nil => exact stringBody_quote rest
  | cons c cs ih =>
    rw [List.flatMap_cons, List.append_assoc, escapeChar_body, ih, List.flatMap_cons]
    rfl

theorem digits_lead {n : Nat} (h : 0 < n) : ∃ c rest, Nat.toDigits 10 n = c :: rest ∧ c ≠ '0' := by
  induction n using Nat.strong_induction_on with
  | _ n ih =>
    by_cases hn : n < 10
    · refine ⟨n.digitChar, [], Nat.toDigits_of_lt_base hn, ?_⟩
      exact (by decide : ∀ k < 10, 0 < k → k.digitChar ≠ '0') n hn h
    · rw [Nat.toDigits_of_base_le (by decide) (Nat.le_of_not_lt hn)]
      obtain ⟨c, rest, hc, hne⟩ := ih (n / 10) (Nat.div_lt_self h (by decide)) (by omega)
      exact ⟨c, rest ++ [(n % 10).digitChar], by rw [hc, List.cons_append], hne⟩

theorem intPart_nat (n : Nat) : intPart (toString n).toList = some [] := by
  have hdigits : ∀ c ∈ (toString n).toList, c.isDigit = true := fun c hc => isDigit_of_mem_toString hc
  have htext : (toString n).toList = Nat.toDigits 10 n := by
    rw [Nat.toString_eq_repr, Nat.toList_repr]
  by_cases hn : n = 0
  · rw [hn]
    decide
  · obtain ⟨c, rest, hc, hne⟩ := digits_lead (Nat.pos_of_ne_zero hn)
    rw [htext, hc] at hdigits ⊢
    have hrest : rest.dropWhile Char.isDigit = [] := by
      rw [List.dropWhile_eq_nil_iff]
      exact fun d hd => hdigits d (List.mem_cons_of_mem _ hd)
    simp [intPart, hne, hdigits c List.mem_cons_self, hrest]

theorem toString_number (n : Int) : numberEnd (toString n).toList = some [] ∧
    ∃ c rest, (toString n).toList = c :: rest ∧ (c.isDigit ∨ c = '-') := by
  have hnat : ∀ k : Nat, ∃ c rest, (toString k).toList = c :: rest ∧ c.isDigit := by
    intro k
    cases hk : (toString k).toList with
    | nil =>
      have hint := intPart_nat k
      rw [hk] at hint
      cases hint
    | cons c rest => exact ⟨c, rest, rfl, isDigit_of_mem_toString (hk ▸ List.mem_cons_self)⟩
  rw [toString_int]
  obtain ⟨c, rest, hc, hdigit⟩ := hnat n.natAbs
  have hint := intPart_nat n.natAbs
  split
  · refine ⟨?_, '-', _, rfl, Or.inr rfl⟩
    have hminus : minus ('-' :: (toString n.natAbs).toList) = (toString n.natAbs).toList := rfl
    rw [numberEnd, hminus, hint]
    rfl
  · refine ⟨?_, c, rest, hc, Or.inl hdigit⟩
    have hminus : minus (toString n.natAbs).toList = (toString n.natAbs).toList := by
      rw [hc]
      simp [minus, ne_minus_of_isDigit hdigit]
    rw [numberEnd, hminus, hint]
    rfl

def memberOf (p : String × Json) : Member :=
  ⟨p.1.toList.flatMap fun c => (escapeChar c).toList, codeUnits p.1, (stringify p.2).toList, p.2.parsed⟩

theorem written_memberOf (p : String × Json) :
    (memberOf p).written = (quote p.1 ++ ":" ++ stringify p.2).toList := by
  simp [Member.written, memberOf, quote_toList]

theorem stringify_object (fields : List (String × Json)) :
    (stringify (.object fields)).toList =
      '\x7b' :: (joined ((fields.map memberOf).map Member.written) ++ ['\x7d']) := by
  have hwritten : (fields.map memberOf).map Member.written =
      (fields.map fun p => quote p.1 ++ ":" ++ stringify p.2).map String.toList := by
    rw [List.map_map, List.map_map]
    exact List.map_congr_left fun p _ => written_memberOf p
  rw [hwritten]
  simp [stringify, stringifyFields_eq, joined]

theorem parsed_object (fields : List (String × Json)) :
    (Json.object fields).parsed = .object ((fields.map memberOf).map Member.read) := by
  rw [Json.parsed, parsedFields_eq, List.map_map]
  rfl

theorem opens_number {c : Char} (h : c.isDigit ∨ c = '-') (rest : List Char) : Opens (c :: rest) := by
  refine ⟨c, rest, rfl, ?_, ?_⟩
  · unfold isSpace
    simp only [Bool.or_eq_false_iff, decide_eq_false_iff_not]
    refine ⟨⟨⟨?_, ?_⟩, ?_⟩, ?_⟩ <;> rintro rfl <;> revert h <;> decide
  · rintro rfl
    revert h
    decide

theorem stringify_reads (j : Json) (h : j.numerals) :
    Reads unitsOf (stringify j).toList j.parsed ∧ Opens (stringify j).toList := by
  have hquote : ∀ s : String, Reads unitsOf (quote s).toList (.string (codeUnits s)) ∧
      Opens (quote s).toList := by
    intro s
    rw [quote_toList]
    exact ⟨reads_string (quote_body s), '"', _, rfl, by decide, by decide⟩
  induction j using Json.induct with
  | null => exact ⟨reads_null, 'n', "ull".toList, rfl, by decide, by decide⟩
  | bool b =>
    refine ⟨reads_bool b, ?_⟩
    cases b with
    | false => exact ⟨'f', "alse".toList, rfl, by decide, by decide⟩
    | true => exact ⟨'t', "rue".toList, rfl, by decide, by decide⟩
  | number n =>
    obtain ⟨hend, c, rest, hc, hlead⟩ := toString_number n
    simp only [stringify, Json.parsed]
    rw [hc] at hend ⊢
    exact ⟨reads_number hlead hend, opens_number hlead rest⟩
  | decimal d =>
    obtain ⟨c, rest, hc, hlead⟩ := d.lead
    have hend : numberEnd d.text.toList = some [] := of_decide_eq_true h
    simp only [stringify, Json.parsed]
    rw [hc] at hend ⊢
    exact ⟨reads_number hlead hend, opens_number hlead rest⟩
  | string s => exact hquote s
  | bigint n =>
    have hread := @reads_object unitsOf [⟨"$bigint".toList.flatMap fun c => (escapeChar c).toList,
      codeUnits "$bigint", (quote (toString n)).toList, .string (codeUnits (toString n))⟩] (by
        intro m hm
        rw [List.mem_singleton.mp hm]
        exact ⟨quote_body "$bigint", (hquote (toString n)).1⟩)
    have htext : (stringify (.bigint n)).toList = '\x7b' :: (joined (List.map Member.written
        [⟨"$bigint".toList.flatMap fun c => (escapeChar c).toList, codeUnits "$bigint",
          (quote (toString n)).toList, .string (codeUnits (toString n))⟩]) ++ ['\x7d']) := by
      simp [stringify, quote_toList, joined, Member.written]
    rw [htext]
    exact ⟨hread, '\x7b', _, rfl, by decide, by decide⟩
  | array items ih =>
    have hitems := fun item hm => ih item hm (numeralsItems_mem h hm)
    have htext : (stringify (.array items)).toList = '[' :: (joined ((items.map fun item =>
        ((stringify item).toList, item.parsed)).map Prod.fst) ++ [']']) := by
      simp [stringify, stringifyItems_eq, joined, Function.comp_def]
    have hvalue : (Json.array items).parsed =
        .array ((items.map fun item => ((stringify item).toList, item.parsed)).map Prod.snd) := by
      simp [Json.parsed, parsedItems_eq, Function.comp_def]
    rw [htext, hvalue]
    refine ⟨reads_array ?_, '[', _, rfl, by decide, by decide⟩
    intro p hp
    obtain ⟨item, hm, rfl⟩ := List.mem_map.mp hp
    exact hitems item hm
  | object fields ih =>
    rw [stringify_object, parsed_object]
    refine ⟨reads_object ?_, '\x7b', _, rfl, by decide, by decide⟩
    intro m hm
    obtain ⟨p, hp, rfl⟩ := List.mem_map.mp hm
    exact ⟨quote_body p.1, (ih p hp (numeralsFields_mem h hp)).1⟩

theorem hashSuffix_eq_some {line head hash : String} : hashSuffix line = some (head, hash) ↔
    line = head ++ ",\"hash\":\"" ++ hash ++ "\"\x7d" ∧ head.toList.head? = some '\x7b' ∧
      hash.toList.length = 64 ∧ hash.toList.all isHashDigit := by
  unfold hashSuffix
  simp only
  constructor
  · intro h
    split at h
    · rename_i hmatch
      obtain ⟨hhead, hsuffix, hlength, hhex⟩ := hmatch
      cases h
      refine ⟨?_, by
        rwa [String.toList_ofList], by rwa [String.toList_ofList], by rwa [String.toList_ofList]⟩
      apply String.toList_inj.mp
      refine (List.take_append_drop _ _).symm.trans ((congrArg _ hsuffix).trans ?_)
      simp
    · cases h
  · rintro ⟨rfl, hhead, hlength, hhex⟩
    have hchars : (head ++ ",\"hash\":\"" ++ hash ++ "\"\x7d").toList =
        head.toList ++ (",\"hash\":\"".toList ++ (hash.toList ++ "\"\x7d".toList)) := by
      simp
    have hlong : (head.toList ++ (",\"hash\":\"".toList ++ (hash.toList ++ "\"\x7d".toList))).length - 75 =
        head.toList.length := by
      have hopen : ",\"hash\":\"".toList.length = 9 := by decide
      have hclose : "\"\x7d".toList.length = 2 := by decide
      rw [List.length_append, List.length_append, List.length_append, hopen, hclose, hlength]
      omega
    have hcut : ((",\"hash\":\"".toList ++ (hash.toList ++ "\"\x7d".toList)).drop 9).take 64 =
        hash.toList := by
      rw [List.drop_left' (by decide), List.take_left' hlength]
    rw [hchars, hlong, List.take_left, List.drop_left, hcut]
    rw [if_pos ⟨hhead, by
      rw [List.append_assoc], hlength, hhex⟩, String.ofList_toList, String.ofList_toList]

/-! ## A written line -/

section Written

variable {digest : Digest} (record : AuditRecord) (prev : String)

theorem AuditRecord.fields_numerals : (Json.object (record.fields prev)).numerals := by
  have hdetail := record.numerals
  unfold Json.numerals at hdetail
  cases hsubject : record.subject <;>
    simp [AuditRecord.fields, Json.numerals, numeralsFields, hsubject, hdetail]

theorem AuditRecord.line_text :
    (record.line digest prev).toList = (stringify (.object (record.fields prev))).toList.dropLast ++
      (",\"hash\":\"".toList ++ (record.hash digest prev).toList ++ "\"\x7d".toList) := by
  simp [AuditRecord.line, AuditRecord.body]

def hashMember (hash : String) : Member :=
  ⟨"hash".toList, codeUnits "hash", '"' :: (hash.toList ++ ['"']), .string (codeUnits hash)⟩

theorem AuditRecord.line_object : (record.line digest prev).toList =
    '\x7b' :: (joined (((record.fields prev).map memberOf ++ [hashMember (record.hash digest prev)]).map
      Member.written) ++ ['\x7d']) := by
  rw [AuditRecord.line_text, stringify_object, ← List.cons_append, List.dropLast_concat, List.map_append,
    List.map_singleton, joined_snoc]
  · simp [Member.written, hashMember]
  · simp [AuditRecord.fields]

theorem toHex_body (bytes : List UInt8) (rest : List Char) :
    stringBody unitsOf ((toHex bytes).toList ++ '"' :: rest) = some (codeUnits (toHex bytes), rest) := by
  have hchars : ∀ c ∈ (toHex bytes).toList, c ≠ '"' ∧ c ≠ '\\' ∧ ¬ c.toNat < 32 := by
    intro c hc
    obtain ⟨n, hn, rfl⟩ := mem_toHex hc
    exact (by decide : ∀ n < 16, hexChar n ≠ '"' ∧ hexChar n ≠ '\\' ∧ ¬ (hexChar n).toNat < 32) n hn
  unfold codeUnits
  generalize (toHex bytes).toList = cs at hchars ⊢
  induction cs with
  | nil => exact stringBody_quote rest
  | cons c cs ih =>
    obtain ⟨hquote, hslash, hctl⟩ := hchars c List.mem_cons_self
    rw [List.cons_append, stringBody_plain hquote hslash hctl, ih fun d hd =>
      hchars d (List.mem_cons_of_mem _ hd),
      List.flatMap_cons]
    rfl

theorem AuditRecord.line_read : JsonText.read unitsOf (record.line digest prev).toList =
    some (.object (((record.fields prev).map memberOf ++ [hashMember (record.hash digest prev)]).map
      Member.read)) := by
  rw [AuditRecord.line_object]
  apply Reads.read
  apply reads_object
  intro m hm
  rcases List.mem_append.mp hm with hm | hm
  · obtain ⟨p, hp, rfl⟩ := List.mem_map.mp hm
    have hnumerals : numeralsFields (record.fields prev) := by
      have h := record.fields_numerals prev
      rwa [Json.numerals] at h
    exact ⟨quote_body p.1, (stringify_reads p.2 (numeralsFields_mem hnumerals hp)).1⟩
  · rw [List.mem_singleton.mp hm]
    refine ⟨fun rest => ?_, reads_string (toHex_body _)⟩
    exact quote_body "hash" rest

theorem AuditRecord.line_namesPrev {parsed : JsonValue}
    (h : JsonText.read unitsOf (record.line digest prev).toList = some parsed) (other : String) :
    namesPrev parsed other = true ↔ other = prev := by
  have hunits : ∀ s t : String, codeUnits s = codeUnits t ↔ s = t :=
    fun s t => ⟨codeUnits_inj, congrArg codeUnits⟩
  rw [AuditRecord.line_read] at h
  cases h
  have hfield : field (codeUnits "prev") (.object (((record.fields prev).map memberOf ++
      [hashMember (record.hash digest prev)]).map Member.read)) = some (.string (codeUnits prev)) := by
    simp [field, AuditRecord.fields, memberOf, hashMember, Member.read, hunits, Json.parsed]
  unfold namesPrev
  rw [hfield]
  simp only [decide_eq_true_eq, hunits]
  exact eq_comm

theorem toHex_hash {bytes : List UInt8} (h : bytes.length = 32) :
    (toHex bytes).toList.length = 64 ∧ (toHex bytes).toList.all isHashDigit := by
  constructor
  · rw [toHex, String.toList_ofList]
    have hlength : ∀ bytes : List UInt8,
        (bytes.flatMap fun b => [hexChar (b.toNat / 16), hexChar (b.toNat % 16)]).length =
          2 * bytes.length := by
      intro bytes
      induction bytes with
      | nil => rfl
      | cons b bytes ih =>
        rw [List.flatMap_cons, List.length_append, ih, List.length_cons]
        simp only [List.length_cons, List.length_nil]
        omega
    rw [hlength, h]
  · rw [List.all_eq_true]
    intro c hc
    obtain ⟨n, hn, rfl⟩ := mem_toHex hc
    exact (by decide : ∀ n < 16, isHashDigit (hexChar n) = true) n hn

theorem AuditRecord.body_head :
    ∃ rest, (record.body prev).toList = '\x7b' :: (rest ++ ['\x7d']) ∧ rest ≠ [] := by
  refine ⟨_, stringify_object (record.fields prev), ?_⟩
  simp [AuditRecord.fields, joined_cons_cons, Member.written]

theorem AuditRecord.line_suffix (hwidth : FixedWidth digest) : hashSuffix (record.line digest prev) =
    some (String.ofList (record.body prev).toList.dropLast, record.hash digest prev) := by
  rw [hashSuffix_eq_some]
  obtain ⟨rest, hbody, -⟩ := record.body_head prev
  obtain ⟨hlength, hhex⟩ := toHex_hash (hwidth (utf8 (record.body prev)))
  refine ⟨rfl, ?_, hlength, hhex⟩
  rw [String.toList_ofList, hbody, ← List.cons_append, List.dropLast_concat]
  rfl

theorem AuditRecord.body_of_head :
    String.ofList (record.body prev).toList.dropLast ++ "\x7d" = record.body prev := by
  obtain ⟨rest, hbody, -⟩ := record.body_head prev
  apply String.toList_inj.mp
  rw [String.toList_append, String.toList_ofList, hbody, ← List.cons_append, List.dropLast_concat]
  rfl

theorem AuditRecord.check_line (hwidth : FixedWidth digest) (other : String) :
    checkAuditLine digest other (record.line digest prev) =
      if other = prev then .ok (record.hash digest prev) else .error .brokenLink := by
  have hnames := fun parsed hread => @AuditRecord.line_namesPrev digest record prev parsed hread other
  unfold checkAuditLine
  rw [AuditRecord.line_suffix record prev hwidth]
  simp only
  rw [AuditRecord.line_read]
  simp only
  have hname := hnames _ (record.line_read prev)
  by_cases hother : other = prev
  · have hnamed : ¬ namesPrev (.object (((record.fields prev).map memberOf ++
        [hashMember (record.hash digest prev)]).map Member.read)) other = false := by
      rw [hname.mpr hother]
      decide
    rw [if_neg hnamed, if_pos hother, AuditRecord.body_of_head]
    exact if_neg (fun hne => hne rfl)
  · rw [if_pos (Bool.eq_false_iff.mpr fun h => hother (hname.mp h)), if_neg hother]

theorem AuditRecord.check_line_self (hwidth : FixedWidth digest) :
    checkAuditLine digest prev (record.line digest prev) = .ok (record.hash digest prev) :=
  (record.check_line prev hwidth prev).trans (if_pos rfl)

/-- Records with one body are one line, and name one line before it. -/
theorem prev_of_body {record record' : AuditRecord} {prev prev' : String}
    (h : record.body prev = record'.body prev') : prev = prev' := by
  have hline : record.line id prev = record'.line id prev' := by
    simp only [AuditRecord.line, AuditRecord.hash, h]
  have hread := @AuditRecord.line_read id record prev
  have hread' := hline ▸ hread
  exact (@AuditRecord.line_namesPrev id record' prev' _ hread' prev).mp
    ((@AuditRecord.line_namesPrev id record prev _ hread prev).mpr rfl)

end Written

section Trail

variable (digest : Digest)

/-- Every record with the hash it names. -/
def placed : String → List AuditRecord → List (String × AuditRecord)
  | _, [] => []
  | prev, record :: records => (prev, record) :: placed (record.hash digest prev) records

def auditHead (prev : String) (records : List AuditRecord) : String :=
  records.foldl (fun prev record => record.hash digest prev) prev

def auditHeads : String → List AuditRecord → List String
  | prev, [] => [prev]
  | prev, record :: records => prev :: auditHeads (record.hash digest prev) records

variable {digest}

theorem sink_eq_placed (prev : String) (records : List AuditRecord) :
    hashChainedAuditSink digest prev records = (placed digest prev records).map fun p =>
      p.2.line digest p.1 := by
  induction records generalizing prev with
  | nil => rfl
  | cons record records ih => rw [hashChainedAuditSink, ih, placed, List.map_cons]

theorem placed_append (prev : String) (before records : List AuditRecord) :
    placed digest prev (before ++ records) =
    placed digest prev before ++ placed digest (auditHead digest prev before) records := by
  induction before generalizing prev with
  | nil => rfl
  | cons record before ih =>
    rw [List.cons_append, placed, ih, placed, List.cons_append]
    rfl

theorem auditHeads_append (prev : String) (before records : List AuditRecord) :
    auditHeads digest prev (before ++ records) =
      (placed digest prev before).map Prod.fst ++ auditHeads digest (auditHead digest prev before)
        records := by
  induction before generalizing prev with
  | nil => rfl
  | cons record before ih =>
    rw [List.cons_append, auditHeads, ih, placed, List.map_cons, List.cons_append]
    rfl

variable {records : List AuditRecord}

theorem mem_auditHeads {prev head : String} (h : head ∈ auditHeads digest prev records) :
    head = prev ∨ ∃ p ∈ placed digest prev records, head = p.2.hash digest p.1 := by
  induction records generalizing prev with
  | nil => exact Or.inl (List.mem_singleton.mp h)
  | cons record records ih =>
    rcases List.mem_cons.mp h with h | h
    · exact Or.inl h
    · right
      rcases ih h with rfl | ⟨p, hp, hhash⟩
      · exact ⟨_, List.mem_cons_self, rfl⟩
      · exact ⟨p, List.mem_cons_of_mem _ hp, hhash⟩

theorem placed_heads {prev : String} {p : String × AuditRecord}
    (hp : p ∈ placed digest prev records) : p.1 ∈ auditHeads digest prev records := by
  induction records generalizing prev with
  | nil => cases hp
  | cons record records ih =>
    rcases List.mem_cons.mp hp with rfl | hp
    · exact List.mem_cons_self
    · exact List.mem_cons_of_mem _ (ih hp)

theorem auditHeads_nodup {prev : String}
    (hfree : ∀ p ∈ placed digest prev records, ∀ q ∈ placed digest prev records,
      p.2.hash digest p.1 = q.2.hash digest q.1 → p.1 = q.1)
    (hstart : ∀ p ∈ placed digest prev records, p.2.hash digest p.1 ≠ prev) :
    (auditHeads digest prev records).Nodup := by
  induction records using List.reverseRecOn with
  | nil => exact List.nodup_singleton _
  | append_singleton records record ih =>
    have hsub : ∀ p ∈ placed digest prev records, p ∈ placed digest prev (records ++ [record]) := by
      intro p hp
      rw [placed_append]
      exact List.mem_append_left _ hp
    have hlast : (auditHead digest prev records, record) ∈ placed digest prev (records ++ [record]) := by
      rw [placed_append]
      exact List.mem_append_right _ List.mem_cons_self
    have hnodup := ih (fun p hp q hq => hfree p (hsub p hp) q (hsub q hq))
      (fun p hp => hstart p (hsub p hp))
    have hbefore : auditHeads digest prev records =
        (placed digest prev records).map Prod.fst ++ [auditHead digest prev records] := by
      have h := @auditHeads_append digest prev records []
      rwa [List.append_nil] at h
    have hnow : auditHeads digest prev (records ++ [record]) =
        auditHeads digest prev records ++ [record.hash digest (auditHead digest prev records)] := by
      rw [auditHeads_append, hbefore, List.append_assoc]
      rfl
    rw [hnow, List.nodup_append]
    refine ⟨hnodup, List.nodup_singleton _, ?_⟩
    rintro head hhead new hnew rfl
    rw [List.mem_singleton] at hnew
    rcases mem_auditHeads hhead with hgenesis | ⟨p, hp, hhash⟩
    · exact hstart _ hlast (hnew.symm.trans hgenesis)
    · have hprev : p.1 = auditHead digest prev records :=
        hfree p (hsub p hp) _ hlast (hhash.symm.trans hnew)
      rw [hbefore, List.nodup_append] at hnodup
      exact hnodup.2.2 p.1 (List.mem_map_of_mem hp) _ (List.mem_singleton.mpr rfl) hprev

end Trail

/-! ## Tampering -/

/-- The bytes a verifier of the lines may come to hash. -/
def auditBodies (lines : List String) : Set (List UInt8) :=
  {bytes | ∃ line ∈ lines, ∃ head hash, hashSuffix line = some (head, hash) ∧ bytes =
    utf8 (head ++ "\x7d")}

/-- No hash was recomputed: a line that fits its own hash carries one of the trail's. -/
def NotRecomputed (digest : Digest) (lines lines' : List String) : Prop :=
  ∀ line ∈ lines', ∀ head hash, hashSuffix line = some (head, hash) →
    toHex (digest (utf8 (head ++ "\x7d"))) = hash → ∃ written ∈ lines, ∃ head', hashSuffix written =
      some (head', hash)

/-- How many lines come before the first that differs. -/
def commonLength : List String → List String → Nat
  | line :: lines, line' :: lines' => if line = line' then commonLength lines lines' + 1 else 0
  | _, _ => 0

def BreaksAtFirstDifference (digest : Digest) (lines lines' : List String) : Prop :=
  ∃ reason, verifyAuditChain digest lines' =
    ⟨false, some ⟨commonLength lines lines' + 1, reason⟩, commonLength lines lines'⟩

section Tampering

variable {digest : Digest} {records : List AuditRecord} {lines' : List String}

theorem body_mem_auditBodies (hwidth : FixedWidth digest) {p : String × AuditRecord}
    (hp : p ∈ placed digest GENESIS_HEX records) :
    utf8 (p.2.body p.1) ∈ auditBodies (auditTrail digest records) := by
  refine ⟨p.2.line digest p.1, ?_, _, _, p.2.line_suffix p.1 hwidth, by rw [p.2.body_of_head]⟩
  rw [auditTrail, sink_eq_placed]
  exact List.mem_map_of_mem hp

theorem hash_of_free (hwidth : FixedWidth digest)
    (hfree : CollisionFree digest (auditBodies (auditTrail digest records))) {p q : String × AuditRecord}
    (hp : p ∈ placed digest GENESIS_HEX records) (hq : q ∈ placed digest GENESIS_HEX records)
    (h : p.2.hash digest p.1 = q.2.hash digest q.1) : p.1 = q.1 := by
  have hbytes := hfree (body_mem_auditBodies hwidth hp) (body_mem_auditBodies hwidth hq) (toHex_inj h)
  exact @prev_of_body p.2 q.2 p.1 q.1 (utf8_inj hbytes)

/-- A line that passes is one of the trail, and named the hash that was expected. -/
theorem written_of_check (hwidth : FixedWidth digest)
    (hfree : CollisionFree digest (auditBodies (auditTrail digest records) ∪ auditBodies lines'))
    (hnot : NotRecomputed digest (auditTrail digest records) lines') {line prev hash : String}
    (hline : line ∈ lines') (h : checkAuditLine digest prev line = .ok hash) :
    ∃ p ∈ placed digest GENESIS_HEX records, line = p.2.line digest p.1 ∧ p.1 = prev := by
  have hcheck := h
  unfold checkAuditLine at h
  split at h
  · cases h
  · rename_i head own hsuffix
    split at h
    · cases h
    · split at h
      · cases h
      · simp only at h
        split at h
        · cases h
        · rename_i hfits
          rw [not_not] at hfits
          obtain ⟨written, hwritten, head', hsuffix'⟩ := hnot line hline head own hsuffix hfits
          have hmem := hwritten
          rw [auditTrail, sink_eq_placed] at hmem
          obtain ⟨p, hp, rfl⟩ := List.mem_map.mp hmem
          have hcut := p.2.line_suffix p.1 hwidth
          rw [hsuffix'] at hcut
          obtain ⟨hhead, hown⟩ := Prod.mk.inj (Option.some.inj hcut)
          have hdigest : digest (utf8 (head ++ "\x7d")) = digest (utf8 (p.2.body p.1)) :=
            toHex_inj (hfits.trans hown)
          have hbytes := hfree (Or.inr ⟨line, hline, head, own, hsuffix, rfl⟩)
            (Or.inl (body_mem_auditBodies hwidth hp)) hdigest
          have hsame : line = p.2.line digest p.1 := by
            have hbody : head ++ "\x7d" = head' ++ "\x7d" := by
              rw [utf8_inj hbytes, ← p.2.body_of_head, ← hhead]
            have hcancel : head = head' := by
              have hchars := congrArg String.toList hbody
              rw [String.toList_append, String.toList_append] at hchars
              exact String.toList_inj.mp (List.append_cancel_right hchars)
            rw [(hashSuffix_eq_some.mp hsuffix).1, (hashSuffix_eq_some.mp hsuffix').1, hcancel]
          refine ⟨p, hp, hsame, ?_⟩
          rw [hsame, p.2.check_line p.1 hwidth] at hcheck
          split at hcheck
          · rename_i heq
            exact heq.symm
          · cases hcheck

/-- The one written line that passes at a place of the trail is the one written there. -/
theorem foreign_fails (hwidth : FixedWidth digest)
    (hfree : CollisionFree digest (auditBodies (auditTrail digest records) ∪ auditBodies lines'))
    (hgenesis : ∀ p ∈ placed digest GENESIS_HEX records, p.2.hash digest p.1 ≠ GENESIS_HEX)
    (hnot : NotRecomputed digest (auditTrail digest records) lines') {before rest : List AuditRecord}
    (hrecords : records = before ++ rest) {line : String} (hline : line ∈ lines')
    (hforeign : ∀ record ∈ rest.head?, line ≠ record.line digest (auditHead digest GENESIS_HEX before)) :
    ∃ reason, checkAuditLine digest (auditHead digest GENESIS_HEX before) line = .error reason := by
  cases hcheck : checkAuditLine digest (auditHead digest GENESIS_HEX before) line with
  | error reason => exact ⟨reason, rfl⟩
  | ok hash =>
    exfalso
    obtain ⟨p, hp, hwritten, hprev⟩ := written_of_check hwidth hfree hnot hline hcheck
    have hnodup : (auditHeads digest GENESIS_HEX records).Nodup :=
      auditHeads_nodup (fun p hp q hq => hash_of_free hwidth (hfree.mono Set.subset_union_left) hp hq)
        hgenesis
    rw [hrecords, auditHeads_append, List.nodup_append] at hnodup
    obtain ⟨-, hlater, hapart⟩ := hnodup
    rw [hrecords, placed_append, List.mem_append] at hp
    rcases hp with hp | hp
    · have hhead : auditHead digest GENESIS_HEX before ∈
          auditHeads digest (auditHead digest GENESIS_HEX before) rest := by
        cases rest with
        | nil => exact List.mem_singleton.mpr rfl
        | cons record rest => exact List.mem_cons_self
      exact hapart p.1 (List.mem_map_of_mem hp) _ hhead hprev
    · cases rest with
      | nil => cases hp
      | cons record rest =>
        rcases List.mem_cons.mp hp with rfl | hp
        · exact hforeign record rfl hwritten
        · rw [auditHeads, List.nodup_cons] at hlater
          have hagain := placed_heads hp
          rw [hprev] at hagain
          exact hlater.1 hagain

theorem verifyLines_error {prev line : String} {reason : AuditBreakReason}
    (h : checkAuditLine digest prev line = .error reason) (count : Nat) (lines : List String) :
    verifyLines digest prev count (line :: lines) = ⟨false, some ⟨count + 1, reason⟩, count⟩ := by
  simp only [verifyLines, h]

theorem verifyLines_ok {prev line hash : String} (h : checkAuditLine digest prev line = .ok hash)
    (count : Nat) (lines : List String) :
    verifyLines digest prev count (line :: lines) = verifyLines digest hash (count + 1) lines := by
  simp only [verifyLines, h]

theorem commonLength_cons_self (line : String) (lines lines' : List String) :
    commonLength (line :: lines) (line :: lines') = commonLength lines lines' + 1 := by
  simp only [commonLength, if_true]

theorem commonLength_cons_ne {line line' : String} (h : line' ≠ line) (lines lines' : List String) :
    commonLength (line :: lines) (line' :: lines') = 0 := by
  simp only [commonLength, if_neg (Ne.symm h)]

/-- From a place of the trail on: the verifier stops at the first line that differs, or the lines
are the front of what was written. -/
theorem verifyLines_tampered (hwidth : FixedWidth digest)
    (hfree : CollisionFree digest (auditBodies (auditTrail digest records) ∪ auditBodies lines'))
    (hgenesis : ∀ p ∈ placed digest GENESIS_HEX records, p.2.hash digest p.1 ≠ GENESIS_HEX)
    (hnot : NotRecomputed digest (auditTrail digest records) lines') (lines : List String)
    {before rest : List AuditRecord} (hrecords : records = before ++ rest) {prev : String}
    (hprev : auditHead digest GENESIS_HEX before = prev) (hlines : ∀ line ∈ lines, line ∈ lines')
    (count : Nat) :
    (∃ reason, verifyLines digest prev count lines =
      ⟨false, some ⟨count + commonLength (hashChainedAuditSink digest prev rest) lines + 1, reason⟩,
        count + commonLength (hashChainedAuditSink digest prev rest) lines⟩) ∨
    (lines <+: hashChainedAuditSink digest prev rest ∧
      verifyLines digest prev count lines = ⟨true, none, count + lines.length⟩) := by
  induction lines generalizing before rest prev count with
  | nil => exact Or.inr ⟨List.nil_prefix, by simp only [verifyLines, List.length_nil, Nat.add_zero]⟩
  | cons line lines ih =>
    have hline := hlines line List.mem_cons_self
    cases rest with
    | nil =>
      left
      obtain ⟨reason, hcheck⟩ := foreign_fails hwidth hfree hgenesis hnot hrecords hline
        (fun _ h => nomatch h)
      rw [hprev] at hcheck
      exact ⟨reason, verifyLines_error hcheck count lines⟩
    | cons record rest =>
      rw [hashChainedAuditSink]
      by_cases hsame : line = record.line digest prev
      · have hnext : auditHead digest GENESIS_HEX (before ++ [record]) = record.hash digest prev := by
          unfold auditHead at hprev ⊢
          rw [List.foldl_append, hprev]
          rfl
        have hsplit : records = (before ++ [record]) ++ rest := by
          rw [hrecords, List.append_assoc, List.singleton_append]
        have hrest := ih hsplit hnext (fun l hl => hlines l (List.mem_cons_of_mem _ hl)) (count + 1)
        rw [hsame, verifyLines_ok (record.check_line_self prev hwidth), commonLength_cons_self]
        rcases hrest with ⟨reason, hbreak⟩ | ⟨hfront, hintact⟩
        · left
          refine ⟨reason, ?_⟩
          rw [hbreak, Nat.add_assoc count 1, Nat.add_comm 1]
        · right
          refine ⟨(List.prefix_cons_inj _).mpr hfront, ?_⟩
          rw [hintact, List.length_cons, Nat.add_assoc count 1, Nat.add_comm 1]
      · left
        have hforeign : ∀ r ∈ (record :: rest).head?, line ≠ r.line digest
            (auditHead digest GENESIS_HEX before) := by
          intro r hr
          cases hr
          rw [hprev]
          exact hsame
        obtain ⟨reason, hcheck⟩ := foreign_fails hwidth hfree hgenesis hnot hrecords hline hforeign
        rw [hprev] at hcheck
        refine ⟨reason, ?_⟩
        rw [verifyLines_error hcheck, commonLength_cons_ne hsame]
        rfl

theorem verifyLines_written (hwidth : FixedWidth digest) (prev : String) (records : List AuditRecord)
    (count : Nat) :
    verifyLines digest prev count (hashChainedAuditSink digest prev records) =
      ⟨true, none, count + records.length⟩ := by
  induction records generalizing prev count with
  | nil => simp only [hashChainedAuditSink, verifyLines, List.length_nil, Nat.add_zero]
  | cons record records ih =>
    rw [hashChainedAuditSink, verifyLines_ok (record.check_line_self prev hwidth), ih, List.length_cons,
      Nat.add_assoc count 1, Nat.add_comm 1]

/-- What was written and has lost its end verifies as intact. -/
theorem verifyLines_front (hwidth : FixedWidth digest) {lines : List String} (prev : String)
    (records : List AuditRecord)
    (h : lines <+: hashChainedAuditSink digest prev records) (count : Nat) :
    verifyLines digest prev count lines = ⟨true, none, count + lines.length⟩ := by
  induction records generalizing prev count lines with
  | nil =>
    rw [List.prefix_nil.mp h]
    simp only [verifyLines, List.length_nil, Nat.add_zero]
  | cons record records ih =>
    cases lines with
    | nil => simp only [verifyLines, List.length_nil, Nat.add_zero]
    | cons line lines =>
      rw [hashChainedAuditSink, List.cons_prefix_cons] at h
      obtain ⟨hline, hrest⟩ := h
      rw [hline, verifyLines_ok (record.check_line_self prev hwidth), ih _ hrest, List.length_cons,
        Nat.add_assoc count 1, Nat.add_comm 1]

theorem auditBodies_trail (hwidth : FixedWidth digest) {bytes : List UInt8}
    (h : bytes ∈ auditBodies (auditTrail digest records)) :
    ∃ p ∈ placed digest GENESIS_HEX records, bytes = utf8 (p.2.body p.1) := by
  obtain ⟨line, hline, head, hash, hsuffix, rfl⟩ := h
  rw [auditTrail, sink_eq_placed] at hline
  obtain ⟨p, hp, rfl⟩ := List.mem_map.mp hline
  have hcut := p.2.line_suffix p.1 hwidth
  rw [hsuffix] at hcut
  refine ⟨p, hp, ?_⟩
  rw [(Prod.mk.inj (Option.some.inj hcut)).1, p.2.body_of_head]

theorem auditBodies_subset {lines : List String} (h : ∀ line ∈ lines', line ∈ lines) :
    auditBodies lines' ⊆ auditBodies lines := by
  rintro bytes ⟨line, hline, hcut⟩
  exact ⟨line, h line hline, hcut⟩

theorem NotRecomputed.of_subset {lines : List String} (h : ∀ line ∈ lines', line ∈ lines) :
    NotRecomputed digest lines lines' :=
  fun line hline head _ hcut _ => ⟨line, h line hline, head, hcut⟩

/-- The trail verifies; lines that differ from it break at the first that does exactly when they
are not what was written with its end cut off. -/
theorem audit_tamper_evident (hwidth : FixedWidth digest)
    (hgenesis : ∀ p ∈ placed digest GENESIS_HEX records, p.2.hash digest p.1 ≠ GENESIS_HEX)
    (hfree : CollisionFree digest (auditBodies (auditTrail digest records) ∪ auditBodies lines'))
    (hnot : NotRecomputed digest (auditTrail digest records) lines') :
    verifyAuditChain digest (auditTrail digest records) = ⟨true, none, records.length⟩ ∧
      (lines' ≠ auditTrail digest records →
        (BreaksAtFirstDifference digest (auditTrail digest records) lines' ↔
          ¬ lines' <+: auditTrail digest records)) := by
  have hwhole := verifyLines_written hwidth GENESIS_HEX records 0
  rw [Nat.zero_add] at hwhole
  refine ⟨hwhole, fun _ => ?_⟩
  constructor
  · rintro ⟨reason, hbreak⟩ hfront
    have hintact := verifyLines_front hwidth GENESIS_HEX records hfront 0
    have habsurd := congrArg AuditChainReport.intact (hbreak.symm.trans hintact)
    exact Bool.noConfusion habsurd
  · intro hnotFront
    have hstart : auditHead digest GENESIS_HEX [] = GENESIS_HEX := rfl
    have hcases := verifyLines_tampered hwidth hfree hgenesis hnot lines'
      (List.nil_append records).symm hstart
      (fun _ h => h) 0
    simp only [Nat.zero_add] at hcases
    rcases hcases with hbreak | ⟨hfront, -⟩
    · exact hbreak
    · exact absurd hfront hnotFront

end Tampering

def firstRecord : AuditRecord := ⟨0, .stuckSaga, .one, .detected, some "saga_1", [("fee", .bigint 5)], rfl⟩

def secondRecord : AuditRecord := ⟨1, .stuckSaga, .one, .decided, some "saga_1", [], rfl⟩

/-- A digest that depends on the first digit of the hash a line names. -/
def leadDigest : Digest := fun text => List.replicate 32 (if text.getD 9 0 = 48 then 17 else 34)

theorem leadDigest_width : FixedWidth leadDigest := fun _ => List.length_replicate

theorem sampleTrail_bodies {lines' : List String}
    (h : ∀ line ∈ lines', line ∈ auditTrail leadDigest [firstRecord, secondRecord]) :
    CollisionFree leadDigest
      (auditBodies (auditTrail leadDigest [firstRecord, secondRecord]) ∪ auditBodies lines') := by
  rw [Set.union_eq_left.mpr (auditBodies_subset h)]
  have hapart : leadDigest (utf8 (firstRecord.body GENESIS_HEX)) ≠
      leadDigest (utf8 (secondRecord.body (firstRecord.hash leadDigest GENESIS_HEX))) := by
    decide +kernel
  intro x hx y hy hxy
  obtain ⟨p, hp, rfl⟩ := auditBodies_trail leadDigest_width hx
  obtain ⟨q, hq, rfl⟩ := auditBodies_trail leadDigest_width hy
  simp only [placed, List.mem_cons, List.not_mem_nil, or_false] at hp hq
  rcases hp with rfl | rfl
  · rcases hq with rfl | rfl
    · rfl
    · exact absurd hxy hapart
  · rcases hq with rfl | rfl
    · exact absurd hxy.symm hapart
    · rfl

theorem sampleTrail_genesis : ∀ p ∈ placed leadDigest GENESIS_HEX [firstRecord, secondRecord],
    p.2.hash leadDigest p.1 ≠ GENESIS_HEX := by
  intro p hp
  simp only [placed, List.mem_cons, List.not_mem_nil, or_false] at hp
  rcases hp with rfl | rfl
  · decide +kernel
  · decide +kernel

theorem audit_tamper_evident_swapped :
    verifyAuditChain leadDigest (auditTrail leadDigest [firstRecord, secondRecord]) = ⟨true, none, 2⟩ ∧
      ((auditTrail leadDigest [firstRecord, secondRecord]).reverse ≠
        auditTrail leadDigest [firstRecord, secondRecord] →
        (BreaksAtFirstDifference leadDigest (auditTrail leadDigest [firstRecord, secondRecord])
            (auditTrail leadDigest [firstRecord, secondRecord]).reverse ↔
          ¬ (auditTrail leadDigest [firstRecord, secondRecord]).reverse <+:
            auditTrail leadDigest [firstRecord, secondRecord])) :=
  audit_tamper_evident leadDigest_width sampleTrail_genesis
    (sampleTrail_bodies fun _ hline => List.mem_reverse.mp hline)
    (NotRecomputed.of_subset fun _ hline => List.mem_reverse.mp hline)

/-- A trail that lost its last line verifies as intact. -/
theorem dropped_last_line_unseen :
    CollisionFree leadDigest (auditBodies (auditTrail leadDigest [firstRecord, secondRecord]) ∪
      auditBodies (auditTrail leadDigest [firstRecord, secondRecord]).dropLast) ∧
    NotRecomputed leadDigest (auditTrail leadDigest [firstRecord, secondRecord])
      (auditTrail leadDigest [firstRecord, secondRecord]).dropLast ∧
    (auditTrail leadDigest [firstRecord, secondRecord]).dropLast ≠ auditTrail leadDigest
    [firstRecord, secondRecord] ∧
    verifyAuditChain leadDigest (auditTrail leadDigest [firstRecord, secondRecord]).dropLast =
      ⟨true, none, 1⟩ ∧
    ¬ BreaksAtFirstDifference leadDigest (auditTrail leadDigest [firstRecord, secondRecord])
      (auditTrail leadDigest [firstRecord, secondRecord]).dropLast := by
  have hsub : ∀ line ∈ (auditTrail leadDigest [firstRecord, secondRecord]).dropLast,
      line ∈ auditTrail leadDigest [firstRecord, secondRecord] :=
    fun line hline => (List.dropLast_sublist _).subset hline
  have hlength : (auditTrail leadDigest [firstRecord, secondRecord]).length = 2 := by
    rw [auditTrail, sink_eq_placed, List.length_map]
    rfl
  have hintact := verifyLines_front leadDigest_width GENESIS_HEX [firstRecord, secondRecord]
    (List.dropLast_prefix (auditTrail leadDigest [firstRecord, secondRecord])) 0
  rw [List.length_dropLast, hlength] at hintact
  refine ⟨sampleTrail_bodies hsub, NotRecomputed.of_subset hsub, ?_, hintact, ?_⟩
  · intro hsame
    have hshort := congrArg List.length hsame
    rw [List.length_dropLast, hlength] at hshort
    exact absurd hshort (by decide)
  · rintro ⟨reason, hbreak⟩
    exact Bool.noConfusion (congrArg AuditChainReport.intact (hbreak.symm.trans hintact))

end EconomyLab
