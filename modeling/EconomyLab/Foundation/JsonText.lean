import Mathlib.Data.List.Basic
import Mathlib.Tactic.Cases

/-!
# Reading JSON text

A reader of the JSON grammar on characters. What a string holds is a list of code units, so that a
lone surrogate escape is a value too. A text that is written out member by member is read back.
-/

namespace EconomyLab.Foundation

inductive JsonValue
  | null
  | bool (b : Bool)
  | number (text : List Char)
  | string (units : List Nat)
  | array (items : List JsonValue)
  | object (fields : List (List Nat × JsonValue))

namespace JsonText

def isSpace (c : Char) : Bool := c = ' ' || c = '\t' || c = '\n' || c = '\r'

def skipSpace (xs : List Char) : List Char := xs.dropWhile isSpace

def digits : List Char → Option (List Char)
  | [] => none
  | c :: rest => if c.isDigit then some (rest.dropWhile Char.isDigit) else none

/-- Past the digits before the point: no zero leads. -/
def intPart : List Char → Option (List Char)
  | [] => none
  | c :: rest =>
    if c = '0' then some rest
    else if c.isDigit then some (rest.dropWhile Char.isDigit)
    else none

def fracPart : List Char → Option (List Char)
  | [] => some []
  | c :: rest => if c = '.' then digits rest else some (c :: rest)

def signed : List Char → List Char
  | [] => []
  | c :: rest => if c = '+' ∨ c = '-' then rest else c :: rest

def expPart : List Char → Option (List Char)
  | [] => some []
  | c :: rest => if c = 'e' ∨ c = 'E' then digits (signed rest) else some (c :: rest)

def minus : List Char → List Char
  | [] => []
  | c :: rest => if c = '-' then rest else c :: rest

def numberEnd (xs : List Char) : Option (List Char) :=
  ((intPart (minus xs)).bind fracPart).bind expPart

def hexUnit (c : Char) : Option Nat :=
  if 48 ≤ c.toNat ∧ c.toNat ≤ 57 then some (c.toNat - 48)
  else if 97 ≤ c.toNat ∧ c.toNat ≤ 102 then some (c.toNat - 87)
  else if 65 ≤ c.toNat ∧ c.toNat ≤ 70 then some (c.toNat - 55)
  else none

def hexUnits (a b c d : Char) : Option Nat := do
  let a ← hexUnit a
  let b ← hexUnit b
  let c ← hexUnit c
  let d ← hexUnit d
  return ((a * 16 + b) * 16 + c) * 16 + d

def escaped (c : Char) : Option Nat :=
  if c = '"' then some 34
  else if c = '\\' then some 92
  else if c = '/' then some 47
  else if c = 'b' then some 8
  else if c = 'f' then some 12
  else if c = 'n' then some 10
  else if c = 'r' then some 13
  else if c = 't' then some 9
  else none

section Reader

variable (units : Char → List Nat)

/-- The units up to the closing quote, and what follows it. -/
def stringBody : List Char → Option (List Nat × List Char)
  | [] => none
  | c :: rest =>
    if c = '"' then some ([], rest)
    else if c = '\\' then
      match rest with
      | [] => none
      | e :: rest =>
        if e = 'u' then
          match rest with
          | a :: b :: c :: d :: rest =>
            (hexUnits a b c d).bind fun n => (stringBody rest).map fun p => (n :: p.1, p.2)
          | _ => none
        else (escaped e).bind fun n => (stringBody rest).map fun p => (n :: p.1, p.2)
    else if c.toNat < 32 then none
    else (stringBody rest).map fun p => (units c ++ p.1, p.2)

def literal (word : List Char) (xs : List Char) : Option (List Char) :=
  if word.isPrefixOf xs then some (xs.drop word.length) else none

mutual

def value : Nat → List Char → Option (JsonValue × List Char)
  | 0, _ => none
  | fuel + 1, xs =>
    match skipSpace xs with
    | [] => none
    | c :: rest =>
      if c = '\x7b' then
        match skipSpace rest with
        | '\x7d' :: rest => some (.object [], rest)
        | rest => (members fuel rest).map fun p => (.object p.1, p.2)
      else if c = '[' then
        match skipSpace rest with
        | ']' :: rest => some (.array [], rest)
        | rest => (elements fuel rest).map fun p => (.array p.1, p.2)
      else if c = '"' then (stringBody units rest).map fun p => (.string p.1, p.2)
      else if c = 'n' then (literal "null".toList (c :: rest)).map fun rest => (.null, rest)
      else if c = 't' then (literal "true".toList (c :: rest)).map fun rest => (.bool true, rest)
      else if c = 'f' then (literal "false".toList (c :: rest)).map fun rest => (.bool false, rest)
      else (numberEnd (c :: rest)).map fun after =>
        (.number ((c :: rest).take ((c :: rest).length - after.length)), after)

/-- The items of an array up to its end; there is one at least. -/
def elements : Nat → List Char → Option (List JsonValue × List Char)
  | 0, _ => none
  | fuel + 1, xs =>
    (value fuel xs).bind fun p =>
      match skipSpace p.2 with
      | ',' :: rest => (elements fuel rest).map fun q => (p.1 :: q.1, q.2)
      | ']' :: rest => some ([p.1], rest)
      | _ => none

/-- The members of an object up to its end; there is one at least. -/
def members : Nat → List Char → Option (List (List Nat × JsonValue) × List Char)
  | 0, _ => none
  | fuel + 1, xs =>
    match skipSpace xs with
    | '"' :: rest =>
      (stringBody units rest).bind fun key =>
        match skipSpace key.2 with
        | ':' :: rest =>
          (value fuel rest).bind fun p =>
            match skipSpace p.2 with
            | ',' :: rest => (members fuel rest).map fun q => ((key.1, p.1) :: q.1, q.2)
            | '\x7d' :: rest => some ([(key.1, p.1)], rest)
            | _ => none
        | _ => none
    | _ => none

end

/-- The whole text as one value. -/
def read (xs : List Char) : Option JsonValue :=
  (value units (xs.length + 1) xs).bind fun p => if skipSpace p.2 = [] then some p.1 else none

end Reader

/-- Of two members with one name the later counts. -/
def field (name : List Nat) : JsonValue → Option JsonValue
  | .object fields => (fields.reverse.find? fun p => p.1 = name).map Prod.snd
  | _ => none

/-! ## What is written is read back -/

/-- No number goes on into this text. -/
def Stops (rest : List Char) : Prop :=
  ∀ c ∈ rest.head?, c.isDigit = false ∧ c ≠ '.' ∧ c ≠ 'e' ∧ c ≠ 'E'

variable {c : Char} {xs ys : List Char}

theorem Stops.cons (h : c.isDigit = false ∧ c ≠ '.' ∧ c ≠ 'e' ∧ c ≠ 'E') (rest : List Char) :
    Stops (c :: rest) := by
  intro d hd
  cases hd
  exact h

/-- The text starts a value: no space, and nothing that ends a list. -/
def Opens (xs : List Char) : Prop := ∃ c rest, xs = c :: rest ∧ isSpace c = false ∧ c ≠ ']'

theorem Opens.skipSpace (h : Opens xs) (rest : List Char) : skipSpace (xs ++ rest) = xs ++ rest := by
  obtain ⟨c, tail, rfl, hc, -⟩ := h
  simp [JsonText.skipSpace, hc]

theorem skipSpace_cons (h : isSpace c = false) (rest : List Char) :
    skipSpace (c :: rest) = c :: rest := by
  simp [skipSpace, h]

section Numbers

variable {rest : List Char}

theorem dropWhile_digits (hrest : Stops rest) (xs : List Char) :
    (xs ++ rest).dropWhile Char.isDigit = xs.dropWhile Char.isDigit ++ rest := by
  induction xs with
  | nil =>
    cases rest with
    | nil => rfl
    | cons c rest => simp [(hrest c rfl).1]
  | cons c xs ih =>
    by_cases hc : c.isDigit
    · simp [hc, ih]
    · simp [hc]

theorem digits_append (hrest : Stops rest) (h : digits xs = some ys) :
    digits (xs ++ rest) = some (ys ++ rest) := by
  cases xs with
  | nil => cases h
  | cons c xs =>
    simp only [digits] at h
    split at h
    · rename_i hc
      cases h
      simp [digits, hc, dropWhile_digits hrest]
    · cases h

theorem intPart_append (hrest : Stops rest) (h : intPart xs = some ys) :
    intPart (xs ++ rest) = some (ys ++ rest) := by
  cases xs with
  | nil => cases h
  | cons c xs =>
    simp only [intPart] at h
    split at h
    · rename_i hc
      cases h
      simp [intPart, hc]
    · rename_i hzero
      split at h
      · rename_i hc
        cases h
        simp [intPart, hzero, hc, dropWhile_digits hrest]
      · cases h

theorem fracPart_append (hrest : Stops rest) (h : fracPart xs = some ys) :
    fracPart (xs ++ rest) = some (ys ++ rest) := by
  cases xs with
  | nil =>
    cases h
    cases rest with
    | nil => rfl
    | cons c rest => simp [fracPart, (hrest c rfl).2.1]
  | cons c xs =>
    simp only [fracPart] at h
    split at h
    · rename_i hc
      have hdigits := digits_append hrest h
      simpa [fracPart, hc] using hdigits
    · rename_i hc
      cases h
      simp [fracPart, hc]

theorem signed_append (h : digits (signed xs) = some ys) : signed (xs ++ rest) = signed xs ++ rest := by
  cases xs with
  | nil => cases h
  | cons c xs =>
    by_cases hc : c = '+' ∨ c = '-'
    · simp [signed, hc]
    · simp [signed, hc]

theorem expPart_append (hrest : Stops rest) (h : expPart xs = some ys) :
    expPart (xs ++ rest) = some (ys ++ rest) := by
  cases xs with
  | nil =>
    cases h
    cases rest with
    | nil => rfl
    | cons c rest => simp [expPart, (hrest c rfl).2.2]
  | cons c xs =>
    simp only [expPart] at h
    split at h
    · rename_i hc
      have hdigits := digits_append hrest h
      rw [← signed_append h] at hdigits
      simpa [expPart, hc] using hdigits
    · rename_i hc
      cases h
      simp [expPart, hc]

theorem minus_append (h : intPart (minus xs) = some ys) : minus (xs ++ rest) = minus xs ++ rest := by
  cases xs with
  | nil => cases h
  | cons c xs =>
    by_cases hc : c = '-'
    · simp [minus, hc]
    · simp [minus, hc]

theorem numberEnd_append (hrest : Stops rest) (h : numberEnd xs = some ys) :
    numberEnd (xs ++ rest) = some (ys ++ rest) := by
  unfold numberEnd at h ⊢
  obtain ⟨frac, hint, hexp⟩ := Option.bind_eq_some_iff.mp h
  obtain ⟨afterInt, hint, hfrac⟩ := Option.bind_eq_some_iff.mp hint
  rw [minus_append hint, intPart_append hrest hint, Option.bind_some, fracPart_append hrest hfrac,
    Option.bind_some]
  exact expPart_append hrest hexp

end Numbers

section Reads

variable (units : Char → List Nat)

def Reads (xs : List Char) (v : JsonValue) : Prop :=
  ∀ rest, Stops rest → ∀ fuel, xs.length ≤ fuel → value units fuel (xs ++ rest) = some (v, rest)

variable {units}

theorem reads_null : Reads units "null".toList .null := by
  intro rest _ fuel hfuel
  cases fuel with
  | zero => cases hfuel
  | succ fuel => simp [value, skipSpace, isSpace, literal]

theorem reads_bool (b : Bool) : Reads units (if b then "true" else "false").toList (.bool b) := by
  intro rest _ fuel hfuel
  cases b with
  | false =>
    cases fuel with
    | zero => cases hfuel
    | succ fuel => simp [value, skipSpace, isSpace, literal]
  | true =>
    cases fuel with
    | zero => cases hfuel
    | succ fuel => simp [value, skipSpace, isSpace, literal]

theorem reads_string {body : List Char} {us : List Nat}
    (h : ∀ rest, stringBody units (body ++ '"' :: rest) = some (us, rest)) :
    Reads units ('"' :: (body ++ ['"'])) (.string us) := by
  intro rest _ fuel hfuel
  cases fuel with
  | zero => cases hfuel
  | succ fuel =>
    have hbody := h rest
    simp [value, skipSpace, isSpace, hbody]

theorem reads_number (hc : c.isDigit ∨ c = '-') (h : numberEnd (c :: xs) = some []) :
    Reads units (c :: xs) (.number (c :: xs)) := by
  intro rest hrest fuel hfuel
  cases fuel with
  | zero => cases hfuel
  | succ fuel =>
    have hend := numberEnd_append hrest h
    have hne : isSpace c = false ∧ c ≠ '\x7b' ∧ c ≠ '[' ∧ c ≠ '"' ∧ c ≠ 'n' ∧ c ≠ 't' ∧ c ≠ 'f' := by
      refine ⟨?_, ?_, ?_, ?_, ?_, ?_, ?_⟩
      · unfold isSpace
        simp only [Bool.or_eq_false_iff, decide_eq_false_iff_not]
        refine ⟨⟨⟨?_, ?_⟩, ?_⟩, ?_⟩ <;> rintro rfl <;> revert hc <;> decide
      all_goals
        rintro rfl
        revert hc
        decide
    obtain ⟨hspace, h1, h2, h3, h4, h5, h6⟩ := hne
    simp only [List.cons_append, List.nil_append] at hend
    simp only [value, List.cons_append, skipSpace_cons hspace, h1, h2, h3, h4, h5, h6, if_false, hend,
      Option.map_some]
    have hleft : (c :: (xs ++ rest)).length - rest.length = (c :: xs).length := by
      simp only [List.length_cons, List.length_append]
      omega
    rw [hleft, ← List.cons_append, List.take_left]

/-- The texts with commas between them. -/
def joined (texts : List (List Char)) : List Char := [','].intercalate texts

theorem joined_cons_cons (x y : List Char) (texts : List (List Char)) :
    joined (x :: y :: texts) = x ++ ',' :: joined (y :: texts) := by
  simp [joined, List.intercalate_cons_cons]

theorem joined_snoc {texts : List (List Char)} (h : texts ≠ []) (x : List Char) :
    joined (texts ++ [x]) = joined texts ++ ',' :: x := by
  induction texts with
  | nil => exact absurd rfl h
  | cons y texts ih =>
    cases texts with
    | nil => simp [joined, List.intercalate_cons_cons]
    | cons z texts =>
      have hrest := ih (fun hnil => nomatch hnil)
      rw [List.cons_append, List.cons_append, joined_cons_cons, ← List.cons_append, hrest,
        joined_cons_cons]
      simp

theorem elements_joined {items : List (List Char × JsonValue)} (hne : items ≠ [])
    (hitems : ∀ p ∈ items, Reads units p.1 p.2) {fuel : Nat}
    (hfuel : (joined (items.map Prod.fst)).length < fuel) (rest : List Char) :
    elements units fuel (joined (items.map Prod.fst) ++ ']' :: rest) =
      some (items.map Prod.snd, rest) := by
  induction items generalizing fuel with
  | nil => exact absurd rfl hne
  | cons p items ih =>
    cases fuel with
    | zero => cases hfuel
    | succ fuel =>
      have hp := hitems p List.mem_cons_self
      cases items with
      | nil =>
        have hlast : joined ([p].map Prod.fst) = p.1 := by simp [joined]
        rw [hlast] at hfuel ⊢
        have hvalue := hp (']' :: rest) (Stops.cons (by decide) rest) fuel (Nat.le_of_lt_succ hfuel)
        simp [elements, hvalue, skipSpace, isSpace]
      | cons q items =>
        have hmore : joined ((p :: q :: items).map Prod.fst) =
          p.1 ++ ',' :: joined ((q :: items).map Prod.fst) :=
          joined_cons_cons _ _ _
        rw [hmore] at hfuel ⊢
        rw [List.length_append, List.length_cons] at hfuel
        have hvalue := hp (',' :: (joined ((q :: items).map Prod.fst) ++ ']' :: rest)) (Stops.cons (by
          decide) _)
          fuel (by omega)
        have hrest := @ih (fun h => nomatch h) (fun r hr => hitems r (List.mem_cons_of_mem _ hr)) fuel (by
          omega)
        rw [List.append_assoc, List.cons_append]
        simp only [elements, hvalue, Option.bind_some]
        rw [skipSpace_cons (by decide)]
        simp only [hrest, Option.map_some]
        rfl

theorem reads_array {items : List (List Char × JsonValue)}
    (hitems : ∀ p ∈ items, Reads units p.1 p.2 ∧ Opens p.1) :
    Reads units ('[' :: (joined (items.map Prod.fst) ++ [']'])) (.array (items.map Prod.snd)) := by
  intro rest _ fuel hfuel
  cases fuel with
  | zero => cases hfuel
  | succ fuel =>
    cases items with
    | nil => simp [value, skipSpace, isSpace, joined]
    | cons p items =>
      have helements := @elements_joined units (p :: items) (fun h => nomatch h)
        (fun q hq => (hitems q hq).1) fuel (by simp at hfuel ⊢; omega) rest
      have hopens : Opens (joined ((p :: items).map Prod.fst)) := by
        obtain ⟨c, tail, hc, hspace, hend⟩ := (hitems p List.mem_cons_self).2
        cases items with
        | nil => exact ⟨c, tail, by simp [joined, hc], hspace, hend⟩
        | cons q items =>
          have hjoined : joined ((p :: q :: items).map Prod.fst) =
              c :: (tail ++ ',' :: joined ((q :: items).map Prod.fst)) := by
            rw [List.map_cons, List.map_cons, joined_cons_cons, hc, List.cons_append]
          exact ⟨c, _, hjoined, hspace, hend⟩
      have hskip := hopens.skipSpace (']' :: rest)
      obtain ⟨c, tail, hc, -, hend⟩ := hopens
      rw [List.cons_append, List.append_assoc, List.singleton_append]
      simp only [value, skipSpace_cons (show isSpace '[' = false by decide)]
      rw [if_neg (by decide), if_pos trivial, hskip]
      rw [hc, List.cons_append] at helements ⊢
      split
      · rename_i hbracket
        exact absurd (List.cons.inj hbracket).1 hend
      · rw [helements]
        rfl

/-- A member of an object: its name between quotes, and its value. -/
structure Member where
  name : List Char
  units : List Nat
  text : List Char
  value : JsonValue

def Member.written (m : Member) : List Char := '"' :: (m.name ++ '"' :: ':' :: m.text)

def Member.read (m : Member) : List Nat × JsonValue := (m.units, m.value)

theorem members_joined {ms : List Member} (hne : ms ≠ [])
    (hms : ∀ m ∈ ms, (∀ rest, stringBody units (m.name ++ '"' :: rest) = some (m.units, rest)) ∧
      Reads units m.text m.value)
    {fuel : Nat} (hfuel : (joined (ms.map Member.written)).length < fuel) (rest : List Char) :
    members units fuel (joined (ms.map Member.written) ++ '\x7d' :: rest) =
      some (ms.map Member.read, rest) := by
  induction ms generalizing fuel with
  | nil => exact absurd rfl hne
  | cons m ms ih =>
    cases fuel with
    | zero => cases hfuel
    | succ fuel =>
      obtain ⟨hname, hvalue⟩ := hms m List.mem_cons_self
      have hlong : m.written.length = m.name.length + m.text.length + 3 := by
        simp only [Member.written, List.length_cons, List.length_append]
        omega
      cases ms with
      | nil =>
        have hlast : joined ([m].map Member.written) = m.written := by simp [joined]
        rw [hlast] at hfuel ⊢
        have hvalue := hvalue ('\x7d' :: rest) (Stops.cons (by decide) rest) fuel (by omega)
        have hname := hname (':' :: (m.text ++ '\x7d' :: rest))
        simp [members, Member.written, hname, hvalue, skipSpace, isSpace, Member.read]
      | cons m' ms =>
        have hmore : joined ((m :: m' :: ms).map Member.written) =
            m.written ++ ',' :: joined ((m' :: ms).map Member.written) := joined_cons_cons _ _ _
        rw [hmore] at hfuel ⊢
        rw [List.length_append, List.length_cons] at hfuel
        have hvalue := hvalue (',' :: (joined ((m' :: ms).map Member.written) ++ '\x7d' :: rest))
          (Stops.cons (by decide) _) fuel (by omega)
        have hname := hname (':' :: (m.text ++ ',' :: (joined ((m' :: ms).map Member.written) ++
          '\x7d' :: rest)))
        have hrest := @ih (fun h => nomatch h) (fun r hr => hms r (List.mem_cons_of_mem _ hr)) fuel (by
          omega)
        have hshape : m.written ++ ',' :: joined ((m' :: ms).map Member.written) ++ '\x7d' :: rest =
            '"' :: (m.name ++ '"' :: ':' ::
              (m.text ++ ',' :: (joined ((m' :: ms).map Member.written) ++ '\x7d' :: rest))) := by
          simp [Member.written]
        rw [hshape]
        simp only [members, skipSpace_cons (show isSpace '"' = false by decide), hname, Option.bind_some,
          skipSpace_cons (show isSpace ':' = false by decide), hvalue,
          skipSpace_cons (show isSpace ',' = false by decide), hrest, Option.map_some]
        rfl

theorem reads_object {ms : List Member}
    (hms : ∀ m ∈ ms, (∀ rest, stringBody units (m.name ++ '"' :: rest) = some (m.units, rest)) ∧
      Reads units m.text m.value) :
    Reads units ('\x7b' :: (joined (ms.map Member.written) ++ ['\x7d']))
      (.object (ms.map Member.read)) := by
  intro rest _ fuel hfuel
  cases fuel with
  | zero => cases hfuel
  | succ fuel =>
    cases ms with
    | nil => simp [value, skipSpace, isSpace, joined]
    | cons m ms =>
      have hmembers := @members_joined units (m :: ms) (fun h => nomatch h) hms fuel (by
        simp at hfuel ⊢; omega) rest
      have hopens : ∃ tail, joined ((m :: ms).map Member.written) = '"' :: tail := by
        cases ms with
        | nil => exact ⟨m.name ++ '"' :: ':' :: m.text, by simp [joined, Member.written]⟩
        | cons m' ms => exact ⟨_, joined_cons_cons _ _ _⟩
      obtain ⟨tail, htail⟩ := hopens
      rw [List.cons_append, List.append_assoc, List.singleton_append]
      simp only [value, skipSpace_cons (show isSpace '\x7b' = false by decide)]
      rw [if_pos trivial]
      rw [htail, List.cons_append] at hmembers ⊢
      rw [skipSpace_cons (by decide)]
      split
      · rename_i hbrace
        exact absurd (List.cons.inj hbrace).1 (by decide)
      · rw [hmembers]
        rfl

theorem Reads.read {v : JsonValue} (h : Reads units xs v) : read units xs = some v := by
  have hvalue := h [] (fun _ hc => nomatch hc) (xs.length + 1) (Nat.le_succ _)
  rw [List.append_nil] at hvalue
  unfold JsonText.read
  rw [hvalue, Option.bind_some]
  exact if_pos rfl

theorem stringBody_quote (rest : List Char) : stringBody units ('"' :: rest) = some ([], rest) := by
  rw [stringBody.eq_def]
  simp

theorem stringBody_plain (hquote : c ≠ '"') (hslash : c ≠ '\\') (hctl : ¬ c.toNat < 32)
    (rest : List Char) :
    stringBody units (c :: rest) = (stringBody units rest).map fun p => (units c ++ p.1, p.2) := by
  rw [stringBody.eq_def]
  simp only [hquote, hslash, hctl, if_false]

theorem stringBody_escape {e : Char} {n : Nat} (hu : e ≠ 'u') (h : escaped e = some n) (rest : List Char) :
    stringBody units ('\\' :: e :: rest) = (stringBody units rest).map fun p => (n :: p.1, p.2) := by
  rw [stringBody.eq_def]
  simp [hu, h]

theorem stringBody_hex {a b c d : Char} {n : Nat} (h : hexUnits a b c d = some n) (rest : List Char) :
    stringBody units ('\\' :: 'u' :: a :: b :: c :: d :: rest) =
      (stringBody units rest).map fun p => (n :: p.1, p.2) := by
  rw [stringBody.eq_def]
  simp [h]

end Reads

end JsonText

end EconomyLab.Foundation
