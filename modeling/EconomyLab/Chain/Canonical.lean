import Mathlib.Tactic.IntervalCases
import EconomyLab.Bytes
import EconomyLab.Foundation.Codes

/-!
# Canonical metadata reads back

Two metadata values with one canonical text are equal once the keys are sorted at every
depth, whatever follows the text.
-/

namespace EconomyLab

open Foundation Text

mutual

/-- The same value with every object's keys in order. -/
def Json.sorted : Json → Json
  | .null => .null
  | .bool b => .bool b
  | .number n => .number n
  | .decimal d => .decimal d
  | .string s => .string s
  | .bigint n => .bigint n
  | .array items => .array (Json.sortedItems items)
  | .object fields => .object ((Json.sortedFields fields).insertionSort fun a b => codeUnitLe a.1 b.1)

def Json.sortedItems : List Json → List Json
  | [] => []
  | item :: items => item.sorted :: Json.sortedItems items

def Json.sortedFields : List (String × Json) → List (String × Json)
  | [] => []
  | (key, value) :: fields => (key, value.sorted) :: Json.sortedFields fields

end

theorem Json.sortedItems_eq (items : List Json) : Json.sortedItems items = items.map Json.sorted := by
  induction items with
  | nil => rfl
  | cons item items ih => simp [Json.sortedItems, ih]

theorem Json.sortedFields_eq (fields : List (String × Json)) :
    Json.sortedFields fields = fields.map fun p => (p.1, p.2.sorted) := by
  induction fields with
  | nil => rfl
  | cons p fields ih => simp [Json.sortedFields, ih]

/-- Induction on a value through the items of its arrays and the fields of its objects. -/
theorem Json.induct {motive : Json → Prop} (null : motive .null) (bool : ∀ b, motive (.bool b))
    (number : ∀ n, motive (.number n)) (decimal : ∀ d, motive (.decimal d))
    (string : ∀ s, motive (.string s)) (bigint : ∀ n, motive (.bigint n))
    (array : ∀ items, (∀ item ∈ items, motive item) → motive (.array items))
    (object : ∀ fields, (∀ p ∈ fields, motive p.2) → motive (.object fields)) : ∀ j, motive j
  | .null => null
  | .bool b => bool b
  | .number n => number n
  | .decimal d => decimal d
  | .string s => string s
  | .bigint n => bigint n
  | .array items => array items fun item _ => Json.induct null bool number decimal string bigint
    array object item
  | .object fields =>
    object fields fun p _ => Json.induct null bool number decimal string bigint array object p.2
termination_by j => sizeOf j
decreasing_by
  · have := List.sizeOf_lt_of_mem ‹_ ∈ items›
    simp_wf
    omega
  · have := List.sizeOf_lt_of_mem ‹_ ∈ fields›
    have hp : sizeOf p = 1 + sizeOf p.1 + sizeOf p.2 := rfl
    simp_wf
    omega

/-- Metadata up to the order of its keys. -/
def Meta.sorted (fields : Meta) : Json := (Json.object fields).sorted

/-- No raw `bigint` anywhere, so the canonical text exists. -/
def Json.Plain (j : Json) : Prop := ∃ text, canonicalMeta j = .ok text

def Json.text (j : Json) : String := (canonicalMeta j).toOption.getD ""

variable {j k : Json} {c : Char}

theorem Json.text_of_ok {text : String} (h : canonicalMeta j = .ok text) : j.text = text := by
  simp [Json.text, h, Except.toOption]

theorem Json.Plain.ok (h : j.Plain) : canonicalMeta j = .ok j.text := by
  obtain ⟨text, h⟩ := h
  rw [Json.text_of_ok h, h]

theorem canonicalItems_ok {items : List Json} {texts : List String}
    (h : canonicalItems items = .ok texts) :
    texts = items.map Json.text ∧ ∀ item ∈ items, item.Plain := by
  induction items generalizing texts with
  | nil =>
    cases h
    simp
  | cons item items ih =>
    unfold canonicalItems at h
    obtain ⟨text, hitem, h⟩ := except_bind_ok.mp h
    obtain ⟨rest, hrest, h⟩ := except_bind_ok.mp h
    rw [except_pure_ok] at h
    obtain ⟨htexts, hplain⟩ := ih hrest
    refine ⟨by rw [← h, htexts, List.map_cons, Json.text_of_ok hitem], ?_⟩
    intro j hj
    rcases List.mem_cons.mp hj with rfl | hj
    · exact ⟨text, hitem⟩
    · exact hplain j hj

variable {fields : List (String × Json)}

theorem canonicalFields_ok {texts : List (String × String)} (h : canonicalFields fields = .ok texts) :
    texts = fields.map (fun p => (p.1, p.2.text)) ∧ ∀ p ∈ fields, p.2.Plain := by
  induction fields generalizing texts with
  | nil =>
    cases h
    simp
  | cons p fields ih =>
    obtain ⟨key, value⟩ := p
    unfold canonicalFields at h
    obtain ⟨text, hvalue, h⟩ := except_bind_ok.mp h
    obtain ⟨rest, hrest, h⟩ := except_bind_ok.mp h
    rw [except_pure_ok] at h
    obtain ⟨htexts, hplain⟩ := ih hrest
    refine ⟨by rw [← h, htexts, List.map_cons, Json.text_of_ok hvalue], ?_⟩
    intro q hq
    rcases List.mem_cons.mp hq with rfl | hq
    · exact ⟨text, hvalue⟩
    · exact hplain q hq

def sortedByKey (fields : List (String × Json)) : List (String × Json) :=
  fields.insertionSort fun a b => codeUnitLe a.1 b.1

theorem mem_sortedByKey {p : String × Json} : p ∈ sortedByKey fields ↔ p ∈ fields := by
  simp [sortedByKey]

theorem Json.sorted_object (fields : List (String × Json)) :
    (Json.object fields).sorted = .object ((sortedByKey fields).map fun p => (p.1, p.2.sorted)) := by
  have h := List.map_insertionSort (fun a b : String × Json => codeUnitLe a.1 b.1 = true)
    (fun a b : String × Json => codeUnitLe a.1 b.1 = true) (fun p => (p.1, p.2.sorted)) fields
    (fun _ _ _ _ => Iff.rfl)
  simp only [Json.sorted, Json.sortedFields_eq, sortedByKey]
  rw [h]

theorem Json.Plain.array {items : List Json} (h : (Json.array items).Plain) :
    (Json.array items).text = "[" ++ ",".intercalate (items.map Json.text) ++ "]" ∧
      ∀ item ∈ items, item.Plain := by
  obtain ⟨text, h⟩ := h
  have htext := Json.text_of_ok h
  simp only [canonicalMeta] at h
  obtain ⟨texts, hitems, h⟩ := except_bind_ok.mp h
  rw [except_pure_ok] at h
  obtain ⟨htexts, hplain⟩ := canonicalItems_ok hitems
  exact ⟨by rw [htext, ← h, htexts], hplain⟩

def fieldText (p : String × Json) : String := quote p.1 ++ ":" ++ p.2.text

theorem Json.Plain.object (h : (Json.object fields).Plain) : (Json.object fields).text =
        "\x7b" ++ ",".intercalate ((sortedByKey fields).map fieldText) ++ "\x7d" ∧
      ∀ p ∈ fields, p.2.Plain := by
  obtain ⟨text, h⟩ := h
  have htext := Json.text_of_ok h
  simp only [canonicalMeta] at h
  obtain ⟨texts, hfields, h⟩ := except_bind_ok.mp h
  rw [except_pure_ok] at h
  obtain ⟨htexts, hplain⟩ := canonicalFields_ok hfields
  have hsort : texts.insertionSort (fun a b => keyLe a b) =
      (sortedByKey fields).map fun p => (p.1, p.2.text) := by
    have h := List.map_insertionSort (fun a b : String × Json => codeUnitLe a.1 b.1 = true)
      (fun a b : String × String => keyLe a b = true) (fun p => (p.1, p.2.text)) fields
      (fun _ _ _ _ => Iff.rfl)
    rw [htexts, sortedByKey, h]
  refine ⟨?_, hplain⟩
  rw [htext, ← h, hsort, List.map_map]
  rfl

/-- The first character of an escaped text, and the rest of the text. -/
def unescape : List Char → Option (Char × List Char)
  | '\\' :: 'b' :: rest => some (Char.ofNat 8, rest)
  | '\\' :: 't' :: rest => some (Char.ofNat 9, rest)
  | '\\' :: 'n' :: rest => some (Char.ofNat 10, rest)
  | '\\' :: 'f' :: rest => some (Char.ofNat 12, rest)
  | '\\' :: 'r' :: rest => some (Char.ofNat 13, rest)
  | '\\' :: 'u' :: _ :: _ :: a :: b :: rest =>
    match hexDigit a, hexDigit b with
    | .ok high, .ok low => some (Char.ofNat (high * 16 + low), rest)
    | _, _ => none
  | '\\' :: c :: rest => some (c, rest)
  | c :: rest => some (c, rest)
  | [] => none

theorem unescape_plain (h : c ≠ '\\') (rest : List Char) : unescape (c :: rest) = some (c, rest) := by
  unfold unescape
  split <;> simp_all

theorem escapeChar_control (h : c.toNat < 32) : (escapeChar c).toList.head? = some '\\' ∧
      ∀ rest, unescape ((escapeChar c).toList ++ rest) = some (c, rest) := by
  have hof : c = Char.ofNat c.toNat := (Char.ofNat_toNat c).symm
  generalize c.toNat = n at h hof
  subst hof
  have key : ∀ n < 32, (escapeChar (Char.ofNat n)).toList.head? = some '\\' ∧
      ∀ rest, unescape ((escapeChar (Char.ofNat n)).toList ++ rest) = some (Char.ofNat n, rest) := by
    intro n hn
    interval_cases n <;> exact ⟨by decide, fun rest => rfl⟩
  exact key n h

/-- An escaped character never opens with the closing quote and is read back. -/
theorem escapeChar_read (c : Char) :
    (∃ d ds, (escapeChar c).toList = d :: ds ∧ d ≠ '"') ∧
      ∀ rest, unescape ((escapeChar c).toList ++ rest) = some (c, rest) := by
  by_cases hctl : c.toNat < 32
  · obtain ⟨hhead, hread⟩ := escapeChar_control hctl
    refine ⟨?_, hread⟩
    obtain ⟨ds, hds⟩ := List.head?_eq_some_iff.mp hhead
    exact ⟨'\\', ds, hds, by decide⟩
  · by_cases hq : c = '"'
    · subst hq
      exact ⟨⟨'\\', ['"'], rfl, by decide⟩, fun rest => rfl⟩
    · by_cases hb : c = '\\'
      · subst hb
        exact ⟨⟨'\\', ['\\'], rfl, by decide⟩, fun rest => rfl⟩
      · have hplain : (escapeChar c).toList = [c] := by
          have h8 : c.toNat ≠ 8 := by omega
          have h9 : c.toNat ≠ 9 := by omega
          have h10 : c.toNat ≠ 10 := by omega
          have h12 : c.toNat ≠ 12 := by omega
          have h13 : c.toNat ≠ 13 := by omega
          simp [escapeChar, hq, hb, h8, h9, h10, h12, h13, hctl]
        refine ⟨⟨c, [], hplain, hq⟩, ?_⟩
        intro rest
        rw [hplain]
        exact unescape_plain hb rest

theorem escaped_inj {xs ys r r' : List Char}
    (h : xs.flatMap (fun c => (escapeChar c).toList) ++ '"' :: r =
      ys.flatMap (fun c => (escapeChar c).toList) ++ '"' :: r') : xs = ys ∧ r = r' := by
  induction xs generalizing ys with
  | nil =>
    cases ys with
    | nil => exact ⟨rfl, (List.cons.inj h).2⟩
    | cons y ys =>
      obtain ⟨⟨d, ds, hd, hne⟩, -⟩ := escapeChar_read y
      simp only [List.flatMap_nil, List.nil_append, List.flatMap_cons, hd, List.cons_append,
        List.append_assoc] at h
      exact absurd (List.cons.inj h).1.symm hne
  | cons x xs ih =>
    obtain ⟨⟨d, ds, hd, hne⟩, hx⟩ := escapeChar_read x
    cases ys with
    | nil =>
      simp only [List.flatMap_nil, List.nil_append, List.flatMap_cons, hd, List.cons_append,
        List.append_assoc] at h
      exact absurd (List.cons.inj h).1 hne
    | cons y ys =>
      simp only [List.flatMap_cons, List.append_assoc] at h
      have hread := (hx _).symm.trans ((congrArg unescape h).trans ((escapeChar_read y).2 _))
      simp only [Option.some.injEq, Prod.mk.injEq] at hread
      obtain ⟨rfl, hrest⟩ := hread
      obtain ⟨rfl, hr⟩ := ih hrest
      exact ⟨rfl, hr⟩

theorem quote_toList (s : String) :
    (quote s).toList = '"' :: (s.toList.flatMap (fun c => (escapeChar c).toList) ++ ['"']) := by
  have hjoin : ∀ ts : List String, (String.join ts).toList = ts.flatMap String.toList := by
    intro ts
    induction ts with
    | nil => rfl
    | cons t ts ih => simp
  simp [quote, hjoin, List.flatMap_map]

theorem quote_inj {s t : String} {r r' : List Char}
    (h : (quote s).toList ++ r = (quote t).toList ++ r') : s = t ∧ r = r' := by
  simp only [quote_toList, List.cons_append, List.append_assoc, List.nil_append, List.cons.injEq,
    true_and] at h
  obtain ⟨hs, hr⟩ := escaped_inj h
  exact ⟨String.toList_inj.mp hs, hr⟩

/-! ## The whole text -/

/-- What may follow a value inside an array or an object. -/
def jsonStop (c : Char) : Prop := c = ',' ∨ c = ']' ∨ c = '\x7d'

theorem jsonStop_comma : jsonStop ',' := Or.inl rfl

theorem jsonStop_bracket : jsonStop ']' := Or.inr (Or.inl rfl)

theorem jsonStop_brace : jsonStop '\x7d' := Or.inr (Or.inr rfl)

def Json.shape : Json → Nat
  | .null => 0
  | .bool _ => 1
  | .number _ => 2
  | .decimal _ => 2
  | .string _ => 3
  | .bigint _ => 4
  | .array _ => 5
  | .object _ => 6

/-- The shape of a value, read off the first character of its text. -/
def shapeOf (c : Char) : Nat :=
  if c = 'n' then 0
  else if c = 't' ∨ c = 'f' then 1
  else if c.isDigit ∨ c = '-' then 2
  else if c = '"' then 3
  else if c = '[' then 5
  else if c = '\x7b' then 6
  else 7

theorem shapeOf_number (h : c.isDigit ∨ c = '-') : shapeOf c = 2 := by
  have hn : c ≠ 'n' := by
    rintro rfl
    revert h
    decide
  have hb : ¬ (c = 't' ∨ c = 'f') := by
    rintro (rfl | rfl) <;> revert h <;> decide
  simp [shapeOf, hn, hb, h]

theorem not_jsonStop_number (h : c.isDigit ∨ c = '-') : ¬ jsonStop c := by
  rintro (rfl | rfl | rfl) <;> revert h <;> decide

theorem Json.not_plain_bigint (n : Int) : ¬ (Json.bigint n).Plain := by
  rintro ⟨text, h⟩
  simp [canonicalMeta] at h

theorem Json.text_number (n : Int) : (Json.number n).text = toString n :=
  Json.text_of_ok (by simp [canonicalMeta])

theorem Json.text_decimal (d : Decimal) : (Json.decimal d).text = d.text :=
  Json.text_of_ok (by simp [canonicalMeta])

theorem Json.text_string (s : String) : (Json.string s).text = quote s :=
  Json.text_of_ok (by simp [canonicalMeta])

theorem Json.text_null : Json.null.text = "null" := Json.text_of_ok (by simp [canonicalMeta])

theorem Json.text_bool (b : Bool) : (Json.bool b).text = if b then "true" else "false" :=
  Json.text_of_ok (by simp [canonicalMeta])

/-- The first character of a text gives away the shape. -/
theorem Json.Plain.lead (h : j.Plain) : ∃ c t, j.text.toList = c :: t ∧ shapeOf c = j.shape := by
  cases j with
  | null => exact ⟨'n', _, by rw [Json.text_null]; rfl, rfl⟩
  | bool b =>
    cases b with
    | true => exact ⟨'t', _, by rw [Json.text_bool]; rfl, rfl⟩
    | false => exact ⟨'f', _, by rw [Json.text_bool]; rfl, rfl⟩
  | number n =>
    obtain ⟨c, t, hc⟩ := List.exists_cons_of_ne_nil (toString_int_ne_nil n)
    refine ⟨c, t, by rw [Json.text_number, hc], ?_⟩
    exact shapeOf_number (mem_toString_int (hc ▸ List.mem_cons_self))
  | decimal d =>
    obtain ⟨c, rest, hc, hlead⟩ := d.lead
    exact ⟨c, rest, by rw [Json.text_decimal, hc], shapeOf_number hlead⟩
  | string s => exact ⟨'"', _, by rw [Json.text_string, quote_toList], rfl⟩
  | bigint n => exact absurd h (Json.not_plain_bigint n)
  | array items =>
    exact ⟨'[', (",".intercalate (items.map Json.text)).toList ++ [']'], by simp [h.array.1], rfl⟩
  | object fields =>
    exact ⟨'\x7b', (",".intercalate ((sortedByKey fields).map fieldText)).toList ++ ['\x7d'],
      by simp [h.object.1], rfl⟩

theorem Json.shape_lt (j : Json) : j.shape < 7 := by
  cases j <;> simp [Json.shape]

theorem Json.Plain.start (h : j.Plain) {close : Char} (hclose : shapeOf close = 7) :
    j.text.toList ≠ [] ∧ ∀ c ∈ j.text.toList.head?, c ≠ close := by
  obtain ⟨c, t, hc, hs⟩ := h.lead
  refine ⟨by simp [hc], ?_⟩
  intro d hd
  rw [hc, List.head?_cons, Option.mem_some_iff] at hd
  subst hd
  rintro rfl
  exact absurd j.shape_lt (by omega)

theorem Json.Plain.shape_eq {r r' : List Char} (hj : j.Plain) (hk : k.Plain)
    (h : j.text.toList ++ r = k.text.toList ++ r') : j.shape = k.shape := by
  obtain ⟨c, t, hc, hcs⟩ := hj.lead
  obtain ⟨d, u, hd, hds⟩ := hk.lead
  rw [hc, hd, List.cons_append, List.cons_append] at h
  rw [← hcs, ← hds, (List.cons.inj h).1]

theorem toldApart_of_noStop {α κ : Type} {enc : α → List Char} {key : α → κ} {a b : α}
    (ha : ∀ c ∈ enc a, ¬ jsonStop c) (hb : ∀ c ∈ enc b, ¬ jsonStop c)
    (h : enc a = enc b → key a = key b) : ToldApart jsonStop enc key a b := by
  intro r r' hr hr' he
  obtain ⟨hs, ht⟩ := append_stop_inj ha hb hr hr' he
  exact ⟨h hs, ht⟩

theorem Json.noStop_of_numeral (h : j.shape = 2) : ∀ c ∈ j.text.toList, ¬ jsonStop c := by
  cases j <;> simp [Json.shape] at h
  · intro c hc
    rw [Json.text_number] at hc
    exact not_jsonStop_number (mem_toString_int hc)
  · rename_i d
    intro c hc
    rw [Json.text_decimal] at hc
    rintro (rfl | rfl | rfl) <;> exact absurd (d.numeral _ hc) (by decide)

theorem Json.eq_of_numeral (hj : j.shape = 2) (hk : k.shape = 2) (h : j.text = k.text) : j = k := by
  cases j <;> simp [Json.shape] at hj <;> cases k <;> simp [Json.shape] at hk <;>
    simp only [Json.text_number, Json.text_decimal] at h
  · rw [toString_int_inj h]
  · exact absurd h (Decimal.notInteger _ _)
  · exact absurd h.symm (Decimal.notInteger _ _)
  · rename_i d d'
    cases d
    cases d'
    subst h
    rfl

theorem Json.toldApart_numeral (hj : j.shape = 2) (hk : k.shape = 2) :
    ToldApart jsonStop (fun j => j.text.toList) Json.sorted j k := by
  refine toldApart_of_noStop (Json.noStop_of_numeral hj) (Json.noStop_of_numeral hk) ?_
  intro h
  rw [Json.eq_of_numeral hj hk (String.toList_inj.mp h)]

theorem Json.toldApart_array {xs ys : List Json} (hx : (Json.array xs).Plain)
    (hy : (Json.array ys).Plain)
    (ih : ∀ x ∈ xs, ∀ y ∈ ys, ToldApart jsonStop (fun j => j.text.toList) Json.sorted x y) :
    ToldApart jsonStop (fun j : Json => j.text.toList) Json.sorted (.array xs) (.array ys) := by
  obtain ⟨htx, hpx⟩ := hx.array
  obtain ⟨hty, hpy⟩ := hy.array
  intro r r' _ _ h
  have hitems : [','].intercalate (xs.map fun j => j.text.toList) ++ ']' :: r =
      [','].intercalate (ys.map fun j => j.text.toList) ++ ']' :: r' := by
    simpa [htx, hty, Function.comp_def] using h
  have hstart : ∀ a ∈ xs ++ ys, a.text.toList ≠ [] ∧ ∀ c ∈ a.text.toList.head?, c ≠ ']' := by
    intro a ha
    have hplain : a.Plain := (List.mem_append.mp ha).elim (hpx a) (hpy a)
    exact hplain.start (by decide)
  obtain ⟨hs, hr⟩ := joined_inj jsonStop_comma jsonStop_bracket (by decide) hstart ih hitems
  refine ⟨?_, hr⟩
  rw [Json.sorted, Json.sorted, Json.sortedItems_eq, Json.sortedItems_eq, hs]

theorem fieldText_toldApart {p q : String × Json}
    (ih : ToldApart jsonStop (fun j : Json => j.text.toList) Json.sorted p.2 q.2) :
    ToldApart jsonStop (fun p => (fieldText p).toList) (fun p => (p.1, p.2.sorted)) p q := by
  intro r r' hr hr' h
  simp only [fieldText, String.toList_append, List.append_assoc] at h
  obtain ⟨hkey, h⟩ := quote_inj h
  obtain ⟨hvalue, ht⟩ := ih r r' hr hr' (List.append_cancel_left h)
  exact ⟨Prod.ext hkey hvalue, ht⟩

theorem Json.toldApart_object {xs ys : List (String × Json)} (hx : (Json.object xs).Plain)
    (hy : (Json.object ys).Plain)
    (ih : ∀ p ∈ xs, ∀ q ∈ ys, ToldApart jsonStop (fun j => j.text.toList) Json.sorted p.2 q.2) :
    ToldApart jsonStop (fun j : Json => j.text.toList) Json.sorted (.object xs) (.object ys) := by
  obtain ⟨htx, -⟩ := hx.object
  obtain ⟨hty, -⟩ := hy.object
  intro r r' _ _ h
  have hfields : [','].intercalate ((sortedByKey xs).map fun p => (fieldText p).toList) ++ '\x7d' :: r =
      [','].intercalate ((sortedByKey ys).map fun p => (fieldText p).toList) ++ '\x7d' :: r' := by
    simpa [htx, hty, Function.comp_def] using h
  have hstart : ∀ p ∈ sortedByKey xs ++ sortedByKey ys,
      (fieldText p).toList ≠ [] ∧ ∀ c ∈ (fieldText p).toList.head?, c ≠ '\x7d' := by
    intro p _
    rw [fieldText, String.toList_append, String.toList_append, quote_toList]
    exact ⟨by simp, by simp⟩
  have hread : ∀ p ∈ sortedByKey xs, ∀ q ∈ sortedByKey ys,
      ToldApart jsonStop (fun p => (fieldText p).toList) (fun p => (p.1, p.2.sorted)) p q := by
    intro p hp q hq
    exact fieldText_toldApart (ih p (mem_sortedByKey.mp hp) q (mem_sortedByKey.mp hq))
  obtain ⟨hs, hr⟩ := joined_inj jsonStop_comma jsonStop_brace (by decide) hstart hread hfields
  refine ⟨?_, hr⟩
  rw [Json.sorted_object, Json.sorted_object, hs]

theorem Json.toldApart_of_shape (hj : j.Plain) (hk : k.Plain)
    (h : j.shape = k.shape → ToldApart jsonStop (fun j => j.text.toList) Json.sorted j k) :
    ToldApart jsonStop (fun j => j.text.toList) Json.sorted j k :=
  fun r r' hr hr' he => h (hj.shape_eq hk he) r r' hr hr' he

/-- Two canonical texts that agree with what follows them were written for one value. -/
theorem Json.toldApart (j k : Json) (hj : j.Plain) (hk : k.Plain) :
    ToldApart jsonStop (fun j : Json => j.text.toList) Json.sorted j k := by
  refine Json.toldApart_of_shape hj hk ?_
  intro hshape
  induction j using Json.induct generalizing k with
  | null =>
    cases k <;> simp [Json.shape] at hshape
    exact fun r r' _ _ h => ⟨rfl, List.append_cancel_left h⟩
  | bool b =>
    cases k <;> simp [Json.shape] at hshape
    rename_i b'
    have plain : ∀ b : Bool, ∀ c ∈ (Json.bool b).text.toList, ¬ jsonStop c := by
      intro b c hc
      rw [Json.text_bool] at hc
      rintro (rfl | rfl | rfl) <;> cases b <;> simp at hc
    refine toldApart_of_noStop (plain b) (plain b') ?_
    intro h
    simp only [Json.text_bool] at h
    cases b <;> cases b' <;> simp at h ⊢
  | number n => exact Json.toldApart_numeral rfl hshape.symm
  | decimal d => exact Json.toldApart_numeral rfl hshape.symm
  | string s =>
    cases k <;> simp [Json.shape] at hshape
    intro r r' _ _ h
    simp only [Json.text_string] at h
    obtain ⟨rfl, hr⟩ := quote_inj h
    exact ⟨rfl, hr⟩
  | bigint n => exact absurd hj (Json.not_plain_bigint n)
  | array items ih =>
    cases k <;> simp [Json.shape] at hshape
    refine Json.toldApart_array hj hk ?_
    intro x hx y hy
    exact Json.toldApart_of_shape (hj.array.2 x hx) (hk.array.2 y hy)
      (ih x hx y (hj.array.2 x hx) (hk.array.2 y hy))
  | object fields ih =>
    cases k <;> simp [Json.shape] at hshape
    refine Json.toldApart_object hj hk ?_
    intro p hp q hq
    exact Json.toldApart_of_shape (hj.object.2 p hp) (hk.object.2 q hq)
      (ih p hp q.2 (hj.object.2 p hp) (hk.object.2 q hq))

/-- Metadata with one canonical text is the same up to the order of its keys. -/
theorem canonicalMeta_inj {text : String} (hj : canonicalMeta j = .ok text)
    (hk : canonicalMeta k = .ok text) : j.sorted = k.sorted := by
  have h := Json.toldApart j k ⟨text, hj⟩ ⟨text, hk⟩ [] [] (Ends.nil _) (Ends.nil _)
  refine (h ?_).1
  simp [Json.text_of_ok hj, Json.text_of_ok hk]

/-- The canonical text does not see the order of keys at any depth. -/
theorem Json.text_of_sorted (hj : j.Plain) (hk : k.Plain) (h : j.sorted = k.sorted) :
    j.text = k.text := by
  induction j using Json.induct generalizing k with
  | null | bool b | number n | decimal d | string s | bigint n =>
    cases k <;> simp_all [Json.sorted]
  | array items ih =>
    cases k with
    | array items' =>
      simp only [Json.sorted, Json.sortedItems_eq, Json.array.injEq] at h
      have htexts : items.map Json.text = items'.map Json.text := by
        apply map_eq_of_map_eq h
        intro item hitem item' hitem' hsorted
        exact ih item hitem (hj.array.2 item hitem) (hk.array.2 item' hitem') hsorted
      rw [hj.array.1, hk.array.1, htexts]
    | _ => simp [Json.sorted] at h
  | object fields ih =>
    cases k with
    | object fields' =>
      simp only [Json.sorted_object, Json.object.injEq] at h
      have htexts : (sortedByKey fields).map fieldText = (sortedByKey fields').map fieldText := by
        apply map_eq_of_map_eq h
        intro p hp q hq hsorted
        rw [mem_sortedByKey] at hp hq
        obtain ⟨hkey, hvalue⟩ := Prod.mk.inj hsorted
        have hsame := ih p hp (hj.object.2 p hp) (hk.object.2 q hq) hvalue
        rw [fieldText, fieldText, hkey, hsame]
      rw [hj.object.1, hk.object.1, htexts]
    | _ => simp [Json.sorted] at h

end EconomyLab
