import EconomyLab.Errors
import EconomyLab.Text

/-!
# Posting metadata and its canonical bytes

Metadata is free-form JSON. Its canonical text sorts object keys at every depth, so a
reload from the database hashes the same.
-/

namespace EconomyLab

open Text

def numeralSymbols : List Char := ['-', '+', '.', 'e']

/-- A number that does not print as plain integer digits, kept as its printed text. -/
structure Decimal where
  text : String
  numeral : ∀ c ∈ text.toList, c.isDigit ∨ c ∈ numeralSymbols
  lead : ∃ c rest, text.toList = c :: rest ∧ (c.isDigit ∨ c = '-')
  notInteger : ∀ n : Int, toString n ≠ text

/-- What a `Record<string, unknown>` holds; a raw `bigint` can get in and is refused. -/
inductive Json
  | null
  | bool (b : Bool)
  | number (n : Int)
  | decimal (d : Decimal)
  | string (s : String)
  | bigint (n : Int)
  | array (items : List Json)
  | object (fields : List (String × Json))

abbrev Meta := List (String × Json)

def hexDigits : List Char := "0123456789abcdef".toList

def hexChar (n : Nat) : Char := hexDigits.getD n '0'

def escapeChar (c : Char) : String :=
  if c = '"' then "\\\""
  else if c = '\\' then "\\\\"
  else if c.toNat = 8 then "\\b"
  else if c.toNat = 9 then "\\t"
  else if c.toNat = 10 then "\\n"
  else if c.toNat = 12 then "\\f"
  else if c.toNat = 13 then "\\r"
  else if c.toNat < 32 then
    "\\u00" ++ String.ofList [hexChar (c.toNat / 16), hexChar (c.toNat % 16)]
  else String.ofList [c]

/-- `JSON.stringify` of a string. -/
def quote (s : String) : String := "\"" ++ String.join (s.toList.map escapeChar) ++ "\""

def keyLe (a b : String × String) : Bool := codeUnitLe a.1 b.1

mutual

def canonicalMeta : Json → Except Fault String
  | .null => .ok "null"
  | .bool b => .ok (if b then "true" else "false")
  | .number n => .ok (toString n)
  | .decimal d => .ok d.text
  | .string s => .ok (quote s)
  | .bigint _ => .error (fault .malformedOperation "A bigint reached canonical meta unencoded.")
  | .array items => do
    let texts ← canonicalItems items
    return "[" ++ ",".intercalate texts ++ "]"
  | .object fields => do
    let texts ← canonicalFields fields
    let sorted := texts.insertionSort (fun a b => keyLe a b)
    return "\x7b" ++ ",".intercalate (sorted.map fun p => quote p.1 ++ ":" ++ p.2) ++ "\x7d"

def canonicalItems : List Json → Except Fault (List String)
  | [] => .ok []
  | item :: items => do
    let text ← canonicalMeta item
    let texts ← canonicalItems items
    return text :: texts

def canonicalFields : List (String × Json) → Except Fault (List (String × String))
  | [] => .ok []
  | (key, value) :: fields => do
    let text ← canonicalMeta value
    let texts ← canonicalFields fields
    return (key, text) :: texts

end

end EconomyLab
