/-
What PostgreSQL accepts as the value of a column.  A text holds every
character but U+0000, a `jsonb` document holds such texts only, and a
`timestamptz` is bounded on both sides.
-/
import ApalisPostgres.Statements

namespace ApalisPostgres

/-- A `text` value: U+0000 is the one character the encoding refuses. -/
def textAccepts (text : String) : Bool :=
  !text.toList.contains (Char.ofNat 0)

mutual

/-- `jsonb` refuses exactly the documents in which a string contains U+0000;
the name of a field is a string too. -/
def jsonbAccepts : Json → Bool
  | .null => true
  | .bool _ => true
  | .num _ => true
  | .str text => textAccepts text
  | .arr items => jsonbAcceptsItems items
  | .obj fields => jsonbAcceptsFields fields

def jsonbAcceptsItems : List Json → Bool
  | [] => true
  | item :: rest => jsonbAccepts item && jsonbAcceptsItems rest

def jsonbAcceptsFields : List (String × Json) → Bool
  | [] => true
  | (name, value) :: rest =>
      textAccepts name && jsonbAccepts value && jsonbAcceptsFields rest

end

/-- The first timestamp after the last one `timestamptz` represents. -/
def timestampCeiling : Timestamp := toTimestamp 9224318016000

def timestamptzAccepts (t : Timestamp) : Bool :=
  decide (timestampFloor ≤ t) && decide (t < timestampCeiling)

theorem jsonbAccepts_errResult (message : String) :
    jsonbAccepts (errResult message) = textAccepts message := by
  have hname : textAccepts "Err" = true := by decide
  simp [errResult, jsonbAccepts, jsonbAcceptsFields, hname]

/-- Task metadata as text: `serde_json::to_string` writes it and the cast
`::jsonb` of the INSERT reads it. -/
structure JsonText where
  toText : Json → Except String String
  toJsonb : String → Option Json
  /-- control characters are written as escapes -/
  text_accepts : ∀ {value text}, toText value = .ok text →
    textAccepts text = true
  toJsonb_toText : ∀ {value text}, toText value = .ok text →
    toJsonb text = if jsonbAccepts value then some value else none

end ApalisPostgres
