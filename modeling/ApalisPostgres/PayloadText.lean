/-
The text of a notification.  PostgreSQL writes an object with a queue name and
a list of ids; control characters, quotes and backslashes are written as
escapes, so that no byte becomes more than six.
-/
import ApalisPostgres.Truncation
import Mathlib.Data.List.Basic

namespace ApalisPostgres

def quoteChar : Char := Char.ofNat 34

def backslash : Char := Char.ofNat 92

/-- The characters that `escape_json` writes with one letter. -/
def letterEscapes : List (Char × Char) :=
  [(Char.ofNat 8, 'b'), (Char.ofNat 12, 'f'), (Char.ofNat 10, 'n'),
    (Char.ofNat 13, 'r'), (Char.ofNat 9, 't'), (quoteChar, quoteChar),
    (backslash, backslash)]

def hexDigits : List Char := "0123456789abcdef".toList

def hexDigit (n : Nat) : Char := hexDigits.getD n '0'

/-- `escape_json` of one character; other control characters are written as
`\u%04x`. -/
def escapeChar (c : Char) : List Char :=
  match letterEscapes.lookup c with
  | some letter => [backslash, letter]
  | none =>
      if c.toNat < 32 then
        [backslash, 'u', '0', '0', hexDigit (c.toNat / 16),
          hexDigit (c.toNat % 16)]
      else [c]

def jsonString (text : String) : List Char :=
  quoteChar :: (text.toList.flatMap escapeChar ++ [quoteChar])

/-- `json_build_array` and `json_agg`. -/
def jsonArray (items : List (List Char)) : List Char :=
  '[' :: (List.intercalate [',', ' '] items ++ [']'])

/-- `json_build_object` of names and values. -/
def jsonBuildObject (fields : List (String × List Char)) : List Char :=
  '\x7b' :: (List.intercalate [',', ' '] (fields.map fun field =>
    jsonString field.1 ++ [' ', ':', ' '] ++ field.2) ++ ['\x7d'])

/-- The payload that `pg_notify` sends. -/
def payloadText (jobType : String) (ids : List String) : String :=
  String.ofList (jsonBuildObject [("job_type", jsonString jobType),
    ("ids", jsonArray (ids.map jsonString))])

/-- The bytes of a list of characters. -/
def byteLength (chars : List Char) : Nat := (chars.map Char.utf8Size).sum

@[simp] theorem byteLength_nil : byteLength [] = 0 := rfl

@[simp] theorem byteLength_cons (c : Char) (chars : List Char) :
    byteLength (c :: chars) = c.utf8Size + byteLength chars := rfl

@[simp] theorem byteLength_append (left right : List Char) :
    byteLength (left ++ right) = byteLength left + byteLength right := by
  simp [byteLength]

theorem byteLength_toList (text : String) :
    byteLength text.toList = text.utf8ByteSize := by
  rw [byteLength, ← utf8ByteSize_ofList, String.ofList_toList]

theorem hexDigit_utf8Size (n : Nat) : (hexDigit n).utf8Size = 1 := by
  have hall : hexDigits.all (fun c => c.utf8Size = 1) = true := by
    decide +kernel
  rw [List.all_eq_true] at hall
  rw [hexDigit, List.getD_eq_getElem?_getD]
  cases hget : hexDigits[n]? with
  | none => rfl
  | some c => exact of_decide_eq_true (hall c (List.mem_of_getElem? hget))

theorem mem_letterEscapes {c letter : Char}
    (h : letterEscapes.lookup c = some letter) :
    (c, letter) ∈ letterEscapes := by
  obtain ⟨before, after, hsplit, -⟩ := List.lookup_eq_some_iff.mp h
  rw [hsplit]
  exact List.mem_append_right _ List.mem_cons_self

/-- An escape is at most six times as long as what it stands for. -/
theorem byteLength_escapeChar (c : Char) :
    byteLength (escapeChar c) ≤ 6 * c.utf8Size := by
  have hpos : 0 < c.utf8Size := c.utf8Size_pos
  have hslash : backslash.utf8Size = 1 := by decide
  rw [escapeChar]
  split
  · rename_i letter hletter
    have hone : ∀ pair ∈ letterEscapes, pair.2.utf8Size = 1 := by decide
    have hsize : letter.utf8Size = 1 := hone _ (mem_letterEscapes hletter)
    simp only [byteLength_cons, byteLength_nil, hslash, hsize]
    omega
  · split
    · have hu : 'u'.utf8Size = 1 := by decide
      have hzero : '0'.utf8Size = 1 := by decide
      simp only [byteLength_cons, byteLength_nil, hexDigit_utf8Size, hslash,
        hu, hzero]
      omega
    · simp only [byteLength_cons, byteLength_nil]
      omega

theorem byteLength_jsonString (text : String) :
    byteLength (jsonString text) ≤ 6 * text.utf8ByteSize + 2 := by
  have hquote : quoteChar.utf8Size = 1 := by decide
  have hbody : byteLength (text.toList.flatMap escapeChar) ≤
      6 * byteLength text.toList := by
    generalize text.toList = chars
    induction chars with
    | nil => exact Nat.le_refl 0
    | cons c rest ih =>
        have hc := byteLength_escapeChar c
        simp only [List.flatMap_cons, byteLength_append, byteLength_cons]
        omega
  rw [byteLength_toList] at hbody
  simp only [jsonString, byteLength_cons, byteLength_append, byteLength_nil,
    hquote]
  omega

theorem byteLength_intercalate (items : List (List Char)) {cap : Nat}
    (hcap : ∀ item ∈ items, byteLength item ≤ cap) :
    byteLength (List.intercalate [',', ' '] items) ≤
      (cap + 2) * items.length := by
  have hcomma : ','.utf8Size = 1 := by decide
  have hspace : ' '.utf8Size = 1 := by decide
  induction items with
  | nil => exact Nat.zero_le _
  | cons item rest ih =>
      have hitem := hcap item List.mem_cons_self
      have hrest := ih fun other hother =>
        hcap other (List.mem_cons_of_mem _ hother)
      cases rest with
      | nil => simpa using Nat.le_add_right_of_le hitem
      | cons next rest =>
          rw [List.intercalate_cons_cons, List.length_cons, Nat.mul_succ]
          simp only [byteLength_append, byteLength_cons, byteLength_nil,
            hcomma, hspace]
          omega

/-- Text without escapes grows by its quotes only. -/
theorem byteLength_jsonString_plain {text : String}
    (hplain : ∀ c ∈ text.toList, escapeChar c = [c]) :
    byteLength (jsonString text) = text.utf8ByteSize + 2 := by
  have hquote : quoteChar.utf8Size = 1 := by decide
  have hbody : text.toList.flatMap escapeChar = text.toList := by
    rw [List.flatMap_congr hplain]
    exact List.flatMap_singleton' _
  rw [jsonString, hbody]
  simp only [byteLength_cons, byteLength_append, byteLength_nil, hquote,
    byteLength_toList]
  omega

/-- A payload within the caps is below the limit of a notification. -/
theorem payloadText_size {jobType : String} {ids : List String}
    (hqueue : jobType.utf8ByteSize ≤ 255)
    (hids : ∀ id ∈ ids, byteLength (jsonString id) ≤ 28)
    (hlength : ids.length ≤ 100) :
    (payloadText jobType ids).utf8ByteSize < 8000 := by
  have hname := byteLength_jsonString jobType
  have hitems := byteLength_intercalate (ids.map jsonString)
    (List.forall_mem_map.mpr hids)
  rw [List.length_map] at hitems
  have hkey : byteLength (jsonString "job_type") = 10 := by decide
  have hidsKey : byteLength (jsonString "ids") = 5 := by decide
  have hcomma : ','.utf8Size = 1 := by decide
  have hspace : ' '.utf8Size = 1 := by decide
  have hcolon : ':'.utf8Size = 1 := by decide
  have hopen : '['.utf8Size = 1 := by decide
  have hclose : ']'.utf8Size = 1 := by decide
  have hbrace : '\x7b'.utf8Size = 1 := by decide
  have hend : '\x7d'.utf8Size = 1 := by decide
  rw [payloadText, utf8ByteSize_ofList]
  show byteLength _ < 8000
  simp only [jsonBuildObject, jsonArray, List.map_cons, List.map_nil,
    List.intercalate_cons_cons, List.intercalate_singleton,
    byteLength_append, byteLength_cons, byteLength_nil, hkey, hidsKey, hcomma,
    hspace, hcolon, hopen, hclose, hbrace, hend]
  omega

/-- The letters of the escapes, read back. -/
def unescapeLetter (letter : Char) : Option Char :=
  (letterEscapes.find? fun pair => pair.2 = letter).map Prod.fst

def hexValue (digit : Char) : Option Nat := hexDigits.idxOf? digit

/-- The body of a string, up to its closing quote. -/
def readBody : List Char → Option (List Char × List Char)
  | [] => none
  | c :: rest =>
      if c = quoteChar then some ([], rest)
      else if c = backslash then
        match rest with
        | [] => none
        | letter :: more =>
            if letter = 'u' then
              match more with
              | _ :: _ :: high :: low :: later =>
                  (hexValue high).bind fun high =>
                    (hexValue low).bind fun low =>
                      (readBody later).map fun read =>
                        (Char.ofNat (16 * high + low) :: read.1, read.2)
              | _ => none
            else
              (unescapeLetter letter).bind fun c =>
                (readBody more).map fun read => (c :: read.1, read.2)
      else (readBody rest).map fun read => (c :: read.1, read.2)

theorem hexValue_hexDigit {n : Nat} (h : n < 16) :
    hexValue (hexDigit n) = some n := by
  have hall : ∀ n < 16, hexValue (hexDigit n) = some n := by decide
  exact hall n h

/-- A character is read back from its escape. -/
theorem readBody_escapeChar (c : Char) (rest : List Char) :
    readBody (escapeChar c ++ rest) =
      (readBody rest).map fun read => (c :: read.1, read.2) := by
  have hslash : backslash ≠ quoteChar := by decide
  rw [escapeChar]
  split
  · rename_i letter hletter
    have hall : ∀ pair ∈ letterEscapes,
        unescapeLetter pair.2 = some pair.1 ∧ pair.2 ≠ 'u' := by decide
    obtain ⟨hread, hu⟩ := hall (c, letter) (mem_letterEscapes hletter)
    show readBody (backslash :: letter :: rest) = _
    rw [readBody.eq_def]
    simp [hslash, hu, hread]
  · rename_i hnone
    split
    · rename_i hcontrol
      have hhigh : hexValue (hexDigit (c.toNat / 16)) = some (c.toNat / 16) :=
        hexValue_hexDigit (by omega)
      have hlow : hexValue (hexDigit (c.toNat % 16)) = some (c.toNat % 16) :=
        hexValue_hexDigit (by omega)
      have hcode : Char.ofNat (16 * (c.toNat / 16) + c.toNat % 16) = c := by
        rw [Nat.div_add_mod]
        exact Char.ofNat_toNat c
      simp [readBody, hslash, hhigh, hlow, hcode]
    · have hplain : c ≠ quoteChar ∧ c ≠ backslash := by
        constructor
        · rintro rfl
          cases hnone
        · rintro rfl
          cases hnone
      show readBody (c :: rest) = _
      rw [readBody.eq_def]
      simp [hplain.1, hplain.2]

theorem readBody_escape (chars rest : List Char) :
    readBody (chars.flatMap escapeChar ++ quoteChar :: rest) =
      some (chars, rest) := by
  induction chars with
  | nil =>
      show readBody (quoteChar :: rest) = _
      rw [readBody.eq_def]
      simp
  | cons c chars ih =>
      rw [List.flatMap_cons, List.append_assoc, readBody_escapeChar, ih]
      rfl

/-- `serde_json::from_str`, which reads back what PostgreSQL wrote. -/
structure PayloadReader where
  fromStr : String → Option Json
  fromStr_payloadText : ∀ jobType ids,
    fromStr (payloadText jobType ids) = some (.obj
      [("job_type", .str jobType), ("ids", .arr (ids.map .str))])

namespace PayloadReader

def skipSpace (text : List Char) : List Char :=
  text.dropWhile fun c => c = ' '

def readString (text : List Char) : Option (String × List Char) :=
  match skipSpace text with
  | [] => none
  | c :: rest =>
      if c = quoteChar then
        (readBody rest).map fun read => (String.ofList read.1, read.2)
      else none

/-- The strings of an array, up to its closing bracket. -/
def readItems : Nat → List Char → Option (List Json × List Char)
  | 0, _ => none
  | fuel + 1, text =>
      (readString text).bind fun item =>
        match skipSpace item.2 with
        | [] => none
        | c :: rest =>
            if c = ',' then
              (readItems fuel rest).map fun read =>
                (.str item.1 :: read.1, read.2)
            else if c = ']' then some ([.str item.1], rest)
            else none

/-- A string, or an array of strings. -/
def readValue (fuel : Nat) (text : List Char) : Option (Json × List Char) :=
  match skipSpace text with
  | [] => none
  | c :: rest =>
      if c = '[' then
        match skipSpace rest with
        | [] => none
        | d :: after =>
            if d = ']' then some (.arr [], after)
            else (readItems fuel rest).map fun read => (.arr read.1, read.2)
      else (readString text).map fun read => (.str read.1, read.2)

/-- The fields of an object, up to its closing brace. -/
def readFields (inner : Nat) :
    Nat → List Char → Option (List (String × Json) × List Char)
  | 0, _ => none
  | fuel + 1, text =>
      (readString text).bind fun name =>
        match skipSpace name.2 with
        | [] => none
        | c :: rest =>
            if c = ':' then
              (readValue inner rest).bind fun value =>
                match skipSpace value.2 with
                | [] => none
                | d :: rest =>
                    if d = ',' then
                      (readFields inner fuel rest).map fun read =>
                        ((name.1, value.1) :: read.1, read.2)
                    else if d = '\x7d' then
                      some ([(name.1, value.1)], rest)
                    else none
            else none

def readObject (text : String) : Option Json :=
  match skipSpace text.toList with
  | [] => none
  | c :: rest =>
      if c = '\x7b' then
        (readFields rest.length rest.length rest).bind fun read =>
          if skipSpace read.2 = [] then some (.obj read.1) else none
      else none

@[simp] theorem skipSpace_space (rest : List Char) :
    skipSpace (' ' :: rest) = skipSpace rest := rfl

theorem skipSpace_cons {c : Char} (h : c ≠ ' ') (rest : List Char) :
    skipSpace (c :: rest) = c :: rest := by
  simp [skipSpace, h]

@[simp] theorem readString_space (rest : List Char) :
    readString (' ' :: rest) = readString rest := rfl

@[simp] theorem readString_jsonString (text : String) (rest : List Char) :
    readString (jsonString text ++ rest) = some (text, rest) := by
  have hquote : quoteChar ≠ ' ' := by decide
  have hbody := readBody_escape text.toList rest
  simp only [jsonString, List.cons_append, List.append_assoc,
    List.nil_append, readString, skipSpace_cons hquote, if_true, hbody,
    Option.map_some, String.ofList_toList]

@[simp] theorem readItems_space (fuel : Nat) (rest : List Char) :
    readItems fuel (' ' :: rest) = readItems fuel rest := by
  cases fuel with
  | zero => rfl
  | succ fuel => rfl

@[simp] theorem readFields_space (inner fuel : Nat) (rest : List Char) :
    readFields inner fuel (' ' :: rest) = readFields inner fuel rest := by
  cases fuel with
  | zero => rfl
  | succ fuel => rfl

theorem readItems_array {fuel : Nat} {ids : List String} (hsome : ids ≠ [])
    (hfuel : ids.length ≤ fuel) (rest : List Char) :
    readItems fuel (List.intercalate [',', ' '] (ids.map jsonString) ++
      ']' :: rest) = some (ids.map .str, rest) := by
  have hcomma : ',' ≠ ' ' := by decide
  have hclose : ']' ≠ ' ' := by decide
  induction ids generalizing fuel with
  | nil => exact absurd rfl hsome
  | cons id ids ih =>
      cases fuel with
      | zero => cases hfuel
      | succ fuel =>
          cases ids with
          | nil =>
              simp [readItems, skipSpace_cons hclose]
          | cons next ids =>
              have hrest := ih (List.cons_ne_nil next ids)
                (Nat.le_of_succ_le_succ hfuel)
              rw [List.map_cons, List.map_cons, List.intercalate_cons_cons,
                List.append_assoc, List.append_assoc, readItems,
                readString_jsonString]
              simp only [Option.bind_some, List.cons_append,
                List.nil_append, skipSpace_cons hcomma, if_true,
                readItems_space]
              rw [List.map_cons] at hrest
              rw [hrest]
              rfl

theorem readValue_string (fuel : Nat) (text : String) (rest : List Char) :
    readValue fuel (' ' :: (jsonString text ++ rest)) =
      some (.str text, rest) := by
  have hquote : quoteChar ≠ ' ' := by decide
  have hopen : quoteChar ≠ '[' := by decide
  have hread := readString_jsonString text rest
  rw [readValue, skipSpace_space]
  rw [jsonString, List.cons_append] at hread ⊢
  rw [skipSpace_cons hquote]
  simp only [if_neg hopen, readString_space, hread, Option.map_some]

/-- An array is read back if there is fuel for its items. -/
theorem readValue_array {fuel : Nat} {ids : List String}
    (hfuel : ids.length ≤ fuel) (rest : List Char) :
    readValue fuel (' ' :: (jsonArray (ids.map jsonString) ++ rest)) =
      some (.arr (ids.map .str), rest) := by
  have hopen : '[' ≠ ' ' := by decide
  have hclose : ']' ≠ ' ' := by decide
  have hquote : quoteChar ≠ ' ' := by decide
  have hnot : quoteChar ≠ ']' := by decide
  rw [readValue, skipSpace_space, jsonArray, List.cons_append,
    skipSpace_cons hopen]
  cases ids with
  | nil => simp [skipSpace_cons hclose]
  | cons id ids =>
      have hitems := readItems_array (List.cons_ne_nil id ids) hfuel rest
      -- An item starts with its quote, which is no closing bracket.
      have hstart : ∃ more, List.intercalate [',', ' ']
          ((id :: ids).map jsonString) ++ ']' :: rest = quoteChar :: more := by
        cases ids with
        | nil => exact ⟨_, rfl⟩
        | cons next ids => exact ⟨_, rfl⟩
      obtain ⟨more, hmore⟩ := hstart
      rw [List.append_assoc, List.singleton_append]
      rw [hmore] at hitems ⊢
      simp only [if_true, skipSpace_cons hquote, if_neg hnot, hitems,
        Option.map_some]

theorem length_le_jsonArray (ids : List String) :
    ids.length ≤ (jsonArray (ids.map jsonString)).length := by
  have hitems : ids.length ≤
      (List.intercalate [',', ' '] (ids.map jsonString)).length := by
    induction ids with
    | nil => exact Nat.le_refl 0
    | cons id ids ih =>
        cases ids with
        | nil => simp [jsonString]
        | cons next ids =>
            rw [List.map_cons, List.map_cons, List.intercalate_cons_cons]
            simp only [List.map_cons] at ih
            simp only [List.length_append, List.length_cons] at ih ⊢
            omega
  simp only [jsonArray, List.length_cons, List.length_append]
  omega

theorem readFields_payload {inner : Nat} (fuel : Nat) (jobType : String)
    {ids : List String} (hinner : ids.length ≤ inner) :
    readFields inner (fuel + 2)
        (jsonString "job_type" ++ ' ' :: ':' :: ' ' :: (jsonString jobType ++
          ',' :: ' ' :: (jsonString "ids" ++ ' ' :: ':' :: ' ' ::
            (jsonArray (ids.map jsonString) ++ ['\x7d'])))) =
      some ([("job_type", .str jobType), ("ids", .arr (ids.map .str))],
        []) := by
  have hend : '\x7d' ≠ ' ' := by decide
  have hcomma : ',' ≠ ' ' := by decide
  have hcolon : ':' ≠ ' ' := by decide
  have hnot : '\x7d' ≠ ',' := by decide
  have hids : readFields inner (fuel + 1)
      (jsonString "ids" ++ ' ' :: ':' :: ' ' ::
        (jsonArray (ids.map jsonString) ++ ['\x7d'])) =
      some ([("ids", .arr (ids.map .str))], []) := by
    rw [readFields, readString_jsonString]
    simp only [Option.bind_some, skipSpace_space, skipSpace_cons hcolon,
      if_true, readValue_array hinner, skipSpace_cons hend, if_neg hnot]
  rw [readFields, readString_jsonString]
  simp only [Option.bind_some, skipSpace_space, skipSpace_cons hcolon,
    if_true, readValue_string, skipSpace_cons hcomma, readFields_space, hids,
    Option.map_some]

theorem readObject_payloadText (jobType : String) (ids : List String) :
    readObject (payloadText jobType ids) = some (.obj
      [("job_type", .str jobType), ("ids", .arr (ids.map .str))]) := by
  have hbrace : '\x7b' ≠ ' ' := by decide
  have hlength := length_le_jsonArray ids
  rw [readObject, payloadText, String.toList_ofList, jsonBuildObject,
    skipSpace_cons hbrace]
  simp only [List.map_cons, List.map_nil, List.intercalate_cons_cons,
    List.intercalate_singleton, List.append_assoc, List.cons_append,
    List.nil_append, if_true]
  -- The text is long enough for the fields and for the items.
  generalize htext : jsonString "job_type" ++ _ = text
  have hfuel : ∃ fuel, text.length = fuel + 2 ∧ ids.length ≤ fuel + 2 := by
    refine ⟨text.length - 2, ?_⟩
    have hsize := congrArg List.length htext
    simp only [List.length_append, List.length_cons] at hsize
    omega
  obtain ⟨fuel, hsize, hids⟩ := hfuel
  rw [hsize, ← htext, readFields_payload fuel jobType hids]
  rfl

/-- A reader for the texts that PostgreSQL writes. -/
def json : PayloadReader where
  fromStr := readObject
  fromStr_payloadText := readObject_payloadText

end PayloadReader

end ApalisPostgres
