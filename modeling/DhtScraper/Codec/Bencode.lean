import DhtScraper.Codec.Bytes

/-!
# The bencode codec

Values, encoder and decoder.  The decoder passes an index through mutually recursive functions, as
the source does; each of them takes a bound on the number of nested calls, and `decodeValueAt`
starts with a bound that the length of the data never exhausts.  A dictionary is the list of its
items in insertion order.  The limits of the interpreter, 4300 digits for an integer and a depth for
nested calls, are not part of the codec: where the code catches the error that exceeding them raises,
its model takes a parameter that says which data exceeds them.
-/

namespace DhtScraper

/-- What `decode_bencode` returns and `encode_bencode` takes. -/
inductive BencodeValue where
  | int (value : ℤ)
  | bytes (value : Bytes)
  | list (items : List BencodeValue)
  | dict (items : List (Bytes × BencodeValue))

namespace BencodeValue

instance : Inhabited BencodeValue := ⟨.bytes []⟩

/-- `items[key] = value`: an existing key keeps its place, a new key goes to the end. -/
def setItem : List (Bytes × BencodeValue) → Bytes → BencodeValue → List (Bytes × BencodeValue)
  | [], key, value => [(key, value)]
  | item :: rest, key, value =>
    if item.1 = key then (key, value) :: rest else item :: setItem rest key value

/-- The dictionary that assigning `entries` one after the other to `items` gives. -/
def setItems (items entries : List (Bytes × BencodeValue)) : List (Bytes × BencodeValue) :=
  entries.foldl (fun items entry ↦ setItem items entry.1 entry.2) items

end BencodeValue

open BencodeValue

/-! ## Encoding -/

def encodeInt (value : ℤ) : Bytes :=
  105 :: (if value < 0 then 45 :: digitsOf value.natAbs else digitsOf value.natAbs) ++ [101]

def encodeBytes (value : Bytes) : Bytes := digitsOf value.length ++ 58 :: value

/-- Order of the parts of a dictionary: by key, bytes compared one after the other. -/
def keyLe (left right : Bytes × Bytes) : Prop := left.1 ≤ right.1

instance : DecidableRel keyLe := fun left right ↦ inferInstanceAs (Decidable (left.1 ≤ right.1))

mutual

def encodeBencode : BencodeValue → Bytes
  | .int value => encodeInt value
  | .bytes value => encodeBytes value
  | .list items => 108 :: (encodeEach items).flatten ++ [101]
  | .dict items =>
    100 :: ((encodeParts items).insertionSort keyLe).flatMap Prod.snd ++ [101]

def encodeEach : List BencodeValue → List Bytes
  | [] => []
  | item :: rest => encodeBencode item :: encodeEach rest

/-- The parts of a dictionary, each with its key. -/
def encodeParts : List (Bytes × BencodeValue) → List (Bytes × Bytes)
  | [] => []
  | (key, value) :: rest => (key, encodeBytes key ++ encodeBencode value) :: encodeParts rest

end

/-! ## Decoding -/

/-- The value `int(text)` of an optional minus and digits. -/
def intValue (text : Bytes) : ℤ :=
  if text.head? = some 45 then -digitsValue text.tail else digitsValue text

def decodeIntAt (data : Bytes) (index : ℕ) : Except Failure (BencodeValue × ℕ) := do
  assert (data[index]? = some 105)
  match find data 101 (index + 1) with
  | none => .error (.valueError ("unterminated integer at " ++ toString index))
  | some stop =>
    let text := slice data (index + 1) stop
    let digits := if text.head? = some 45 then text.tail else text
    if !isdigit digits || (1 < digits.length && digits.head? == some 48) || text == [45, 48] then
      .error (.valueError ("invalid integer at " ++ toString index))
    else do
      let nextIndex := stop + 1
      assert (index < nextIndex)
      return (.int (intValue text), nextIndex)

def decodeBytesAt (data : Bytes) (index : ℕ) : Except Failure (Bytes × ℕ) := do
  assert (index < data.length ∧ isdigit (slice data index (index + 1)))
  match find data 58 index with
  | none => .error (.valueError ("missing ':' at " ++ toString index))
  | some colon =>
    let lengthText := slice data index colon
    if !isdigit lengthText then
      .error (.valueError ("invalid string length at " ++ toString index))
    else do
      let length := digitsValue lengthText
      let start := colon + 1
      let nextIndex := start + length
      if data.length < nextIndex then
        .error (.valueError ("truncated string at " ++ toString index))
      else do
        let value := slice data start nextIndex
        assert (value.length = length)
        return (value, nextIndex)

/-- The two lower-case hexadecimal digits of a byte. -/
def hexDigits (byte : UInt8) : String :=
  String.ofList [Nat.digitChar (byte.toNat / 16), Nat.digitChar (byte.toNat % 16)]

/-- `repr(bytes([byte]))`. -/
def reprByte (byte : UInt8) : String :=
  if byte = 39 then "b\"'\""
  else if byte = 92 then "b'\\\\'"
  else if byte = 9 then "b'\\t'"
  else if byte = 10 then "b'\\n'"
  else if byte = 13 then "b'\\r'"
  else if 32 ≤ byte ∧ byte < 127 then "b'" ++ String.singleton (Char.ofNat byte.toNat) ++ "'"
  else "b'\\x" ++ hexDigits byte ++ "'"

mutual

def decodeListAt (fuel : ℕ) (data : Bytes) (index : ℕ) : Except Failure (BencodeValue × ℕ) :=
  match fuel with
  | 0 => .error .outOfFuel
  | fuel + 1 => do
    assert (data[index]? = some 108)
    let (items, position) ← decodeItems fuel data index (index + 1) []
    let nextIndex := position + 1
    assert (index < nextIndex)
    return (.list items, nextIndex)

/-- The loop of `decode_list_at`; it answers the place of the final `e`. -/
def decodeItems (fuel : ℕ) (data : Bytes) (index position : ℕ) (items : List BencodeValue) :
    Except Failure (List BencodeValue × ℕ) :=
  match fuel with
  | 0 => .error .outOfFuel
  | fuel + 1 =>
    if data.length ≤ position then
      .error (.valueError ("unterminated list at " ++ toString index))
    else if data[position]? = some 101 then
      .ok (items, position)
    else do
      let (item, position) ← decodeAt fuel data position
      decodeItems fuel data index position (items ++ [item])

def decodeDictAt (fuel : ℕ) (data : Bytes) (index : ℕ) : Except Failure (BencodeValue × ℕ) :=
  match fuel with
  | 0 => .error .outOfFuel
  | fuel + 1 => do
    assert (data[index]? = some 100)
    let (items, position) ← decodeEntries fuel data index (index + 1) []
    return (.dict items, position + 1)

/-- The loop of `decode_dict_at`; it answers the place of the final `e`. -/
def decodeEntries (fuel : ℕ) (data : Bytes) (index position : ℕ)
    (items : List (Bytes × BencodeValue)) : Except Failure (List (Bytes × BencodeValue) × ℕ) :=
  match fuel with
  | 0 => .error .outOfFuel
  | fuel + 1 =>
    if data.length ≤ position then
      .error (.valueError ("unterminated dict at " ++ toString index))
    else if data[position]? = some 101 then
      .ok (items, position)
    else if !isdigit (slice data position (position + 1)) then
      .error (.valueError ("dict key is not a string at " ++ toString position))
    else do
      let (key, position) ← decodeBytesAt data position
      if data.length ≤ position then
        .error (.valueError ("dict value missing at " ++ toString position))
      else do
        let (value, position) ← decodeAt fuel data position
        decodeEntries fuel data index position (setItem items key value)

/-- `decode_value_at` with a bound on the calls nested in it. -/
def decodeAt (fuel : ℕ) (data : Bytes) (index : ℕ) : Except Failure (BencodeValue × ℕ) :=
  match fuel with
  | 0 => .error .outOfFuel
  | fuel + 1 => do
    assert (index < data.length)
    let head := slice data index (index + 1)
    let decoded : Except Failure (BencodeValue × ℕ) :=
      if head = [105] then decodeIntAt data index
      else if head = [108] then decodeListAt fuel data index
      else if head = [100] then decodeDictAt fuel data index
      else if isdigit head then
        (decodeBytesAt data index).map fun result ↦ (.bytes result.1, result.2)
      else
        .error (.valueError ("unknown bencode prefix " ++ String.join (head.map reprByte) ++ " at " ++
          toString index))
    let (value, nextIndex) ← decoded
    assert (index < nextIndex ∧ nextIndex ≤ data.length)
    return (value, nextIndex)

end

/-- `decode_value_at`.  Every value takes at most three nested calls for each of its bytes. -/
def decodeValueAt (data : Bytes) (index : ℕ) : Except Failure (BencodeValue × ℕ) :=
  decodeAt (3 * data.length + 3) data index

def decodeBencode (data : Bytes) : Except Failure BencodeValue :=
  if data.length = 0 then .error (.valueError "empty input")
  else do
    let (value, nextIndex) ← decodeValueAt data 0
    if nextIndex ≠ data.length then
      .error (.valueError ("trailing data after position " ++ toString nextIndex))
    else do
      assert (nextIndex = data.length)
      return value

end DhtScraper
