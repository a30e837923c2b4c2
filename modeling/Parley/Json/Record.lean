import Parley.Json.Reader

/-!
Reading JSON into a record whose fields are known beforehand. A record is an object, or an array
with the fields in order. Members that are not fields are passed over with only their form checked:
neither the range of their numbers, nor the encoding of their texts, nor their depth.

Main definition: `Record.read`, the fields of a text, with the first problem as its error.
-/

namespace Parley.Json

namespace Reader

/-! ### Passing over a value -/

/-- The rest after a string, after its opening quote; the text itself is not looked at. -/
def skipString : Bytes → Except Fault Bytes
  | [] => .error .ended
  | b :: s =>
    if b == 0x22 then .ok s
    else if b == 0x5C then
      match s with
      | [] => .error .ended
      | e :: s =>
        if e == 0x75 then
          match s with
          | h1 :: h2 :: h3 :: h4 :: s => if (hex4? h1 h2 h3 h4).isSome then skipString s else .error .malformed
          | _ => .error .ended
        else if (simpleEscape? e).isSome then skipString s
        else .error .malformed
    else if b < 0x20 then .error .malformed
    else skipString s

/-- The rest after an exponent, after its letter. -/
def skipExponent (s : Bytes) : Except Fault Bytes :=
  let s := match s with
    | b :: r => if b == 0x2B || b == 0x2D then r else s
    | [] => []
  match s with
  | b :: s => if isDigit b then .ok (skipDigits s) else .error .malformed
  | [] => .error .malformed

/-- The rest after what may follow the digits of a number. -/
def skipMark : Bytes → Except Fault Bytes
  | b :: s => if isExponentMark b then skipExponent s else .ok (b :: s)
  | [] => .ok []

/-- The rest after what may follow the digits of an integer. -/
def skipFraction : Bytes → Except Fault Bytes
  | b :: s =>
    if b == 0x2E then
      match s with
      | d :: s => if isDigit d then skipMark (skipDigits s) else .error .malformed
      | [] => .error .malformed
    else skipMark (b :: s)
  | [] => .ok []

def skipNumber : Bytes → Except Fault Bytes
  | [] => .error .malformed
  | b :: s =>
    if b == 0x30 then
      match s with
      | d :: r => if isDigit d then .error .malformed else skipFraction (d :: r)
      | [] => .ok []
    else if isDigit b then skipFraction (skipDigits s)
    else .error .malformed

/-- An array or an object that has been opened. -/
inductive Bracket where
  | array
  | object
deriving DecidableEq

/-- What the next bytes must be while a value is passed over. -/
inductive Expect where
  /-- A value. -/
  | value
  /-- The end of the innermost bracket, or its first value. -/
  | opened
  /-- The end of the innermost bracket, or a comma. -/
  | after
deriving DecidableEq

/-- The rest where the value of an object's next member begins. -/
def skipName (s : Bytes) : Except Fault Bytes :=
  match skip s with
  | [] => .error .ended
  | b :: s =>
    if b == 0x22 then
      match skipString s with
      | .ok s => colon s
      | .error e => .error e
    else .error .malformed

/-- The rest where the next value in a bracket begins. -/
def enter (bracket : Bracket) (s : Bytes) : Except Fault Bytes :=
  match bracket with
  | .array => .ok s
  | .object => skipName s

/-- The rest after a value, with the brackets that are open in it, the innermost first. -/
def skipOpen (fuel : Nat) (expect : Expect) (brackets : List Bracket) (s : Bytes) : Except Fault Bytes :=
  match fuel with
  | 0 => .error .malformed
  | fuel + 1 =>
    let done (r : Except Fault Bytes) : Except Fault Bytes :=
      match r with
      | .error e => .error e
      | .ok s => if brackets.isEmpty then .ok s else skipOpen fuel .after brackets s
    match expect, brackets with
    | .value, _ =>
      match skip s with
      | [] => .error .ended
      | b :: s =>
        let word (w : Bytes) : Except Fault Bytes := (word w s).map (·.2)
        if b == 0x6E then done (word [0x75, 0x6C, 0x6C])
        else if b == 0x74 then done (word [0x72, 0x75, 0x65])
        else if b == 0x66 then done (word [0x61, 0x6C, 0x73, 0x65])
        else if b == 0x2D then done (skipNumber s)
        else if isDigit b then done (skipNumber (b :: s))
        else if b == 0x22 then done (skipString s)
        else if b == 0x5B then skipOpen fuel .opened (.array :: brackets) s
        else if b == 0x7B then skipOpen fuel .opened (.object :: brackets) s
        else .error .malformed
    | _, [] => .ok s
    | expect, bracket :: outer =>
      match skip s with
      | [] => .error .ended
      | b :: r =>
        if (b == 0x5D && bracket = .array) || (b == 0x7D && bracket = .object) then
          if outer.isEmpty then .ok r else skipOpen fuel .after outer r
        else if expect = .opened then
          match enter bracket (b :: r) with
          | .error e => .error e
          | .ok s => skipOpen fuel .value brackets s
        else if b == 0x2C then
          match enter bracket r with
          | .error e => .error e
          | .ok s => skipOpen fuel .value brackets s
        else .error .malformed

def skipValue (s : Bytes) : Except Fault Bytes := skipOpen (2 * s.length + 2) .value [] s

end Reader

/-! ### Fields -/

inductive FieldKind where
  | text
  | optionalText
  | flag
  | texts
  | count
  | any
deriving DecidableEq, Repr

inductive FieldValue where
  | text (s : String)
  | absent
  | flag (b : Bool)
  | texts (xs : List String)
  | count (n : Nat)
  | json (v : Json)
deriving Repr, BEq

/-- A field of a record; a field that may be left out is not asked for in an array. -/
structure Field where
  name : String
  kind : FieldKind
  mayLack : Bool := false

namespace Record

open Reader

/-- The texts of an array up to its closing bracket. -/
def readTexts (fuel : Nat) (mark : Mark) (acc : List String) (s : Bytes) : Read (List String) :=
  match fuel with
  | 0 => .error .malformed
  | fuel + 1 =>
    match nextItem mark s with
    | .error e => .error e
    | .ok (.close s) => .ok (acc.reverse, s)
    | .ok (.more s) =>
      match text s with
      | .error e => .error e
      | .ok (t, s) => readTexts fuel .later (t :: acc) s

/-- A value of the kind that a field asks for. -/
def readField (kind : FieldKind) (s : Bytes) : Read FieldValue :=
  match skip s with
  | [] => .error .ended
  | b :: r =>
    match kind with
    | .text => (text (b :: r)).to .text
    | .optionalText =>
      if b == 0x6E then (word [0x75, 0x6C, 0x6C] r).to fun _ => .absent else (text (b :: r)).to .text
    | .flag =>
      if b == 0x74 then (word [0x72, 0x75, 0x65] r).to fun _ => .flag true
      else if b == 0x66 then (word [0x61, 0x6C, 0x73, 0x65] r).to fun _ => .flag false
      else .error (refusal (b :: r))
    | .texts =>
      if b == 0x5B then (readTexts (r.length + 1) .first [] r).to .texts else .error (refusal (b :: r))
    | .count =>
      if isDigit b then
        match Reader.number false (b :: r) with
        | .ok (.int n, s) => .ok (.count n.toNat, s)
        | .ok (.real _, _) => .error .mismatched
        | .error e => .error e
      else .error (refusal (b :: r))
    | .any => (value (fuelFor (b :: r)) (maxDepth - 1) (b :: r)).to .json

abbrev Fields := List (String × FieldValue)

/-- The members of an object, the fields among them taken. A field that comes twice is refused where
its second name ends. -/
def readMembers (fields : List Field) (fuel : Nat) (mark : Mark) (acc : Fields) (s : Bytes) : Read Fields :=
  match fuel with
  | 0 => .error .malformed
  | fuel + 1 =>
    match nextName mark s with
    | .error e => .error e
    | .ok (.close s) => .ok (acc, s)
    | .ok (.more s) =>
      match stringRest [] s with
      | .error e => .error e
      | .ok (name, s) =>
        match fields.find? (·.name == name) with
        | some field =>
          if (acc.lookup name).isSome then .error .mismatched
          else match colon s with
            | .error e => .error e
            | .ok s =>
              match readField field.kind s with
              | .error e => .error e
              | .ok (v, s) => readMembers fields fuel .later ((name, v) :: acc) s
        | none =>
          match colon s with
          | .error e => .error e
          | .ok s =>
            match skipValue s with
            | .error e => .error e
            | .ok s => readMembers fields fuel .later acc s

/-- The fields in order from an array. Only fields that may be left out may be missing, and nothing
may follow the last. -/
def readItems (mark : Mark) (acc : Fields) (s : Bytes) : List Field → Read Fields
  | [] =>
    match skip s with
    | [] => .error .ended
    | b :: s => if b == 0x5D then .ok (acc, s) else .error .malformed
  | field :: more =>
    match nextItem mark s with
    | .error e => .error e
    | .ok (.close s) => if (field :: more).all (·.mayLack) then .ok (acc, s) else .error .mismatched
    | .ok (.more s) =>
      match readField field.kind s with
      | .error e => .error e
      | .ok (v, s) => readItems .later ((field.name, v) :: acc) s more

/-- Whether a field is there, or need not be. -/
def Fields.complete (fields : List Field) (found : Fields) : Bool :=
  fields.all fun f => f.mayLack || f.kind == .optionalText || (found.lookup f.name).isSome

/-- The fields of an object, after its opening brace. -/
def readFields (fields : List Field) (s : Bytes) : Read Fields :=
  match readMembers fields (s.length + 1) .first [] s with
  | .error e => .error e
  | .ok (found, s) => if Fields.complete fields found then .ok (found, s) else .error .mismatched

def read (fields : List Field) (s : Bytes) : Except Fault Fields :=
  let result : Read Fields :=
    match skip s with
    | [] => .error .ended
    | b :: r =>
      if b == 0x7B then readFields fields r
      else if b == 0x5B then readItems .first [] r fields
      else .error (refusal (b :: r))
  match result with
  | .error e => .error e
  | .ok (found, s) => finish found s

/-- The fields of a whole text that is an object. -/
def readObject (fields : List Field) (s : Bytes) : Except Fault Fields :=
  match skip s with
  | [] => .error .ended
  | b :: r =>
    if b == 0x7B then
      match readFields fields r with
      | .error e => .error e
      | .ok (found, s) => finish found s
    else .error (refusal (b :: r))

def Fields.text? (found : Fields) (name : String) : Option String :=
  match found.lookup name with
  | some (.text s) => some s
  | _ => none

def Fields.flag (found : Fields) (name : String) : Bool :=
  match found.lookup name with
  | some (.flag b) => b
  | _ => false

def Fields.texts (found : Fields) (name : String) : List String :=
  match found.lookup name with
  | some (.texts xs) => xs
  | _ => []

def Fields.count? (found : Fields) (name : String) : Option Nat :=
  match found.lookup name with
  | some (.count n) => some n
  | _ => none

def Fields.json? (found : Fields) (name : String) : Option Json :=
  match found.lookup name with
  | some (.json v) => some v
  | _ => none

end Record

end Parley.Json
