import ConfigGate.Json.Scan

/-!
# Reading a JSON text

`Json.parse` reads a whole text as one value. Nesting is limited: a value is read with the number
of brackets that may still be opened inside it, and on this number the reader recurses. The lists
and objects themselves are read by loops over the text.
-/

namespace ConfigGate.Json

namespace Parse

/-- The elements of a list behind one of them. `done` holds the elements so far in reverse. -/
def moreElements (item : Reader Json) (n : Nat) (done : List Json) (s : List Char)
    (h : s.length ≤ n) : Except Fault (Scanned (List Json) n) :=
  match token? s with
  | none => .error (.atEnd .endInList)
  | some t =>
    if t.value = ']' then
      .ok ⟨done.reverse, t.rest, t.lt_of_le h⟩
    else if t.value = ',' then
      match token? t.rest with
      | none => .error (.atEnd .endInValue)
      | some u =>
        if u.value = ']' then
          .error (.onFirst .trailingComma (u.value :: u.rest))
        else
          match item t.rest with
          | .ok x => moreElements item n (x.value :: done) x.rest (t.le_of_le x h)
          | .error fault => .error fault
    else
      .error (.onFirst .expectedListEnd (t.value :: t.rest))
termination_by s.length
decreasing_by exact Nat.lt_trans x.lt t.lt

/-- The elements of a list behind its opening bracket. -/
def elements (item : Reader Json) : Reader (List Json) := fun s =>
  match token? s with
  | none => .error (.atEnd .endInList)
  | some t =>
    if t.value = ']' then
      .ok (t.map fun _ => [])
    else
      match item s with
      | .ok x => (moreElements item x.rest.length [x.value] x.rest (Nat.le_refl _)).map x.andThen
      | .error fault => .error fault

/-- A key behind its opening quote, with its value. -/
def member (item : Reader Json) : Reader Member := fun s => do
  let key ← Scan.string s
  match token? key.rest with
  | none => .error (.atEnd .endInObject)
  | some t =>
    if t.value = ':' then do
      let value ← item t.rest
      .ok (((key.andThen t).andThen value).map fun value => (key.value, value))
    else
      .error (.onFirst .expectedColon (t.value :: t.rest))

/-- The members of an object behind one of them. `done` holds the members so far in reverse. -/
def moreMembers (item : Reader Json) (n : Nat) (done : List Member) (s : List Char)
    (h : s.length ≤ n) : Except Fault (Scanned (List Member) n) :=
  match token? s with
  | none => .error (.atEnd .endInObject)
  | some t =>
    if t.value = '}' then
      .ok ⟨done.reverse, t.rest, t.lt_of_le h⟩
    else if t.value = ',' then
      match token? t.rest with
      | none => .error (.atEnd .endInValue)
      | some u =>
        if u.value = '"' then
          match member item u.rest with
          | .ok x =>
            moreMembers item n (x.value :: done) x.rest ((t.andThen u).le_of_le x h)
          | .error fault => .error fault
        else if u.value = '}' then
          .error (.onFirst .trailingComma (u.value :: u.rest))
        else
          .error (.onFirst .expectedKey (u.value :: u.rest))
    else
      .error (.onFirst .expectedObjectEnd (t.value :: t.rest))
termination_by s.length
decreasing_by exact Nat.lt_trans x.lt (t.andThen u).lt

/-- The members of an object behind its opening bracket. -/
def members (item : Reader Json) : Reader (List Member) := fun s =>
  match token? s with
  | none => .error (.atEnd .endInObject)
  | some t =>
    if t.value = '}' then
      .ok (t.map fun _ => [])
    else if t.value = '"' then
      match member item t.rest with
      | .ok x =>
        (moreMembers item x.rest.length [x.value] x.rest (Nat.le_refl _)).map
          (t.andThen x).andThen
      | .error fault => .error fault
    else
      .error (.onFirst .expectedKey (t.value :: t.rest))

/-- A value that starts with the character `c` in front of `r`, given a reader of the values inside
it, if there may be any. -/
def valueFrom (inner : Option (Reader Json)) (c : Char) (r : List Char) :
    Except Fault (Scanned Json (c :: r).length) :=
  let first : Scanned Unit (c :: r).length := .one () c r
  let word (letters : List Char) (value : Json) :=
    (Scan.word letters first).map (·.map fun _ => value)
  if c = 'n' then word ['u', 'l', 'l'] null
  else if c = 't' then word ['r', 'u', 'e'] (bool true)
  else if c = 'f' then word ['a', 'l', 's', 'e'] (bool false)
  else if c = '"' then (Scan.string r).map fun x => (first.andThen x).map string
  else if c = '[' then
    match inner with
    | some item => (elements item r).map fun x => (first.andThen x).map array
    | none => .error (.onFirst .tooDeep (c :: r))
  else if c = '{' then
    match inner with
    | some item =>
      (members item r).map fun x => (first.andThen x).map fun ms => object (Members.ofList ms)
    | none => .error (.onFirst .tooDeep (c :: r))
  else if c = '-' ∨ (Digit.ofChar? c).isSome then
    (Scan.number (c :: r)).map (·.map number)
  else
    .error (.onFirst .expectedValue (c :: r))

/-- A value behind blanks, given a reader of the values inside it. -/
def valueWith (inner : Option (Reader Json)) : Reader Json := fun s =>
  match token? s with
  | none => .error (.atEnd .endInValue)
  | some t => (valueFrom inner t.value t.rest).map t.including

/-- A value in which `depth` brackets may be open at once. -/
def value : (depth : Nat) → Reader Json
  | 0 => valueWith none
  | depth + 1 => valueWith (some (value depth))

end Parse

/-- The number of brackets that may be open at once. -/
def maxDepth : Nat := 127

/-- Reads a text that is one value between blanks. -/
def parse (text : List Char) : Except Fault Json := do
  let x ← Parse.value maxDepth text
  match token? x.rest with
  | none => .ok x.value
  | some t => .error (.onFirst .trailingCharacters (t.value :: t.rest))

end ConfigGate.Json
