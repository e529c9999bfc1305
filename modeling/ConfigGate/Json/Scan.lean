import ConfigGate.Json.Fault
import ConfigGate.Json.Number

/-!
# Tokens of a JSON text

Readers of words, numerals and strings at the start of a text. Each gives what it read together with
the rest of the text and a bound on the length of the rest, on which the readers built from it
terminate.
-/

namespace ConfigGate.Json

/-- Something read, and a rest of fewer than `n` characters. -/
structure Scanned (α : Type) (n : Nat) where
  value : α
  rest : List Char
  lt : rest.length < n

/-- A reader of something at the start of a text, at least one character long. -/
abbrev Reader (α : Type) := (s : List Char) → Except Fault (Scanned α s.length)

namespace Scanned

variable {α β : Type} {n : Nat}

theorem length_lt_cons (c : Char) (r : List Char) : r.length < (c :: r).length :=
  Nat.lt_succ_self _

theorem lt_of_le {s : List Char} (x : Scanned α s.length) (h : s.length ≤ n) : x.rest.length < n :=
  Nat.lt_of_lt_of_le x.lt h

theorem le_of_le {s : List Char} (x : Scanned α s.length) (y : Scanned β x.rest.length)
    (h : s.length ≤ n) : y.rest.length ≤ n :=
  Nat.le_of_lt (Nat.lt_trans y.lt (x.lt_of_le h))

/-- The first character of a text was read. -/
def one (value : α) (c : Char) (r : List Char) : Scanned α (c :: r).length :=
  ⟨value, r, length_lt_cons c r⟩

def map (f : α → β) (x : Scanned α n) : Scanned β n := ⟨f x.value, x.rest, x.lt⟩

/-- The second of two things read one after the other. -/
def andThen (x : Scanned α n) (y : Scanned β x.rest.length) : Scanned β n :=
  ⟨y.value, y.rest, Nat.lt_trans y.lt x.lt⟩

/-- What was read from a character on that had been taken already. -/
def including (c : Scanned Char n) (x : Scanned α (c.value :: c.rest).length) : Scanned α n :=
  ⟨x.value, x.rest, Nat.lt_of_le_of_lt (Nat.le_of_lt_succ x.lt) c.lt⟩

/-- One more character. -/
def next? (x : Scanned α n) : Option (Scanned Char n) :=
  match x with
  | ⟨_, [], _⟩ => none
  | ⟨_, c :: r, h⟩ => some ⟨c, r, Nat.lt_of_succ_lt h⟩

end Scanned

/-! ### Blanks -/

/-- The blanks that may stand between tokens. -/
def isBlank (c : Char) : Bool := c = ' ' ∨ c = '\n' ∨ c = '\t' ∨ c = '\r'

def skipBlanks (s : List Char) : List Char := s.dropWhile isBlank

theorem length_lt_of_skipBlanks {s r : List Char} {c : Char} (h : skipBlanks s = c :: r) :
    r.length < s.length := by
  have := (List.dropWhile_sublist isBlank (l := s)).length_le
  rw [show s.dropWhile isBlank = c :: r from h, List.length_cons] at this
  exact this

/-- The first character that is not a blank. -/
def token? (s : List Char) : Option (Scanned Char s.length) :=
  match h : skipBlanks s with
  | [] => none
  | c :: r => some ⟨c, r, length_lt_of_skipBlanks h⟩

namespace Scan

/-! ### Words -/

/-- The rest of a word of which the first letter has been read. -/
def word {n : Nat} : (letters : List Char) → Scanned Unit n → Except Fault (Scanned Unit n)
  | [], x => .ok x
  | l :: ls, x =>
    match x.next? with
    | none => .error (.atEnd .endInValue)
    | some c =>
      if l = c.value then word ls (c.map fun _ => ()) else .error (.onFirst .expectedWord x.rest)

/-! ### Numerals -/

/-- The digits of `s`, at least one. -/
def digits : Reader (List Digit) := fun s =>
  let scanned := Digits.scan s
  if h : scanned.1 ≠ [] then .ok ⟨scanned.1, scanned.2, Digits.length_scan_lt h⟩
  else .error (.expected .endInValue .invalidNumber s)

/-- The digits before the point. A zero stands alone. -/
def whole : Reader (List Digit) := fun s => do
  let ds ← digits s
  if ds.value.head? = some Digit.zero ∧ ds.value.length ≠ 1 then
    .error (.onFirst .invalidNumber s.tail)
  else
    .ok ds

/-- The digits after the point, if there is one behind `x`. -/
def fraction {α : Type} {n : Nat} (x : Scanned α n) : Except Fault (Scanned (List Digit) n) :=
  match x.next? with
  | none => .ok (x.map fun _ => [])
  | some c =>
    if c.value = '.' then (digits c.rest).map c.andThen else .ok (x.map fun _ => [])

/-- The sign of an exponent, if there is one behind `x`. -/
def exponentSign {α : Type} {n : Nat} (x : Scanned α n) : Scanned Bool n :=
  match x.next? with
  | none => x.map fun _ => false
  | some c =>
    if c.value = '+' then c.map fun _ => false
    else if c.value = '-' then c.map fun _ => true
    else x.map fun _ => false

/-- The exponent, if there is one behind `x`. -/
def exponent {α : Type} {n : Nat} (x : Scanned α n) : Except Fault (Scanned (Option Exponent) n) :=
  match x.next? with
  | none => .ok (x.map fun _ => none)
  | some c =>
    if c.value = 'e' ∨ c.value = 'E' then
      let sign := exponentSign c
      (digits sign.rest).map fun ds => (sign.andThen ds).map fun ds => some ⟨sign.value, ds⟩
    else
      .ok (x.map fun _ => none)

/-- A numeral without its sign. -/
def unsigned (negative : Bool) : Reader Numeral := fun s => do
  let w ← whole s
  let f ← fraction w
  let e ← exponent f
  .ok (e.map fun e => ⟨negative, w.value, f.value, e⟩)

def numeral : Reader Numeral
  | [] => unsigned false []
  | c :: r =>
    if c = '-' then (unsigned true r).map (Scanned.one () c r).andThen else unsigned false (c :: r)

/-- A number. One that is out of range is found so after the numeral, or at the digit of its
exponent that is one too many. -/
def number : Reader Number := fun s => do
  let n ← numeral s
  match Number.ofNumeral n.value with
  | .ok value => .ok (n.map fun _ => value)
  | .error unread => .error ⟨.numberOutOfRange, unread + Text.byteCount n.rest⟩

/-! ### Strings -/

/-- The character that a letter stands for behind a backslash. -/
def shortEscape? (c : Char) : Option Char :=
  match c with
  | '"' => some '"'
  | '\\' => some '\\'
  | '/' => some '/'
  | 'b' => some '\x08'
  | 'f' => some '\x0c'
  | 'n' => some '\n'
  | 'r' => some '\r'
  | 't' => some '\t'
  | _ => none

/-- The hexadecimal digit behind `x`. Whatever else stands there is at `fault`. -/
def hexDigit {α : Type} {n : Nat} (fault : Fault) (x : Scanned α n) :
    Except Fault (Scanned Nibble n) :=
  match x.next? with
  | none => .error fault
  | some c =>
    match Nibble.ofChar? c.value with
    | some d => .ok (c.map fun _ => d)
    | none => .error fault

/-- Four hexadecimal digits behind `x`. Four bytes are read in any case. -/
def hexUnit {α : Type} {n : Nat} (x : Scanned α n) : Except Fault (Scanned Nat n) :=
  if Text.byteCount x.rest < 4 then .error (.atEnd .endInString)
  else
    let fault : Fault := ⟨.invalidEscape, Text.byteCount x.rest - 4⟩
    do
      let a ← hexDigit fault x
      let b ← hexDigit fault a
      let c ← hexDigit fault b
      let d ← hexDigit fault c
      .ok (d.map fun d => Digits.value [a.value, b.value, c.value, d])

def isHighSurrogate (u : Nat) : Bool := 0xd800 ≤ u ∧ u < 0xdc00

def isLowSurrogate (u : Nat) : Bool := 0xdc00 ≤ u ∧ u < 0xe000

/-- The character of a surrogate pair. -/
def ofSurrogates (high low : Nat) : Char :=
  Char.ofNat (0x10000 + (high - 0xd800) * 0x400 + (low - 0xdc00))

/-- A character that must come behind `x` inside a surrogate pair. -/
def pairMark {α : Type} {n : Nat} (mark : Char) (x : Scanned α n) :
    Except Fault (Scanned Char n) :=
  match x.next? with
  | none => .error (.atEnd .endInString)
  | some c => if c.value = mark then .ok c else .error (.onFirst .unfinishedPair x.rest)

/-- The character of a surrogate pair of which the first half has been read. -/
def surrogatePair {n : Nat} (high : Scanned Nat n) : Except Fault (Scanned Char n) := do
  let backslash ← pairMark '\\' high
  let letter ← pairMark 'u' backslash
  let low ← hexUnit letter
  if isLowSurrogate low.value then .ok (low.map (ofSurrogates high.value))
  else .error (.before .loneSurrogate low.rest)

/-- The character that follows a backslash and `u`. -/
def hexEscape {n : Nat} (letter : Scanned Char n) : Except Fault (Scanned Char n) := do
  let u ← hexUnit letter
  if isLowSurrogate u.value then .error (.before .loneSurrogate u.rest)
  else if isHighSurrogate u.value then surrogatePair u
  else .ok (u.map Char.ofNat)

/-- What follows a backslash. -/
def escape : Reader Char
  | [] => .error (.atEnd .endInString)
  | c :: r =>
    if c = 'u' then hexEscape (.one c c r)
    else
      match shortEscape? c with
      | some x => .ok (.one x c r)
      | none => .error (.onFirst .invalidEscape (c :: r))

theorem length_le_of_cons {c : Char} {r : List Char} {n : Nat} (h : (c :: r).length ≤ n) :
    r.length ≤ n :=
  Nat.le_of_succ_le h

theorem rest_le_of_cons {c : Char} {r : List Char} {n : Nat} (x : Scanned Char r.length)
    (h : (c :: r).length ≤ n) : x.rest.length ≤ n :=
  Nat.le_trans (Nat.le_of_lt x.lt) (length_le_of_cons h)

/-- The characters up to the closing quote, behind those of `done`, which are in reverse. -/
def characters (n : Nat) (done s : List Char) (h : s.length ≤ n) :
    Except Fault (Scanned String n) :=
  match s with
  | [] => .error (.atEnd .endInString)
  | c :: r =>
    if c = '"' then
      .ok ⟨String.ofList done.reverse, r, h⟩
    else if c = '\\' then
      match escape r with
      | .ok x => characters n (x.value :: done) x.rest (rest_le_of_cons x h)
      | .error fault => .error fault
    else if c < ' ' then
      .error (.onFirst .controlCharacter (c :: r))
    else
      characters n (c :: done) r (length_le_of_cons h)
termination_by s.length
decreasing_by
  · exact Nat.lt_succ_of_lt x.lt
  · exact Scanned.length_lt_cons c r

/-- A string behind its opening quote. -/
def string : Reader String := fun s => characters s.length [] s (Nat.le_refl s.length)

end Scan

end ConfigGate.Json
