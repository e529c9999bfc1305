import ConfigGate.Digits
import ConfigGate.Text.Bytes

/-!
# UUIDs

A UUID is 128 bits. Its text is 32 hexadecimal digits, the same digits in five groups with hyphens
between them, and the grouped form in braces or behind `urn:uuid:`. Where a text is none of these, a
`Uuid.Fault` says why.
-/

namespace ConfigGate

structure Uuid where
  bits : BitVec 128
deriving DecidableEq

namespace Uuid

/-- The 32 nibbles of a UUID. -/
def nibbles (u : Uuid) : List Nibble := Digits.fixed Nibble.base_pos 32 u.bits.toNat

def ofNibbles (ns : List Nibble) : Uuid := ⟨BitVec.ofNat 128 (Digits.value ns)⟩

/-- The lengths of the five groups. -/
def groupLengths : List Nat := [8, 4, 4, 4, 12]

/-- Cuts a text into groups of the given lengths with hyphens between them. -/
def groups? : (lengths : List Nat) → List Char → Option (List Char)
  | [], s => if s = [] then some [] else none
  | [n], s => if s.length = n then some s else none
  | n :: ns, s =>
    match s.drop n with
    | '-' :: r => (groups? ns r).map (s.take n ++ ·)
    | _ => none

/-- Puts hyphens between groups of the given lengths. -/
def joinGroups : (lengths : List Nat) → List Char → List Char
  | [], s => s
  | [_], s => s
  | n :: ns, s => s.take n ++ '-' :: joinGroups ns (s.drop n)

/-- The grouped form with lower-case digits. -/
def text (u : Uuid) : List Char := joinGroups groupLengths (u.nibbles.map Nibble.char)

/-! ### Reading -/

/-- Thirty-two digits. -/
def simple? (s : List Char) : Option Uuid :=
  if s.length = 32 then (s.mapM Nibble.ofChar?).map ofNibbles else none

def hyphenated? (s : List Char) : Option Uuid := (groups? groupLengths s).bind simple?

/-- What may stand in front of the grouped form, in any letter case. -/
def urn : List Char := ['u', 'r', 'n', ':', 'u', 'u', 'i', 'd', ':']

/-- What follows `urn:uuid:`. -/
def afterUrn? (s : List Char) : Option (List Char) :=
  if (s.take urn.length).map Char.toLower = urn then some (s.drop urn.length) else none

/-- What stands between braces. -/
def inBraces? : List Char → Option (List Char)
  | '{' :: s => if s.getLast? = some '}' then some s.dropLast else none
  | _ => none

/-! ### Faults -/

inductive Fault where
  | length (found : Nat)
  | character (found : Char) (index : Nat)
  | groupCount (found : Nat)
  | groupLength (group expected found : Nat)
deriving DecidableEq

/-- Whether a text has shown that it is meant as something else than 32 digits. -/
inductive Shape where
  | any
  | grouped
deriving DecidableEq

/-- The byte positions of hyphens among digits, counted from `pos`, or the first character that is
neither. -/
def hyphens (pos : Nat) : List Char → Except (Char × Nat) (List Nat)
  | [] => .ok []
  | c :: s =>
    if c = '-' then (hyphens (pos + 1) s).map (pos :: ·)
    else if (Nibble.ofChar? c).isSome then hyphens (pos + 1) s
    else .error (c, pos)

/-- The groups that end in a hyphen: their number, start and length. -/
def hyphenatedGroups : List (Nat × Nat × Nat) := [(0, 0, 8), (1, 9, 4), (2, 14, 4), (3, 19, 4)]

/-- The first group of a wrong length, for hyphens at four places of a text of `size` bytes. -/
def groupFault (size : Nat) (places : List Nat) : Fault :=
  let wrong? : (Nat × Nat × Nat) × Nat → Option Fault := fun ((group, start, expected), place) =>
    if place = start + expected then none else some (.groupLength group expected (place - start))
  ((hyphenatedGroups.zip places).findSome? wrong?).getD (.groupLength 4 12 (size - 24))

/-- Why the text `s` is not a UUID of the given shape. -/
def fault (shape : Shape) (s : List Char) : Fault :=
  let size := Text.byteCount s
  if size = 0 ∨ 45 < size then .length size
  else
    let (shape, start, inner) :=
      match shape, inBraces? s, afterUrn? s with
      | .any, some inner, _ => (Shape.grouped, 1, inner)
      | .any, none, some inner => (Shape.grouped, 9, inner)
      | shape, _, _ => (shape, 0, s)
    match hyphens 0 inner with
    | .error (c, pos) => .character c (start + pos)
    | .ok places =>
      if shape = .any ∧ places = [] then .length size
      else if places.length ≠ 4 then .groupCount (places.length + 1)
      else groupFault size places

/-- The text inside its wrapper that decides, and the shape that is left to it. -/
def subject (s : List Char) : Shape × List Char :=
  match Text.byteCount s, inBraces? s, afterUrn? s with
  | 36, _, _ => (.grouped, s)
  | 38, some inner, _ => (.grouped, inner)
  | 45, _, some inner => (.grouped, inner)
  | _, _, _ => (.any, s)

/-- The UUID that a text stands for. -/
def parse (s : List Char) : Except Fault Uuid :=
  let (shape, inner) := subject s
  let result :=
    match shape with
    | .any => simple? inner
    | .grouped => hyphenated? inner
  match result with
  | some u => .ok u
  | none => .error (fault shape inner)

/-- What a fault is reported as. -/
def Fault.message : Fault → List Char
  | length found => "invalid length: found ".toList ++ decimalText found
  | character c index =>
    "invalid character: found `".toList ++ [c] ++ "` at ".toList ++ decimalText index
  | groupCount found => "invalid group count: expected 5, found ".toList ++ decimalText found
  | groupLength group expected found =>
    "invalid group length in group ".toList ++ decimalText group ++ ": expected ".toList ++
      decimalText expected ++ ", found ".toList ++ decimalText found

end Uuid

end ConfigGate
