import Mathlib
import ConfigGate.Json.Parse
import ConfigGate.Proofs.Digits

/-!
# The grammar of JSON texts

`Denotes text x` says that a text stands for the value `x`. It is put together from the productions
of the format, each a relation between a stretch of text and what it means, without regard to how a
text is read. `Value number depth text x` is the production of values in which at most `depth`
brackets are open at once. The meaning of numbers is left to the relation `number`, so that the
format can be spoken of without the limits of 64 bits.
-/

namespace ConfigGate.Json

/-! ### Members

What an object with repeated keys stands for. -/

namespace Members

/-- The keys in their order. -/
def keys (ms : List Member) : List String := ms.map (·.1)

/-- `ms` has every key of `written` once, in the order of first occurrences, with the value of its
last occurrence. -/
structure Merges (written : List Member) (ms : Members) : Prop where
  keys_eq : keys ms = (keys written).eraseDups
  get?_eq : ∀ key, get? key ms = get? key written.reverse

end Members

namespace Grammar

/-- A text of blanks only. -/
def Blanks (t : List Char) : Prop := ∀ c ∈ t, isBlank c = true

/-! ### Numbers -/

/-- Digits before a point: at least one, and no zero in front of others. -/
def IsWhole (ds : List Digit) : Prop :=
  ds ≠ [] ∧ (ds.head? = some Digit.zero → ds.length = 1)

inductive FractionText : List Char → List Digit → Prop where
  | absent : FractionText [] []
  | digits {ds : List Digit} (ne : ds ≠ []) : FractionText ('.' :: ds.map Digit.char) ds

/-- The sign of an exponent, true for a minus. -/
inductive ExponentSign : List Char → Bool → Prop where
  | absent : ExponentSign [] false
  | plus : ExponentSign ['+'] false
  | minus : ExponentSign ['-'] true

inductive ExponentText : List Char → Option Exponent → Prop where
  | absent : ExponentText [] none
  | digits {mark : Char} {sign : List Char} {negative : Bool} {ds : List Digit}
      (hmark : mark = 'e' ∨ mark = 'E') (hsign : ExponentSign sign negative) (ne : ds ≠ []) :
      ExponentText (mark :: (sign ++ ds.map Digit.char)) (some ⟨negative, ds⟩)

/-- The text of a numeral. -/
inductive NumeralText : List Char → Numeral → Prop where
  | mk {whole fraction : List Digit} {exponent : Option Exponent} {f e : List Char}
      (negative : Bool) (hw : IsWhole whole) (hf : FractionText f fraction)
      (he : ExponentText e exponent) :
      NumeralText ((if negative then ['-'] else []) ++ (whole.map Digit.char ++ (f ++ e)))
        ⟨negative, whole, fraction, exponent⟩

/-- The numeral of an integer: no fraction, no exponent, and not negative zero. -/
def IsInteger (n : Numeral) (i : Int) : Prop :=
  n.fraction = [] ∧ n.exponent = none ∧
    i = (if n.negative then -(Digits.value n.whole : Int) else Digits.value n.whole) ∧
    ¬ (n.negative = true ∧ i = 0)

/-- The number that a numeral stands for: an integer if it is one that fits 64 bits, and otherwise
a float, if it is in range. -/
inductive NumberOf : Numeral → Number → Prop where
  | integer {n : Numeral} {i : Int} (h : IsInteger n i)
      (fits : -0x8000000000000000 ≤ i ∧ i < 0x10000000000000000) : NumberOf n (.integer i fits)
  | float {n : Numeral} {x : Number}
      (h : ∀ i, IsInteger n i → ¬ (-0x8000000000000000 ≤ i ∧ i < 0x10000000000000000))
      (hx : Number.ofFractional n = .ok x) : NumberOf n x

/-! ### Strings -/

/-- Four hexadecimal digits, in either letter case. -/
inductive UnitText : List Char → Nat → Prop where
  | mk {a b c d : Char} {i j k l : Nibble} (ha : i.IsSpelled a) (hb : j.IsSpelled b)
      (hc : k.IsSpelled c) (hd : l.IsSpelled d) :
      UnitText [a, b, c, d] (Digits.value [i, j, k, l])

/-- The letters that may follow a backslash, each with the character that it stands for. -/
def shortEscapes : List (Char × Char) :=
  [('"', '"'), ('\\', '\\'), ('/', '/'), ('b', '\x08'), ('f', '\x0c'), ('n', '\n'), ('r', '\r'),
    ('t', '\t')]

/-- One character of a string. Surrogates stand in pairs, a high one before a low one. -/
inductive CharText : List Char → Char → Prop where
  | plain {c : Char} (hq : c ≠ '"') (hb : c ≠ '\\') (hc : ¬ c < ' ') : CharText [c] c
  | short {l c : Char} (h : (l, c) ∈ shortEscapes) : CharText ['\\', l] c
  | unit {t : List Char} {u : Nat} (ht : UnitText t u) (hu : ¬ (0xd800 ≤ u ∧ u < 0xe000)) :
      CharText ('\\' :: 'u' :: t) (Char.ofNat u)
  | pair {t t' : List Char} {u u' : Nat} (ht : UnitText t u) (ht' : UnitText t' u')
      (hu : 0xd800 ≤ u ∧ u < 0xdc00) (hu' : 0xdc00 ≤ u' ∧ u' < 0xe000) :
      CharText ('\\' :: 'u' :: (t ++ '\\' :: 'u' :: t'))
        (Char.ofNat (0x10000 + (u - 0xd800) * 0x400 + (u' - 0xdc00)))

/-- Characters one after the other. -/
inductive CharsText : List Char → List Char → Prop where
  | nil : CharsText [] []
  | cons {t ts : List Char} {c : Char} {cs : List Char} (h : CharText t c) (hs : CharsText ts cs) :
      CharsText (t ++ ts) (c :: cs)

/-- A string in its quotes. -/
inductive StringText : List Char → String → Prop where
  | mk {body : List Char} {s : String} (h : CharsText body s.toList) :
      StringText ('"' :: (body ++ ['"'])) s

/-! ### Values -/

/-- A value as it stands in a list, with blanks around it. -/
structure Item where
  before : List Char
  text : List Char
  after : List Char
  value : Json

def Item.written (i : Item) : List Char := i.before ++ (i.text ++ i.after)

/-- The stretches around a value are blanks. -/
def Item.IsPadded (i : Item) : Prop := Blanks i.before ∧ Blanks i.after

/-- A member as it stands in an object, with blanks around its key and its value. -/
structure Entry where
  before : List Char
  keyText : List Char
  after : List Char
  key : String
  item : Item

namespace Entry

def written (e : Entry) : List Char := e.before ++ (e.keyText ++ (e.after ++ ':' :: e.item.written))

def IsPadded (e : Entry) : Prop := Blanks e.before ∧ Blanks e.after ∧ e.item.IsPadded

def member (e : Entry) : Member := (e.key, e.item.value)

end Entry

/-- Texts with commas between them. -/
def separated (ts : List (List Char)) : List Char := [','].intercalate ts

/-- The text of a value in which at most `depth` brackets are open at once. -/
inductive Value (number : Numeral → Number → Prop) : Nat → List Char → Json → Prop where
  | null {depth : Nat} : Value number depth ['n', 'u', 'l', 'l'] .null
  | boolTrue {depth : Nat} : Value number depth ['t', 'r', 'u', 'e'] (.bool true)
  | boolFalse {depth : Nat} : Value number depth ['f', 'a', 'l', 's', 'e'] (.bool false)
  | number {depth : Nat} {t : List Char} {n : Numeral} {x : Number} (ht : NumeralText t n)
      (hx : number n x) : Value number depth t (.number x)
  | string {depth : Nat} {t : List Char} {s : String} (h : StringText t s) :
      Value number depth t (.string s)
  | emptyArray {depth : Nat} {t : List Char} (h : Blanks t) :
      Value number (depth + 1) ('[' :: (t ++ [']'])) (.array [])
  | array {depth : Nat} (items : List Item) (ne : items ≠ []) (pad : ∀ i ∈ items, i.IsPadded)
      (h : ∀ i ∈ items, Value number depth i.text i.value) :
      Value number (depth + 1) ('[' :: (separated (items.map (·.written)) ++ [']']))
        (.array (items.map (·.value)))
  | emptyObject {depth : Nat} {t : List Char} (h : Blanks t) :
      Value number (depth + 1) ('{' :: (t ++ ['}'])) (.object [])
  | object {depth : Nat} (entries : List Entry) {ms : Members} (ne : entries ≠ [])
      (pad : ∀ e ∈ entries, e.IsPadded) (keys : ∀ e ∈ entries, StringText e.keyText e.key)
      (h : ∀ e ∈ entries, Value number depth e.item.text e.item.value)
      (merges : Members.Merges (entries.map (·.member)) ms) :
      Value number (depth + 1) ('{' :: (separated (entries.map (·.written)) ++ ['}'])) (.object ms)

end Grammar

/-- A text that is one value between blanks, with at most 127 brackets open at once. -/
inductive Denotes : List Char → Json → Prop where
  | mk {before t after : List Char} {x : Json} (hb : Grammar.Blanks before)
      (h : Grammar.Value Grammar.NumberOf 127 t x) (ha : Grammar.Blanks after) :
      Denotes (before ++ (t ++ after)) x

end ConfigGate.Json
