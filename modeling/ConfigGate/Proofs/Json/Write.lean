import Mathlib
import ConfigGate.Proofs.Json.Escape
import ConfigGate.Proofs.Json.Parse

/-!
# Written values

What is written for a value is a text of the grammar. Lists and objects are put together from the
texts of their elements, whatever these elements are read as. A value without floats and without
repeated keys is read as itself.
-/

namespace ConfigGate.Json

open Grammar

/-! ### Shapes of values -/

/-- Induction on a value by the elements and members in it. -/
theorem induction {P : Json → Prop} (null : P .null) (bool : ∀ b, P (.bool b))
    (number : ∀ n, P (.number n)) (string : ∀ s, P (.string s))
    (array : ∀ xs : List Json, (∀ x ∈ xs, P x) → P (.array xs))
    (object : ∀ ms : Members, (∀ m ∈ ms, P m.2) → P (.object ms)) (x : Json) : P x := by
  refine @Json.rec P (fun xs => ∀ x ∈ xs, P x) (fun ms => ∀ m ∈ ms, P m.2) (fun m => P m.2) null
    bool number string array object ?_ ?_ ?_ ?_ ?_ x
  · simp
  · intro x xs hx hxs
    simpa using ⟨hx, hxs⟩
  · simp
  · intro m ms hm hms
    simpa using ⟨hm, fun k v h => hms (k, v) h⟩
  · intro k v hv
    exact hv

mutual

/-- The greatest number of brackets that are open at once in the text of a value. -/
def depth : Json → Nat
  | array xs => depthElements xs + 1
  | object ms => depthMembers ms + 1
  | _ => 0

def depthElements : List Json → Nat
  | [] => 0
  | x :: xs => max (depth x) (depthElements xs)

def depthMembers : List (String × Json) → Nat
  | [] => 0
  | (_, v) :: ms => max (depth v) (depthMembers ms)

end

theorem depthElements_le_iff {xs : List Json} {d : Nat} :
    depthElements xs ≤ d ↔ ∀ x ∈ xs, x.depth ≤ d := by
  induction xs with
  | nil => simp [depthElements]
  | cons x xs ih => simp [depthElements, ih]

theorem depthMembers_le_iff {ms : Members} {d : Nat} :
    depthMembers ms ≤ d ↔ ∀ m ∈ ms, m.2.depth ≤ d := by
  induction ms with
  | nil => simp [depthMembers]
  | cons m ms ih =>
    simp only [depthMembers, Nat.max_le, ih, List.forall_mem_cons]

/-- `Part y x` says that `y` is `x` or stands somewhere in it. -/
inductive Part : Json → Json → Prop where
  | self (x : Json) : Part x x
  | element {x y : Json} {xs : List Json} (hx : x ∈ xs) (h : Part y x) : Part y (.array xs)
  | member {y : Json} {m : Member} {ms : Members} (hm : m ∈ ms) (h : Part y m.2) :
      Part y (.object ms)

/-- No float stands in a value. -/
def FloatFree (x : Json) : Prop := ∀ s z, ¬ Part (.number (.float s z)) x

/-- No object in a value has a key twice. -/
def DistinctKeys (x : Json) : Prop := ∀ ms, Part (.object ms) x → (Members.keys ms).Nodup

/-- A value without brackets has no part but itself. -/
theorem Part.eq_of_depth {x y : Json} (h : Part y x) (hx : x.depth = 0) : y = x := by
  cases h with
  | self => rfl
  | element => simp [depth] at hx
  | member => simp [depth] at hx

theorem floatFree_of_depth {x : Json} (hx : x.depth = 0)
    (hne : ∀ s z, x ≠ .number (.float s z)) : FloatFree x :=
  fun s z hp => hne s z (hp.eq_of_depth hx).symm

theorem distinctKeys_of_depth {x : Json} (hx : x.depth = 0) : DistinctKeys x := by
  intro ms hp
  rw [← hp.eq_of_depth hx] at hx
  simp [depth] at hx

@[simp]
theorem floatFree_null : FloatFree .null := floatFree_of_depth rfl (by simp)

@[simp]
theorem floatFree_bool (b : Bool) : FloatFree (.bool b) := floatFree_of_depth rfl (by simp)

@[simp]
theorem floatFree_integer (i : Int) (fits) : FloatFree (.number (.integer i fits)) :=
  floatFree_of_depth rfl (by simp)

@[simp]
theorem floatFree_string (s : String) : FloatFree (.string s) := floatFree_of_depth rfl (by simp)

@[simp]
theorem floatFree_array {xs : List Json} :
    FloatFree (.array xs) ↔ ∀ x ∈ xs, FloatFree x := by
  refine ⟨fun h x hx s z hp => h s z (.element hx hp), fun h s z hp => ?_⟩
  cases hp with
  | element hx hp => exact h _ hx s z hp

@[simp]
theorem floatFree_object {ms : Members} :
    FloatFree (.object ms) ↔ ∀ m ∈ ms, FloatFree m.2 := by
  refine ⟨fun h m hm s z hp => h s z (.member hm hp), fun h s z hp => ?_⟩
  cases hp with
  | member hm hp => exact h _ hm s z hp

@[simp]
theorem distinctKeys_null : DistinctKeys .null := distinctKeys_of_depth rfl

@[simp]
theorem distinctKeys_bool (b : Bool) : DistinctKeys (.bool b) := distinctKeys_of_depth rfl

@[simp]
theorem distinctKeys_number (n : Number) : DistinctKeys (.number n) := distinctKeys_of_depth rfl

@[simp]
theorem distinctKeys_string (s : String) : DistinctKeys (.string s) := distinctKeys_of_depth rfl

@[simp]
theorem distinctKeys_array {xs : List Json} :
    DistinctKeys (.array xs) ↔ ∀ x ∈ xs, DistinctKeys x := by
  refine ⟨fun h x hx ms hp => h ms (.element hx hp), fun h ms hp => ?_⟩
  cases hp with
  | element hx hp => exact h _ hx ms hp

@[simp]
theorem distinctKeys_object {ms : Members} :
    DistinctKeys (.object ms) ↔ (Members.keys ms).Nodup ∧ ∀ m ∈ ms, DistinctKeys m.2 := by
  refine ⟨fun h => ⟨h ms (.self _), fun m hm ms' hp => h ms' (.member hm hp)⟩, fun h ms' hp => ?_⟩
  cases hp with
  | self => exact h.1
  | member hm hp => exact h.2 _ hm ms' hp

/-! ### Values -/

/-- Separators that are a comma and a colon with blanks behind them. -/
structure Style.IsSpaced (style : Style) : Prop where
  comma : ∃ pad, Blanks pad ∧ style.comma = ',' :: pad
  colon : ∃ pad, Blanks pad ∧ style.colon = ':' :: pad

namespace Write

variable {style : Style} {number : Numeral → Number → Prop} {d : Nat}

theorem flatten_moreElements (xs : List Json) :
    (moreElements style xs).flatten = xs.flatMap fun x => style.comma ++ x.write style := by
  induction xs with
  | nil => rfl
  | cons x xs ih => simp [moreElements, write, ih]

theorem flatten_moreMembers (ms : List Member) :
    (moreMembers style ms).flatten =
      ms.flatMap fun m => style.comma ++ ((string m.1).flatten ++ (style.colon ++ m.2.write style)) := by
  induction ms with
  | nil => rfl
  | cons m ms ih => simp [moreMembers, write, ih]

theorem write_array (xs : List Json) :
    (Json.array xs).write style =
      '[' :: (style.comma.intercalate (xs.map (·.write style)) ++ [']']) := by
  cases xs with
  | nil => rfl
  | cons x xs =>
    rw [List.map_cons, intercalate_cons, List.flatMap_map]
    simp [write, value, elements, flatten_moreElements]

/-- The text of a member of an object. -/
def memberText (style : Style) (m : Member) : List Char :=
  (string m.1).flatten ++ (style.colon ++ m.2.write style)

theorem write_object (ms : Members) :
    (Json.object ms).write style =
      '{' :: (style.comma.intercalate (ms.map (memberText style)) ++ ['}']) := by
  cases ms with
  | nil => rfl
  | cons m ms =>
    rw [List.map_cons, intercalate_cons, List.flatMap_map]
    simp [write, value, members, flatten_moreMembers, memberText]

/-- A written list is read as the list of what its elements are read as. Each element stands beside
what it is read as. -/
theorem value_array (hs : style.IsSpaced) {ps : List (Json × Json)}
    (h : ∀ p ∈ ps, Value number d (p.1.write style) p.2) :
    Value number (d + 1) ((Json.array (ps.map (·.1))).write style) (.array (ps.map (·.2))) := by
  cases ps with
  | nil => exact .emptyArray (t := []) .nil
  | cons p ps =>
    obtain ⟨pad, hpad, hcomma⟩ := hs.comma
    let item (before : List Char) (p : Json × Json) : Item := ⟨before, p.1.write style, [], p.2⟩
    have hitems : ∀ i ∈ item [] p :: ps.map (item pad),
        i.IsPadded ∧ Value number d i.text i.value := by
      simp only [List.forall_mem_cons, List.forall_mem_map] at h ⊢
      exact ⟨⟨⟨.nil, .nil⟩, h.1⟩, fun p hp => ⟨⟨hpad, .nil⟩, h.2 p hp⟩⟩
    have hv := Value.array (item [] p :: ps.map (item pad)) (by simp) (fun i hi => (hitems i hi).1)
      fun i hi => (hitems i hi).2
    have htext : (Json.array ((p :: ps).map (·.1))).write style =
        '[' :: (separated ((item [] p :: ps.map (item pad)).map (·.written)) ++ [']']) := by
      rw [List.map_cons, List.map_cons, separated_cons, more, List.map_map, List.flatMap_map]
      simp [write, value, elements, flatten_moreElements, hcomma, Item.written, item,
        List.flatMap_map]
    have hvalues : (item [] p :: ps.map (item pad)).map (·.value) = (p :: ps).map (·.2) := by
      simp only [List.map_cons, List.map_map]
      rfl
    rw [hvalues] at hv
    rwa [htext]

/-- A written object is read as the object of what its values are read as, repeated keys merged.
Each value stands beside what it is read as. -/
theorem value_object_merged (hs : style.IsSpaced) {ps : List (String × Json × Json)}
    (h : ∀ p ∈ ps, Value number d (p.2.1.write style) p.2.2) :
    Value number (d + 1) ((Json.object (ps.map fun p => (p.1, p.2.1))).write style)
      (.object (Members.ofList (ps.map fun p => (p.1, p.2.2)))) := by
  cases ps with
  | nil => exact .emptyObject (t := []) .nil
  | cons p ps =>
    obtain ⟨pad, hpad, hcomma⟩ := hs.comma
    obtain ⟨gap, hgap, hcolon⟩ := hs.colon
    let entry (before : List Char) (p : String × Json × Json) : Entry :=
      ⟨before, (string p.1).flatten, [], p.1, ⟨gap, p.2.1.write style, [], p.2.2⟩⟩
    have hentries : ∀ e ∈ entry [] p :: ps.map (entry pad),
        e.IsPadded ∧ StringText e.keyText e.key ∧ Value number d e.item.text e.item.value := by
      simp only [List.forall_mem_cons, List.forall_mem_map] at h ⊢
      exact ⟨⟨⟨.nil, .nil, hgap, .nil⟩, stringText_string p.1, h.1⟩,
        fun p hp => ⟨⟨hpad, .nil, hgap, .nil⟩, stringText_string p.1, h.2 p hp⟩⟩
    have hmembers : (entry [] p :: ps.map (entry pad)).map (·.member) =
        (p :: ps).map fun p => (p.1, p.2.2) := by
      simp only [List.map_cons, List.map_map]
      rfl
    have hv := Value.object (entry [] p :: ps.map (entry pad)) (by simp)
      (fun e he => (hentries e he).1) (fun e he => (hentries e he).2.1)
      (fun e he => (hentries e he).2.2) (Members.merges_ofList _)
    have htext : (Json.object ((p :: ps).map fun p => (p.1, p.2.1))).write style =
        '{' :: (separated ((entry [] p :: ps.map (entry pad)).map (·.written)) ++ ['}']) := by
      rw [List.map_cons, List.map_cons, separated_cons, more, List.map_map, List.flatMap_map]
      simp [write, value, members, flatten_moreMembers, hcomma, hcolon, Entry.written,
        Item.written, entry, List.flatMap_map]
    rw [hmembers] at hv
    rwa [htext]

/-- With distinct keys there is nothing to merge. -/
theorem value_object (hs : style.IsSpaced) {ps : List (String × Json × Json)}
    (nodup : (ps.map (·.1)).Nodup) (h : ∀ p ∈ ps, Value number d (p.2.1.write style) p.2.2) :
    Value number (d + 1) ((Json.object (ps.map fun p => (p.1, p.2.1))).write style)
      (.object (ps.map fun p => (p.1, p.2.2))) := by
  have hkeys : Members.keys (ps.map fun p => (p.1, p.2.2)) = ps.map (·.1) := by
    simp only [Members.keys, List.map_map]
    rfl
  have hv := value_object_merged hs h
  rwa [Members.ofList_of_nodup (hkeys ▸ nodup)] at hv

theorem numeralText_integerText (i : Int) :
    NumeralText (integerText i) ⟨decide (i < 0), Digits.decimal i.natAbs, [], none⟩ := by
  have hwhole : IsWhole (Digits.decimal i.natAbs) := by
    refine ⟨Digits.decimal_ne_nil _, fun h => ?_⟩
    rw [Digits.decimal_head _ h]
    simp [Digits.decimal]
  have h := NumeralText.mk (decide (i < 0)) hwhole .absent .absent
  simp only [List.append_nil, decide_eq_true_eq] at h
  rw [integerText, decimalText]
  split <;> simpa [*] using h

theorem numberOf_integerText (i : Int) (fits) :
    NumberOf ⟨decide (i < 0), Digits.decimal i.natAbs, [], none⟩ (.integer i fits) := by
  refine .integer ⟨rfl, rfl, ?_, ?_⟩ fits
  · simp only [Digits.value_decimal, decide_eq_true_eq]
    split <;> omega
  · simp only [decide_eq_true_eq]
    omega

/-- A value without floats and repeated keys is read as itself. -/
theorem value_write (hs : style.IsSpaced) {x : Json} (hf : FloatFree x) (hk : DistinctKeys x)
    (hd : x.depth ≤ d) : Value NumberOf d (x.write style) x := by
  induction x using Json.induction generalizing d with
  | null => exact .null
  | bool b =>
    cases b with
    | false => exact .boolFalse
    | true => exact .boolTrue
  | number n =>
    cases n with
    | integer i fits =>
      have ht := numeralText_integerText i
      have hx := numberOf_integerText i fits
      have hv : Value NumberOf d _ _ := .number ht hx
      simpa [write, value, Write.number] using hv
    | float s z => exact absurd (.self _) (hf s z)
  | string s => exact .string (stringText_string s)
  | array xs ih =>
    obtain ⟨d, rfl⟩ : ∃ e, d = e + 1 := Nat.exists_eq_succ_of_ne_zero (by simp [depth] at hd; omega)
    have hd := depthElements_le_iff.1 (Nat.le_of_succ_le_succ hd)
    have hread : ∀ p ∈ xs.map fun x => (x, x), Value NumberOf d (p.1.write style) p.2 := by
      simp only [List.forall_mem_map]
      exact fun x hx => ih x hx (floatFree_array.1 hf x hx) (distinctKeys_array.1 hk x hx) (hd x hx)
    simpa [Function.comp_def] using value_array hs hread
  | object ms ih =>
    obtain ⟨d, rfl⟩ : ∃ e, d = e + 1 := Nat.exists_eq_succ_of_ne_zero (by simp [depth] at hd; omega)
    have hd := depthMembers_le_iff.1 (Nat.le_of_succ_le_succ hd)
    obtain ⟨nodup, hk⟩ := distinctKeys_object.1 hk
    have hread : ∀ p ∈ ms.map fun m => (m.1, m.2, m.2),
        Value NumberOf d (p.2.1.write style) p.2.2 := by
      simp only [List.forall_mem_map]
      exact fun m hm => ih m hm (floatFree_object.1 hf m hm) (hk m hm) (hd m hm)
    have hkeys : ((ms.map fun m => (m.1, m.2, m.2)).map (·.1)).Nodup := by
      rwa [List.map_map]
    simpa [Function.comp_def] using value_object hs hkeys hread

end Write

end ConfigGate.Json
