import Mathlib
import ConfigGate.Proofs.Command
import ConfigGate.Proofs.Decimal.NumericGrammar
import ConfigGate.Proofs.Json.Float
import ConfigGate.Proofs.VerdictLine

/-!
# The bytes of a line

Whatever a verdict holds, its line is one text of the format in ASCII, and the newline at its end is
the only control character in it. Values are followed down to their strings and numbers: a string is
a sequence of escapes, and a float is a numeral in every layout that is positional around one.
-/

namespace ConfigGate

/-! ### Characters -/

namespace Text

/-- Every character is in ASCII and none stands before the blank. This lets DEL through, which the
format does not count among the control characters. -/
def Plain (s : List Char) : Prop := ∀ c ∈ s, ' ' ≤ c ∧ c ≤ '\x7f'

variable {s t : List Char} {c : Char}

@[simp]
theorem plain_nil : Plain [] := by simp [Plain]

@[simp]
theorem plain_cons : Plain (c :: s) ↔ (' ' ≤ c ∧ c ≤ '\x7f') ∧ Plain s := List.forall_mem_cons

@[simp]
theorem plain_append : Plain (s ++ t) ↔ Plain s ∧ Plain t := List.forall_mem_append

theorem plain_flatMap {α : Type} {f : α → List Char} {xs : List α} (h : ∀ x ∈ xs, Plain (f x)) :
    Plain (xs.flatMap f) := by
  intro c hc
  obtain ⟨x, hx, hc⟩ := List.mem_flatMap.1 hc
  exact h x hx c hc

theorem Plain.bytes (h : Plain s) : ∀ b ∈ bytes s, 0x20 ≤ b ∧ b ≤ 0x7f := by
  intro b hb
  obtain ⟨c, hc, hb⟩ := List.mem_flatMap.1 hb
  obtain ⟨hlow, hhigh⟩ := h c hc
  have hlow : 0x20 ≤ c.val.toNat := hlow
  have hhigh : c.val.toNat ≤ 0x7f := hhigh
  -- One byte is enough for the character, and it is its number.
  rw [String.utf8EncodeChar, if_pos hhigh, List.mem_singleton] at hb
  have hb : b.toNat = c.val.toNat := by
    rw [hb, UInt8.toNat_ofNat', Nat.mod_eq_of_lt (by omega)]
  exact ⟨UInt8.le_iff_toNat_le.2 (hb ▸ hlow), UInt8.le_iff_toNat_le.2 (hb ▸ hhigh)⟩

end Text

/-! ### Values -/

namespace Json

open Grammar
open Text (Plain plain_flatMap)

/-- The text of a value between blanks, of any depth and with any numerals. Only its form counts,
not what it stands for. -/
def IsText (t : List Char) : Prop :=
  ∃ before body after depth x, t = before ++ (body ++ after) ∧
    Blanks before ∧ Value (fun _ _ => True) depth body x ∧ Blanks after

namespace Write

variable {style : Style}

theorem exists_numeralText (hlayout : style.float.plainFrom ≤ 0 ∧ 0 ≤ style.float.plainBelow)
    (n : Number) : ∃ m, NumeralText (number style n) m := by
  cases n with
  | integer i fits => exact ⟨_, numeralText_integerText i⟩
  | float s z =>
    obtain ⟨m, hm, -⟩ := Magnitude.exists_shows hlayout s z
    exact ⟨m, hm⟩

/-- Every value is written as the text of a value, floats and repeated keys included. -/
theorem exists_value_write (hs : style.IsSpaced)
    (hlayout : style.float.plainFrom ≤ 0 ∧ 0 ≤ style.float.plainBelow) {x : Json} {d : Nat}
    (hd : x.depth ≤ d) : ∃ y, Value (fun _ _ => True) d (x.write style) y := by
  induction x using Json.induction generalizing d with
  | null => exact ⟨_, .null⟩
  | bool b =>
    cases b with
    | false => exact ⟨_, .boolFalse⟩
    | true => exact ⟨_, .boolTrue⟩
  | number n =>
    obtain ⟨m, hm⟩ := exists_numeralText hlayout n
    have hv : Value (fun _ _ => True) d _ (.number n) := .number hm trivial
    exact ⟨.number n, by simpa [write, value] using hv⟩
  | string s => exact ⟨_, .string (stringText_string s)⟩
  | array xs ih =>
    obtain ⟨d, rfl⟩ : ∃ e, d = e + 1 := Nat.exists_eq_succ_of_ne_zero (by simp [depth] at hd; omega)
    have hd := depthElements_le_iff.1 (Nat.le_of_succ_le_succ hd)
    -- What each element is read as, to stand beside it.
    choose y hy using fun x hx => ih x hx (hd x hx)
    have hread : ∀ p ∈ xs.attach.map fun x => (x.1, y x.1 x.2),
        Value (fun _ _ => True) d (p.1.write style) p.2 := by
      simp only [List.forall_mem_map]
      exact fun x _ => hy x.1 x.2
    have hv := value_array hs hread
    rw [List.map_map, Function.comp_def] at hv
    rw [← List.attach_map_subtype_val xs]
    exact ⟨_, hv⟩
  | object ms ih =>
    obtain ⟨d, rfl⟩ : ∃ e, d = e + 1 := Nat.exists_eq_succ_of_ne_zero (by simp [depth] at hd; omega)
    have hd := depthMembers_le_iff.1 (Nat.le_of_succ_le_succ hd)
    choose y hy using fun m hm => ih m hm (hd m hm)
    have hread : ∀ p ∈ ms.attach.map fun m => (m.1.1, m.1.2, y m.1 m.2),
        Value (fun _ _ => True) d (p.2.1.write style) p.2.2 := by
      simp only [List.forall_mem_map]
      exact fun m _ => hy m.1 m.2
    have hv := value_object_merged hs hread
    rw [List.map_map, Function.comp_def] at hv
    rw [← List.attach_map_subtype_val ms]
    exact ⟨_, hv⟩

/-! ### ASCII -/

theorem plain_hexUnit (u : Nat) : Plain (hexUnit u) := by
  have hchar : ∀ d : Nibble, ' ' ≤ d.char ∧ d.char ≤ '\x7f' := by decide
  have hhex : Plain (hexText 4 u) := List.forall_mem_map.2 fun d _ => hchar d
  simp [hexUnit, hhex]

theorem plain_special (c : Char) : Plain (special c) := by
  unfold special
  split
  case h_8 => exact plain_hexUnit _
  all_goals simp

theorem plain_escape (c : Char) : Plain (escape c) := by
  rw [escape]
  split
  · exact plain_special c
  · rename_i h
    simp only [isSpecial, decide_eq_true_eq, not_or] at h
    rw [runEscape]
    split
    · next hc =>
      have hlow : ' ' ≤ c := Char.not_lt.1 h.2.2
      have hhigh : c ≤ '\x7f' := Nat.le_of_lt_succ hc
      simp [hlow, hhigh]
    · exact plain_flatMap fun u _ => plain_hexUnit u

theorem plain_string (s : String) : Plain (string s).flatten := by
  have h : Plain (s.toList.flatMap escape) := plain_flatMap fun c _ => plain_escape c
  rw [flatten_string]
  simp [h]

theorem plain_number (hlayout : style.float.plainFrom ≤ 0 ∧ 0 ≤ style.float.plainBelow)
    (n : Number) : Plain (number style n) := by
  obtain ⟨m, hm⟩ := exists_numeralText hlayout n
  refine hm.forall_mem (by decide) fun c hc => ?_
  fin_cases hc <;> decide

theorem plain_write (hcomma : Plain style.comma) (hcolon : Plain style.colon)
    (hlayout : style.float.plainFrom ≤ 0 ∧ 0 ≤ style.float.plainBelow) (x : Json) :
    Plain (x.write style) := by
  induction x using Json.induction with
  | null => simp [write, value]
  | bool b => cases b <;> simp [write, value]
  | number n => simpa [write, value] using plain_number hlayout n
  | string s => exact plain_string s
  | array xs ih =>
    cases xs with
    | nil => simp [write, value, elements]
    | cons x xs =>
      rw [List.forall_mem_cons] at ih
      have hmore : Plain (moreElements style xs).flatten := by
        rw [flatten_moreElements]
        exact plain_flatMap fun y hy => by simp [hcomma, ih.2 y hy]
      have hx : Plain (value style x).flatten := ih.1
      simp [write, value, elements, hx, hmore]
  | object ms ih =>
    cases ms with
    | nil => simp [write, value, members]
    | cons m ms =>
      rw [List.forall_mem_cons] at ih
      have hmore : Plain (moreMembers style ms).flatten := by
        rw [flatten_moreMembers]
        exact plain_flatMap fun m' hm' => by simp [hcomma, hcolon, plain_string, ih.2 m' hm']
      have hm : Plain (value style m.2).flatten := ih.1
      simp [write, value, members, plain_string, hcolon, hm, hmore]

end Write

end Json

/-! ### Lines -/

namespace Verdict

theorem style_layout : style.float.plainFrom ≤ 0 ∧ 0 ≤ style.float.plainBelow := by decide

theorem plain_write_style (x : Json) : Text.Plain (x.write style) :=
  Json.Write.plain_write (by simp [style]) (by simp [style]) style_layout x

-- The last character of ASCII stands as it is, and the one behind it is escaped.
example : (Json.string "\x7f\u0080").write style = "\"\x7f\\u0080\"".toList := by decide

/-- What is written for a verdict, whatever its strings, numbers and nesting, are the bytes of one
text of the format and a newline. The bytes of the text are in ASCII, from the blank on. A sink that
fails holds the first of these bytes and no others. -/
theorem write_text (v : Verdict) :
    ∃ text, Json.IsText text ∧ (∀ b ∈ Text.bytes text, 0x20 ≤ b ∧ b ≤ 0x7f) ∧
      Outcome.unlimited.write v.fragments = (Text.bytes text ++ [0x0a], none) ∧
      ∀ sink : Sink, (sink.write v.fragments).1 <+: Text.bytes text ++ [0x0a] := by
  obtain ⟨x, hx⟩ :=
    Json.Write.exists_value_write style_isSpaced style_layout (Nat.le_refl v.toJson.depth)
  have hbytes : Text.bytes v.fragments.flatten = Text.bytes (v.toJson.write style) ++ [0x0a] := by
    rw [fragments, List.flatten_append]
    exact List.flatMap_append
  refine ⟨v.toJson.write style, ⟨[], _, [], _, x, by simp, .nil, hx, .nil⟩,
    (plain_write_style v.toJson).bytes, ?_, ?_⟩
  · rw [Outcome.write_unlimited, hbytes]
  · intro sink
    rw [(sink.write_spec v.fragments).1, hbytes, Sink.kept]
    cases sink.capacity with
    | none => exact List.prefix_rfl
    | some n => exact List.take_prefix _ _

end Verdict

end ConfigGate
