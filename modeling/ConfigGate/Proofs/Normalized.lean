import Mathlib
import ConfigGate.Proofs.Conformance
import ConfigGate.Proofs.Judgement
import ConfigGate.Proofs.Json.Float
import ConfigGate.Proofs.Json.Write
import ConfigGate.Proofs.Moment.Text
import ConfigGate.Proofs.UuidSpelling

/-!
# Normalized text

The text of a record is judged as the record was. Every part is read back from its own text, the
numbers up to rounding. Only an instant before the year zero is refused, as its year has a sign.
-/

namespace ConfigGate

open Json (Denotes Members)
open Json.Grammar (Value NumberOf NumeralText)

/-- An instant whose year in UTC is negative. -/
def Moment.IsBeforeYearZero : Moment → Prop
  | instant t => (Civil.ofNanoseconds t.nanoseconds).date.year < 0
  | civil _ => False

instance (m : Moment) : Decidable m.IsBeforeYearZero :=
  match m with
  | .instant t => inferInstanceAs (Decidable ((Civil.ofNanoseconds t.nanoseconds).date.year < 0))
  | .civil _ => inferInstanceAs (Decidable False)

/-- A moment that a document can give. -/
def Moment.IsWritable : Moment → Prop
  | instant _ => True
  | civil c => c.IsWritable

theorem Moment.parse_text {m : Moment} (h : m.IsWritable) (hyear : ¬ m.IsBeforeYearZero) :
    parse m.text = .ok m := by
  cases m with
  | instant t => exact parse_text_instant t (Int.not_lt.1 hyear)
  | civil c => exact parse_text_civil h

theorem Moment.parse_text_of_isBeforeYearZero {m : Moment} (hyear : m.IsBeforeYearZero) :
    parse m.text = .error .unsupported := by
  cases m with
  | instant t => exact parse_text_negative t hyear
  | civil c => exact hyear.elim

namespace Record

theorem style_isSpaced : style.IsSpaced :=
  ⟨⟨[], .nil, rfl⟩, ⟨[], .nil, rfl⟩⟩

/-- The members of the normalized text. -/
def members (r : Record) : Members :=
  [("id", .string (String.ofList r.id.text)),
    ("timestamp", .string (String.ofList r.timestamp.text)),
    ("temperature", r.temperature.toJson),
    ("pressure", r.pressure.toJson),
    ("mode", .string r.mode.name)]

/-- A number of a record is read from its text as one between the same bounds. -/
theorem exists_value {x : Binary64} {lo hi : Int} (hlo : Json.Number.IsBound lo.natAbs)
    (hhi : Json.Number.IsBound hi.natAbs) (hpos : 0 < hi) (h : x.Between lo hi) (d : Nat) :
    ∃ y : Binary64, y.Between lo hi ∧ Value NumberOf d (x.toJson.write style) y.toJson := by
  cases x with
  | finite s x =>
    have hlayout : style.float.plainFrom ≤ 0 ∧ 4 ≤ style.float.plainBelow := by decide
    obtain ⟨n, g, htext, hn, hg⟩ := Binary64.exists_reread hlayout hlo hhi hpos h
    refine ⟨.finite s g, hg, ?_⟩
    have hv : Value NumberOf d _ _ := .number htext hn
    simpa [Binary64.toJson, Json.write, Json.Write.value, Json.Write.number] using hv
  | infinite s => exact h.elim
  | nan => exact h.elim

/-- `r'` is `r` up to its numbers, and these are within the bounds of the schema. -/
structure Matches (r r' : Record) : Prop where
  id : r'.id = r.id
  timestamp : r'.timestamp = r.timestamp
  mode : r'.mode = r.mode
  temperature : r'.temperature.Between (-50) 150
  pressure : r'.pressure.Between 800 1200

/-- The normalized text denotes the members of a record that differs in its numbers at most. -/
theorem exists_denotes (r : Record) (ht : r.temperature.Between (-50) 150)
    (hp : r.pressure.Between 800 1200) :
    ∃ r', r.Matches r' ∧ Denotes r.text (.object r'.members) := by
  obtain ⟨t, hbt, hvt⟩ := exists_value (by constructor <;> decide) (by constructor <;> decide)
    (by decide) ht 126
  obtain ⟨p, hbp, hvp⟩ := exists_value (by constructor <;> decide) (by constructor <;> decide)
    (by decide) hp 126
  refine ⟨{ r with temperature := t, pressure := p }, ⟨rfl, rfl, rfl, hbt, hbp⟩, ?_⟩
  have hstring : ∀ s : String, Value NumberOf 126 ((Json.string s).write style) (.string s) :=
    fun s => .string (Json.Write.stringText_string s)
  have hread : ∀ q ∈ [("id", Json.string (String.ofList r.id.text), Json.string (String.ofList r.id.text)),
      ("timestamp", .string (String.ofList r.timestamp.text),
        .string (String.ofList r.timestamp.text)),
      ("temperature", r.temperature.toJson, t.toJson),
      ("pressure", r.pressure.toJson, p.toJson),
      ("mode", .string r.mode.name, .string r.mode.name)],
      Value NumberOf 126 (q.2.1.write style) q.2.2 := by
    simp only [List.forall_mem_cons, hstring, hvt, hvp, true_and]
    simp
  have hv := Json.Write.value_object style_isSpaced (by simp) hread
  have h := Denotes.mk .nil hv .nil
  rwa [List.nil_append, List.append_nil] at h

/-! ### Judging the text -/

theorem number_toJson {field : String} {ge le : Int32} {x : Binary64}
    (h : x.Between ge.toInt le.toInt) : Coercion.number field x.toJson ge le = .ok x := by
  refine Coercion.number_eq_ok_iff.2 ⟨?_, h⟩
  cases x with
  | finite s x => rfl
  | infinite s => exact h.elim
  | nan => exact h.elim

theorem literal_name (field pattern : String) (m : Mode) :
    Coercion.literal field (.string m.name) pattern ["AUTO", "MANUAL"] = .ok m.name :=
  Coercion.literal_eq_ok_iff.2 ⟨rfl, by cases m <;> decide⟩

/-- All but the timestamp are coerced to the values of the record. -/
theorem map_check_members {r : Record} (ht : r.temperature.Between (-50) 150)
    (hp : r.pressure.Between 800 1200) :
    schema.map (·.check r.members) =
      [.ok (.uuid r.id),
        (Coercion.moment "timestamp" (.string (String.ofList r.timestamp.text))).map .moment,
        .ok (.number r.temperature), .ok (.number r.pressure), .ok (.text r.mode.name)] := by
  have htemperature : Coercion.number "temperature" r.temperature.toJson (-50) 150 =
      .ok r.temperature := number_toJson ht
  have hpressure : Coercion.number "pressure" r.pressure.toJson 800 1200 = .ok r.pressure :=
    number_toJson hp
  simp [schema, Field.check, members, Json.Members.get?, Field.coerce, Coercion.uuid_text,
    literal_name, htemperature, hpressure, Except.map]

theorem ofDocument_members {r : Record} (ht : r.temperature.Between (-50) 150)
    (hp : r.pressure.Between 800 1200) (hw : r.timestamp.IsWritable)
    (hyear : ¬ r.timestamp.IsBeforeYearZero) : Verdict.ofDocument r.members = .conforming r := by
  have hmoment : Coercion.moment "timestamp" (.string (String.ofList r.timestamp.text)) =
      .ok r.timestamp := by
    simp only [Coercion.moment, Coercion.readMoment?, String.toList_ofList,
      Moment.parse_text hw hyear]
  simp only [Verdict.ofDocument, map_check_members ht hp, hmoment, Except.map, partitionResults,
    if_true, ofCoerced?_values]

theorem ofDocument_members_of_isBeforeYearZero {r : Record} (ht : r.temperature.Between (-50) 150)
    (hp : r.pressure.Between 800 1200) (hyear : r.timestamp.IsBeforeYearZero) :
    ∃ e : Violation, e.kind = .momentParsing ∧ e.path = ["timestamp"] ∧
      Verdict.ofDocument r.members = .ofViolations [e] := by
  obtain ⟨e, hkind, hpath, hmoment⟩ : ∃ e : Violation, e.kind = .momentParsing ∧
      e.path = ["timestamp"] ∧
      Coercion.moment "timestamp" (.string (String.ofList r.timestamp.text)) = .error e := by
    simp only [Coercion.moment, Coercion.readMoment?, String.toList_ofList,
      Moment.parse_text_of_isBeforeYearZero hyear]
    exact ⟨_, rfl, rfl, rfl⟩
  refine ⟨e, hkind, hpath, ?_⟩
  simp [Verdict.ofDocument, map_check_members ht hp, hmoment, Except.map, partitionResults]

theorem isWritable_of_moment {field : String} {value : Json} {m : Moment}
    (h : Coercion.moment field value = .ok m) : m.IsWritable := by
  unfold Coercion.moment at h
  split at h
  · next hread =>
    cases h
    cases m with
    | instant t => trivial
    | civil c =>
      unfold Coercion.readMoment? at hread
      split at hread
      · exact Moment.isWritable_of_parse (Option.some.inj hread)
      · obtain ⟨t, -, ht⟩ := Except.map_eq_ok_iff.1 (Option.some.inj hread)
        cases ht
      · cases hread
  · cases h
  · cases h

theorem Holds.isWritable {r : Record} {document : Members} (h : r.Holds document) :
    r.timestamp.IsWritable := by
  have hvalues := h.values
  simp only [schema, List.map_cons, List.cons.injEq] at hvalues
  obtain ⟨value, -, hc⟩ := Field.check_eq_ok_iff.1 hvalues.2.1
  obtain ⟨m, hm, hmoment⟩ := Except.map_eq_ok_iff.1 hc
  cases hmoment
  exact isWritable_of_moment hm

/-- The record of a verdict holds what the document gives. -/
theorem holds_of_judge {raw : List Char} {v : Verdict} {r : Record} (h : judge raw = .ok v)
    (hr : v.record = some r) : ∃ document, r.Holds document := by
  obtain ⟨document, -, rfl⟩ := exists_document h
  have hnil := (Verdict.ok_iff_record_isSome document).2.2 (by simp [hr])
  obtain ⟨-, r', -, -, hr', holds⟩ :=
    Verdict.ofDocument_of_no_violation document ((Verdict.violations_eq_nil_iff document).1 hnil)
  rw [hr'] at hr
  cases hr
  exact ⟨document, holds⟩

theorem judge_text {r : Record} {document : Members} (h : r.Holds document)
    (hyear : ¬ r.timestamp.IsBeforeYearZero) :
    ∃ r', judge r.text = .ok (.conforming r') ∧ r.Matches r' := by
  obtain ⟨r', hr', hd⟩ := r.exists_denotes h.temperature h.pressure
  refine ⟨r', ?_, hr'⟩
  have hw := h.isWritable
  rw [← hr'.timestamp] at hw hyear
  rw [judge_of_object hd, ofDocument_members hr'.temperature hr'.pressure hw hyear]

theorem judge_text_of_isBeforeYearZero {r : Record} {document : Members} (h : r.Holds document)
    (hyear : r.timestamp.IsBeforeYearZero) :
    ∃ e : Violation, e.kind = .momentParsing ∧ e.path = ["timestamp"] ∧
      judge r.text = .ok (.ofViolations [e]) := by
  obtain ⟨r', hr', hd⟩ := r.exists_denotes h.temperature h.pressure
  rw [← hr'.timestamp] at hyear
  obtain ⟨e, hkind, hpath, he⟩ :=
    ofDocument_members_of_isBeforeYearZero hr'.temperature hr'.pressure hyear
  exact ⟨e, hkind, hpath, by rw [judge_of_object hd, he]⟩

end Record

/-! ### Years before zero -/

/-- Some text whose timestamp is `value` gives a record before the year zero. -/
def LeadsBeforeYearZero (value : Json) : Prop :=
  ∃ raw document v r, Denotes raw (.object document) ∧
    Members.get? "timestamp" document = some value ∧ judge raw = .ok v ∧ v.record = some r ∧
    r.timestamp.IsBeforeYearZero

/-- A document that is in order up to its timestamp. -/
def withTimestamp (value : Json) : Members :=
  [("id", .string "00000000-0000-0000-0000-000000000000"), ("timestamp", value),
    ("temperature", .number (.integer 20 (by decide))),
    ("pressure", .number (.integer 1000 (by decide))), ("mode", .string "AUTO")]

/-- Its text, for a timestamp without brackets. -/
theorem denotes_withTimestamp {value : Json} (hf : value.FloatFree) (hd : value.depth = 0) :
    Denotes ((Json.object (withTimestamp value)).write Record.style)
      (.object (withTimestamp value)) := by
  have hfloat : (Json.object (withTimestamp value)).FloatFree := by simp [withTimestamp, hf]
  have hkeys : (Json.object (withTimestamp value)).DistinctKeys := by
    simp [withTimestamp, Members.keys, Json.distinctKeys_of_depth hd]
  have hdepth : (Json.object (withTimestamp value)).depth ≤ 127 := by
    simp [withTimestamp, Json.depth, Json.depthMembers, hd]
  have h := Denotes.mk .nil (Json.Write.value_write Record.style_isSpaced hfloat hkeys hdepth) .nil
  rwa [List.nil_append, List.append_nil] at h

theorem leadsBeforeYearZero {value : Json} (hf : value.FloatFree) (hd : value.depth = 0)
    (h : ∃ r ∈ (Verdict.ofDocument (withTimestamp value)).record,
      r.timestamp.IsBeforeYearZero) : LeadsBeforeYearZero value := by
  obtain ⟨r, hr, hyear⟩ := h
  have hdenotes := denotes_withTimestamp hf hd
  exact ⟨_, _, _, r, hdenotes, rfl, judge_of_object hdenotes, hr, hyear⟩

/-- The normalized text of a record is judged as a record with the same id, moment and mode, and
with numbers within their bounds, unless the moment is before the year zero. Then the timestamp is
its one violation. Numbers and offsets both lead there. -/
theorem judge_normalized :
    (∀ raw v r, judge raw = .ok v → v.record = some r →
      (¬ r.timestamp.IsBeforeYearZero →
        ∃ r', judge r.text = .ok (.conforming r') ∧ r'.id = r.id ∧ r'.timestamp = r.timestamp ∧
          r'.mode = r.mode ∧ r'.temperature.Between (-50) 150 ∧ r'.pressure.Between 800 1200) ∧
      (r.timestamp.IsBeforeYearZero →
        ∃ e : Violation, e.kind = .momentParsing ∧ e.path = ["timestamp"] ∧
          judge r.text = .ok (.ofViolations [e]))) ∧
    (∃ n, LeadsBeforeYearZero (.number n)) ∧
    ∃ s w, LeadsBeforeYearZero (.string s) ∧ Written.parse s.toList = .ok w ∧
      ∃ negative hours minutes seconds nanosecond,
        w.offset = some (.numeric negative hours minutes seconds nanosecond) := by
  refine ⟨fun raw v r h hr => ?_, ⟨.integer (-62167219201000) (by decide), ?_⟩,
    "0000-01-01T00:00:00+01:00", ?_⟩
  · obtain ⟨document, holds⟩ := Record.holds_of_judge h hr
    refine ⟨fun hyear => ?_, Record.judge_text_of_isBeforeYearZero holds⟩
    obtain ⟨r', hj, hid, htimestamp, hmode, ht, hp⟩ := Record.judge_text holds hyear
    exact ⟨r', hj, hid, htimestamp, hmode, ht, hp⟩
  · exact leadsBeforeYearZero (by simp) rfl (by decide +kernel)
  · refine ⟨_, leadsBeforeYearZero (by simp) rfl (by decide +kernel), rfl, _, _, _, _, _, rfl⟩

/-- A leap day with a fraction of a second comes back from the normalized text. -/
theorem judge_normalized_leap_day :
    let raw := (Json.object (withTimestamp (.string "2024-02-29 12:30:00,25"))).write Record.style
    ∃ v r r', judge raw = .ok v ∧ v.record = some r ∧ judge r.text = .ok (.conforming r') ∧
      r'.timestamp = .civil ⟨⟨2024, 2, 29⟩, ⟨12, 30, 0, 250000000⟩⟩ := by
  intro raw
  have hdenotes : Denotes raw _ := denotes_withTimestamp (by simp) rfl
  obtain ⟨r, hr, hyear, hcivil⟩ : ∃ r ∈ (Verdict.ofDocument (withTimestamp
      (.string "2024-02-29 12:30:00,25"))).record, ¬ r.timestamp.IsBeforeYearZero ∧
        r.timestamp = .civil ⟨⟨2024, 2, 29⟩, ⟨12, 30, 0, 250000000⟩⟩ := by
    decide +kernel
  have hj := judge_of_object hdenotes
  obtain ⟨r', hj', -, htimestamp, -⟩ := (judge_normalized.1 raw _ r hj hr).1 hyear
  exact ⟨_, r, r', hj, hr, hj', htimestamp.trans hcivil⟩

end ConfigGate
