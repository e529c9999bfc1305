import Mathlib
import ConfigGate.Proofs.Description
import ConfigGate.Proofs.Json.Write
import ConfigGate.Proofs.Judgement
import ConfigGate.Proofs.Locality

/-!
# Repeated members

A text may list a key of an object several times, in one spelling or in several. It is judged like
the text that lists every key once, at the place of its first occurrence and with its last value
(`judge_repeated`). Both texts denote the same document, and no object in it has a key twice: an
object merges its members, and its values come from its members.
-/

namespace ConfigGate

open Json (Denotes Members DistinctKeys)
open Json.Grammar
open Json.Parse (IsMember)

namespace Json

/-! ### Merged members -/

namespace Members

variable {written : List Member} {ms : Members} {key : String} {value : Json}

theorem mem_of_get? (h : get? key ms = some value) : (key, value) ∈ ms := by
  induction ms with
  | nil => cases h
  | cons m ms ih =>
    rw [get?] at h
    split at h
    · next hm =>
      obtain rfl := Option.some.inj h
      exact hm ▸ List.mem_cons_self
    · exact List.mem_cons_of_mem m (ih h)

theorem get?_of_mem (hnd : (keys ms).Nodup) (h : (key, value) ∈ ms) : get? key ms = some value := by
  induction ms with
  | nil => cases h
  | cons m ms ih =>
    rw [keys_cons, List.nodup_cons] at hnd
    rw [get?]
    rcases List.mem_cons.1 h with rfl | h
    · rw [if_pos rfl]
    · have hne : m.1 ≠ key := by
        rintro rfl
        exact hnd.1 (List.mem_map.2 ⟨_, h, rfl⟩)
      rw [if_neg hne, ih hnd.2 h]

/-- Merging makes up no members. -/
theorem Merges.mem (h : Merges written ms) {m : Member} (hm : m ∈ ms) : m ∈ written := by
  have hget : get? m.1 ms = some m.2 := get?_of_mem h.nodup hm
  rw [h.get?_eq] at hget
  exact List.mem_reverse.1 (mem_of_get? hget)

end Members

/-- No object of a value that a text denotes has a key twice. -/
theorem Grammar.Value.distinctKeys {number : Numeral → Number → Prop} {depth : Nat}
    {t : List Char} {x : Json} (h : Value number depth t x) : DistinctKeys x := by
  induction h with
  | null | boolTrue | boolFalse | number | string | emptyArray => simp
  | array items _ _ _ ih => simpa using ih
  | emptyObject => simp [Members.keys]
  | object entries _ _ _ _ merges ih =>
    refine distinctKeys_object.2 ⟨merges.nodup, fun m hm => ?_⟩
    obtain ⟨e, he, rfl⟩ := List.mem_map.1 (merges.mem hm)
    exact ih e he

theorem Denotes.distinctKeys {text : List Char} {x : Json} (h : Denotes text x) :
    DistinctKeys x := by
  obtain ⟨-, hvalue, -⟩ := h
  exact hvalue.distinctKeys

/-! ### Texts of objects -/

namespace Grammar.Entry

/-- The text of an object that lists these members. -/
def objectText (entries : List Entry) : List Char :=
  '{' :: (separated (entries.map (·.written)) ++ ['}'])

/-- Each key once, in the order of the first occurrences, with the member of the last. -/
def once (entries : List Entry) : List Entry :=
  (entries.map (·.key)).eraseDups.filterMap fun key => entries.reverse.find? (·.key = key)

variable {entries : List Entry}

theorem get?_map_member (key : String) :
    Members.get? key (entries.map (·.member)) =
      (entries.find? (·.key = key)).map (·.item.value) := by
  induction entries with
  | nil => rfl
  | cons e entries ih =>
    rw [List.map_cons, member, Members.get?, List.find?_cons]
    by_cases he : e.key = key
    · simp [he]
    · simp [he, ih]

/-- A key that occurs has a last occurrence. -/
theorem exists_find?_reverse {key : String} (h : key ∈ entries.map (·.key)) :
    ∃ e, entries.reverse.find? (·.key = key) = some e ∧ e.key = key := by
  obtain ⟨e, he, hkey⟩ := List.mem_map.1 h
  have hsome : (entries.reverse.find? (·.key = key)).isSome := by
    rw [List.find?_isSome]
    exact ⟨e, List.mem_reverse.2 he, decide_eq_true hkey⟩
  obtain ⟨e', he'⟩ := Option.isSome_iff_exists.1 hsome
  have hkey' := List.find?_some he'
  exact ⟨e', he', of_decide_eq_true hkey'⟩

section
variable {ks : List String} {f : String → Option Entry}

theorem map_key_filterMap (h : ∀ key ∈ ks, ∃ e, f key = some e ∧ e.key = key) :
    (ks.filterMap f).map (·.key) = ks := by
  induction ks with
  | nil => rfl
  | cons k ks ih =>
    rw [List.forall_mem_cons] at h
    obtain ⟨⟨e, hf, he⟩, hks⟩ := h
    rw [List.filterMap_cons_some hf, List.map_cons, ih hks, he]

theorem find?_filterMap (h : ∀ key ∈ ks, ∃ e, f key = some e ∧ e.key = key) {key : String}
    (hkey : key ∈ ks) : (ks.filterMap f).find? (·.key = key) = f key := by
  induction ks with
  | nil => cases hkey
  | cons k ks ih =>
    rw [List.forall_mem_cons] at h
    obtain ⟨⟨e, hf, rfl⟩, hks⟩ := h
    rw [List.filterMap_cons_some hf, List.find?_cons]
    by_cases he : e.key = key
    · simp [he, ← hf]
    · rcases List.mem_cons.1 hkey with rfl | hkey
      · exact absurd rfl he
      · simp [he, ih hks hkey]

end

theorem keys_map_member (entries : List Entry) :
    Members.keys (entries.map (·.member)) = entries.map (·.key) := by
  rw [Members.keys, List.map_map]
  rfl

theorem merges_once (entries : List Entry) :
    Members.Merges (entries.map (·.member)) ((once entries).map (·.member)) := by
  have hfind : ∀ key ∈ (entries.map (·.key)).eraseDups,
      ∃ e, entries.reverse.find? (·.key = key) = some e ∧ e.key = key :=
    fun key hkey => exists_find?_reverse (List.mem_eraseDups.1 hkey)
  refine ⟨?_, fun key => ?_⟩
  · rw [keys_map_member, keys_map_member, once, map_key_filterMap hfind]
  · rw [get?_map_member, ← List.map_reverse, get?_map_member]
    by_cases hkey : key ∈ entries.map (·.key)
    · rw [once, find?_filterMap hfind (List.mem_eraseDups.2 hkey)]
    · -- A key that does not occur is found in neither list.
      have hnone : ∀ {es : List Entry}, key ∉ es.map (·.key) → es.find? (·.key = key) = none := by
        intro es hes
        rw [List.find?_eq_none]
        intro e he hk
        exact hes (List.mem_map.2 ⟨e, he, of_decide_eq_true hk⟩)
      rw [hnone, hnone]
      · rwa [List.map_reverse, List.mem_reverse]
      · rwa [once, map_key_filterMap hfind, List.mem_eraseDups]

theorem mem_of_mem_once {e : Entry} (h : e ∈ once entries) : e ∈ entries := by
  obtain ⟨key, -, hfind⟩ := List.mem_filterMap.1 h
  exact List.mem_reverse.1 (List.mem_of_find?_eq_some hfind)

/-- Members whose values may open 126 brackets make an object. -/
theorem denotes_objectText (h : ∀ e ∈ entries, IsMember (Value NumberOf 126) e) :
    Denotes (objectText entries) (.object (Members.ofList (entries.map (·.member)))) := by
  have hvalue : Value NumberOf 127 (objectText entries)
      (.object (Members.ofList (entries.map (·.member)))) := by
    cases entries with
    | nil => exact .emptyObject (t := []) .nil
    | cons e entries =>
      exact .object (e :: entries) (by simp) (fun e he => (h e he).1) (fun e he => (h e he).2.1)
        (fun e he => (h e he).2.2) (Members.merges_ofList _)
  have := Denotes.mk .nil hvalue .nil
  rwa [List.nil_append, List.append_nil] at this

end Grammar.Entry

end Json

/-! ### Judging -/

/-- A missing field echoes the document. -/
theorem Verdict.input_of_missing {document : Members} {e : Violation}
    (he : e ∈ (ofDocument document).violations) (hkind : e.kind = .missing) :
    e.input = .object document := by
  rw [violations_ofDocument] at he
  obtain ⟨field, -, hviolation⟩ := List.mem_filterMap.1 he
  have describes := Field.check_describes (Field.violation?_eq_some_iff.1 hviolation)
  rw [describes.input, describes.missing.1 hkind]
  rfl

open Json.Grammar.Entry

theorem judge_objectText {entries : List Entry}
    (h : ∀ e ∈ entries, IsMember (Value NumberOf 126) e) :
    judge (objectText entries) =
      .ok (.ofDocument (Members.ofList (entries.map (·.member)))) :=
  judge_of_object (denotes_objectText h)

/-- An object with repeated members is judged as the object that lists each key once, at the place
of its first occurrence and with the value of its last, in whatever way this is written. Hence the
last value of a field alone decides about the field, and no key is repeated in the echo of a
document. -/
theorem judge_repeated (entries : List Entry)
    (h : ∀ e ∈ entries, IsMember (Value NumberOf 126) e) :
    ∃ v, judge (objectText entries) = .ok v ∧ judge (objectText (once entries)) = .ok v ∧
      (∀ merged : List Entry, (∀ e ∈ merged, IsMember (Value NumberOf 126) e) →
        Members.Merges (entries.map (·.member)) (merged.map (·.member)) →
        judge (objectText merged) = .ok v) ∧
      (∀ field ∈ schema, ∀ front e back, entries = front ++ e :: back → e.key = field.name →
        (∀ m ∈ back, m.key ≠ field.name) →
        (∀ c, field.coerce e.item.value = .ok c → v.against field.name = []) ∧
        ∀ violation, field.coerce e.item.value = .error violation →
          v.against field.name = [violation]) ∧
      ∀ violation ∈ v.violations, violation.kind = .missing →
        violation.input = .object ((once entries).map (·.member)) ∧
          DistinctKeys violation.input := by
  have hjudge := judge_objectText h
  have hmerged : ∀ merged : List Entry, (∀ e ∈ merged, IsMember (Value NumberOf 126) e) →
      Members.Merges (entries.map (·.member)) (merged.map (·.member)) →
      judge (objectText merged) = judge (objectText entries) := by
    intro merged hm hmerges
    rw [hjudge, judge_objectText hm, Members.ofList_of_nodup hmerges.nodup,
      Members.merges_iff.1 hmerges]
  have honce := Members.merges_iff.1 (merges_once entries)
  refine ⟨_, hjudge, ?_, fun merged hm hmerges => (hmerged merged hm hmerges).trans hjudge,
    fun field hf front e back hsplit hkey hlast => ?_, fun violation hv hkind => ?_⟩
  · rw [hmerged _ (fun e he => h e (mem_of_mem_once he)) (merges_once entries), hjudge]
  · have hget : (Members.ofList (entries.map (·.member))).get? field.name = some e.item.value := by
      rw [(Members.merges_ofList _).get?_eq, Members.get?_reverse_eq_some_iff]
      refine ⟨front.map (·.member), back.map (·.member), ?_, ?_⟩
      · rw [hsplit, List.map_append, List.map_cons, ← hkey]
        rfl
      · exact List.forall_mem_map.2 hlast
    have hcheck := Field.check_of_get? hget
    exact ⟨fun c hc => Verdict.against_of_ok hf (hcheck.trans hc),
      fun violation hv => Verdict.against_of_error hf (hcheck.trans hv)⟩
  · rw [Verdict.input_of_missing hv hkind, honce]
    exact ⟨rfl, (denotes_objectText h).distinctKeys⟩

/-- A mode that is spelled with an escape repairs the mode before it, and takes its place. -/
theorem judge_repeated_spelling :
    ∃ v, judge "\x7b\"mode\":\"OFF\",\"unit\":null,\"\\u006dode\":\"AUTO\"\x7d".toList = .ok v ∧
      judge "\x7b\"\\u006dode\":\"AUTO\",\"unit\":null\x7d".toList = .ok v ∧
      v.against "mode" = [] := by
  have hspelled : CharsText "\\u006dode".toList "mode".toList :=
    .cons (.unit (.mk (i := 0) (j := 0) (k := 6) (l := 13) (.inl rfl) (.inl rfl) (.inl rfl)
      (.inl rfl)) (by decide))
      (Json.Write.charsText_escape ['o', 'd', 'e'])
  let entry (keyText key text : String) (x : Json) : Entry :=
    ⟨[], keyText.toList, [], key, ⟨[], text.toList, [], x⟩⟩
  let off := entry "\"mode\"" "mode" "\"OFF\"" (.string "OFF")
  let unit := entry "\"unit\"" "unit" "null" .null
  let auto := entry "\"\\u006dode\"" "mode" "\"AUTO\"" (.string "AUTO")
  have hpad : ∀ keyText key text x, (entry keyText key text x).IsPadded :=
    fun _ _ _ _ => ⟨.nil, .nil, .nil, .nil⟩
  have hmembers : ∀ e ∈ [off, unit, auto], IsMember (Value NumberOf 126) e := by
    intro e he
    rcases List.mem_cons.1 he with rfl | he
    · exact ⟨hpad _ _ _ _, Json.Write.stringText_string "mode",
        .string (Json.Write.stringText_string "OFF")⟩
    rcases List.mem_pair.1 he with rfl | rfl
    · exact ⟨hpad _ _ _ _, Json.Write.stringText_string "unit", .null⟩
    · exact ⟨hpad _ _ _ _, .mk hspelled, .string (Json.Write.stringText_string "AUTO")⟩
  obtain ⟨v, hall, honce, -, hlast, -⟩ := judge_repeated [off, unit, auto] hmembers
  have hmode := hlast ⟨"mode", .literal "^(AUTO|MANUAL)$" ["AUTO", "MANUAL"]⟩ (by decide)
    [off, unit] auto [] rfl rfl (by simp)
  exact ⟨v, hall, honce, hmode.1 (.text "AUTO") rfl⟩

end ConfigGate
