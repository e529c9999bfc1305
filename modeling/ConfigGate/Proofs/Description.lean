import Mathlib
import ConfigGate.Proofs.Conformance
import ConfigGate.Proofs.Moment.UnixRange
import ConfigGate.Proofs.UuidSpelling

/-!
# What a violation says

A violation says which field fails, on which value and why (`Violation.Describes`). For each
coercion there is one lemma about the violations it can end in (`Violation.Tells`): its kind is one
of the coercion's own, it echoes the value, its kind is that of a wrong type exactly for the types
which the coercion does not take, and its message shows what its context holds.
-/

namespace ConfigGate

open Json (Members)

/-! ### Kinds -/

/-- The type of a value is wrong, so that the value itself is not looked at. -/
def Violation.Kind.IsTypeFault (kind : Kind) : Prop :=
  kind ∈ [uuidType, momentType, numberType, stringType]

instance (kind : Violation.Kind) : Decidable kind.IsTypeFault :=
  inferInstanceAs (Decidable (kind ∈ _))

namespace Requirement

/-- The kinds of the violations of a requirement by a value. -/
def kinds : Requirement → List Violation.Kind
  | uuid => [.uuidType, .uuidParsing]
  | moment => [.momentType, .momentParsing]
  | number _ _ => [.numberType, .numberParsing, .greaterThanEqual, .lessThanEqual]
  | literal _ _ => [.stringType, .patternMismatch]

/-- Requirements that are checked by the same coercion, with constraints of their own. -/
inductive Alike : Requirement → Requirement → Prop where
  | uuid : Alike .uuid .uuid
  | moment : Alike .moment .moment
  | number (ge le ge' le' : Int32) : Alike (.number ge le) (.number ge' le')
  | literal (pattern pattern' : String) (literals literals' : List String) :
      Alike (.literal pattern literals) (.literal pattern' literals')

/-- The names of the types of which a coercion takes some values. -/
def types : Requirement → List String
  | uuid => ["a string"]
  | moment => ["a string", "a number"]
  | number _ _ => ["a string", "a number", "a boolean"]
  | literal _ _ => ["a string"]

theorem Alike.types_eq {r r' : Requirement} (h : Alike r r') : r.types = r'.types := by
  cases h <;> rfl

end Requirement

/-- The coercion of a field takes no value that has the type of `value`. This is a property of the
coercion and not of the field's constraint: a boolean is taken as a number, also by a field whose
bounds leave out zero and one. -/
def Field.NeverTakes (field : Field) (value : Json) : Prop :=
  ∀ r x, field.requirement.Alike r → x.typeName = value.typeName →
    ∃ e, Field.coerce ⟨field.name, r⟩ x = .error e

/-! ### Messages and contexts -/

/-- What a message shows of a value: a string as it is, and any other value as in a line. -/
def Json.shown : Json → String
  | .string s => s
  | x => String.ofList (x.write Verdict.style)

theorem Json.shown_ofInt32 (i : Int32) :
    (Json.number (.ofInt32 i)).shown = String.ofList (integerText i.toInt) := by
  simp [shown, write, Write.value, Write.number, Number.ofInt32]

namespace Violation

/-- The context is a single entry, and the message shows its value. -/
structure Shows (e : Violation) (opening key : String) (value : Json) (closing : String) :
    Prop where
  context : e.context = some [(key, value)]
  message : e.message = opening ++ value.shown ++ closing

/-- The context of a violation is what its kind asks for: a reason, the bound or pattern of the
requirement, or nothing. -/
def Explained (r : Requirement) (e : Violation) : Prop :=
  match e.kind with
  | .missing | .uuidType | .momentType | .numberType | .stringType | .numberParsing =>
    e.context = none
  | .uuidParsing =>
    ∃ reason : String, e.Shows "Input should be a valid UUID, " "error" (.string reason) ""
  | .momentParsing =>
    ∃ reason : String, e.Shows "Input should be a valid datetime, " "error" (.string reason) ""
  | .greaterThanEqual =>
    ∃ ge le, r = .number ge le ∧
      e.Shows "Input should be greater than or equal to " "ge" (.number (.ofInt32 ge)) ""
  | .lessThanEqual =>
    ∃ ge le, r = .number ge le ∧
      e.Shows "Input should be less than or equal to " "le" (.number (.ofInt32 le)) ""
  | .patternMismatch =>
    ∃ pattern literals, r = .literal pattern literals ∧
      e.Shows "String should match pattern '" "pattern" (.string pattern) "'"

/-- What a violation by a value says. -/
structure Tells (r : Requirement) (value : Json) (e : Violation) : Prop where
  kind : e.kind ∈ r.kinds
  input : e.input = value
  type : e.kind.IsTypeFault ↔ value.typeName ∉ r.types
  explained : e.Explained r

/-- What a violation says about a field of a document. -/
structure Describes (document : Members) (field : Field) (e : Violation) : Prop where
  path : e.path = [field.name]
  missing : e.kind = .missing ↔ document.get? field.name = none
  /-- The value of the field, or else the whole document. -/
  input : e.input = (document.get? field.name).getD (.object document)
  kind : e.kind ≠ .missing → e.kind ∈ field.requirement.kinds
  type : ∀ value, document.get? field.name = some value →
    (e.kind.IsTypeFault ↔ field.NeverTakes value)
  explained : e.Explained field.requirement

end Violation

/-! ### Violations of one coercion -/

namespace Json

variable {x : Json}

theorem typeName_eq_string_iff : x.typeName = "a string" ↔ ∃ s, x = .string s := by
  cases x <;> simp [typeName]

theorem typeName_eq_number_iff : x.typeName = "a number" ↔ ∃ n, x = .number n := by
  cases x <;> simp [typeName]

theorem typeName_eq_boolean_iff : x.typeName = "a boolean" ↔ ∃ b, x = .bool b := by
  cases x <;> simp [typeName]

end Json

namespace Violation.Tells

variable {r : Requirement} {value : Json} {kind : Kind} {field message : String}

/-- A wrong type is not explained any further. -/
theorem ofType (hkind : kind ∈ r.kinds) (htype : kind.IsTypeFault)
    (hvalue : value.typeName ∉ r.types) : (ofField kind field message value).Tells r value := by
  refine ⟨hkind, rfl, ⟨fun _ => hvalue, fun _ => htype⟩, ?_⟩
  simp only [Kind.IsTypeFault, List.mem_cons, List.not_mem_nil, or_false] at htype
  rcases htype with rfl | rfl | rfl | rfl
  all_goals rfl

/-- A value of a type that is taken may still be at fault. -/
theorem ofValue {e : Violation} (kind : Kind) (he : e.kind = kind) (hinput : e.input = value)
    (hkind : kind ∈ r.kinds) (htype : ¬ kind.IsTypeFault) (hvalue : value.typeName ∈ r.types)
    (hexplained : e.Explained r) : e.Tells r value := by
  subst he
  exact ⟨hkind, hinput, ⟨fun h => absurd h htype, fun h => absurd hvalue h⟩, hexplained⟩

end Violation.Tells

namespace Coercion

open Json Violation

variable {field : String} {value : Json} {e : Violation}

theorem uuid_tells (h : uuid field value = .error e) : e.Tells .uuid value := by
  unfold uuid at h
  split at h
  · split at h
    · cases h
    · cases h
      refine .ofValue .uuidParsing rfl rfl (by decide) (by decide) (.head _) ⟨_, rfl, ?_⟩
      exact String.append_empty.symm
  · next hs =>
    cases h
    exact .ofType (by decide) (by decide)
      (by simpa [Requirement.types, typeName_eq_string_iff] using hs)

theorem moment_tells (h : moment field value = .error e) : e.Tells .moment value := by
  unfold moment at h
  split at h
  · cases h
  · next hread =>
    cases h
    refine .ofValue .momentParsing rfl rfl (by decide) (by decide) ?_
      ⟨_, rfl, String.append_empty.symm⟩
    cases value <;> simp [readMoment?, Requirement.types, typeName] at hread ⊢
  · next hread =>
    cases h
    refine .ofType (by decide) (by decide) ?_
    cases value <;> simp [readMoment?, Requirement.types, typeName] at hread ⊢

theorem readNumber_tells {ge le : Int32} (h : readNumber field value = .error e) :
    e.Tells (.number ge le) value := by
  unfold readNumber at h
  split at h
  · cases h
  · cases h
  · split at h
    · cases h
    · cases h
      exact .ofValue .numberParsing rfl rfl (.tail _ (.head _)) (by decide) (.head _) rfl
  · next hnumber hbool hstring =>
    cases h
    refine .ofType (.head _) (by decide) ?_
    simp only [Requirement.types, List.mem_cons, List.not_mem_nil, or_false, not_or,
      typeName_eq_string_iff, typeName_eq_number_iff, typeName_eq_boolean_iff, not_exists]
    exact ⟨hstring, hnumber, hbool⟩

/-- A number was read from a value of a type that is taken. -/
theorem typeName_of_readNumber (ge le : Int32) {x : Binary64}
    (h : readNumber field value = .ok x) :
    value.typeName ∈ (Requirement.number ge le).types := by
  cases value <;> simp [readNumber, Requirement.types, typeName] at h ⊢

theorem number_tells {ge le : Int32} (h : number field value ge le = .error e) :
    e.Tells (.number ge le) value := by
  unfold number at h
  cases hread : readNumber field value with
  | error e' =>
    rw [hread] at h
    cases h
    exact readNumber_tells hread
  | ok x =>
    have hvalue := typeName_of_readNumber ge le hread
    simp only [hread, bind, Except.bind] at h
    split at h
    · cases h
      refine .ofValue .greaterThanEqual rfl rfl (by simp [Requirement.kinds]) (by decide) hvalue
        ⟨ge, le, rfl, rfl, ?_⟩
      rw [shown_ofInt32, String.append_empty]
      rfl
    · split at h
      · cases h
        refine .ofValue .lessThanEqual rfl rfl (by simp [Requirement.kinds]) (by decide) hvalue
          ⟨ge, le, rfl, rfl, ?_⟩
        rw [shown_ofInt32, String.append_empty]
        rfl
      · cases h

theorem literal_tells {pattern : String} {literals : List String}
    (h : literal field value pattern literals = .error e) :
    e.Tells (.literal pattern literals) value := by
  unfold literal at h
  split at h
  · split at h
    · cases h
    · cases h
      exact .ofValue .patternMismatch rfl rfl (.tail _ (.head _)) (by decide) (.head _)
        ⟨pattern, literals, rfl, rfl, rfl⟩
  · next hs =>
    cases h
    exact .ofType (.head _) (by decide)
      (by simpa [Requirement.types, typeName_eq_string_iff] using hs)

/-! ### Types that are taken -/

theorem exists_moment_of_typeName (field : String) {value : Json}
    (h : value.typeName ∈ Requirement.moment.types) :
    ∃ x m, x.typeName = value.typeName ∧ moment field x = .ok m := by
  rcases List.mem_pair.1 h with hv | hv
  · have hparse : Moment.parse "1970-01-01".toList =
        .ok (.civil ⟨⟨1970, 1, 1⟩, .midnight⟩) := by decide +kernel
    exact ⟨.string "1970-01-01", _, hv.symm, moment_eq_ok_iff.2 (congrArg some hparse)⟩
  · have hsmall : Magnitude.zero.toRat ≤ 20000000000 := by
      rw [Magnitude.toRat_zero]
      norm_num
    obtain ⟨t, ht⟩ := Unix.exists_instant_seconds (s := false) hsmall
    exact ⟨.number (.float false .zero), _, hv.symm,
      moment_eq_ok_iff.2 (congrArg some (Moment.ofUnix_of_instant ht))⟩

/-- Zero is a text, a number and a boolean. -/
theorem exists_number_of_typeName (field : String) {value : Json} {ge le : Int32}
    (h : value.typeName ∈ (Requirement.number ge le).types) :
    ∃ x y, x.typeName = value.typeName ∧ number field x 0 0 = .ok y := by
  have hzero : (Binary64.finite false .zero).Between (0 : Int32).toInt (0 : Int32).toInt := by
    rw [Binary64.between_iff]
    decide +kernel
  have hnumber : ∀ {x}, readNumber field x = .ok (.finite false .zero) →
      number field x 0 0 = .ok (.finite false .zero) := fun hx => number_eq_ok_iff.2 ⟨hx, hzero⟩
  simp only [Requirement.types, List.mem_cons, List.not_mem_nil, or_false] at h
  rcases h with hv | hv | hv
  · have hread : NumericText.read? (Text.trim "0".toList) = some (.finite false .zero) := by
      decide +kernel
    exact ⟨.string "0", _, hv.symm, hnumber (by simp only [readNumber, hread])⟩
  · exact ⟨.number (.float false .zero), _, hv.symm, hnumber rfl⟩
  · exact ⟨.bool false, _, hv.symm, hnumber rfl⟩

end Coercion

namespace Field

variable {field : Field} {value : Json}

theorem coerce_tells {e : Violation} (h : field.coerce value = .error e) :
    e.Tells field.requirement value := by
  unfold coerce at h
  split at h
  · next hr => exact hr ▸ Coercion.uuid_tells (Except.map_eq_error_iff.1 h)
  · next hr => exact hr ▸ Coercion.moment_tells (Except.map_eq_error_iff.1 h)
  · next hr => exact hr ▸ Coercion.number_tells (Except.map_eq_error_iff.1 h)
  · next hr => exact hr ▸ Coercion.literal_tells (Except.map_eq_error_iff.1 h)

theorem typeName_of_coerce {c : Coerced} (h : field.coerce value = .ok c) :
    value.typeName ∈ field.requirement.types := by
  unfold coerce at h
  split at h
  · next hr =>
    obtain ⟨u, hu, -⟩ := Except.map_eq_ok_iff.1 h
    rw [hr]
    cases value <;> simp [Coercion.uuid, Requirement.types, Json.typeName] at hu ⊢
  · next hr =>
    obtain ⟨m, hm, -⟩ := Except.map_eq_ok_iff.1 h
    rw [hr]
    have hread := Coercion.moment_eq_ok_iff.1 hm
    cases value <;> simp [Coercion.readMoment?, Requirement.types, Json.typeName] at hread ⊢
  · next hr =>
    obtain ⟨x, hx, -⟩ := Except.map_eq_ok_iff.1 h
    rw [hr]
    exact Coercion.typeName_of_readNumber _ _ (Coercion.number_eq_ok_iff.1 hx).1
  · next hr =>
    obtain ⟨s, hs, -⟩ := Except.map_eq_ok_iff.1 h
    rw [hr, (Coercion.literal_eq_ok_iff.1 hs).1]
    exact .head _

/-- Of each of the types some value is coerced, where the constraint allows it. -/
theorem exists_coerce (h : value.typeName ∈ field.requirement.types) :
    ∃ r x c, field.requirement.Alike r ∧ x.typeName = value.typeName ∧
      coerce ⟨field.name, r⟩ x = .ok c := by
  obtain ⟨name, r⟩ := field
  cases r with
  | uuid =>
    exact ⟨.uuid, .string (String.ofList (Uuid.text ⟨0⟩)), .uuid ⟨0⟩, .uuid,
      (List.mem_singleton.1 h).symm, congrArg (·.map Coerced.uuid) (Coercion.uuid_text name ⟨0⟩)⟩
  | moment =>
    obtain ⟨x, m, hx, hm⟩ := Coercion.exists_moment_of_typeName name h
    exact ⟨.moment, x, .moment m, .moment, hx, congrArg (·.map Coerced.moment) hm⟩
  | number ge le =>
    obtain ⟨x, y, hx, hy⟩ := Coercion.exists_number_of_typeName name h
    exact ⟨.number 0 0, x, .number y, .number ge le 0 0, hx, congrArg (·.map Coerced.number) hy⟩
  | literal pattern literals =>
    have hs : Coercion.literal name (.string "") pattern [""] = .ok "" :=
      Coercion.literal_eq_ok_iff.2 ⟨rfl, List.mem_singleton.2 rfl⟩
    exact ⟨.literal pattern [""], .string "", .text "", .literal _ _ _ _,
      (List.mem_singleton.1 h).symm, congrArg (·.map Coerced.text) hs⟩

theorem neverTakes_iff : field.NeverTakes value ↔ value.typeName ∉ field.requirement.types := by
  constructor
  · intro h hmem
    obtain ⟨r, x, c, hr, hx, hc⟩ := exists_coerce hmem
    obtain ⟨e, he⟩ := h r x hr hx
    rw [hc] at he
    cases he
  · intro h r x hr hx
    cases hc : coerce ⟨field.name, r⟩ x with
    | error e => exact ⟨e, rfl⟩
    | ok c =>
      have hmem := typeName_of_coerce hc
      rw [hx, ← hr.types_eq] at hmem
      exact absurd hmem h

end Field

/-! ### Violations of a document -/

theorem Violation.Tells.kind_ne {r : Requirement} {value : Json} {e : Violation}
    (h : e.Tells r value) : e.kind ≠ .missing := by
  intro hkind
  have hmem := h.kind
  rw [hkind] at hmem
  cases r <;> simp [Requirement.kinds] at hmem

theorem Field.check_describes {document : Members} {field : Field} {e : Violation}
    (h : field.check document = .error e) : e.Describes document field := by
  have hpath := check_path h
  unfold check at h
  split at h
  · next value hget =>
    have tells := coerce_tells h
    refine ⟨hpath, ⟨fun hk => absurd hk tells.kind_ne, fun hk => ?_⟩, ?_, fun _ => tells.kind, ?_,
      tells.explained⟩
    · rw [hget] at hk
      cases hk
    · rw [hget, tells.input]
      rfl
    · intro value' hget'
      rw [hget] at hget'
      cases hget'
      rw [tells.type, neverTakes_iff]
  · next hget =>
    cases h
    refine ⟨hpath, ⟨fun _ => hget, fun _ => rfl⟩, ?_, fun hk => absurd rfl hk, ?_, rfl⟩
    · rw [hget]
      rfl
    · intro value hget'
      rw [hget] at hget'
      cases hget'

namespace Verdict

/-- Every violation of a document is about one field of the schema and says what is wrong with it:
a field is missing exactly if it is absent, and only then the whole document is echoed; a fault of
the type is reported exactly for types that the coercion of the field never takes; and the context
is the reason or constraint that the message shows. -/
theorem ofDocument_describes (document : Members) :
    ∀ e ∈ (ofDocument document).violations, ∃ field ∈ schema, e.Describes document field := by
  intro e he
  rw [violations_ofDocument] at he
  obtain ⟨field, hfield, hviolation⟩ := List.mem_filterMap.1 he
  exact ⟨field, hfield, Field.check_describes (Field.violation?_eq_some_iff.1 hviolation)⟩

/-- The bounds of the pressure leave out the booleans, which are numbers nevertheless. -/
theorem ofDocument_describes_boolean :
    let document : Members := [("pressure", .bool true)]
    let e := (Violation.ofField .greaterThanEqual "pressure"
      "Input should be greater than or equal to 800" (.bool true)).withContext "ge"
      (.number (.ofInt32 800))
    e ∈ (ofDocument document).violations ∧
      ∃ field ∈ schema, e.Describes document field := by
  intro document e
  have hbelow : (Binary64.finite false .one).isBelow (800 : Int32).toInt = true := by
    decide +kernel
  have htext : "Input should be greater than or equal to " ++
      String.ofList (integerText (800 : Int32).toInt) =
        "Input should be greater than or equal to 800" := by decide +kernel
  have hnumber : Coercion.number "pressure" (.bool true) 800 1200 = .error e := by
    simp only [Coercion.number, Coercion.readNumber, bind, Except.bind, if_true, hbelow,
      Bool.or_true, htext]
    rfl
  have hcheck : Field.check document ⟨"pressure", .number 800 1200⟩ = .error e :=
    congrArg (·.map Coerced.number) hnumber
  have he : e ∈ (ofDocument document).violations := by
    rw [violations_ofDocument]
    exact List.mem_filterMap.2 ⟨_, by decide, Field.violation?_eq_some_iff.2 hcheck⟩
  exact ⟨he, ofDocument_describes document e he⟩

end Verdict

end ConfigGate
