import Mathlib
import ConfigGate.Proofs.Json.Grammar

/-!
# Members of objects

Inserting a member keeps the place of its key, or puts it at the end. Members written one after the
other therefore merge into one list: every key at the place of its first occurrence, with the value
of its last. This fixes the list, and `Members.ofList` is it (`merges_iff`).
-/

namespace ConfigGate.Json.Members

variable {key k : String} {value : Json} {ms ms' : Members}

@[simp]
theorem keys_cons (m : Member) (ms : Members) : keys (m :: ms) = m.1 :: keys ms := rfl

@[simp]
theorem keys_append (ms ms' : Members) : keys (ms ++ ms') = keys ms ++ keys ms' := List.map_append

theorem get?_eq_none_iff : get? key ms = none ↔ key ∉ keys ms := by
  induction ms with
  | nil => simp [get?, keys]
  | cons m ms ih =>
    rw [get?, keys_cons, List.mem_cons, not_or]
    split
    · next h => simp [h]
    · next h => rw [ih]; exact ⟨fun h' => ⟨Ne.symm h, h'⟩, fun h' => h'.2⟩

theorem get?_append_of_ne (ms ms' : Members) (h : ∀ m ∈ ms, m.1 ≠ key) :
    get? key (ms ++ ms') = get? key ms' := by
  induction ms with
  | nil => rfl
  | cons m ms ih =>
    rw [List.cons_append, get?, if_neg (h m (by simp))]
    exact ih fun m' hm' => h m' (by simp [hm'])

/-- The value found from the end is that of the last member with the key. -/
theorem get?_reverse_eq_some_iff : get? key ms.reverse = some value ↔
    ∃ front back, ms = front ++ (key, value) :: back ∧ ∀ m ∈ back, m.1 ≠ key := by
  constructor
  · intro h
    induction ms using List.reverseRecOn with
    | nil => cases h
    | append_singleton ms m ih =>
      rw [List.reverse_append, List.reverse_singleton, List.singleton_append, get?] at h
      split at h
      · next hm =>
        cases h
        exact ⟨ms, [], by rw [← hm], by simp⟩
      · next hm =>
        obtain ⟨front, back, rfl, hback⟩ := ih h
        refine ⟨front, back ++ [m], by simp, fun m' hm' => ?_⟩
        rcases List.mem_append.1 hm' with hm' | hm'
        · exact hback m' hm'
        · rwa [List.mem_singleton.1 hm']
  · rintro ⟨front, back, rfl, hback⟩
    rw [List.reverse_append, List.reverse_cons, List.append_assoc,
      get?_append_of_ne _ _ fun m hm => hback m (List.mem_reverse.1 hm)]
    simp [get?]

/-! ### Insertion -/

theorem keys_insert :
    keys (insert key value ms) = if key ∈ keys ms then keys ms else keys ms ++ [key] := by
  induction ms with
  | nil => rfl
  | cons m ms ih =>
    rw [insert]
    split
    · next h => simp [h]
    · next h =>
      rw [keys_cons, ih, keys_cons]
      by_cases hk : key ∈ keys ms
      · simp [hk]
      · simp [hk, Ne.symm h]

theorem get?_insert : get? k (insert key value ms) = if key = k then some value else get? k ms := by
  induction ms with
  | nil => rfl
  | cons m ms ih =>
    rw [insert]
    split
    · next h =>
      rw [get?, get?, h]
      split <;> rfl
    · next h =>
      rw [get?, get?, ih]
      split
      · next hm => rw [if_neg fun hk => h (hm.trans hk.symm)]
      · rfl

theorem ofList_append_singleton (ms : List Member) (m : Member) :
    ofList (ms ++ [m]) = insert m.1 m.2 (ofList ms) := by
  simp [ofList, List.foldl_append]

/-! ### Merging -/

theorem eraseDups_append_singleton (ks : List String) :
    (ks ++ [key]).eraseDups = if key ∈ ks then ks.eraseDups else ks.eraseDups ++ [key] := by
  rw [List.eraseDups_append]
  by_cases h : key ∈ ks
  · simp [List.removeAll, h]
  · simp [List.removeAll, h, List.eraseDups_cons]

theorem nodup_eraseDups (ks : List String) : ks.eraseDups.Nodup := by
  induction ks using List.reverseRecOn with
  | nil => exact List.nodup_nil
  | append_singleton ks key ih =>
    rw [eraseDups_append_singleton]
    split
    · exact ih
    · next h =>
      rw [List.nodup_append]
      refine ⟨ih, List.nodup_singleton key, fun k hk k' hk' hkk => h ?_⟩
      rw [List.mem_singleton] at hk'
      rwa [hkk, hk', List.mem_eraseDups] at hk

/-- Members inserted one after the other merge. -/
theorem merges_ofList (written : List Member) : Merges written (ofList written) := by
  induction written using List.reverseRecOn with
  | nil => exact ⟨rfl, fun _ => rfl⟩
  | append_singleton ms m ih =>
    have hmem : m.1 ∈ keys (ofList ms) ↔ m.1 ∈ keys ms := by
      rw [ih.keys_eq, List.mem_eraseDups]
    refine ⟨?_, fun k => ?_⟩
    · rw [ofList_append_singleton, keys_insert, keys_append, ih.keys_eq]
      rw [ih.keys_eq] at hmem
      show _ = (keys ms ++ [m.1]).eraseDups
      rw [eraseDups_append_singleton]
      simp only [hmem]
    · rw [ofList_append_singleton, get?_insert, ih.get?_eq, List.reverse_append,
        List.reverse_singleton, List.singleton_append, get?]

theorem Merges.nodup {written : List Member} (h : Merges written ms) : (keys ms).Nodup := by
  rw [h.keys_eq]
  exact nodup_eraseDups _

/-- Members with distinct keys are determined by their keys and the value of each. -/
theorem ext_get? (hkeys : keys ms = keys ms') (hnd : (keys ms).Nodup)
    (hget : ∀ k, get? k ms = get? k ms') : ms = ms' := by
  induction ms generalizing ms' with
  | nil => exact (List.map_eq_nil_iff.1 hkeys.symm).symm
  | cons m ms ih =>
    obtain ⟨m', ms', rfl, hm, hkeys⟩ := List.map_eq_cons_iff.1 hkeys.symm
    rw [keys_cons, List.nodup_cons] at hnd
    have hhead := hget m.1
    rw [get?, get?, if_pos rfl, if_pos hm] at hhead
    have htail : ∀ k, get? k ms = get? k ms' := by
      intro k
      by_cases hk : m.1 = k
      · subst hk
        rw [get?_eq_none_iff.2 hnd.1, get?_eq_none_iff.2]
        rw [keys, hkeys]
        exact hnd.1
      · have := hget k
        rwa [get?, get?, if_neg hk, if_neg (hm ▸ hk)] at this
    rw [ih hkeys.symm hnd.2 htail, Prod.ext hm.symm (Option.some.inj hhead)]

theorem merges_iff {written : List Member} : Merges written ms ↔ ms = ofList written := by
  constructor
  · intro h
    have hof := merges_ofList written
    exact ext_get? (h.keys_eq.trans hof.keys_eq.symm) h.nodup fun k =>
      (h.get?_eq k).trans (hof.get?_eq k).symm
  · rintro rfl
    exact merges_ofList written

theorem insert_of_notMem (h : key ∉ keys ms) : insert key value ms = ms ++ [(key, value)] := by
  induction ms with
  | nil => rfl
  | cons m ms ih =>
    rw [keys_cons, List.mem_cons, not_or] at h
    rw [insert, if_neg (Ne.symm h.1), ih h.2]
    rfl

/-- Members with distinct keys merge into themselves. -/
theorem ofList_of_nodup (h : (keys ms).Nodup) : ofList ms = ms := by
  induction ms using List.reverseRecOn with
  | nil => rfl
  | append_singleton ms m ih =>
    rw [keys_append, List.nodup_append] at h
    have hm : m.1 ∉ keys ms := fun hm => h.2.2 m.1 hm m.1 (by simp [keys]) rfl
    rw [ofList_append_singleton, ih h.1, insert_of_notMem hm]

end ConfigGate.Json.Members
