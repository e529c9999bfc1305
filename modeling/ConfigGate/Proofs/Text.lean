import Mathlib
import ConfigGate.Text.Blank
import ConfigGate.Text.Bytes

/-!
# Byte positions and blanks

A text that is cut at the byte counts of its stretches falls into these stretches. Every text has
one text within the blanks at its ends (`strips_iff`).
-/

namespace ConfigGate.Text

@[simp]
theorem byteCount_append (s t : List Char) : byteCount (s ++ t) = byteCount s + byteCount t := by
  induction s with
  | nil => simp [byteCount]
  | cons c s ih => simp only [List.cons_append, byteCount, ih, Nat.add_assoc]

theorem byteCount_of_ascii {s : List Char} (h : ∀ c ∈ s, c.utf8Size = 1) :
    byteCount s = s.length := by
  induction s with
  | nil => rfl
  | cons c s ih =>
    have hc := h c List.mem_cons_self
    have hs := ih fun d hd => h d (List.mem_cons_of_mem c hd)
    simp only [byteCount, hc, hs, List.length_cons]
    omega

theorem length_le_byteCount (s : List Char) : s.length ≤ byteCount s := by
  induction s with
  | nil => exact Nat.le_refl 0
  | cons c s ih =>
    have := c.utf8Size_pos
    simp only [byteCount, List.length_cons]
    omega

theorem dropBytes_append (s t : List Char) : dropBytes (byteCount s) (s ++ t) = t := by
  induction s with
  | nil => rw [byteCount, dropBytes, List.nil_append]
  | cons c s ih =>
    obtain ⟨n, hn⟩ : ∃ n, byteCount (c :: s) = n + 1 :=
      Nat.exists_eq_succ_of_ne_zero (by have := c.utf8Size_pos; simp only [byteCount]; omega)
    have hrest : n + 1 - c.utf8Size = byteCount s := by simp only [byteCount] at hn; omega
    rw [hn, List.cons_append, dropBytes, hrest, ih]

theorem takeBytes_append (s t : List Char) : takeBytes (byteCount s) (s ++ t) = s := by
  induction s with
  | nil => rw [byteCount, takeBytes]
  | cons c s ih =>
    obtain ⟨n, hn⟩ : ∃ n, byteCount (c :: s) = n + 1 :=
      Nat.exists_eq_succ_of_ne_zero (by have := c.utf8Size_pos; simp only [byteCount]; omega)
    have hrest : n + 1 - c.utf8Size = byteCount s := by simp only [byteCount] at hn; omega
    rw [hn, List.cons_append, takeBytes, hrest, ih]

theorem slice_append (s t u : List Char) :
    slice (byteCount s) (byteCount s + byteCount t) (s ++ (t ++ u)) = t := by
  rw [slice, dropBytes_append, Nat.add_sub_cancel_left, takeBytes_append]

/-! ### Slices -/

theorem bytes_append (s t : List Char) : bytes (s ++ t) = bytes s ++ bytes t := List.flatMap_append

theorem length_bytes (s : List Char) : (bytes s).length = byteCount s := by
  induction s with
  | nil => rfl
  | cons c s ih =>
    have hc : (String.utf8EncodeChar c).length = c.utf8Size := String.length_utf8EncodeChar c
    have hs : (s.flatMap String.utf8EncodeChar).length = byteCount s := ih
    rw [bytes, List.flatMap_cons, List.length_append, hc, hs, byteCount]

/-- The places lie within a text and between its characters, in order. -/
structure IsSlice (start stop : Nat) (s : List Char) : Prop where
  le : start ≤ stop
  le_byteCount : stop ≤ byteCount s
  start : IsBoundary start s
  stop : IsBoundary stop s

theorem isSlice_append (s t u : List Char) :
    IsSlice (byteCount s) (byteCount s + byteCount t) (s ++ (t ++ u)) := by
  refine ⟨by omega, ?_, ⟨s, List.prefix_append .., rfl⟩, ⟨s ++ t, ?_, byteCount_append s t⟩⟩
  · rw [byteCount_append, byteCount_append]
    omega
  · rw [← List.append_assoc]
    exact List.prefix_append ..

/-- Two places in order cut a text in three. -/
theorem IsSlice.exists_parts {start stop : Nat} {s : List Char} (h : IsSlice start stop s) :
    ∃ t u v, s = t ++ (u ++ v) ∧ start = byteCount t ∧ stop = byteCount t + byteCount u := by
  obtain ⟨t, ht, rfl⟩ := h.start
  obtain ⟨w, hw, rfl⟩ := h.stop
  obtain ⟨u, rfl⟩ : t <+: w := by
    rcases List.prefix_or_prefix_of_prefix ht hw with htw | ⟨r, rfl⟩
    · exact htw
    · -- No character takes up no bytes.
      have hle := h.le
      have hlen := length_le_byteCount r
      rw [byteCount_append] at hle
      have hr : r = [] := List.eq_nil_of_length_eq_zero (by omega)
      rw [hr, List.append_nil]
  obtain ⟨v, rfl⟩ := hw
  exact ⟨t, u, v, List.append_assoc .., rfl, byteCount_append t u⟩

/-- A slice of a text is the slice of its bytes. -/
theorem IsSlice.bytes_slice {start stop : Nat} {s : List Char} (h : IsSlice start stop s) :
    bytes (slice start stop s) = ((bytes s).drop start).take (stop - start) := by
  obtain ⟨t, u, v, rfl, rfl, rfl⟩ := h.exists_parts
  rw [slice_append, bytes_append, bytes_append, ← length_bytes t, ← length_bytes u,
    List.drop_left, Nat.add_sub_cancel_left, List.take_left]

/-! ### Blanks at both ends -/

/-- `t` is `s` without the blanks at both ends. -/
structure Strips (s t : List Char) : Prop where
  split : ∃ before after, s = before ++ (t ++ after) ∧ (∀ c ∈ before, isBlank c = true) ∧
    ∀ c ∈ after, isBlank c = true
  head : ∀ c ∈ t.head?, isBlank c = false
  last : ∀ c ∈ t.getLast?, isBlank c = false

theorem dropWhile_blanks {blanks s : List Char} (hb : ∀ c ∈ blanks, isBlank c = true)
    (hs : ∀ c ∈ s.head?, isBlank c = false) : (blanks ++ s).dropWhile isBlank = s := by
  rw [List.dropWhile_append_of_pos hb]
  rcases s with - | ⟨c, s⟩
  · rfl
  · exact List.dropWhile_cons_of_neg (by simp [hs c rfl])

theorem Strips.trim_eq {s t : List Char} (h : Strips s t) : trim s = t := by
  obtain ⟨before, after, rfl, hbefore, hafter⟩ := h.split
  rw [trim]
  by_cases ht : t = []
  · have hall : ∀ c ∈ before ++ after, isBlank c = true :=
      List.forall_mem_append.2 ⟨hbefore, hafter⟩
    have hdrop := dropWhile_blanks (s := []) hall (by simp)
    rw [List.append_nil] at hdrop
    rw [ht, List.nil_append, hdrop]
    rfl
  · have hhead : ∀ c ∈ (t ++ after).head?, isBlank c = false := by
      rw [List.head?_append_of_ne_nil _ ht]
      exact h.head
    have hlast : ∀ c ∈ t.reverse.head?, isBlank c = false := by
      rw [List.head?_reverse]
      exact h.last
    have hreverse : ∀ c ∈ after.reverse, isBlank c = true := by simpa using hafter
    rw [dropWhile_blanks hbefore hhead, List.reverse_append, dropWhile_blanks hreverse hlast,
      List.reverse_reverse]

theorem head?_dropWhile {s : List Char} : ∀ c ∈ (s.dropWhile isBlank).head?, isBlank c = false := by
  intro c hc
  have hnot := List.head?_dropWhile_not isBlank s
  rw [Option.mem_def.1 hc] at hnot
  simpa using hnot

theorem mem_takeWhile {s : List Char} : ∀ c ∈ s.takeWhile isBlank, isBlank c = true :=
  fun _ hc => List.mem_takeWhile_imp hc

theorem strips_self {s : List Char} (h : ∀ c ∈ s, isBlank c = false) : Strips s s :=
  ⟨⟨[], [], by simp, by simp, by simp⟩, fun c hc => h c (List.mem_of_mem_head? hc),
    fun c hc => h c (List.mem_of_mem_getLast? hc)⟩

theorem strips_trim (s : List Char) : Strips s (trim s) := by
  let u := s.dropWhile isBlank
  have hu : u = trim s ++ (u.reverse.takeWhile isBlank).reverse := by
    rw [trim, ← List.reverse_append, List.takeWhile_append_dropWhile, List.reverse_reverse]
  refine ⟨⟨s.takeWhile isBlank, (u.reverse.takeWhile isBlank).reverse, ?_, mem_takeWhile, ?_⟩,
    fun c hc => ?_, ?_⟩
  · rw [← hu]
    exact List.takeWhile_append_dropWhile.symm
  · intro c hc
    exact mem_takeWhile c (List.mem_reverse.1 hc)
  · -- What is left begins where the blanks at the front end.
    refine head?_dropWhile (s := s) c ?_
    show c ∈ u.head?
    rw [hu, List.head?_append, Option.mem_def.1 hc]
    rfl
  · rw [trim, List.getLast?_reverse]
    exact head?_dropWhile

/-- Every text has one text within the blanks at its ends, and trimming finds it. -/
theorem strips_iff {s t : List Char} : Strips s t ↔ trim s = t := by
  refine ⟨Strips.trim_eq, ?_⟩
  rintro rfl
  exact strips_trim s

theorem Strips.length_le {s t : List Char} (h : Strips s t) : t.length ≤ s.length := by
  obtain ⟨before, after, rfl, -, -⟩ := h.split
  rw [List.length_append, List.length_append]
  omega

end ConfigGate.Text
