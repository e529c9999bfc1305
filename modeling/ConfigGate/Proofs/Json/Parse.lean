import Mathlib
import ConfigGate.Proofs.Json.Members
import ConfigGate.Proofs.Json.Number
import ConfigGate.Proofs.Json.Scan

/-!
# Reading and the grammar

`Json.parse` reads exactly the texts that denote a value, and reads them as that value
(`parse_eq_ok_iff`). The loops over lists and objects are related to their productions first, for
any reader of values that is sound and complete for a relation `R`. An induction on the number of
brackets that may be open then gives the same for values.
-/

namespace ConfigGate.Json

open Grammar
open Scan (Follow)

namespace Grammar

/-- Texts behind commas. -/
def more (ts : List (List Char)) : List Char := ts.flatMap (',' :: ·)

theorem intercalate_cons (sep t : List Char) (ts : List (List Char)) :
    sep.intercalate (t :: ts) = t ++ ts.flatMap (sep ++ ·) := by
  induction ts generalizing t with
  | nil => simp
  | cons u ts ih =>
    rw [List.intercalate_cons_cons, ih, List.flatMap_cons, List.append_assoc, List.append_assoc]

theorem separated_cons (t : List Char) (ts : List (List Char)) :
    separated (t :: ts) = t ++ more ts :=
  intercalate_cons [','] t ts

theorem isBlank_eq_true_iff {c : Char} :
    isBlank c = true ↔ c = ' ' ∨ c = '\n' ∨ c = '\t' ∨ c = '\r' := by
  simp [isBlank]

theorem Blanks.follow {b s : List Char} (hb : Blanks b) (hs : Follow s) : Follow (b ++ s) := by
  cases b with
  | nil => exact hs
  | cons c b =>
    intro c' hc'
    obtain rfl : c = c' := by simpa using hc'
    have hblank := isBlank_eq_true_iff.1 (hb c (by simp))
    rcases hblank with rfl | rfl | rfl | rfl <;> decide

theorem follow_more {ts : List (List Char)} {c : Char} {s : List Char} (hc : Follow (c :: s)) :
    Follow (more ts ++ c :: s) := by
  cases ts with
  | nil => exact hc
  | cons t ts =>
    intro c' hc'
    obtain rfl : ',' = c' := by simpa [more] using hc'
    decide

theorem follow_bracket {s : List Char} : Follow (']' :: s) ∧ Follow ('}' :: s) := by
  constructor
  · intro c hc
    obtain rfl : ']' = c := by simpa using hc
    decide
  · intro c hc
    obtain rfl : '}' = c := by simpa using hc
    decide

/-- The text of a value starts with a character that is neither a blank nor a closing bracket. -/
theorem Value.head {number : Numeral → Number → Prop} {depth : Nat} {t : List Char} {x : Json}
    (h : Value number depth t x) :
    ∃ c r, t = c :: r ∧ isBlank c = false ∧ c ≠ ']' ∧ c ≠ '}' := by
  cases h with
  | number ht hx =>
    obtain ⟨negative, hw, hf, he⟩ := ht
    cases negative with
    | true => exact ⟨_, _, rfl, by decide, by decide, by decide⟩
    | false =>
      obtain ⟨d, ds, rfl⟩ := List.exists_cons_of_ne_nil hw.1
      have hblank : ∀ d : Digit, isBlank d.char = false := by decide
      exact ⟨_, _, rfl, hblank d, d.char_ne (by decide), d.char_ne (by decide)⟩
  | string hs => cases hs; exact ⟨_, _, rfl, by decide, by decide, by decide⟩
  | _ => exact ⟨_, _, rfl, by decide, by decide, by decide⟩

end Grammar

namespace Parse

/-! ### Lists and objects -/

section
variable {item : Reader Json} {R : List Char → Json → Prop}

/-- What `item` reads behind blanks is a text of `R`. -/
def Sound (item : Reader Json) (R : List Char → Json → Prop) : Prop :=
  ∀ s x rest, Reads (item s) x rest → ∃ a t, Blanks a ∧ R t x ∧ s = a ++ (t ++ rest)

/-- `item` reads every text of `R` behind blanks. -/
def Complete (item : Reader Json) (R : List Char → Json → Prop) : Prop :=
  ∀ a t x rest, Blanks a → R t x → Follow rest → Reads (item (a ++ (t ++ rest))) x rest

/-- Texts of `R` start with a character that does not close a bracket. -/
def Opens (R : List Char → Json → Prop) : Prop :=
  ∀ t x, R t x → ∃ c r, t = c :: r ∧ isBlank c = false ∧ c ≠ ']' ∧ c ≠ '}'

theorem moreElements_sound (hitem : Sound item R) {n : Nat} {done xs : List Json}
    {s rest : List Char} {h : s.length ≤ n} (hr : Reads (moreElements item n done s h) xs rest) :
    ∃ (b : List Char) (items : List Item), Blanks b ∧
      s = b ++ (more (items.map Item.written) ++ ']' :: rest) ∧
      (∀ i ∈ items, i.IsPadded ∧ R i.text i.value) ∧
      xs = done.reverse ++ items.map Item.value := by
  fun_induction moreElements item n done s h with
  | case2 done s h t ht hv =>
    obtain ⟨rfl, rfl⟩ := Reads.ok_iff.1 hr
    obtain ⟨-, b, hb, hs⟩ := token?_sound ht
    exact ⟨b, [], hb, hs.trans (by rw [hv]; rfl), by simp, by simp⟩
  | case5 done s h t ht hv hcomma u hu hu' x hx ih =>
    obtain ⟨-, b, hb, hs⟩ := token?_sound ht
    obtain ⟨a, e, ha, he, hrest⟩ := hitem _ _ _ (.of_eq hx)
    obtain ⟨b', items, hb', hrest', hitems, rfl⟩ := ih hr
    refine ⟨b, ⟨a, e, b', x.value⟩ :: items, hb, ?_, ?_, by simp⟩
    · have hs' : s = b ++ ',' ::
          (a ++ (e ++ (b' ++ (more (items.map Item.written) ++ ']' :: rest)))) := by
        rw [← hrest', ← hrest, ← hcomma]
        exact hs
      exact hs'.trans (by simp [more, Item.written])
    · intro i hi
      rcases List.mem_cons.1 hi with rfl | hi
      · exact ⟨⟨ha, hb'⟩, he⟩
      · exact hitems i hi
  | case1 | case3 | case4 | case6 | case7 => exact absurd hr Reads.error_iff

theorem elements_sound (hitem : Sound item R) {s rest : List Char} {xs : List Json}
    (hr : Reads (elements item s) xs rest) :
    (∃ b, Blanks b ∧ s = b ++ ']' :: rest ∧ xs = []) ∨
      ∃ items : List Item, items ≠ [] ∧ s = separated (items.map Item.written) ++ ']' :: rest ∧
        (∀ i ∈ items, i.IsPadded ∧ R i.text i.value) ∧ xs = items.map Item.value := by
  unfold elements at hr
  split at hr
  · exact absurd hr Reads.error_iff
  · next t ht =>
    split at hr
    · next hv =>
      obtain ⟨rfl, rfl⟩ := Reads.ok_iff.1 hr
      obtain ⟨-, b, hb, hs⟩ := token?_sound ht
      exact .inl ⟨b, hb, by rw [hv] at hs; exact hs, rfl⟩
    · split at hr
      · next x hx =>
        obtain ⟨y, hy, rfl, rfl⟩ := Reads.map_iff.1 hr
        obtain ⟨a, e, ha, he, hs⟩ := hitem _ _ _ (.of_eq hx)
        obtain ⟨b, items, hb, hrest, hitems, hxs⟩ := moreElements_sound hitem (.of_eq hy)
        refine .inr ⟨⟨a, e, b, x.value⟩ :: items, by simp, ?_, ?_, hxs⟩
        · refine hs.trans ?_
          rw [hrest, List.map_cons, separated_cons]
          simp [Item.written, Scanned.andThen]
        · intro i hi
          rcases List.mem_cons.1 hi with rfl | hi
          · exact ⟨⟨ha, hb⟩, he⟩
          · exact hitems i hi
      · exact absurd hr Reads.error_iff

theorem moreElements_complete (hitem : Complete item R) (hopens : Opens R) (items : List Item)
    (hitems : ∀ i ∈ items, i.IsPadded ∧ R i.text i.value) {n : Nat} (done : List Json)
    {b s rest : List Char} (h : s.length ≤ n) (hb : Blanks b)
    (hs : s = b ++ (more (items.map Item.written) ++ ']' :: rest)) :
    Reads (moreElements item n done s h) (done.reverse ++ items.map Item.value) rest := by
  induction items generalizing done b s with
  | nil =>
    obtain ⟨t, ht, hv, hr⟩ := token?_complete hs hb (by decide)
    rw [moreElements, ht]
    dsimp only
    rw [if_pos hv]
    exact Reads.ok_iff.2 ⟨by simp, hr⟩
  | cons i items ih =>
    obtain ⟨⟨hbefore, hafter⟩, hi⟩ := hitems i (by simp)
    obtain ⟨c, r, hc, hblank, hclose, -⟩ := hopens _ _ hi
    -- the text behind the comma, seen by the reader of the next element
    set left := i.after ++ (more (items.map Item.written) ++ ']' :: rest) with hleft
    obtain ⟨t, ht, hv, hr⟩ := token?_complete
      (show s = b ++ ',' :: (i.before ++ (i.text ++ left)) by
        rw [hs, hleft]; simp [more, Item.written]) hb (by decide)
    obtain ⟨u, hu, hu', -⟩ := token?_complete
      (show t.rest = i.before ++ c :: (r ++ left) by rw [hr, hc]; rfl) hbefore hblank
    have hread : Reads (item t.rest) i.value left := by
      rw [hr]
      exact hitem _ _ _ _ hbefore hi (hafter.follow (follow_more follow_bracket.1))
    obtain ⟨hlt, hx⟩ := hread
    rw [moreElements, ht]
    dsimp only
    rw [if_neg (by rw [hv]; decide), if_pos hv, hu]
    dsimp only
    rw [if_neg (by rw [hu']; exact hclose), hx]
    have := ih (fun j hj => hitems j (by simp [hj])) (i.value :: done)
      (t.le_of_le ⟨i.value, left, hlt⟩ h) hafter rfl
    simpa using this

theorem elements_complete (hitem : Complete item R) (hopens : Opens R) {items : List Item}
    (ne : items ≠ []) (hitems : ∀ i ∈ items, i.IsPadded ∧ R i.text i.value) (rest : List Char) :
    Reads (elements item (separated (items.map Item.written) ++ ']' :: rest))
      (items.map Item.value) rest := by
  obtain ⟨i, items, rfl⟩ := List.exists_cons_of_ne_nil ne
  obtain ⟨⟨hbefore, hafter⟩, hi⟩ := hitems i (by simp)
  obtain ⟨c, r, hc, hblank, hclose, -⟩ := hopens _ _ hi
  set left := i.after ++ (more (items.map Item.written) ++ ']' :: rest) with hleft
  have hs : separated ((i :: items).map Item.written) ++ ']' :: rest =
      i.before ++ (i.text ++ left) := by
    rw [List.map_cons, separated_cons, hleft]
    simp [Item.written]
  rw [hs]
  obtain ⟨t, ht, hv, -⟩ := token?_complete
    (show i.before ++ (i.text ++ left) = i.before ++ c :: (r ++ left) by rw [hc]; rfl)
    hbefore hblank
  obtain ⟨hlt, hx⟩ := hitem _ _ _ _ hbefore hi (hafter.follow (follow_more follow_bracket.1))
  unfold elements
  rw [ht]
  dsimp only
  rw [if_neg (by rw [hv]; exact hclose), hx]
  dsimp only
  have := moreElements_complete hitem hopens items (fun j hj => hitems j (by simp [hj])) [i.value]
    (Nat.le_refl _) hafter hleft
  exact Reads.map id this fun _ => ⟨rfl, rfl⟩

theorem elements_empty {b : List Char} (hb : Blanks b) (rest : List Char) :
    Reads (elements item (b ++ ']' :: rest)) [] rest := by
  obtain ⟨t, ht, hv, hr⟩ := token?_complete rfl hb (show isBlank ']' = false by decide)
  unfold elements
  rw [ht]
  dsimp only
  rw [if_pos hv]
  exact Reads.ok_iff.2 ⟨rfl, hr⟩

/-! ### Members -/

theorem member_sound (hitem : Sound item R) {s rest : List Char} {m : Member}
    (hr : Reads (member item s) m rest) :
    ∃ k b a t, StringText ('"' :: k) m.1 ∧ Blanks b ∧ Blanks a ∧ R t m.2 ∧
      s = k ++ (b ++ ':' :: (a ++ (t ++ rest))) := by
  obtain ⟨key, hkey, hr⟩ := Reads.bind_iff.1 hr
  obtain ⟨k, hk, hs⟩ := Scan.reads_string.1 (.of_eq hkey)
  split at hr
  · exact absurd hr Reads.error_iff
  · next t ht =>
    obtain ⟨-, b, hb, hrest⟩ := token?_sound ht
    split at hr
    · next hv =>
      obtain ⟨x, hx, hr⟩ := Reads.bind_iff.1 hr
      obtain ⟨rfl, rfl⟩ := Reads.ok_iff.1 hr
      obtain ⟨a, e, ha, he, hx'⟩ := hitem _ _ _ (.of_eq hx)
      refine ⟨k, b, a, e, hk, hb, ha, he, hs.trans ?_⟩
      rw [hrest, hv, hx']
      rfl
    · exact absurd hr Reads.error_iff

theorem member_complete (hitem : Complete item R) {k b a t rest : List Char} {m : Member}
    (hk : StringText ('"' :: k) m.1) (hb : Blanks b) (ha : Blanks a) (ht : R t m.2)
    (hrest : Follow rest) :
    Reads (member item (k ++ (b ++ ':' :: (a ++ (t ++ rest))))) m rest := by
  refine Reads.bind (Scan.reads_string.2 ⟨k, hk, rfl⟩) fun key hv hr => ?_
  obtain ⟨u, hu, hu', hr'⟩ := token?_complete hr hb (by decide)
  rw [hu]
  dsimp only
  rw [if_pos hu']
  have hread : Reads (item u.rest) m.2 rest := by
    rw [hr']
    exact hitem _ _ _ _ ha ht hrest
  refine Reads.bind hread fun x hx hx' => ?_
  exact Reads.ok_iff.2 ⟨Prod.ext hv hx, hx'⟩

/-- The parts of a member are those of the grammar. -/
def IsMember (R : List Char → Json → Prop) (e : Entry) : Prop :=
  e.IsPadded ∧ StringText e.keyText e.key ∧ R e.item.text e.item.value

theorem moreMembers_sound (hitem : Sound item R) {n : Nat} {done ms : List Member}
    {s rest : List Char} {h : s.length ≤ n} (hr : Reads (moreMembers item n done s h) ms rest) :
    ∃ (b : List Char) (entries : List Entry), Blanks b ∧
      s = b ++ (more (entries.map Entry.written) ++ '}' :: rest) ∧
      (∀ e ∈ entries, IsMember R e) ∧ ms = done.reverse ++ entries.map Entry.member := by
  fun_induction moreMembers item n done s h with
  | case2 done s h t ht hv =>
    obtain ⟨rfl, rfl⟩ := Reads.ok_iff.1 hr
    obtain ⟨-, b, hb, hs⟩ := token?_sound ht
    exact ⟨b, [], hb, hs.trans (by rw [hv]; rfl), by simp, by simp⟩
  | case4 done s h t ht hv hcomma u hu hquote x hx ih =>
    obtain ⟨-, b, hb, hs⟩ := token?_sound ht
    obtain ⟨-, c, hc, hu⟩ := token?_sound hu
    obtain ⟨k, b₁, a, t', hk, hb₁, ha, ht', hrest⟩ := member_sound hitem (.of_eq hx)
    obtain ⟨b₂, entries, hb₂, hrest', hentries, rfl⟩ := ih hr
    refine ⟨b, ⟨c, '"' :: k, b₁, x.value.1, ⟨a, t', b₂, x.value.2⟩⟩ :: entries, hb, ?_, ?_, ?_⟩
    · have hs' : s = b ++ ',' :: (c ++ '"' :: (k ++ (b₁ ++ ':' ::
          (a ++ (t' ++ (b₂ ++ (more (entries.map Entry.written) ++ '}' :: rest))))))) := by
        rw [← hrest', ← hrest, ← hquote, ← hu, ← hcomma]
        exact hs
      exact hs'.trans (by simp [more, Entry.written, Item.written])
    · intro e he
      rcases List.mem_cons.1 he with rfl | he
      · exact ⟨⟨hc, hb₁, ha, hb₂⟩, hk, ht'⟩
      · exact hentries e he
    · simp [Entry.member]
  | case1 | case3 | case5 | case6 | case7 | case8 => exact absurd hr Reads.error_iff

theorem members_sound (hitem : Sound item R) {s rest : List Char} {ms : List Member}
    (hr : Reads (members item s) ms rest) :
    (∃ b, Blanks b ∧ s = b ++ '}' :: rest ∧ ms = []) ∨
      ∃ entries : List Entry, entries ≠ [] ∧
        s = separated (entries.map Entry.written) ++ '}' :: rest ∧
        (∀ e ∈ entries, IsMember R e) ∧ ms = entries.map Entry.member := by
  unfold members at hr
  split at hr
  · exact absurd hr Reads.error_iff
  · next t ht =>
    obtain ⟨-, b, hb, hs⟩ := token?_sound ht
    split at hr
    · next hv =>
      obtain ⟨rfl, rfl⟩ := Reads.ok_iff.1 hr
      exact .inl ⟨b, hb, hs.trans (by rw [hv]; rfl), rfl⟩
    · split at hr
      · next hquote =>
        split at hr
        · next x hx =>
          obtain ⟨y, hy, rfl, rfl⟩ := Reads.map_iff.1 hr
          obtain ⟨k, b₁, a, t', hk, hb₁, ha, ht', hrest⟩ := member_sound hitem (.of_eq hx)
          obtain ⟨b₂, entries, hb₂, hrest', hentries, hms⟩ := moreMembers_sound hitem (.of_eq hy)
          refine .inr ⟨⟨b, '"' :: k, b₁, x.value.1, ⟨a, t', b₂, x.value.2⟩⟩ :: entries, by simp,
            ?_, ?_, hms⟩
          · rw [List.map_cons, separated_cons]
            have hs' : s = b ++ '"' :: (k ++ (b₁ ++ ':' :: (a ++ (t' ++
                (b₂ ++ (more (entries.map Entry.written) ++ '}' :: y.rest)))))) := by
              rw [← hrest', ← hrest, ← hquote]
              exact hs
            exact hs'.trans (by simp [Entry.written, Item.written, Scanned.andThen])
          · intro e he
            rcases List.mem_cons.1 he with rfl | he
            · exact ⟨⟨hb, hb₁, ha, hb₂⟩, hk, ht'⟩
            · exact hentries e he
        · exact absurd hr Reads.error_iff
      · exact absurd hr Reads.error_iff

/-- A member of the grammar is read behind the opening quote of its key. -/
theorem IsMember.reads (hitem : Complete item R) {e : Entry} (he : IsMember R e)
    {rest : List Char} (hrest : Follow rest) :
    ∃ k, e.keyText = '"' :: k ∧
      Reads (member item (k ++ (e.after ++ ':' :: (e.item.before ++ (e.item.text ++ rest)))))
        e.member rest := by
  obtain ⟨⟨-, hb, ha, -⟩, hk, ht⟩ := he
  generalize hkt : e.keyText = kt at hk
  cases hk with
  | mk hbody => exact ⟨_, rfl, member_complete hitem (.mk hbody) hb ha ht hrest⟩

theorem moreMembers_complete (hitem : Complete item R) (entries : List Entry)
    (hentries : ∀ e ∈ entries, IsMember R e) {n : Nat} (done : List Member)
    {b s rest : List Char} (h : s.length ≤ n) (hb : Blanks b)
    (hs : s = b ++ (more (entries.map Entry.written) ++ '}' :: rest)) :
    Reads (moreMembers item n done s h) (done.reverse ++ entries.map Entry.member) rest := by
  induction entries generalizing done b s with
  | nil =>
    obtain ⟨t, ht, hv, hr⟩ := token?_complete hs hb (by decide)
    rw [moreMembers, ht]
    dsimp only
    rw [if_pos hv]
    exact Reads.ok_iff.2 ⟨by simp, hr⟩
  | cons e entries ih =>
    have he := hentries e (by simp)
    obtain ⟨hbefore, -, -, hafter⟩ := he.1
    set left := e.item.after ++ (more (entries.map Entry.written) ++ '}' :: rest) with hleft
    have hfollow : Follow left := hafter.follow (follow_more follow_bracket.2)
    obtain ⟨k, hk, hread⟩ := he.reads hitem hfollow
    obtain ⟨t, ht, hv, hr⟩ := token?_complete
      (show s = b ++ ',' :: (e.before ++ '"' ::
          (k ++ (e.after ++ ':' :: (e.item.before ++ (e.item.text ++ left))))) by
        rw [hs, hleft]; simp [more, Entry.written, Item.written, hk]) hb (by decide)
    obtain ⟨u, hu, hu', hur⟩ := token?_complete hr hbefore (by decide)
    rw [← hur] at hread
    obtain ⟨hlt, hx⟩ := hread
    rw [moreMembers, ht]
    dsimp only
    rw [if_neg (by rw [hv]; decide), if_pos hv, hu]
    dsimp only
    rw [if_pos hu', hx]
    have := ih (fun j hj => hentries j (by simp [hj])) (e.member :: done)
      ((t.andThen u).le_of_le ⟨e.member, left, hlt⟩ h) hafter rfl
    simpa using this

theorem members_complete (hitem : Complete item R) {entries : List Entry} (ne : entries ≠ [])
    (hentries : ∀ e ∈ entries, IsMember R e) (rest : List Char) :
    Reads (members item (separated (entries.map Entry.written) ++ '}' :: rest))
      (entries.map Entry.member) rest := by
  obtain ⟨e, entries, rfl⟩ := List.exists_cons_of_ne_nil ne
  have he := hentries e (by simp)
  obtain ⟨hbefore, -, -, hafter⟩ := he.1
  set left := e.item.after ++ (more (entries.map Entry.written) ++ '}' :: rest) with hleft
  have hfollow : Follow left := hafter.follow (follow_more follow_bracket.2)
  obtain ⟨k, hk, hread⟩ := he.reads hitem hfollow
  obtain ⟨t, ht, hv, hr⟩ := token?_complete
    (show separated ((e :: entries).map Entry.written) ++ '}' :: rest = e.before ++ '"' ::
        (k ++ (e.after ++ ':' :: (e.item.before ++ (e.item.text ++ left)))) by
      rw [List.map_cons, separated_cons, hleft]
      simp [Entry.written, Item.written, hk]) hbefore (by decide)
  rw [← hr] at hread
  obtain ⟨hlt, hx⟩ := hread
  unfold members
  rw [ht]
  dsimp only
  rw [if_neg (by rw [hv]; decide), if_pos hv, hx]
  dsimp only
  have := moreMembers_complete hitem entries (fun j hj => hentries j (by simp [hj])) [e.member]
    (Nat.le_refl _) hafter hleft
  exact Reads.map id this fun _ => ⟨rfl, rfl⟩

theorem members_empty {b : List Char} (hb : Blanks b) (rest : List Char) :
    Reads (members item (b ++ '}' :: rest)) [] rest := by
  obtain ⟨t, ht, hv, hr⟩ := token?_complete rfl hb (show isBlank '}' = false by decide)
  unfold members
  rw [ht]
  dsimp only
  rw [if_pos hv]
  exact Reads.ok_iff.2 ⟨rfl, hr⟩

end

/-! ### Values -/

/-- The reader of the values inside one with `depth` brackets. -/
def inner : Nat → Option (Reader Json)
  | 0 => none
  | depth + 1 => some (value depth)

theorem value_eq (depth : Nat) : value depth = valueWith (inner depth) := by
  cases depth <;> rfl

theorem reads_valueWith {i : Option (Reader Json)} {s rest : List Char} {x : Json} :
    Reads (valueWith i s) x rest ↔
      ∃ t, token? s = some t ∧ Reads (valueFrom i t.value t.rest) x rest := by
  unfold valueWith
  cases token? s with
  | none => simp
  | some t =>
    simp only [Option.some.injEq, exists_eq_left']
    rw [Reads.map_iff]
    constructor
    · rintro ⟨y, hy, rfl, rfl⟩
      exact .of_eq hy
    · rintro ⟨h, hy⟩
      exact ⟨_, hy, rfl, rfl⟩

section
variable {depth : Nat} {i : Option (Reader Json)} {c : Char} {r rest : List Char} {x : Json}

/-- What `i` reads are values with one bracket less. -/
def InnerSound (i : Option (Reader Json)) (depth : Nat) : Prop :=
  ∀ item, i = some item → ∃ d, depth = d + 1 ∧ Sound item (Value NumberOf d)

theorem reads_word {letters : List Char} {y : Json} :
    Reads ((Scan.word letters (.one () c r)).map
      (·.map fun _ => y) : Except Fault (Scanned Json (c :: r).length)) x rest ↔
      x = y ∧ r = letters ++ rest := by
  rw [Reads.map_iff]
  constructor
  · rintro ⟨z, hz, rfl, rfl⟩
    exact ⟨rfl, Scan.reads_word.1 (.of_eq hz)⟩
  · rintro ⟨rfl, hr⟩
    obtain ⟨hlt, hz⟩ := Scan.reads_word.2 (show (Scanned.one () c r).rest = letters ++ rest from hr)
    exact ⟨_, hz, rfl, rfl⟩

theorem array_sound {d : Nat} {item : Reader Json} {xs : List Json}
    (hitem : Sound item (Value NumberOf d)) (h : Reads (elements item r) xs rest) :
    ∃ t, Value NumberOf (d + 1) t (.array xs) ∧ '[' :: r = t ++ rest := by
  rcases elements_sound hitem h with ⟨b, hb, rfl, rfl⟩ | ⟨items, ne, rfl, hitems, rfl⟩
  · exact ⟨_, .emptyArray hb, by simp⟩
  · exact ⟨_, .array items ne (fun i hi => (hitems i hi).1) fun i hi => (hitems i hi).2, by simp⟩

theorem object_sound {d : Nat} {item : Reader Json} {ms : List Member}
    (hitem : Sound item (Value NumberOf d)) (h : Reads (members item r) ms rest) :
    ∃ t, Value NumberOf (d + 1) t (.object (Members.ofList ms)) ∧ '{' :: r = t ++ rest := by
  rcases members_sound hitem h with ⟨b, hb, rfl, rfl⟩ | ⟨entries, ne, rfl, hentries, rfl⟩
  · exact ⟨_, .emptyObject hb, by simp⟩
  · refine ⟨_, .object entries ne (fun e he => (hentries e he).1)
      (fun e he => (hentries e he).2.1) (fun e he => (hentries e he).2.2)
      (Members.merges_ofList _), by simp⟩

theorem valueFrom_sound (hi : InnerSound i depth) (h : Reads (valueFrom i c r) x rest) :
    ∃ t, Value NumberOf depth t x ∧ c :: r = t ++ rest := by
  unfold valueFrom at h
  dsimp only at h
  split at h
  · next hc =>
    obtain ⟨rfl, rfl⟩ := reads_word.1 h
    exact ⟨_, .null, by rw [hc]; rfl⟩
  split at h
  · next hc =>
    obtain ⟨rfl, rfl⟩ := reads_word.1 h
    exact ⟨_, .boolTrue, by rw [hc]; rfl⟩
  split at h
  · next hc =>
    obtain ⟨rfl, rfl⟩ := reads_word.1 h
    exact ⟨_, .boolFalse, by rw [hc]; rfl⟩
  split at h
  · next hc =>
    obtain ⟨y, hy, rfl, rfl⟩ := Reads.map_iff.1 h
    obtain ⟨t, ht, hr⟩ := Scan.reads_string.1 (.of_eq hy)
    exact ⟨_, .string ht, by rw [hc]; exact congrArg ('"' :: ·) hr⟩
  split at h
  · next hc =>
    split at h
    · next item =>
      obtain ⟨y, hy, rfl, rfl⟩ := Reads.map_iff.1 h
      obtain ⟨d, rfl, hitem⟩ := hi item rfl
      rw [hc]
      exact array_sound hitem (.of_eq hy)
    · exact absurd h Reads.error_iff
  split at h
  · next hc =>
    split at h
    · next item =>
      obtain ⟨y, hy, rfl, rfl⟩ := Reads.map_iff.1 h
      obtain ⟨d, rfl, hitem⟩ := hi item rfl
      rw [hc]
      exact object_sound hitem (.of_eq hy)
    · exact absurd h Reads.error_iff
  split at h
  · obtain ⟨y, hy, rfl, rfl⟩ := Reads.map_iff.1 h
    obtain ⟨n, hn, hx⟩ := Scan.reads_number.1 (.of_eq hy)
    obtain ⟨t, ht, hs⟩ := Scan.numeral_sound hn
    exact ⟨t, .number ht (numberOf_iff.2 hx), hs⟩
  · exact absurd h Reads.error_iff

end

theorem value_sound (depth : Nat) : Sound (value depth) (Value NumberOf depth) := by
  induction depth with
  | zero =>
    intro s x rest h
    obtain ⟨t, ht, h⟩ := reads_valueWith.1 h
    obtain ⟨-, a, ha, hs⟩ := token?_sound ht
    obtain ⟨u, hu, hr⟩ := valueFrom_sound (fun item hitem => by cases hitem) h
    exact ⟨a, u, ha, hu, by rw [← hr]; exact hs⟩
  | succ depth ih =>
    intro s x rest h
    obtain ⟨t, ht, h⟩ := reads_valueWith.1 h
    obtain ⟨-, a, ha, hs⟩ := token?_sound ht
    obtain ⟨u, hu, hr⟩ := valueFrom_sound
      (fun item hitem => ⟨depth, rfl, Option.some.inj hitem ▸ ih⟩) h
    exact ⟨a, u, ha, hu, by rw [← hr]; exact hs⟩

/-! ### Completeness -/

/-- A value is read behind blanks if it is read from its first character on. -/
theorem reads_value {depth : Nat} {a t rest : List Char} {x : Json} (ha : Blanks a)
    (ht : Value NumberOf depth t x)
    (h : ∀ c r, t = c :: r → Reads (valueFrom (inner depth) c (r ++ rest)) x rest) :
    Reads (value depth (a ++ (t ++ rest))) x rest := by
  obtain ⟨c, r, rfl, hblank, -⟩ := ht.head
  obtain ⟨u, hu, hv, hr⟩ := token?_complete
    (show a ++ (c :: r ++ rest) = a ++ c :: (r ++ rest) from rfl) ha hblank
  rw [value_eq, reads_valueWith]
  refine ⟨u, hu, ?_⟩
  have := h c r rfl
  rwa [← hv, ← hr] at this

/-- What begins a numeral begins nothing else. -/
theorem ne_of_begins {c c' : Char} (hc : c = '-' ∨ ∃ d : Digit, c = d.char)
    (h : c' ≠ '-' ∧ Digit.ofChar? c' = none) : c ≠ c' := by
  rcases hc with rfl | ⟨d, rfl⟩
  · exact h.1.symm
  · exact d.char_ne h.2

theorem valueFrom_number {i : Option (Reader Json)} {c : Char} {r : List Char}
    (hc : c = '-' ∨ ∃ d : Digit, c = d.char) :
    valueFrom i c r = (Scan.number (c :: r)).map (·.map .number) := by
  have hdigit : c = '-' ∨ (Digit.ofChar? c).isSome := by
    rcases hc with rfl | ⟨d, rfl⟩
    · exact .inl rfl
    · exact .inr (by simp)
  unfold valueFrom
  dsimp only
  rw [if_neg (ne_of_begins hc (by decide)), if_neg (ne_of_begins hc (by decide)),
    if_neg (ne_of_begins hc (by decide)), if_neg (ne_of_begins hc (by decide)),
    if_neg (ne_of_begins hc (by decide)), if_neg (ne_of_begins hc (by decide)), if_pos hdigit]

theorem numeralText_head {t : List Char} {n : Numeral} (h : NumeralText t n) {c : Char}
    {r : List Char} (ht : t = c :: r) : c = '-' ∨ ∃ d : Digit, c = d.char := by
  obtain ⟨negative, hw, -, -⟩ := h
  cases negative with
  | true => exact .inl (List.cons.inj ht).1.symm
  | false =>
    obtain ⟨d, ds, rfl⟩ := List.exists_cons_of_ne_nil hw.1
    exact .inr ⟨d, (List.cons.inj ht).1.symm⟩

theorem opens_value (depth : Nat) : Opens (Value NumberOf depth) := fun _ _ h => h.head

/-- A text of a value is read, given that the values inside it are. What comes behind it matters
only for a number, which could go on there. -/
theorem reads_of_value {depth : Nat} {a t rest : List Char} {x : Json}
    (hi : ∀ d, depth = d + 1 → Complete (value d) (Value NumberOf d)) (ha : Blanks a)
    (ht : Value NumberOf depth t x) (hrest : ∀ n, x = .number n → Follow rest) :
    Reads (value depth (a ++ (t ++ rest))) x rest := by
  refine reads_value ha ht fun c r hc => ?_
  cases ht with
  | null | boolTrue | boolFalse =>
    obtain ⟨rfl, rfl⟩ := List.cons.inj hc
    exact reads_word.2 ⟨rfl, rfl⟩
  | number ht hx =>
    rw [valueFrom_number (numeralText_head ht hc)]
    have hread := Scan.reads_number.2 ⟨_, Scan.numeral_complete ht (hrest _ rfl),
      numberOf_iff.1 hx⟩
    subst hc
    exact hread.map Json.number fun _ => ⟨rfl, rfl⟩
  | string ht =>
    obtain ⟨hbody⟩ := ht
    obtain ⟨rfl, rfl⟩ := List.cons.inj hc
    exact Reads.map Json.string (Scan.reads_string.2 ⟨_, .mk hbody, rfl⟩) fun _ => ⟨rfl, rfl⟩
  | emptyArray hb =>
    obtain ⟨rfl, rfl⟩ := List.cons.inj hc
    rw [List.append_assoc]
    exact Reads.map Json.array (elements_empty hb rest) fun _ => ⟨rfl, rfl⟩
  | array items ne pad h =>
    obtain ⟨rfl, rfl⟩ := List.cons.inj hc
    rw [List.append_assoc]
    exact Reads.map Json.array (elements_complete (hi _ rfl) (opens_value _) ne
      (fun i hi => ⟨pad i hi, h i hi⟩) rest) fun _ => ⟨rfl, rfl⟩
  | emptyObject hb =>
    obtain ⟨rfl, rfl⟩ := List.cons.inj hc
    rw [List.append_assoc]
    exact Reads.map (fun ms => Json.object (Members.ofList ms)) (members_empty hb rest)
      fun _ => ⟨rfl, rfl⟩
  | object entries ne pad keys h merges =>
    obtain ⟨rfl, rfl⟩ := List.cons.inj hc
    rw [List.append_assoc, Members.merges_iff.1 merges]
    exact Reads.map (fun ms => Json.object (Members.ofList ms)) (members_complete (hi _ rfl) ne
      (fun e he => ⟨pad e he, keys e he, h e he⟩) rest) fun _ => ⟨rfl, rfl⟩

theorem value_complete (depth : Nat) : Complete (value depth) (Value NumberOf depth) := by
  induction depth with
  | zero =>
    intro a t x rest ha ht hrest
    exact reads_of_value (fun d hd => by cases hd) ha ht fun _ _ => hrest
  | succ depth ih =>
    intro a t x rest ha ht hrest
    exact reads_of_value (fun d hd => Nat.succ.inj hd ▸ ih) ha ht fun _ _ => hrest

end Parse

/-! ### Texts -/

theorem denotes_of_parse {text : List Char} {x : Json} (h : parse text = .ok x) :
    Denotes text x := by
  unfold parse at h
  cases hv : Parse.value maxDepth text with
  | error fault => rw [hv] at h; cases h
  | ok y =>
    simp only [hv, bind, Except.bind] at h
    split at h
    · next hnone =>
      obtain rfl := Except.ok.inj h
      obtain ⟨a, t, ha, ht, hs⟩ := Parse.value_sound maxDepth _ _ _ (.of_eq hv)
      have := Denotes.mk ha ht (token?_eq_none_iff.1 hnone)
      rwa [← hs] at this
    · cases h

theorem parse_of_denotes {text : List Char} {x : Json} (h : Denotes text x) :
    parse text = .ok x := by
  obtain ⟨hb, ht, ha⟩ := h
  have hfollow : Follow _ := ha.follow (s := []) (by simp [Scan.Follow])
  rw [List.append_nil] at hfollow
  obtain ⟨hlt, hv⟩ := Parse.value_complete maxDepth _ _ _ _ hb ht hfollow
  simp only [parse, hv, bind, Except.bind, token?_eq_none_iff.2 ha]

/-- A text is read as the value that it denotes, and no other text is read. -/
theorem parse_eq_ok_iff {text : List Char} {x : Json} : parse text = .ok x ↔ Denotes text x :=
  ⟨denotes_of_parse, parse_of_denotes⟩

/-- A text denotes at most one value. -/
theorem Denotes.unique {text : List Char} {x y : Json} (hx : Denotes text x) (hy : Denotes text y) :
    x = y :=
  Except.ok.inj ((parse_of_denotes hx).symm.trans (parse_of_denotes hy))

end ConfigGate.Json
