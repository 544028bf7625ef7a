import Mathlib.Data.List.DropRight

/-!
# Text

The helpers of `ini.c` that look at one string. A `char*` is the list of the bytes before the
terminating zero; a function that writes a zero into its string returns what is left of it.
`isspace` and `tolower` are those of the C locale.

## What is proved

* `rstrip_eq`, `lskip_eq` — what stripping leaves.
* `findCharsOrComment_append`, `findCharsOrComment_cases` — where `find_chars_or_comment` stops.
-/

namespace Syinx.Ini

/-- The bytes of a string literal. -/
def bytes (str : String) : List UInt8 := str.toList.map Char.toUInt8

/-- `isspace`. -/
def isspace (c : UInt8) : Bool := c = 32 || (9 ≤ c && c ≤ 13)

/-- `tolower`. -/
def tolower (c : UInt8) : UInt8 := if 65 ≤ c ∧ c ≤ 90 then c + 32 else c

/-- `INI_START_COMMENT_PREFIXES`. -/
def startCommentPrefixes : List UInt8 := bytes ";#"

/-- `INI_INLINE_COMMENT_PREFIXES`. -/
def inlineCommentPrefixes : List UInt8 := bytes ";"

/-- `rstrip`. -/
def rstrip (s : List UInt8) : List UInt8 := s.rdropWhile isspace

/-- `lskip`. -/
def lskip (s : List UInt8) : List UInt8 := s.dropWhile isspace

/-- `find_chars_or_comment`, with `was_space` as its loop has it: what is before the place it
returns, and what is there. No `chars` are none of them. -/
def findCharsOrComment (chars : List UInt8) : Bool → List UInt8 → List UInt8 × List UInt8
  | _, [] => ([], [])
  | wasSpace, c :: s =>
    if c ∉ chars ∧ ¬ (wasSpace = true ∧ c ∈ inlineCommentPrefixes) then
      let r := findCharsOrComment chars (isspace c) s
      (c :: r.1, r.2)
    else ([], c :: s)

/-- `strncpy0`: the string that is in `dest` then. -/
def strncpy0 (src : List UInt8) (size : ℕ) : List UInt8 := src.take (size - 1)

/-! ### Stripping -/

/-- White space only. -/
def Blank (s : List UInt8) : Prop := ∀ c ∈ s, isspace c = true

/-- Does not begin with white space. -/
def Flush (s : List UInt8) : Prop := ∀ c ∈ s.head?, isspace c = false

/-- Does not end with white space. -/
def Stripped (s : List UInt8) : Prop := ∀ c ∈ s.getLast?, isspace c = false

-- by the list: that there are finitely many bytes would do as well, and takes longer
instance (s : List UInt8) : Decidable (Blank s) := List.decidableBAll _ s
instance (s : List UInt8) : Decidable (Flush s) := Option.decidableForallMem s.head?
instance (s : List UInt8) : Decidable (Stripped s) := Option.decidableForallMem s.getLast?

theorem Blank.append {s t : List UInt8} (hs : Blank s) (ht : Blank t) : Blank (s ++ t) := by
  intro c hc
  exact (List.mem_append.mp hc).elim (hs c) (ht c)

theorem blank_nil : Blank [] := fun _ h => absurd h List.not_mem_nil

theorem flush_nil : Flush [] := fun c hc => by cases hc

theorem stripped_nil : Stripped [] := fun c hc => by cases hc

/-- A string that begins with no white space keeps its beginning. -/
theorem Flush.of_append {s t : List UInt8} (h : Flush (s ++ t)) : Flush s := by
  cases s with
  | nil => exact fun c hc => by cases hc
  | cons a s => exact h

theorem lskip_append {s : List UInt8} (hs : Blank s) (t : List UInt8) : lskip (s ++ t) = lskip t :=
  List.dropWhile_append_of_pos hs

theorem lskip_of_flush {s : List UInt8} (h : Flush s) : lskip s = s := by
  cases s with
  | nil => rfl
  | cons a s => exact List.dropWhile_cons_of_neg (by rw [h a rfl]; decide)

theorem rstrip_append {t : List UInt8} (ht : Blank t) (s : List UInt8) : rstrip (s ++ t) = rstrip s := by
  unfold rstrip List.rdropWhile
  rw [List.reverse_append, List.dropWhile_append_of_pos fun c hc => ht c (List.mem_reverse.mp hc)]

theorem rstrip_of_stripped {s : List UInt8} (h : Stripped s) : rstrip s = s := by
  unfold rstrip
  rw [List.rdropWhile_eq_self_iff]
  intro hl h'
  rw [h (s.getLast hl) (List.getLast?_eq_some_getLast hl)] at h'
  cases h'

/-- What `lskip` leaves. -/
theorem lskip_eq {pad t : List UInt8} (hpad : Blank pad) (ht : Flush t) : lskip (pad ++ t) = t := by
  rw [lskip_append hpad, lskip_of_flush ht]

/-- What `rstrip` leaves. -/
theorem rstrip_eq {t tail : List UInt8} (ht : Stripped t) (htail : Blank tail) :
    rstrip (t ++ tail) = t := by
  rw [rstrip_append htail, rstrip_of_stripped ht]

theorem exists_lskip (s : List UInt8) : ∃ pad, Blank pad ∧ s = pad ++ lskip s ∧ Flush (lskip s) := by
  refine ⟨s.takeWhile isspace, fun c hc => List.mem_takeWhile_imp hc, ?_, ?_⟩
  · exact List.takeWhile_append_dropWhile.symm
  · intro c hc
    have h := List.head?_dropWhile_not isspace s
    unfold lskip at hc
    rw [Option.mem_def] at hc
    rw [hc] at h
    simpa using h

theorem exists_rstrip (s : List UInt8) :
    ∃ tail, Blank tail ∧ s = rstrip s ++ tail ∧ Stripped (rstrip s) := by
  refine ⟨s.rtakeWhile isspace, fun c hc => List.mem_rtakeWhile_imp hc, ?_, ?_⟩
  · exact List.rdropWhile_append_rtakeWhile.symm
  · intro c hc
    obtain ⟨hne, rfl⟩ := List.mem_getLast?_eq_getLast hc
    exact eq_false_of_ne_true (List.rdropWhile_last_not isspace s hne)

/-! ### Finding a character or a comment -/

/-- What the loop of `find_chars_or_comment` passes. -/
def Plain (chars : List UInt8) : Bool → List UInt8 → Prop
  | _, [] => True
  | wasSpace, c :: s =>
    (c ∉ chars ∧ ¬ (wasSpace = true ∧ c ∈ inlineCommentPrefixes)) ∧ Plain chars (isspace c) s

instance decidablePlain (chars : List UInt8) :
    (wasSpace : Bool) → (s : List UInt8) → Decidable (Plain chars wasSpace s)
  | _, [] => inferInstanceAs (Decidable True)
  | wasSpace, c :: s =>
    haveI := decidablePlain chars (isspace c) s
    inferInstanceAs (Decidable ((c ∉ chars ∧ ¬ (wasSpace = true ∧ c ∈ inlineCommentPrefixes)) ∧ _))

/-- `was_space` behind `s`. -/
def endsSpace (wasSpace : Bool) (s : List UInt8) : Bool := (s.getLast?.map isspace).getD wasSpace

@[simp] theorem endsSpace_nil (w : Bool) : endsSpace w [] = w := rfl

@[simp] theorem endsSpace_cons (w : Bool) (c : UInt8) (s : List UInt8) :
    endsSpace w (c :: s) = endsSpace (isspace c) s := by
  cases s with
  | nil => rfl
  | cons b s =>
    unfold endsSpace
    rw [List.getLast?_cons_cons, List.getLast?_eq_some_getLast (List.cons_ne_nil b s)]
    rfl

theorem plain_append {chars s t : List UInt8} {w : Bool} :
    Plain chars w (s ++ t) ↔ Plain chars w s ∧ Plain chars (endsSpace w s) t := by
  induction s generalizing w with
  | nil => exact ⟨fun h => ⟨trivial, h⟩, fun h => h.2⟩
  | cons c s ih =>
    rw [endsSpace_cons, List.cons_append, Plain, Plain, ih, ← and_assoc]

/-- Nothing is found in what is passed. -/
theorem findCharsOrComment_append {chars s : List UInt8} {w : Bool} (h : Plain chars w s)
    (t : List UInt8) :
    findCharsOrComment chars w (s ++ t) =
      (s ++ (findCharsOrComment chars (endsSpace w s) t).1,
        (findCharsOrComment chars (endsSpace w s) t).2) := by
  induction s generalizing w with
  | nil => rfl
  | cons c s ih =>
    obtain ⟨hc, hs⟩ := h
    rw [List.cons_append, findCharsOrComment, if_pos hc, ih hs, endsSpace_cons]
    rfl

theorem findCharsOrComment_of_plain {chars s : List UInt8} {w : Bool} (h : Plain chars w s) :
    findCharsOrComment chars w s = (s, []) := by
  have h' := findCharsOrComment_append h []
  rwa [List.append_nil, findCharsOrComment, List.append_nil] at h'

/-- It stops at one of the characters. -/
theorem findCharsOrComment_stop {chars s : List UInt8} {w : Bool} (h : Plain chars w s) {c : UInt8}
    (hc : c ∈ chars ∨ endsSpace w s = true ∧ c ∈ inlineCommentPrefixes) (t : List UInt8) :
    findCharsOrComment chars w (s ++ c :: t) = (s, c :: t) := by
  rw [findCharsOrComment_append h, findCharsOrComment, if_neg, List.append_nil]
  rintro ⟨h1, h2⟩
  exact hc.elim h1 h2

/-- **Where `find_chars_or_comment` stops**: at the end, at one of the characters, or at a comment. -/
theorem findCharsOrComment_cases (chars : List UInt8) (w : Bool) (s : List UInt8) :
    ∃ p q, findCharsOrComment chars w s = (p, q) ∧ s = p ++ q ∧ Plain chars w p ∧
      ∀ c ∈ q.head?, c ∈ chars ∨ endsSpace w p = true ∧ c ∈ inlineCommentPrefixes := by
  induction s generalizing w with
  | nil => exact ⟨[], [], rfl, rfl, trivial, fun c hc => by cases hc⟩
  | cons c s ih =>
    unfold findCharsOrComment
    split_ifs with hc
    · obtain ⟨p, q, hf, hs, hp, hq⟩ := ih (isspace c)
      refine ⟨c :: p, q, by rw [hf], by rw [hs]; rfl, ⟨hc, hp⟩, ?_⟩
      rwa [endsSpace_cons]
    · refine ⟨[], c :: s, rfl, rfl, trivial, fun b hb => ?_⟩
      cases hb
      rw [endsSpace_nil]
      by_contra h
      exact hc (not_or.mp h)

end Syinx.Ini
