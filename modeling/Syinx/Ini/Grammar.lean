import Syinx.Ini.Parse

/-!
# The format

What can be written in a line of an ini file, and what a file is made of. This is a statement
of the format, by itself; `ini_parse` is compared with it.

A line of spaces, or one that begins with `;` or `#` behind its spaces, says nothing. A section
begins with its name in brackets. A name has its value behind `=` or `:`, and may have a comment
behind that. A line that begins with spaces goes on with the value of the line before it, if that
has a name; it has no comment.

## What is proved

* `event_eq_iff` — a line is read as what is written in it, whatever the spaces and comments.
* `parse_eq_iff` — **the format**: a file is read without an error, to these calls of the
  handler, exactly if it is a document that says so.
-/

namespace Syinx.Ini

/-- Begins with no white space and with no comment. -/
def OnMargin (s : List UInt8) : Prop :=
  ∀ c ∈ s.head?, isspace c = false ∧ c ∉ startCommentPrefixes

instance (s : List UInt8) : Decidable (OnMargin s) := Option.decidableForallMem s.head?

/-- What may stand behind a value: spaces, or spaces and a comment. -/
def Trailing (s : List UInt8) : Prop :=
  Blank s ∨ ∃ gap c comment, s = gap ++ c :: comment ∧ Blank gap ∧ gap ≠ [] ∧ c ∈ inlineCommentPrefixes

/-- What is written in a line, if the place has a name or not. -/
inductive Reads (named : Bool) : List UInt8 → Event → Prop where
  /-- A blank line, or a comment. -/
  | nothing {pad comment : List UInt8} :
      Blank pad → (∀ c ∈ comment.head?, c ∈ startCommentPrefixes) →
      Reads named (pad ++ comment) .nothing
  /-- More of a value. -/
  | more {pad value tail : List UInt8} :
      named = true → Blank pad → pad ≠ [] → Blank tail →
      value ≠ [] → OnMargin value → Stripped value →
      Reads named (pad ++ (value ++ tail)) (.more value)
  /-- The beginning of a section, and anything behind it. -/
  | header {pad name tail : List UInt8} :
      Blank pad → (named = true → pad = []) → Plain (bytes "]") false name →
      Reads named (pad ++ '['.toUInt8 :: (name ++ ']'.toUInt8 :: tail)) (.header name)
  /-- A name and its value. -/
  | entry {pad name gap : List UInt8} {sep : UInt8} {lead value tail : List UInt8} :
      Blank pad → (named = true → pad = []) →
      OnMargin name → name.head? ≠ some '['.toUInt8 → Stripped name → Plain (bytes "=:") false name →
      Blank gap → (name = [] → gap = []) →
      sep = '='.toUInt8 ∨ sep = ':'.toUInt8 →
      Blank lead → Flush value → Stripped value → Plain [] false (lead ++ value) → Trailing tail →
      Reads named (pad ++ (name ++ (gap ++ sep :: (lead ++ (value ++ tail))))) (.entry name value)

/-- A document, from a place on: its lines, and the calls it stands for. -/
inductive Document : Place → List (List UInt8) → List Call → Prop where
  /-- The end. -/
  | nil {p : Place} : Document p [] []
  /-- A line that says nothing. -/
  | nothing {p : Place} {text : List UInt8} {texts : List (List UInt8)} {cs : List Call} :
      Reads (p.prevName ≠ []) text .nothing → Document p texts cs → Document p (text :: texts) cs
  /-- More of the value of the name before it. -/
  | more {p : Place} {text value : List UInt8} {texts : List (List UInt8)} {cs : List Call} :
      Reads (p.prevName ≠ []) text (.more value) → Document p texts cs →
      Document p (text :: texts) (⟨p.sect, p.prevName, value⟩ :: cs)
  /-- A section. Its name is cut. -/
  | header {p : Place} {text name : List UInt8} {texts : List (List UInt8)} {cs : List Call} :
      Reads (p.prevName ≠ []) text (.header name) → Document ⟨name.take 49, []⟩ texts cs →
      Document p (text :: texts) cs
  /-- A name with its value. What is kept of the name for the next lines is cut. -/
  | entry {p : Place} {text name value : List UInt8} {texts : List (List UInt8)} {cs : List Call} :
      Reads (p.prevName ≠ []) text (.entry name value) →
      Document ⟨p.sect, name.take 49⟩ texts cs →
      Document p (text :: texts) (⟨p.sect, name, value⟩ :: cs)

/-! ### Reading a line -/

theorem isspace_of_mem_prefixes {c : UInt8} (h : c ∈ startCommentPrefixes) : isspace c = false := by
  have h' : c ∈ [(59 : UInt8), 35] := h
  rcases List.mem_cons.mp h' with rfl | h'
  · rfl
  · rw [List.mem_singleton.mp h']
    rfl

theorem OnMargin.flush {s : List UInt8} (h : OnMargin s) : Flush s := fun c hc => (h c hc).1

theorem stripped_append {s t : List UInt8} (ht : t ≠ []) : Stripped (s ++ t) ↔ Stripped t := by
  unfold Stripped
  rw [List.getLast?_append_of_ne_nil _ ht]

/-- What `rstrip` leaves of a line. -/
theorem rstrip_line {pad start tail : List UInt8} (hs : start ≠ []) (hstrip : Stripped start)
    (htail : Blank tail) : rstrip (pad ++ (start ++ tail)) = pad ++ start := by
  rw [← List.append_assoc]
  exact rstrip_eq ((stripped_append hs).mpr hstrip) htail

theorem rstrip_of_blank {s : List UInt8} (h : Blank s) : rstrip s = [] := by
  rw [← List.nil_append s, rstrip_append h]
  rfl

/-- What a line is, from what is left of it without the spaces around it. -/
theorem event_eq (named : Bool) {pad start tail : List UInt8} (hpad : Blank pad)
    (hflush : Flush start) (hstrip : Stripped start) (htail : Blank tail) :
    event named (pad ++ (start ++ tail)) =
      if start ≠ [] ∧ OnMargin start ∧ named = true ∧ pad ≠ [] then .more start else eventOf start := by
  cases start with
  | nil =>
    unfold event
    rw [List.nil_append, rstrip_of_blank (hpad.append htail), if_neg fun h => h.1 rfl]
    rfl
  | cons c rest =>
    have hne : c :: rest ≠ [] := List.cons_ne_nil c rest
    have hlen : (c :: rest).length < (pad ++ (c :: rest)).length ↔ pad ≠ [] := by
      rw [List.length_append, ← List.length_pos_iff]
      omega
    have hmargin : OnMargin (c :: rest) ↔ c ∉ startCommentPrefixes := by
      constructor
      · intro h
        exact (h c rfl).2
      · rintro h b ⟨⟩
        exact ⟨hflush _ rfl, h⟩
    unfold event
    rw [rstrip_line hne hstrip htail, lskip_eq hpad hflush]
    dsimp only
    simp only [hlen, hmargin, ne_eq, hne, not_false_eq_true, true_and]

/-- Every line has such a form. -/
theorem exists_line (text : List UInt8) :
    ∃ pad start tail, text = pad ++ (start ++ tail) ∧ Blank pad ∧ Flush start ∧ Stripped start ∧
      Blank tail := by
  obtain ⟨tail, htail, htext, hstrip⟩ := exists_rstrip text
  obtain ⟨pad, hpad, hrest, hflush⟩ := exists_lskip (rstrip text)
  refine ⟨pad, lskip (rstrip text), tail, ?_, hpad, hflush, ?_, htail⟩
  · rw [← List.append_assoc, ← hrest, ← htext]
  · by_cases hne : lskip (rstrip text) = []
    · rw [hne]
      exact fun c hc => by cases hc
    · rw [hrest] at hstrip
      exact (stripped_append hne).mp hstrip

/-! ### What is written is read -/

/-- What is left of a value when the spaces around it are stripped. -/
theorem rstrip_lskip {lead value gap : List UInt8} (hlead : Blank lead) (hflush : Flush value)
    (hstrip : Stripped value) (hgap : Blank gap) :
    rstrip (lskip (lead ++ (value ++ gap))) = value := by
  by_cases hv : value = []
  · subst hv
    rw [List.nil_append, lskip_append hlead, ← List.append_nil gap, lskip_append hgap]
    rfl
  · have h : Flush (value ++ gap) := by
      obtain ⟨c, rest, rfl⟩ := List.exists_cons_of_ne_nil hv
      exact hflush
    rw [lskip_eq hlead h, rstrip_eq hstrip hgap]

/-- What `rstrip` leaves behind a byte that is no space. -/
theorem rstrip_append_cons {c : UInt8} (hc : isspace c = false) (s t : List UInt8) :
    rstrip (s ++ c :: t) = s ++ c :: rstrip t ∧ Stripped (c :: rstrip t) := by
  obtain ⟨tail, htail, ht, hstrip⟩ := exists_rstrip t
  have hcons : Stripped (c :: rstrip t) := by
    by_cases hr : rstrip t = []
    · rw [hr]
      intro b hb
      cases hb
      exact hc
    · exact (stripped_append (s := [c]) hr).mpr hstrip
  refine ⟨?_, hcons⟩
  have h : s ++ c :: t = s ++ ((c :: rstrip t) ++ tail) := by rw [List.cons_append, ← ht]
  rw [h, rstrip_line (List.cons_ne_nil _ _) hcons htail]

theorem plain_of_blank {chars s : List UInt8} {w : Bool} (hchars : chars.any isspace = false)
    (h : Blank s) : Plain chars w s := by
  induction s generalizing w with
  | nil => trivial
  | cons c s ih =>
    have hc : isspace c = true := h c List.mem_cons_self
    refine ⟨⟨fun hmem => ?_, fun hmem => ?_⟩, ih fun b hb => h b (List.mem_cons_of_mem c hb)⟩
    · exact List.any_eq_false.mp hchars c hmem hc
    · rw [List.mem_singleton.mp hmem.2] at hc
      cases hc

theorem endsSpace_append {w : Bool} {s gap : List UInt8} (hgap : Blank gap) (hne : gap ≠ []) :
    endsSpace w (s ++ gap) = true := by
  unfold endsSpace
  rw [List.getLast?_append_of_ne_nil _ hne, List.getLast?_eq_some_getLast hne]
  exact hgap _ (List.getLast_mem hne)

/-- The value of an entry, with what is behind it. -/
theorem value_eq {lead value tail : List UInt8} (hlead : Blank lead) (hflush : Flush value)
    (hstrip : Stripped value) (hplain : Plain [] false (lead ++ value)) (htail : Trailing tail) :
    rstrip (lskip (findCharsOrComment [] false (rstrip (lead ++ (value ++ tail)))).1) = value := by
  rcases htail with hblank | ⟨gap, c, comment, rfl, hgap, hne, hc⟩
  · by_cases hv : value = []
    · subst hv
      rw [List.nil_append, rstrip_of_blank (hlead.append hblank)]
      rfl
    · have h := rstrip_lskip hlead hflush hstrip blank_nil
      rw [List.append_nil] at h
      rw [rstrip_line hv hstrip hblank, findCharsOrComment_of_plain hplain, h]
  · have hspace : isspace c = false := by
      rw [List.mem_singleton.mp hc]
      rfl
    have hassoc : lead ++ (value ++ (gap ++ c :: comment)) = (lead ++ value) ++ gap ++ c :: comment := by
      simp only [List.append_assoc]
    have hbefore : Plain [] false (lead ++ value ++ gap) :=
      plain_append.mpr ⟨hplain, plain_of_blank rfl hgap⟩
    rw [hassoc, (rstrip_append_cons hspace _ _).1,
      findCharsOrComment_stop hbefore (.inr ⟨endsSpace_append hgap hne, hc⟩), List.append_assoc,
      rstrip_lskip hlead hflush hstrip hgap]

/-- A string that has a name to begin with. -/
theorem eventOf_name {s : List UInt8} (hs : s ≠ []) (hmargin : OnMargin s)
    (hbracket : s.head? ≠ some '['.toUInt8) :
    eventOf s =
      match findCharsOrComment (bytes "=:") false s with
      | (name, e :: value) =>
        if e = '='.toUInt8 ∨ e = ':'.toUInt8 then
          .entry (rstrip name) (rstrip (lskip (findCharsOrComment [] false value).1))
        else .bad
      | (_, []) => .bad := by
  obtain ⟨c, rest, rfl⟩ := List.exists_cons_of_ne_nil hs
  have hstart : c ≠ '['.toUInt8 := fun h => hbracket (by rw [h]; rfl)
  unfold eventOf
  exact (if_neg (hmargin c rfl).2).trans (if_neg hstart)

theorem isspace_of_sep {c : UInt8} (h : c = '='.toUInt8 ∨ c = ':'.toUInt8) :
    isspace c = false ∧ c ∉ startCommentPrefixes ∧ c ≠ '['.toUInt8 ∧ c ∈ bytes "=:" := by
  rcases h with rfl | rfl <;> decide

/-- What is written in a line is what it is read as. -/
theorem Reads.event {named : Bool} {text : List UInt8} {e : Event} (h : Reads named text e) :
    event named text = e := by
  cases h with
  | @nothing pad comment hpad hcomment =>
    cases comment with
    | nil =>
      have h := event_eq named hpad flush_nil stripped_nil blank_nil
      rw [if_neg fun h => h.1 rfl] at h
      exact h
    | cons c comment =>
      have hc : isspace c = false := isspace_of_mem_prefixes (hcomment c rfl)
      obtain ⟨tail, htail, hcom, -⟩ := exists_rstrip comment
      have hflush : Flush (c :: rstrip comment) := fun b hb => by cases hb; exact hc
      have h := event_eq named hpad hflush (rstrip_append_cons hc [] comment).2 htail
      rw [if_neg fun h => (h.2.1 c rfl).2 (hcomment c rfl), List.cons_append, ← hcom] at h
      rw [h, eventOf, if_pos (hcomment c rfl)]
  | more hnamed hpad hne htail hvalue hmargin hstrip =>
    rw [event_eq named hpad hmargin.flush hstrip htail, if_pos ⟨hvalue, hmargin, hnamed, hne⟩]
  | @header pad name tail hpad hnamed hplain =>
    obtain ⟨tl, htl, htail, -⟩ := exists_rstrip tail
    have hstrip : Stripped ('['.toUInt8 :: (name ++ ']'.toUInt8 :: rstrip tail)) :=
      (stripped_append (s := '['.toUInt8 :: name) (List.cons_ne_nil _ _)).mpr
        (rstrip_append_cons (by decide) [] tail).2
    have h := event_eq named hpad (fun b hb => by cases hb; decide) hstrip htl
    rw [List.cons_append, List.append_assoc, List.cons_append, ← htail,
      if_neg fun h => h.2.2.2 (hnamed h.2.2.1)] at h
    rw [h, eventOf, if_neg (by decide), if_pos rfl, findCharsOrComment_stop hplain (.inl (by decide))]
    rfl
  | @entry pad name gap sep lead value tail hpad hnamed hmargin hbracket hname hplain hgap hempty hsep
      hlead hflush hvalue hvplain htail =>
    obtain ⟨hspace, hcom, hbr, hmem⟩ := isspace_of_sep hsep
    obtain ⟨tl, htl, hx, -⟩ := exists_rstrip (lead ++ (value ++ tail))
    have hhead : ∀ c ∈ (name ++ (gap ++ sep :: rstrip (lead ++ (value ++ tail)))).head?,
        isspace c = false ∧ c ∉ startCommentPrefixes ∧ c ≠ '['.toUInt8 := by
      intro c hc
      cases name with
      | nil =>
        rw [hempty rfl] at hc
        cases hc
        exact ⟨hspace, hcom, hbr⟩
      | cons b name =>
        cases hc
        exact ⟨(hmargin _ rfl).1, (hmargin _ rfl).2, fun h => hbracket (by rw [h]; rfl)⟩
    have hne : name ++ (gap ++ sep :: rstrip (lead ++ (value ++ tail))) ≠ [] := by simp
    have hstrip : Stripped (name ++ (gap ++ sep :: rstrip (lead ++ (value ++ tail)))) := by
      rw [← List.append_assoc]
      exact (stripped_append (List.cons_ne_nil _ _)).mpr (rstrip_append_cons hspace [] _).2
    have h := event_eq named hpad (fun c hc => (hhead c hc).1) hstrip htl
    rw [List.append_assoc, List.append_assoc, List.cons_append, ← hx,
      if_neg fun h => h.2.2.2 (hnamed h.2.2.1)] at h
    have hbefore : Plain (bytes "=:") false (name ++ gap) :=
      plain_append.mpr ⟨hplain, plain_of_blank (by decide) hgap⟩
    rw [h, eventOf_name hne (fun c hc => ⟨(hhead c hc).1, (hhead c hc).2.1⟩)
      (fun hc => (hhead _ hc).2.2 rfl), ← List.append_assoc,
      findCharsOrComment_stop hbefore (.inl hmem)]
    dsimp only
    rw [if_pos hsep, rstrip_eq hname hgap, value_eq hlead hflush hvalue hvplain htail]

/-! ### What is read is written -/

/-- A value can be written with the spaces around it on one side only, if it is empty. -/
theorem exists_value {v : List UInt8} :
    ∃ lead value gap, v = lead ++ (value ++ gap) ∧ Blank lead ∧ Flush value ∧ Stripped value ∧
      Blank gap ∧ rstrip (lskip v) = value ∧ (value = [] → lead = []) := by
  obtain ⟨lead, hlead, hv, hflush⟩ := exists_lskip v
  obtain ⟨gap, hgap, hw, hstrip⟩ := exists_rstrip (lskip v)
  by_cases hne : rstrip (lskip v) = []
  · rw [hne, List.nil_append] at hw
    have hblank : Blank v := by
      rw [hv, hw]
      exact hlead.append hgap
    exact ⟨[], [], v, rfl, blank_nil, flush_nil, stripped_nil, hblank, hne, fun _ => rfl⟩
  · refine ⟨lead, rstrip (lskip v), gap, ?_, hlead, ?_, hstrip, hgap, rfl, fun h => absurd h hne⟩
    · rw [← hw, ← hv]
    · rw [hw] at hflush
      exact hflush.of_append

/-- What is read of a string with a name to begin with. -/
theorem reads_name {named : Bool} {pad start tail : List UInt8} (hpad : Blank pad)
    (hnamed : named = true → pad = []) (hs : start ≠ []) (hmargin : OnMargin start)
    (hbracket : start.head? ≠ some '['.toUInt8) (htail : Blank tail)
    (hbad : eventOf start ≠ .bad) : Reads named (pad ++ (start ++ tail)) (eventOf start) := by
  rw [eventOf_name hs hmargin hbracket] at hbad ⊢
  obtain ⟨p, q, hf, hstart, hplain, hq⟩ := findCharsOrComment_cases (bytes "=:") false start
  rw [hf] at hbad ⊢
  cases q with
  | nil => exact absurd rfl hbad
  | cons e v =>
    dsimp only at hbad ⊢
    by_cases he : e = '='.toUInt8 ∨ e = ':'.toUInt8
    · rw [if_pos he]
      obtain ⟨gap, hgap, hp, hname⟩ := exists_rstrip p
      obtain ⟨v₁, v₂, hfv, hv, hvplain, hv₂⟩ := findCharsOrComment_cases [] false v
      obtain ⟨lead, value, gap', hv₁, hlead, hflush, hvalue, hgap', hread, hlead0⟩ :=
        exists_value (v := v₁)
      rw [hfv, hread]
      have htext : pad ++ (start ++ tail) =
          pad ++ (rstrip p ++ (gap ++ e :: (lead ++ (value ++ (gap' ++ (v₂ ++ tail)))))) := by
        rw [hstart, hv, hv₁, ← List.append_assoc (rstrip p), ← hp]
        simp only [List.append_assoc, List.cons_append]
      rw [htext]
      apply Reads.entry hpad hnamed _ _ hname _ hgap _ he hlead hflush hvalue
      · rw [hv₁, ← List.append_assoc] at hvplain
        exact (plain_append.mp hvplain).1
      · cases v₂ with
        | nil => exact .inl (hgap'.append htail)
        | cons c comment =>
          obtain ⟨hspace, hc⟩ := (hv₂ c rfl).resolve_left List.not_mem_nil
          refine .inr ⟨gap', c, comment ++ tail, rfl, hgap', ?_, hc⟩
          rintro rfl
          rw [List.append_nil] at hv₁
          subst hv₁
          by_cases hval : value = []
          · rw [hval, hlead0 hval] at hspace
            cases hspace
          · unfold endsSpace at hspace
            rw [List.getLast?_append_of_ne_nil _ hval, List.getLast?_eq_some_getLast hval] at hspace
            rw [Option.map_some, Option.getD_some,
              hvalue _ (List.getLast?_eq_some_getLast hval)] at hspace
            cases hspace
      · intro c hc
        apply hmargin
        rw [hstart, hp, Option.mem_def, List.head?_append, List.head?_append, hc]
        rfl
      · intro hc
        apply hbracket
        rw [hstart, hp, List.head?_append, List.head?_append, hc]
        rfl
      · rw [hp] at hplain
        exact (plain_append.mp hplain).1
      · intro hn
        rw [hn, List.nil_append] at hp
        subst hp
        cases p with
        | nil => rfl
        | cons c p =>
          rw [hstart] at hmargin
          have h := (hmargin c rfl).1
          rw [hgap c List.mem_cons_self] at h
          cases h
    · rw [if_neg he] at hbad
      exact absurd rfl hbad

/-- What a line is read as is what is written in it. -/
theorem reads_of_event {named : Bool} {text : List UInt8} (h : event named text ≠ .bad) :
    Reads named text (event named text) := by
  obtain ⟨pad, start, tail, rfl, hpad, hflush, hstrip, htail⟩ := exists_line text
  rw [event_eq named hpad hflush hstrip htail] at h ⊢
  split_ifs with hmore
  · exact .more hmore.2.2.1 hpad hmore.2.2.2 htail hmore.1 hmore.2.1 hstrip
  rw [if_neg hmore] at h
  cases start with
  | nil =>
    have hn : Reads named ((pad ++ tail) ++ []) .nothing :=
      .nothing (hpad.append htail) fun c hc => by cases hc
    rwa [List.append_nil] at hn
  | cons c rest =>
    by_cases hc : c ∈ startCommentPrefixes
    · rw [eventOf, if_pos hc]
      exact .nothing hpad fun b hb => by cases hb; exact hc
    have hmargin : OnMargin (c :: rest) := by
      rintro b ⟨⟩
      exact ⟨hflush _ rfl, hc⟩
    have hnamed : named = true → pad = [] := by
      intro hn
      by_contra hp
      exact hmore ⟨List.cons_ne_nil _ _, hmargin, hn, hp⟩
    by_cases hb : c = '['.toUInt8
    · rw [eventOf, if_neg hc, if_pos hb] at h ⊢
      obtain ⟨p, q, hf, hrest, hplain, -⟩ := findCharsOrComment_cases (bytes "]") false rest
      rw [hf] at h ⊢
      cases q with
      | nil => exact absurd rfl h
      | cons e q =>
        dsimp only at h ⊢
        by_cases he : e = ']'.toUInt8
        · rw [if_pos he, hrest, hb, he, List.cons_append, List.append_assoc, List.cons_append]
          exact .header hpad hnamed hplain
        · rw [if_neg he] at h
          exact absurd rfl h
    · exact reads_name hpad hnamed (List.cons_ne_nil _ _) hmargin
        (fun h' => hb (Option.some.inj h')) htail h

/-- **A line.** It is read as what is written in it. -/
theorem event_eq_iff {named : Bool} {text : List UInt8} {e : Event} (he : e ≠ .bad) :
    event named text = e ↔ Reads named text e := by
  constructor
  · rintro rfl
    exact reads_of_event he
  · exact Reads.event

/-! ### A file -/

/-- What a document says is what comes of its lines. -/
theorem document_iff {p : Place} {texts : List (List UInt8)} {cs : List Call} :
    Document p texts cs ↔
      .bad ∉ p.outcomes texts ∧ (p.outcomes texts).filterMap Outcome.call = cs := by
  induction texts generalizing p cs with
  | nil =>
    constructor
    · rintro ⟨⟩
      exact ⟨List.not_mem_nil, rfl⟩
    · rintro ⟨-, rfl⟩
      exact .nil
  | cons text texts ih =>
    rw [Place.outcomes, filterMap_call_cons, List.mem_cons, not_or]
    constructor
    · intro h
      cases h with
      | nothing hr hd =>
        have he : p.event text = .nothing := hr.event
        obtain ⟨h1, h2⟩ := ih.mp hd
        rw [he]
        exact ⟨⟨by simp [Place.outcome], h1⟩, h2⟩
      | more hr hd =>
        have he : p.event text = .more _ := hr.event
        obtain ⟨h1, h2⟩ := ih.mp hd
        rw [he]
        exact ⟨⟨by simp [Place.outcome], h1⟩, congrArg _ h2⟩
      | header hr hd =>
        have he : p.event text = .header _ := hr.event
        obtain ⟨h1, h2⟩ := ih.mp hd
        rw [he]
        exact ⟨⟨by simp [Place.outcome], h1⟩, h2⟩
      | entry hr hd =>
        have he : p.event text = .entry _ _ := hr.event
        obtain ⟨h1, h2⟩ := ih.mp hd
        rw [he]
        exact ⟨⟨by simp [Place.outcome], h1⟩, congrArg _ h2⟩
    · rintro ⟨⟨hbad, hrest⟩, hcs⟩
      have hread : p.event text ≠ .bad → Reads (p.prevName ≠ []) text (p.event text) := reads_of_event
      cases he : p.event text with
      | bad =>
        rw [he] at hbad
        exact absurd rfl hbad
      | nothing =>
        rw [he] at hread hcs hrest
        exact .nothing (hread (by simp)) (ih.mpr ⟨hrest, hcs⟩)
      | more value =>
        rw [he] at hread hcs hrest
        subst hcs
        exact .more (hread (by simp)) (ih.mpr ⟨hrest, rfl⟩)
      | header name =>
        rw [he] at hread hcs hrest
        exact .header (hread (by simp)) (ih.mpr ⟨hrest, hcs⟩)
      | entry name value =>
        rw [he] at hread hcs hrest
        subst hcs
        exact .entry (hread (by simp)) (ih.mpr ⟨hrest, rfl⟩)

/-- A handler that keeps what it is called with. -/
def Handler.log : Handler (List Call) := fun cs sect name value => (true, cs ++ [⟨sect, name, value⟩])

theorem Handler.run_log (cs ds : List Call) : Handler.log.run cs ds = cs ++ ds := by
  induction ds generalizing cs with
  | nil => exact (List.append_nil cs).symm
  | cons c ds ih =>
    rw [List.append_cons]
    exact ih (cs ++ [c])

/-- No line fails if none is bad, and the handler succeeds. -/
theorem firstLine_failing {U : Type} {handler : Handler U}
    (hok : ∀ user sect name value, (handler user sect name value).1 = true) (user : U)
    (os : List Outcome) : firstLine (handler.failing user os) = 0 ↔ .bad ∉ os := by
  induction os generalizing user with
  | nil => exact iff_of_true rfl List.not_mem_nil
  | cons o os ih =>
    rw [Handler.failing, firstLine_cons, List.mem_cons, not_or, ← ih]
    have hfails : handler.fails user o = true ↔ o = .bad := by
      cases o with
      | quiet => exact iff_of_false Bool.false_ne_true (by simp)
      | calls c => exact iff_of_false (by simp [Handler.fails, hok]) (by simp)
      | bad => exact iff_of_true rfl rfl
    by_cases hb : o = .bad
    · rw [if_pos (hfails.mpr hb)]
      exact iff_of_false (by omega) fun h => h.1 hb.symm
    · rw [if_neg fun h => hb (hfails.mp h)]
      by_cases h0 : firstLine (handler.failing (handler.run user o.call.toList) os) = 0
      · rw [if_pos h0]
        exact iff_of_true rfl ⟨fun h => hb h.symm, h0⟩
      · rw [if_neg h0]
        exact iff_of_false (Nat.succ_ne_zero _) fun h => h0 h.2

/-- What a handler that succeeds is called with. -/
theorem parse_of_document {U : Type} {handler : Handler U}
    (hok : ∀ user sect name value, (handler user sect name value).1 = true) {file : List UInt8}
    {cs : List Call} (h : Document Place.start (texts file) cs) (user : U) :
    iniParse (some file) handler user = (0, handler.run user cs) := by
  obtain ⟨hbad, hcalls⟩ := document_iff.mp h
  rw [parse_spec, (firstLine_failing hok user (outcomes file)).mpr hbad, ← hcalls]
  rfl

/-- **The format.** A file is read without an error, to these calls of the handler, exactly if
its lines are a document that stands for them. -/
theorem parse_eq_iff (file : List UInt8) (cs : List Call) :
    iniParse (some file) Handler.log [] = (0, cs) ↔ Document Place.start (texts file) cs := by
  constructor
  · intro h
    rw [parse_spec, Handler.run_log, List.nil_append, Prod.mk.injEq, Int.natCast_eq_zero,
      firstLine_failing fun _ _ _ _ => rfl] at h
    exact document_iff.mpr h
  · intro h
    rw [parse_of_document (fun _ _ _ _ => rfl) h, Handler.run_log, List.nil_append]

end Syinx.Ini
