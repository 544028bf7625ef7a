import Syinx.Ini.Grammar

/-!
# Writing a file

How to write an ini file that is read back: a row for each section, a row for each name with the
first part of its value, and a row that begins with a space for each part that follows.

## What is proved

* `texts_rows` — the lines of a file that is made of rows.
* `parse_write` — **write and read**: what has been written so is read back.
-/

namespace Syinx.Ini

open Syinx.Library

/-- Has no byte that ends a line or a string. -/
def OneLine (s : List UInt8) : Prop := newline ∉ s ∧ 0 ∉ s

instance (s : List UInt8) : Decidable (OneLine s) := inferInstanceAs (Decidable (_ ∧ _))

/-- What can stand in brackets. -/
structure SectionName (s : List UInt8) : Prop where
  plain : Plain (bytes "]") false s
  oneLine : OneLine s
  length_le : s.length ≤ 49

/-- What can stand before `=`. -/
structure Name (s : List UInt8) : Prop where
  margin : OnMargin s
  bracket : s.head? ≠ some '['.toUInt8
  plain : Plain (bytes "=:") false s
  oneLine : OneLine s

instance (s : List UInt8) : Decidable (SectionName s) :=
  decidable_of_iff (Plain (bytes "]") false s ∧ OneLine s ∧ s.length ≤ 49)
    ⟨fun h => ⟨h.1, h.2.1, h.2.2⟩, fun h => ⟨h.plain, h.oneLine, h.length_le⟩⟩

instance (s : List UInt8) : Decidable (Name s) :=
  decidable_of_iff
    (OnMargin s ∧ s.head? ≠ some '['.toUInt8 ∧ Plain (bytes "=:") false s ∧ OneLine s)
    ⟨fun h => ⟨h.1, h.2.1, h.2.2.1, h.2.2.2⟩, fun h => ⟨h.margin, h.bracket, h.plain, h.oneLine⟩⟩

/-! ### Rows -/

theorem OneLine.of_append {s t : List UInt8} (h : OneLine (s ++ t)) : OneLine s :=
  ⟨fun hs => h.1 (List.mem_append_left t hs), fun hs => h.2 (List.mem_append_left t hs)⟩

/-- A row as a line. -/
def asLine (row : List UInt8) : List UInt8 := row ++ [newline]

/-- What can stand in a row. -/
structure Row (row : List UInt8) : Prop where
  oneLine : OneLine row
  length_le : row.length ≤ 198

theorem textOf_asLine {b : Bool} {row : List UInt8} (h : OneLine row)
    (hb : b = true → row.head? ≠ some 0xEF) : textOf b (asLine row) = asLine row := by
  have h0 : (asLine row).takeWhile (· ≠ 0) = asLine row := by
    rw [List.takeWhile_eq_self_iff]
    intro c hc
    rw [decide_eq_true_eq]
    rintro rfl
    rcases List.mem_append.mp hc with hc | hc
    · exact h.2 hc
    · exact absurd (List.mem_singleton.mp hc) (by decide)
  unfold textOf
  dsimp only
  rw [h0, if_neg]
  rintro ⟨hb', hbom⟩
  cases row with
  | nil => exact absurd hbom (by decide)
  | cons c row => exact hb hb' (congrArg some (List.cons.inj hbom).1)

/-- **The lines of a file of rows**, and of what follows them. -/
theorem textsFrom_rows {rows : List (List UInt8)} (h : ∀ r ∈ rows, Row r) {b : Bool}
    (hb : b = true → ∀ r ∈ rows.head?, r.head? ≠ some 0xEF) (rest : List UInt8) :
    textsFrom b (lines newline (iniMaxLine - 1) (rows.flatMap asLine ++ rest)) =
      rows.map asLine ++ textsFrom (b && rows.isEmpty) (lines newline (iniMaxLine - 1) rest) := by
  induction rows generalizing b with
  | nil =>
    rw [List.isEmpty_nil, Bool.and_true]
    rfl
  | cons r rows ih =>
    have hr := h r List.mem_cons_self
    have hlines : lines newline (iniMaxLine - 1) ((r :: rows).flatMap asLine ++ rest) =
        asLine r :: lines newline (iniMaxLine - 1) (rows.flatMap asLine ++ rest) := by
      rw [List.flatMap_cons, List.append_assoc, asLine, List.append_assoc]
      exact lines_terminated hr.oneLine.1 (Nat.lt_succ_of_le hr.length_le) _
    rw [hlines, textsFrom, textOf_asLine hr.oneLine fun hb' => hb hb' r rfl,
      ih (fun r' h' => h r' (List.mem_cons_of_mem r h')) (b := false) (fun h' => by cases h'),
      List.isEmpty_cons, Bool.and_false, Bool.false_and]
    rfl

/-! ### Writing -/

/-- A name with its value, the first part of it and those that follow. -/
structure Entry where
  /-- The name. -/
  name : List UInt8
  /-- The first part. -/
  value : List UInt8
  /-- What follows. -/
  more : List (List UInt8)

/-- A section. -/
structure Section where
  /-- The name. -/
  name : List UInt8
  /-- What is in it. -/
  entries : List Entry

namespace Entry

/-- The row of a part that follows. -/
def moreRow (value : List UInt8) : List UInt8 := ' '.toUInt8 :: value

/-- The rows. -/
def rows (e : Entry) : List (List UInt8) :=
  (e.name ++ '='.toUInt8 :: e.value) :: e.more.map moreRow

/-- The calls. -/
def calls (sect : List UInt8) (e : Entry) : List Call :=
  ⟨sect, e.name, e.value⟩ :: e.more.map fun value => ⟨sect, e.name, value⟩

/-- Can be written. -/
structure Writable (e : Entry) : Prop where
  name : Name e.name
  stripped : Stripped e.name
  flush : Flush e.value
  value : Stripped e.value
  plain : Plain [] false e.value
  oneLine : OneLine e.value
  length_le : e.name.length + e.value.length ≤ 197
  /-- The name is handed on as it is. -/
  kept : e.more ≠ [] → e.name ≠ [] ∧ e.name.length ≤ 49
  more : ∀ v ∈ e.more, v ≠ [] ∧ OnMargin v ∧ Stripped v ∧ OneLine v ∧ v.length ≤ 197

instance (e : Entry) : Decidable e.Writable :=
  decidable_of_iff
    ((Name e.name ∧ Stripped e.name) ∧ (Flush e.value ∧ Stripped e.value ∧ Plain [] false e.value ∧
      OneLine e.value) ∧ e.name.length + e.value.length ≤ 197 ∧
      (e.more ≠ [] → e.name ≠ [] ∧ e.name.length ≤ 49) ∧
      ∀ v ∈ e.more, v ≠ [] ∧ OnMargin v ∧ Stripped v ∧ OneLine v ∧ v.length ≤ 197)
    ⟨fun h => ⟨h.1.1, h.1.2, h.2.1.1, h.2.1.2.1, h.2.1.2.2.1, h.2.1.2.2.2, h.2.2.1, h.2.2.2.1, h.2.2.2.2⟩,
      fun h => ⟨⟨h.name, h.stripped⟩, ⟨h.flush, h.value, h.plain, h.oneLine⟩, h.length_le, h.kept, h.more⟩⟩

end Entry

namespace Section

/-- The row with the name. -/
def header (s : Section) : List UInt8 := '['.toUInt8 :: (s.name ++ [']'.toUInt8])

/-- The rows. -/
def rows (s : Section) : List (List UInt8) := s.header :: s.entries.flatMap Entry.rows

/-- The calls. -/
def calls (s : Section) : List Call := s.entries.flatMap (Entry.calls s.name)

/-- Can be written. -/
structure Writable (s : Section) : Prop where
  name : SectionName s.name
  entries : ∀ e ∈ s.entries, e.Writable

instance (s : Section) : Decidable s.Writable :=
  decidable_of_iff (SectionName s.name ∧ ∀ e ∈ s.entries, e.Writable)
    ⟨fun h => ⟨h.1, h.2⟩, fun h => ⟨h.name, h.entries⟩⟩

end Section

/-- The file. -/
def write (doc : List Section) : List UInt8 := (doc.flatMap Section.rows).flatMap asLine

/-! ### Reading it back -/

theorem OneLine.append {s t : List UInt8} (hs : OneLine s) (ht : OneLine t) : OneLine (s ++ t) :=
  ⟨fun h => (List.mem_append.mp h).elim hs.1 ht.1, fun h => (List.mem_append.mp h).elim hs.2 ht.2⟩

theorem oneLine_singleton {c : UInt8} (h1 : c ≠ newline) (h0 : c ≠ 0) : OneLine [c] :=
  ⟨fun h => h1 (List.mem_singleton.mp h).symm, fun h => h0 (List.mem_singleton.mp h).symm⟩

theorem Entry.Writable.row {e : Entry} (h : e.Writable) : ∀ r ∈ e.rows, Row r := by
  intro r hr
  rcases List.mem_cons.mp hr with rfl | hr
  · refine ⟨h.name.oneLine.append
      ((oneLine_singleton (c := '='.toUInt8) (by decide) (by decide)).append h.oneLine), ?_⟩
    have hlen := h.length_le
    rw [List.length_append, List.length_cons]
    omega
  · obtain ⟨v, hv, rfl⟩ := List.mem_map.mp hr
    obtain ⟨-, -, -, hone, hlen⟩ := h.more v hv
    exact ⟨(oneLine_singleton (c := ' '.toUInt8) (by decide) (by decide)).append hone,
      Nat.succ_le_succ hlen⟩

theorem Section.Writable.row {s : Section} (h : s.Writable) : ∀ r ∈ s.rows, Row r := by
  intro r hr
  rcases List.mem_cons.mp hr with rfl | hr
  · refine ⟨(oneLine_singleton (c := '['.toUInt8) (by decide) (by decide)).append
      (h.name.oneLine.append (oneLine_singleton (c := ']'.toUInt8) (by decide) (by decide))), ?_⟩
    have hlen := h.name.length_le
    unfold Section.header
    rw [List.length_cons, List.length_append, List.length_singleton]
    omega
  · obtain ⟨e, he, hr⟩ := List.mem_flatMap.mp hr
    exact (h.entries e he).row r hr

theorem blank_newline : Blank [newline] := by decide

/-- The parts that follow. -/
theorem document_more {sect name : List UInt8} {more : List (List UInt8)}
    (hname : more ≠ [] → name ≠ [])
    (h : ∀ v ∈ more, v ≠ [] ∧ OnMargin v ∧ Stripped v ∧ OneLine v ∧ v.length ≤ 197)
    {ts : List (List UInt8)} {cs : List Call} (hd : Document ⟨sect, name⟩ ts cs) :
    Document ⟨sect, name⟩ ((more.map Entry.moreRow).map asLine ++ ts)
      ((more.map fun value => (⟨sect, name, value⟩ : Call)) ++ cs) := by
  induction more with
  | nil => exact hd
  | cons v more ih =>
    obtain ⟨hne, hmargin, hstrip, -, -⟩ := h v List.mem_cons_self
    have hn := hname (List.cons_ne_nil v more)
    have hr : Reads (decide (name ≠ [])) ([' '.toUInt8] ++ (v ++ [newline])) (.more v) :=
      .more (decide_eq_true hn) (by decide) (by decide) blank_newline hne hmargin hstrip
    exact .more (p := ⟨sect, name⟩) hr
      (ih (fun _ => hn) fun v' hv' => h v' (List.mem_cons_of_mem v hv'))

/-- An entry. -/
theorem document_entry {p : Place} {e : Entry} (h : e.Writable) {ts : List (List UInt8)}
    {cs : List Call} (hd : ∀ name, Document ⟨p.sect, name⟩ ts cs) :
    Document p (e.rows.map asLine ++ ts) (e.calls p.sect ++ cs) := by
  have hr : Reads (decide (p.prevName ≠ []))
      ([] ++ (e.name ++ ([] ++ '='.toUInt8 :: ([] ++ (e.value ++ [newline]))))) (.entry e.name e.value) :=
    .entry blank_nil (fun _ => rfl) h.name.margin h.name.bracket h.stripped h.name.plain blank_nil
      (fun _ => rfl) (.inl rfl) blank_nil h.flush h.value h.plain (.inl blank_newline)
  have hrow : asLine (e.name ++ '='.toUInt8 :: e.value) =
      [] ++ (e.name ++ ([] ++ '='.toUInt8 :: ([] ++ (e.value ++ [newline])))) := by
    simp only [asLine, List.append_assoc, List.nil_append, List.cons_append]
  rw [Entry.rows, Entry.calls, List.map_cons, hrow]
  apply Document.entry hr
  by_cases hm : e.more = []
  · rw [hm]
    exact hd _
  · obtain ⟨hne, hlen⟩ := h.kept hm
    rw [List.take_of_length_le hlen]
    exact document_more (fun _ => hne) h.more (hd _)

/-- The entries of a section. -/
theorem document_entries {sect : List UInt8} {es : List Entry} (h : ∀ e ∈ es, e.Writable)
    {ts : List (List UInt8)} {cs : List Call} (hd : ∀ name, Document ⟨sect, name⟩ ts cs)
    (name : List UInt8) :
    Document ⟨sect, name⟩ ((es.flatMap Entry.rows).map asLine ++ ts) (es.flatMap (Entry.calls sect) ++ cs) := by
  induction es generalizing name with
  | nil => exact hd name
  | cons e es ih =>
    rw [List.flatMap_cons, List.flatMap_cons, List.map_append, List.append_assoc, List.append_assoc]
    exact document_entry (p := ⟨sect, name⟩) (h e List.mem_cons_self)
      (ih fun e' h' => h e' (List.mem_cons_of_mem e h'))

/-- The sections. -/
theorem document_write {doc : List Section} (h : ∀ s ∈ doc, s.Writable) (p : Place) :
    Document p ((doc.flatMap Section.rows).map asLine) (doc.flatMap Section.calls) := by
  induction doc generalizing p with
  | nil => exact .nil
  | cons s doc ih =>
    have hs := h s List.mem_cons_self
    have hr : Reads (decide (p.prevName ≠ []))
        ([] ++ '['.toUInt8 :: (s.name ++ ']'.toUInt8 :: [newline])) (.header s.name) :=
      .header blank_nil (fun _ => rfl) hs.name.plain
    have hrow : asLine s.header = [] ++ '['.toUInt8 :: (s.name ++ ']'.toUInt8 :: [newline]) := by
      simp only [asLine, Section.header, List.append_assoc, List.nil_append, List.cons_append]
    rw [List.flatMap_cons, List.flatMap_cons, Section.rows, List.cons_append, List.map_cons,
      List.map_append, hrow]
    apply Document.header hr
    rw [List.take_of_length_le hs.name.length_le]
    exact document_entries hs.entries
      (fun name => ih (fun s' h' => h s' (List.mem_cons_of_mem s h')) ⟨s.name, name⟩) []

/-- The lines of a file that has been written. -/
theorem texts_write {doc : List Section} (h : ∀ s ∈ doc, s.Writable) :
    texts (write doc) = (doc.flatMap Section.rows).map asLine := by
  have hrows : ∀ r ∈ doc.flatMap Section.rows, Row r := by
    intro r hr
    obtain ⟨s, hs, hr⟩ := List.mem_flatMap.mp hr
    exact (h s hs).row r hr
  have hhead : ∀ r ∈ (doc.flatMap Section.rows).head?, r.head? ≠ some 0xEF := by
    intro r hr
    cases doc with
    | nil => cases hr
    | cons s doc =>
      cases hr
      exact fun h => absurd (Option.some.inj h) (by decide)
  have ht := textsFrom_rows hrows (b := true) (fun _ => hhead) []
  rw [List.append_nil, lines_nil, textsFrom, List.append_nil] at ht
  exact ht

theorem document_file {doc : List Section} (h : ∀ s ∈ doc, s.Writable) :
    Document Place.start (texts (write doc)) (doc.flatMap Section.calls) := by
  rw [texts_write h]
  exact document_write h Place.start

/-- **Write and read.** A file that has been written is read without an error, and the handler is
called for each part of each value in it, in their order. -/
theorem parse_write (doc : List Section) (h : ∀ s ∈ doc, s.Writable) :
    iniParse (some (write doc)) Handler.log [] = (0, doc.flatMap Section.calls) := by
  rw [parse_of_document (fun _ _ _ _ => rfl) (document_file h), Handler.run_log, List.nil_append]

end Syinx.Ini
