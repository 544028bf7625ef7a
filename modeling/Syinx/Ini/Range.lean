import Syinx.Ini.Writing

/-!
# What the handler can be told

A file may be anything: what is handed to the handler is not. No byte of a section, a name or a
value ends a line or a string, spaces have been stripped from names and values, and a value that
stands behind `=` has no comment in it. A section has 49 bytes at most. So has a name that is
handed on to the next line, and as it is cut there, it may end with a space then.

## What is proved

* `mem_calls_iff` — exactly which sections, names and values the handler is called with, for
  some file.
-/

namespace Syinx.Ini

open Syinx.Library

/-- What is kept of a name for the next lines. -/
structure KeptName (s : List UInt8) : Prop where
  name : Name s
  ne_nil : s ≠ []
  length_le : s.length ≤ 49
  /-- If it has not been cut. -/
  stripped : s.length < 49 → Stripped s

/-- What the handler can be called with. -/
inductive Callable : Call → Prop where
  /-- For a line with a name. -/
  | entry {sect name value : List UInt8} :
      SectionName sect → Name name → Stripped name →
      Flush value → Stripped value → Plain [] false value → OneLine value →
      name.length + value.length ≤ 198 → Callable ⟨sect, name, value⟩
  /-- For a line that goes on with the value of the one before it. -/
  | more {sect name value : List UInt8} :
      SectionName sect → KeptName name →
      value ≠ [] → OnMargin value → Stripped value → OneLine value →
      value.length ≤ 198 → Callable ⟨sect, name, value⟩

/-! ### The string of a line -/

/-- What `ini_parse` sees of a line. -/
structure LineText (t : List UInt8) : Prop where
  length_le : t.length ≤ 199
  zero : 0 ∉ t
  /-- A newline is the last byte. -/
  last : newline ∉ t.dropLast

/-- A part of the string of a line. -/
theorem LineText.part {a x b : List UInt8} (h : LineText (a ++ (x ++ b))) :
    LineText x ∧ (b ≠ [] → OneLine x) := by
  have hlen := h.length_le
  rw [List.length_append, List.length_append] at hlen
  have hzero : 0 ∉ x := fun hx =>
    h.zero (List.mem_append_right a (List.mem_append_left b hx))
  have hb : b ≠ [] → newline ∉ x := by
    intro hb hx
    apply h.last
    rw [List.dropLast_append_of_ne_nil (by simp [hb]), List.dropLast_append_of_ne_nil hb]
    exact List.mem_append_right a (List.mem_append_left _ hx)
  refine ⟨⟨by omega, hzero, fun hx => ?_⟩, fun hne => ⟨hb hne, hzero⟩⟩
  by_cases hne : b = []
  · subst hne
    apply h.last
    rw [List.append_nil, List.dropLast_append_of_ne_nil (by rintro rfl; exact absurd hx (by simp))]
    exact List.mem_append_right a hx
  · exact hb hne (List.dropLast_subset _ hx)

/-- The newline of a line is stripped. -/
theorem LineText.oneLine {t : List UInt8} (h : LineText t) (hs : Stripped t) : OneLine t := by
  refine ⟨fun hmem => ?_, h.zero⟩
  have hne : t ≠ [] := List.ne_nil_of_mem hmem
  rw [← List.dropLast_append_getLast hne] at hmem
  rcases List.mem_append.mp hmem with hd | hl
  · exact h.last hd
  · have hspace := hs _ (List.getLast?_eq_some_getLast hne)
    rw [← List.mem_singleton.mp hl] at hspace
    cases hspace

theorem lineText_textOf {first : Bool} {line : List UInt8} (hlen : line.length ≤ 199)
    (hnl : newline ∉ line.dropLast) : LineText (textOf first line) := by
  have htake : LineText (line.takeWhile (· ≠ 0)) := by
    have hsplit := List.takeWhile_append_dropWhile (p := (· ≠ (0 : UInt8))) (l := line)
    refine ⟨(List.takeWhile_prefix _).length_le.trans hlen, fun h0 => ?_, fun hmem => hnl ?_⟩
    · simpa using List.mem_takeWhile_imp h0
    · by_cases hd : line.dropWhile (· ≠ 0) = []
      · rw [hd, List.append_nil] at hsplit
        rwa [hsplit] at hmem
      · rw [← hsplit, List.dropLast_append_of_ne_nil hd]
        exact List.mem_append_left _ (List.dropLast_subset _ hmem)
  unfold textOf
  dsimp only
  split_ifs
  · have h := LineText.part (a := (line.takeWhile (· ≠ 0)).take 3)
      (x := (line.takeWhile (· ≠ 0)).drop 3) (b := []) (by rwa [List.append_nil, List.take_append_drop])
    exact h.1
  · exact htake

theorem lineText_of_mem {file t : List UInt8} (h : t ∈ texts file) : LineText t := by
  have hfrom : ∀ (ls : List (List UInt8)) (b : Bool), t ∈ textsFrom b ls →
      ∃ l ∈ ls, ∃ b', t = textOf b' l := by
    intro ls
    induction ls with
    | nil => exact fun b hb => absurd hb List.not_mem_nil
    | cons l ls ih =>
      intro b hb
      rcases List.mem_cons.mp hb with hb | hb
      · exact ⟨l, List.mem_cons_self, b, hb⟩
      · obtain ⟨l', hl', h'⟩ := ih false hb
        exact ⟨l', List.mem_cons_of_mem l hl', h'⟩
  obtain ⟨l, hl, b, rfl⟩ := hfrom _ _ h
  obtain ⟨-, hlen, q, hq, hl'⟩ := mem_lines (by decide) hl
  apply lineText_textOf hlen
  rcases hl' with rfl | rfl
  · exact fun hmem => hq (List.dropLast_subset _ hmem)
  · rwa [List.dropLast_concat]

/-! ### What is read can be called with -/

/-- A name that has been cut. -/
theorem Name.take {s : List UInt8} (h : Name s) (n : ℕ) : Name (s.take n) := by
  have hhead : ∀ c ∈ (s.take n).head?, s.head? = some c := by
    intro c hc
    cases n with
    | zero => cases hc
    | succ n =>
      cases s with
      | nil => cases hc
      | cons b s => exact hc
  have hplain := h.plain
  have hone := h.oneLine
  rw [← List.take_append_drop n s] at hplain hone
  exact ⟨fun c hc => h.margin c (hhead c hc), fun hb => h.bracket (hhead _ hb),
    (plain_append.mp hplain).1, hone.of_append⟩

/-- What is kept of a name, if anything is. -/
theorem Name.kept {s : List UInt8} (h : Name s) (hs : Stripped s) (hne : s.take 49 ≠ []) :
    KeptName (s.take 49) := by
  refine ⟨h.take 49, hne, List.length_take_le 49 s, fun hlt => ?_⟩
  rw [List.length_take] at hlt
  rw [List.take_of_length_le (by omega)]
  exact hs

theorem Plain.of_true {chars s : List UInt8} {w : Bool} (h : Plain chars w s) :
    Plain chars false s := by
  cases s with
  | nil => trivial
  | cons c s => exact ⟨⟨h.1.1, fun hf => Bool.false_ne_true hf.1⟩, h.2⟩

/-- What is known of `section` and `prev_name`. -/
structure Place.Kept (p : Place) : Prop where
  sect : SectionName p.sect
  prevName : p.prevName ≠ [] → KeptName p.prevName

theorem Place.kept_start : Place.start.Kept :=
  ⟨⟨trivial, ⟨List.not_mem_nil, List.not_mem_nil⟩, Nat.zero_le 49⟩, fun h => absurd rfl h⟩

/-- What is known of a line with a name. -/
theorem Reads.entry_parts {named : Bool} {text name value : List UInt8}
    (h : Reads named text (.entry name value)) (ht : LineText text) :
    Name name ∧ Stripped name ∧ Flush value ∧ Stripped value ∧ Plain [] false value ∧
      OneLine value ∧ name.length + value.length ≤ 198 := by
  cases h with
  | @entry pad _ gap sep lead _ tail hpad hnamed hmargin hbracket hname hplain hgap hempty hsep hlead
      hflush hvalue hvplain htail =>
    have hlen := ht.length_le
    simp only [List.length_append, List.length_cons] at hlen
    have hone : OneLine name := ht.part.2 (by simp)
    have htv : LineText ((pad ++ name ++ gap ++ [sep] ++ lead) ++ (value ++ tail)) := by
      simpa only [List.append_assoc, List.cons_append, List.nil_append] using ht
    exact ⟨⟨hmargin, hbracket, hplain, hone⟩, hname, hflush, hvalue,
      (plain_append.mp hvplain).2.of_true, htv.part.1.oneLine hvalue, by omega⟩

/-- What a line does to the place, and what the handler is called with for it. -/
theorem Place.Kept.step {p : Place} (hp : p.Kept) {text : List UInt8} (ht : LineText text) {e : Event}
    (hr : e ≠ .bad → Reads (p.prevName ≠ []) text e) :
    (p.next e).Kept ∧ ∀ c, p.outcome e = .calls c → Callable c := by
  cases e with
  | nothing => exact ⟨hp, fun c hc => by cases hc⟩
  | bad => exact ⟨hp, fun c hc => by cases hc⟩
  | header name =>
    cases hr (by simp) with
    | @header pad _ tail hpad hnamed hplain =>
      have hone : OneLine name := by
        have h : LineText ((pad ++ ['['.toUInt8]) ++ (name ++ ']'.toUInt8 :: tail)) := by
          simpa only [List.append_assoc, List.cons_append, List.nil_append] using ht
        exact h.part.2 (List.cons_ne_nil _ _)
      rw [← List.take_append_drop 49 name] at hplain hone
      refine ⟨⟨⟨(plain_append.mp hplain).1, hone.of_append, ?_⟩, fun h => absurd rfl h⟩,
        fun c hc => by cases hc⟩
      exact (List.length_take_le 49 name)
  | entry name value =>
    obtain ⟨hname, hstrip, hflush, hvalue, hplain, hone, hlen⟩ := (hr (by simp)).entry_parts ht
    refine ⟨⟨hp.sect, fun hne => hname.kept hstrip hne⟩, ?_⟩
    rintro c ⟨⟩
    exact .entry hp.sect hname hstrip hflush hvalue hplain hone hlen
  | more value =>
    cases hr (by simp) with
    | @more pad _ tail hnamed hpad hne htail hvne hmargin hvalue =>
      have hlen := ht.length_le
      rw [List.length_append, List.length_append] at hlen
      have hpos := List.length_pos_iff.mpr hne
      refine ⟨hp, ?_⟩
      rintro c ⟨⟩
      exact .more hp.sect (hp.prevName (of_decide_eq_true hnamed)) hvne hmargin hvalue
        (ht.part.1.oneLine hvalue) (by omega)

/-- All calls for the lines from a place on. -/
theorem callable_of_outcomes {ts : List (List UInt8)} (ht : ∀ t ∈ ts, LineText t) {p : Place}
    (hp : p.Kept) {c : Call} (h : .calls c ∈ p.outcomes ts) : Callable c := by
  induction ts generalizing p with
  | nil => exact absurd h List.not_mem_nil
  | cons t ts ih =>
    obtain ⟨hnext, hcall⟩ := hp.step (ht t List.mem_cons_self) (e := p.event t) reads_of_event
    rcases List.mem_cons.mp h with h | h
    · exact hcall c h.symm
    · exact ih (fun t' h' => ht t' (List.mem_cons_of_mem t h')) hnext h

/-! ### What can be called with is read -/

/-- The calls for a file, as a handler hears of them. -/
theorem parse_log (file : List UInt8) : (iniParse (some file) Handler.log []).2 = calls file := by
  rw [parse_spec, Handler.run_log]
  rfl

theorem mem_calls {file : List UInt8} {c : Call} : c ∈ calls file ↔ .calls c ∈ outcomes file := by
  unfold calls
  rw [List.mem_filterMap]
  constructor
  · rintro ⟨o, ho, hc⟩
    cases o with
    | calls d =>
      cases hc
      exact ho
    | quiet => cases hc
    | bad => cases hc
  · intro h
    exact ⟨.calls c, h, rfl⟩

/-- A name of which this is kept. -/
theorem KeptName.exists_name {s : List UInt8} (h : KeptName s) :
    ∃ name, Name name ∧ Stripped name ∧ name.take 49 = s ∧ name.length ≤ 50 := by
  have hlen := h.length_le
  by_cases hs : Stripped s
  · exact ⟨s, h.name, hs, List.take_of_length_le hlen, by omega⟩
  have hlen' : s.length = 49 := by
    by_contra hne
    exact hs (h.stripped (by omega))
  have hhead : (s ++ ['x'.toUInt8]).head? = s.head? := by
    obtain ⟨c, rest, rfl⟩ := List.exists_cons_of_ne_nil h.ne_nil
    rfl
  refine ⟨s ++ ['x'.toUInt8], ⟨?_, ?_, ?_, ?_⟩, ?_, ?_, ?_⟩
  · unfold OnMargin
    rw [hhead]
    exact h.name.margin
  · rw [hhead]
    exact h.name.bracket
  · refine plain_append.mpr ⟨h.name.plain, ⟨by decide, fun hc => absurd hc.2 (by decide)⟩, trivial⟩
  · exact h.name.oneLine.append (oneLine_singleton (by decide) (by decide))
  · exact (stripped_append (List.cons_ne_nil _ _)).mpr (by decide)
  · rw [← hlen', List.take_left]
  · rw [List.length_append, hlen']
    exact Nat.le_refl 50

/-- The lines of a file of rows, and a last line without its end. -/
theorem texts_last (rows : List (List UInt8)) {last : List UInt8} (h : ∀ r ∈ rows, Row r)
    (hne : rows ≠ []) (hb : ∀ r ∈ rows.head?, r.head? ≠ some 0xEF) (hlast : OneLine last)
    (h0 : last ≠ []) (hlen : last.length ≤ 199) :
    texts (rows.flatMap asLine ++ last) = rows.map asLine ++ [last] := by
  have hzero : last.takeWhile (· ≠ 0) = last := by
    rw [List.takeWhile_eq_self_iff]
    intro c hc
    rw [decide_eq_true_eq]
    rintro rfl
    exact hlast.2 hc
  have hempty : (true && rows.isEmpty) = false := by
    rw [Bool.true_and]
    exact List.isEmpty_eq_false_iff.mpr hne
  have hlines : lines newline (iniMaxLine - 1) last = [last] := lines_last hlast.1 h0 hlen
  have ht := textsFrom_rows h (b := true) (fun _ => hb) last
  rw [hlines, hempty] at ht
  refine ht.trans (congrArg _ ?_)
  simp only [textsFrom, textOf, hzero, Bool.false_eq_true, false_and, if_false]

/-- The row of a section. -/
theorem SectionName.row {s : List UInt8} (h : SectionName s) : Row (Section.header ⟨s, []⟩) :=
  Section.Writable.row (s := ⟨s, []⟩) ⟨h, fun _ he => absurd he List.not_mem_nil⟩ _ List.mem_cons_self

theorem SectionName.reads {s : List UInt8} (h : SectionName s) (named : Bool) :
    Reads named (asLine (Section.header ⟨s, []⟩)) (.header s) := by
  have hr : Reads named ([] ++ '['.toUInt8 :: (s ++ ']'.toUInt8 :: [newline])) (.header s) :=
    .header blank_nil (fun _ => rfl) h.plain
  have hrow : asLine (Section.header ⟨s, []⟩) =
      [] ++ '['.toUInt8 :: (s ++ ']'.toUInt8 :: [newline]) := by
    simp only [asLine, Section.header, List.append_assoc, List.nil_append, List.cons_append]
  rwa [hrow]

theorem mem_calls_of_document {file : List UInt8} {ts : List (List UInt8)} {cs : List Call} {c : Call}
    (ht : texts file = ts) (h : Document Place.start ts cs) (hc : c ∈ cs) : c ∈ calls file := by
  subst ht
  have hcalls : calls file = cs := (document_iff.mp h).2
  rwa [hcalls]

/-- A file with this one call. -/
theorem exists_file_entry {sect name value : List UInt8} (hsect : SectionName sect) (hname : Name name)
    (hstrip : Stripped name) (hflush : Flush value) (hvalue : Stripped value)
    (hplain : Plain [] false value) (hone : OneLine value)
    (hlen : name.length + value.length ≤ 198) :
    ∃ file, (⟨sect, name, value⟩ : Call) ∈ calls file := by
  have hlast : OneLine (name ++ '='.toUInt8 :: value) :=
    hname.oneLine.append ((oneLine_singleton (c := '='.toUInt8) (by decide) (by decide)).append hone)
  have ht := texts_last [Section.header ⟨sect, []⟩]
    (fun r hr => List.mem_singleton.mp hr ▸ hsect.row) (List.cons_ne_nil _ _)
    (fun r hr => by cases hr; exact fun h => absurd (Option.some.inj h) (by decide)) hlast (by simp)
    (by rw [List.length_append, List.length_cons]; omega)
  have hr : Reads false ([] ++ (name ++ ([] ++ '='.toUInt8 :: ([] ++ (value ++ [])))))
      (.entry name value) :=
    .entry blank_nil (fun _ => rfl) hname.margin hname.bracket hstrip hname.plain blank_nil
      (fun _ => rfl) (.inl rfl) blank_nil hflush hvalue hplain (.inl blank_nil)
  simp only [List.nil_append, List.append_nil] at hr
  have hd : Document Place.start
      ([Section.header ⟨sect, []⟩].map asLine ++ [name ++ '='.toUInt8 :: value])
      [⟨sect.take 49, name, value⟩] := .header (hsect.reads _) (.entry hr .nil)
  rw [List.take_of_length_le hsect.length_le] at hd
  exact ⟨_, mem_calls_of_document ht hd List.mem_cons_self⟩

/-- A file with this call, for a line that goes on. -/
theorem exists_file_more {sect name value : List UInt8} (hsect : SectionName sect)
    (hname : KeptName name) (hne : value ≠ []) (hmargin : OnMargin value) (hvalue : Stripped value)
    (hone : OneLine value) (hlen : value.length ≤ 198) :
    ∃ file, (⟨sect, name, value⟩ : Call) ∈ calls file := by
  obtain ⟨full, hfull, hstrip, htake, hfulllen⟩ := hname.exists_name
  have hentry : Entry.Writable ⟨full, [], []⟩ :=
    ⟨hfull, hstrip, flush_nil, stripped_nil, trivial, ⟨List.not_mem_nil, List.not_mem_nil⟩,
      show full.length + 0 ≤ 197 by omega, fun h => absurd rfl h, fun v hv => absurd hv List.not_mem_nil⟩
  have hrow : Row (full ++ ['='.toUInt8]) := hentry.row _ List.mem_cons_self
  have hlast : OneLine (' '.toUInt8 :: value) :=
    (oneLine_singleton (c := ' '.toUInt8) (by decide) (by decide)).append hone
  have ht := texts_last [Section.header ⟨sect, []⟩, full ++ ['='.toUInt8]]
    (fun r hr => by
      rcases List.mem_cons.mp hr with rfl | hr
      · exact hsect.row
      · exact List.mem_singleton.mp hr ▸ hrow)
    (List.cons_ne_nil _ _)
    (fun r hr => by cases hr; exact fun h => absurd (Option.some.inj h) (by decide)) hlast
    (List.cons_ne_nil _ _) (Nat.succ_le_succ hlen)
  have hr : Reads false ([] ++ (full ++ ([] ++ '='.toUInt8 :: ([] ++ ([] ++ [newline])))))
      (.entry full []) :=
    .entry blank_nil (fun _ => rfl) hfull.margin hfull.bracket hstrip hfull.plain blank_nil
      (fun _ => rfl) (.inl rfl) blank_nil flush_nil stripped_nil trivial (.inl blank_newline)
  have hm : Reads (decide (name ≠ [])) ([' '.toUInt8] ++ (value ++ [])) (.more value) :=
    .more (decide_eq_true hname.ne_nil) (by decide) (by decide) blank_nil hne hmargin hvalue
  rw [List.append_nil] at hm
  have htext : asLine (full ++ ['='.toUInt8]) =
      [] ++ (full ++ ([] ++ '='.toUInt8 :: ([] ++ ([] ++ [newline])))) := by
    simp only [asLine, List.append_assoc, List.nil_append, List.cons_append]
  rw [← htext] at hr
  have hd : Document Place.start
      ([Section.header ⟨sect, []⟩, full ++ ['='.toUInt8]].map asLine ++ [' '.toUInt8 :: value])
      [⟨sect.take 49, full, []⟩, ⟨sect.take 49, full.take 49, value⟩] :=
    .header (hsect.reads _) (.entry hr (by rw [htake]; exact .more hm .nil))
  rw [List.take_of_length_le hsect.length_le, htake] at hd
  exact ⟨_, mem_calls_of_document ht hd (List.mem_cons_of_mem _ List.mem_cons_self)⟩

/-- **What the handler can be told.** There is a file for which it is called with these, if and
only if they are as a file can say them. -/
theorem mem_calls_iff (c : Call) :
    (∃ file, c ∈ (iniParse (some file) Handler.log []).2) ↔ Callable c := by
  simp only [parse_log]
  constructor
  · rintro ⟨file, h⟩
    exact callable_of_outcomes (fun t => lineText_of_mem) Place.kept_start (mem_calls.mp h)
  · intro h
    cases h with
    | entry hsect hname hstrip hflush hvalue hplain hone hlen =>
      exact exists_file_entry hsect hname hstrip hflush hvalue hplain hone hlen
    | more hsect hname hne hmargin hvalue hone hlen =>
      exact exists_file_more hsect hname hne hmargin hvalue hone hlen

end Syinx.Ini
