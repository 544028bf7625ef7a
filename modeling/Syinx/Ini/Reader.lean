import Syinx.Ini.Range
import Syinx.Library.SortedMap

/-!
# The reader

`INIReader` keeps what `ini_parse` calls its handler with in a `std::map`, under a key that is made
of the section and the name. A `std::string` is the list of its bytes, and the map is ordered by
them. `GetReal` is left out.

`GetInteger` and `GetBoolean` look a string up by `Get` and read it (`Syinx.Ini.Number`), and the
constructor for a buffer is that of `Syinx.Ini.Buffer`.

## What is proved

* `find_values` — what is kept under a key: the values for it, one a line, behind the empty ones
  at the beginning.
* `lookup_eq`, `hasSection_iff` — **what the reader finds**, from the calls of the handler.
* `get_write` — what has been written is found.
-/

namespace Syinx.Ini

open Syinx.Library

/-- Strings are ordered by their bytes, without a sign. -/
instance linearOrderUInt8 : LinearOrder UInt8 where
  le_refl a := UInt8.le_refl a
  le_trans _ _ _ h h' := UInt8.le_trans h h'
  le_antisymm _ _ h h' := UInt8.le_antisymm h h'
  le_total a b := UInt8.le_total a b
  lt_iff_le_not_ge a b := by
    rw [UInt8.lt_iff_toNat_lt, UInt8.le_iff_toNat_le, UInt8.le_iff_toNat_le]
    omega
  toDecidableLE := inferInstance

/-- `_values`. -/
abbrev Values := SortedMap (List UInt8) (List UInt8)

/-- `INIReader`. -/
structure INIReader where
  /-- `_error`. -/
  error : ℤ
  /-- `_values`. -/
  values : Values

namespace INIReader

/-- `MakeKey`. -/
def makeKey (sect name : List UInt8) : List UInt8 := (sect ++ '='.toUInt8 :: name).map tolower

/-- What is kept of the values so far, and the next one. -/
def addLine (old value : List UInt8) : List UInt8 :=
  (if old.length > 0 then old ++ [newline] else old) ++ value

/-- `ValueHandler`. The reference to `_values[key]` makes an entry of an empty string. -/
def valueHandler : Handler Values := fun reader sect name value =>
  (true, reader.update (makeKey sect name) fun old => addLine (old.getD []) value)

/-- `INIReader(filename)`. -/
def ofFile (file : Option (List UInt8)) : INIReader :=
  let r := iniParse file valueHandler .empty
  ⟨r.1, r.2⟩

/-- `Get`. -/
def get (r : INIReader) (sect name default_value : List UInt8) : List UInt8 :=
  (r.values.find (makeKey sect name)).getD default_value

/-- `GetString`. -/
def getString (r : INIReader) (sect name default_value : List UInt8) : List UInt8 :=
  let str := r.get sect name []
  if str = [] then default_value else str

/-- `HasSection`. -/
def hasSection (r : INIReader) (sect : List UInt8) : Bool :=
  let key := makeKey sect []
  match r.values.lowerBound key with
  | none => false
  | some pos => pos.1.take key.length = key

/-- `HasValue`. -/
def hasValue (r : INIReader) (sect name : List UInt8) : Bool :=
  (r.values.find (makeKey sect name)).isSome

end INIReader

/-! ### Keys -/

theorem tolower_eq_sep (c : UInt8) : tolower c = '='.toUInt8 ↔ c = '='.toUInt8 := by
  have h61 : ('='.toUInt8).toNat = 61 := rfl
  unfold tolower
  split_ifs with h
  · obtain ⟨h1, h2⟩ := h
    rw [UInt8.le_iff_toNat_le] at h1 h2
    have h65 : (65 : UInt8).toNat = 65 := rfl
    have h90 : (90 : UInt8).toNat = 90 := rfl
    have h32 : (c + 32).toNat = (c.toNat + 32) % 256 := UInt8.toNat_add c 32
    constructor
    · intro h'
      rw [h', h61] at h32
      omega
    · rintro rfl
      omega
  · exact Iff.rfl

theorem sep_mem_map_tolower {s : List UInt8} : '='.toUInt8 ∈ s.map tolower ↔ '='.toUInt8 ∈ s := by
  rw [List.mem_map]
  constructor
  · rintro ⟨c, hc, h⟩
    rwa [← (tolower_eq_sep c).mp h]
  · intro h
    exact ⟨_, h, (tolower_eq_sep _).mpr rfl⟩

/-- The same bytes, but for upper and lower case. -/
def SameName (s t : List UInt8) : Prop := s.map tolower = t.map tolower

instance (s t : List UInt8) : Decidable (SameName s t) :=
  inferInstanceAs (Decidable (s.map tolower = t.map tolower))

theorem makeKey_eq (sect name : List UInt8) :
    INIReader.makeKey sect name = sect.map tolower ++ '='.toUInt8 :: name.map tolower := by
  unfold INIReader.makeKey
  rw [List.map_append, List.map_cons, (tolower_eq_sep _).mpr rfl]

/-- Where a list is parted by what does not come again. -/
theorem prefix_append_cons_iff {α : Type*} {x : α} {p s n : List α} (hx : x ∉ n) :
    p ++ [x] <+: s ++ x :: n ↔ p ++ [x] <+: s ++ [x] := by
  constructor
  · rintro ⟨t, ht⟩
    rw [List.append_assoc, List.singleton_append] at ht
    rcases List.append_eq_append_iff.mp ht with ⟨a, hs, hxt⟩ | ⟨c, hp, hxn⟩
    · cases a with
      | nil =>
        rw [List.append_nil] at hs
        exact hs ▸ List.prefix_rfl
      | cons y a =>
        obtain ⟨rfl, -⟩ := List.cons.inj hxt
        rw [hs]
        exact ⟨a ++ [x], by simp only [List.append_assoc, List.cons_append, List.nil_append]⟩
    · cases c with
      | nil =>
        rw [List.append_nil] at hp
        exact hp ▸ List.prefix_rfl
      | cons y c =>
        obtain ⟨-, hn⟩ := List.cons.inj hxn
        exact absurd (hn ▸ List.mem_append_right c List.mem_cons_self) hx
  · intro h
    exact h.trans ⟨n, by rw [List.append_assoc, List.singleton_append]⟩

/-- **Keys.** Different names have different keys. -/
theorem makeKey_inj {sect sect' name name' : List UInt8} (h : '='.toUInt8 ∉ name)
    (h' : '='.toUInt8 ∉ name') :
    INIReader.makeKey sect name = INIReader.makeKey sect' name' ↔
      SameName sect sect' ∧ SameName name name' := by
  rw [makeKey_eq, makeKey_eq]
  constructor
  · intro hk
    have hn := fun hm => h (sep_mem_map_tolower.mp hm)
    have hn' := fun hm => h' (sep_mem_map_tolower.mp hm)
    have h1 : sect.map tolower ++ ['='.toUInt8] <+: sect'.map tolower ++ ['='.toUInt8] := by
      rw [← prefix_append_cons_iff hn', ← hk]
      exact (prefix_append_cons_iff hn).mpr List.prefix_rfl
    have h2 : sect'.map tolower ++ ['='.toUInt8] <+: sect.map tolower ++ ['='.toUInt8] := by
      rw [← prefix_append_cons_iff hn, hk]
      exact (prefix_append_cons_iff hn').mpr List.prefix_rfl
    have hs := List.append_cancel_right (h1.eq_of_length (Nat.le_antisymm h1.length_le h2.length_le))
    rw [hs] at hk
    exact ⟨hs, (List.cons.inj (List.append_cancel_left hk)).2⟩
  · rintro ⟨hs, hn⟩
    rw [hs, hn]

/-! ### What is kept -/

/-- The values under a key. -/
def valuesOf (cs : List Call) (key : List UInt8) : List (List UInt8) :=
  (cs.filter fun c => INIReader.makeKey c.sect c.name = key).map Call.value

theorem valuesOf_cons (c : Call) (cs : List Call) (key : List UInt8) :
    valuesOf (c :: cs) key =
      if INIReader.makeKey c.sect c.name = key then c.value :: valuesOf cs key else valuesOf cs key := by
  unfold valuesOf
  rw [List.filter_cons]
  by_cases hk : INIReader.makeKey c.sect c.name = key
  · rw [if_pos (decide_eq_true hk), if_pos hk, List.map_cons]
  · rw [if_neg (by rwa [decide_eq_true_eq]), if_neg hk]

/-- The values for a key, one a line, behind the empty ones at the beginning. -/
def joined (vs : List (List UInt8)) : List UInt8 := [newline].intercalate (vs.dropWhile List.isEmpty)

theorem foldl_addLine_of_ne_nil {acc : List UInt8} (h : acc ≠ []) (vs : List (List UInt8)) :
    vs.foldl INIReader.addLine acc = acc ++ vs.flatMap (newline :: ·) := by
  induction vs generalizing acc with
  | nil => exact (List.append_nil acc).symm
  | cons v vs ih =>
    have hadd : INIReader.addLine acc v = acc ++ newline :: v := by
      rw [INIReader.addLine, if_pos (List.length_pos_iff.mpr h), List.append_assoc,
        List.singleton_append]
    rw [List.foldl_cons, hadd, ih (by simp), List.flatMap_cons, List.append_assoc]

theorem intercalate_cons (v : List UInt8) (vs : List (List UInt8)) :
    [newline].intercalate (v :: vs) = v ++ vs.flatMap (newline :: ·) := by
  induction vs generalizing v with
  | nil => simp
  | cons w vs ih => rw [List.intercalate_cons_cons, ih, List.flatMap_cons]; simp

theorem foldl_addLine (vs : List (List UInt8)) : vs.foldl INIReader.addLine [] = joined vs := by
  induction vs with
  | nil => rfl
  | cons v vs ih =>
    have hadd : INIReader.addLine [] v = v := rfl
    rw [List.foldl_cons, hadd]
    by_cases hv : v = []
    · subst hv
      exact ih
    · have hj : joined (v :: vs) = [newline].intercalate (v :: vs) := by
        unfold joined
        rw [List.dropWhile_cons_of_neg (by simpa using hv)]
      rw [foldl_addLine_of_ne_nil hv, hj, intercalate_cons]

theorem joined_eq_nil_iff {vs : List (List UInt8)} : joined vs = [] ↔ ¬ ∃ v ∈ vs, v ≠ [] := by
  rw [← foldl_addLine]
  induction vs with
  | nil => simp
  | cons v vs ih =>
    have hadd : INIReader.addLine [] v = v := rfl
    rw [List.foldl_cons, hadd]
    by_cases hv : v = []
    · subst hv
      rw [ih]
      simp
    · rw [foldl_addLine_of_ne_nil hv]
      exact iff_of_false (fun h => hv (List.append_eq_nil_iff.mp h).1)
        (not_not.mpr ⟨v, List.mem_cons_self, hv⟩)

/-- **What is kept** under a key, after some calls. -/
theorem find_run (m : Values) (cs : List Call) (key : List UInt8) :
    (INIReader.valueHandler.run m cs).find key =
      if valuesOf cs key = [] then m.find key
      else some ((valuesOf cs key).foldl INIReader.addLine ((m.find key).getD [])) := by
  induction cs generalizing m with
  | nil => rfl
  | cons c cs ih =>
    have hrun : INIReader.valueHandler.run m (c :: cs) = INIReader.valueHandler.run
        (m.update (INIReader.makeKey c.sect c.name) fun old => INIReader.addLine (old.getD []) c.value)
        cs := rfl
    rw [hrun, ih, SortedMap.find_update]
    rw [valuesOf_cons]
    by_cases hk : INIReader.makeKey c.sect c.name = key
    · rw [if_pos hk, if_neg (List.cons_ne_nil _ _), if_pos hk.symm, hk, List.foldl_cons, Option.getD_some]
      by_cases hn : valuesOf cs key = []
      · rw [if_pos hn, hn]
        rfl
      · rw [if_neg hn]
    · rw [if_neg hk, if_neg (Ne.symm hk)]

/-- **What is kept** of a file under a key. -/
theorem find_values (file key : List UInt8) :
    (INIReader.ofFile (some file)).values.find key =
      if valuesOf (calls file) key = [] then none else some (joined (valuesOf (calls file) key)) := by
  have h := find_run .empty (calls file) key
  rw [SortedMap.find_empty, Option.getD_none, foldl_addLine] at h
  rw [← h]
  unfold INIReader.ofFile
  rw [parse_spec]

/-! ### What is found -/

theorem Plain.notMem {chars s : List UInt8} {w : Bool} (h : Plain chars w s) {c : UInt8}
    (hc : c ∈ chars) : c ∉ s := by
  induction s generalizing w with
  | nil => exact List.not_mem_nil
  | cons b s ih =>
    intro hmem
    rcases List.mem_cons.mp hmem with rfl | hmem
    · exact h.1.1 hc
    · exact ih h.2 hmem

/-- No name has `=` in it. -/
theorem sep_notMem_name {file : List UInt8} {c : Call} (h : c ∈ calls file) :
    '='.toUInt8 ∉ c.name := by
  cases callable_of_outcomes (fun _ => lineText_of_mem) Place.kept_start (mem_calls.mp h) with
  | entry _ hname => exact hname.plain.notMem (by decide)
  | more _ hname => exact hname.name.plain.notMem (by decide)

/-- The values that a file has for a name in a section. -/
def given (file sect name : List UInt8) : List (List UInt8) :=
  ((calls file).filter fun c => SameName c.sect sect ∧ SameName c.name name).map Call.value

theorem valuesOf_makeKey (file : List UInt8) {sect name : List UInt8} (h : '='.toUInt8 ∉ name) :
    valuesOf (calls file) (INIReader.makeKey sect name) = given file sect name := by
  unfold valuesOf given
  congr 1
  apply List.filter_congr
  intro c hc
  rw [decide_eq_decide]
  exact makeKey_inj (sep_notMem_name hc) h

/-- What `Get` finds. -/
theorem get_eq (file : List UInt8) {sect name : List UInt8} (h : '='.toUInt8 ∉ name)
    (default_value : List UInt8) :
    (INIReader.ofFile (some file)).get sect name default_value =
      if given file sect name = [] then default_value else joined (given file sect name) := by
  unfold INIReader.get
  rw [find_values, valuesOf_makeKey file h]
  split_ifs <;> rfl

/-- What is found, or nothing. -/
theorem get_joined (file : List UInt8) {sect name : List UInt8} (h : '='.toUInt8 ∉ name) :
    (INIReader.ofFile (some file)).get sect name [] = joined (given file sect name) := by
  rw [get_eq file h]
  split_ifs with hg
  · rw [hg]
    rfl
  · rfl

/-- **Looking up a name.** The values of a name are put together, one a line; those that are empty
and before all others are left out. `HasValue` says if there is a value, be it empty. -/
theorem lookup_eq (file sect name : List UInt8) (h : '='.toUInt8 ∉ name)
    (default_value : List UInt8) :
    (INIReader.ofFile (some file)).get sect name default_value =
        (if given file sect name = [] then default_value else joined (given file sect name)) ∧
      (INIReader.ofFile (some file)).getString sect name default_value =
        (if ∃ v ∈ given file sect name, v ≠ [] then joined (given file sect name)
          else default_value) ∧
      ((INIReader.ofFile (some file)).hasValue sect name = true ↔ given file sect name ≠ []) := by
  refine ⟨get_eq file h default_value, ?_, ?_⟩
  · unfold INIReader.getString
    dsimp only
    rw [get_joined file h]
    by_cases hv : ∃ v ∈ given file sect name, v ≠ []
    · rw [if_pos hv, if_neg fun h => joined_eq_nil_iff.mp h hv]
    · rw [if_neg hv, if_pos (joined_eq_nil_iff.mpr hv)]
  · unfold INIReader.hasValue
    rw [find_values, valuesOf_makeKey file h]
    split_ifs with hg
    · exact iff_of_false (by simp) (not_not.mpr hg)
    · exact iff_of_true rfl hg

/-- **`HasSection`.** A section is there if it has a value, or if a longer one has that goes on
with `=` behind its name. -/
theorem hasSection_iff (file sect : List UInt8) :
    (INIReader.ofFile (some file)).hasSection sect = true ↔
      ∃ c ∈ calls file, sect.map tolower ++ ['='.toUInt8] <+: c.sect.map tolower ++ ['='.toUInt8] := by
  have hkey : INIReader.makeKey sect [] = sect.map tolower ++ ['='.toUInt8] := makeKey_eq sect []
  have hbound := SortedMap.exists_lowerBound_iff (INIReader.ofFile (some file)).values
    (INIReader.makeKey sect [])
  have hhas : (INIReader.ofFile (some file)).hasSection sect = true ↔
      ∃ e, (INIReader.ofFile (some file)).values.lowerBound (INIReader.makeKey sect []) = some e ∧
        INIReader.makeKey sect [] <+: e.1 := by
    unfold INIReader.hasSection
    dsimp only
    cases (INIReader.ofFile (some file)).values.lowerBound (INIReader.makeKey sect []) with
    | none => exact iff_of_false Bool.false_ne_true (by simp)
    | some e =>
      simp only [decide_eq_true_eq, Option.some.injEq, exists_eq_left', List.prefix_iff_eq_take]
      exact eq_comm
  rw [hhas, hbound]
  constructor
  · rintro ⟨k, v, hfind, hp⟩
    rw [find_values] at hfind
    split_ifs at hfind with hv
    obtain ⟨w, hw⟩ := List.exists_mem_of_ne_nil _ hv
    obtain ⟨c, hc, -⟩ := List.mem_map.mp hw
    obtain ⟨hc, hck⟩ := List.mem_filter.mp hc
    rw [decide_eq_true_eq] at hck
    rw [← hck, hkey, makeKey_eq, prefix_append_cons_iff fun hm =>
      sep_notMem_name hc (sep_mem_map_tolower.mp hm)] at hp
    exact ⟨c, hc, hp⟩
  · rintro ⟨c, hc, hp⟩
    have hmem : c.value ∈ valuesOf (calls file) (INIReader.makeKey c.sect c.name) :=
      List.mem_map.mpr ⟨c, List.mem_filter.mpr ⟨hc, decide_eq_true rfl⟩, rfl⟩
    have hfind := find_values file (INIReader.makeKey c.sect c.name)
    rw [if_neg (List.ne_nil_of_mem hmem)] at hfind
    refine ⟨_, _, hfind, ?_⟩
    rw [hkey, makeKey_eq, prefix_append_cons_iff fun hm =>
      sep_notMem_name hc (sep_mem_map_tolower.mp hm)]
    exact hp

/-! ### What has been written is found -/

/-- The parts of the values that a document has for a name in a section. -/
def parts (doc : List Section) (sect name : List UInt8) : List (List UInt8) :=
  (doc.filter fun s => SameName s.name sect).flatMap fun s =>
    (s.entries.filter fun e => SameName e.name name).flatMap fun e => e.value :: e.more

theorem filter_calls (e : Entry) (sect' sect name : List UInt8) :
    ((e.calls sect').filter fun c => SameName c.sect sect ∧ SameName c.name name).map Call.value =
      if SameName sect' sect ∧ SameName e.name name then e.value :: e.more else [] := by
  unfold Entry.calls
  split_ifs with h
  · rw [List.filter_eq_self.mpr, List.map_cons, List.map_map]
    · exact congrArg _ (List.map_id _)
    · intro c hc
      rw [decide_eq_true_eq]
      rcases List.mem_cons.mp hc with rfl | hc
      · exact h
      · obtain ⟨v, -, rfl⟩ := List.mem_map.mp hc
        exact h
  · rw [List.filter_eq_nil_iff.mpr, List.map_nil]
    intro c hc
    rw [decide_eq_true_eq]
    rcases List.mem_cons.mp hc with rfl | hc
    · exact h
    · obtain ⟨v, -, rfl⟩ := List.mem_map.mp hc
      exact h

theorem given_write {doc : List Section} (h : ∀ s ∈ doc, s.Writable) (sect name : List UInt8) :
    given (write doc) sect name = parts doc sect name := by
  have hcalls : calls (write doc) = doc.flatMap Section.calls := by
    rw [← parse_log, parse_write doc h]
  unfold given parts
  rw [hcalls]
  clear h hcalls
  induction doc with
  | nil => rfl
  | cons s doc ih =>
    rw [List.flatMap_cons, List.filter_append, List.map_append, ih, List.filter_cons]
    have hsect : ((s.calls.filter fun c => SameName c.sect sect ∧ SameName c.name name).map Call.value) =
        if SameName s.name sect then
          (s.entries.filter fun e => SameName e.name name).flatMap fun e => e.value :: e.more
        else [] := by
      unfold Section.calls
      induction s.entries with
      | nil => exact (ite_self _).symm
      | cons e es ihe =>
        rw [List.flatMap_cons, List.filter_append, List.map_append, ihe, filter_calls, List.filter_cons]
        by_cases hs : SameName s.name sect
        · by_cases hn : SameName e.name name
          · simp only [hs, hn, and_self, if_true, decide_true, List.flatMap_cons]
          · simp only [hs, hn, and_false, if_true, if_false, decide_false, Bool.false_eq_true,
              List.nil_append]
        · simp only [hs, false_and, if_false, List.nil_append]
    rw [hsect]
    by_cases hs : SameName s.name sect
    · simp only [hs, if_true, decide_true, List.flatMap_cons]
    · simp only [hs, if_false, decide_false, Bool.false_eq_true, List.nil_append]

theorem error_write {doc : List Section} (h : ∀ s ∈ doc, s.Writable) :
    (INIReader.ofFile (some (write doc))).error = 0 := by
  unfold INIReader.ofFile
  rw [parse_of_document (fun _ _ _ _ => rfl) (document_file h)]

/-- **Write and look up.** What has been written for a name is found under it, in any case, put
together one part a line, but for the empty parts at the beginning; and there is no error. With a
`=` in the name the key would stand for another section. -/
theorem get_write (doc : List Section) (h : ∀ s ∈ doc, s.Writable) (sect name : List UInt8)
    (hname : '='.toUInt8 ∉ name) (default_value : List UInt8) :
    (INIReader.ofFile (some (write doc))).error = 0 ∧
      (INIReader.ofFile (some (write doc))).get sect name default_value =
        if parts doc sect name = [] then default_value else joined (parts doc sect name) := by
  refine ⟨error_write h, ?_⟩
  rw [get_eq _ hname, given_write h]

/-- A name that is given twice, and goes on in a line of its own. -/
def repeatedDocument : List Section :=
  [⟨bytes "Server", [⟨bytes "Port", [], []⟩, ⟨bytes "port", bytes "1 2", [bytes "3 ; x"]⟩]⟩,
    ⟨bytes "server", [⟨bytes "PORT", bytes "4", []⟩]⟩]

theorem get_repeatedDocument :
    (INIReader.ofFile (some (write repeatedDocument))).get (bytes "SERVER") (bytes "Port") [] =
      bytes "1 2\n3 ; x\n4" :=
  (get_write repeatedDocument (by decide) (bytes "SERVER") (bytes "Port") (by decide) []).2.trans
    (by decide)

/-- The same, looked up. -/
theorem lookup_repeatedDocument :
    (INIReader.ofFile (some (write repeatedDocument))).getString (bytes "SERVER") (bytes "Port") [] =
        bytes "1 2\n3 ; x\n4" ∧
      (INIReader.ofFile (some (write repeatedDocument))).hasValue (bytes "SERVER") (bytes "Port") = true := by
  obtain ⟨-, h1, h2⟩ := lookup_eq (write repeatedDocument) (bytes "SERVER") (bytes "Port")
    (by decide) []
  rw [given_write (by decide)] at h1 h2
  exact ⟨h1.trans (by decide), h2.mpr (by decide)⟩

end Syinx.Ini
