import Syinx.Ini.Text
import Syinx.Library.Lines
import Mathlib.Data.Int.Notation

/-!
# Parsing

`ini_parse` of `ini.c`, as it is compiled: the line is on the stack, and `ini.h` has its
defaults. A file is its bytes, or cannot be opened. `fgets` leaves a line in the array that may
have zeros in it; from then on it is a string, which ends at the first of them.

The handler is any function of its user's data; it says whether it has succeeded. `lineno` is
taken not to overflow.

## What is proved

* `iniParseStream_eq` — the loop goes over the lines of the stream, of 199 bytes at most.
* `parseLine_eq` — what a line does is decided by what it is (`event`).
* `parse_reports` — **the calls of the handler, and the number that is returned**: errors do not
  keep it from what follows, and the number is that of the first one.
-/

namespace Syinx.Ini

open Syinx.Library

/-- `INI_MAX_LINE`. -/
def iniMaxLine : ℕ := 200

/-- `MAX_SECTION`. -/
def maxSection : ℕ := 50

/-- `MAX_NAME`. -/
def maxName : ℕ := 50

/-- The end of a line. -/
def newline : UInt8 := 10

/-- The three bytes at the beginning of a file that are skipped. -/
def bom : List UInt8 := [0xEF, 0xBB, 0xBF]

/-- `fgets` into an array of `num` bytes: the line, and what is left of the file. -/
def fgets (num : ℕ) (file : List UInt8) : Option (List UInt8 × List UInt8) :=
  if file = [] then none
  else
    let line := nextLine newline (num - 1) file
    some (line, file.drop line.length)

theorem length_of_fgets {file line rest : List UInt8}
    (h : fgets iniMaxLine file = some (line, rest)) : rest.length < file.length := by
  unfold fgets at h
  split_ifs at h with hf
  cases h
  have h1 : (nextLine newline (iniMaxLine - 1) file).length ≠ 0 := fun h0 =>
    nextLine_ne_nil (by decide) hf (List.length_eq_zero_iff.mp h0)
  have h2 : file.length ≠ 0 := fun h0 => hf (List.length_eq_zero_iff.mp h0)
  rw [List.length_drop]
  omega

/-- `ini_reader`: what it leaves in an array of `num` bytes, and what is left of its stream. -/
structure IniReader where
  /-- The call. -/
  read : ℕ → List UInt8 → Option (List UInt8 × List UInt8)
  /-- There is less of the stream after it. -/
  length_read : ∀ {stream line rest : List UInt8}, read iniMaxLine stream = some (line, rest) →
    rest.length < stream.length

namespace IniReader

/-- `fgets`, as a reader. -/
def fgets : IniReader := ⟨Ini.fgets, length_of_fgets⟩

/-- It reads one line after the other. -/
def ByLine (reader : IniReader) : Prop :=
  ∀ stream, reader.read iniMaxLine stream = Ini.fgets iniMaxLine stream

end IniReader

/-- `ini_handler`: `user`, `section`, `name` and `value`; true is success. -/
abbrev Handler (U : Type) := U → List UInt8 → List UInt8 → List UInt8 → Bool × U

variable {U : Type}

/-- The variables of `ini_parse_stream`, and what `user` points to. -/
structure Locals (U : Type) where
  /-- `section`. -/
  sect : List UInt8
  /-- `prev_name`. -/
  prevName : List UInt8
  /-- `lineno`. -/
  lineno : ℕ
  /-- `error`. -/
  error : ℕ
  /-- `*user`. -/
  user : U

namespace Locals

/-- At the beginning. -/
def start (user : U) : Locals U := ⟨[], [], 0, 0, user⟩

/-- `error = lineno`, if there has been no error. -/
def refuse (s : Locals U) : Locals U := if s.error = 0 then { s with error := s.lineno } else s

/-- `HANDLER` with the test of what it returns. -/
def call (handler : Handler U) (s : Locals U) (name value : List UInt8) : Locals U :=
  let r := handler s.user s.sect name value
  let s := { s with user := r.2 }
  if r.1 then s else s.refuse

/-- One pass of the loop of `ini_parse_stream`. -/
def parseLine (handler : Handler U) (s : Locals U) (line : List UInt8) : Locals U :=
  let line := line.takeWhile (· ≠ 0)
  let s := { s with lineno := s.lineno + 1 }
  let skipped := if s.lineno = 1 ∧ line.take 3 = bom then line.drop 3 else line
  let stripped := rstrip skipped
  let start := lskip stripped
  match start with
  -- `strchr` finds the terminating zero, too
  | [] => s
  | c :: rest =>
    if c ∈ startCommentPrefixes then s
    else if s.prevName ≠ [] ∧ (skipped.length < line.length ∨ start.length < stripped.length) then
      s.call handler s.prevName start
    else if c = '['.toUInt8 then
      match findCharsOrComment (bytes "]") false rest with
      | (name, e :: _) =>
        if e = ']'.toUInt8 then { s with sect := strncpy0 name maxSection, prevName := [] } else s.refuse
      | (_, []) => s.refuse
    else
      match findCharsOrComment (bytes "=:") false start with
      | (name, e :: value) =>
        if e = '='.toUInt8 ∨ e = ':'.toUInt8 then
          let name := rstrip name
          let value := (findCharsOrComment [] false value).1
          let value := rstrip (lskip value)
          { s with prevName := strncpy0 name maxName }.call handler name value
        else s.refuse
      | (_, []) => s.refuse

/-- `ini_parse_stream`. -/
def iniParseStream (reader : IniReader) (handler : Handler U) (s : Locals U)
    (stream : List UInt8) : Locals U :=
  match _h : reader.read iniMaxLine stream with
  | none => s
  | some (line, rest) => iniParseStream reader handler (s.parseLine handler line) rest
termination_by stream.length
decreasing_by exact reader.length_read _h

end Locals

/-- `ini_parse`: what it returns, and what `user` points to then. -/
def iniParse (file : Option (List UInt8)) (handler : Handler U) (user : U) : ℤ × U :=
  match file with
  | none => (-1, user)
  | some file =>
    let s := (Locals.start user).iniParseStream .fgets handler file
    (s.error, s.user)

/-- **The loop.** It goes over the lines of the stream. -/
theorem iniParseStream_eq {reader : IniReader} (hread : reader.ByLine) (handler : Handler U)
    (s : Locals U) (stream : List UInt8) :
    s.iniParseStream reader handler stream =
      (lines newline (iniMaxLine - 1) stream).foldl (Locals.parseLine handler) s := by
  induction h : stream.length using Nat.strongRecOn generalizing stream s with
  | _ m ih =>
    rw [Locals.iniParseStream]
    by_cases hf : stream = []
    · subst hf
      split
      · rfl
      · rename_i h'
        rw [hread] at h'
        cases h'
    have hg : reader.read iniMaxLine stream = some (nextLine newline (iniMaxLine - 1) stream,
        stream.drop (nextLine newline (iniMaxLine - 1) stream).length) :=
      (hread stream).trans (if_neg hf)
    rw [lines_eq (by decide) hf, List.foldl_cons]
    split
    · rename_i h'
      rw [hg] at h'
      cases h'
    · rename_i h'
      rw [hg] at h'
      cases h'
      exact ih _ (h ▸ reader.length_read hg) _ _ rfl

/-! ### What a line is -/

/-- What a line is, read with the name before it in mind. -/
inductive Event where
  /-- Blank, or a comment. -/
  | nothing
  /-- More of the value before it. -/
  | more (value : List UInt8)
  /-- The beginning of a section. -/
  | header (name : List UInt8)
  /-- A name and a value. -/
  | entry (name value : List UInt8)
  /-- None of these. -/
  | bad
  deriving DecidableEq

/-- What a string is that begins with no white space and ends with none. -/
def eventOf : List UInt8 → Event
  | [] => .nothing
  | c :: rest =>
    if c ∈ startCommentPrefixes then .nothing
    else if c = '['.toUInt8 then
      match findCharsOrComment (bytes "]") false rest with
      | (name, e :: _) => if e = ']'.toUInt8 then .header name else .bad
      | (_, []) => .bad
    else
      match findCharsOrComment (bytes "=:") false (c :: rest) with
      | (name, e :: value) =>
        if e = '='.toUInt8 ∨ e = ':'.toUInt8 then
          .entry (rstrip name) (rstrip (lskip (findCharsOrComment [] false value).1))
        else .bad
      | (_, []) => .bad

/-- What a line is. -/
def event (named : Bool) (text : List UInt8) : Event :=
  match lskip (rstrip text) with
  | [] => .nothing
  | c :: rest =>
    if c ∉ startCommentPrefixes ∧ named = true ∧ (c :: rest).length < (rstrip text).length then
      .more (c :: rest)
    else eventOf (c :: rest)

/-- The string of a line, behind the three bytes that are skipped. -/
def textOf (first : Bool) (line : List UInt8) : List UInt8 :=
  let line := line.takeWhile (· ≠ 0)
  if first = true ∧ line.take 3 = bom then line.drop 3 else line

namespace Locals

/-- What is done about it. -/
def act (handler : Handler U) (s : Locals U) : Event → Locals U
  | .nothing => s
  | .more value => s.call handler s.prevName value
  | .header name => { s with sect := strncpy0 name maxSection, prevName := [] }
  | .entry name value => { s with prevName := strncpy0 name maxName }.call handler name value
  | .bad => s.refuse

/-- A string that begins on the margin. -/
theorem act_eventOf (handler : Handler U) (s : Locals U) {c : UInt8}
    (hc : c ∉ startCommentPrefixes) (rest : List UInt8) :
    s.act handler (eventOf (c :: rest)) =
      if c = '['.toUInt8 then
        match findCharsOrComment (bytes "]") false rest with
        | (name, e :: _) =>
          if e = ']'.toUInt8 then { s with sect := strncpy0 name maxSection, prevName := [] } else s.refuse
        | (_, []) => s.refuse
      else
        match findCharsOrComment (bytes "=:") false (c :: rest) with
        | (name, e :: value) =>
          if e = '='.toUInt8 ∨ e = ':'.toUInt8 then
            { s with prevName := strncpy0 (rstrip name) maxName }.call handler (rstrip name)
              (rstrip (lskip (findCharsOrComment [] false value).1))
          else s.refuse
        | (_, []) => s.refuse := by
  rw [eventOf, if_neg hc]
  by_cases hb : c = '['.toUInt8
  · rw [if_pos hb, if_pos hb]
    split
    · split_ifs <;> rfl
    · rfl
  · rw [if_neg hb, if_neg hb]
    split
    · split_ifs <;> rfl
    · rfl

/-- What a line does is decided by what it is. -/
theorem parseLine_eq (handler : Handler U) (s : Locals U) (hs : s.lineno = 0 → s.prevName = [])
    (line : List UInt8) :
    s.parseLine handler line = { s with lineno := s.lineno + 1 }.act handler
      (event (s.prevName ≠ []) (textOf (s.lineno = 0) line)) := by
  have htext : (if s.lineno + 1 = 1 ∧ (line.takeWhile (· ≠ 0)).take 3 = bom then
      (line.takeWhile (· ≠ 0)).drop 3 else line.takeWhile (· ≠ 0)) = textOf (s.lineno = 0) line := by
    simp only [textOf, Nat.add_eq_right, decide_eq_true_eq]
  have hlen : s.prevName ≠ [] → (textOf (s.lineno = 0) line).length = (line.takeWhile (· ≠ 0)).length := by
    intro hp
    have h0 : ¬ s.lineno = 0 := fun h0 => hp (hs h0)
    simp only [textOf, h0, decide_false, Bool.false_eq_true, false_and, if_false]
  unfold parseLine event
  dsimp only
  rw [htext]
  cases lskip (rstrip (textOf (s.lineno = 0) line)) with
  | nil => rfl
  | cons c rest =>
    dsimp only
    by_cases hc : c ∈ startCommentPrefixes
    · rw [if_pos hc, if_neg fun h => h.1 hc, eventOf, if_pos hc]
      rfl
    rw [if_neg hc]
    by_cases hp : s.prevName ≠ [] ∧ (c :: rest).length < (rstrip (textOf (s.lineno = 0) line)).length
    · rw [if_pos ⟨hp.1, .inr hp.2⟩, if_pos ⟨hc, decide_eq_true hp.1, hp.2⟩]
      rfl
    · have hskipped : ¬ (s.prevName ≠ [] ∧ ((textOf (s.lineno = 0) line).length <
          (line.takeWhile (· ≠ 0)).length ∨
            (c :: rest).length < (rstrip (textOf (s.lineno = 0) line)).length)) := by
        rintro ⟨h1, h2⟩
        exact h2.elim (fun h => absurd (hlen h1) h.ne) fun h => hp ⟨h1, h⟩
      have hmore : ¬ (c ∉ startCommentPrefixes ∧ decide (s.prevName ≠ []) = true ∧
          (c :: rest).length < (rstrip (textOf (s.lineno = 0) line)).length) :=
        fun h => hp ⟨of_decide_eq_true h.2.1, h.2.2⟩
      rw [if_neg hskipped, if_neg hmore, act_eventOf handler _ hc]

end Locals

/-! ### What a file is -/

/-- `section` and `prev_name`, before a line. -/
structure Place where
  /-- `section`. -/
  sect : List UInt8
  /-- `prev_name`. -/
  prevName : List UInt8
  deriving DecidableEq

/-- What the handler is called with. -/
structure Call where
  /-- `section`. -/
  sect : List UInt8
  /-- `name`. -/
  name : List UInt8
  /-- `value`. -/
  value : List UInt8
  deriving DecidableEq

/-- What comes of a line. -/
inductive Outcome where
  /-- Nothing. -/
  | quiet
  /-- A call of the handler. -/
  | calls (c : Call)
  /-- An error. -/
  | bad
  deriving DecidableEq

namespace Place

/-- The place at the beginning of a file. -/
def start : Place := ⟨[], []⟩

/-- The place behind a line. -/
def next (p : Place) : Event → Place
  | .header name => ⟨strncpy0 name maxSection, []⟩
  | .entry name _ => ⟨p.sect, strncpy0 name maxName⟩
  | _ => p

/-- What comes of a line. -/
def outcome (p : Place) : Event → Outcome
  | .more value => .calls ⟨p.sect, p.prevName, value⟩
  | .entry name value => .calls ⟨p.sect, name, value⟩
  | .bad => .bad
  | _ => .quiet

/-- What a line is at this place. -/
def event (p : Place) (text : List UInt8) : Event := Ini.event (p.prevName ≠ []) text

/-- What comes of the lines of a file, one after the other. -/
def outcomes : Place → List (List UInt8) → List Outcome
  | _, [] => []
  | p, text :: texts => p.outcome (p.event text) :: (p.next (p.event text)).outcomes texts

end Place

/-- The strings of the lines of a file. -/
def textsFrom : Bool → List (List UInt8) → List (List UInt8)
  | _, [] => []
  | first, line :: rest => textOf first line :: textsFrom false rest

/-- The strings of the lines of a file. -/
def texts (file : List UInt8) : List (List UInt8) :=
  textsFrom true (lines newline (iniMaxLine - 1) file)

/-- What comes of the lines of a file. -/
def outcomes (file : List UInt8) : List Outcome := Place.start.outcomes (texts file)

/-- The call, if there is one. -/
def Outcome.call : Outcome → Option Call
  | .calls c => some c
  | _ => none

/-- The calls of the handler. -/
def calls (file : List UInt8) : List Call := (outcomes file).filterMap Outcome.call

namespace Handler

/-- What `user` points to after some calls. -/
def run (handler : Handler U) (user : U) (cs : List Call) : U :=
  cs.foldl (fun user c => (handler user c.sect c.name c.value).2) user

/-- Whether a line fails. -/
def fails (handler : Handler U) (user : U) : Outcome → Bool
  | .quiet => false
  | .calls c => !(handler user c.sect c.name c.value).1
  | .bad => true

/-- Which lines fail. -/
def failing (handler : Handler U) : U → List Outcome → List Bool
  | _, [] => []
  | user, o :: os => handler.fails user o :: handler.failing (handler.run user o.call.toList) os

end Handler

/-- The number of the first line that fails, counted from one. -/
def firstLine (fs : List Bool) : ℕ := (fs.findIdx? id).elim 0 (· + 1)

theorem firstLine_cons (b : Bool) (fs : List Bool) :
    firstLine (b :: fs) = if b then 1 else if firstLine fs = 0 then 0 else firstLine fs + 1 := by
  unfold firstLine
  rw [List.findIdx?_cons]
  cases b with
  | true => rfl
  | false => cases fs.findIdx? id <;> rfl

theorem filterMap_call_cons (o : Outcome) (os : List Outcome) :
    (o :: os).filterMap Outcome.call = o.call.toList ++ os.filterMap Outcome.call := by
  rw [List.filterMap_cons]
  cases o.call <;> rfl

theorem Handler.run_append (handler : Handler U) (user : U) (cs ds : List Call) :
    handler.run user (cs ++ ds) = handler.run (handler.run user cs) ds :=
  List.foldl_append

namespace Locals

/-- The place of the loop. -/
def place (s : Locals U) : Place := ⟨s.sect, s.prevName⟩

theorem act_spec (handler : Handler U) (s : Locals U) (e : Event) :
    (s.act handler e).place = s.place.next e ∧ (s.act handler e).lineno = s.lineno ∧
      (s.act handler e).user = handler.run s.user (s.place.outcome e).call.toList ∧
        (s.act handler e).error =
          if s.error = 0 ∧ handler.fails s.user (s.place.outcome e) = true then s.lineno
          else s.error := by
  have hrefuse : ∀ t : Locals U, t.refuse.place = t.place ∧ t.refuse.lineno = t.lineno ∧
      t.refuse.user = t.user ∧ t.refuse.error = if t.error = 0 then t.lineno else t.error := by
    intro t
    unfold refuse
    split_ifs <;> exact ⟨rfl, rfl, rfl, rfl⟩
  have hcall : ∀ (t : Locals U) (name value : List UInt8),
      (t.call handler name value).place = t.place ∧ (t.call handler name value).lineno = t.lineno ∧
        (t.call handler name value).user = (handler t.user t.sect name value).2 ∧
          (t.call handler name value).error =
            if t.error = 0 ∧ (!(handler t.user t.sect name value).1) = true then t.lineno
            else t.error := by
    intro t name value
    unfold call
    dsimp only
    cases hr : (handler t.user t.sect name value).1 with
    | true => exact ⟨rfl, rfl, rfl, (if_neg fun h => Bool.false_ne_true h.2).symm⟩
    | false =>
      obtain ⟨h1, h2, h3, h4⟩ := hrefuse { t with user := (handler t.user t.sect name value).2 }
      refine ⟨h1, h2, h3, h4.trans ?_⟩
      simp only [Bool.not_false, and_true]
  cases e with
  | nothing => exact ⟨rfl, rfl, rfl, (if_neg fun h => Bool.false_ne_true h.2).symm⟩
  | header name => exact ⟨rfl, rfl, rfl, (if_neg fun h => Bool.false_ne_true h.2).symm⟩
  | more value => exact hcall s s.prevName value
  | entry name value => exact hcall _ name value
  | bad =>
    obtain ⟨h1, h2, h3, h4⟩ := hrefuse s
    exact ⟨h1, h2, h3, h4.trans (by simp only [Place.outcome, Handler.fails, and_true])⟩

/-- The error of the first line, and of those behind it. -/
theorem first_error (error lineno k : ℕ) (b : Bool) :
    (if (if error = 0 ∧ b = true then lineno + 1 else error) = 0 ∧ k ≠ 0 then lineno + 1 + k
        else if error = 0 ∧ b = true then lineno + 1 else error) =
      if error = 0 ∧ (if b = true then 1 else if k = 0 then 0 else k + 1) ≠ 0 then
        lineno + (if b = true then 1 else if k = 0 then 0 else k + 1)
      else error := by
  cases b <;> by_cases he : error = 0 <;> by_cases hk : k = 0 <;> simp [he, hk]
  omega

/-- The loop, from any line on. -/
theorem foldl_parseLine (handler : Handler U) (ls : List (List UInt8)) (s : Locals U)
    (hs : s.lineno = 0 → s.prevName = []) :
    (ls.foldl (parseLine handler) s).user = handler.run s.user
        ((s.place.outcomes (textsFrom (s.lineno = 0) ls)).filterMap Outcome.call) ∧
      (ls.foldl (parseLine handler) s).error =
        if s.error = 0 ∧
            firstLine (handler.failing s.user (s.place.outcomes (textsFrom (s.lineno = 0) ls))) ≠ 0 then
          s.lineno + firstLine (handler.failing s.user (s.place.outcomes (textsFrom (s.lineno = 0) ls)))
        else s.error := by
  induction ls generalizing s with
  | nil => exact ⟨rfl, (if_neg fun h => h.2 rfl).symm⟩
  | cons l ls ih =>
    obtain ⟨hplace, hlineno, huser, herror⟩ := act_spec handler { s with lineno := s.lineno + 1 }
      (s.place.event (textOf (s.lineno = 0) l))
    rw [List.foldl_cons, parseLine_eq handler s hs]
    obtain ⟨ihuser, iherror⟩ := ih ({ s with lineno := s.lineno + 1 }.act handler
      (s.place.event (textOf (s.lineno = 0) l))) fun h => absurd (hlineno ▸ h) (Nat.succ_ne_zero _)
    simp only [hplace, hlineno, huser, herror, Nat.succ_ne_zero, decide_false] at ihuser iherror
    refine ⟨ihuser.trans ?_, iherror.trans ?_⟩
    · rw [textsFrom, Place.outcomes, filterMap_call_cons, Handler.run_append]
      rfl
    · rw [textsFrom, Place.outcomes, Handler.failing, firstLine_cons]
      exact first_error ..

end Locals

/-- What `ini_parse` does. -/
theorem parse_spec (handler : Handler U) (user : U) (file : List UInt8) :
    iniParse (some file) handler user =
      ((firstLine (handler.failing user (outcomes file)) : ℤ), handler.run user (calls file)) := by
  obtain ⟨huser, herror⟩ := Locals.foldl_parseLine handler
    (lines newline (iniMaxLine - 1) file) (Locals.start user) fun _ => rfl
  unfold iniParse
  dsimp only
  rw [iniParseStream_eq fun _ => rfl, huser, herror]
  congr 1
  split_ifs with h
  · exact congrArg _ (Nat.zero_add _)
  · exact congrArg _ (not_not.mp fun h' => h ⟨rfl, fun h0 => h' h0.symm⟩)

theorem firstLine_eq_zero_iff (fs : List Bool) : firstLine fs = 0 ↔ true ∉ fs := by
  induction fs with
  | nil => exact iff_of_true rfl List.not_mem_nil
  | cons b fs ih =>
    rw [firstLine_cons, List.mem_cons, not_or, ← ih]
    cases b with
    | true => exact iff_of_false (Nat.succ_ne_zero 0) fun h => h.1 rfl
    | false =>
      rw [if_neg Bool.false_ne_true]
      by_cases h0 : firstLine fs = 0
      · rw [if_pos h0]
        exact iff_of_true rfl ⟨by decide, h0⟩
      · rw [if_neg h0]
        exact iff_of_false (Nat.succ_ne_zero _) fun h => h0 h.2

/-- Where the first failure is. -/
theorem firstLine_eq_succ_iff (fs : List Bool) (k : ℕ) :
    firstLine fs = k + 1 ↔ fs[k]? = some true ∧ true ∉ fs.take k := by
  induction fs generalizing k with
  | nil => exact iff_of_false (Nat.succ_ne_zero k).symm (by simp)
  | cons b fs ih =>
    rw [firstLine_cons]
    cases b with
    | true =>
      cases k with
      | zero => exact iff_of_true rfl ⟨rfl, List.not_mem_nil⟩
      | succ k => exact iff_of_false (by simp) fun h => h.2 List.mem_cons_self
    | false =>
      rw [if_neg Bool.false_ne_true]
      cases k with
      | zero =>
        refine iff_of_false (fun h => ?_) fun h => by cases h.1
        split_ifs at h with h0
        omega
      | succ k =>
        rw [List.getElem?_cons_succ, List.take_succ_cons, List.mem_cons, or_iff_right (by decide), ← ih]
        by_cases h0 : firstLine fs = 0
        · rw [if_pos h0, h0]
          omega
        · rw [if_neg h0]
          omega

/-- **What `ini_parse` does.** The handler is called for the lines that give a call, in their
order, also behind an error. The number that is returned is that of the first line that is bad or
that the handler refuses, and zero if there is none. -/
theorem parse_reports (handler : Handler U) (user : U) (file : List UInt8) :
    (iniParse (some file) handler user).2 = handler.run user (calls file) ∧
      (∀ k : ℕ, (iniParse (some file) handler user).1 = k + 1 ↔
        (handler.failing user (outcomes file))[k]? = some true ∧
          true ∉ (handler.failing user (outcomes file)).take k) ∧
        ((iniParse (some file) handler user).1 = 0 ↔ true ∉ handler.failing user (outcomes file)) := by
  rw [parse_spec]
  dsimp only
  refine ⟨rfl, fun k => ?_, ?_⟩
  · rw [← firstLine_eq_succ_iff]
    omega
  · rw [← firstLine_eq_zero_iff]
    exact Int.natCast_eq_zero

end Syinx.Ini
