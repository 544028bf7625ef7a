import Syinx.Ini.Reader

/-!
# A file in memory

`ini_parse_string` reads a string as `ini_parse` reads a file, with `ini_reader_string` where the
other has `fgets`, and `INIReader` has a constructor for it. `ptr` and `num_left` are the list of
the bytes that are left. The string ends at its first zero.

## What is proved

* `IniReader.byLine_string` — `ini_reader_string` reads what `fgets` reads.
* `parseString_eq_parse` — **both ways** of reading the same bytes make the same calls, and return
  the same.
-/

namespace Syinx.Ini

open Syinx.Library

variable {U : Type}

/-- The loop of `ini_reader_string`: what it writes, and what is left. -/
def copyLine : ℕ → List UInt8 → List UInt8 × List UInt8
  | _, [] => ([], [])
  | num, c :: ctx =>
    if num > 1 then
      if c = newline then ([c], ctx)
      else
        let r := copyLine (num - 1) ctx
        (c :: r.1, r.2)
    else ([], c :: ctx)

/-- `ini_reader_string`. -/
def iniReaderString (num : ℕ) (ctx : List UInt8) : Option (List UInt8 × List UInt8) :=
  if ctx = [] ∨ num < 2 then none else some (copyLine num ctx)

/-- It stops where the next line ends. -/
theorem copyLine_eq (num : ℕ) (ctx : List UInt8) :
    copyLine num ctx = (nextLine newline (num - 1) ctx,
      ctx.drop (nextLine newline (num - 1) ctx).length) := by
  induction ctx generalizing num with
  | nil =>
    have hnil : nextLine newline (num - 1) [] = [] := List.prefix_nil.mp nextLine_prefix
    rw [copyLine, hnil]
    rfl
  | cons c ctx ih =>
    unfold copyLine
    by_cases hnum : num > 1
    · obtain ⟨m, rfl⟩ : ∃ m, num = m + 2 := ⟨num - 2, by omega⟩
      have hnext : nextLine newline (m + 2 - 1) (c :: ctx) =
          if c = newline then [c] else c :: nextLine newline m ctx := rfl
      rw [if_pos hnum, ih, hnext]
      by_cases hc : c = newline
      · rw [if_pos hc, if_pos hc]
        rfl
      · rw [if_neg hc, if_neg hc]
        rfl
    · have h0 : num - 1 = 0 := by omega
      rw [if_neg hnum, h0]
      rfl

/-- `ini_reader_string` reads what `fgets` reads. -/
theorem iniReaderString_eq (ctx : List UInt8) :
    iniReaderString iniMaxLine ctx = fgets iniMaxLine ctx := by
  have hnum : ¬ iniMaxLine < 2 := by decide
  unfold iniReaderString fgets
  simp only [hnum, or_false, copyLine_eq]

/-- `ini_reader_string`, as a reader. -/
def IniReader.string : IniReader where
  read := iniReaderString
  length_read h := length_of_fgets ((iniReaderString_eq _).symm.trans h)

theorem IniReader.byLine_string : IniReader.string.ByLine := iniReaderString_eq

/-- `ini_parse_string`: what it returns, and what `user` points to then. -/
def iniParseString (string : List UInt8) (handler : Handler U) (user : U) : ℤ × U :=
  let ctx := string.takeWhile (· ≠ 0)
  let s := (Locals.start user).iniParseStream .string handler ctx
  (s.error, s.user)

/-- `INIReader(buffer, buffer_size)`. -/
def INIReader.ofBuffer (buffer : List UInt8) : INIReader :=
  let r := iniParseString buffer INIReader.valueHandler .empty
  ⟨r.1, r.2⟩

/-- **Memory and file.** What is in memory is read as a file with the bytes before the first zero
is, by every handler, and so by the reader. -/
theorem parseString_eq_parse (string : List UInt8) :
    (∀ (U : Type) (handler : Handler U) (user : U), iniParseString string handler user =
        iniParse (some (string.takeWhile (· ≠ 0))) handler user) ∧
      INIReader.ofBuffer string = .ofFile (some (string.takeWhile (· ≠ 0))) := by
  have hparse : ∀ (U : Type) (handler : Handler U) (user : U), iniParseString string handler user =
      iniParse (some (string.takeWhile (· ≠ 0))) handler user := by
    intro U handler user
    unfold iniParseString iniParse
    dsimp only
    rw [iniParseStream_eq IniReader.byLine_string, iniParseStream_eq fun _ => rfl]
  refine ⟨hparse, ?_⟩
  unfold INIReader.ofBuffer INIReader.ofFile
  rw [hparse]

end Syinx.Ini
