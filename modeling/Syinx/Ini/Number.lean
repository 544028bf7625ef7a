import Syinx.Ini.Reader
import Mathlib.Data.Nat.Digits.Lemmas
import Mathlib.Algebra.Order.Ring.Int

/-!
# Numbers

`GetInteger` reads what `Get` has found with `strtol` in base 0, `GetBoolean` compares it with
some words. `strtol` is that of the C standard, for a `long` of 64 bits: spaces, a sign, and the
digits of a number, which is octal if it begins with `0` and hexadecimal behind `0x`. It stops at
what is no digit; a number that is too large or too small becomes the last one that is not.

## What is proved

* `strtol_eq_some_iff` — what `strtol` reads, from how numbers are written.
* `getInteger_spec` — **`GetInteger`**: it is the first value that counts, and of that what is a
  number.
* `strtol_decimalInt` — a number that is written in decimal is read back, if it is a `long`.
-/

namespace Syinx.Ini

open Syinx.Library

/-- The value of a digit or a letter. Other bytes are no digits in any base. -/
def digitVal (c : UInt8) : ℕ :=
  if '0'.toUInt8 ≤ c ∧ c ≤ '9'.toUInt8 then c.toNat - 48
  else if 'a'.toUInt8 ≤ c ∧ c ≤ 'z'.toUInt8 then c.toNat - 87
  else if 'A'.toUInt8 ≤ c ∧ c ≤ 'Z'.toUInt8 then c.toNat - 55
  else 36

/-- The number that some digits make. -/
def number (base : ℕ) (ds : List UInt8) : ℕ := ds.foldl (fun n c => base * n + digitVal c) 0

/-- The sign, and what is behind it. -/
def readSign : List UInt8 → Bool × List UInt8
  | [] => (false, [])
  | c :: s =>
    if c = '-'.toUInt8 then (true, s)
    else if c = '+'.toUInt8 then (false, s)
    else (false, c :: s)

/-- The base, and the digits with what follows them. -/
def readBase : List UInt8 → ℕ × List UInt8
  | [] => (10, [])
  | [z] => if z = '0'.toUInt8 then (8, [z]) else (10, [z])
  | z :: x :: s =>
    if z = '0'.toUInt8 then
      if x ∈ bytes "xX" ∧ s.head?.any (digitVal · < 16) then (16, s) else (8, z :: x :: s)
    else (10, z :: x :: s)

/-- With its sign, as a `long`. -/
def toLong (negative : Bool) (n : ℕ) : ℤ :=
  if negative then max (-2 ^ 63) (-n) else min (2 ^ 63 - 1) n

/-- `strtol` in base 0, if it finds a number. -/
def strtol (s : List UInt8) : Option ℤ :=
  let sign := readSign (lskip s)
  let base := readBase sign.2
  let ds := base.2.takeWhile fun c => digitVal c < base.1
  if ds = [] then none else some (toLong sign.1 (number base.1 ds))

namespace INIReader

/-- `GetInteger`. -/
def getInteger (r : INIReader) (sect name : List UInt8) (default_value : Int64) : Int64 :=
  match strtol (r.get sect name []) with
  | none => default_value
  | some n => .ofInt n

/-- `GetBoolean`. -/
def getBoolean (r : INIReader) (sect name : List UInt8) (default_value : Bool) : Bool :=
  let valstr := (r.get sect name []).map tolower
  if valstr ∈ [bytes "true", bytes "yes", bytes "on", bytes "1"] then true
  else if valstr ∈ [bytes "false", bytes "no", bytes "off", bytes "0"] then false
  else default_value

end INIReader

/-! ### How numbers are written -/

/-- A sign, or none. -/
inductive IsSign : Bool → List UInt8 → Prop where
  /-- No sign. -/
  | none : IsSign false []
  /-- `+`. -/
  | plus : IsSign false ['+'.toUInt8]
  /-- `-`. -/
  | minus : IsSign true ['-'.toUInt8]

/-- All the digits that are there. -/
structure Digits (base : ℕ) (ds rest : List UInt8) : Prop where
  digits : ∀ c ∈ ds, digitVal c < base
  rest : ∀ c ∈ rest.head?, ¬ digitVal c < base

instance (base : ℕ) (ds rest : List UInt8) : Decidable (Digits base ds rest) :=
  haveI := List.decidableBAll (fun c => digitVal c < base) ds
  haveI := Option.decidableForallMem (p := fun c => ¬ digitVal c < base) rest.head?
  decidable_of_iff ((∀ c ∈ ds, digitVal c < base) ∧ ∀ c ∈ rest.head?, ¬ digitVal c < base)
    ⟨fun h => ⟨h.1, h.2⟩, fun h => ⟨h.digits, h.rest⟩⟩

/-- A string that begins with a number. -/
inductive Written : Bool → ℕ → List UInt8 → List UInt8 → Prop where
  /-- In decimal. -/
  | decimal {negative : Bool} {sign ds rest : List UInt8} :
      IsSign negative sign → Digits 10 ds rest → ds ≠ [] → ds.head? ≠ some '0'.toUInt8 →
      Written negative 10 ds (sign ++ (ds ++ rest))
  /-- In octal. Zero is octal, unless it is a hexadecimal number that begins there. -/
  | octal {negative : Bool} {sign ds rest : List UInt8} :
      IsSign negative sign → Digits 8 ds rest → ds.head? = some '0'.toUInt8 →
      (∀ x c s, ds = ['0'.toUInt8] → rest = x :: c :: s → x ∈ bytes "xX" → ¬ digitVal c < 16) →
      Written negative 8 ds (sign ++ (ds ++ rest))
  /-- In hexadecimal. -/
  | hex {negative : Bool} {sign : List UInt8} {x : UInt8} {ds rest : List UInt8} :
      IsSign negative sign → x ∈ bytes "xX" → Digits 16 ds rest → ds ≠ [] →
      Written negative 16 ds (sign ++ '0'.toUInt8 :: x :: (ds ++ rest))

theorem Digits.takeWhile {base : ℕ} {ds rest : List UInt8} (h : Digits base ds rest) :
    (ds ++ rest).takeWhile (fun c => decide (digitVal c < base)) = ds := by
  rw [List.takeWhile_append_of_pos fun c hc => decide_eq_true (h.digits c hc)]
  cases rest with
  | nil => exact List.append_nil ds
  | cons c rest =>
    rw [List.takeWhile_cons_of_neg (by simpa using h.rest c rfl), List.append_nil]

theorem digits_takeWhile (base : ℕ) (s : List UInt8) :
    ∃ rest, s = s.takeWhile (fun c => decide (digitVal c < base)) ++ rest ∧
      Digits base (s.takeWhile fun c => decide (digitVal c < base)) rest := by
  refine ⟨s.dropWhile fun c => decide (digitVal c < base), List.takeWhile_append_dropWhile.symm, ?_, ?_⟩
  · intro c hc
    simpa using List.mem_takeWhile_imp hc
  · intro c hc
    have h := List.head?_dropWhile_not (fun c => decide (digitVal c < base)) s
    rw [Option.mem_def] at hc
    rw [hc] at h
    simpa using h

/-- A digit is no space and no sign. -/
theorem of_digitVal_lt {c : UInt8} (h : digitVal c < 36) :
    isspace c = false ∧ c ≠ '-'.toUInt8 ∧ c ≠ '+'.toUInt8 := by
  refine ⟨?_, ?_, ?_⟩
  · by_contra hc
    rw [Bool.not_eq_false] at hc
    have hc' : c = 32 ∨ (9 ≤ c.toNat ∧ c.toNat ≤ 13) := by
      simpa [isspace, UInt8.le_iff_toNat_le] using hc
    have h36 : digitVal c = 36 := by
      have h0 : ('0'.toUInt8).toNat = 48 := rfl
      have ha : ('a'.toUInt8).toNat = 97 := rfl
      have hA : ('A'.toUInt8).toNat = 65 := rfl
      have hn : c.toNat ≤ 32 := by
        rcases hc' with rfl | hc'
        · exact Nat.le_refl 32
        · omega
      unfold digitVal
      simp only [UInt8.le_iff_toNat_le, h0, ha, hA]
      rw [if_neg (by omega), if_neg (by omega), if_neg (by omega)]
    omega
  · rintro rfl
    exact absurd h (by decide)
  · rintro rfl
    exact absurd h (by decide)

theorem digitVal_of_mem_xX {x : UInt8} (h : x ∈ bytes "xX") : digitVal x = 33 := by
  have h' : x ∈ [(120 : UInt8), 88] := h
  rcases List.mem_cons.mp h' with rfl | h'
  · rfl
  · rw [List.mem_singleton.mp h']
    rfl

/-- The sign in front of a number. -/
theorem readSign_eq {negative : Bool} {sign : List UInt8} (h : IsSign negative sign) {c : UInt8}
    (hc : digitVal c < 36) (s : List UInt8) :
    readSign (lskip (sign ++ c :: s)) = (negative, c :: s) := by
  obtain ⟨hspace, hminus, hplus⟩ := of_digitVal_lt hc
  cases h with
  | none =>
    rw [List.nil_append, lskip_of_flush (by rintro b ⟨⟩; exact hspace), readSign, if_neg hminus,
      if_neg hplus]
  | plus => rfl
  | minus => rfl

theorem exists_sign (s : List UInt8) :
    ∃ sign, IsSign (readSign s).1 sign ∧ s = sign ++ (readSign s).2 := by
  cases s with
  | nil => exact ⟨[], .none, rfl⟩
  | cons c s =>
    by_cases h1 : c = '-'.toUInt8
    · subst h1
      exact ⟨_, .minus, rfl⟩
    by_cases h2 : c = '+'.toUInt8
    · subst h2
      exact ⟨_, .plus, rfl⟩
    · have h : readSign (c :: s) = (false, c :: s) := by rw [readSign, if_neg h1, if_neg h2]
      rw [h]
      exact ⟨_, .none, rfl⟩

theorem readBase_decimal {c : UInt8} (hc : c ≠ '0'.toUInt8) (s : List UInt8) :
    readBase (c :: s) = (10, c :: s) := by
  cases s with
  | nil => exact if_neg hc
  | cons x s => exact if_neg hc

theorem readBase_hex {x : UInt8} (hx : x ∈ bytes "xX") {c : UInt8} (hc : digitVal c < 16)
    (s : List UInt8) : readBase ('0'.toUInt8 :: x :: c :: s) = (16, c :: s) := by
  rw [readBase, if_pos rfl, if_pos ⟨hx, decide_eq_true hc⟩]

theorem readBase_octal {s : List UInt8}
    (h : ∀ x c t, s = x :: c :: t → x ∈ bytes "xX" → ¬ digitVal c < 16) :
    readBase ('0'.toUInt8 :: s) = (8, '0'.toUInt8 :: s) := by
  cases s with
  | nil => rfl
  | cons x s =>
    rw [readBase, if_pos rfl, if_neg]
    rintro ⟨hx, hlt⟩
    cases s with
    | nil => cases hlt
    | cons c t => exact h x c t rfl hx (of_decide_eq_true hlt)

/-- What is written is read. -/
theorem Written.strtol {negative : Bool} {base : ℕ} {ds s : List UInt8}
    (h : Written negative base ds s) :
    strtol s = some (toLong negative (number base ds)) := by
  unfold Ini.strtol
  cases h with
  | @decimal _ sign rest hsign hdigits hne hhead =>
    obtain ⟨c, ds', rfl⟩ := List.exists_cons_of_ne_nil hne
    have hc : digitVal c < 36 := (hdigits.digits c List.mem_cons_self).trans (by decide)
    have ht := hdigits.takeWhile
    rw [List.cons_append] at ht ⊢
    dsimp only
    rw [readSign_eq hsign hc, readBase_decimal fun h => hhead (congrArg some h)]
    dsimp only
    rw [ht, if_neg (List.cons_ne_nil _ _)]
  | @octal _ sign rest hsign hdigits hhead hzero =>
    obtain ⟨ds', rfl⟩ : ∃ ds', ds = '0'.toUInt8 :: ds' := by
      cases ds with
      | nil => cases hhead
      | cons c ds' => exact ⟨ds', by rw [Option.some.inj hhead]⟩
    have hbase : readBase ('0'.toUInt8 :: (ds' ++ rest)) = (8, '0'.toUInt8 :: (ds' ++ rest)) := by
      apply readBase_octal
      intro x c t ht hx
      cases ds' with
      | nil => exact hzero x c t rfl ht hx
      | cons b ds' =>
        obtain ⟨rfl, -⟩ := List.cons.inj ht
        have hlt := hdigits.digits b (List.mem_cons_of_mem _ List.mem_cons_self)
        rw [digitVal_of_mem_xX hx] at hlt
        omega
    have ht := hdigits.takeWhile
    rw [List.cons_append] at ht ⊢
    dsimp only
    rw [readSign_eq hsign (by decide), hbase]
    dsimp only
    rw [ht, if_neg (List.cons_ne_nil _ _)]
  | @hex _ sign x rest hsign hx hdigits hne =>
    obtain ⟨c, ds', rfl⟩ := List.exists_cons_of_ne_nil hne
    have ht := hdigits.takeWhile
    rw [List.cons_append] at ht ⊢
    dsimp only
    rw [readSign_eq hsign (by decide), readBase_hex hx (hdigits.digits c List.mem_cons_self)]
    dsimp only
    rw [ht, if_neg (List.cons_ne_nil _ _)]

/-- What is read is written. -/
theorem exists_written {s : List UInt8} {n : ℤ} (h : strtol s = some n) :
    ∃ negative base ds, Written negative base ds (lskip s) ∧ n = toLong negative (number base ds) := by
  unfold strtol at h
  dsimp only at h
  split_ifs at h with hne
  obtain ⟨sign, hsign, hs⟩ := exists_sign (lskip s)
  refine ⟨_, _, _, ?_, (Option.some.inj h).symm⟩
  generalize readSign (lskip s) = r at hsign hs hne
  obtain ⟨negative, t⟩ := r
  rw [hs]
  dsimp only at hsign hne ⊢
  cases t with
  | nil => exact absurd rfl hne
  | cons z t =>
    by_cases hz : z = '0'.toUInt8
    · subst hz
      by_cases hhex : ∃ x c u, t = x :: c :: u ∧ x ∈ bytes "xX" ∧ digitVal c < 16
      · obtain ⟨x, c, u, rfl, hx, hc⟩ := hhex
        rw [readBase_hex hx hc] at hne ⊢
        obtain ⟨rest, hrest, hd⟩ := digits_takeWhile 16 (c :: u)
        have h := Written.hex hsign hx hd hne
        rwa [← hrest] at h
      · have hoctal : readBase ('0'.toUInt8 :: t) = (8, '0'.toUInt8 :: t) :=
          readBase_octal fun x c u ht hx hc => hhex ⟨x, c, u, ht, hx, hc⟩
        rw [hoctal]
        obtain ⟨rest, hrest, hd⟩ := digits_takeWhile 8 ('0'.toUInt8 :: t)
        have hhead : (('0'.toUInt8 :: t).takeWhile fun c => decide (digitVal c < 8)).head? =
            some '0'.toUInt8 := by
          rw [List.takeWhile_cons_of_pos (by decide)]
          rfl
        have h := Written.octal hsign hd hhead fun x c u hds hu hx hc => by
          rw [hds, hu] at hrest
          exact hhex ⟨x, c, u, (List.cons.inj hrest).2, hx, hc⟩
        rwa [← hrest] at h
    · rw [readBase_decimal hz] at hne ⊢
      obtain ⟨rest, hrest, hd⟩ := digits_takeWhile 10 (z :: t)
      have hhead : ((z :: t).takeWhile fun c => decide (digitVal c < 10)).head? ≠
          some '0'.toUInt8 := by
        rw [List.takeWhile_cons]
        split_ifs
        · exact fun h => hz (Option.some.inj h)
        · exact fun h => by cases h
      have h := Written.decimal hsign hd hne hhead
      rwa [← hrest] at h

/-- **`strtol`.** It reads what is written behind the spaces. -/
theorem strtol_eq_some_iff {s : List UInt8} {n : ℤ} :
    strtol s = some n ↔
      ∃ negative base ds, Written negative base ds (lskip s) ∧ n = toLong negative (number base ds) := by
  constructor
  · exact exists_written
  · rintro ⟨negative, base, ds, h, rfl⟩
    obtain ⟨pad, hpad, hs, hflush⟩ := exists_lskip s
    rw [← h.strtol]
    unfold strtol
    rw [lskip_of_flush hflush]

/-! ### The first value -/

theorem readSign_append {v : List UInt8} (hv : v ≠ []) (t : List UInt8) :
    readSign (v ++ t) = ((readSign v).1, (readSign v).2 ++ t) := by
  obtain ⟨c, v, rfl⟩ := List.exists_cons_of_ne_nil hv
  rw [List.cons_append, readSign, readSign]
  split_ifs <;> rfl

theorem readBase_append {c : UInt8} (h0 : c ≠ '0'.toUInt8) (hx : c ∉ bytes "xX")
    (hc : ¬ digitVal c < 16) (s t : List UInt8) :
    readBase (s ++ c :: t) = ((readBase s).1, (readBase s).2 ++ c :: t) := by
  match s with
  | [] => exact readBase_decimal h0 t
  | [z] =>
    by_cases hz : z = '0'.toUInt8
    · subst hz
      exact readBase_octal fun x b u hu hx' => absurd ((List.cons.inj hu).1 ▸ hx') hx
    · rw [List.singleton_append, readBase_decimal hz, readBase_decimal hz]
      rfl
  | z :: x :: s =>
    by_cases hz : z = '0'.toUInt8
    · subst hz
      cases s with
      | nil =>
        have h1 : readBase ('0'.toUInt8 :: [x]) = (8, ['0'.toUInt8, x]) :=
          readBase_octal fun x' b u hu => by cases hu
        have h2 : readBase ('0'.toUInt8 :: x :: c :: t) = (8, '0'.toUInt8 :: x :: c :: t) := by
          apply readBase_octal
          rintro x' b u hu -
          cases hu
          exact hc
        rw [h1]
        exact h2
      | cons b u =>
        by_cases hb : x ∈ bytes "xX" ∧ digitVal b < 16
        · rw [readBase_hex hb.1 hb.2]
          exact readBase_hex hb.1 hb.2 (u ++ c :: t)
        · have h : ∀ w, readBase ('0'.toUInt8 :: x :: b :: w) = (8, '0'.toUInt8 :: x :: b :: w) := by
            intro w
            apply readBase_octal
            rintro x' b' u' hu hx'
            cases hu
            exact fun hlt => hb ⟨hx', hlt⟩
          rw [h]
          exact h (u ++ c :: t)
    · rw [readBase_decimal hz]
      exact readBase_decimal hz _

theorem readBase_le (s : List UInt8) : (readBase s).1 ≤ 36 := by
  match s with
  | [] => decide
  | [z] =>
    rw [readBase]
    split_ifs <;> dsimp only <;> decide
  | z :: x :: s =>
    rw [readBase]
    split_ifs <;> dsimp only <;> decide

/-- A number ends with its line. -/
theorem strtol_append {v : List UInt8} (hv : v ≠ []) (hflush : Flush v) (t : List UInt8) :
    strtol (v ++ newline :: t) = strtol v := by
  have hbase := readBase_append (c := newline) (by decide) (by decide) (by decide)
  have hdig : ∀ (base : ℕ), base ≤ 36 → ¬ digitVal newline < base := by
    intro base hb
    have h : digitVal newline = 36 := by decide
    omega
  have hflush' : Flush (v ++ newline :: t) := by
    obtain ⟨c, v, rfl⟩ := List.exists_cons_of_ne_nil hv
    exact hflush
  unfold strtol
  dsimp only
  rw [lskip_of_flush hflush, lskip_of_flush hflush', readSign_append hv, hbase]
  dsimp only
  have htake : ∀ (s : List UInt8) (base : ℕ), base ≤ 36 →
      (s ++ newline :: t).takeWhile (fun c => decide (digitVal c < base)) =
        s.takeWhile fun c => decide (digitVal c < base) := by
    intro s base hb
    induction s with
    | nil => exact List.takeWhile_cons_of_neg (by simpa using hdig base hb)
    | cons c s ih =>
      rw [List.cons_append, List.takeWhile_cons, List.takeWhile_cons, ih]
  rw [htake _ _ (readBase_le _)]

/-- No value begins with a space. -/
theorem flush_of_mem_given {file sect name v : List UInt8} (h : v ∈ given file sect name) : Flush v := by
  obtain ⟨c, hc, rfl⟩ := List.mem_map.mp h
  have hcalls := (List.mem_filter.mp hc).1
  cases callable_of_outcomes (fun _ => lineText_of_mem) Place.kept_start (mem_calls.mp hcalls) with
  | entry _ _ _ hflush => exact hflush
  | more _ _ _ hmargin => exact hmargin.flush

/-- What `strtol` reads of values that have been put together. -/
theorem strtol_joined {vs : List (List UInt8)} (h : ∀ v ∈ vs, Flush v) :
    strtol (joined vs) = (vs.find? (· ≠ [])).bind strtol := by
  induction vs with
  | nil => rfl
  | cons v vs ih =>
    by_cases hv : v = []
    · subst hv
      exact ih fun w hw => h w (List.mem_cons_of_mem _ hw)
    · have hj : joined (v :: vs) = [newline].intercalate (v :: vs) := by
        unfold joined
        rw [List.dropWhile_cons_of_neg (by simpa using hv)]
      rw [hj, List.find?_cons_of_pos (by simpa using hv), Option.bind_some, intercalate_cons]
      cases vs with
      | nil => rw [List.flatMap_nil, List.append_nil]
      | cons w vs =>
        rw [List.flatMap_cons, List.cons_append]
        exact strtol_append hv (h v List.mem_cons_self) _

/-- `GetInteger` reads the first value that is not empty, whatever follows it. -/
theorem getInteger_eq (file : List UInt8) {sect name : List UInt8} (h : '='.toUInt8 ∉ name)
    (default_value : Int64) :
    (INIReader.ofFile (some file)).getInteger sect name default_value =
      (((given file sect name).find? (· ≠ [])).bind strtol).elim default_value Int64.ofInt := by
  have hflush : ∀ v ∈ given file sect name, Flush v := fun v => flush_of_mem_given
  have hjoined := strtol_joined hflush
  unfold INIReader.getInteger
  rw [get_joined file h, hjoined]
  cases ((given file sect name).find? (· ≠ [])).bind strtol <;> rfl

/-- **`GetInteger`**, of a name without `=`. The first value that is not empty counts, whatever
follows it. If a number is written there, it is that number as a `long`; if none is, or there is no
such value, it is the default. -/
theorem getInteger_spec (file sect name : List UInt8) (h : '='.toUInt8 ∉ name)
    (default_value : Int64) :
    (∀ v negative base ds, (given file sect name).find? (· ≠ []) = some v →
        Written negative base ds v →
        (INIReader.ofFile (some file)).getInteger sect name default_value =
          .ofInt (toLong negative (number base ds))) ∧
      ((∀ v negative base ds, (given file sect name).find? (· ≠ []) = some v →
          ¬ Written negative base ds v) →
        (INIReader.ofFile (some file)).getInteger sect name default_value = default_value) := by
  rw [getInteger_eq file h]
  constructor
  · intro v negative base ds hv hw
    rw [hv, Option.bind_some, hw.strtol, Option.elim_some]
  · intro hnone
    cases hv : (given file sect name).find? (· ≠ []) with
    | none => rfl
    | some v =>
      have hflush : Flush v := flush_of_mem_given (List.mem_of_find?_eq_some hv)
      rw [Option.bind_some]
      cases hs : strtol v with
      | none => rfl
      | some n =>
        obtain ⟨negative, base, ds, hw, -⟩ := exists_written hs
        rw [lskip_of_flush hflush] at hw
        exact absurd hw (hnone v negative base ds hv)

/-- A number in hexadecimal, with something behind it. -/
theorem written_hex : Written true 16 (bytes "4D2") (bytes "-0x4D2 to") :=
  show Written true 16 (bytes "4D2")
      (['-'.toUInt8] ++ '0'.toUInt8 :: 'x'.toUInt8 :: (bytes "4D2" ++ bytes " to")) from
    .hex .minus (by decide) (by decide) (by decide)

/-- It is read behind an empty value and in front of another one. -/
theorem getInteger_hex :
    (INIReader.ofFile (some (write [⟨bytes "s", [⟨bytes "n", [], [bytes "-0x4D2 to", bytes "7"]⟩]⟩]))).getInteger
      (bytes "s") (bytes "n") 5 = -1234 :=
  (getInteger_spec _ (bytes "s") (bytes "n") (by decide) 5).1 (bytes "-0x4D2 to") true 16
    (bytes "4D2") (by rw [given_write (by decide)]; decide) written_hex

/-! ### Writing a number -/

/-- A digit. -/
def digit (d : ℕ) : UInt8 := .ofNat (48 + d)

/-- A number in decimal. -/
def decimal (n : ℕ) : List UInt8 := if n = 0 then ['0'.toUInt8] else (Nat.digits 10 n).reverse.map digit

/-- An integer in decimal. -/
def decimalInt (x : ℤ) : List UInt8 := (if x < 0 then ['-'.toUInt8] else []) ++ decimal x.natAbs

theorem digitVal_digit {d : ℕ} (hd : d < 10) : digitVal (digit d) = d := by
  have hn : (digit d).toNat = 48 + d := by
    unfold digit
    rw [UInt8.toNat_ofNat']
    omega
  have h0 : ('0'.toUInt8).toNat = 48 := rfl
  have h9 : ('9'.toUInt8).toNat = 57 := rfl
  unfold digitVal
  rw [if_pos (by rw [UInt8.le_iff_toNat_le, UInt8.le_iff_toNat_le]; omega), hn]
  omega

theorem number_digits (n : ℕ) : number 10 ((Nat.digits 10 n).reverse.map digit) = n := by
  have h : ∀ ds : List ℕ, (∀ d ∈ ds, d < 10) → number 10 (ds.reverse.map digit) = Nat.ofDigits 10 ds := by
    intro ds
    induction ds with
    | nil => exact fun _ => rfl
    | cons d ds ih =>
      intro hd
      have ih' := ih fun e he => hd e (List.mem_cons_of_mem d he)
      unfold number at ih' ⊢
      rw [List.reverse_cons, List.map_append, List.foldl_append, ih', List.map_singleton,
        List.foldl_cons, List.foldl_nil, digitVal_digit (hd d List.mem_cons_self), Nat.ofDigits_cons]
      exact Nat.add_comm _ _
  rw [h _ fun d hd => Nat.digits_lt_base (by decide) hd, Nat.ofDigits_digits]

/-- A number in decimal is written as one, whatever is behind it that is no digit. -/
theorem written_decimal {negative : Bool} {sign : List UInt8} (hsign : IsSign negative sign) (n : ℕ)
    {rest : List UInt8} (hrest : ∀ c ∈ rest.head?, 36 ≤ digitVal c) :
    ∃ base ds, Written negative base ds (sign ++ (decimal n ++ rest)) ∧ number base ds = n := by
  unfold decimal
  split_ifs with hn
  · subst hn
    refine ⟨8, ['0'.toUInt8], .octal hsign ⟨fun c hc => ?_, fun c hc => ?_⟩ rfl ?_, rfl⟩
    · rw [List.mem_singleton.mp hc]
      decide
    · have h := hrest c hc
      omega
    · rintro x c s - rfl hx -
      have h := hrest x rfl
      rw [digitVal_of_mem_xX hx] at h
      omega
  · refine ⟨10, _, .decimal hsign ⟨fun c hc => ?_, fun c hc => ?_⟩ ?_ ?_, number_digits n⟩
    · obtain ⟨d, hd, rfl⟩ := List.mem_map.mp hc
      have hlt := Nat.digits_lt_base (by decide) (List.mem_reverse.mp hd)
      rw [digitVal_digit hlt]
      exact hlt
    · have h := hrest c hc
      omega
    · intro h
      have h' := congrArg List.length h
      rw [List.length_map, List.length_reverse, List.length_nil, List.length_eq_zero_iff] at h'
      exact hn (Nat.digits_eq_nil_iff_eq_zero.mp h')
    · rw [List.head?_map, List.head?_reverse,
        List.getLast?_eq_some_getLast (Nat.digits_ne_nil_iff_ne_zero.mpr hn), Option.map_some]
      intro h
      have hlast := Nat.getLast_digit_ne_zero 10 hn
      have hlt := Nat.digits_lt_base (b := 10) (by decide)
        (List.getLast_mem (Nat.digits_ne_nil_iff_ne_zero.mpr hn))
      have hval := digitVal_digit hlt
      rw [Option.some.inj h] at hval
      exact hlast hval.symm

/-- **A number in decimal** is read back, if it is a `long`. -/
theorem strtol_decimalInt (x : Int64) : strtol (decimalInt x.toInt) = some x.toInt := by
  have hle := x.le_toInt
  have hlt := x.toInt_lt
  have hrest : ∀ c ∈ ([] : List UInt8).head?, 36 ≤ digitVal c := fun c hc => by cases hc
  unfold decimalInt
  split_ifs with hneg
  · obtain ⟨base, ds, hw, hn⟩ := written_decimal .minus x.toInt.natAbs hrest
    rw [List.append_nil] at hw
    rw [hw.strtol, hn, toLong, if_pos rfl]
    congr 1
    omega
  · obtain ⟨base, ds, hw, hn⟩ := written_decimal .none x.toInt.natAbs hrest
    rw [List.append_nil] at hw
    rw [hw.strtol, hn, toLong, if_neg Bool.false_ne_true]
    congr 1
    omega

end Syinx.Ini
