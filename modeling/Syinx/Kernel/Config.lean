import Syinx.Pthread.LifeCycle

/-!
# The configuration

`SyinxKernel::Config` reads `Config.ini` and refuses what it cannot use. An integer
comes from `INIReader::GetInteger` as a 64-bit `long`, with `-1` for a value that is
missing, and is cut down to the `short` or the `int` of its field before it is compared
with `-1`. From the fields the values go on: `m_Port` to a `uint16_t`,
`m_ClientContentNum` to the `size_t m_IChannelNum` of the resource manager, `m_TaskNum` to
the `uint32_t` parameter of `SyinxPthreadPool::Initialize` and from there to the `int`
`queue_size`.

The logger's own configuration file is not part of it.

## What is proved

* `config_fst_iff`, `config_snd` — which settings `Config` accepts, and the fields it leaves.
* `queueSize_eq_some` — the pool that is started with the fields has that `queue_size`.
* `kept_iff` — for which settings `Config` does what it is for.
-/

namespace Syinx.Kernel

open Syinx.Library Syinx.Pthread

/-! ### Conversions -/

theorem bmod_eq_neg_one_iff {x : ℤ} {m : ℕ} (hm : 2 ≤ m) : x.bmod m = -1 ↔ x % m = m - 1 := by
  have h0 : 0 ≤ x % m := Int.emod_nonneg x (by omega)
  have h1 : x % m < m := Int.emod_lt_of_pos x (by omega)
  rw [Int.bmod_def]
  split_ifs <;> omega

/-- When a `long` becomes `-1` as a `short`. -/
theorem toInt16_eq_neg_one_iff (x : Int64) : x.toInt16 = -1 ↔ x.toInt % 2 ^ 16 = 2 ^ 16 - 1 := by
  rw [← Int16.toInt_inj, Int64.toInt_toInt16]
  exact bmod_eq_neg_one_iff (m := 2 ^ 16) (by omega)

/-- When a `long` becomes `-1` as an `int`. -/
theorem toInt32_eq_neg_one_iff (x : Int64) : x.toInt32 = -1 ↔ x.toInt % 2 ^ 32 = 2 ^ 32 - 1 := by
  rw [← Int32.toInt_inj, Int64.toInt_toInt32]
  exact bmod_eq_neg_one_iff (m := 2 ^ 32) (by omega)

/-- The bits of a number, read without the sign. -/
theorem toNat_eq_toInt_emod {w : ℕ} (b : BitVec w) : (b.toNat : ℤ) = b.toInt % 2 ^ w := by
  have h := b.isLt
  have hw : ((2 ^ w : ℕ) : ℤ) = 2 ^ w := Nat.cast_pow 2 w
  rw [BitVec.toInt_eq_toNat_cond, ← hw]
  split_ifs with hs
  · exact (Int.emod_eq_of_lt (by omega) (by omega)).symm
  · rw [Int.sub_emod_right]
    exact (Int.emod_eq_of_lt (by omega) (by omega)).symm

/-- A `long` keeps its value on the way through a `short` to a `uint16_t`. -/
theorem toUInt16_toInt16_eq_iff (x : Int64) :
    (x.toInt16.toUInt16.toNat : ℤ) = x.toInt ↔ 0 ≤ x.toInt ∧ x.toInt < 2 ^ 16 := by
  have h1 : (x.toInt16.toUInt16.toNat : ℤ) = x.toInt16.toInt % 2 ^ 16 :=
    toNat_eq_toInt_emod x.toInt16.toBitVec
  rw [h1, Int64.toInt_toInt16, Int.bmod_def]
  split_ifs <;> omega

/-- A `long` keeps its value on the way through an `int` to a `size_t`. -/
theorem toUInt64_toInt32_eq_iff (x : Int64) :
    (x.toInt32.toInt64.toUInt64.toNat : ℤ) = x.toInt ↔ 0 ≤ x.toInt ∧ x.toInt < 2 ^ 31 := by
  have h1 : (x.toInt32.toInt64.toUInt64.toNat : ℤ) = x.toInt32.toInt64.toInt % 2 ^ 64 :=
    toNat_eq_toInt_emod x.toInt32.toInt64.toBitVec
  have h0 := x.le_toInt
  have h2 := x.toInt_lt
  rw [h1, Int32.toInt_toInt64, Int64.toInt_toInt32, Int.bmod_def]
  split_ifs <;> omega

/-- A `long` keeps its value on the way through two `int`s with a `uint32_t` between. -/
theorem intOfUint32_toInt32 (x : Int64) :
    intOfUint32 (.ofInt x.toInt32.toInt) = x.toInt.bmod (2 ^ 32) := by
  have h1 : 0 ≤ x.toInt32.toInt % 2 ^ 32 := Int.emod_nonneg _ (by omega)
  have h2 : (UInt32.ofInt x.toInt32.toInt).toBitVec =
      BitVec.ofNat 32 (x.toInt32.toInt % 2 ^ 32).toNat := rfl
  rw [intOfUint32, h2, BitVec.toInt_ofNat', Int.toNat_of_nonneg h1, Int64.toInt_toInt32]
  simp only [Int.bmod_def]
  split_ifs <;> omega

/-! ### Config -/

/-- What `Config.ini` says. An integer is as `GetInteger` returns it, a string that is missing
is empty. -/
structure Settings where
  /-- `ParseError()`. -/
  parseError : Bool
  /-- `LogConfigPath`. -/
  logConfigPath : String
  /-- `Port`. -/
  port : Int64
  /-- `ConnectNum`. -/
  connectNum : Int64
  /-- `UsePthreadPool`. -/
  usePthreadPool : Bool
  /-- `SetThreadNum`. -/
  setThreadNum : Int64
  /-- `SetTaskNum`. -/
  setTaskNum : Int64
  /-- `SetModel`. -/
  setModel : String

/-- `INIReader::GetString`, of what the file has. -/
def getString (str default_value : String) : String := if str.isEmpty then default_value else str

/-- `SERVER_MODE_TCP`. -/
def serverModeTcp : Int32 := 0x01

/-- `SERVER_MODE_HTTP`. -/
def serverModeHttp : Int32 := 0x02

/-- The fields of `SyinxKernel` that `Config` sets. -/
structure Fields where
  /-- `m_Port`. -/
  port : Int16
  /-- `m_ClientContentNum`. -/
  clientContentNum : Int32
  /-- `m_PthPoolNum`. -/
  pthPoolNum : Int32
  /-- `m_TaskNum`. -/
  taskNum : Int32
  /-- `mUsePthreadPool`. -/
  usePthreadPool : Bool
  /-- `m_SvModle`. -/
  svModle : Int32
  deriving DecidableEq

namespace Fields

/-- After the constructor. -/
def new : Fields := ⟨0, 0, 0, 0, false, 0⟩

/-- `SyinxKernel::Config`, and what it returns. -/
def config (k : Fields) (f : Settings) : Bool × Fields :=
  if f.parseError then (false, k)
  else if getString f.logConfigPath "" = "" then (false, k)
  else
    let k := { k with port := f.port.toInt16 }
    if k.port = -1 then (false, k)
    else
      let k := { k with clientContentNum := f.connectNum.toInt32 }
      if k.clientContentNum = -1 then (false, k)
      else
        let k := { k with
          usePthreadPool := f.usePthreadPool
          pthPoolNum := f.setThreadNum.toInt32 }
        if k.pthPoolNum = -1 then (false, k)
        else
          let k := { k with taskNum := f.setTaskNum.toInt32 }
          if k.taskNum = -1 then (false, k)
          else
            let temp := getString f.setModel "Failed"
            if temp = "Failed" then (false, k)
            else if temp = "TCP" ∨ temp = "Tcp" ∨ temp = "tcp" then
              (true, { k with svModle := serverModeTcp })
            else if temp = "HTTP" ∨ temp = "Http" ∨ temp = "http" then
              (true, { k with svModle := serverModeHttp })
            -- any other model goes through, with `m_SvModle` as it is
            else (true, k)

/-! ### What the fields are used for -/

/-- The port of `TCPServer` and `HTTPServer`. -/
def sinPort (k : Fields) : UInt16 := k.port.toUInt16

/-- `m_IChannelNum` of `SyinxAdapterResource(m_ClientContentNum)`. -/
def ichannelNum (k : Fields) : UInt64 := k.clientContentNum.toInt64.toUInt64

/-- `queue_size` of the pool that is started, if one is. -/
def queueSize (k : Fields) : Option ℤ :=
  if k.pthPoolNum > 1 ∧ k.usePthreadPool = true then some (intOfUint32 (.ofInt k.taskNum.toInt))
  else none

/-- The pool that `SyinxKernelInitAdapter` starts has this `queue_size`, whether its
`Initialize` gets through or not. -/
theorem queueSize_eq_some {F A : Type} (k : Fields) (cells : ℤ → SyPthreadPoolTask F A)
    (o : InitResults) {s : Life F A}
    (h : exec Life.step Life.start (syinxKernelInitAdapter k.usePthreadPool k.pthPoolNum.toInt
      k.taskNum.toInt cells o) = some s) (q : ℤ) :
    k.queueSize = some q ↔ ∃ p, s.obj.pthPool = .live p ∧ p.queueSize = q := by
  have hnum : k.pthPoolNum > 1 ↔ k.pthPoolNum.toInt > 1 := Int32.lt_iff_toInt_lt
  unfold syinxKernelInitAdapter at h
  unfold queueSize
  by_cases hc : k.pthPoolNum > 1 ∧ k.usePthreadPool = true
  · rw [if_pos ⟨hnum.mp hc.1, hc.2⟩] at h
    obtain ⟨u, hu, hx⟩ := exec_cons_eq_some.mp h
    cases hu
    cases hx
    obtain ⟨p, hp, -, hq⟩ := SyinxPthreadPool.init_pthPool Life.start.obj
      (.ofInt k.pthPoolNum.toInt) (.ofInt k.taskNum.toInt) cells o
    rw [if_pos hc, Option.some_inj, ← hq]
    constructor
    · intro hpq
      exact ⟨p, hp, hpq⟩
    · rintro ⟨p', hp', hq'⟩
      rw [hp] at hp'
      cases hp'
      exact hq'
  · rw [if_neg fun hc' => hc ⟨hnum.mpr hc'.1, hc'.2⟩] at h
    cases h
    rw [if_neg hc]
    apply iff_of_false (by simp)
    rintro ⟨p, hp, -⟩
    cases hp

end Fields

/-! ### Which settings are kept -/

/-- Either spelling of a model. -/
def KnownModel (str : String) : Prop :=
  str ∈ ["TCP", "Tcp", "tcp"] ∨ str ∈ ["HTTP", "Http", "http"]

namespace Settings

/-- The settings a server can work with. -/
structure Usable (f : Settings) : Prop where
  port : 1 ≤ f.port.toInt ∧ f.port.toInt ≤ 65535
  connectNum : 1 ≤ f.connectNum.toInt ∧ f.connectNum.toInt < 2 ^ 31
  setTaskNum : 1 ≤ f.setTaskNum.toInt ∧ f.setTaskNum.toInt < 2 ^ 31
  setThreadNum : 0 ≤ f.setThreadNum.toInt ∧ f.setThreadNum.toInt < 2 ^ 31
  setModel : KnownModel f.setModel

/-- What the server works with is what is in the file. -/
structure Faithful (f : Settings) (k : Fields) : Prop where
  port : (k.sinPort.toNat : ℤ) = f.port.toInt
  connectNum : (k.ichannelNum.toNat : ℤ) = f.connectNum.toInt
  setTaskNum : ∀ q, k.queueSize = some q → q = f.setTaskNum.toInt ∧ 1 ≤ q
  setModel : k.svModle = serverModeTcp ∨ k.svModle = serverModeHttp

/-- What `Config` is for. -/
structure Kept (f : Settings) : Prop where
  /-- What is accepted is kept. -/
  faithful : (Fields.new.config f).1 = true → f.Faithful (Fields.new.config f).2
  /-- What can be used is accepted. -/
  accepted : f.Usable → (Fields.new.config f).1 = true

/-- A value is not there, or is `-1` when it is cut down. -/
def Refused (f : Settings) : Prop :=
  f.port.toInt % 2 ^ 16 = 2 ^ 16 - 1 ∨ f.connectNum.toInt % 2 ^ 32 = 2 ^ 32 - 1 ∨
    f.setThreadNum.toInt % 2 ^ 32 = 2 ^ 32 - 1 ∨ f.setTaskNum.toInt % 2 ^ 32 = 2 ^ 32 - 1 ∨
    f.setModel = "" ∨ f.setModel = "Failed"

/-- The values fit where they go. -/
structure Fits (f : Settings) : Prop where
  port : 0 ≤ f.port.toInt ∧ f.port.toInt < 2 ^ 16
  connectNum : 0 ≤ f.connectNum.toInt ∧ f.connectNum.toInt < 2 ^ 31
  /-- If there is a pool. -/
  setTaskNum : f.usePthreadPool = true → 1 < f.setThreadNum.toInt.bmod (2 ^ 32) →
    1 ≤ f.setTaskNum.toInt ∧ f.setTaskNum.toInt < 2 ^ 31
  setModel : KnownModel f.setModel

end Settings

open Settings

theorem getString_eq_failed (str : String) :
    getString str "Failed" = "Failed" ↔ str = "" ∨ str = "Failed" := by
  unfold getString
  split_ifs with he
  · exact iff_of_true rfl (.inl (String.isEmpty_iff.mp he))
  · exact (or_iff_right fun h => he (String.isEmpty_iff.mpr h)).symm

theorem getString_of_ne {str d : String} (h : str ≠ "") : getString str d = str :=
  if_neg fun he => h (String.isEmpty_iff.mp he)

theorem refuse_fst {p : Prop} [Decidable p] {k : Fields} {x : Bool × Fields} :
    (if p then (false, k) else x).1 = true ↔ ¬ p ∧ x.1 = true := by
  split_ifs with hp
  · exact iff_of_false (by simp) fun h => h.1 hp
  · exact (and_iff_right hp).symm

/-- **What `Config` accepts.** -/
theorem config_fst_iff {f : Settings} (hparse : f.parseError = false) (hlog : f.logConfigPath ≠ "")
    (k : Fields) : (k.config f).1 = true ↔ ¬ f.Refused := by
  have hmodel : ∀ (p q : Prop) [Decidable p] [Decidable q] (k₁ k₂ k₃ : Fields),
      (if p then (true, k₁) else if q then (true, k₂) else (true, k₃)).1 = true := by
    intro p q _ _ k₁ k₂ k₃
    split_ifs <;> rfl
  have hparse' : ¬ f.parseError = true := by rw [hparse]; decide
  unfold Fields.config Refused
  rw [refuse_fst, refuse_fst, refuse_fst, refuse_fst, refuse_fst, refuse_fst, refuse_fst,
    getString_of_ne hlog, toInt16_eq_neg_one_iff, toInt32_eq_neg_one_iff, toInt32_eq_neg_one_iff,
    toInt32_eq_neg_one_iff, getString_eq_failed, and_iff_right hparse', and_iff_right hlog,
    and_iff_left (hmodel ..)]
  simp only [not_or]

/-- The fields `Config` leaves, if it accepts the settings. -/
theorem config_snd {f : Settings} {k : Fields} (h : (k.config f).1 = true) :
    (k.config f).2 = {
      port := f.port.toInt16
      clientContentNum := f.connectNum.toInt32
      pthPoolNum := f.setThreadNum.toInt32
      taskNum := f.setTaskNum.toInt32
      usePthreadPool := f.usePthreadPool
      svModle :=
        if f.setModel ∈ ["TCP", "Tcp", "tcp"] then serverModeTcp
        else if f.setModel ∈ ["HTTP", "Http", "http"] then serverModeHttp
        else k.svModle } := by
  unfold Fields.config at h ⊢
  rw [refuse_fst, refuse_fst, refuse_fst, refuse_fst, refuse_fst, refuse_fst, refuse_fst] at h
  obtain ⟨h1, h2, h3, h4, h5, h6, h7, -⟩ := h
  have hmodel : getString f.setModel "Failed" = f.setModel :=
    getString_of_ne fun he => h7 ((getString_eq_failed _).mpr (.inl he))
  rw [if_neg h1, if_neg h2, if_neg h3, if_neg h4, if_neg h5, if_neg h6, if_neg h7, hmodel]
  simp only [List.mem_cons, List.not_mem_nil, or_false]
  split_ifs <;> rfl

/-! ### When it does what it is for -/

/-- The pool gets its queue. -/
theorem setTaskNum_iff (f : Settings) (port : Int16) (num : Int32) (model : Int32) :
    (∀ q, (⟨port, num, f.setThreadNum.toInt32, f.setTaskNum.toInt32, f.usePthreadPool, model⟩ :
        Fields).queueSize = some q → q = f.setTaskNum.toInt ∧ 1 ≤ q) ↔
      (f.usePthreadPool = true → 1 < f.setThreadNum.toInt.bmod (2 ^ 32) →
        1 ≤ f.setTaskNum.toInt ∧ f.setTaskNum.toInt < 2 ^ 31) := by
  have hnum : f.setThreadNum.toInt32 > 1 ↔ 1 < f.setThreadNum.toInt.bmod (2 ^ 32) := by
    rw [← Int64.toInt_toInt32]
    exact Int32.lt_iff_toInt_lt
  have hfit : (f.setTaskNum.toInt.bmod (2 ^ 32) = f.setTaskNum.toInt ∧
      1 ≤ f.setTaskNum.toInt.bmod (2 ^ 32)) ↔ 1 ≤ f.setTaskNum.toInt ∧ f.setTaskNum.toInt < 2 ^ 31 := by
    rw [Int.bmod_def]
    split_ifs <;> omega
  unfold Fields.queueSize
  dsimp only
  rw [intOfUint32_toInt32, ← hfit, ← hnum]
  split_ifs with hc
  · constructor
    · intro h _ _
      exact h _ rfl
    · rintro h q ⟨⟩
      exact h hc.2 hc.1
  · exact iff_of_true (fun q hq => by cases hq) fun h1 h2 => absurd ⟨h2, h1⟩ hc

/-- The server gets its mode. -/
theorem setModel_iff (str : String) {old model : Int32} (hold : old = 0)
    (hmodel : model = if str ∈ ["TCP", "Tcp", "tcp"] then serverModeTcp
      else if str ∈ ["HTTP", "Http", "http"] then serverModeHttp else old) :
    model = serverModeTcp ∨ model = serverModeHttp ↔ KnownModel str := by
  subst hold hmodel
  unfold KnownModel
  split_ifs with h1 h2
  · exact iff_of_true (.inl rfl) (.inl h1)
  · exact iff_of_true (.inr rfl) (.inr h2)
  · exact iff_of_false (by decide) fun h => h.elim h1 h2

/-- What the fields are used for is what is in the file, if and only if it fits. -/
theorem faithful_iff_fits {f : Settings} (h : (Fields.new.config f).1 = true) :
    f.Faithful (Fields.new.config f).2 ↔ f.Fits := by
  rw [config_snd h]
  constructor
  · rintro ⟨hport, hnum, htask, hmodel⟩
    exact ⟨(toUInt16_toInt16_eq_iff _).mp hport, (toUInt64_toInt32_eq_iff _).mp hnum,
      (setTaskNum_iff ..).mp htask, (setModel_iff _ rfl rfl).mp hmodel⟩
  · rintro ⟨hport, hnum, htask, hmodel⟩
    exact ⟨(toUInt16_toInt16_eq_iff _).mpr hport, (toUInt64_toInt32_eq_iff _).mpr hnum,
      (setTaskNum_iff ..).mpr htask, (setModel_iff _ rfl rfl).mpr hmodel⟩

/-- Of what could be used, only the port 65535 is refused. -/
theorem Settings.Usable.refused_iff {f : Settings} (h : f.Usable) :
    f.Refused ↔ f.port.toInt = 65535 := by
  obtain ⟨hport, hnum, htask, hthread, hmodel⟩ := h
  have hempty : ¬ (f.setModel = "" ∨ f.setModel = "Failed") := by
    rintro (he | he) <;> rw [he] at hmodel <;> revert hmodel <;> unfold KnownModel <;> decide
  constructor
  · rintro (h | h | h | h | h)
    · omega
    · omega
    · omega
    · omega
    · exact absurd h hempty
  · intro h
    left
    omega

/-- **The configuration.** `Config` accepts what can be used, and keeps the values of what it
accepts, exactly if the port is not 65535 in settings that could be used otherwise, and the
values fit unless one of them is not there or is `-1` when it is cut down. -/
theorem kept_iff (f : Settings) (hparse : f.parseError = false) (hlog : f.logConfigPath ≠ "") :
    f.Kept ↔ (f.Usable → f.port.toInt ≠ 65535) ∧ (¬ f.Refused → f.Fits) := by
  have hacc := config_fst_iff hparse hlog Fields.new
  constructor
  · rintro ⟨hfaithful, haccepted⟩
    refine ⟨fun hu h => ?_, fun hr => ?_⟩
    · exact hacc.mp (haccepted hu) (hu.refused_iff.mpr h)
    · exact (faithful_iff_fits (hacc.mpr hr)).mp (hfaithful (hacc.mpr hr))
  · rintro ⟨hport, hfits⟩
    refine ⟨fun h => ?_, fun hu => ?_⟩
    · exact (faithful_iff_fits h).mpr (hfits (hacc.mp h))
    · exact hacc.mpr fun hr => hport hu (hu.refused_iff.mp hr)

/-- The configuration in the repository, with this port. -/
def settingsOf (port : Int64) : Settings where
  parseError := false
  logConfigPath := "./Syinx-Server.logger.conf"
  port := port
  connectNum := 10000
  usePthreadPool := true
  setThreadNum := 4
  setTaskNum := 10000
  setModel := "tcp"

theorem usable_settingsOf {port : Int64} (h : 1 ≤ port.toInt ∧ port.toInt ≤ 65535) :
    (settingsOf port).Usable where
  port := h
  connectNum := show 1 ≤ (10000 : Int64).toInt ∧ (10000 : Int64).toInt < 2 ^ 31 by decide
  setTaskNum := show 1 ≤ (10000 : Int64).toInt ∧ (10000 : Int64).toInt < 2 ^ 31 by decide
  setThreadNum := show 0 ≤ (4 : Int64).toInt ∧ (4 : Int64).toInt < 2 ^ 31 by decide
  setModel := show "tcp" ∈ ["TCP", "Tcp", "tcp"] ∨ "tcp" ∈ ["HTTP", "Http", "http"] by decide

/-- It is the port of the repository. -/
theorem kept_port20001 : (settingsOf 20001).Usable ∧ (settingsOf 20001).Kept := by
  refine ⟨usable_settingsOf (by decide), (kept_iff _ rfl (by decide)).mpr ⟨fun _ => by decide, fun _ => ?_⟩⟩
  exact ⟨by decide, by decide, by decide, by unfold KnownModel; decide⟩

/-- The largest port there is becomes `-1`. -/
theorem not_kept_port65535 :
    (settingsOf 65535).Usable ∧ (Fields.new.config (settingsOf 65535)).1 = false ∧
      ¬ (settingsOf 65535).Kept := by
  have hu : (settingsOf 65535).Usable := usable_settingsOf (by decide)
  have hrefused : (Fields.new.config (settingsOf 65535)).1 = false := by decide
  refine ⟨hu, hrefused, fun h => ?_⟩
  have hacc := h.accepted hu
  rw [hrefused] at hacc
  cases hacc

/-- A port that is too large becomes another one. -/
example : (Fields.new.config (settingsOf 65537)).1 = true ∧
    (Fields.new.config (settingsOf 65537)).2.sinPort = 1 := by decide

end Syinx.Kernel
