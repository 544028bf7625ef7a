import Syinx.Ini.Number
import Syinx.Kernel.Config

/-!
# The configuration file

`SyinxKernel::Config` with its file: what it asks the reader of `Config.ini` for, from the bytes of
the file to the fields of the kernel.

## What is proved

* `settings_write` — settings that have been written are read back.
* `configFile_iff` — **which files `Config` accepts**.
-/

namespace Syinx.Kernel

open Syinx.Ini

/-- The string with these bytes. -/
def text (bs : List UInt8) : String := String.ofList (bs.map Char.ofUInt8)

/-- The section of the server. -/
def serverConfig : List UInt8 := bytes "ServerConfig"

/-- The section of the pool. -/
def pthreadSetting : List UInt8 := bytes "PthreadSetting"

/-- What `Config` asks the reader for. Of a string it is what there is, or nothing. -/
def Settings.ofReader (r : INIReader) : Settings where
  parseError := r.error ≠ 0
  logConfigPath := text (r.get serverConfig (bytes "LogConfigPath") [])
  port := r.getInteger serverConfig (bytes "Port") (-1)
  connectNum := r.getInteger serverConfig (bytes "ConnectNum") (-1)
  usePthreadPool := r.getBoolean pthreadSetting (bytes "UsePthreadPool") false
  setThreadNum := r.getInteger pthreadSetting (bytes "SetThreadNum") (-1)
  setTaskNum := r.getInteger pthreadSetting (bytes "SetTaskNum") (-1)
  setModel := text (r.get serverConfig (bytes "SetModel") [])

/-- `SyinxKernel::Config`, of the file that is there. -/
def Fields.configFile (k : Fields) (file : Option (List UInt8)) : Bool × Fields :=
  k.config (.ofReader (.ofFile file))

theorem text_eq_empty_iff {bs : List UInt8} : text bs = "" ↔ bs = [] := by
  unfold text
  constructor
  · intro h
    have h' := congrArg String.toList h
    rw [String.toList_ofList] at h'
    exact List.map_eq_nil_iff.mp h'
  · rintro rfl
    rfl

/-- `GetString` is what `Config` makes of what there is. -/
theorem text_getString (r : INIReader) (sect name default_value : List UInt8) :
    text (r.getString sect name default_value) = getString (text (r.get sect name [])) (text default_value) := by
  unfold INIReader.getString getString
  by_cases h : r.get sect name [] = []
  · rw [if_pos h, if_pos (String.isEmpty_iff.mpr (text_eq_empty_iff.mpr h))]
  · rw [if_neg h, if_neg fun h' => h (text_eq_empty_iff.mp (String.isEmpty_iff.mp h'))]

/-! ### Which files are accepted -/

/-- The number that a file gives for a name: its first value that is not empty. -/
def numberOf (file sect name : List UInt8) : Option ℤ :=
  ((given file sect name).find? (· ≠ [])).bind strtol

/-- What a configuration file has to say. A number must not become `-1` when it is cut. -/
structure Accepted (file : List UInt8) : Prop where
  document : ∃ cs, Document Place.start (texts file) cs
  logConfigPath : ∃ v ∈ given file serverConfig (bytes "LogConfigPath"), v ≠ []
  port : ∃ n, numberOf file serverConfig (bytes "Port") = some n ∧ n % 2 ^ 16 ≠ 2 ^ 16 - 1
  connectNum : ∃ n, numberOf file serverConfig (bytes "ConnectNum") = some n ∧ n % 2 ^ 32 ≠ 2 ^ 32 - 1
  setThreadNum : ∃ n, numberOf file pthreadSetting (bytes "SetThreadNum") = some n ∧
    n % 2 ^ 32 ≠ 2 ^ 32 - 1
  setTaskNum : ∃ n, numberOf file pthreadSetting (bytes "SetTaskNum") = some n ∧
    n % 2 ^ 32 ≠ 2 ^ 32 - 1
  setModel : (∃ v ∈ given file serverConfig (bytes "SetModel"), v ≠ []) ∧
    joined (given file serverConfig (bytes "SetModel")) ≠ bytes "Failed"

/-- A number is a `long`. -/
theorem strtol_range {s : List UInt8} {n : ℤ} (h : strtol s = some n) : -2 ^ 63 ≤ n ∧ n < 2 ^ 63 := by
  obtain ⟨negative, base, ds, -, rfl⟩ := strtol_eq_some_iff.mp h
  unfold toLong
  split_ifs <;> omega

/-- What `GetInteger` makes of a number that is there, or of none. -/
theorem getInteger_numberOf (file : List UInt8) {sect name : List UInt8} (h : '='.toUInt8 ∉ name)
    {m : ℤ} (hm : 2 ≤ m) :
    ((INIReader.ofFile (some file)).getInteger sect name (-1)).toInt % m ≠ m - 1 ↔
      ∃ n, numberOf file sect name = some n ∧ n % m ≠ m - 1 := by
  rw [getInteger_eq file h, ← numberOf]
  cases hn : numberOf file sect name with
  | none =>
    have hneg : (-1 : ℤ) % m = m - 1 := by
      rw [Int.emod_eq_iff (by omega)]
      exact ⟨by omega, by omega, ⟨1, by ring⟩⟩
    apply iff_of_false
    · rw [Option.elim_none, not_not]
      exact hneg
    · rintro ⟨n, h, -⟩
      cases h
  | some n =>
    obtain ⟨v, -, hv⟩ := Option.bind_eq_some_iff.mp hn
    obtain ⟨hle, hlt⟩ := strtol_range hv
    rw [Option.elim_some, Int64.toInt_ofInt_of_le hle hlt]
    constructor
    · exact fun hne => ⟨n, rfl, hne⟩
    · rintro ⟨n', hn', hne⟩
      cases hn'
      exact hne

theorem text_inj {bs cs : List UInt8} : text bs = text cs ↔ bs = cs := by
  have hinj : Function.Injective Char.ofUInt8 := by
    intro a b h
    exact UInt8.toUInt32_inj.mp (congrArg Char.val h)
  unfold text
  rw [String.ofList_inj, (List.map_injective_iff.mpr hinj).eq_iff]

theorem parseError_iff (file : List UInt8) :
    (INIReader.ofFile (some file)).error = 0 ↔ ∃ cs, Document Place.start (texts file) cs := by
  unfold INIReader.ofFile
  rw [parse_spec]
  dsimp only
  rw [Int.natCast_eq_zero, firstLine_failing fun _ _ _ _ => rfl]
  constructor
  · exact fun h => ⟨calls file, document_iff.mpr ⟨h, rfl⟩⟩
  · rintro ⟨cs, h⟩
    exact (document_iff.mp h).1

/-- What `Config` looks at first. -/
theorem of_config_fst {k : Fields} {f : Settings} (h : (k.config f).1 = true) :
    f.parseError = false ∧ f.logConfigPath ≠ "" := by
  unfold Fields.config at h
  rw [refuse_fst, refuse_fst] at h
  refine ⟨eq_false_of_ne_true h.1, fun he => h.2.1 ?_⟩
  rw [he]
  rfl

theorem joined_ne_nil_iff {vs : List (List UInt8)} : joined vs ≠ [] ↔ ∃ v ∈ vs, v ≠ [] := by
  rw [Ne, joined_eq_nil_iff, not_not]

theorem not_refused_iff {f : Settings} :
    ¬ f.Refused ↔ f.port.toInt % 2 ^ 16 ≠ 2 ^ 16 - 1 ∧ f.connectNum.toInt % 2 ^ 32 ≠ 2 ^ 32 - 1 ∧
      f.setThreadNum.toInt % 2 ^ 32 ≠ 2 ^ 32 - 1 ∧ f.setTaskNum.toInt % 2 ^ 32 ≠ 2 ^ 32 - 1 ∧
      ¬ f.setModel = "" ∧ ¬ f.setModel = "Failed" := by
  unfold Settings.Refused
  simp only [not_or, ne_eq]

/-- **Which files `Config` accepts.** -/
theorem configFile_iff (file : List UInt8) :
    (Fields.new.configFile (some file)).1 = true ↔ Accepted file := by
  have hparse : (Settings.ofReader (.ofFile (some file))).parseError = false ↔
      ∃ cs, Document Place.start (texts file) cs := by
    rw [← parseError_iff]
    exact decide_eq_false_iff_not.trans not_not
  have hlog : (Settings.ofReader (.ofFile (some file))).logConfigPath ≠ "" ↔
      ∃ v ∈ given file serverConfig (bytes "LogConfigPath"), v ≠ [] := by
    rw [← joined_ne_nil_iff, ← get_joined file (by decide)]
    exact text_eq_empty_iff.not
  have hempty : (Settings.ofReader (.ofFile (some file))).setModel = "" ↔
      ¬ ∃ v ∈ given file serverConfig (bytes "SetModel"), v ≠ [] := by
    rw [← joined_eq_nil_iff, ← get_joined file (by decide)]
    exact text_eq_empty_iff
  have hfailed : (Settings.ofReader (.ofFile (some file))).setModel = "Failed" ↔
      joined (given file serverConfig (bytes "SetModel")) = bytes "Failed" := by
    rw [← get_joined file (by decide)]
    exact @text_inj _ (bytes "Failed")
  have hport : (Settings.ofReader (.ofFile (some file))).port.toInt % 2 ^ 16 ≠ 2 ^ 16 - 1 ↔
      ∃ n, numberOf file serverConfig (bytes "Port") = some n ∧ n % 2 ^ 16 ≠ 2 ^ 16 - 1 :=
    getInteger_numberOf file (by decide) (by decide)
  have hconn : (Settings.ofReader (.ofFile (some file))).connectNum.toInt % 2 ^ 32 ≠ 2 ^ 32 - 1 ↔
      ∃ n, numberOf file serverConfig (bytes "ConnectNum") = some n ∧ n % 2 ^ 32 ≠ 2 ^ 32 - 1 :=
    getInteger_numberOf file (by decide) (by decide)
  have hthread : (Settings.ofReader (.ofFile (some file))).setThreadNum.toInt % 2 ^ 32 ≠ 2 ^ 32 - 1 ↔
      ∃ n, numberOf file pthreadSetting (bytes "SetThreadNum") = some n ∧ n % 2 ^ 32 ≠ 2 ^ 32 - 1 :=
    getInteger_numberOf file (by decide) (by decide)
  have htask : (Settings.ofReader (.ofFile (some file))).setTaskNum.toInt % 2 ^ 32 ≠ 2 ^ 32 - 1 ↔
      ∃ n, numberOf file pthreadSetting (bytes "SetTaskNum") = some n ∧ n % 2 ^ 32 ≠ 2 ^ 32 - 1 :=
    getInteger_numberOf file (by decide) (by decide)
  have hrefused := not_refused_iff.trans (and_congr hport (and_congr hconn (and_congr hthread
    (and_congr htask (and_congr (not_congr hempty) (not_congr hfailed))))))
  unfold Fields.configFile
  constructor
  · intro h
    obtain ⟨h1, h2⟩ := of_config_fst h
    obtain ⟨h3, h4, h5, h6, h7, h8⟩ := hrefused.mp ((config_fst_iff h1 h2 _).mp h)
    exact ⟨hparse.mp h1, hlog.mp h2, h3, h4, h5, h6, not_not.mp h7, h8⟩
  · rintro ⟨h1, h2, h3, h4, h5, h6, h7, h8⟩
    exact (config_fst_iff (hparse.mpr h1) (hlog.mpr h2) _).mpr
      (hrefused.mpr ⟨h3, h4, h5, h6, not_not.mpr h7, h8⟩)

/-! ### Writing the settings -/

/-- The words for a truth value. -/
def words : Bool → List (List UInt8)
  | true => [bytes "true", bytes "yes", bytes "on", bytes "1"]
  | false => [bytes "false", bytes "no", bytes "off", bytes "0"]

/-- A document that has these settings, once each. -/
structure Says (doc : List Section) (f : Settings) : Prop where
  parseError : f.parseError = false
  logConfigPath : ∃ v, parts doc serverConfig (bytes "LogConfigPath") = [v] ∧ text v = f.logConfigPath
  port : parts doc serverConfig (bytes "Port") = [decimalInt f.port.toInt]
  connectNum : parts doc serverConfig (bytes "ConnectNum") = [decimalInt f.connectNum.toInt]
  usePthreadPool : ∃ v, parts doc pthreadSetting (bytes "UsePthreadPool") = [v] ∧
    v.map tolower ∈ words f.usePthreadPool
  setThreadNum : parts doc pthreadSetting (bytes "SetThreadNum") = [decimalInt f.setThreadNum.toInt]
  setTaskNum : parts doc pthreadSetting (bytes "SetTaskNum") = [decimalInt f.setTaskNum.toInt]
  setModel : ∃ v, parts doc serverConfig (bytes "SetModel") = [v] ∧ text v = f.setModel

theorem joined_singleton (v : List UInt8) : joined [v] = v := by
  rw [← foldl_addLine]
  rfl

theorem get_parts {doc : List Section} (h : ∀ s ∈ doc, s.Writable) {sect name v : List UInt8}
    (hname : '='.toUInt8 ∉ name) (hv : parts doc sect name = [v]) :
    (INIReader.ofFile (some (write doc))).get sect name [] = v := by
  rw [get_joined _ hname, given_write h, hv, joined_singleton]

theorem decimalInt_ne_nil (x : ℤ) : decimalInt x ≠ [] := by
  intro h
  have hd := (List.append_eq_nil_iff.mp h).2
  unfold decimal at hd
  split_ifs at hd with hn
  have h' := congrArg List.length hd
  rw [List.length_map, List.length_reverse, List.length_nil, List.length_eq_zero_iff] at h'
  exact hn (Nat.digits_eq_nil_iff_eq_zero.mp h')

theorem getInteger_parts {doc : List Section} (h : ∀ s ∈ doc, s.Writable) {sect name : List UInt8}
    {x : Int64} (hname : '='.toUInt8 ∉ name) (hv : parts doc sect name = [decimalInt x.toInt])
    (default_value : Int64) :
    (INIReader.ofFile (some (write doc))).getInteger sect name default_value = x := by
  have hfind : [decimalInt x.toInt].find? (· ≠ []) = some (decimalInt x.toInt) :=
    List.find?_cons_of_pos (decide_eq_true (decimalInt_ne_nil x.toInt))
  rw [getInteger_eq _ hname, given_write h, hv, hfind, Option.bind_some, strtol_decimalInt,
    Option.elim_some, Int64.ofInt_toInt]

theorem getBoolean_parts {doc : List Section} (h : ∀ s ∈ doc, s.Writable) {sect name v : List UInt8}
    {b : Bool} (hname : '='.toUInt8 ∉ name) (hv : parts doc sect name = [v])
    (hb : v.map tolower ∈ words b) (default_value : Bool) :
    (INIReader.ofFile (some (write doc))).getBoolean sect name default_value = b := by
  unfold INIReader.getBoolean
  dsimp only
  rw [get_parts h hname hv]
  cases b with
  | true => exact if_pos hb
  | false =>
    have hdisj : ∀ w ∈ words false, w ∉ words true := by decide
    exact (if_neg (hdisj _ hb)).trans (if_pos hb)

/-- **The configuration round trip.** The settings of a document that has been written are what
`Config` reads of the file. -/
theorem settings_write {doc : List Section} {f : Settings} (h : ∀ s ∈ doc, s.Writable)
    (hf : Says doc f) : Settings.ofReader (.ofFile (some (write doc))) = f := by
  obtain ⟨v, hv, hlog⟩ := hf.logConfigPath
  obtain ⟨b, hb, hpool⟩ := hf.usePthreadPool
  obtain ⟨m, hm, hmodel⟩ := hf.setModel
  unfold Settings.ofReader
  rw [error_write h, get_parts h (by decide) hv, getInteger_parts h (by decide) hf.port,
    getInteger_parts h (by decide) hf.connectNum, getBoolean_parts h (by decide) hb hpool,
    getInteger_parts h (by decide) hf.setThreadNum, getInteger_parts h (by decide) hf.setTaskNum,
    get_parts h (by decide) hm, hlog, hmodel]
  have hparse : f.parseError = decide ((0 : ℤ) ≠ 0) := hf.parseError
  rw [← hparse]

/-- The configuration in the repository, without its comments. -/
def repositoryDocument : List Section :=
  [⟨serverConfig,
    [⟨bytes "Port", bytes "20001", []⟩, ⟨bytes "ConnectNum", bytes "10000", []⟩,
      ⟨bytes "DaemonProcess", bytes "false", []⟩, ⟨bytes "SetModel", bytes "tcp", []⟩,
      ⟨bytes "LogConfigPath", bytes "./Syinx-Server.logger.conf", []⟩]⟩,
    ⟨pthreadSetting,
      [⟨bytes "UsePthreadPool", bytes "yes", []⟩, ⟨bytes "SetThreadNum", bytes "4", []⟩,
        ⟨bytes "SetTaskNum", bytes "10000", []⟩]⟩,
    ⟨bytes "HTTPServer", [⟨bytes "ResourcePath", [], []⟩]⟩,
    ⟨bytes "TCPServer", []⟩]

theorem settings_repositoryDocument :
    Settings.ofReader (.ofFile (some (write repositoryDocument))) = settingsOf 20001 :=
  settings_write (by decide)
    { parseError := rfl
      logConfigPath := ⟨bytes "./Syinx-Server.logger.conf", by decide, by decide⟩
      port := by decide
      connectNum := by decide
      usePthreadPool := ⟨bytes "yes", by decide, by decide⟩
      setThreadNum := by decide
      setTaskNum := by decide
      setModel := ⟨bytes "tcp", by decide, by decide⟩ }

end Syinx.Kernel
