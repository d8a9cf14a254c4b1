import Araba.Crypto.BaseKey
import Araba.Lib.Lines
import Araba.Lib.Stoul
import Araba.Node
import Mathlib.Data.List.DropRight

/-!
# The configuration file

`load_config` of `config.cpp`, on the bytes of the file. A value is taken as it stands behind the first
`=` of its line, without the white space around it, and a later line overrides an earlier one. A
number that `stoul` refuses leaves the function by an exception, with what was loaded so far; one that
it accepts is cut down to the field.
-/

namespace Araba

open Bytes Istream Lines Stoul

/-! ## The code -/

/-- `NodeConfig`, with the members that only `main` reads. -/
structure Config extends NodeConfig where
  passphrase : Str := text "ARABA_MESH_SECRET_2026"
  interface : Str := []
  logFile : Str := text "araba.log"
  queueFile : Str := text "pending_messages.rue"
  discoveryIntervalMs : UInt16 := 1000

/-- `trim`: no white space at either end. -/
def trim (s : Str) : Str := (s.dropWhile isSpace).rdropWhile isSpace

/-- What stands in front of the first `=`, and what stands behind it. -/
def splitEq (line : Str) : Option (Str × Str) :=
  if 0x3d ∈ line then some (line.takeWhile (· ≠ 0x3d), (line.dropWhile (· ≠ 0x3d)).drop 1)
  else none

/-- The key and the value of a line that is neither empty nor a comment. -/
def parseLine (line : Str) : Option (Str × Str) :=
  let line := trim line
  if line.isEmpty ∨ line.head? = some 0x23 ∨ line.head? = some 0x3b then none
  else (splitEq line).map fun (key, val) => (trim key, trim val)

/-- The chain of comparisons with the keys; a key that is not known is passed over. -/
def setValue (key val : Str) (config : Config) : Except StoulError Config :=
  if key = text "passphrase" then .ok { config with passphrase := val }
  else if key = text "interface" then .ok { config with interface := val }
  else if key = text "log_file" then .ok { config with logFile := val }
  else if key = text "queue_file" then .ok { config with queueFile := val }
  else if key = text "fragment_timeout_sec" then do
    let n ← stoul val
    return { config with fragmentTimeoutSec := n.toUInt32 }
  else if key = text "discovery_ttl" then do
    let n ← stoul val
    return { config with discoveryTtl := n.toUInt8 }
  else if key = text "discovery_interval_ms" then do
    let n ← stoul val
    return { config with discoveryIntervalMs := n.toUInt16 }
  else .ok config

/-- What the loop does for one line. -/
def loadLine (line : Str) (config : Config) : Except StoulError Config :=
  match parseLine line with
  | none => .ok config
  | some (key, val) => setValue key val config

/-- The loop: what the configuration is left as, and the exception that ended it. -/
def loadLines : List Str → Config → Config × Except StoulError Unit
  | [], config => (config, .ok ())
  | line :: lines, config =>
    match loadLine line config with
    | .ok config => loadLines lines config
    | .error e => (config, .error e)

/-- A file that cannot be opened is `none`. -/
def loadConfig (file : Option Str) (config : Config) : Config × Except StoulError Bool :=
  match file with
  | none => (config, .ok false)
  | some bytes =>
    let (config, result) := loadLines (lines 0x0a bytes) config
    (config, result.map fun _ => true)

/-- What `save_default_config` writes. -/
def defaultFile : Str :=
  text "# ARABA Node Configuration\n" ++ text "# Generated automatically — edit as needed\n\n" ++
    text "passphrase=ARABA_MESH_SECRET_2026\n" ++ text "interface=\n" ++
    text "log_file=araba.log\n" ++ text "queue_file=pending_messages.rue\n" ++
    text "fragment_timeout_sec=60\n" ++ text "discovery_ttl=64\n" ++
    text "discovery_interval_ms=1000\n"

/-- `main` loads the file, or writes the default one and loads that. -/
def loadOrCreate (file : Option Str) : Config × Except StoulError Bool :=
  match loadConfig file {} with
  | (config, .ok false) => loadConfig (some defaultFile) config
  | loaded => loaded

/-- The environment of a node that is started with the configuration. -/
def Config.env (config : Config) (myMac : Mac) : Except KeyFault NodeEnv := do
  let baseKey ← deriveKey (cStr config.passphrase)
  return {
    myMac := myMac
    baseKey := baseKey
    config := config.toNodeConfig }

/-! ## The entries of a file -/

/-- The keys and values of the lines, in order. -/
def entries (file : Str) : List (Str × Str) := (lines 0x0a file).filterMap parseLine

/-- The value on the last line with the key. -/
def lastValue (key : Str) (es : List (Str × Str)) : Option Str :=
  ((es.filter fun e => e.1 == key).getLast?).map Prod.snd

/-- The loop over the lines that count. -/
def loadEntries : List (Str × Str) → Config → Config × Except StoulError Unit
  | [], config => (config, .ok ())
  | (key, val) :: es, config =>
    match setValue key val config with
    | .ok config => loadEntries es config
    | .error e => (config, .error e)

theorem loadLines_eq (ls : List Str) (config : Config) :
    loadLines ls config = loadEntries (ls.filterMap parseLine) config := by
  induction ls generalizing config with
  | nil => rfl
  | cons line ls ih =>
    rw [loadLines, loadLine]
    cases parsed : parseLine line with
    | none =>
      rw [List.filterMap_cons_none parsed]
      exact ih config
    | some e =>
      rw [List.filterMap_cons_some parsed, loadEntries]
      simp only [ih]

theorem loadConfig_eq (file : Str) (config : Config) :
    loadConfig (some file) config = ((loadEntries (entries file) config).1,
      (loadEntries (entries file) config).2.map fun _ => true) := by
  rw [loadConfig, loadLines_eq, entries]

theorem getD_lastValue_cons (key d : Str) (e : Str × Str) (es : List (Str × Str)) :
    (lastValue key (e :: es)).getD d = (lastValue key es).getD (if e.1 = key then e.2 else d) := by
  rw [lastValue, lastValue, List.filter_cons]
  by_cases own : e.1 = key
  · rw [if_pos (by simpa using own), if_pos own, List.getLast?_cons]
    cases (es.filter fun e => e.1 == key).getLast? <;> rfl
  · rw [if_neg (by simpa using own), if_neg own]

/-! ## What a line does -/

/-- The members that hold numbers. -/
inductive NumberField
  | fragmentTimeoutSec
  | discoveryTtl
  | discoveryIntervalMs
  deriving DecidableEq

namespace NumberField

/-- The key of the option. -/
def key : NumberField → Str
  | fragmentTimeoutSec => text "fragment_timeout_sec"
  | discoveryTtl => text "discovery_ttl"
  | discoveryIntervalMs => text "discovery_interval_ms"

/-- The width of the option's type. -/
def bits : NumberField → ℕ
  | fragmentTimeoutSec => 32
  | discoveryTtl => 8
  | discoveryIntervalMs => 16

/-- The value of the option. -/
def get : NumberField → Config → ℕ
  | fragmentTimeoutSec, config => config.fragmentTimeoutSec.toNat
  | discoveryTtl, config => config.discoveryTtl.toNat
  | discoveryIntervalMs, config => config.discoveryIntervalMs.toNat

/-- The option is set, cut off to its width. -/
def store : NumberField → UInt64 → Config → Config
  | fragmentTimeoutSec, n, config => { config with fragmentTimeoutSec := n.toUInt32 }
  | discoveryTtl, n, config => { config with discoveryTtl := n.toUInt8 }
  | discoveryIntervalMs, n, config => { config with discoveryIntervalMs := n.toUInt16 }

variable (f : NumberField)

theorem get_lt (config : Config) : f.get config < 2 ^ f.bits := by
  cases f with
  | fragmentTimeoutSec => exact config.fragmentTimeoutSec.toNat_lt
  | discoveryTtl => exact config.discoveryTtl.toNat_lt
  | discoveryIntervalMs => exact config.discoveryIntervalMs.toNat_lt

theorem bits_le : 2 ^ f.bits ≤ 2 ^ 64 := by
  cases f <;> decide

/-- A number is cut down to the member it is stored in, and the others stay. -/
theorem get_store (f' : NumberField) (n : UInt64) (config : Config) :
    f'.get (f.store n config) = if f' = f then n.toNat % 2 ^ f.bits else f'.get config := by
  cases f <;> cases f' <;> simp [get, store, bits]

theorem passphrase_store (n : UInt64) (config : Config) :
    (f.store n config).passphrase = config.passphrase := by
  cases f <;> rfl

theorem setValue_key (val : Str) (config : Config) :
    setValue f.key val config = (stoul val).map fun n => f.store n config := by
  cases f with
  | fragmentTimeoutSec =>
    rw [setValue, if_neg (by decide), if_neg (by decide), if_neg (by decide), if_neg (by decide),
      if_pos (by decide)]
    cases stoul val <;> rfl
  | discoveryTtl =>
    rw [setValue, if_neg (by decide), if_neg (by decide), if_neg (by decide), if_neg (by decide),
      if_neg (by decide), if_pos (by decide)]
    cases stoul val <;> rfl
  | discoveryIntervalMs =>
    rw [setValue, if_neg (by decide), if_neg (by decide), if_neg (by decide), if_neg (by decide),
      if_neg (by decide), if_neg (by decide), if_pos (by decide)]
    cases stoul val <;> rfl

theorem key_ne_passphrase : f.key ≠ text "passphrase" := by
  cases f <;> decide

end NumberField

/-- A line with another key never throws, and changes no number. -/
theorem setValue_other {name : Str} (other : ∀ f : NumberField, name ≠ f.key) (val : Str)
    (config : Config) :
    ∃ config', setValue name val config = .ok config' ∧
      (∀ f : NumberField, f.get config' = f.get config) ∧
      config'.passphrase = if name = text "passphrase" then val else config.passphrase := by
  have timeout : name ≠ text "fragment_timeout_sec" := other .fragmentTimeoutSec
  have ttl : name ≠ text "discovery_ttl" := other .discoveryTtl
  have interval : name ≠ text "discovery_interval_ms" := other .discoveryIntervalMs
  rw [setValue, if_neg timeout, if_neg ttl, if_neg interval]
  split_ifs
  all_goals
    refine ⟨_, rfl, fun f => ?_, rfl⟩
    cases f <;> rfl

/-- A line whose value is taken sets the member of its key and no other. -/
theorem setValue_spec {name val : Str}
    (taken : ∀ f : NumberField, name = f.key → ∃ n, stoul val = .ok n) (config : Config) :
    ∃ config', setValue name val config = .ok config' ∧
      config'.passphrase = (if name = text "passphrase" then val else config.passphrase) ∧
      ∀ f : NumberField, f.get config' = f.get config ∨
        name = f.key ∧ ∃ n, stoul val = .ok n ∧ f.get config' = n.toNat % 2 ^ f.bits := by
  by_cases number : ∃ f : NumberField, name = f.key
  · obtain ⟨f, rfl⟩ := number
    obtain ⟨n, ok⟩ := taken f rfl
    refine ⟨f.store n config, ?_, ?_, fun f' => ?_⟩
    · rw [f.setValue_key, ok]
      rfl
    · rw [f.passphrase_store, if_neg f.key_ne_passphrase]
    · rw [f.get_store]
      split_ifs with same
      · subst same
        exact .inr ⟨rfl, n, ok, rfl⟩
      · exact .inl rfl
  · obtain ⟨config', set, same, passphrase⟩ :=
      setValue_other (fun f own => number ⟨f, own⟩) val config
    exact ⟨config', set, passphrase, fun f => .inl (same f)⟩

/-! ## Runs of the loop -/

/-- Every number line has a value that `stoul` takes. -/
def Converts (es : List (Str × Str)) : Prop :=
  ∀ (f : NumberField) (val : Str), (f.key, val) ∈ es → ∃ n, stoul val = .ok n

theorem converts_cons {name val : Str} {es : List (Str × Str)} :
    Converts ((name, val) :: es) ↔
      (∀ f : NumberField, name = f.key → ∃ n, stoul val = .ok n) ∧ Converts es := by
  constructor
  · intro all
    refine ⟨fun f own => all f val ?_, fun f v mem => all f v (List.mem_cons_of_mem _ mem)⟩
    rw [own]
    exact List.mem_cons_self
  · rintro ⟨first, rest⟩ f v mem
    rcases List.mem_cons.1 mem with same | mem
    · obtain ⟨own, rfl⟩ := Prod.mk.inj same
      exact first f own.symm
    · exact rest f v mem

/-- The loop ends without an exception iff every number is taken. -/
theorem loadEntries_ok_iff (es : List (Str × Str)) (config : Config) :
    (loadEntries es config).2 = .ok () ↔ Converts es := by
  induction es generalizing config with
  | nil => exact iff_of_true rfl fun f val mem => absurd mem List.not_mem_nil
  | cons e es ih =>
    obtain ⟨name, val⟩ := e
    rw [converts_cons, loadEntries]
    by_cases taken : ∀ f : NumberField, name = f.key → ∃ n, stoul val = .ok n
    · obtain ⟨config', set, -⟩ := setValue_spec taken config
      rw [set, and_iff_right taken]
      exact ih config'
    · simp only [not_forall] at taken
      obtain ⟨f, rfl, refused⟩ := taken
      rw [f.setValue_key]
      cases result : stoul val with
      | ok n => exact absurd ⟨n, result⟩ refused
      | error e =>
        refine iff_of_false nofun fun h => ?_
        obtain ⟨n, ok⟩ := h.1 f rfl
        cases ok

section Converted

variable {es : List (Str × Str)} (converts : Converts es) (config : Config)

include converts

theorem passphrase_loadEntries : (loadEntries es config).1.passphrase =
    (lastValue (text "passphrase") es).getD config.passphrase := by
  induction es generalizing config with
  | nil => rfl
  | cons e es ih =>
    obtain ⟨taken, rest⟩ := converts_cons.1 converts
    obtain ⟨config', set, passphrase, -⟩ := setValue_spec taken config
    rw [loadEntries, set, getD_lastValue_cons, ← passphrase]
    exact ih rest config'

/-- Every number is as before or one of the written ones, cut down. -/
theorem get_loadEntries (f : NumberField) : f.get (loadEntries es config).1 = f.get config ∨
    ∃ val n, (f.key, val) ∈ es ∧ stoul val = .ok n ∧
      f.get (loadEntries es config).1 = n.toNat % 2 ^ f.bits := by
  induction es generalizing config with
  | nil => exact .inl rfl
  | cons e es ih =>
    obtain ⟨taken, rest⟩ := converts_cons.1 converts
    obtain ⟨config', set, -, numbers⟩ := setValue_spec taken config
    rw [loadEntries, set]
    rcases ih rest config' with kept | ⟨val, n, mem, ok, cut⟩
    · rcases numbers f with same | ⟨own, n, ok, cut⟩
      · exact .inl (kept.trans same)
      · exact .inr ⟨e.2, n, own ▸ List.mem_cons_self, ok, kept.trans cut⟩
    · exact .inr ⟨val, n, List.mem_cons_of_mem _ mem, ok, cut⟩

end Converted

theorem loadConfig_returns_iff (file : Str) (config : Config) :
    (loadConfig (some file) config).2 = .ok true ↔ Converts (entries file) := by
  rw [loadConfig_eq, ← loadEntries_ok_iff (entries file) config]
  cases (loadEntries (entries file) config).2 with
  | error e => exact iff_of_false nofun nofun
  | ok u => exact iff_of_true rfl rfl

/-! ## The key of a loaded configuration -/

/-- If the file is accepted, `derive_key` runs on the passphrase that is left. -/
def DefinesKey (file : Str) (config : Config) : Prop :=
  (loadConfig (some file) config).2 = .ok true →
    ∃ key, deriveKey (cStr (loadConfig (some file) config).1.passphrase) = .ok key

/-- The key is defined unless the passphrase that is written last, or that was there before, is empty
in front of its first NUL. -/
theorem definesKey_iff (file : Str) (config : Config) :
    DefinesKey file config ↔
      (∃ (f : NumberField) (val : Str) (e : StoulError),
          (f.key, val) ∈ entries file ∧ stoul val = .error e) ∨
        beforeNul ((lastValue (text "passphrase") (entries file)).getD config.passphrase) ≠ [] := by
  rw [DefinesKey, loadConfig_returns_iff, loadConfig_eq]
  by_cases accepted : Converts (entries file)
  · have passphrase := passphrase_loadEntries accepted config
    have none' : ¬ ∃ (f : NumberField) (val : Str) (e : StoulError),
        (f.key, val) ∈ entries file ∧ stoul val = .error e := by
      rintro ⟨f, val, e, mem, thrown⟩
      obtain ⟨n, taken⟩ := accepted f val mem
      rw [taken] at thrown
      cases thrown
    rw [or_iff_right none', passphrase]
    constructor
    · intro defined empty
      obtain ⟨key, ok⟩ := defined accepted
      rw [deriveKey_cStr_of_empty empty] at ok
      cases ok
    · exact fun some' _ => ⟨_, deriveKey_cStr some'⟩
  · refine iff_of_true (fun h => absurd h accepted) (.inl ?_)
    simp only [Converts, not_forall] at accepted
    obtain ⟨f, val, mem, refused⟩ := accepted
    cases taken : stoul val with
    | ok n => exact absurd ⟨n, taken⟩ refused
    | error e => exact ⟨f, val, e, mem, taken⟩

/-- A passphrase that was left blank is a division by zero. -/
theorem blank_passphrase :
    (loadConfig (some (text "passphrase=\n")) {}).2 = .ok true ∧
      deriveKey (cStr (loadConfig (some (text "passphrase=\n")) {}).1.passphrase) =
        .error .divisionByZero ∧
      ¬ DefinesKey (text "passphrase=\n") {} := by
  have accepted : (loadConfig (some (text "passphrase=\n")) {}).2 = .ok true := by decide
  have empty : (loadConfig (some (text "passphrase=\n")) {}).1.passphrase = [] := by decide
  refine ⟨accepted, by rw [empty]; rfl, fun defined => ?_⟩
  obtain ⟨key, ok⟩ := defined accepted
  rw [empty] at ok
  cases ok

set_option maxRecDepth 20000 in
theorem entries_defaultFile : entries defaultFile = [
    (text "passphrase", text "ARABA_MESH_SECRET_2026"), (text "interface", []),
    (text "log_file", text "araba.log"), (text "queue_file", text "pending_messages.rue"),
    (text "fragment_timeout_sec", text "60"), (text "discovery_ttl", text "64"),
    (text "discovery_interval_ms", text "1000")] := by
  decide

theorem loadConfig_defaultFile (config : Config) :
    loadConfig (some defaultFile) config = ({}, .ok true) := by
  rw [loadConfig_eq, entries_defaultFile]
  rfl

/-- A node without a file starts with the defaults, and with a key. -/
theorem env_without_file (myMac : Mac) :
    loadOrCreate none = ({}, .ok true) ∧
      ∃ env, (loadOrCreate none).1.env myMac = .ok env ∧ env.myMac = myMac ∧ env.config = {} := by
  have loaded : loadOrCreate none = ({}, .ok true) := loadConfig_defaultFile {}
  have key := deriveKey_cStr (s := (({} : Config)).passphrase) (by decide)
  have started : ({} : Config).env myMac =
      .ok ⟨myMac, mixed (repeated (beforeNul ({} : Config).passphrase)), {}⟩ := by
    rw [Config.env, key]
    rfl
  rw [loaded]
  exact ⟨rfl, _, started, rfl, rfl⟩

/-- Nodes whose passphrases are the same in front of the first NUL have the same base key. -/
theorem baseKey_env {config config' : Config} {myMac myMac' : Mac} {env env' : NodeEnv}
    (same : beforeNul config.passphrase = beforeNul config'.passphrase)
    (started : config.env myMac = .ok env) (started' : config'.env myMac' = .ok env') :
    env.baseKey = env'.baseKey := by
  have key (c : Config) (m : Mac) (e : NodeEnv) (h : c.env m = .ok e) :
      e.baseKey = mixed (repeated (beforeNul c.passphrase)) := by
    by_cases empty : beforeNul c.passphrase = []
    · rw [Config.env, deriveKey_cStr_of_empty empty] at h
      cases h
    · rw [Config.env, deriveKey_cStr empty] at h
      rw [← Except.ok.inj h]
  rw [key _ _ _ started, key _ _ _ started', same]

/-! ## Numbers as they are written -/

/-- The file is accepted, every number is as before or one that was written for it, and no number is
stored as another one than it was written. -/
structure LoadsNumbers (file : Str) (config : Config) : Prop where
  returns : (loadConfig (some file) config).2 = .ok true
  kept : ∀ f : NumberField, f.get (loadConfig (some file) config).1 = f.get config ∨
    ∃ val, (f.key, val) ∈ entries file ∧
      written val = some (f.get (loadConfig (some file) config).1 : ℤ)
  unreduced : ∀ (f : NumberField) (val : Str), (f.key, val) ∈ entries file →
    ∀ before after, setValue f.key val before = .ok after → written val = some (f.get after : ℤ)

theorem NumberField.stored (f : NumberField) {val : Str} {z : ℤ} (num : written val = some z)
    (pos : 0 ≤ z) (fits : z < 2 ^ f.bits) :
    ∃ n, stoul val = .ok n ∧ ((n.toNat % 2 ^ f.bits : ℕ) : ℤ) = z := by
  have small : (2 : ℤ) ^ f.bits ≤ 2 ^ 64 := by exact_mod_cast f.bits_le
  obtain ⟨n, taken, value⟩ := stoul_of_written num pos (fits.trans_le small)
  refine ⟨n, taken, ?_⟩
  have lt : n.toNat < 2 ^ f.bits := by
    have := value ▸ fits
    exact_mod_cast this
  rw [Nat.mod_eq_of_lt lt, value]

/-- Numbers are loaded as they are written exactly when each value on a number line begins with a
number that the member can hold. -/
theorem loadsNumbers_iff (file : Str) (config : Config) :
    LoadsNumbers file config ↔
      ∀ (f : NumberField) (val : Str), (f.key, val) ∈ entries file →
        ∃ z, written val = some z ∧ 0 ≤ z ∧ z < 2 ^ f.bits := by
  constructor
  · rintro ⟨returns, -, unreduced⟩ f val mem
    obtain ⟨n, taken⟩ := (loadConfig_returns_iff file config).1 returns f val mem
    have stored : setValue f.key val config = .ok (f.store n config) := by
      rw [f.setValue_key, taken]
      rfl
    refine ⟨_, unreduced f val mem config _ stored, Int.natCast_nonneg _, ?_⟩
    exact_mod_cast f.get_lt _
  · intro fits
    have converts : Converts (entries file) := by
      intro f val mem
      obtain ⟨z, num, pos, lt⟩ := fits f val mem
      obtain ⟨n, taken, -⟩ := f.stored num pos lt
      exact ⟨n, taken⟩
    refine ⟨(loadConfig_returns_iff file config).2 converts, fun f => ?_, ?_⟩
    · rw [loadConfig_eq]
      rcases get_loadEntries converts config f with same | cut
      · exact .inl same
      · obtain ⟨val, n, mem, taken, value⟩ := cut
        obtain ⟨z, num, pos, lt⟩ := fits f val mem
        obtain ⟨n', taken', value'⟩ := f.stored num pos lt
        obtain rfl : n = n' := Except.ok.inj (taken.symm.trans taken')
        refine .inr ⟨val, mem, ?_⟩
        rw [num, ← value', value]
    · intro f val mem before after set
      obtain ⟨z, num, pos, lt⟩ := fits f val mem
      obtain ⟨n, taken, value⟩ := f.stored num pos lt
      rw [f.setValue_key, taken] at set
      rw [← Except.ok.inj set, f.get_store, if_pos rfl, num, value]

/-- A lifetime of 300 is loaded as 44, and one that is no number ends the program. -/
theorem discoveryTtl_not_loaded :
    (loadConfig (some (text "discovery_ttl=300\n")) {}).1.discoveryTtl = 44 ∧
      ¬ LoadsNumbers (text "discovery_ttl=300\n") {} ∧
      (loadConfig (some (text "discovery_ttl=\n")) {}).2 = .error .invalidArgument := by
  have loaded : (loadConfig (some (text "discovery_ttl=300\n")) {}).1.discoveryTtl = 44 := by decide
  refine ⟨loaded, fun h => ?_, by decide⟩
  have mem : (NumberField.discoveryTtl.key, text "300") ∈ entries (text "discovery_ttl=300\n") := by
    decide
  have num : written (text "300") = some 300 := by decide
  have stored : ∃ after : Config, setValue NumberField.discoveryTtl.key (text "300") {} = .ok after ∧
      after.discoveryTtl = 44 := ⟨{ discoveryTtl := 44 }, rfl, rfl⟩
  obtain ⟨after, set, value⟩ := stored
  have same := h.unreduced .discoveryTtl (text "300") mem {} after set
  rw [num, NumberField.get, value] at same
  cases same

end Araba
