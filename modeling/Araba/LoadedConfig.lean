import Araba.Config

/-!
# What is loaded

The loop of `load_config` stops at the first number that `stoul` refuses. Of the lines in front of it,
each member takes the value of the last line with its key, and the other lines count for nothing.
-/

namespace Araba

open Bytes Lines Stoul

/-- The members that hold text. -/
inductive TextField
  | passphrase
  | interface
  | logFile
  | queueFile
  deriving DecidableEq

namespace TextField

/-- The key of the option. -/
def key : TextField → Str
  | passphrase => text "passphrase"
  | interface => text "interface"
  | logFile => text "log_file"
  | queueFile => text "queue_file"

/-- The value of the option. -/
def get : TextField → Config → Str
  | passphrase, config => config.passphrase
  | interface, config => config.interface
  | logFile, config => config.logFile
  | queueFile, config => config.queueFile

/-- The option is set. -/
def store : TextField → Str → Config → Config
  | passphrase, val, config => { config with passphrase := val }
  | interface, val, config => { config with interface := val }
  | logFile, val, config => { config with logFile := val }
  | queueFile, val, config => { config with queueFile := val }

variable (f : TextField)

theorem get_store (f' : TextField) (val : Str) (config : Config) :
    f'.get (f.store val config) = if f.key = f'.key then val else f'.get config := by
  cases f <;> cases f' <;> rfl

theorem number_store (n : NumberField) (val : Str) (config : Config) :
    n.get (f.store val config) = n.get config := by
  cases f <;> cases n <;> rfl

theorem key_ne_number (n : NumberField) : f.key ≠ n.key := by
  cases f <;> cases n <;> decide

theorem setValue_key (val : Str) (config : Config) :
    setValue f.key val config = .ok (f.store val config) := by
  cases f <;> rfl

end TextField

theorem NumberField.key_injective {f f' : NumberField} (same : f.key = f'.key) : f = f' := by
  revert same
  cases f <;> cases f' <;> decide

theorem NumberField.text_store (f : NumberField) (t : TextField) (n : UInt64) (config : Config) :
    t.get (f.store n config) = t.get config := by
  cases f <;> cases t <;> rfl

theorem Config.ext_fields {config config' : Config}
    (texts : ∀ f : TextField, f.get config = f.get config')
    (numbers : ∀ f : NumberField, f.get config = f.get config') : config = config' := by
  obtain ⟨⟨timeout, ttl⟩, passphrase, interface, logFile, queueFile, interval⟩ := config
  obtain ⟨⟨timeout', ttl'⟩, passphrase', interface', logFile', queueFile', interval'⟩ := config'
  obtain rfl : timeout = timeout' := UInt32.toNat_inj.1 (numbers .fragmentTimeoutSec)
  obtain rfl : ttl = ttl' := UInt8.toNat_inj.1 (numbers .discoveryTtl)
  obtain rfl : interval = interval' := UInt16.toNat_inj.1 (numbers .discoveryIntervalMs)
  obtain rfl : passphrase = passphrase' := texts .passphrase
  obtain rfl : interface = interface' := texts .interface
  obtain rfl : logFile = logFile' := texts .logFile
  obtain rfl : queueFile = queueFile' := texts .queueFile
  rfl

/-! ## One line -/

/-- Whether the loop goes on after a line. -/
def taken (e : Str × Str) : Bool :=
  match stoul e.2 with
  | .ok _ => true
  | .error _ =>
    e.1 != NumberField.fragmentTimeoutSec.key && e.1 != NumberField.discoveryTtl.key &&
      e.1 != NumberField.discoveryIntervalMs.key

/-- The number that is read. -/
def number (val : Str) : ℕ :=
  match stoul val with
  | .ok n => n.toNat
  | .error _ => 0

theorem taken_of_other {e : Str × Str} (other : ∀ f : NumberField, e.1 ≠ f.key) : taken e = true := by
  unfold taken
  cases stoul e.2 with
  | ok n => rfl
  | error _ => simp [other]

theorem not_taken {f : NumberField} {val : Str} (refused : ¬ taken (f.key, val) = true) :
    ∃ e, stoul val = .error e := by
  cases read : stoul val with
  | ok n => exact absurd (by simp only [taken, read]) refused
  | error e => exact ⟨e, rfl⟩

theorem exists_of_taken {f : NumberField} {val : Str} (ok : taken (f.key, val) = true) :
    ∃ n, stoul val = .ok n := by
  cases read : stoul val with
  | ok n => exact ⟨n, rfl⟩
  | error e =>
    simp only [taken, read] at ok
    cases f <;> simp at ok

/-- What the lines make of a configuration: each member has the last value that was given for it. -/
structure Loaded (es : List (Str × Str)) (config config' : Config) : Prop where
  texts (f : TextField) : f.get config' = (lastValue f.key es).getD (f.get config)
  numbers (f : NumberField) : f.get config' =
    ((lastValue f.key es).map fun val => number val % 2 ^ f.bits).getD (f.get config)

theorem lastValue_append (key : Str) (es es' : List (Str × Str)) :
    lastValue key (es ++ es') = (lastValue key es').or (lastValue key es) := by
  rw [lastValue, List.filter_append, List.getLast?_append, lastValue, lastValue]
  cases (es'.filter fun e => e.1 == key).getLast? <;> rfl

theorem lastValue_singleton (key name val : Str) :
    lastValue key [(name, val)] = if name = key then some val else none := by
  rw [lastValue, List.filter_cons, List.filter_nil]
  by_cases same : name = key
  · rw [if_pos same, if_pos (by simpa using same)]
    rfl
  · rw [if_neg same, if_neg (by simpa using same)]
    rfl

namespace Loaded

variable {es es' : List (Str × Str)} {config config' config'' : Config}

theorem nil (config : Config) : Loaded [] config config := ⟨fun _ => rfl, fun _ => rfl⟩

theorem append (h : Loaded es config config') (h' : Loaded es' config' config'') :
    Loaded (es ++ es') config config'' where
  texts f := by
    rw [h'.texts, h.texts, lastValue_append]
    cases lastValue f.key es' <;> rfl
  numbers f := by
    rw [h'.numbers, h.numbers, lastValue_append]
    cases lastValue f.key es' <;> rfl

theorem unique (h : Loaded es config config') (h' : Loaded es config config'') : config' = config'' :=
  Config.ext_fields (fun f => by rw [h.texts, h'.texts]) fun f => by rw [h.numbers, h'.numbers]

end Loaded

/-- A line whose value is taken sets the member of its key, if there is one, and no other. -/
theorem exists_setValue {name val : Str} (ok : taken (name, val) = true) (config : Config) :
    ∃ config', setValue name val config = .ok config' ∧ Loaded [(name, val)] config config' := by
  by_cases isText : ∃ f : TextField, name = f.key
  · obtain ⟨f, rfl⟩ := isText
    refine ⟨_, f.setValue_key val config, fun f' => ?_, fun n => ?_⟩
    · rw [f.get_store, lastValue_singleton]
      split_ifs <;> rfl
    · rw [f.number_store, lastValue_singleton, if_neg (f.key_ne_number n)]
      rfl
  by_cases isNumber : ∃ f : NumberField, name = f.key
  · obtain ⟨f, rfl⟩ := isNumber
    obtain ⟨n, read⟩ := exists_of_taken ok
    refine ⟨f.store n config, ?_, fun t => ?_, fun f' => ?_⟩
    · rw [f.setValue_key, read]
      rfl
    · rw [f.text_store, lastValue_singleton, if_neg (t.key_ne_number f).symm]
      rfl
    · rw [f.get_store, lastValue_singleton]
      by_cases same : f' = f
      · subst same
        simp [number, read]
      · rw [if_neg same, if_neg fun h => same (NumberField.key_injective h).symm]
        rfl
  · have noText (f : TextField) : name ≠ f.key := fun h => isText ⟨f, h⟩
    have noNumber (f : NumberField) : name ≠ f.key := fun h => isNumber ⟨f, h⟩
    refine ⟨config, ?_, fun f => ?_, fun f => ?_⟩
    · have passphrase : name ≠ text "passphrase" := noText .passphrase
      have interface : name ≠ text "interface" := noText .interface
      have logFile : name ≠ text "log_file" := noText .logFile
      have queueFile : name ≠ text "queue_file" := noText .queueFile
      have timeout : name ≠ text "fragment_timeout_sec" := noNumber .fragmentTimeoutSec
      have ttl : name ≠ text "discovery_ttl" := noNumber .discoveryTtl
      have interval : name ≠ text "discovery_interval_ms" := noNumber .discoveryIntervalMs
      rw [setValue, if_neg passphrase, if_neg interface, if_neg logFile, if_neg queueFile,
        if_neg timeout, if_neg ttl, if_neg interval]
    · rw [lastValue_singleton, if_neg (noText f)]
      rfl
    · rw [lastValue_singleton, if_neg (noNumber f)]
      rfl

/-- A number that is refused ends the loop with the exception that `stoul` throws. -/
theorem setValue_of_not_taken {name val : Str} (refused : ¬ taken (name, val) = true)
    (config : Config) :
    ∃ e, stoul val = .error e ∧ setValue name val config = .error e := by
  by_cases isNumber : ∃ f : NumberField, name = f.key
  · obtain ⟨f, rfl⟩ := isNumber
    obtain ⟨e, thrown⟩ := not_taken refused
    refine ⟨e, thrown, ?_⟩
    rw [f.setValue_key, thrown]
    rfl
  · exact absurd (taken_of_other fun f same => isNumber ⟨f, same⟩) refused

/-! ## The file -/

theorem loaded_loadEntries (es : List (Str × Str)) (config : Config) :
    Loaded (es.takeWhile taken) config (loadEntries es config).1 ∧
      (loadEntries es config).2 =
        (es.find? fun e => !taken e).elim (.ok ()) fun e => (stoul e.2).map fun _ => () := by
  induction es generalizing config with
  | nil => exact ⟨.nil config, rfl⟩
  | cons e es ih =>
    obtain ⟨name, val⟩ := e
    by_cases ok : taken (name, val) = true
    · obtain ⟨config', set, here⟩ := exists_setValue ok config
      obtain ⟨rest, result⟩ := ih config'
      rw [loadEntries, set, List.takeWhile_cons_of_pos ok, List.find?_cons_of_neg (by simp [ok])]
      exact ⟨here.append rest, result⟩
    · obtain ⟨e, thrown, ended⟩ := setValue_of_not_taken ok config
      rw [loadEntries, ended, List.takeWhile_cons_of_neg ok, List.find?_cons_of_pos (by simpa using ok)]
      refine ⟨.nil config, ?_⟩
      show Except.error e = (stoul val).map fun _ => ()
      rw [thrown]
      rfl

/-- What `load_config` does, for every file. What it leaves is the one configuration in which each
member has the value of the last line with its key, of the lines in front of the first number that is
refused, or is as before if there is no such line; and it returns `true` if no number is refused, and
throws what `stoul` throws on the first one otherwise. -/
theorem loadConfig_law (file : Str) (config : Config) :
    (∀ config', Loaded ((entries file).takeWhile taken) config config' ↔
        config' = (loadConfig (some file) config).1) ∧
      (loadConfig (some file) config).2 =
        ((entries file).find? fun e => !taken e).elim (.ok true) fun e =>
          (stoul e.2).map fun _ => true := by
  obtain ⟨loaded, result⟩ := loaded_loadEntries (entries file) config
  rw [loadConfig_eq]
  refine ⟨fun config' => ⟨fun h => h.unique loaded, fun h => h ▸ loaded⟩, ?_⟩
  show Except.map _ (loadEntries (entries file) config).2 = _
  rw [result]
  cases (entries file).find? fun e => !taken e with
  | none => rfl
  | some e =>
    rw [Option.elim_some, Option.elim_some]
    cases stoul e.2 <;> rfl

end Araba
