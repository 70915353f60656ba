import Mathlib.Data.List.Basic
import SqlReader.Command.Execution

/-!
# The order of the sources of settings

A file, the environment and the options each say something about the settings and
leave the rest out.  They lie on top of each other as layers, and what all of
them leave out has its default.  A value in the environment that is the default
is the same as none.
-/

namespace SqlReader

/-! ## Layers -/

/-- What a source says of the settings. -/
structure Layer where
  maxInputLength : Option UInt64 := none
  trailingSemicolon : Option Bool := none
  logErrors : Option Bool := none
  format : Option Format := none
  caret : Option Bool := none
  prompt : Option String := none
  level : Option String := none

namespace Layer

/-- A layer on top of another, which counts where the first says nothing. -/
def above (top below : Layer) : Layer where
  maxInputLength := top.maxInputLength.or below.maxInputLength
  trailingSemicolon := top.trailingSemicolon.or below.trailingSemicolon
  logErrors := top.logErrors.or below.logErrors
  format := top.format.or below.format
  caret := top.caret.or below.caret
  prompt := top.prompt.or below.prompt
  level := top.level.or below.level

def config (l : Layer) : Config where
  parser := {
    maxInputLength := l.maxInputLength.getD 65536
    trailingSemicolon := l.trailingSemicolon.getD true
    logErrors := l.logErrors.getD true }
  output := {
    format := l.format.getD .pretty
    caret := l.caret.getD true
    prompt := l.prompt.getD "->" }
  logging := { level := l.level.getD "warn" }

/-- The layer without what is the default anyway. -/
def deviating (l : Layer) : Layer where
  maxInputLength := l.maxInputLength.filter (· ≠ 65536)
  trailingSemicolon := l.trailingSemicolon.filter (· ≠ true)
  logErrors := l.logErrors.filter (· ≠ true)
  format := l.format.filter (· ≠ .pretty)
  caret := l.caret.filter (· ≠ true)
  prompt := l.prompt.filter (· ≠ "->")
  level := l.level.filter (· ≠ "warn")

theorem override_getD {α : Type} [DecidableEq α] (default : α) (below top : Option α) :
    override default (below.getD default) (top.getD default) =
      ((top.filter (· ≠ default)).or below).getD default := by
  cases top with
  | none => simp [override]
  | some a =>
      by_cases ha : a = default
      · simp [override, ha, Option.filter_some]
      · simp [override, ha, Option.filter_some]

/-- Of two configurations the second counts where it is not the default. -/
theorem merge_config (below top : Layer) :
    below.config.merge top.config = (top.deviating.above below).config := by
  simp only [Config.merge, config, above, deviating, override_getD]

/-! ## The environment and the options -/

def readOr {α : Type} (read : String → Except Error α) (default : α) :
    Option String → Except Error α
  | some text => read text
  | none => .ok default

def reading {α : Type} (read : String → Except Error α) (text : Option String) : Option α :=
  text.bind fun text => (read text).toOption

theorem readOr_eq_ok {α : Type} {read : String → Except Error α} {default a : α}
    {text : Option String} (h : readOr read default text = .ok a) :
    a = (reading read text).getD default ∧ (reading read text).isSome = text.isSome := by
  cases text with
  | none =>
      obtain rfl := Except.ok.inj h
      exact ⟨rfl, rfl⟩
  | some text =>
      have hread : read text = .ok a := h
      simp [reading, hread, Except.toOption]

def ofEnvironment (env : Environment) : Layer where
  maxInputLength := reading Environment.readLimit env.maxInputLength
  format := reading Format.ofName env.format
  level := env.logLevel

def ofOptions (o : Options) : Layer where
  format := reading Format.ofName o.format
  level := o.logLevel

end Layer

theorem bind_eq_ok {α β : Type} {x : Except Error α} {f : α → Except Error β} {b : β}
    (h : (x >>= f) = .ok b) : ∃ a, x = .ok a ∧ f a = .ok b := by
  cases x with
  | error e => cases h
  | ok a => exact ⟨a, rfl, h⟩

open Layer

theorem Environment.config_eq {env : Environment} {c : Config} (h : env.config = .ok c) :
    c = (ofEnvironment env).config ∧ (ofEnvironment env).format.isSome = env.format.isSome ∧
      (ofEnvironment env).maxInputLength.isSome = env.maxInputLength.isSome := by
  have hreads : env.config = (do
      let format ← readOr Format.ofName .pretty env.format
      let maxInputLength ← readOr readLimit 65536 env.maxInputLength
      return { parser := { maxInputLength }, output := { format }
               logging := { level := env.logLevel.getD "warn" } }) := by
    obtain ⟨level, format, limit⟩ := env
    cases format <;> cases limit <;> rfl
  rw [hreads] at h
  obtain ⟨format, hformat, hrest⟩ := bind_eq_ok h
  obtain ⟨limit, hlimit, hc⟩ := bind_eq_ok hrest
  obtain ⟨rfl, hformatSet⟩ := readOr_eq_ok hformat
  obtain ⟨rfl, hlimitSet⟩ := readOr_eq_ok hlimit
  obtain rfl := Except.ok.inj hc
  exact ⟨rfl, hformatSet, hlimitSet⟩

theorem Options.override_eq {o : Options} {below : Layer} {c : Config}
    (h : o.override below.config = .ok c) :
    c = ((ofOptions o).above below).config ∧ (ofOptions o).format.isSome = o.format.isSome := by
  have hreads : o.override below.config = (do
      let format ← readOr Format.ofName below.config.output.format o.format
      return { below.config with
        output := { below.config.output with format }
        logging := { level := o.logLevel.getD below.config.logging.level } }) := by
    obtain ⟨config, level, format⟩ := o
    cases format <;> rfl
  rw [hreads] at h
  obtain ⟨format, hformat, hc⟩ := bind_eq_ok h
  obtain ⟨rfl, hformatSet⟩ := readOr_eq_ok hformat
  obtain rfl := Except.ok.inj hc
  refine ⟨?_, hformatSet⟩
  simp [Layer.config, Layer.above, ofOptions, Option.getD_or]

/-! ## The file -/

namespace Toml.Value

variable {α : Type}

/-- What a record says of one of its fields: a table by the name, a list by the
place of the name. -/
def given? (names : List String) (name : String) : Value → Option Value
  | table _ entries => entries.lookup name
  | list _ items => items[names.idxOf name]?
  | _ => none

theorem fields?_eq_some {names : List String} (hnames : names.Nodup) {v : Value}
    {fields : List (Option Value)} (h : v.fields? names = some fields) :
    fields = names.map fun name => v.given? names name := by
  cases v with
  | table form entries =>
      simp only [fields?] at h
      split at h
      · exact (Option.some.inj h).symm
      · cases h
  | list growing items =>
      obtain rfl := Option.some.inj h
      refine List.ext_getElem (by simp) fun i hi hi' => ?_
      have hindex : i < names.length := by simpa using hi
      simp [given?, hnames.idxOf_getElem i hindex]
  | moment => exact (Option.some.inj h).symm
  | _ => cases h

theorem orDefault_eq_some {f : Value → Option α} {default a : α} {v : Option Value}
    (h : orDefault f default v = some a) : a = (v.bind f).getD default := by
  cases v with
  | none => exact (Option.some.inj h).symm
  | some v =>
      have hread : f v = some a := h
      simp [hread]

end Toml.Value

def setting? {α : Type} (part : Option Toml.Value) (names : List String) (name : String)
    (read : Toml.Value → Option α) : Option α :=
  (part.bind (·.given? names name)).bind read

section Document

open Toml.Value

variable {part : Option Toml.Value}

def parserNames : List String := ["max_input_length", "trailing_semicolon", "log_errors"]

def outputNames : List String := ["format", "caret", "prompt"]

theorem parser_eq {settings : Settings} (h : orDefault Settings.ofToml? {} part = some settings) :
    settings =
      { maxInputLength :=
          (setting? part parserNames "max_input_length" (natural? · >>= Text.word64?)).getD 65536
        trailingSemicolon :=
          (setting? part parserNames "trailing_semicolon" boolean?).getD true
        logErrors := (setting? part parserNames "log_errors" boolean?).getD true } := by
  cases part with
  | none => exact (Option.some.inj h).symm
  | some v =>
      have hread : Settings.ofToml? v = some settings := h
      simp only [Settings.ofToml?, Option.bind_eq_bind, Option.bind_eq_some_iff] at hread
      obtain ⟨fields, hfields, hread⟩ := hread
      obtain rfl := fields?_eq_some (by decide) hfields
      simp only [List.map_cons, List.map_nil, Option.bind_eq_some_iff] at hread
      obtain ⟨limit, hlimit, semicolon, hsemicolon, log, hlog, hsettings⟩ := hread
      rw [orDefault_eq_some hlimit, orDefault_eq_some hsemicolon, orDefault_eq_some hlog]
        at hsettings
      exact (Option.some.inj hsettings).symm

theorem output_eq {output : OutputConfig}
    (h : orDefault OutputConfig.ofToml? {} part = some output) :
    output =
      { format :=
          (setting? part outputNames "format" (plainCase? Format.all Format.name)).getD .pretty
        caret := (setting? part outputNames "caret" boolean?).getD true
        prompt := (setting? part outputNames "prompt" string?).getD "->" } := by
  cases part with
  | none => exact (Option.some.inj h).symm
  | some v =>
      have hread : OutputConfig.ofToml? v = some output := h
      simp only [OutputConfig.ofToml?, Option.bind_eq_bind, Option.bind_eq_some_iff] at hread
      obtain ⟨fields, hfields, hread⟩ := hread
      obtain rfl := fields?_eq_some (by decide) hfields
      simp only [List.map_cons, List.map_nil, Option.bind_eq_some_iff] at hread
      obtain ⟨format, hformat, caret, hcaret, prompt, hprompt, houtput⟩ := hread
      rw [orDefault_eq_some hformat, orDefault_eq_some hcaret, orDefault_eq_some hprompt]
        at houtput
      exact (Option.some.inj houtput).symm

theorem logging_eq {logging : LoggingConfig}
    (h : orDefault LoggingConfig.ofToml? {} part = some logging) :
    logging = { level := (setting? part ["level"] "level" string?).getD "warn" } := by
  cases part with
  | none => exact (Option.some.inj h).symm
  | some v =>
      have hread : LoggingConfig.ofToml? v = some logging := h
      simp only [LoggingConfig.ofToml?, Option.bind_eq_bind, Option.bind_eq_some_iff] at hread
      obtain ⟨fields, hfields, hread⟩ := hread
      obtain rfl := fields?_eq_some (by decide) hfields
      simp only [List.map_cons, List.map_nil, Option.bind_eq_some_iff] at hread
      obtain ⟨level, hlevel, hlogging⟩ := hread
      rw [orDefault_eq_some hlevel] at hlogging
      exact (Option.some.inj hlogging).symm

def Layer.ofDocument (v : Toml.Value) : Layer :=
  let part := (v.given? ["parser", "output", "logging"] ·)
  { maxInputLength :=
      setting? (part "parser") parserNames "max_input_length" (natural? · >>= Text.word64?)
    trailingSemicolon := setting? (part "parser") parserNames "trailing_semicolon" boolean?
    logErrors := setting? (part "parser") parserNames "log_errors" boolean?
    format := setting? (part "output") outputNames "format" (plainCase? Format.all Format.name)
    caret := setting? (part "output") outputNames "caret" boolean?
    prompt := setting? (part "output") outputNames "prompt" string?
    level := setting? (part "logging") ["level"] "level" string? }

theorem Config.ofToml?_eq_some {v : Toml.Value} {c : Config} (h : Config.ofToml? v = some c) :
    c = (Layer.ofDocument v).config := by
  simp only [Config.ofToml?, Option.bind_eq_bind, Option.bind_eq_some_iff] at h
  obtain ⟨fields, hfields, h⟩ := h
  obtain rfl := fields?_eq_some (by decide) hfields
  simp only [List.map_cons, List.map_nil, Option.bind_eq_some_iff] at h
  obtain ⟨parser, hparser, output, houtput, logging, hlogging, hc⟩ := h
  rw [parser_eq hparser, output_eq houtput, logging_eq hlogging] at hc
  exact (Option.some.inj hc).symm

end Document

namespace Options

def document? (o : Options) (folder : Folder) : Option Toml.Value := do
  let text ← (folder.readText (o.config.getD defaultConfigFile)).toOption
  Toml.parse? text.toList

def fileLayer (o : Options) (folder : Folder) : Layer :=
  (o.document? folder).elim {} Layer.ofDocument

theorem load_eq {o : Options} {folder : Folder} {c : Config}
    (h : Config.load folder (o.config.getD defaultConfigFile) = .ok c) :
    c = (o.fileLayer folder).config := by
  rw [Config.load] at h
  split at h
  next text htext =>
    rw [Config.parseToml] at h
    split at h
    next c' hparse =>
      obtain rfl := Except.ok.inj h
      obtain ⟨v, hv, hc⟩ := Option.bind_eq_some_iff.mp hparse
      rw [Config.ofToml?_eq_some hc, fileLayer, document?, htext]
      simp [Except.toOption, hv]
    · cases h
  · cases h

theorem readText_of_not_contains {folder : Folder} {path : String}
    (h : folder.contains path = false) : (folder.readText path).toOption = none := by
  by_cases hpath : path = ""
  · simp [Folder.readText, Folder.read, hpath, bind, Except.bind, Except.toOption]
  · have hfile : folder.file? (.ofString path) = none := by
      simp only [Folder.contains, ne_eq, hpath, not_false_eq_true, decide_true, Bool.true_and,
        Bool.or_eq_false_iff, Option.isSome_eq_false_iff, Option.isNone_iff_eq_none] at h
      exact h.1
    simp [Folder.readText, Folder.read, hpath, hfile, bind, Except.bind, Except.toOption]

theorem loadFile_eq {o : Options} {folder : Folder} {c : Config} (h : o.loadFile folder = .ok c) :
    c = (o.fileLayer folder).config := by
  rw [loadFile] at h
  split at h
  next path hpath => exact load_eq (by rw [hpath]; exact h)
  next hpath =>
    split at h
    · exact load_eq (by rw [hpath]; exact h)
    next hcontains =>
      obtain rfl := Except.ok.inj h
      have hnone : o.document? folder = none := by
        rw [document?, hpath]
        simp [readText_of_not_contains (Bool.eq_false_iff.mpr hcontains)]
      rw [fileLayer, hnone]
      rfl

/-- A configuration that is loaded is made of the options, of what the environment
sets to another value than the default, and of the file, in this order; what none
of them says has its default.  No option and no variable that is given is left
out because it could not be read. -/
theorem loadConfig_layers {o : Options} {folder : Folder} {env : Environment} {c : Config}
    (h : o.loadConfig folder env = .ok c) :
    c = ((ofOptions o).above ((ofEnvironment env).deviating.above (o.fileLayer folder))).config ∧
      (ofOptions o).format.isSome = o.format.isSome ∧
      (ofEnvironment env).format.isSome = env.format.isSome ∧
      (ofEnvironment env).maxInputLength.isSome = env.maxInputLength.isSome := by
  obtain ⟨file, hfile, h⟩ := bind_eq_ok h
  obtain ⟨environment, henvironment, h⟩ := bind_eq_ok h
  obtain ⟨config, hconfig, h⟩ := bind_eq_ok h
  obtain ⟨-, -, h⟩ := bind_eq_ok h
  obtain rfl := Except.ok.inj h
  obtain ⟨rfl, hformat, hlimit⟩ := Environment.config_eq henvironment
  rw [loadFile_eq hfile, merge_config] at hconfig
  obtain ⟨rfl, hoption⟩ := override_eq hconfig
  exact ⟨rfl, hoption, hformat, hlimit⟩

/-- A file, a variable and an option that say something about one setting each. -/
theorem loadConfig_layers_three :
    ∃ c,
      ({ format := some "JSON" } : Options).loadConfig
        ⟨[(.ofString "stepql.toml", "[logging]\nlevel = \"debug\"\n".toUTF8)]⟩
        { maxInputLength := some "80" } = .ok c ∧
      c = { parser := { maxInputLength := 80 }, output := { format := .json }
            logging := { level := "debug" } } := by
  have hload : ({ format := some "JSON" } : Options).loadConfig
      ⟨[(.ofString "stepql.toml", "[logging]\nlevel = \"debug\"\n".toUTF8)]⟩
      { maxInputLength := some "80" } =
        .ok { parser := { maxInputLength := 80 }, output := { format := .json }
              logging := { level := "debug" } } := by
    decide +kernel
  refine ⟨_, hload, (loadConfig_layers hload).1.trans ?_⟩
  decide +kernel

/-- Variables that are set to the defaults do not count against a file. -/
theorem loadConfig_ignores_default :
    ∃ c,
      ({} : Options).loadConfig
        ⟨[(.ofString "stepql.toml",
          "[output]\nformat = \"json\"\n[logging]\nlevel = \"debug\"\n".toUTF8)]⟩
        { format := some "pretty", logLevel := some "warn" } = .ok c ∧
      c.output.format = .json ∧ c.logging.level = "debug" :=
  ⟨{ output := { format := .json }, logging := { level := "debug" } }, by decide +kernel, rfl, rfl⟩

end Options

end SqlReader
