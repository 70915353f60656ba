import SqlReader.Config.File
import SqlReader.Proofs.Toml.Document

/-!
# Saved configurations

A configuration is written as a document of three tables.  The document is read back
to the values it was written from, no field falls back to its default, and so a
configuration that has been saved is loaded unchanged.
-/

namespace SqlReader

open Toml Toml.Value

/-! ## The written document -/

namespace Toml.Setting

variable (key : String) (bare : BareKey key)

def ofText (s : String) : Setting where
  key
  text := (Config.stringText s).toList
  value := .string s
  bare
  spells := by
    rw [Config.stringText, String.toList_ofList]
    simpa [String.ofList_toList] using spells_writeString s.toList

def ofBoolean (b : Bool) : Setting where
  key
  text := (Config.boolText b).toList
  value := .boolean b
  bare
  spells := by
    have hspells := spells_boolean b
    cases b <;> simpa [Config.boolText] using hspells

def ofNatural (n : Nat) : Setting where
  key
  text := (toString n).toList
  value := .integer (Int.ofNat n)
  bare
  spells := by
    rw [Nat.toString_eq_repr, Nat.toList_repr]
    exact spells_integer n

end Toml.Setting

open Toml.Setting

def Settings.table (s : Settings) : Table where
  name := "parser"
  settings := [
    ofNatural "max_input_length" (by decide) s.maxInputLength.toNat,
    ofBoolean "trailing_semicolon" (by decide) s.trailingSemicolon,
    ofBoolean "log_errors" (by decide) s.logErrors]
  bare := by decide
  nodup := by simp [ofNatural, ofBoolean]

def OutputConfig.table (o : OutputConfig) : Table where
  name := "output"
  settings := [
    ofText "format" (by decide) o.format.name,
    ofBoolean "caret" (by decide) o.caret,
    ofText "prompt" (by decide) o.prompt]
  bare := by decide
  nodup := by simp [ofText, ofBoolean]

def LoggingConfig.table (l : LoggingConfig) : Table where
  name := "logging"
  settings := [ofText "level" (by decide) l.level]
  bare := by decide
  nodup := by simp

namespace Config

def tables (c : Config) : List Table := [c.parser.table, c.output.table, c.logging.table]

theorem toList_line (key value : String) :
    (line key value).toList = key.toList ++ ' ' :: '=' :: ' ' :: (value.toList ++ ['\n']) := by
  simp [line, String.toList_append]

theorem toList_toToml (c : Config) : c.toToml.toList = document c.tables := by
  have hparser : "[parser]\n".toList = c.parser.table.header ++ ['\n'] := by
    simp [Settings.table, Table.header]
  have houtput : "\n[output]\n".toList = '\n' :: (c.output.table.header ++ ['\n']) := by
    simp [OutputConfig.table, Table.header]
  have hlogging : "\n[logging]\n".toList = '\n' :: (c.logging.table.header ++ ['\n']) := by
    simp [LoggingConfig.table, Table.header]
  -- Not by the equation of the definition: to derive it, the whole texts are evaluated.
  delta toToml
  simp only [String.toList_append, toList_line, hparser, houtput, hlogging, document,
    tables, List.map_cons, List.map_nil, List.intercalate_cons_cons, List.intercalate_singleton,
    Table.lines]
  simp only [Settings.table, OutputConfig.table, LoggingConfig.table, List.flatMap_cons,
    List.flatMap_nil, Setting.line, ofNatural, ofBoolean, ofText, List.append_assoc,
    List.cons_append, List.nil_append, List.append_nil]

end Config

/-! ## The values of a document -/

theorem Settings.ofToml?_table (s : Settings) : ofToml? s.table.value = some s := by
  have hfields : s.table.value.fields? ["max_input_length", "trailing_semicolon", "log_errors"] =
      some [some (.integer s.maxInputLength.toNat), some (.boolean s.trailingSemicolon),
        some (.boolean s.logErrors)] :=
    fields?_table .header s.table.nodup
  simp [ofToml?, hfields, orDefault, natural?, boolean?]

theorem OutputConfig.ofToml?_table (o : OutputConfig) : ofToml? o.table.value = some o := by
  have hfields : o.table.value.fields? ["format", "caret", "prompt"] =
      some [some (.string o.format.name), some (.boolean o.caret), some (.string o.prompt)] :=
    fields?_table .header o.table.nodup
  have hformat : plainCase? Format.all Format.name (.string o.format.name) = some o.format := by
    cases o.format <;> decide
  simp [ofToml?, hfields, orDefault, hformat, boolean?, string?]

theorem LoggingConfig.ofToml?_table (l : LoggingConfig) : ofToml? l.table.value = some l := by
  have hfields : l.table.value.fields? ["level"] = some [some (.string l.level)] :=
    fields?_table .header l.table.nodup
  simp [ofToml?, hfields, orDefault, string?]

namespace Config

theorem nodup_tables (c : Config) : (c.tables.map (·.name)).Nodup := by
  simp [tables, Settings.table, OutputConfig.table, LoggingConfig.table]

theorem ofToml?_tables (c : Config) :
    ofToml? (.table .header (c.tables.map fun t => (t.name, t.value))) = some c := by
  have hfields :
      (Value.table .header (c.tables.map fun t => (t.name, t.value))).fields?
          ["parser", "output", "logging"] =
        some [some c.parser.table.value, some c.output.table.value, some c.logging.table.value] :=
    fields?_table .header c.nodup_tables
  simp [ofToml?, hfields, orDefault, Settings.ofToml?_table, OutputConfig.ofToml?_table,
    LoggingConfig.ofToml?_table]

/-- The document of a configuration is read as the configuration. -/
theorem parseToml_toToml (c : Config) : parseToml c.toToml = .ok c := by
  rw [parseToml, toList_toToml, parse?_document c.nodup_tables]
  simp [ofToml?_tables]

end Config

/-! ## The file -/

theorem fromUTF8?_toUTF8 (text : String) : String.fromUTF8? text.toUTF8 = some text := by
  rw [String.fromUTF8?, String.toUTF8_eq_toByteArray, dif_pos text.isValidUTF8]
  rfl

namespace Folder

variable {f f' : Folder} {path text : String}

theorem file?_put (f : Folder) (path : Path) (bytes : ByteArray) :
    (f.put path bytes).file? path = some bytes := by
  simp [file?, put]

/-- A text that has been written to a file is read from it. -/
theorem readText_writeText (h : f.writeText path text = .ok f') :
    f'.readText path = .ok text := by
  simp only [writeText] at h
  split_ifs at h with hpath hfolder hparent
  obtain rfl := Except.ok.inj h
  have hread : (f.put (.ofString path) text.toUTF8).read path = .ok text.toUTF8 := by
    rw [read, if_neg hpath, file?_put]
  simp only [readText, hread, bind, Except.bind, fromUTF8?_toUTF8]

end Folder

namespace Config

/-- A configuration that has been saved is loaded as it was, whatever its texts and
numbers are. -/
theorem load_save {c : Config} {folder folder' : Folder} {path : String}
    (h : c.save folder path = .ok folder') : load folder' path = .ok c := by
  have hwrite : folder.writeText path c.toToml = .ok folder' := by
    rw [save] at h
    split at h
    next hwritten =>
      obtain rfl := Except.ok.inj h
      exact hwritten
    · cases h
  rw [load, Folder.readText_writeText hwrite]
  exact parseToml_toToml c

/-- A configuration with texts that hold quotes of both kinds, line breaks, controls and
backslashes, and with the greatest limit. -/
def awkward : Config where
  parser := { maxInputLength := 18446744073709551615, logErrors := false }
  output := { format := .debug, caret := false, prompt := "\"\"\" \\ ''' \r\n\x01 Ж" }
  logging := { level := "'\n\\" }

theorem load_save_awkward :
    ∃ folder, awkward.save {} "./awkward" = .ok folder ∧ load folder "./awkward" = .ok awkward := by
  have hsave : awkward.save {} "./awkward" = .ok _ := rfl
  exact ⟨_, hsave, load_save hsave⟩

end Config

end SqlReader
