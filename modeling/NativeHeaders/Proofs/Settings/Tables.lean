import NativeHeaders.Proofs.Fallible
import NativeHeaders.Proofs.Settings.Notation
import NativeHeaders.Settings

/-! # Settings in tables

A table holds settings if each of its pairs is one, that is if its key is known and its value is of
the kind that goes with the key (`IsSetting`). Each field of the settings then has what stands under
its key, or what it had before (`Describes`). `parse?_eq_some` says so of every text, and
`parse?_written` of the text of every table. -/

namespace NativeHeaders.Settings

open Toml (Value)

variable {table : List (String × Value)} {before settings : Settings} {text : String}

/-! ### Pairs -/

/-- **The pairs that are settings**: a key with a value of the kind that goes with it. -/
inductive IsSetting : String × Value → Prop where
  /-- The class path is a list. -/
  | classPath (texts : List String) : IsSetting ("classpath", .texts texts)
  /-- The module path is a list. -/
  | modulePath (texts : List String) : IsSetting ("module-path", .texts texts)
  /-- Whether an installation is used is a truth value. -/
  | usesInstallation (isOn : Bool) : IsSetting ("use-runtime", .flag isOn)
  /-- The installation is a text. -/
  | javaHome (text : String) : IsSetting ("java-home", .text text)
  /-- The file for all headers is a text. -/
  | outputFile (text : String) : IsSetting ("output-file", .text text)
  /-- The directory for headers is a text. -/
  | outputDirectory (text : String) : IsSetting ("output-dir", .text text)

/-- The text that a value is. -/
def text? : Value → Option String
  | .text text => some text
  | _ => none

/-- The truth value that a value is. -/
def flag? : Value → Option Bool
  | .flag isOn => some isOn
  | _ => none

/-- The list of texts that a value is. -/
def texts? : Value → Option (List String)
  | .texts texts => some texts
  | _ => none

/-- **What a table says about settings**: each field has what stands under its key, and keeps what it
had before if there is nothing. -/
@[mk_iff]
structure Describes (table : List (String × Value)) (before settings : Settings) : Prop where
  /-- The class path stands under `classpath`. -/
  classPath : settings.classPath =
    ((table.lookup "classpath").bind texts?).getD before.classPath
  /-- The module path stands under `module-path`. -/
  modulePath : settings.modulePath =
    ((table.lookup "module-path").bind texts?).getD before.modulePath
  /-- Whether an installation is used stands under `use-runtime`. -/
  usesInstallation : settings.usesInstallation =
    ((table.lookup "use-runtime").bind flag?).getD before.usesInstallation
  /-- The installation stands under `java-home`. -/
  javaHome : settings.javaHome =
    (((table.lookup "java-home").bind text?).map Path.mk).or before.javaHome
  /-- The file for all headers stands under `output-file`. -/
  outputFile : settings.outputFile =
    (((table.lookup "output-file").bind text?).map Path.mk).or before.outputFile
  /-- The directory for headers stands under `output-dir`. -/
  outputDirectory : settings.outputDirectory =
    (((table.lookup "output-dir").bind text?).map Path.mk).or before.outputDirectory

/-- A table describes only one result. -/
theorem Describes.unique {other : Settings} (h : Describes table before settings)
    (hother : Describes table before other) : settings = other := by
  obtain ⟨h1, h2, h3, h4, h5, h6⟩ := h
  obtain ⟨h1', h2', h3', h4', h5', h6'⟩ := hother
  cases settings
  cases other
  simp only at *
  simp [*]

/-- Every table describes settings. -/
theorem exists_describes (table : List (String × Value)) (before : Settings) :
    ∃ settings, Describes table before settings :=
  ⟨{ classPath := _, modulePath := _, usesInstallation := _, javaHome := _, outputFile := _,
      outputDirectory := _ }, rfl, rfl, rfl, rfl, rfl, rfl⟩

/-- Nothing stands under a key exactly if the table does not have it. -/
theorem lookup_eq_none_iff {key : String} : table.lookup key = none ↔ key ∉ table.map Prod.fst := by
  rw [List.lookup_eq_none_iff]
  constructor
  · intro hnone hkey
    obtain ⟨pair, hpair, rfl⟩ := List.mem_map.mp hkey
    exact absurd (hnone pair hpair) (by simp)
  · intro hkey pair hpair
    have hne : key ≠ pair.1 := fun heq => hkey (heq ▸ List.mem_map_of_mem hpair)
    simpa using hne

/-- A pair changes the settings exactly if it is a setting. -/
theorem exists_set?_eq_some {pair : String × Value} :
    (∃ after, set? before pair = some after) ↔ IsSetting pair := by
  constructor
  · rintro ⟨after, hset⟩
    unfold set? at hset
    split at hset
    · exact .classPath _
    · exact .modulePath _
    · exact .usesInstallation _
    · exact .javaHome _
    · exact .outputFile _
    · exact .outputDirectory _
    · cases hset
  · rintro (_ | _ | _ | _ | _ | _) <;> exact ⟨_, rfl⟩

/-- The first pair and the others describe what the table does, if the key of the first pair is not
repeated. -/
theorem describes_cons {pair : String × Value} {middle : Settings}
    (hset : set? before pair = some middle) (hnew : pair.1 ∉ table.map Prod.fst) :
    Describes (pair :: table) before settings ↔ Describes table middle settings := by
  have hnone : table.lookup pair.1 = none := lookup_eq_none_iff.mpr hnew
  have hpair : IsSetting pair := exists_set?_eq_some.mp ⟨middle, hset⟩
  -- The field of the key has what the pair says, and every other field is looked up in the rest.
  cases hpair <;> cases hset <;> simp only at hnone <;>
    simp [describes_iff, List.lookup_cons, text?, flag?, texts?, hnone]

/-- The pairs of a table are taken over one after the other. -/
theorem foldlM_set?_eq_some (hnodup : (table.map Prod.fst).Nodup) :
    table.foldlM set? before = some settings ↔
      (∀ pair ∈ table, IsSetting pair) ∧ Describes table before settings := by
  induction table generalizing before with
  | nil =>
    have hempty : Describes [] before settings ↔ before = settings := by
      constructor
      · intro h
        exact Describes.unique ⟨rfl, rfl, rfl, rfl, rfl, rfl⟩ h
      · rintro rfl
        exact ⟨rfl, rfl, rfl, rfl, rfl, rfl⟩
    rw [hempty]
    simp
  | cons pair table ih =>
    rw [List.map_cons, List.nodup_cons] at hnodup
    rw [List.foldlM_cons, List.forall_mem_cons, Option.bind_eq_bind, Option.bind_eq_some_iff]
    constructor
    · rintro ⟨middle, hset, hrest⟩
      obtain ⟨hlegal, hdescribes⟩ := (ih hnodup.2).mp hrest
      exact ⟨⟨exists_set?_eq_some.mp ⟨middle, hset⟩, hlegal⟩,
        (describes_cons hset hnodup.1).mpr hdescribes⟩
    · rintro ⟨⟨hpair, hlegal⟩, hdescribes⟩
      obtain ⟨middle, hset⟩ := exists_set?_eq_some.mpr hpair
      exact ⟨middle, hset, (ih hnodup.2).mpr
        ⟨hlegal, (describes_cons hset hnodup.1).mp hdescribes⟩⟩

/-! ### Keys -/

/-- The settings for outputs are texts. -/
theorem IsSetting.exists_text {pair : String × Value} (h : IsSetting pair)
    (hkey : pair.1 ∈ ["output-file", "output-dir"]) : ∃ text, pair.2 = .text text := by
  cases h with
  | classPath texts => simp at hkey
  | modulePath texts => simp at hkey
  | usesInstallation isOn => simp at hkey
  | javaHome text => simp at hkey
  | outputFile text => exact ⟨text, rfl⟩
  | outputDirectory text => exact ⟨text, rfl⟩

/-- A text stands under the key of an output exactly if the table has the key, if all its pairs are
settings. -/
theorem bind_text?_eq_none_iff {key : String} (hlegal : ∀ pair ∈ table, IsSetting pair)
    (hkey : key ∈ ["output-file", "output-dir"]) :
    (table.lookup key).bind text? = none ↔ key ∉ table.map Prod.fst := by
  rw [← lookup_eq_none_iff]
  cases hlookup : table.lookup key with
  | none => simp
  | some value =>
    obtain ⟨before, after, htable, -⟩ := List.lookup_eq_some_iff.mp hlookup
    obtain ⟨text, htext⟩ := (hlegal (key, value) (by simp [htable])).exists_text hkey
    simp [show value = .text text from htext, text?]

/-- **There is a file for all headers** exactly if the table has the key `output-file`. -/
theorem Describes.outputFile_ne_none_iff (h : Describes table {} settings)
    (hlegal : ∀ pair ∈ table, IsSetting pair) :
    settings.outputFile ≠ none ↔ "output-file" ∈ table.map Prod.fst := by
  rw [h.outputFile, ← not_iff_not, not_not, Option.or_none, Option.map_eq_none_iff,
    bind_text?_eq_none_iff hlegal (by decide)]

/-- **There is a directory for headers** exactly if the table has the key `output-dir`. -/
theorem Describes.outputDirectory_ne_none_iff (h : Describes table {} settings)
    (hlegal : ∀ pair ∈ table, IsSetting pair) :
    settings.outputDirectory ≠ none ↔ "output-dir" ∈ table.map Prod.fst := by
  rw [h.outputDirectory, ← not_iff_not, not_not, Option.or_none, Option.map_eq_none_iff,
    bind_text?_eq_none_iff hlegal (by decide)]

/-! ### Texts -/

/-- The keys of a table that was read are distinct. -/
theorem nodup_of_parse?_eq_some (h : Toml.parse? text = some table) :
    (table.map Prod.fst).Nodup := by
  rw [Toml.parse?] at h
  obtain ⟨pairs, -, h⟩ := Option.bind_eq_some_iff.mp h
  split at h
  · next hnodup =>
    cases h
    exact hnodup
  · cases h

/-- **A text holds settings** exactly if it is a table of which every pair is a setting; each field is
then what stands under its key. -/
theorem parse?_eq_some :
    parse? text = some settings ↔
      ∃ table, Toml.parse? text = some table ∧ (∀ pair ∈ table, IsSetting pair) ∧
        Describes table {} settings := by
  rw [parse?, Option.bind_eq_bind, Option.bind_eq_some_iff]
  constructor
  · rintro ⟨table, htable, hfold⟩
    exact ⟨table, htable, (foldlM_set?_eq_some (nodup_of_parse?_eq_some htable)).mp hfold⟩
  · rintro ⟨table, htable, hdescribes⟩
    exact ⟨table, htable, (foldlM_set?_eq_some (nodup_of_parse?_eq_some htable)).mpr hdescribes⟩

/-- **Settings that are written as a table are read back**, whatever the texts in them are. -/
theorem parse?_written_eq_some (hnodup : (table.map Prod.fst).Nodup) :
    parse? (Toml.written table) = some settings ↔
      (∀ pair ∈ table, IsSetting pair) ∧ Describes table {} settings := by
  rw [parse?_eq_some, Toml.parse?_written hnodup]
  simp

end NativeHeaders.Settings
