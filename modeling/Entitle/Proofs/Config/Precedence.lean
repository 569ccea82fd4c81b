import Entitle.Config.Source
import Entitle.Proofs.Config.Setting

/-!
# Which sources of a configuration count

There is one source at a time, and which it is follows a fixed order (`IsSource`). A configuration is what its source
says, overridden setting by setting; nothing that stands behind the source counts, and each variable counts for its
own setting only (`load_precedence`).
-/

namespace Entitle.Config

variable {env env' : Environment} {files files' : Files} {src other : Source} {base c c' : Config}

/-- The source of a configuration, in the order of precedence: the file that a variable names, the text in a variable,
the first of the default files that is there, the defaults. -/
inductive IsSource (env : Environment) (files : Files) : Source → Prop where
  | named {path : String} (h : env "CONFIG" = some path) : IsSource env files (.file path)
  | inline {text : String} (hnamed : env "CONFIG" = none) (h : env "CONFIG_CONTENT" = some text) :
      IsSource env files (.variableText text)
  | visible (hnamed : env "CONFIG" = none) (hinline : env "CONFIG_CONTENT" = none)
      (h : exists? files "./purchases.toml") : IsSource env files (.file "./purchases.toml")
  | hidden (hnamed : env "CONFIG" = none) (hinline : env "CONFIG_CONTENT" = none)
      (hvisible : ¬ exists? files "./purchases.toml") (h : exists? files "./.purchases.toml") :
      IsSource env files (.file "./.purchases.toml")
  | defaults (hnamed : env "CONFIG" = none) (hinline : env "CONFIG_CONTENT" = none)
      (hvisible : ¬ exists? files "./purchases.toml") (hhidden : ¬ exists? files "./.purchases.toml") :
      IsSource env files .defaults

theorem IsSource.source_eq (h : IsSource env files src) : source env files = src := by
  cases h with
  | named h => simp [source, h]
  | inline hnamed h => simp [source, hnamed, h]
  | visible hnamed hinline h => simp [source, hnamed, hinline, defaultFiles, h]
  | hidden hnamed hinline hvisible h => simp [source, hnamed, hinline, defaultFiles, hvisible, h]
  | defaults hnamed hinline hvisible hhidden => simp [source, hnamed, hinline, defaultFiles, hvisible, hhidden]

theorem isSource_source (env : Environment) (files : Files) : IsSource env files (source env files) := by
  have hfound {src : Source} (h : IsSource env files src) : IsSource env files (source env files) :=
    h.source_eq.symm ▸ h
  cases hnamed : env "CONFIG" with
  | some path => exact hfound (.named hnamed)
  | none =>
    cases hinline : env "CONFIG_CONTENT" with
    | some text => exact hfound (.inline hnamed hinline)
    | none =>
      by_cases hvisible : exists? files "./purchases.toml"
      · exact hfound (.visible hnamed hinline hvisible)
      · by_cases hhidden : exists? files "./.purchases.toml"
        · exact hfound (.hidden hnamed hinline hvisible hhidden)
        · exact hfound (.defaults hnamed hinline hvisible hhidden)

theorem isSource_iff : IsSource env files other ↔ other = source env files :=
  ⟨fun h => h.source_eq.symm, fun h => h ▸ isSource_source env files⟩

/-! ### What is loaded -/

/-- A source says the same in two file systems. -/
def Source.SameIn (src : Source) (files files' : Files) : Prop :=
  ∀ path, src = .file path → files' path = files path

theorem Source.SameIn.read_eq (h : src.SameIn files files') : src.read files' = src.read files := by
  cases src with
  | file path => rw [Source.read, Source.read, readFile, readFile, h path rfl]
  | variableText text => rfl
  | defaults => rfl

theorem load_of_read_error {fault : LoadFault} (h : (source env files).read files = .error fault) :
    load env files = .error fault := by
  rw [load, h]
  rfl

theorem load_of_read_ok (h : (source env files).read files = .ok base) :
    load env files = withEnvironment env base := by
  rw [load, h]
  rfl

theorem load_eq_ok :
    load env files = .ok c ↔
      ∃ base, (source env files).read files = .ok base ∧ ∀ s : Setting, s.Follows env base c := by
  cases h : (source env files).read files with
  | error fault => simp [load_of_read_error h]
  | ok base => simp [load_of_read_ok h, withEnvironment_eq_ok]

theorem load_congr (hsource : source env' files' = source env files) (hsame : (source env files).SameIn files files')
    (henv : ∀ s : Setting, env' s.variableName = env s.variableName) : load env' files' = load env files := by
  rw [load, load, hsource, hsame.read_eq]
  exact bind_congr fun base => withEnvironment_congr henv base

/-- Two situations with one source, in which the variable of one setting is the same. -/
theorem get_congr_of_load (hsource : source env' files' = source env files)
    (hsame : (source env files).SameIn files files') {s : Setting} (henv : env' s.variableName = env s.variableName)
    (h : load env files = .ok c) (h' : load env' files' = .ok c') : s.get c' = s.get c := by
  obtain ⟨base, hread, hfollows⟩ := load_eq_ok.1 h
  obtain ⟨base', hread', hfollows'⟩ := load_eq_ok.1 h'
  rw [hsource, hsame.read_eq, hread] at hread'
  cases hread'
  exact ((Setting.Follows.congr henv rfl).1 (hfollows' s)).unique (hfollows s)

/-- One source counts. If it cannot be read that is the failure; else a configuration is loaded if and only if each
setting is what its variable says, if that is set, and what the source says if not. In any other situation with this
source the same is loaded, or fails alike, if the variables of the settings are the same; and a setting is the same if
its own variable is. -/
theorem load_precedence (env : Environment) (files : Files) :
    ∃ src, (∀ other, IsSource env files other ↔ other = src) ∧
      (∀ fault, src.read files = .error fault → load env files = .error fault) ∧
      (∀ c, load env files = .ok c ↔ ∃ base, src.read files = .ok base ∧ ∀ s : Setting, s.Follows env base c) ∧
      ∀ env' files', IsSource env' files' src → src.SameIn files files' →
        ((∀ s : Setting, env' s.variableName = env s.variableName) → load env' files' = load env files) ∧
        ∀ s : Setting, env' s.variableName = env s.variableName →
          ∀ c c', load env files = .ok c → load env' files' = .ok c' → s.get c' = s.get c :=
  ⟨source env files, fun _ => isSource_iff, fun _ => load_of_read_error, fun _ => load_eq_ok,
    fun _ _ hsource hsame => ⟨load_congr hsource.source_eq hsame,
      fun _ henv _ _ => get_congr_of_load hsource.source_eq hsame henv⟩⟩

/-- With a text in a variable, a default file that nobody can read and a number for another setting make no difference
to a setting that has its own variable. -/
theorem load_precedence_variableText :
    let env (urgent : Option String) : Environment := fun
      | "CONFIG_CONTENT" => some "[dispatch]\nmax_concurrent_exchanges = 4\n"
      | "MAX_CONCURRENT_EXCHANGES" => some "6"
      | "STATE_DIR" => some ""
      | "JITTER_LONG_MAX_MS" => urgent
      | _ => none
    let bare : Files := fun _ => .error .notFound
    let broken : Files := fun _ => .ok [255]
    (∃ c, load (env none) bare = .ok c ∧ load (env none) broken = .ok c) ∧
      ∃ c c', load (env none) bare = .ok c ∧ load (env (some "9")) broken = .ok c' ∧ c ≠ c' ∧
        Setting.maxConcurrent.get c' = Setting.maxConcurrent.get c := by
  intro env bare broken
  obtain ⟨src, hsource, -, -, htwo⟩ := load_precedence (env none) bare
  obtain rfl := (hsource _).1 (.inline rfl rfl)
  have hload : load (env none) bare = .ok { dispatch.maxConcurrent := 6 } := by decide +kernel
  have hload' : load (env (some "9")) broken = .ok { dispatch := { maxConcurrent := 6, longDelay := 9 } } := by
    decide +kernel
  refine ⟨⟨_, hload, ?_⟩, _, _, hload, hload', by decide, ?_⟩
  · rw [(htwo (env none) broken (.inline rfl rfl) nofun).1 fun _ => rfl, hload]
  · exact (htwo (env (some "9")) broken (.inline rfl rfl) nofun).2 .maxConcurrent rfl _ _ hload hload'

end Entitle.Config
