import Entitle.Config.Environment
import Entitle.Proofs.Text.Numeral

/-!
# Settings and the variables that override them

Each variable is about one setting of a configuration. It puts there what its text stands for, and fails if it stands
for nothing (`Variable.Drives`). When all are applied, each setting is what its own variable says, if that is set, and
else as it was; and this says all about the result (`withEnvironment_eq_ok`).
-/

namespace Entitle.Config

open Text.Numeral (IsNatural uint64Max)

/-- What a variable can override. -/
inductive Setting where
  | baseUrl
  | apiKey
  | timeoutSeconds
  | userAgent
  | maxConcurrent
  | defaultDelay
  | longDelay
  | cacheEnabled
  | stateDir
  | logLevel
  | logFormat
  deriving DecidableEq

namespace Setting

/-- What a setting can be. -/
abbrev Value : Setting → Type
  | .baseUrl | .userAgent | .logLevel => String
  | .apiKey | .stateDir => Option String
  | .timeoutSeconds | .maxConcurrent | .defaultDelay | .longDelay => Nat
  | .cacheEnabled => Bool
  | .logFormat => LogFormat

/-- A setting of a configuration. -/
def get : (s : Setting) → Config → s.Value
  | .baseUrl, c => c.api.baseUrl
  | .apiKey, c => c.api.apiKey
  | .timeoutSeconds, c => c.api.timeoutSeconds
  | .userAgent, c => c.api.userAgent
  | .maxConcurrent, c => c.dispatch.maxConcurrent
  | .defaultDelay, c => c.dispatch.defaultDelay
  | .longDelay, c => c.dispatch.longDelay
  | .cacheEnabled, c => c.cache.enabled
  | .stateDir, c => c.cache.stateDir
  | .logLevel, c => c.logging.level
  | .logFormat, c => c.logging.format

/-- Changes a setting of a configuration. -/
def put : (s : Setting) → s.Value → Config → Config
  | .baseUrl, v, c => { c with api.baseUrl := v }
  | .apiKey, v, c => { c with api.apiKey := v }
  | .timeoutSeconds, v, c => { c with api.timeoutSeconds := v }
  | .userAgent, v, c => { c with api.userAgent := v }
  | .maxConcurrent, v, c => { c with dispatch.maxConcurrent := v }
  | .defaultDelay, v, c => { c with dispatch.defaultDelay := v }
  | .longDelay, v, c => { c with dispatch.longDelay := v }
  | .cacheEnabled, v, c => { c with cache.enabled := v }
  | .stateDir, v, c => { c with cache.stateDir := v }
  | .logLevel, v, c => { c with logging.level := v }
  | .logFormat, v, c => { c with logging.format := v }

@[simp]
theorem get_put_self (s : Setting) (v : s.Value) (c : Config) : s.get (s.put v c) = v := by
  cases s <;> rfl

theorem put_get_self (s : Setting) (c : Config) : s.put (s.get c) c = c := by
  cases s <;> rfl

theorem get_put_of_ne {s t : Setting} (h : t ≠ s) (v : s.Value) (c : Config) : t.get (s.put v c) = t.get c := by
  cases s <;> cases t <;> first | rfl | exact absurd rfl h

theorem ext {c c' : Config} (h : ∀ s : Setting, s.get c = s.get c') : c = c' := by
  obtain ⟨⟨_, _, _, _⟩, ⟨_, _, _⟩, ⟨_, _⟩, ⟨_, _⟩⟩ := c
  obtain ⟨⟨_, _, _, _⟩, ⟨_, _, _⟩, ⟨_, _⟩, ⟨_, _⟩⟩ := c'
  obtain rfl := h .baseUrl
  obtain rfl := h .apiKey
  obtain rfl := h .timeoutSeconds
  obtain rfl := h .userAgent
  obtain rfl := h .maxConcurrent
  obtain rfl := h .defaultDelay
  obtain rfl := h .longDelay
  obtain rfl := h .cacheEnabled
  obtain rfl := h .stateDir
  obtain rfl := h .logLevel
  obtain rfl := h .logFormat
  rfl

/-- The variable of a setting, without the common start of the names. -/
def variableName : Setting → String
  | .baseUrl => "API_BASE_URL"
  | .apiKey => "API_KEY"
  | .timeoutSeconds => "API_TIMEOUT_SECS"
  | .userAgent => "USER_AGENT"
  | .maxConcurrent => "MAX_CONCURRENT_EXCHANGES"
  | .defaultDelay => "JITTER_DEFAULT_MAX_MS"
  | .longDelay => "JITTER_LONG_MAX_MS"
  | .cacheEnabled => "CACHE_ENABLED"
  | .stateDir => "STATE_DIR"
  | .logLevel => "LOG_LEVEL"
  | .logFormat => "LOG_FORMAT"

/-! ### What a text stands for -/

/-- A number of 64 bits, as it is written. -/
def IsNumber (text : String) (n : Nat) : Prop :=
  IsNatural text.toList n ∧ n ≤ uint64Max

/-- A log format by one of its names, in letters of any case. -/
def IsFormat (text : String) : LogFormat → Prop
  | .text => text.toLower = "text" ∨ text.toLower = "pretty"
  | .json => text.toLower = "json"

/-- A text stands for a value of a setting. An empty state directory stands for none. -/
def IsWritten : (s : Setting) → String → s.Value → Prop
  | .baseUrl, text, v | .userAgent, text, v | .logLevel, text, v => v = text
  | .apiKey, text, v => v = some text
  | .stateDir, text, v => v = if text = "" then none else some text
  | .timeoutSeconds, text, v | .maxConcurrent, text, v | .defaultDelay, text, v | .longDelay, text, v => IsNumber text v
  | .cacheEnabled, text, v => text = if v then "true" else "false"
  | .logFormat, text, v => IsFormat text v

theorem isNumber_iff {text : String} {n : Nat} :
    IsNumber text n ↔ Text.Numeral.natural uint64Max text = .ok n :=
  Text.Numeral.natural_eq_ok.symm

theorem isFormat_iff {text : String} {format : LogFormat} :
    IsFormat text format ↔ LogFormat.ofName? text = some format := by
  unfold LogFormat.ofName?
  cases format <;> simp only [IsFormat] <;> split <;> simp_all

theorem IsWritten.unique {s : Setting} {text : String} {v v' : s.Value} (h : s.IsWritten text v)
    (h' : s.IsWritten text v') : v = v' := by
  have hnumber {n n' : Nat} (h : IsNumber text n) (h' : IsNumber text n') : n = n' :=
    Except.ok.inj ((isNumber_iff.1 h).symm.trans (isNumber_iff.1 h'))
  cases s with
  | baseUrl | apiKey | userAgent | stateDir | logLevel => exact Eq.trans h (Eq.symm h')
  | timeoutSeconds | maxConcurrent | defaultDelay | longDelay => exact hnumber h h'
  | cacheEnabled =>
    cases v <;> cases v' <;> first | rfl | exact absurd (Eq.trans (Eq.symm h) h') (by decide)
  | logFormat => exact Option.some.inj ((isFormat_iff.1 h).symm.trans (isFormat_iff.1 h'))

/-- A setting follows the environment: it is what its variable says, if that is set, and else as it was. -/
def Follows (s : Setting) (env : Environment) (before after : Config) : Prop :=
  match env s.variableName with
  | some text => s.IsWritten text (s.get after)
  | none => s.get after = s.get before

theorem Follows.of_some {s : Setting} {env : Environment} {before after : Config} {text : String}
    (h : env s.variableName = some text) : s.Follows env before after ↔ s.IsWritten text (s.get after) := by
  rw [Follows, h]

theorem Follows.of_none {s : Setting} {env : Environment} {before after : Config}
    (h : env s.variableName = none) : s.Follows env before after ↔ s.get after = s.get before := by
  rw [Follows, h]

theorem Follows.congr {s : Setting} {env env' : Environment} {before before' after : Config}
    (henv : env' s.variableName = env s.variableName) (hbefore : s.get before' = s.get before) :
    s.Follows env' before' after ↔ s.Follows env before after := by
  rw [Follows, Follows, henv, hbefore]

theorem Follows.unique {s : Setting} {env : Environment} {before after after' : Config}
    (h : s.Follows env before after) (h' : s.Follows env before after') : s.get after = s.get after' := by
  cases hvalue : env s.variableName with
  | none => exact ((of_none hvalue).1 h).trans ((of_none hvalue).1 h').symm
  | some text => exact ((of_some hvalue).1 h).unique ((of_some hvalue).1 h')

end Setting

/-! ### Variables -/

/-- A variable drives a setting: it puts there what its text stands for, and changes nothing else. -/
structure Variable.Drives (v : Variable) (s : Setting) : Prop where
  name_eq : v.name = s.variableName
  set_eq_ok : ∀ text c c', v.set text c = .ok c' ↔ ∃ x, s.IsWritten text x ∧ c' = s.put x c

namespace Variable.Drives

open Setting

theorem text {s : Setting} {value : String → s.Value} (hwritten : ∀ text x, s.IsWritten text x ↔ x = value text) :
    (textVariable s.variableName fun text => s.put (value text)).Drives s where
  name_eq := rfl
  set_eq_ok text c c' := by
    simp only [textVariable, Except.ok.injEq, hwritten, exists_eq_left]
    exact eq_comm

theorem number {s : Setting} {value : Nat → s.Value}
    (hwritten : ∀ text x, s.IsWritten text x ↔ ∃ n, IsNumber text n ∧ value n = x) :
    (numberVariable s.variableName fun n => s.put (value n)).Drives s where
  name_eq := rfl
  set_eq_ok text c c' := by
    simp only [numberVariable, hwritten, isNumber_iff]
    cases Text.Numeral.natural uint64Max text with
    | ok n => simp [eq_comm]
    | error fault => simp

theorem flag : (flagVariable "CACHE_ENABLED" Setting.cacheEnabled.put).Drives .cacheEnabled where
  name_eq := rfl
  set_eq_ok text c c' := by
    have hwritten (x : Bool) : Setting.cacheEnabled.IsWritten text x ↔ text = if x then "true" else "false" := Iff.rfl
    simp only [flagVariable, hwritten, Bool.exists_bool]
    split <;> simp_all [eq_comm]

theorem format : (formatVariable "LOG_FORMAT" Setting.logFormat.put).Drives .logFormat where
  name_eq := rfl
  set_eq_ok text c c' := by
    have hwritten (x : LogFormat) : Setting.logFormat.IsWritten text x ↔ LogFormat.ofName? text = some x :=
      isFormat_iff
    simp only [formatVariable, hwritten]
    cases LogFormat.ofName? text with
    | some format => simp [eq_comm]
    | none => simp

end Variable.Drives

namespace Setting

/-- The settings in the order in which their variables are applied. -/
def all : List Setting := [
  .baseUrl, .apiKey, .timeoutSeconds, .userAgent, .maxConcurrent, .defaultDelay, .longDelay, .cacheEnabled, .stateDir,
  .logLevel, .logFormat]

theorem nodup_all : all.Nodup := by decide

theorem mem_all (s : Setting) : s ∈ all := by
  cases s <;> decide

end Setting

/-- The variables drive the settings, one each. -/
theorem drives_overrides : List.Forall₂ Variable.Drives overrides Setting.all := by
  have hdirectory (text : String) (x : Option String) :
      Setting.stateDir.IsWritten text x ↔ x = if text.isEmpty then none else some text := by
    simp only [Setting.IsWritten, String.isEmpty_iff]
  have hnumber {text : String} {x : Nat} : Setting.IsNumber text x ↔ ∃ n, Setting.IsNumber text n ∧ n = x :=
    exists_eq_right.symm
  exact
    .cons (.text (s := .baseUrl) fun _ _ => Iff.rfl) <|
    .cons (.text (s := .apiKey) fun _ _ => Iff.rfl) <|
    .cons (.number (s := .timeoutSeconds) fun _ _ => hnumber) <|
    .cons (.text (s := .userAgent) fun _ _ => Iff.rfl) <|
    .cons (.number (s := .maxConcurrent) fun _ _ => hnumber) <|
    .cons (.number (s := .defaultDelay) fun _ _ => hnumber) <|
    .cons (.number (s := .longDelay) fun _ _ => hnumber) <|
    .cons .flag <|
    .cons (.text (s := .stateDir) hdirectory) <|
    .cons (.text (s := .logLevel) fun _ _ => Iff.rfl) <|
    .cons .format .nil

/-! ### All variables -/

section Override

variable {env : Environment} {v : Variable} {vars : List Variable} {s : Setting} {settings : List Setting}
  {before after : Config}

theorem override_cons_of_none (h : env v.name = none) : override env (v :: vars) before = override env vars before := by
  rw [override, h]

/-- One variable that is set: its text stands for what its setting is from then on. -/
theorem override_cons_of_some {text : String} (hv : v.Drives s) (h : env v.name = some text) :
    override env (v :: vars) before = (none, after) ↔
      ∃ x, s.IsWritten text x ∧ override env vars (s.put x before) = (none, after) := by
  rw [override, h]
  dsimp only
  constructor
  · intro hover
    split at hover
    · next c hset =>
      obtain ⟨x, hx, rfl⟩ := (hv.set_eq_ok text before c).1 hset
      exact ⟨x, hx, hover⟩
    · cases hover
  · rintro ⟨x, hx, hover⟩
    rw [(hv.set_eq_ok text before _).2 ⟨x, hx, rfl⟩]
    exact hover

/-- What a row of variables changes in a configuration: the settings that they drive follow the environment, and the
others stay. -/
def Overridden (env : Environment) (settings : List Setting) (before after : Config) : Prop :=
  ∀ s : Setting, if s ∈ settings then s.Follows env before after else s.get after = s.get before

theorem Overridden.nil_iff : Overridden env [] before after ↔ after = before := by
  refine ⟨fun h => Setting.ext fun s => ?_, fun h s => ?_⟩
  · simpa using h s
  · simp [h]

/-- A setting that the rest of the row does not drive is the first one's alone. -/
theorem Overridden.cons_iff (hs : s ∉ settings) :
    Overridden env (s :: settings) before after ↔
      s.Follows env before after ∧ Overridden env settings (s.put (s.get after) before) after := by
  have hother (t : Setting) (hne : t ≠ s) :
      (if t ∈ s :: settings then t.Follows env before after else t.get after = t.get before) ↔
        if t ∈ settings then t.Follows env (s.put (s.get after) before) after
        else t.get after = t.get (s.put (s.get after) before) := by
    have hkept := Setting.get_put_of_ne hne (s.get after) before
    simp only [List.mem_cons, hne, false_or, Setting.Follows.congr rfl hkept, hkept]
  constructor
  · refine fun h => ⟨by simpa using h s, fun t => ?_⟩
    by_cases ht : t = s
    · subst ht
      rw [if_neg hs, Setting.get_put_self]
    · exact (hother t ht).1 (h t)
  · rintro ⟨hfollows, hrest⟩ t
    by_cases ht : t = s
    · subst ht
      rwa [if_pos List.mem_cons_self]
    · exact (hother t ht).2 (hrest t)

theorem override_succeeds_iff (hvars : List.Forall₂ Variable.Drives vars settings) (hnodup : settings.Nodup) :
    override env vars before = (none, after) ↔ Overridden env settings before after := by
  induction hvars generalizing before with
  | nil =>
    rw [Overridden.nil_iff, override, Prod.mk.injEq, and_iff_right rfl]
    exact eq_comm
  | @cons v s vars settings hv hvars ih =>
    obtain ⟨hs, hnodup⟩ := List.nodup_cons.1 hnodup
    -- The rest of the row leaves the setting as it finds it.
    have hkept {c : Config} (h : override env vars c = (none, after)) : s.get after = s.get c := by
      simpa [hs] using (ih hnodup).1 h s
    rw [Overridden.cons_iff hs, ← ih hnodup]
    cases hvalue : env v.name with
    | none =>
      rw [override_cons_of_none hvalue, Setting.Follows.of_none (hv.name_eq ▸ hvalue)]
      constructor
      · intro h
        rw [hkept h, Setting.put_get_self]
        exact ⟨rfl, h⟩
      · rintro ⟨hsame, h⟩
        rwa [hsame, Setting.put_get_self] at h
    | some text =>
      rw [override_cons_of_some hv hvalue, Setting.Follows.of_some (hv.name_eq ▸ hvalue)]
      constructor
      · rintro ⟨x, hx, h⟩
        obtain rfl : s.get after = x := by rw [hkept h, Setting.get_put_self]
        exact ⟨hx, h⟩
      · exact fun h => ⟨_, h⟩

theorem override_congr {env' : Environment} (hvars : List.Forall₂ Variable.Drives vars settings)
    (h : ∀ s : Setting, env' s.variableName = env s.variableName) :
    override env' vars before = override env vars before := by
  induction hvars generalizing before with
  | nil => rfl
  | @cons v s _ _ hv _ ih =>
    rw [override, override, hv.name_eq, h s]
    split
    · exact ih
    · split
      · exact ih
      · rfl

end Override

/-- The environment overrides a configuration setting by setting. -/
theorem withEnvironment_eq_ok {env : Environment} {base c : Config} :
    withEnvironment env base = .ok c ↔ ∀ s : Setting, s.Follows env base c := by
  have hover : withEnvironment env base = .ok c ↔ override env overrides base = (none, c) := by
    unfold withEnvironment
    split <;> simp_all
  rw [hover, override_succeeds_iff drives_overrides Setting.nodup_all]
  exact forall_congr' fun s => by rw [if_pos s.mem_all]

theorem withEnvironment_congr {env env' : Environment} (h : ∀ s : Setting, env' s.variableName = env s.variableName)
    (base : Config) : withEnvironment env' base = withEnvironment env base := by
  rw [withEnvironment, withEnvironment, override_congr drives_overrides h]

end Entitle.Config
