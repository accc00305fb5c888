import Lineage.Settings.Basic

/-!
# Where settings come from

The first place that has a value for a setting decides: the values given
explicitly, then the environment, then the settings file.  If none has one, the
default holds.  What the places behind say has no part in it, so they do not make
up for a value that is refused.
-/

namespace Lineage

/-! ## Checks side by side -/

section

variable {α β : Type}

theorem Check.zip_eq_ok_iff {first : Check α} {second : Check β} {a : α} {b : β} :
    first.zip second = .ok (a, b) ↔ first = .ok a ∧ second = .ok b := by
  cases first <;> cases second <;> simp [Check.zip]

theorem Check.under_eq_ok_iff {step : PathStep} {check : Check α} {a : α} :
    check.under step = .ok a ↔ check = .ok a := by
  cases check <;> simp [Check.under]

end

namespace Settings

/-! ## One setting -/

/-- What a setting is by some sources, one case for each place that may decide. -/
inductive Sources.Gives {α : Type} (sources : Sources) (name : String) (default : α)
    (check : Value → Check α) : α → Prop
  | explicit {value : Value} {a : α} (hexplicit : sources.explicit? name = some value)
      (hcheck : check value = .ok a) : Gives sources name default check a
  | environment {text : String} {a : α} (hexplicit : sources.explicit? name = none)
      (henvironment : sources.environment.find? (variableStem ++ name) = some text)
      (hcheck : check (.text text) = .ok a) : Gives sources name default check a
  | file {text : String} {a : α} (hexplicit : sources.explicit? name = none)
      (henvironment : sources.environment.find? (variableStem ++ name) = none)
      (hfile : sources.file.find? (variableStem ++ name) = some text)
      (hcheck : check (.text text) = .ok a) : Gives sources name default check a
  | default (hexplicit : sources.explicit? name = none)
      (henvironment : sources.environment.find? (variableStem ++ name) = none)
      (hfile : sources.file.find? (variableStem ++ name) = none) :
      Gives sources name default check default

variable {sources : Sources}

theorem Sources.setting_eq_ok_iff {α : Type} {name : String} {default : α}
    {check : Value → Check α} {a : α} :
    sources.setting name default check = .ok a ↔ sources.Gives name default check a := by
  constructor
  · intro h
    rw [setting, find?] at h
    -- place after place, until one has a value
    cases hexplicit : sources.explicit? name with
    | some value =>
        rw [hexplicit, Option.some_or] at h
        exact .explicit hexplicit (Check.under_eq_ok_iff.1 h)
    | none =>
        rw [hexplicit, Option.none_or] at h
        cases henvironment : sources.environment.find? (variableStem ++ name) with
        | some text =>
            rw [henvironment, Option.some_or] at h
            exact .environment hexplicit henvironment (Check.under_eq_ok_iff.1 h)
        | none =>
            rw [henvironment, Option.none_or] at h
            cases hfile : sources.file.find? (variableStem ++ name) with
            | some text =>
                rw [hfile] at h
                exact .file hexplicit henvironment hfile (Check.under_eq_ok_iff.1 h)
            | none =>
                rw [hfile] at h
                obtain rfl := Except.ok.inj h
                exact .default hexplicit henvironment hfile
  · intro h
    cases h with
    | explicit hexplicit hcheck => simp [setting, find?, hexplicit, hcheck, Check.under]
    | environment hexplicit henvironment hcheck =>
        simp [setting, find?, hexplicit, henvironment, hcheck, Check.under]
    | file hexplicit henvironment hfile hcheck =>
        simp [setting, find?, hexplicit, henvironment, hfile, hcheck, Check.under]
    | default hexplicit henvironment hfile =>
        simp [setting, find?, hexplicit, henvironment, hfile]

/-! ## All settings -/

/-- Sources give settings just if every one of these is what its first place, or the default,
says. -/
theorem ofSources_eq_ok_iff {settings : Settings} : ofSources sources = .ok settings ↔
    sources.Gives "service_name" default.serviceName Check.text settings.serviceName ∧
    sources.Gives "compute_summaries" default.computeSummaries Check.bool
      settings.computeSummaries ∧
    sources.Gives "log_level" default.logLevel (choice Severity.label Severity.all)
      settings.logLevel ∧
    sources.Gives "log_format" default.logStyle (choice LogStyle.label LogStyle.all)
      settings.logStyle ∧
    sources.Gives "emit_span_events" default.emitSpanEvents Check.bool settings.emitSpanEvents := by
  obtain ⟨serviceName, computeSummaries, logLevel, logStyle, emitSpanEvents⟩ := settings
  simp only [← Sources.setting_eq_ok_iff, ← Check.zip_eq_ok_iff]
  unfold ofSources
  -- the five results stand in one outcome, from which the record is only put together
  generalize Check.zip (sources.setting "service_name" _ _) _ = outcome
  cases outcome with
  | error issues => exact iff_of_false nofun nofun
  | ok given =>
      obtain ⟨_, _, _, _, _⟩ := given
      simp [bind, Except.bind, pure, Except.pure]

/-- An explicit level hides the one of the environment, which would be refused; the environment
hides the file, and the style is found in the file alone. -/
example : ofSources
    ⟨[(.text "log_level", .text "debug")],
      [("FIELDLINEAGE_LOG_LEVEL", some "loud"), ("FIELDLINEAGE_SERVICE_NAME", some "outer")],
      [("FIELDLINEAGE_SERVICE_NAME", some "inner"), ("FIELDLINEAGE_LOG_FORMAT", some "Text")]⟩ =
    .ok ⟨"outer", true, .debug, .text, true⟩ := by
  rfl

end Settings

end Lineage
