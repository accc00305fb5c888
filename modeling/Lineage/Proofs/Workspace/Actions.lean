import Lineage.Workspace.Basic

/-!
# Actions that need nothing but settings

A workspace is ready if its settings are in force or can be made.  Most of what
builds and reads snapshots needs no more than that: it has a result in every
ready workspace, and leaves a workspace that is ready just when it was before
(`Delivers`).  Messages need not even settings, since they only add to the
journal; but an event does, so that what reports one has a result in no other
workspace (`Depends`).
-/

namespace Lineage.Workspace

variable {α β : Type}

/-- Settings are in force, or can be made when they are asked for. -/
def Ready (workspace : Workspace) : Prop :=
  workspace.settings.isSome ∨ ∃ settings, workspace.makeSettings [] = .ok settings

/-- What is reported has no part in whether a workspace is ready. -/
theorem ready_journal (workspace : Workspace) (journal : List Report) :
    Ready { workspace with journal } ↔ workspace.Ready :=
  Iff.rfl

/-- The action has a result in every ready workspace and only results with a property, and it makes
no workspace ready or unready. -/
structure Delivers (action : Action α) (property : α → Prop) : Prop where
  ready_iff : ∀ workspace : Workspace, (action.run.run workspace).2.Ready ↔ workspace.Ready
  succeeds : ∀ workspace : Workspace, workspace.Ready → ∃ a, (action.run.run workspace).1 = .ok a
  result : ∀ (workspace : Workspace) a, (action.run.run workspace).1 = .ok a → property a

/-- The action delivers, and it has results in ready workspaces only. -/
structure Depends (action : Action α) (property : α → Prop) : Prop extends
    Delivers action property where
  needs : ∀ (workspace : Workspace) a, (action.run.run workspace).1 = .ok a → workspace.Ready

/-- What only adds to the journal has a result in every workspace. -/
theorem delivers_of_run {action : Action α} {property : α → Prop}
    (h : ∀ workspace : Workspace, ∃ a journal,
      action.run.run workspace = (.ok a, { workspace with journal }) ∧ property a) :
    Delivers action property where
  ready_iff workspace := by
    obtain ⟨a, journal, hrun, -⟩ := h workspace
    rw [hrun]
    exact ready_journal workspace journal
  succeeds workspace _ := by
    obtain ⟨a, journal, hrun, -⟩ := h workspace
    exact ⟨a, by rw [hrun]⟩
  result workspace b hb := by
    obtain ⟨a, journal, hrun, ha⟩ := h workspace
    rw [hrun] at hb
    exact Except.ok.inj hb ▸ ha

/-! ## One after another -/

theorem run_bind (action : Action α) (next : α → Action β) (workspace : Workspace) :
    (action >>= next).run.run workspace =
      match (action.run.run workspace).1 with
      | .ok a => (next a).run.run (action.run.run workspace).2
      | .error failure => (.error failure, (action.run.run workspace).2) := by
  show (ExceptT.bindCont next (action.run.run workspace).1) (action.run.run workspace).2 = _
  cases (action.run.run workspace).1 <;> rfl

theorem run_get_bind (next : Workspace → Action β) (workspace : Workspace) :
    (get >>= next).run.run workspace = (next workspace).run.run workspace :=
  rfl

theorem exists_of_run_bind_ok {action : Action α} {next : α → Action β} {workspace : Workspace}
    {b : β} (h : ((action >>= next).run.run workspace).1 = .ok b) :
    ∃ a, (action.run.run workspace).1 = .ok a ∧
      ((next a).run.run (action.run.run workspace).2).1 = .ok b := by
  rw [run_bind] at h
  cases hresult : (action.run.run workspace).1 with
  | ok a =>
      rw [hresult] at h
      exact ⟨a, rfl, h⟩
  | error failure =>
      rw [hresult] at h
      cases h

theorem delivers_pure {property : α → Prop} {a : α} (ha : property a) :
    Delivers (pure a) property :=
  delivers_of_run fun workspace => ⟨a, workspace.journal, rfl, ha⟩

theorem Delivers.bind {action : Action α} {next : α → Action β} {property : α → Prop}
    {outcome : β → Prop} (h : Delivers action property)
    (hnext : ∀ a, property a → Delivers (next a) outcome) : Delivers (action >>= next) outcome where
  ready_iff workspace := by
    rw [run_bind, ← h.ready_iff workspace]
    cases hresult : (action.run.run workspace).1 with
    | ok a => exact (hnext a (h.result workspace a hresult)).ready_iff _
    | error failure => exact Iff.rfl
  succeeds workspace hready := by
    obtain ⟨a, ha⟩ := h.succeeds workspace hready
    rw [run_bind, ha]
    exact (hnext a (h.result workspace a ha)).succeeds _ ((h.ready_iff workspace).2 hready)
  result workspace b hb := by
    obtain ⟨a, ha, hlater⟩ := exists_of_run_bind_ok hb
    exact (hnext a (h.result workspace a ha)).result _ b hlater

/-- What depends on settings in its first part does so as a whole. -/
theorem Depends.bind {action : Action α} {next : α → Action β} {property : α → Prop}
    {outcome : β → Prop} (h : Depends action property)
    (hnext : ∀ a, property a → Delivers (next a) outcome) : Depends (action >>= next) outcome where
  toDelivers := h.toDelivers.bind hnext
  needs workspace b hb := by
    obtain ⟨a, ha, -⟩ := exists_of_run_bind_ok hb
    exact h.needs workspace a ha

/-- What depends on settings in its last part does so as a whole. -/
theorem Delivers.bind_depends {action : Action α} {next : α → Action β} {property : α → Prop}
    {outcome : β → Prop} (h : Delivers action property)
    (hnext : ∀ a, property a → Depends (next a) outcome) : Depends (action >>= next) outcome where
  toDelivers := h.bind fun a ha => (hnext a ha).toDelivers
  needs workspace b hb := by
    obtain ⟨a, ha, hlater⟩ := exists_of_run_bind_ok hb
    have hready := (hnext a (h.result workspace a ha)).needs _ b hlater
    exact (h.ready_iff workspace).1 hready

theorem delivers_get : Delivers (get : Action Workspace) fun _ => True :=
  delivers_of_run fun workspace => ⟨workspace, workspace.journal, rfl, trivial⟩

/-! ## Messages -/

theorem run_lift (action : StateM Workspace α) (workspace : Workspace) :
    (liftM action : Action α).run.run workspace =
      (.ok (action.run workspace).1, (action.run workspace).2) :=
  rfl

theorem delivers_lift {action : StateM Workspace α} {property : α → Prop}
    (h : ∀ workspace, ∃ a journal,
      action.run workspace = (a, { workspace with journal }) ∧ property a) :
    Delivers (liftM action : Action α) property := by
  refine delivers_of_run fun workspace => ?_
  obtain ⟨a, journal, hrun, ha⟩ := h workspace
  exact ⟨a, journal, by rw [run_lift, hrun], ha⟩

theorem exists_run_log (level : Int) (logger message : String) (workspace : Workspace) :
    ∃ journal, (log level logger message).run workspace = ((), { workspace with journal }) := by
  simp only [log, StateT.run_bind, StateT.run_get]
  show ∃ journal, StateT.run (ite _ _ _) _ = _
  split
  · split
    · exact ⟨_, rfl⟩
    · exact ⟨_, rfl⟩
  · exact ⟨workspace.journal, rfl⟩

theorem exists_run_log_pure (level : Int) (logger message : String) (a : α) (workspace : Workspace) :
    ∃ journal, (do log level logger message; return a : Action α).run.run workspace =
      (.ok a, { workspace with journal }) := by
  obtain ⟨journal, hrun⟩ := exists_run_log level logger message workspace
  exact ⟨journal, by rw [run_bind, run_lift, hrun]; rfl⟩

theorem delivers_log (level : Int) (logger message : String) :
    Delivers (liftM (log level logger message) : Action Unit) fun _ => True :=
  delivers_lift fun workspace => by
    obtain ⟨journal, hrun⟩ := exists_run_log level logger message workspace
    exact ⟨(), journal, hrun, trivial⟩

/-! ## Settings and events -/

theorem ready_of_settings {workspace : Workspace} {settings : Stamped Settings}
    (h : workspace.settings = some settings) : workspace.Ready :=
  .inl (by rw [h]; rfl)

/-- Settings in force are given, if there are no explicit values; or new ones are made and given; or
they cannot be made and nothing changes. -/
theorem run_getSettings_cases (explicit : List (Key × Value)) (workspace : Workspace) :
    (∃ kept, explicit = [] ∧ workspace.settings = some kept ∧
      (getSettings explicit).run.run workspace = (.ok kept, workspace)) ∨
    (explicit = [] → workspace.settings = none) ∧
      ((∃ settings, workspace.makeSettings explicit = .ok settings ∧
        (getSettings explicit).run.run workspace = (.ok ⟨settings, workspace.made⟩,
          { workspace with
            settings := some ⟨settings, workspace.made⟩
            made := workspace.made + 1 })) ∨
      ∃ found, workspace.makeSettings explicit = .error found ∧
        (getSettings explicit).run.run workspace = (.error (.issues .tree found), workspace)) := by
  rw [getSettings, run_get_bind]
  -- explicit values set the settings in force aside
  cases hsettings : workspace.settings with
  | none =>
      refine .inr ⟨fun _ => rfl, ?_⟩
      cases workspace.makeSettings explicit with
      | ok settings => exact .inl ⟨settings, rfl, rfl⟩
      | error found => exact .inr ⟨found, rfl, rfl⟩
  | some kept =>
      cases explicit with
      | nil => exact .inl ⟨kept, rfl, rfl, rfl⟩
      | cons value rest =>
          refine .inr ⟨nofun, ?_⟩
          cases workspace.makeSettings (value :: rest) with
          | ok settings => exact .inl ⟨settings, rfl, rfl⟩
          | error found => exact .inr ⟨found, rfl, rfl⟩

/-- Either the settings in force are given or new ones are made, and both leave a ready workspace;
or the workspace is not ready and stays as it is. -/
theorem getSettings_cases (workspace : Workspace) :
    (∃ settings later, (getSettings []).run.run workspace = (.ok settings, later) ∧
      workspace.Ready ∧ later.Ready) ∨
    ∃ failure, (getSettings []).run.run workspace = (.error failure, workspace) ∧
      ¬ workspace.Ready := by
  rcases run_getSettings_cases [] workspace with
    ⟨kept, -, hkept, hrun⟩ | ⟨hnone, ⟨settings, hmade, hrun⟩ | ⟨found, hmade, hrun⟩⟩
  · exact .inl ⟨kept, workspace, hrun, ready_of_settings hkept, ready_of_settings hkept⟩
  · exact .inl ⟨_, _, hrun, .inr ⟨settings, hmade⟩, ready_of_settings rfl⟩
  · refine .inr ⟨_, hrun, ?_⟩
    rintro (hsome | ⟨settings, hok⟩)
    · simp [hnone rfl] at hsome
    · simp [hmade] at hok

/-- Without files there is none that a path leads to. -/
theorem walk_ne_file {files : Files} (h : files.files = []) (place steps : List String)
    (text : String) : files.walk place steps ≠ .file text := by
  induction steps generalizing place with
  | nil =>
      rw [Files.walk, Files.at?, h]
      split <;> simp
  | cons step steps ih =>
      rw [Files.walk]
      split
      · split
        · simp
        · exact ih _
      · simp

theorem settingsFile_eq_nil {workspace : Workspace} (h : workspace.files.files = []) :
    workspace.settingsFile = [] := by
  have hfind (text : String) :
      workspace.files.find workspace.directory (.ofText ".env") ≠ .file text := by
    rw [Files.find]
    split
    · simp
    · exact walk_ne_file h _ _ _
  unfold settingsFile
  split
  · next text hfound => exact absurd hfound (hfind text)
  · rfl

/-- A workspace in which nothing has happened gets the settings that hold by default. -/
theorem makeSettings_fresh (directory time : String) :
    (fresh directory time).makeSettings [] = .ok Settings.default := by
  rw [makeSettings, settingsFile_eq_nil rfl]
  rfl

theorem ready_fresh (directory time : String) : (fresh directory time).Ready :=
  .inr ⟨Settings.default, makeSettings_fresh directory time⟩

theorem depends_getSettings : Depends (getSettings []) fun _ => True where
  ready_iff workspace := by
    rcases getSettings_cases workspace with ⟨_, _, hrun, hready, hlater⟩ | ⟨_, hrun, -⟩
    · simp [hrun, hready, hlater]
    · simp [hrun]
  succeeds workspace hready := by
    rcases getSettings_cases workspace with ⟨settings, _, hrun, -⟩ | ⟨_, -, hnot⟩
    · exact ⟨settings, by rw [hrun]⟩
    · exact absurd hready hnot
  result _ _ _ := trivial
  needs workspace settings hsettings := by
    rcases getSettings_cases workspace with ⟨_, _, -, hready, -⟩ | ⟨_, hrun, -⟩
    · exact hready
    · rw [hrun] at hsettings
      cases hsettings

theorem delivers_report (what : Report) :
    Delivers (liftM (report what) : Action Unit) fun _ => True :=
  delivers_lift fun workspace => ⟨(), what :: workspace.journal, rfl, trivial⟩

theorem depends_spanEvent (name : String) (attributes : List (String × Value)) :
    Depends (spanEvent name attributes) fun _ => True := by
  refine depends_getSettings.bind fun settings _ => delivers_get.bind fun workspace _ => ?_
  split
  · exact delivers_report _
  · exact delivers_pure trivial

/-! ## Runs -/

/-- With one more step at the end of a run, a step after which the run has no barrier is one of
those before, unless the last step is a barrier, or it is the last one. -/
theorem exists_split_concat_iff {σ : Type} {steps earlier : List σ} {last barrier : σ}
    {property : σ → Prop} :
    (∃ step later, steps ++ [last] = earlier ++ step :: later ∧ property step ∧ barrier ∉ later) ↔
      (last ≠ barrier ∧
        ∃ step later, steps = earlier ++ step :: later ∧ property step ∧ barrier ∉ later) ∨
      earlier = steps ∧ property last := by
  constructor
  · rintro ⟨step, later, hsteps, hstep, hlater⟩
    -- the step is the last one, or the last one comes later and is no barrier
    rcases later.eq_nil_or_concat with rfl | ⟨between, final, rfl⟩
    · obtain ⟨rfl, hlast⟩ := List.append_inj' hsteps rfl
      obtain rfl : last = step := by simpa using hlast
      exact .inr ⟨rfl, hstep⟩
    · rw [List.concat_eq_append] at *
      have hsplit : steps = earlier ++ step :: between ∧ last = final := by
        rw [← List.cons_append, ← List.append_assoc] at hsteps
        obtain ⟨hbefore, hlast⟩ := List.append_inj' hsteps rfl
        exact ⟨hbefore, by simpa using hlast⟩
      obtain ⟨hbefore, rfl⟩ := hsplit
      rw [List.mem_append, List.mem_singleton, not_or] at hlater
      exact .inl ⟨fun h => hlater.2 h.symm, step, between, hbefore, hstep, hlater.1⟩
  · rintro (⟨hlast, step, later, rfl, hstep, hlater⟩ | ⟨rfl, hstep⟩)
    · refine ⟨step, later ++ [last], by simp, hstep, ?_⟩
      simp [hlater, hlast.symm]
    · exact ⟨last, [], rfl, hstep, by simp⟩

/-! ## Surroundings -/

/-- Setting a variable changes the environment at most, by what it holds alone. -/
theorem run_setVariable (name value : String) : ∃ change : Variables → Variables,
    ∀ workspace : Workspace, ((setVariable name value).run.run workspace).2 =
      { workspace with environment := change workspace.environment } := by
  unfold setVariable
  by_cases hnull : (name.contains '\x00' || value.contains '\x00') = true
  · rw [if_pos hnull]
    exact ⟨id, fun _ => rfl⟩
  rw [if_neg hnull]
  by_cases hequals : name.contains '=' = true
  · rw [if_pos hequals]
    exact ⟨id, fun _ => rfl⟩
  rw [if_neg hequals]
  by_cases hempty : name.isEmpty = true
  · rw [if_pos hempty]
    exact ⟨id, fun _ => rfl⟩
  · rw [if_neg hempty]
    exact ⟨fun known => known.set name (some value), fun _ => rfl⟩

/-- Writing changes files at most, by the directory and which there are alone. -/
theorem run_writeFile (path : Path) (text : String) : ∃ change : Path → Files → Files,
    ∀ workspace : Workspace, ((writeFile path text).run.run workspace).2 =
      { workspace with files := change workspace.directory workspace.files } := by
  unfold writeFile
  split
  · exact ⟨fun _ => id, fun _ => rfl⟩
  · refine ⟨fun directory files => (files.write directory path text).toOption.getD files,
      fun workspace => ?_⟩
    rw [run_get_bind]
    dsimp only
    cases workspace.files.write workspace.directory path text with
    | ok files => rfl
    | error obstacle => cases obstacle <;> rfl

end Lineage.Workspace
