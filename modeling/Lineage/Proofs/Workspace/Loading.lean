import Lineage.Proofs.Workspace.Frames
import Lineage.Workspace.Call
import Mathlib.Data.List.Induction

/-!
# Kept documents along a run

Documents are kept under the resolved path of their files.  Along a run of calls
the document of a place is the one that was read at the first successful load of
that place since documents were last forgotten, whatever has become of the file
and whatever else has failed (`keepsFirst`).  Only loading adds documents and
only forgetting takes them away, so that a run is followed call by call, with
what is kept for one place.

The decoder of texts is a parameter throughout.  Nothing is asked of it, so which
texts are YAML at all and what they say is left open.
-/

namespace Lineage.Workspace

variable {decode : Decoder}

/-! ## Places -/

/-- The walk along some steps ends where they lead when the steps back are carried out. -/
theorem at?_foldl_placeAfter {files : Files} {place steps : List String} {text : String}
    (h : files.walk place steps = .file text) :
    files.at? (steps.foldl Path.placeAfter place) = .file text := by
  induction steps generalizing place with
  | nil => exact h
  | cons step steps ih =>
      apply ih
      rw [Files.walk] at h
      split at h
      · split at h
        · cases h
        · exact h
      · cases h

/-- A path leads to the file at the place that it resolves to. -/
theorem at?_placeOf {workspace : Workspace} {path : Path} {text : String}
    (h : workspace.files.find workspace.directory path = .file text) :
    workspace.files.at? (workspace.placeOf path).steps = .file text := by
  rw [Files.find] at h
  split at h
  · cases h
  · exact at?_foldl_placeAfter h

/-! ## Loading once -/

theorem ofYaml_eq_ok_iff {path : Option Path} {text : String} {document : Document} :
    Document.ofYaml path text decode = .ok document ↔
      Document.ofYaml none text decode = .ok document := by
  unfold Document.ofYaml
  cases decode text with
  | error fault => simp
  | ok value => cases value <;> simp

theorem readDocument_eq_ok_iff {workspace : Workspace} {path : Path} {document : Document} :
    workspace.readDocument path decode = .ok document ↔
      ∃ text, workspace.files.find workspace.directory path = .file text ∧
        Document.ofYaml none text decode = .ok document := by
  unfold readDocument
  cases workspace.files.find workspace.directory path <;> simp [ofYaml_eq_ok_iff]

theorem result_loadText_eq_ok_iff {workspace : Workspace} {text : String} {document : Document} :
    ((loadText text decode).run.run workspace).1 = .ok document ↔
      Document.ofYaml none text decode = .ok document := by
  unfold loadText
  cases Document.ofYaml none text decode with
  | ok found => exact Iff.rfl
  | error failure => exact Iff.intro nofun nofun

/-- A text is read without any change of the workspace. -/
theorem run_loadText_snd (text : String) (workspace : Workspace) :
    ((loadText text decode).run.run workspace).2 = workspace := by
  unfold loadText
  cases Document.ofYaml none text decode <;> rfl

section

variable {workspace : Workspace} {path : Path}

theorem run_load_of_holdsNull (h : path.holdsNull = true) :
    (load path decode).run.run workspace = (.error .holdsNull, workspace) := by
  unfold load
  rw [if_pos h]
  rfl

variable (hpath : path.holdsNull = false)
include hpath

variable (decode) in
theorem run_load_of_kept {kept : Stamped Document}
    (h : workspace.documents.lookup (workspace.placeOf path) = some kept) : ∃ journal,
    (load path decode).run.run workspace = (.ok kept, { workspace with journal }) := by
  unfold load
  rw [if_neg (by simp [hpath]), run_get_bind]
  simp only [h]
  exact exists_run_log_pure _ _ _ kept workspace

theorem run_load_of_error {failure : Failure}
    (hlookup : workspace.documents.lookup (workspace.placeOf path) = none)
    (h : workspace.readDocument path decode = .error failure) :
    (load path decode).run.run workspace = (.error failure, workspace) := by
  unfold load
  rw [if_neg (by simp [hpath]), run_get_bind]
  simp only [hlookup, h]
  rfl

theorem run_load_of_ok {document : Document}
    (hlookup : workspace.documents.lookup (workspace.placeOf path) = none)
    (h : workspace.readDocument path decode = .ok document) : ∃ journal,
    (load path decode).run.run workspace = (.ok ⟨document, workspace.made⟩,
      { workspace with
        documents := (workspace.placeOf path, ⟨document, workspace.made⟩) :: workspace.documents
        made := workspace.made + 1
        journal }) := by
  unfold load
  rw [if_neg (by simp [hpath]), run_get_bind]
  simp only [hlookup, h]
  exact exists_run_log_pure _ _ _ _ _

end

variable (decode) in
/-- Loading fails and changes nothing, or gives what is kept, or reads a document and keeps it. -/
theorem run_load_cases (path : Path) (workspace : Workspace) :
    (∃ failure, (load path decode).run.run workspace = (.error failure, workspace)) ∨
    (∃ kept journal, workspace.documents.lookup (workspace.placeOf path) = some kept ∧
      (load path decode).run.run workspace = (.ok kept, { workspace with journal })) ∨
    ∃ document journal, workspace.documents.lookup (workspace.placeOf path) = none ∧
      workspace.readDocument path decode = .ok document ∧
      (load path decode).run.run workspace = (.ok ⟨document, workspace.made⟩,
        { workspace with
          documents := (workspace.placeOf path, ⟨document, workspace.made⟩) :: workspace.documents
          made := workspace.made + 1
          journal }) := by
  cases hpath : path.holdsNull with
  | true => exact .inl ⟨_, run_load_of_holdsNull hpath⟩
  | false =>
      cases hlookup : workspace.documents.lookup (workspace.placeOf path) with
      | some kept =>
          obtain ⟨journal, hrun⟩ := run_load_of_kept decode hpath hlookup
          exact .inr (.inl ⟨kept, journal, rfl, hrun⟩)
      | none =>
          cases hread : workspace.readDocument path decode with
          | error failure => exact .inl ⟨failure, run_load_of_error hpath hlookup hread⟩
          | ok document =>
              obtain ⟨journal, hrun⟩ := run_load_of_ok hpath hlookup hread
              exact .inr (.inr ⟨document, journal, rfl, rfl, hrun⟩)

/-- What is kept for a place stays, and else it is what was loaded, if it was loaded from there. -/
theorem lookup_load (path place : Path) (workspace : Workspace) :
    ((load path decode).run.run workspace).2.documents.lookup place =
      (workspace.documents.lookup place).or
        (if workspace.placeOf path = place then ((load path decode).run.run workspace).1.toOption
        else none) := by
  rcases run_load_cases decode path workspace with
    ⟨failure, hrun⟩ | ⟨kept, journal, hlookup, hrun⟩ | ⟨document, journal, hlookup, -, hrun⟩
  · simp [hrun, Except.toOption]
  · by_cases hplace : workspace.placeOf path = place
    · simp [hrun, ← hplace, hlookup]
    · simp [hrun, hplace]
  · by_cases hplace : workspace.placeOf path = place
    · simp [hrun, ← hplace, hlookup, Except.toOption]
    · have hother : (place == workspace.placeOf path) = false :=
        beq_eq_false_iff_ne.2 (Ne.symm hplace)
      simp [hrun, hplace, List.lookup_cons, hother]

/-- What is not kept is read from the file. -/
theorem readDocument_of_load {path : Path} {workspace : Workspace} {loaded : Stamped Document}
    (hnone : workspace.documents.lookup (workspace.placeOf path) = none)
    (h : ((load path decode).run.run workspace).1 = .ok loaded) :
    workspace.readDocument path decode = .ok loaded.value := by
  rcases run_load_cases decode path workspace with
    ⟨failure, hrun⟩ | ⟨kept, journal, hlookup, -⟩ | ⟨document, journal, -, hread, hrun⟩
  · rw [hrun] at h
    cases h
  · rw [hnone] at hlookup
    cases hlookup
  · rw [hrun] at h
    rw [hread, ← Except.ok.inj h]

/-- A load that fails changes nothing. -/
theorem run_load_snd_of_error {path : Path} {workspace : Workspace} {failure : Failure}
    (h : ((load path decode).run.run workspace).1 = .error failure) :
    ((load path decode).run.run workspace).2 = workspace := by
  rcases run_load_cases decode path workspace with
    ⟨failure, hrun⟩ | ⟨kept, journal, -, hrun⟩ | ⟨document, journal, -, -, hrun⟩
  · rw [hrun]
  · rw [hrun] at h
    cases h
  · rw [hrun] at h
    cases h

theorem directory_load (path : Path) (workspace : Workspace) :
    ((load path decode).run.run workspace).2.directory = workspace.directory := by
  rcases run_load_cases decode path workspace with
    ⟨failure, hrun⟩ | ⟨kept, journal, -, hrun⟩ | ⟨document, journal, -, -, hrun⟩
  all_goals rw [hrun]

/-! ## One call -/

/-- A call that neither loads by path nor forgets changes files at most. -/
theorem run_of_not_loaded {call : Call} (hloaded : call.loaded? = none) (hforget : call ≠ .forget)
    (workspace : Workspace) : ∃ files, call.run decode workspace = { workspace with files } := by
  cases call with
  | write path text =>
      obtain ⟨change, hrun⟩ := run_writeFile path text
      exact ⟨_, hrun workspace⟩
  | delete path => exact ⟨_, rfl⟩
  | loadText text => exact ⟨workspace.files, run_loadText_snd text workspace⟩
  | forget => exact absurd rfl hforget
  | load | loadSnapshot => cases hloaded

/-- A call that loads by path changes the workspace as loading does, but for settings and the
journal. -/
theorem run_of_loaded {call : Call} {path : Path} (h : call.loaded? = some path)
    (workspace : Workspace) : ∃ settings made journal, call.run decode workspace =
      { ((load path decode).run.run workspace).2 with settings, made, journal } := by
  cases call with
  | load other =>
      obtain rfl : other = path := Option.some.inj h
      exact ⟨_, _, _, rfl⟩
  | loadSnapshot other eager =>
      obtain rfl : other = path := Option.some.inj h
      show ∃ settings made journal,
        ((load other decode >>= fun loaded => snapshotOf loaded.value eager).run.run workspace).2 = _
      rw [run_bind]
      cases ((load other decode).run.run workspace).1 with
      | error failure => exact ⟨_, _, _, rfl⟩
      | ok loaded => exact (spares_snapshotOf loaded.value eager).frame _
  | write | delete | loadText | forget => cases h

theorem documents_run {call : Call} (hloaded : call.loaded? = none) (hforget : call ≠ .forget)
    (workspace : Workspace) : (call.run decode workspace).documents = workspace.documents := by
  obtain ⟨files, hrun⟩ := run_of_not_loaded hloaded hforget workspace
  rw [hrun]

theorem documents_run_of_loaded {call : Call} {path : Path} (h : call.loaded? = some path)
    (workspace : Workspace) :
    (call.run decode workspace).documents = ((load path decode).run.run workspace).2.documents := by
  obtain ⟨settings, made, journal, hrun⟩ := run_of_loaded h workspace
  rw [hrun]

theorem directory_run (call : Call) (workspace : Workspace) :
    (call.run decode workspace).directory = workspace.directory := by
  by_cases hforget : call = .forget
  · rw [hforget]
    rfl
  cases hloaded : call.loaded? with
  | none =>
      obtain ⟨files, hrun⟩ := run_of_not_loaded hloaded hforget workspace
      rw [hrun]
  | some path =>
      obtain ⟨settings, made, journal, hrun⟩ := run_of_loaded hloaded workspace
      rw [hrun]
      exact directory_load path workspace

/-! ## Runs of calls -/

/-- After some of the calls a path was loaded that leads to the place, and documents have not been
forgotten since. -/
structure Loaded (decode : Decoder) (start : Workspace) (calls : List Call) (place : Path)
    (earlier : List Call) (path : Path) : Prop where
  called : ∃ call later, calls = earlier ++ call :: later ∧ call.loaded? = some path ∧
    Call.forget ∉ later
  place_eq : start.placeOf path = place
  succeeds : ∃ loaded, ((load path decode).run.run (start.after decode earlier)).1 = .ok loaded

/-- The first time that it was. -/
structure FirstLoaded (decode : Decoder) (start : Workspace) (calls : List Call) (place : Path)
    (earlier : List Call) (path : Path) : Prop extends
    Loaded decode start calls place earlier path where
  first : ∀ other path, Loaded decode start calls place other path → earlier.length ≤ other.length

section

variable {start : Workspace} {calls earlier : List Call} {place : Path} {path : Path} {call : Call}

theorem after_concat :
    start.after decode (calls ++ [call]) = call.run decode (start.after decode calls) := by
  simp [after]

theorem directory_after (start : Workspace) (calls : List Call) :
    (start.after decode calls).directory = start.directory := by
  induction calls using List.reverseRecOn with
  | nil => rfl
  | append_singleton calls call ih => rw [after_concat, directory_run, ih]

/-- Paths lead to the same places all along a run. -/
theorem placeOf_after (start : Workspace) (calls : List Call) (path : Path) :
    (start.after decode calls).placeOf path = start.placeOf path := by
  rw [placeOf, placeOf, directory_after]

/-- One more call either comes after the load or makes it. -/
theorem loaded_concat_iff : Loaded decode start (calls ++ [call]) place earlier path ↔
    call ≠ .forget ∧ Loaded decode start calls place earlier path ∨
    earlier = calls ∧ call.loaded? = some path ∧ start.placeOf path = place ∧
      ∃ loaded, ((load path decode).run.run (start.after decode calls)).1 = .ok loaded := by
  constructor
  · rintro ⟨hcalled, hplace, hsucceeds⟩
    rcases exists_split_concat_iff.1 hcalled with ⟨hforget, hcalled⟩ | ⟨rfl, hcall⟩
    · exact .inl ⟨hforget, hcalled, hplace, hsucceeds⟩
    · exact .inr ⟨rfl, hcall, hplace, hsucceeds⟩
  · rintro (⟨hforget, hcalled, hplace, hsucceeds⟩ | ⟨rfl, hcall, hplace, hsucceeds⟩)
    · exact ⟨exists_split_concat_iff.2 (.inl ⟨hforget, hcalled⟩), hplace, hsucceeds⟩
    · exact ⟨exists_split_concat_iff.2 (.inr ⟨rfl, hcall⟩), hplace, hsucceeds⟩

theorem Loaded.length_lt (h : Loaded decode start calls place earlier path) :
    earlier.length < calls.length := by
  obtain ⟨call, later, rfl, -⟩ := h.called
  simp

theorem FirstLoaded.unique {other : List Call} {otherPath : Path}
    (h : FirstLoaded decode start calls place earlier path)
    (hother : FirstLoaded decode start calls place other otherPath) :
    earlier = other ∧ path = otherPath := by
  obtain ⟨call, later, hcalls, hcall, -⟩ := h.called
  obtain ⟨otherCall, otherLater, hotherCalls, hotherCall, -⟩ := hother.called
  have hlength : earlier.length = other.length :=
    le_antisymm (h.first _ _ hother.toLoaded) (hother.first _ _ h.toLoaded)
  obtain ⟨rfl, hrest⟩ := List.append_inj (hcalls.symm.trans hotherCalls) hlength
  obtain ⟨rfl, -⟩ := List.cons.inj hrest
  exact ⟨rfl, Option.some.inj (hcall.symm.trans hotherCall)⟩

/-- A first load stays the first if another call follows that does not forget it. -/
theorem FirstLoaded.concat (h : FirstLoaded decode start calls place earlier path)
    (hcall : call ≠ .forget) :
    FirstLoaded decode start (calls ++ [call]) place earlier path where
  toLoaded := loaded_concat_iff.2 (.inl ⟨hcall, h.toLoaded⟩)
  first other otherPath hother := by
    rcases loaded_concat_iff.1 hother with ⟨-, hbefore⟩ | ⟨rfl, -⟩
    · exact h.first other otherPath hbefore
    · exact h.length_lt.le

/-! ## What is kept along a run -/

/-- What is kept for a place after some calls is what was read when the place was first loaded, and
nothing is kept if it was not. -/
def KeepsFirst (decode : Decoder) (start : Workspace) (calls : List Call) (place : Path) : Prop :=
  match (start.after decode calls).documents.lookup place with
  | none => ∀ earlier path, ¬ Loaded decode start calls place earlier path
  | some kept => ∃ earlier path, FirstLoaded decode start calls place earlier path ∧
      (start.after decode earlier).readDocument path decode = .ok kept.value

theorem keepsFirst_of_none (hlookup : (start.after decode calls).documents.lookup place = none)
    (h : ∀ earlier path, ¬ Loaded decode start calls place earlier path) :
    KeepsFirst decode start calls place := by
  rw [KeepsFirst, hlookup]
  exact h

theorem keepsFirst_of_some {kept : Stamped Document}
    (hlookup : (start.after decode calls).documents.lookup place = some kept)
    (h : FirstLoaded decode start calls place earlier path)
    (hread : (start.after decode earlier).readDocument path decode = .ok kept.value) :
    KeepsFirst decode start calls place := by
  rw [KeepsFirst, hlookup]
  exact ⟨earlier, path, h, hread⟩

theorem KeepsFirst.not_loaded (h : KeepsFirst decode start calls place)
    (hlookup : (start.after decode calls).documents.lookup place = none) (earlier : List Call)
    (path : Path) : ¬ Loaded decode start calls place earlier path := by
  rw [KeepsFirst, hlookup] at h
  exact h earlier path

theorem KeepsFirst.exists_firstLoaded (h : KeepsFirst decode start calls place)
    {kept : Stamped Document}
    (hlookup : (start.after decode calls).documents.lookup place = some kept) :
    ∃ earlier path, FirstLoaded decode start calls place earlier path ∧
      (start.after decode earlier).readDocument path decode = .ok kept.value := by
  rw [KeepsFirst, hlookup] at h
  exact h

theorem keepsFirst_forget : KeepsFirst decode start (calls ++ [.forget]) place := by
  refine keepsFirst_of_none (by rw [after_concat]; rfl) fun earlier path h => ?_
  simp [loaded_concat_iff, Call.loaded?] at h

/-- A call that keeps what is kept for a place, and loads nothing from there if nothing is. -/
theorem KeepsFirst.concat (h : KeepsFirst decode start calls place) (hforget : call ≠ .forget)
    (hlookup : (call.run decode (start.after decode calls)).documents.lookup place =
      (start.after decode calls).documents.lookup place)
    (hnot : (start.after decode calls).documents.lookup place = none →
      ∀ path, call.loaded? = some path → start.placeOf path = place →
        ∀ loaded, ((load path decode).run.run (start.after decode calls)).1 ≠ .ok loaded) :
    KeepsFirst decode start (calls ++ [call]) place := by
  cases hkept : (start.after decode calls).documents.lookup place with
  | some kept =>
      obtain ⟨earlier, path, hfirst, hread⟩ := h.exists_firstLoaded hkept
      exact keepsFirst_of_some (by rw [after_concat, hlookup, hkept]) (hfirst.concat hforget) hread
  | none =>
      refine keepsFirst_of_none (by rw [after_concat, hlookup, hkept]) fun earlier path hloaded => ?_
      rcases loaded_concat_iff.1 hloaded with ⟨-, hbefore⟩ | ⟨-, hcall, hplace, loaded, hresult⟩
      · exact h.not_loaded hkept earlier path hbefore
      · exact hnot hkept path hcall hplace loaded hresult

/-- A call that loads the document of a place for the first time. -/
theorem KeepsFirst.concat_load (h : KeepsFirst decode start calls place)
    (hcall : call.loaded? = some path)
    (hkept : (start.after decode calls).documents.lookup place = none)
    (hplace : start.placeOf path = place) {loaded : Stamped Document}
    (hresult : ((load path decode).run.run (start.after decode calls)).1 = .ok loaded) :
    KeepsFirst decode start (calls ++ [call]) place := by
  have hlookup : (start.after decode (calls ++ [call])).documents.lookup place = some loaded := by
    rw [after_concat, documents_run_of_loaded hcall, lookup_load, hkept, placeOf_after,
      if_pos hplace, hresult]
    rfl
  have hfirst : FirstLoaded decode start (calls ++ [call]) place calls path :=
    { toLoaded := loaded_concat_iff.2 (.inr ⟨rfl, hcall, hplace, loaded, hresult⟩)
      first := fun other otherPath hother => by
        rcases loaded_concat_iff.1 hother with ⟨-, hbefore⟩ | ⟨rfl, -⟩
        · exact absurd hbefore (h.not_loaded hkept other otherPath)
        · exact le_rfl }
  have hread : (start.after decode calls).readDocument path decode = .ok loaded.value :=
    readDocument_of_load (by rw [placeOf_after, hplace, hkept]) hresult
  exact keepsFirst_of_some hlookup hfirst hread

variable (decode) in
theorem keepsFirst (hstart : start.documents = []) (calls : List Call) (place : Path) :
    KeepsFirst decode start calls place := by
  -- on the last call: what is kept then depends on whether it is the first load of this place
  induction calls using List.reverseRecOn with
  | nil =>
      refine keepsFirst_of_none ?_ fun earlier path h => absurd h.length_lt (Nat.not_lt_zero _)
      show start.documents.lookup place = none
      rw [hstart]
      rfl
  | append_singleton calls call ih =>
      by_cases hforget : call = .forget
      · rw [hforget]
        exact keepsFirst_forget
      cases hcall : call.loaded? with
      | none =>
          refine ih.concat hforget (by rw [documents_run hcall hforget]) ?_
          simp [hcall]
      | some path =>
          -- the call is the first load of the place only if nothing is kept, the path leads there
          -- and it succeeds
          by_cases hnew : (start.after decode calls).documents.lookup place = none ∧
              start.placeOf path = place ∧
              ∃ loaded, ((load path decode).run.run (start.after decode calls)).1 = .ok loaded
          · obtain ⟨hkept, hplace, loaded, hresult⟩ := hnew
            exact ih.concat_load hcall hkept hplace hresult
          · refine ih.concat hforget ?_ fun hkept other hother hplace loaded hresult => ?_
            · rw [documents_run_of_loaded hcall, lookup_load]
              cases hkept : (start.after decode calls).documents.lookup place with
              | some kept => rfl
              | none =>
                  rw [Option.none_or, ite_eq_right_iff, placeOf_after]
                  intro hplace
                  cases hresult : ((load path decode).run.run (start.after decode calls)).1 with
                  | error failure => rfl
                  | ok loaded => exact absurd ⟨hkept, hplace, loaded, hresult⟩ hnew
            · obtain rfl : path = other := Option.some.inj (hcall.symm.trans hother)
              exact hnew ⟨hkept, hplace, loaded, hresult⟩

end

/-! ## Loading after a run -/

section

variable {start : Workspace} {calls : List Call} {path : Path}
  (hkeeps : KeepsFirst decode start calls (start.placeOf path)) (hpath : path.holdsNull = false)
include hkeeps hpath

/-- A place that was loaded answers with the document of the text that stood there at the first
load. -/
theorem KeepsFirst.load_of_firstLoaded {earlier : List Call} {first : Path}
    (hfirst : FirstLoaded decode start calls (start.placeOf path) earlier first) :
    ∃ text document stamp,
      (start.after decode earlier).files.at? (start.placeOf path).steps = .file text ∧
      ((loadText text decode).run.run (start.after decode earlier)).1 = .ok document ∧
      ((load path decode).run.run (start.after decode calls)).1 = .ok ⟨document, stamp⟩ := by
  cases hlookup : (start.after decode calls).documents.lookup (start.placeOf path) with
  | none => exact absurd hfirst.toLoaded (hkeeps.not_loaded hlookup earlier first)
  | some kept =>
      -- what is kept was read at the first load, and there is only one first load
      obtain ⟨_, _, hsame, hread⟩ := hkeeps.exists_firstLoaded hlookup
      obtain ⟨rfl, rfl⟩ := hfirst.unique hsame
      obtain ⟨text, hfound, hdocument⟩ := readDocument_eq_ok_iff.1 hread
      have hplace := at?_placeOf hfound
      rw [placeOf_after, hfirst.place_eq] at hplace
      rw [← placeOf_after start calls] at hlookup
      obtain ⟨journal, hrun⟩ := run_load_of_kept decode hpath hlookup
      refine ⟨text, kept.value, kept.stamp, hplace, result_loadText_eq_ok_iff.2 hdocument, ?_⟩
      rw [hrun]

/-- A place that was not loaded answers with the document of the text that is found now. -/
theorem KeepsFirst.load_iff_of_not_loaded
    (hnot : ∀ earlier other, ¬ Loaded decode start calls (start.placeOf path) earlier other)
    (document : Document) :
    (∃ stamp, ((load path decode).run.run (start.after decode calls)).1 = .ok ⟨document, stamp⟩) ↔
      ∃ text, (start.after decode calls).files.find start.directory path = .file text ∧
        ((loadText text decode).run.run (start.after decode calls)).1 = .ok document := by
  have hlookup : (start.after decode calls).documents.lookup (start.placeOf path) = none := by
    rw [Option.eq_none_iff_forall_not_mem]
    intro kept hkept
    obtain ⟨earlier, other, hfirst, -⟩ := hkeeps.exists_firstLoaded hkept
    exact hnot earlier other hfirst.toLoaded
  rw [← placeOf_after start calls] at hlookup
  have hread : (∃ text, (start.after decode calls).files.find start.directory path = .file text ∧
        ((loadText text decode).run.run (start.after decode calls)).1 = .ok document) ↔
      (start.after decode calls).readDocument path decode = .ok document := by
    simp only [result_loadText_eq_ok_iff, readDocument_eq_ok_iff, directory_after]
  rw [hread]
  constructor
  · rintro ⟨stamp, hresult⟩
    exact readDocument_of_load hlookup hresult
  · intro hread
    obtain ⟨journal, hrun⟩ := run_load_of_ok hpath hlookup hread
    exact ⟨_, by rw [hrun]⟩

end

/-- Whatever decodes the texts: after any run of calls that starts with nothing kept, a path whose
place was loaded since documents were last forgotten gives the document of the text that stood at
this place at the first of these loads, whatever has become of the file.  A path whose place was not
loaded gives the document of the text that is found now, just when there is a file and its text is
that of a document.  A path that holds a null character resolves to no place.  A load that fails and
the reading of a text change nothing. -/
theorem load_after (decode : Decoder) (start : Workspace) (hstart : start.documents = [])
    (calls : List Call) (path : Path) :
    (path.holdsNull = false →
      (∀ earlier first, FirstLoaded decode start calls (start.placeOf path) earlier first →
        ∃ text document stamp,
          (start.after decode earlier).files.at? (start.placeOf path).steps = .file text ∧
          ((loadText text decode).run.run (start.after decode earlier)).1 = .ok document ∧
          ((load path decode).run.run (start.after decode calls)).1 = .ok ⟨document, stamp⟩) ∧
      ((∀ earlier other, ¬ Loaded decode start calls (start.placeOf path) earlier other) →
        ∀ document,
          (∃ stamp,
            ((load path decode).run.run (start.after decode calls)).1 = .ok ⟨document, stamp⟩) ↔
          ∃ text, (start.after decode calls).files.find start.directory path = .file text ∧
            ((loadText text decode).run.run (start.after decode calls)).1 = .ok document)) ∧
    (path.holdsNull = true →
      ((load path decode).run.run (start.after decode calls)).1 = .error .holdsNull) ∧
    (∀ failure, ((load path decode).run.run (start.after decode calls)).1 = .error failure →
      ((load path decode).run.run (start.after decode calls)).2 = start.after decode calls) ∧
    ∀ text, ((loadText text decode).run.run (start.after decode calls)).2 =
      start.after decode calls := by
  have hkeeps := keepsFirst decode hstart calls (start.placeOf path)
  refine ⟨fun hpath => ⟨fun earlier first hfirst => ?_, fun hnot document => ?_⟩, fun hpath => ?_,
    fun failure hresult => run_load_snd_of_error hresult, fun text => run_loadText_snd text _⟩
  · exact hkeeps.load_of_firstLoaded hpath hfirst
  · exact hkeeps.load_iff_of_not_loaded hpath hnot document
  · rw [run_load_of_holdsNull hpath]

namespace Sample

def run : Path := .ofText "run.yaml"

/-- The same place from the root, through a directory that is not there. -/
def detour : Path := .ofText "/work/spare/../../work/run.yaml"

def write : Call := .write run "operations: []"

def later : List Call := [.delete run, .loadText "operations: 1"]

theorem holdsNull_run : run.holdsNull = false := by decide +kernel

theorem placeOf_run : (fresh "/work" "now").placeOf run = (fresh "/work" "now").placeOf detour := by
  decide +kernel

theorem after_write : (fresh "/work" "now").after Yaml.read [write] =
    { fresh "/work" "now" with
      files := ⟨[(["work", "run.yaml"], "operations: []")], [["work"]]⟩ } := by
  show ((writeFile run _).run.run (fresh "/work" "now")).2 = _
  unfold writeFile
  rw [if_neg (by simp [holdsNull_run])]
  rfl

theorem find_run : ((fresh "/work" "now").after Yaml.read [write]).files.find
    (fresh "/work" "now").directory run = .file "operations: []" := by
  rw [after_write]
  rfl

theorem exists_document : ∃ document, Document.ofYaml none "operations: []" = .ok document := by
  have hok : (Document.ofYaml none "operations: []").isOk = true := by decide +kernel
  cases h : Document.ofYaml none "operations: []" with
  | ok document => exact ⟨document, rfl⟩
  | error failure => simp [h, Except.isOk, Except.toBool] at hok

/-- The load for the snapshot is the first one of the place. -/
theorem firstLoaded :
    FirstLoaded Yaml.read (fresh "/work" "now") (write :: .loadSnapshot run none :: later)
      ((fresh "/work" "now").placeOf detour) [write] run where
  called := ⟨_, later, rfl, rfl, by simp [later]⟩
  place_eq := placeOf_run
  succeeds := by
    obtain ⟨document, hdocument⟩ := exists_document
    obtain ⟨journal, hrun⟩ := run_load_of_ok holdsNull_run (by rw [after_write]; rfl)
      (readDocument_eq_ok_iff.2 ⟨_, find_run, hdocument⟩)
    exact ⟨_, by rw [hrun]⟩
  first other path h := by
    obtain ⟨call, rest, hcalls, hcall, -⟩ := h.called
    cases other with
    | nil =>
        obtain ⟨rfl, -⟩ := List.cons.inj hcalls
        cases hcall
    | cons first others => simp

end Sample

/-- A document that was loaded for its snapshot comes back after its file is gone, also by another
path to the same place. -/
theorem load_after_sample : ∃ document stamp,
    ((loadText "operations: []").run.run (fresh "/work" "now")).1 = .ok document ∧
    ((load Sample.detour).run.run ((fresh "/work" "now").after Yaml.read
      (Sample.write :: .loadSnapshot Sample.run none :: Sample.later))).1 = .ok ⟨document, stamp⟩ := by
  obtain ⟨hload, -⟩ := load_after Yaml.read (fresh "/work" "now") rfl
    (Sample.write :: .loadSnapshot Sample.run none :: Sample.later) Sample.detour
  obtain ⟨hkept, -⟩ := hload (by decide +kernel)
  obtain ⟨text, kept, stamp, htext, hread, hresult⟩ := hkept _ _ Sample.firstLoaded
  -- the first load found the text by the other path
  have hthere := at?_placeOf Sample.find_run
  rw [placeOf_after, Sample.placeOf_run] at hthere
  obtain rfl : "operations: []" = text := Files.Found.file.inj (hthere.symm.trans htext)
  exact ⟨kept, stamp, result_loadText_eq_ok_iff.2 (result_loadText_eq_ok_iff.1 hread), hresult⟩

end Lineage.Workspace
