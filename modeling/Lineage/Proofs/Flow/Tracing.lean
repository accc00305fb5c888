import Lineage.Flow.Inquiry
import Lineage.Proofs.Flow.Walk

/-!
# Answers do not depend on the ledger

A computation gives a result if it has that result on every sound ledger, and
leaves a sound ledger behind (`Gives`).  This is closed under putting
computations together, and the source fields of a transform are given: whatever
is settled already, the walk adds what is missing and the entry is exact.

So an inquiry answers after others as it would be answered alone, even if some of
those failed, and the ledger is never asked for an entry that is not there.
-/

namespace Lineage.Flow

variable {flow : Flow} {α β : Type}

/-- On every sound ledger the computation has this result, and it leaves a sound one. -/
def Gives (flow : Flow) (computation : Tracing α) (result : Except TracingFault α) : Prop :=
  ∀ ledger, flow.Sound ledger →
    (computation.run ledger).1 = result ∧ flow.Sound (computation.run ledger).2

/-! ## Putting computations together -/

theorem gives_pure (value : α) : flow.Gives (pure value) (.ok value) :=
  fun _ sound => ⟨rfl, sound⟩

theorem gives_throw (fault : TracingFault) :
    flow.Gives (throw fault : Tracing α) (.error fault) :=
  fun _ sound => ⟨rfl, sound⟩

theorem gives_lift (result : Except TracingFault α) :
    flow.Gives (liftM result : Tracing α) result :=
  fun _ sound => ⟨by cases result <;> rfl, by cases result <;> exact sound⟩

theorem run_bind (computation : Tracing α) (next : α → Tracing β) (ledger : Ledger) :
    (computation >>= next).run ledger =
      match (computation.run ledger).1 with
      | .ok value => (next value).run (computation.run ledger).2
      | .error fault => (.error fault, (computation.run ledger).2) := by
  show (ExceptT.bindCont next (computation.run ledger).1) (computation.run ledger).2 = _
  cases (computation.run ledger).1 <;> rfl

theorem Gives.bind {computation : Tracing α} {next : α → Tracing β} {value : α}
    {result : Except TracingFault β} (h : flow.Gives computation (.ok value))
    (hnext : flow.Gives (next value) result) : flow.Gives (computation >>= next) result := by
  intro ledger sound
  obtain ⟨hvalue, hledger⟩ := h ledger sound
  rw [run_bind, hvalue]
  exact hnext _ hledger

theorem Gives.bind_error {computation : Tracing α} {next : α → Tracing β} {fault : TracingFault}
    (h : flow.Gives computation (.error fault)) :
    flow.Gives (computation >>= next) (.error fault) := by
  intro ledger sound
  obtain ⟨hfault, hledger⟩ := h ledger sound
  rw [run_bind, hfault]
  exact ⟨rfl, hledger⟩

/-! ## The source fields of a transform -/

private theorem run_get (ledger : Ledger) :
    (get : Tracing Ledger).run ledger = (.ok ledger, ledger) :=
  rfl

private theorem run_walkFrom (ledger : Ledger) (name : Name) :
    (flow.walkFrom name).run ledger = (Walk.initial flow ledger name).run flow :=
  rfl

theorem run_sourcesThrough_of_settled {ledger : Ledger} {name : Name}
    {sources : SortedSet EndpointField} (h : ledger.sources? name = some sources) :
    (flow.sourcesThrough name).run ledger = (.ok sources, ledger) := by
  rw [sourcesThrough, run_bind, run_get]
  simp only [h]
  rfl

theorem run_sourcesThrough_of_other {ledger : Ledger} {name : Name}
    (h : ledger.sources? name = none) (hname : flow.transform? name = none) :
    (flow.sourcesThrough name).run ledger = (.ok ∅, ledger) := by
  rw [sourcesThrough, run_bind, run_get]
  simp only [h, hname, Option.isSome_none, Bool.false_eq_true, if_false]
  rfl

theorem run_sourcesThrough {ledger : Ledger} {name : Name}
    (h : ledger.sources? name = none) (hname : (flow.transform? name).isSome) :
    (flow.sourcesThrough name).run ledger =
      match (Walk.initial flow ledger name).run flow with
      | (.ok (), settled) =>
        match settled.sources? name with
        | some sources => (.ok sources, settled)
        | none => (.error (.unsettled name), settled)
      | (.error fault, settled) => (.error fault, settled) := by
  rw [sourcesThrough, run_bind, run_get]
  simp only [h, hname, if_true]
  rw [run_bind, run_walkFrom]
  rcases (Walk.initial flow ledger name).run flow with ⟨_ | ⟨⟩, settled⟩
  · rfl
  · dsimp only
    rw [run_bind, run_get]
    dsimp only
    cases settled.sources? name <;> rfl

/-- The source fields of a transform are told, whatever the ledger. -/
theorem tells_sourcesThrough (flow : Flow) {ledger : Ledger} (sound : flow.Sound ledger)
    (name : Name) :
    Tells (flow.Receives name) ((flow.sourcesThrough name).run ledger).1 ∧
      flow.Sound ((flow.sourcesThrough name).run ledger).2 := by
  cases hsources : ledger.sources? name with
  | some sources =>
      rw [run_sourcesThrough_of_settled hsources]
      exact ⟨sound.tells hsources, sound⟩
  | none =>
      cases hname : flow.transform? name with
      | none =>
          rw [run_sourcesThrough_of_other hsources hname]
          exact ⟨.empty fun source field => not_receives hname, sound⟩
      | some transform =>
          have htransform : (flow.transform? name).isSome := by simp [hname]
          -- the walk either settles the transform or stops at a field without a source
          have hwalk := (Walk.invariant_initial sound htransform
            (Ledger.not_settled_iff.2 hsources)).run htransform
          rw [run_sourcesThrough hsources htransform]
          generalize (Walk.initial flow ledger name).run flow = outcome at hwalk ⊢
          obtain ⟨result, settled⟩ := outcome
          obtain ⟨hsound, ⟨rfl, hsettled⟩ | ⟨rfl, hreceives⟩⟩ := hwalk
          · obtain ⟨sources, hfound⟩ := Option.isSome_iff_exists.1 hsettled
            simp only [hfound]
            exact ⟨hsound.tells hfound, hsound⟩
          · exact ⟨⟨rfl, hreceives⟩, hsound⟩

theorem gives_sourcesThrough (flow : Flow) (name : Name) :
    ∃ result, flow.Gives (flow.sourcesThrough name) result ∧ Tells (flow.Receives name) result := by
  -- what the empty ledger answers is the result, since nothing else would tell the same
  have hfirst := (tells_sourcesThrough flow .nil name).1
  refine ⟨_, fun ledger sound => ?_, hfirst⟩
  obtain ⟨htells, hsound⟩ := tells_sourcesThrough flow sound name
  exact ⟨htells.unique hfirst, hsound⟩

/-! ## Steady computations -/

/-- The computation gives one result, and asks for no entry that is not there. -/
def Steady (flow : Flow) (computation : Tracing α) : Prop :=
  ∃ result, flow.Gives computation result ∧ ∀ name, result ≠ .error (.unsettled name)

theorem steady_pure (value : α) : flow.Steady (pure value) :=
  ⟨.ok value, gives_pure value, fun _ => by simp⟩

theorem Steady.bind {computation : Tracing α} {next : α → Tracing β}
    (h : flow.Steady computation) (hnext : ∀ value, flow.Steady (next value)) :
    flow.Steady (computation >>= next) := by
  obtain ⟨result, hgives, hentry⟩ := h
  cases result with
  | ok value =>
      obtain ⟨result, hresult, hentry⟩ := hnext value
      exact ⟨result, hgives.bind hresult, hentry⟩
  | error fault =>
      exact ⟨.error fault, hgives.bind_error, fun name heq => hentry name (by cases heq; rfl)⟩

theorem steady_foldlM {step : β → α → Tracing β} (h : ∀ state part, flow.Steady (step state part))
    (parts : List α) (state : β) : flow.Steady (parts.foldlM step state) := by
  induction parts generalizing state with
  | nil => exact steady_pure state
  | cons part rest ih =>
      rw [List.foldlM_cons]
      exact (h state part).bind ih

theorem steady_fieldOf (endpoint : Option Endpoint) (field : Name) :
    flow.Steady (liftM (fieldOf endpoint field) : Tracing EndpointField) :=
  ⟨_, gives_lift _, fun _ => by cases endpoint <;> simp [fieldOf]⟩

theorem steady_sourcesThrough (flow : Flow) (name : Name) :
    flow.Steady (flow.sourcesThrough name) := by
  obtain ⟨result, hgives, htells⟩ := gives_sourcesThrough flow name
  refine ⟨result, hgives, fun other heq => ?_⟩
  rw [heq] at htells
  cases htells.1

theorem steady_writtenSources (flow : Flow) (write : Operation) (input : FieldRef) :
    flow.Steady (flow.writtenSources write input) := by
  unfold writtenSources
  split
  · exact steady_pure _
  · split
    · exact steady_foldlM (fun _ _ => (steady_fieldOf _ _).bind fun _ => steady_pure _) _ _
    · exact steady_sourcesThrough flow _
    · exact steady_pure _

theorem steady_incoming (flow : Flow) : flow.Steady flow.incoming :=
  steady_foldlM (fun _ write => steady_foldlM (fun _ input =>
    (steady_fieldOf _ _).bind fun _ =>
      (steady_writtenSources flow write input).bind fun _ => steady_pure _) _ _) _ _

theorem steady_endpointsFeeding (flow : Flow) (transform : Operation) (field : Name) :
    flow.Steady (flow.endpointsFeeding transform field) := by
  refine steady_foldlM (fun endpoints input => ?_) _ _
  split
  · exact steady_pure _
  · split
    · exact steady_pure _
    · exact (steady_sourcesThrough flow _).bind fun _ => steady_pure _
    · exact steady_pure _

theorem steady_markDropped (flow : Flow) (name : Name) (summary : Summary) (field : Name) :
    flow.Steady (flow.markDropped name summary field) := by
  unfold markDropped
  split
  · exact steady_pure _
  · split
    · exact ⟨_, gives_throw _, fun _ => by simp⟩
    · exact (steady_endpointsFeeding flow _ _).bind fun _ =>
        steady_foldlM (fun _ _ => (steady_fieldOf _ _).bind fun _ => steady_pure _) _ _

theorem steady_outgoing (flow : Flow) (incoming : Summary) : flow.Steady (flow.outgoing incoming) :=
  steady_foldlM (fun _ ⟨name, _⟩ => steady_foldlM (steady_markDropped flow name) _ _) _ _

theorem steady_answer (flow : Flow) : ∀ inquiry, flow.Steady (flow.answer inquiry)
  | .sourcesThrough name => (steady_sourcesThrough flow name).bind fun _ => steady_pure _
  | .incoming => (steady_incoming flow).bind fun _ => steady_pure _
  | .outgoing (some incoming) => (steady_outgoing flow incoming).bind fun _ => steady_pure _
  | .outgoing none =>
    ((steady_incoming flow).bind fun incoming => steady_outgoing flow incoming).bind
      fun _ => steady_pure _
  | .destinationFields => steady_pure _

/-! ## Inquiries one after another -/

theorem sound_ledgerAfter (flow : Flow) (inquiries : List Inquiry) :
    flow.Sound (flow.ledgerAfter inquiries) := by
  suffices h : ∀ ledger, flow.Sound ledger → flow.Sound (inquiries.foldl
      (fun ledger inquiry => ((flow.answer inquiry).run ledger).2) ledger) from h [] .nil
  induction inquiries with
  | nil => exact fun ledger sound => sound
  | cons inquiry rest ih =>
      intro ledger sound
      obtain ⟨result, hgives, -⟩ := steady_answer flow inquiry
      exact ih _ (hgives ledger sound).2

/-- What was settled before does not change what an inquiry finds, and no entry is missing. -/
theorem answer_of_sound {ledger : Ledger} (sound : flow.Sound ledger) (inquiry : Inquiry) :
    ((flow.answer inquiry).run ledger).1 = ((flow.answer inquiry).run []).1 ∧
      ∀ name, ((flow.answer inquiry).run ledger).1 ≠ .error (.unsettled name) := by
  obtain ⟨found, hgives, hentry⟩ := steady_answer flow inquiry
  rw [(hgives ledger sound).1, (hgives [] .nil).1]
  exact ⟨rfl, hentry⟩

section Index

variable {operations : OperationSet} (unique : UniqueNames operations) {ledger : Ledger}
  (sound : (index operations).Sound ledger)
include unique sound

theorem tells_sourcesThrough_transform {transform : Operation} (hmem : transform ∈ operations)
    (hkind : transform.kind = .transform) :
    Tells (transform.Receives operations)
      (((index operations).sourcesThrough transform.name).run ledger).1 :=
  (tells_sourcesThrough (index operations) sound transform.name).1.congr
    fun _ _ => unique.receives_iff hmem hkind

/-- No source fields are told of a name that is not that of a transform. -/
theorem sourcesThrough_other {name : Name}
    (hother : ∀ transform ∈ operations, transform.kind = .transform → transform.name ≠ name) :
    (((index operations).sourcesThrough name).run ledger).1 = .ok ∅ := by
  have hname : (index operations).transform? name = none := by
    refine Option.eq_none_iff_forall_ne_some.2 fun transform htransform => ?_
    obtain ⟨hmem, hname, hkind⟩ := unique.transform?_eq_some.1 htransform
    exact hother transform hmem hkind hname
  have htells := (tells_sourcesThrough (index operations) sound name).1
  exact htells.unique (.empty fun source field => not_receives hname)

end Index

/-- Whatever was asked before, and whether it failed or not, the source fields of a transform are
exactly those that it receives, and they cannot be told exactly if a field without a source is among
them.  Every inquiry answers as it would on an empty ledger, and finds all the entries it needs. -/
theorem sourcesThrough_after_inquiries (operations : OperationSet) (unique : UniqueNames operations)
    (earlier : List Inquiry) (name : Name) :
    let flow := index operations
    let result := ((flow.sourcesThrough name).run (flow.ledgerAfter earlier)).1
    (∀ transform ∈ operations, transform.kind = .transform → transform.name = name →
      (result = .error .missingEndpoint ↔ ∃ field, transform.Receives operations none field) ∧
      ((¬ ∃ field, transform.Receives operations none field) →
        ∃ sources, result = .ok sources ∧ ∀ found, found ∈ sources ↔
          transform.Receives operations (some found.endpoint) found.field)) ∧
    ((∀ transform ∈ operations, transform.kind = .transform → transform.name ≠ name) →
      result = .ok ∅) ∧
    ∀ inquiry, ((flow.answer inquiry).run (flow.ledgerAfter earlier)).1 =
        ((flow.answer inquiry).run []).1 ∧
      ∀ other, ((flow.answer inquiry).run (flow.ledgerAfter earlier)).1 ≠
        .error (.unsettled other) := by
  intro flow result
  have sound := sound_ledgerAfter flow earlier
  refine ⟨?_, sourcesThrough_other unique sound, answer_of_sound sound⟩
  rintro transform hmem hkind rfl
  have htells := tells_sourcesThrough_transform unique sound hmem hkind
  exact ⟨htells.error_iff, htells.exists_ok⟩

/-! ## A small snapshot

Two transforms that feed one another stand between a read and a write; a third
drops a field that nobody else uses. -/

namespace Sample

def text : Name := ⟨"text", by decide⟩
def body : Name := ⟨"body", by decide⟩
def offset : Name := ⟨"offset", by decide⟩

def peopleFile : Endpoint := ⟨⟨"ns", by decide⟩, ⟨"people", by decide⟩⟩
def storeFile : Endpoint := ⟨⟨"ns", by decide⟩, ⟨"store", by decide⟩⟩

def people : Operation :=
  ⟨⟨⟨"people", by decide⟩, ""⟩, .read (some peopleFile) (.ofList ["body", "offset"])⟩

def clean : Operation :=
  ⟨⟨⟨"clean", by decide⟩, ""⟩,
    .transform (.ofList [⟨⟨"parse", by decide⟩, text⟩, ⟨⟨"clean", by decide⟩, text⟩])
      (.ofList ["text"])⟩

def parse : Operation :=
  ⟨⟨⟨"parse", by decide⟩, ""⟩,
    .transform (.ofList [⟨people.name, body⟩, ⟨clean.name, text⟩]) (.ofList ["text"])⟩

def count : Operation :=
  ⟨⟨⟨"count", by decide⟩, ""⟩,
    .transform (.ofList [⟨people.name, offset⟩, ⟨people.name, body⟩]) (.ofList ["body"])⟩

def store : Operation :=
  ⟨⟨⟨"store", by decide⟩, ""⟩,
    .write (some storeFile) (.ofList [⟨clean.name, text⟩, ⟨people.name, body⟩])⟩

def snapshot : OperationSet := .ofList [people, parse, clean, count, store]

theorem clean_receives : clean.Receives snapshot (some peopleFile) body := by
  have hparse : clean.FedBy snapshot parse := ⟨by decide +kernel, rfl, by decide +kernel⟩
  have htakes : parse.Takes snapshot (some peopleFile) body :=
    ⟨people, by decide +kernel, rfl, rfl, by decide +kernel⟩
  exact ⟨parse, .single hparse, htakes⟩

end Sample

theorem sourcesThrough_sample : UniqueNames Sample.snapshot ∧ ∃ sources,
    (((index Sample.snapshot).sourcesThrough Sample.clean.name).run
      ((index Sample.snapshot).ledgerAfter [.sourcesThrough Sample.count.name, .incoming])).1 =
        .ok sources ∧ ⟨Sample.peopleFile, Sample.body⟩ ∈ sources := by
  have unique : UniqueNames Sample.snapshot := by decide +kernel
  have hsources : ∀ read ∈ Sample.snapshot, read.kind = .read → read.endpoint? ≠ none := by
    decide +kernel
  obtain ⟨hclean, -⟩ := sourcesThrough_after_inquiries Sample.snapshot unique
    [.sourcesThrough Sample.count.name, .incoming] Sample.clean.name
  obtain ⟨sources, hresult, hmem⟩ := (hclean Sample.clean (by decide +kernel) rfl rfl).2
    fun ⟨_, hfield⟩ => Operation.not_receives_none hsources hfield
  exact ⟨unique, sources, hresult, (hmem _).2 Sample.clean_receives⟩

end Lineage.Flow
