import Lineage.Proofs.Flow.Part

/-!
# What is found for a field is a flow of its own

The contributors of a field, indexed by themselves, answer for this field as all
operations do.  Everything that their transforms take inputs from was found as
well, and so was whatever the written inputs of the field come from.  Other
inputs of the same writes may now have origins that name no operation; they are
not inputs of the field, so nothing is asked of them.

The dependents of a field are not closed in this way, since a transform among
them may take other inputs from elsewhere.  But each of them was found along a
path of dependents, and that path is still there.
-/

namespace Lineage

theorem Summary.find?_congr {first second : Summary} {key : EndpointField}
    (hfields : first.fieldsOf key = second.fieldsOf key)
    (hkeys : key ∈ first.keys ↔ key ∈ second.keys) : first.find? key = second.find? key := by
  rw [SortedMap.mem_keys, SortedMap.mem_keys] at hkeys
  unfold fieldsOf at hfields
  cases hfirst : first.find? key with
  | none =>
      cases hsecond : second.find? key with
      | none => rfl
      | some others => simp [hfirst, hsecond] at hkeys
  | some fields =>
      cases hsecond : second.find? key with
      | none => simp [hfirst, hsecond] at hkeys
      | some others => simpa [hfirst, hsecond] using hfields

namespace Flow

variable {operations : OperationSet} {destination source : EndpointField}

/-! ## The contributors -/

section Contributors

variable (unique : UniqueNames operations)
include unique

/-- The origins of the inputs that are written to the field are among its contributors. -/
theorem UniqueNames.contributors_supply {write : Operation} (hmem : write ∈ operations)
    (hkind : write.kind = .write) {input : FieldRef} (hinput : input ∈ matching destination write) :
    Supplies ((index operations).contributors destination) operations input.origin := by
  intro start hstart hname
  exact unique.mem_contributors_iff.2
    ⟨write, hmem, hkind, input, hinput, .inr ⟨start, hstart, hname, .refl⟩⟩

theorem UniqueNames.contributors_closed :
    ClosedIn ((index operations).contributors destination) operations where
  subset operation := operations_of_contributors
  supplied := by
    rintro transform htransform hkind _ horigin other hother rfl
    obtain ⟨write, hmem, hwrite, input, hinput, hfound⟩ := unique.mem_contributors_iff.1 htransform
    rcases hfound with rfl | ⟨start, hstart, hname, hpath⟩
    · -- the write of the field is no transform
      simp [hwrite] at hkind
    · have hstep := unique.mem_back_iff.2 ⟨hkind, hother, horigin⟩
      exact unique.mem_contributors_iff.2
        ⟨write, hmem, hwrite, input, hinput, .inr ⟨start, hstart, hname, hpath.tail hstep⟩⟩

/-- A write of the field is one of its contributors. -/
theorem UniqueNames.write_mem_contributors {write : Operation} (hmem : write ∈ operations)
    (hkind : write.kind = .write) {input : FieldRef} (hinput : input ∈ matching destination write) :
    write ∈ (index operations).contributors destination :=
  unique.mem_contributors_iff.2 ⟨write, hmem, hkind, input, hinput, .inl rfl⟩

theorem UniqueNames.contributors_contributors :
    (index ((index operations).contributors destination)).contributors destination =
      (index operations).contributors destination := by
  have closed : ClosedIn ((index operations).contributors destination) operations :=
    unique.contributors_closed
  refine SortedSet.ext_mem fun operation => ⟨operations_of_contributors, fun hfound => ?_⟩
  obtain ⟨write, hmem, hwrite⟩ := unique.mem_contributors_iff.1 hfound
  obtain ⟨hkind, input, hinput, -⟩ := id hwrite
  have hpart := unique.write_mem_contributors hmem hkind hinput
  refine (unique.of_subset closed.subset).mem_contributors_iff.2 ⟨write, hpart, ?_⟩
  exact (foundFrom_part_iff closed unique
    fun input hinput => unique.contributors_supply hmem hkind hinput).2 hwrite

/-- Into the field flows from its contributors what flows into it from all operations. -/
theorem UniqueNames.flowsInto_contributors :
    source.FlowsInto ((index operations).contributors destination) destination ↔
      source.FlowsInto operations destination := by
  have closed : ClosedIn ((index operations).contributors destination) operations :=
    unique.contributors_closed
  constructor
  · rintro ⟨write, hpart, hcarries⟩
    have hmem := closed.subset write hpart
    exact ⟨write, hmem, (Operation.carries_part_iff closed
      fun input => unique.contributors_supply hmem hcarries.1).1 hcarries⟩
  · rintro ⟨write, hmem, hcarries⟩
    obtain ⟨hkind, hendpoint, input, hinput, hname, -⟩ := id hcarries
    have hpart := unique.write_mem_contributors hmem hkind
      (mem_matching.2 ⟨hendpoint, hinput, hname⟩)
    exact ⟨write, hpart, (Operation.carries_part_iff closed
      fun input => unique.contributors_supply hmem hkind).2 hcarries⟩

end Contributors

/-! ## The dependents -/

theorem dependents_dependents :
    (index ((index operations).dependents source)).dependents source =
      (index operations).dependents source := by
  refine SortedSet.ext_mem fun operation => ⟨operations_of_dependents, fun hfound => ?_⟩
  rcases mem_dependents.1 hfound with ⟨-, hkind, hproduces⟩ | ⟨user, huser, hpath⟩
  · exact mem_dependents.2 (.inl ⟨hfound, hkind, hproduces⟩)
  · have hreached {other : Operation} (hother : Reached (index operations).ahead user other) :
        other ∈ (index operations).dependents source :=
      mem_dependents.2 (.inr ⟨user, huser, hother⟩)
    obtain ⟨read, hread, hkind, hproduces, -, hinput⟩ := huser
    have hread := mem_dependents.2 (.inl ⟨hread, hkind, hproduces⟩)
    refine mem_dependents.2
      (.inr ⟨user, ⟨read, hread, hkind, hproduces, hreached .refl, hinput⟩, ?_⟩)
    -- every operation on the path is reached, and so each step is one among the dependents
    clear hfound
    induction hpath with
    | refl => exact .refl
    | tail hbefore hstep ih =>
        obtain ⟨hmiddle, -, horigin⟩ := mem_ahead.1 hstep
        exact ih.tail (mem_ahead.2 ⟨hmiddle, hreached (hbefore.tail hstep), horigin⟩)

/-! ## Both on a valid snapshot -/

/-- On the contributors of a field, indexed by themselves, the contributors of the field are the
same, and the incoming summary has the same entry for it, or none in both.  On the dependents of a
field the dependents of the field are the same. -/
theorem slices_of_accept {flow : Flow} (h : accept operations = .ok flow) :
    (∀ destination, (index (flow.contributors destination)).contributors destination =
        flow.contributors destination ∧
      ∀ earlier others, ∃ whole part,
        (flow.incoming.run (flow.ledgerAfter earlier)).1 = .ok whole ∧
        ((index (flow.contributors destination)).incoming.run
          ((index (flow.contributors destination)).ledgerAfter others)).1 = .ok part ∧
        part.find? destination = whole.find? destination) ∧
    ∀ source, (index (flow.dependents source)).dependents source = flow.dependents source := by
  obtain ⟨rfl, admitted⟩ := accept_eq_ok_iff.1 h
  have unique := admitted.unique
  refine ⟨fun destination => ⟨unique.contributors_contributors, fun earlier others => ?_⟩,
    fun source => dependents_dependents⟩
  have traceable : Traceable ((index operations).contributors destination) :=
    admitted.of_subset fun operation => operations_of_contributors
  obtain ⟨whole, hwhole, hlists, hkeys⟩ := admitted.gives_incoming
  obtain ⟨part, hpart, hpartLists, hpartKeys⟩ := traceable.gives_incoming
  refine ⟨whole, part, (hwhole _ (sound_ledgerAfter _ earlier)).1,
    (hpart _ (sound_ledgerAfter _ others)).1, Summary.find?_congr ?_ ?_⟩
  · refine SortedSet.ext_mem fun source => ?_
    rw [hlists, hpartLists, unique.flowsInto_contributors]
  · rw [hkeys, hpartKeys]
    exact exists_congr fun source => unique.flowsInto_contributors

theorem slices_sample : accept Sample.snapshot = .ok (index Sample.snapshot) ∧
    (let slice := (index Sample.snapshot).contributors ⟨Sample.storeFile, Sample.text⟩
    (index slice).contributors ⟨Sample.storeFile, Sample.text⟩ = slice ∧ ∃ part,
      ((index slice).incoming.run
        ((index slice).ledgerAfter [.sourcesThrough Sample.clean.name])).1 = .ok part ∧
      ⟨Sample.peopleFile, Sample.body⟩ ∈ part.fieldsOf ⟨Sample.storeFile, Sample.text⟩) := by
  obtain ⟨hsame, hentry⟩ := (slices_of_accept Sample.accepted).1 ⟨Sample.storeFile, Sample.text⟩
  obtain ⟨whole, part, hwhole, hpart, hfind⟩ := hentry [] [.sourcesThrough Sample.clean.name]
  obtain ⟨summary, hgives, hlists, -⟩ := Sample.admitted.gives_incoming
  obtain rfl : summary = whole := Except.ok.inj ((hgives _ .nil).1.symm.trans hwhole)
  have hlisted := (hlists _ _).2 Sample.body_flowsInto_text
  rw [Summary.fieldsOf, ← hfind] at hlisted
  exact ⟨Sample.accepted, hsame, part, hpart, hlisted⟩

end Flow

end Lineage
