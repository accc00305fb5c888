import Lineage.Proofs.Flow.Agreement

/-!
# Parts of a set of operations

What flows and what is found is said of a set of operations: every origin is
looked up in it.  A part of the set says the same of its operations if it has
all that their inputs come from.  For transforms this is asked once and for all
(`ClosedIn`), since everything else leads back through them; for a read or a
write it is asked origin by origin (`Supplies`), so that a write may be in the
part without the operations behind all of its inputs.
-/

namespace Lineage

open Relation

namespace Flow

/-- Every operation of this name in the whole is in the part. -/
def Supplies (part whole : OperationSet) (origin : Name) : Prop :=
  ∀ operation ∈ whole, operation.name = origin → operation ∈ part

/-- A part of a set of operations that has everything from which its transforms take inputs. -/
structure ClosedIn (part whole : OperationSet) : Prop where
  subset : ∀ operation ∈ part, operation ∈ whole
  supplied : ∀ transform ∈ part, transform.kind = .transform →
    ∀ origin ∈ transform.origins, Supplies part whole origin

variable {part whole : OperationSet}

theorem UniqueNames.of_subset (unique : UniqueNames whole)
    (hsubset : ∀ operation ∈ part, operation ∈ whole) : UniqueNames part :=
  fun a ha b hb => unique a (hsubset a ha) b (hsubset b hb)

theorem Traceable.of_subset (traceable : Traceable whole)
    (hsubset : ∀ operation ∈ part, operation ∈ whole) : Traceable part where
  unique := traceable.unique.of_subset hsubset
  sourced read hread := traceable.sourced read (hsubset read hread)
  destined write hwrite := traceable.destined write (hsubset write hwrite)

/-- Of a name that is supplied the part has an operation with a property if the whole has one. -/
theorem Supplies.exists_iff {origin : Name} (supplies : Supplies part whole origin)
    (hsubset : ∀ operation ∈ part, operation ∈ whole) {p q : Operation → Prop}
    (hiff : ∀ operation ∈ part, (p operation ↔ q operation)) :
    (∃ operation ∈ part, operation.name = origin ∧ p operation) ↔
      ∃ operation ∈ whole, operation.name = origin ∧ q operation := by
  constructor
  · rintro ⟨operation, hmem, hname, hp⟩
    exact ⟨operation, hsubset operation hmem, hname, (hiff operation hmem).1 hp⟩
  · rintro ⟨operation, hwhole, hname, hq⟩
    have hmem := supplies operation hwhole hname
    exact ⟨operation, hmem, hname, (hiff operation hmem).2 hq⟩

end Flow

open Lineage.Flow

variable {part whole : OperationSet}

namespace Operation

variable {operation : Operation}

/-! ## Upstream in the part -/

theorem fedBy_part_iff (closed : ClosedIn part whole)
    (hsupplied : ∀ origin ∈ operation.origins, Supplies part whole origin) {other : Operation} :
    operation.FedBy part other ↔ operation.FedBy whole other := by
  constructor
  · rintro ⟨hmem, hkind, horigin⟩
    exact ⟨closed.subset other hmem, hkind, horigin⟩
  · rintro ⟨hmem, hkind, horigin⟩
    exact ⟨hsupplied other.name horigin other hmem rfl, hkind, horigin⟩

theorem Upstream.of_part (closed : ClosedIn part whole) {other : Operation}
    (h : operation.Upstream part other) : operation.Upstream whole other := by
  induction h with
  | refl => exact .refl
  | tail _ hfed ih =>
      obtain ⟨hmem, hkind, horigin⟩ := hfed
      exact ih.tail ⟨closed.subset _ hmem, hkind, horigin⟩

/-- From an operation whose origins are in the part one stays in the part, and all that one comes
to has its origins there too. -/
theorem Upstream.in_part (closed : ClosedIn part whole) {other : Operation}
    (h : operation.Upstream whole other) :
    (∀ origin ∈ operation.origins, Supplies part whole origin) →
      operation.Upstream part other ∧ ∀ origin ∈ other.origins, Supplies part whole origin := by
  induction h using ReflTransGen.head_induction_on with
  | refl => exact fun hsupplied => ⟨.refl, hsupplied⟩
  | head hfed _ ih =>
      intro hsupplied
      obtain ⟨hmem, hkind, horigin⟩ := (fedBy_part_iff closed hsupplied).2 hfed
      obtain ⟨hupstream, hother⟩ := ih (closed.supplied _ hmem hkind)
      exact ⟨hupstream.head ⟨hmem, hkind, horigin⟩, hother⟩

theorem takes_part_iff (closed : ClosedIn part whole)
    (hsupplied : ∀ origin ∈ operation.origins, Supplies part whole origin)
    {source : Option Endpoint} {field : Name} :
    operation.Takes part source field ↔ operation.Takes whole source field := by
  constructor
  · rintro ⟨read, hmem, hkind, hsource, hinput⟩
    exact ⟨read, closed.subset read hmem, hkind, hsource, hinput⟩
  · rintro ⟨read, hmem, hkind, hsource, hinput⟩
    have horigin : read.name ∈ operation.origins := mem_origins.2 ⟨_, hinput, rfl⟩
    exact ⟨read, hsupplied read.name horigin read hmem rfl, hkind, hsource, hinput⟩

theorem receives_part_iff (closed : ClosedIn part whole)
    (hsupplied : ∀ origin ∈ operation.origins, Supplies part whole origin)
    {source : Option Endpoint} {field : Name} :
    operation.Receives part source field ↔ operation.Receives whole source field := by
  constructor
  · rintro ⟨upstream, hupstream, htakes⟩
    have hwhole := hupstream.of_part closed
    obtain ⟨-, hthere⟩ := hwhole.in_part closed hsupplied
    exact ⟨upstream, hwhole, (takes_part_iff closed hthere).1 htakes⟩
  · rintro ⟨upstream, hupstream, htakes⟩
    obtain ⟨hpart, hthere⟩ := hupstream.in_part closed hsupplied
    exact ⟨upstream, hpart, (takes_part_iff closed hthere).2 htakes⟩

/-! ## What is taken over and what is marked -/

section Supplied

variable {origin : Name} (closed : ClosedIn part whole) (supplies : Supplies part whole origin)
include closed supplies

theorem takesOver_part_iff {write : Operation} {source : EndpointField} :
    write.TakesOver part origin source ↔ write.TakesOver whole origin source := by
  refine or_congr (supplies.exists_iff closed.subset fun _ _ => Iff.rfl)
    (supplies.exists_iff closed.subset fun transform hmem => and_congr_right fun hkind => ?_)
  exact receives_part_iff closed (closed.supplied transform hmem hkind)

theorem feedsFrom_part_iff {endpoint : Endpoint} :
    FeedsFrom part origin endpoint ↔ FeedsFrom whole origin endpoint := by
  refine or_congr (supplies.exists_iff closed.subset fun _ _ => Iff.rfl)
    (supplies.exists_iff closed.subset fun transform hmem => and_congr_right fun hkind => ?_)
  exact exists_congr fun field => receives_part_iff closed (closed.supplied transform hmem hkind)

end Supplied

theorem carries_part_iff (closed : ClosedIn part whole) {write : Operation}
    {source destination : EndpointField}
    (hsupplied : ∀ input ∈ matching destination write, Supplies part whole input.origin) :
    write.Carries part source destination ↔ write.Carries whole source destination := by
  refine and_congr_right fun _ => and_congr_right fun hendpoint => ?_
  refine exists_congr fun input => and_congr_right fun hinput => and_congr_right fun hname => ?_
  have hmatching := mem_matching.2 ⟨hendpoint, hinput, hname⟩
  exact takesOver_part_iff closed (hsupplied input hmatching)

theorem marks_part_iff (closed : ClosedIn part whole) {transform : Operation}
    (hmem : transform ∈ part) {source : EndpointField} :
    transform.Marks part source ↔ transform.Marks whole source := by
  refine and_congr_right fun hdrops => ?_
  refine exists_congr fun input => and_congr_right fun hinput => and_congr_right fun _ => ?_
  have horigin := mem_origins.2 ⟨input, hinput, rfl⟩
  exact feedsFrom_part_iff closed (closed.supplied transform hmem hdrops.kind _ horigin)

end Operation

/-! ## What is found from a write -/

namespace Flow

variable {operation write : Operation} {destination : EndpointField}

/-- The operation is a write of the field, or is found by going back from the origin of an input
that such a write has of its name. -/
def FoundFrom (operations : OperationSet) (destination : EndpointField) (write : Operation)
    (operation : Operation) : Prop :=
  write.kind = .write ∧ ∃ input ∈ matching destination write, operation = write ∨
    ∃ start ∈ operations, start.name = input.origin ∧
      Reached (index operations).back start operation

theorem UniqueNames.mem_contributors_iff (unique : UniqueNames whole) :
    operation ∈ (index whole).contributors destination ↔
      ∃ write ∈ whole, FoundFrom whole destination write operation := by
  rw [mem_contributors]
  simp only [unique.operation?_eq_some]
  constructor
  · rintro (⟨hmem, hkind, input, hinput⟩ |
      ⟨start, ⟨write, hmem, hkind, input, hinput, hstart, hname⟩, hpath⟩)
    · exact ⟨operation, hmem, hkind, input, hinput, .inl rfl⟩
    · exact ⟨write, hmem, hkind, input, hinput, .inr ⟨start, hstart, hname, hpath⟩⟩
  · rintro ⟨write, hmem, hkind, input, hinput, rfl | ⟨start, hstart, hname, hpath⟩⟩
    · exact .inl ⟨hmem, hkind, input, hinput⟩
    · exact .inr ⟨start, ⟨write, hmem, hkind, input, hinput, hstart, hname⟩, hpath⟩

/-- Going back from an operation of the part one stays in the part. -/
theorem ClosedIn.back_iff (closed : ClosedIn part whole) (unique : UniqueNames whole)
    {start : Operation} (hstart : start ∈ part) :
    Reached (index part).back start operation ↔ Reached (index whole).back start operation := by
  have uniquePart := unique.of_subset closed.subset
  constructor
  · intro h
    induction h with
    | refl => exact .refl
    | tail _ hstep ih =>
        obtain ⟨hkind, hmem, horigin⟩ := uniquePart.mem_back_iff.1 hstep
        exact ih.tail (unique.mem_back_iff.2 ⟨hkind, closed.subset _ hmem, horigin⟩)
  · intro h
    -- along the way it is kept that one is in the part
    suffices hboth : operation ∈ part ∧ Reached (index part).back start operation from hboth.2
    induction h with
    | refl => exact ⟨hstart, .refl⟩
    | @tail middle last _ hstep ih =>
        obtain ⟨hmiddle, hpath⟩ := ih
        obtain ⟨hkind, hmem, horigin⟩ := unique.mem_back_iff.1 hstep
        have hlast := closed.supplied middle hmiddle hkind last.name horigin last hmem rfl
        exact ⟨hlast, hpath.tail (uniquePart.mem_back_iff.2 ⟨hkind, hlast, horigin⟩)⟩

theorem foundFrom_part_iff (closed : ClosedIn part whole) (unique : UniqueNames whole)
    (hsupplied : ∀ input ∈ matching destination write, Supplies part whole input.origin) :
    FoundFrom part destination write operation ↔ FoundFrom whole destination write operation := by
  refine and_congr_right fun _ => exists_congr fun input => and_congr_right fun hinput =>
    or_congr_right ?_
  exact (hsupplied input hinput).exists_iff closed.subset fun start hstart =>
    closed.back_iff unique hstart

/-! ## What is found from a read -/

/-- The operation is a read that produces the field, or it is one that consumes the field of such
a read, or has one upstream. -/
def Uses (operations : OperationSet) (source : EndpointField) (operation : Operation) : Prop :=
  (operation.kind = .read ∧ produces source operation = true) ∨
  ∃ user, operation.Upstream operations user ∧ ∃ read ∈ operations, read.kind = .read ∧
    produces source read = true ∧ (⟨read.name, source.field⟩ : FieldRef) ∈ user.inputs

theorem mem_dependents_iff {source : EndpointField} :
    operation ∈ (index whole).dependents source ↔
      operation ∈ whole ∧ Uses whole source operation := by
  rw [mem_dependents]
  constructor
  · rintro (⟨hmem, hread⟩ | ⟨user, ⟨read, hread, hkind, hproduces, huser, hinput⟩, hpath⟩)
    · exact ⟨hmem, .inl hread⟩
    · obtain ⟨hmem, hupstream⟩ := (ahead_iff_upstream huser).1 hpath
      exact ⟨hmem, .inr ⟨user, hupstream, read, hread, hkind, hproduces, hinput⟩⟩
  · rintro ⟨hmem, hread | ⟨user, hupstream, read, hread, hkind, hproduces, hinput⟩⟩
    · exact .inl ⟨hmem, hread⟩
    · have huser := hupstream.mem hmem
      exact .inr ⟨user, ⟨read, hread, hkind, hproduces, huser, hinput⟩,
        (ahead_iff_upstream huser).2 ⟨hmem, hupstream⟩⟩

theorem uses_part_iff (closed : ClosedIn part whole)
    (hsupplied : ∀ origin ∈ operation.origins, Supplies part whole origin)
    {source : EndpointField} : Uses part source operation ↔ Uses whole source operation := by
  refine or_congr_right ?_
  constructor
  · rintro ⟨user, hupstream, read, hread, huse⟩
    exact ⟨user, hupstream.of_part closed, read, closed.subset read hread, huse⟩
  · rintro ⟨user, hupstream, read, hread, hkind, hproduces, hinput⟩
    obtain ⟨hpart, huser⟩ := hupstream.in_part closed hsupplied
    have horigin := Operation.mem_origins.2 ⟨_, hinput, rfl⟩
    exact ⟨user, hpart, read, huser read.name horigin read hread rfl, hkind, hproduces, hinput⟩

end Flow

end Lineage
