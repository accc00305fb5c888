import Mathlib.Order.MinMax
import Mathlib.Order.Nat
import Lineage.Flow.Walk
import Lineage.Proofs.Flow.Ledger

/-!
# The walk settles components when they are ready

The open transforms fall into segments, one for each visit under way: the
transform of the visit at the bottom, and above it those that were opened since
and whose own visits have ended without settling them.  Within a segment all
transforms are upstream of one another, and each visit is upstream of the one
around it (`Nested`).

The least place of a visit bounds how far back its segment leads.  Whatever
feeds a transform of the segment and was looked at is settled, or open at that
place or later (`Dealt`); and the transform at that place is upstream of the
visit.  So when a visit ends with its own place, its segment is a component that
is ready, and otherwise its segment joins the one below.

`Invariant.step` carries this along one step of the walk, `Invariant.run` along
all of them.
-/

namespace Lineage.Walk

open Lineage.Flow

variable {flow : Flow} {ledger : Ledger} {opened above below : List Opened} {unfound : List Name}
  {visit parent : Visit} {outer : List Visit} {least place found : Nat} {root name origin : Name}
  {pending : List Name}

/-! ## Segments -/

/-- The transform is settled, or open at this place or later. -/
def Dealt (ledger : Ledger) (opened : List Opened) (least : Nat) (name : Name) : Prop :=
  ledger.Settled name ∨ ∃ other ∈ opened, other.name = name ∧ least ≤ other.place

theorem Dealt.anti (h : Dealt ledger opened least name) (hle : place ≤ least) :
    Dealt ledger opened place name :=
  h.imp id fun ⟨other, hmem, hname, hplace⟩ => ⟨other, hmem, hname, hle.trans hplace⟩

/-- The transforms opened since a visit began (`above`) lead back no further than the least place
of the visit, and there it leads. -/
structure Segment (flow : Flow) (dealt : Nat → Name → Prop) (visit : Visit)
    (above below : List Opened) : Prop where
  least_le : visit.least ≤ visit.place
  back : ∃ other ∈ above ++ visit.toOpened :: below,
    other.place = visit.least ∧ flow.Upstream visit.name other.name
  down : ∀ other ∈ above, flow.Upstream visit.name other.name
  up : ∀ other ∈ above, flow.Upstream other.name visit.name
  feeds : ∀ origin ∈ visit.pending, origin ∈ flow.feeding visit.name
  looked : ∀ origin ∈ flow.feeding visit.name, origin ∈ visit.pending ∨ dealt visit.least origin
  finished : ∀ other ∈ above, ∀ origin ∈ flow.feeding other.name, dealt visit.least origin

/-- The open transforms are the segments of the visits, the innermost first. -/
inductive Nested (flow : Flow) (dealt : Nat → Name → Prop) : List Visit → List Opened → Prop
  | nil : Nested flow dealt [] []
  | cons {visit : Visit} {outer : List Visit} {above below : List Opened} :
      Segment flow dealt visit above below →
      (∀ parent ∈ outer.head?, visit.name ∈ flow.feeding parent.name) →
      Nested flow dealt outer below →
      Nested flow dealt (visit :: outer) (above ++ visit.toOpened :: below)

section Segments

variable {dealt more : Nat → Name → Prop}

theorem Segment.mono (h : Segment flow dealt visit above below)
    (hmore : ∀ least name, dealt least name → more least name) :
    Segment flow more visit above below where
  least_le := h.least_le
  back := h.back
  down := h.down
  up := h.up
  feeds := h.feeds
  looked := fun origin horigin => (h.looked origin horigin).imp_right (hmore _ _)
  finished := fun other hother origin horigin => hmore _ _ (h.finished other hother origin horigin)

theorem Nested.mono (h : Nested flow dealt outer opened)
    (hmore : ∀ least name, dealt least name → more least name) : Nested flow more outer opened := by
  induction h with
  | nil => exact .nil
  | cons segment hfeeds _ ih => exact .cons (segment.mono hmore) hfeeds ih

theorem Nested.of_segment (segment : Segment flow dealt visit above below)
    (hfeeds : ∀ parent ∈ outer.head?, visit.name ∈ flow.feeding parent.name)
    (hrest : Nested flow dealt outer below) (hopened : opened = above ++ visit.toOpened :: below) :
    Nested flow dealt (visit :: outer) opened :=
  hopened ▸ .cons segment hfeeds hrest

theorem Nested.exists_segment (h : Nested flow dealt (visit :: outer) opened) :
    ∃ above below, opened = above ++ visit.toOpened :: below ∧
      Segment flow dealt visit above below ∧
      (∀ parent ∈ outer.head?, visit.name ∈ flow.feeding parent.name) ∧
      Nested flow dealt outer below := by
  generalize hvisits : visit :: outer = visits at h
  cases h with
  | nil => cases hvisits
  | @cons _ _ above below segment hfeeds hrest =>
      cases hvisits
      exact ⟨above, below, rfl, segment, hfeeds, hrest⟩

/-- Every open transform can be followed back to the innermost visit. -/
theorem Nested.upstream (h : Nested flow dealt (visit :: outer) opened) {other : Opened}
    (hother : other ∈ opened) : flow.Upstream other.name visit.name := by
  induction outer generalizing visit opened with
  | nil =>
      obtain ⟨above, below, rfl, segment, -, hrest⟩ := h.exists_segment
      cases hrest
      rcases List.mem_append.1 hother with habove | hself
      · exact segment.up other habove
      · rw [List.mem_singleton.1 hself]
        exact .refl
  | cons parent outer ih =>
      obtain ⟨above, below, rfl, segment, hfeeds, hrest⟩ := h.exists_segment
      rcases List.mem_append.1 hother with habove | hself
      · exact segment.up other habove
      · rcases List.mem_cons.1 hself with rfl | hbelow
        · exact .refl
        · exact (ih hrest hbelow).tail (hfeeds parent rfl)

/-- A visit has looked at a transform once that is dealt with. -/
theorem Segment.looking (h : Segment flow dealt visit above below)
    (hpending : visit.pending = origin :: pending) (hdealt : dealt visit.least origin) :
    Segment flow dealt { visit with pending } above below where
  least_le := h.least_le
  back := h.back
  down := h.down
  up := h.up
  feeds := fun other hother => h.feeds other (hpending ▸ List.mem_cons_of_mem origin hother)
  looked := fun other hother => by
    rcases h.looked other hother with hmem | hother
    · rw [hpending, List.mem_cons] at hmem
      rcases hmem with rfl | hmem
      · exact .inr hdealt
      · exact .inl hmem
    · exact .inr hother
  finished := h.finished

/-- A visit may note the place of an open transform that is upstream of it. -/
theorem Segment.noting (h : Segment flow (Dealt ledger opened) visit above below) {other : Opened}
    (hother : other ∈ above ++ visit.toOpened :: below)
    (hupstream : flow.Upstream visit.name other.name) :
    Segment flow (Dealt ledger opened) (visit.noting other.place) above below where
  least_le := (min_le_left _ _).trans h.least_le
  back := by
    rcases min_choice visit.least other.place with hmin | hmin
    · obtain ⟨known, hknown, hplace, hback⟩ := h.back
      exact ⟨known, hknown, hplace.trans hmin.symm, hback⟩
    · exact ⟨other, hother, hmin.symm, hupstream⟩
  down := h.down
  up := h.up
  feeds := h.feeds
  looked := fun origin horigin =>
    (h.looked origin horigin).imp_right fun hdealt => hdealt.anti (min_le_left _ _)
  finished := fun known hknown origin horigin =>
    (h.finished known hknown origin horigin).anti (min_le_left _ _)

/-- The segment of a visit that has looked at everything and was led back past its own place joins
the segment below. -/
theorem Segment.join {middle : List Opened}
    (hvisit : Segment flow (Dealt ledger opened) visit above (middle ++ parent.toOpened :: below))
    (hpending : visit.pending = []) (hupstream : flow.Upstream visit.name parent.name)
    (hfeeds : visit.name ∈ flow.feeding parent.name)
    (hparent : Segment flow (Dealt ledger opened) parent middle below) :
    Segment flow (Dealt ledger opened) (parent.noting visit.least)
      (above ++ visit.toOpened :: middle) below where
  -- the joined segment leads back to the lower of the two places
  least_le := (min_le_left _ _).trans hparent.least_le
  back := by
    rcases min_choice parent.least visit.least with hmin | hmin
    · obtain ⟨known, hknown, hplace, hback⟩ := hparent.back
      refine ⟨known, ?_, hplace.trans hmin.symm, hback⟩
      rw [List.append_assoc]
      exact List.mem_append_right above (List.mem_cons_of_mem visit.toOpened hknown)
    · obtain ⟨known, hknown, hplace, hback⟩ := hvisit.back
      refine ⟨known, ?_, hplace.trans hmin.symm, hback.head hfeeds⟩
      rw [List.append_assoc]
      exact hknown
  down := fun other hother => by
    rcases List.mem_append.1 hother with habove | hself
    · exact (hvisit.down other habove).head hfeeds
    · rcases List.mem_cons.1 hself with rfl | hmiddle
      · exact .single hfeeds
      · exact hparent.down other hmiddle
  up := fun other hother => by
    rcases List.mem_append.1 hother with habove | hself
    · exact (hvisit.up other habove).trans hupstream
    · rcases List.mem_cons.1 hself with rfl | hmiddle
      · exact hupstream
      · exact hparent.up other hmiddle
  feeds := hparent.feeds
  looked := fun origin horigin =>
    (hparent.looked origin horigin).imp_right fun hdealt => hdealt.anti (min_le_left _ _)
  finished := fun other hother origin horigin => by
    rcases List.mem_append.1 hother with habove | hself
    · exact (hvisit.finished other habove origin horigin).anti (min_le_right _ _)
    · rcases List.mem_cons.1 hself with rfl | hmiddle
      · refine ((hvisit.looked origin horigin).resolve_left ?_).anti (min_le_right _ _)
        simp [hpending]
      · exact (hparent.finished other hmiddle origin horigin).anti (min_le_left _ _)

end Segments

/-! ## The invariant -/

/-- What holds of the open transforms whatever the visits are: places go down the list, and each
transform is settled, open or unfound, and only one of these. -/
structure Tally (flow : Flow) (root : Name) (ledger : Ledger) (unfound : List Name) (found : Nat)
    (opened : List Opened) : Prop where
  sound : flow.Sound ledger
  places : opened.Pairwise fun later earlier => earlier.place < later.place
  place_lt : ∀ other ∈ opened, other.place < found
  mem_iff : ∀ name, name ∈ opened.map Opened.name ++ unfound ↔
    (flow.transform? name).isSome ∧ ¬ ledger.Settled name
  nodup : (opened.map Opened.name ++ unfound).Nodup
  upstream : ∀ other ∈ opened, flow.Upstream root other.name

/-- What every walk from a transform keeps. -/
structure Invariant (flow : Flow) (root : Name) (walk : Walk) : Prop where
  tally : Tally flow root walk.ledger walk.unfound walk.found walk.opened
  nested : Nested flow (Dealt walk.ledger walk.opened) walk.visits walk.opened
  root_found : root ∉ walk.unfound

theorem Tally.start (h : Tally flow root ledger unfound found opened) (hname : name ∈ unfound)
    (hupstream : flow.Upstream root name) :
    Tally flow root ledger (unfound.erase name) (found + 1) (⟨name, found⟩ :: opened) := by
  have hperm : (((⟨name, found⟩ : Opened) :: opened).map Opened.name ++ unfound.erase name).Perm
      (opened.map Opened.name ++ unfound) := by
    refine List.perm_middle.symm.trans (List.Perm.append_left _ ?_)
    exact (List.perm_cons_erase hname).symm
  exact {
    sound := h.sound
    places := List.pairwise_cons.2 ⟨h.place_lt, h.places⟩
    place_lt := by
      intro other hother
      rcases List.mem_cons.1 hother with rfl | hother
      · exact Nat.lt_succ_self found
      · exact (h.place_lt other hother).trans (Nat.lt_succ_self found)
    mem_iff := fun other => hperm.mem_iff.trans (h.mem_iff other)
    nodup := hperm.nodup_iff.2 h.nodup
    upstream := by
      intro other hother
      rcases List.mem_cons.1 hother with rfl | hother
      · exact hupstream
      · exact h.upstream other hother }

/-! ## Looking at a transform -/

theorem place?_eq_none {walk : Walk} (h : walk.place? name = none) :
    ∀ other ∈ walk.opened, other.name ≠ name := by
  simpa [place?] using h

theorem exists_of_place? {walk : Walk} (h : walk.place? name = some place) :
    ∃ other ∈ walk.opened, other.name = name ∧ other.place = place := by
  obtain ⟨other, hfind, rfl⟩ := Option.map_eq_some_iff.1 h
  exact ⟨other, List.mem_of_find?_eq_some hfind, by simpa using List.find?_some hfind, rfl⟩

/-- The visit of a transform that was just opened knows nothing yet. -/
theorem Segment.fresh (flow : Flow) (ledger : Ledger) (name : Name) (found : Nat)
    (below : List Opened) :
    Segment flow (Dealt ledger (⟨name, found⟩ :: below))
      ⟨⟨name, found⟩, found,
        (flow.feeding name).filter fun origin => (ledger.sources? origin).isNone⟩ [] below where
  least_le := le_rfl
  back := ⟨⟨name, found⟩, List.mem_cons_self, rfl, .refl⟩
  down := by simp
  up := by simp
  feeds := fun origin horigin => (List.mem_filter.1 horigin).1
  looked := fun origin horigin => by
    cases hsources : ledger.sources? origin with
    | none => exact .inl (List.mem_filter.2 ⟨horigin, by simp [hsources]⟩)
    | some sources => exact .inr (.inl (by simp [Ledger.Settled, hsources]))
  finished := by simp

theorem Invariant.look {walk : Walk} (h : Invariant flow root walk)
    (hvisits : walk.visits = visit :: outer) (hpending : visit.pending = origin :: pending) :
    Invariant flow root (walk.look flow { visit with pending } outer origin) := by
  have hnested := h.nested
  rw [hvisits] at hnested
  obtain ⟨above, below, hopened, segment, hfeeds, hrest⟩ := hnested.exists_segment
  have horigin : origin ∈ flow.feeding visit.name := segment.feeds origin (by simp [hpending])
  have hself : visit.toOpened ∈ walk.opened := by simp [hopened]
  unfold Walk.look
  split
  case isTrue hunfound =>
    -- the transform is found here, and its visit comes next
    have hmore : ∀ least name, Dealt walk.ledger walk.opened least name →
        Dealt walk.ledger (⟨origin, walk.found⟩ :: walk.opened) least name :=
      fun least name hdealt => hdealt.imp_right fun ⟨other, hother, hname⟩ =>
        ⟨other, List.mem_cons_of_mem _ hother, hname⟩
    have hdealt : Dealt walk.ledger (⟨origin, walk.found⟩ :: walk.opened) visit.least origin :=
      .inr ⟨⟨origin, walk.found⟩, List.mem_cons_self, rfl,
        segment.least_le.trans (h.tally.place_lt visit.toOpened hself).le⟩
    have hlooking := (segment.mono hmore).looking hpending hdealt
    have houter := Nested.of_segment hlooking hfeeds (hrest.mono hmore) hopened
    exact {
      tally := h.tally.start hunfound ((h.tally.upstream visit.toOpened hself).tail horigin)
      nested := .cons (.fresh flow walk.ledger origin walk.found walk.opened)
        (by rintro parent ⟨⟩; exact horigin) houter
      root_found := fun hmem => h.root_found (List.mem_of_mem_erase hmem) }
  case isFalse hfound =>
    split
    · -- the transform is open
      rename_i place hplace
      obtain ⟨other, hother, rfl, rfl⟩ := exists_of_place? hplace
      have hdealt : Dealt walk.ledger walk.opened (visit.noting other.place).least other.name :=
        .inr ⟨other, hother, rfl, min_le_right _ _⟩
      have hnoting := segment.noting (hopened ▸ hother) (.single horigin)
      exact ⟨h.tally, .of_segment (hnoting.looking hpending hdealt) hfeeds hrest hopened,
        h.root_found⟩
    · -- the transform is settled
      rename_i hplace
      have hsettled : walk.ledger.Settled origin := by
        by_contra hnot
        have hmem := (h.tally.mem_iff origin).2
          ⟨transform?_isSome_of_mem_feeding horigin, hnot⟩
        rcases List.mem_append.1 hmem with hmem | hmem
        · obtain ⟨other, hother, hname⟩ := List.mem_map.1 hmem
          exact place?_eq_none hplace other hother hname
        · exact hfound hmem
      exact ⟨h.tally, .of_segment (segment.looking hpending (.inl hsettled)) hfeeds hrest hopened,
        h.root_found⟩

/-! ## Ending a visit -/

/-- The places on both sides of an open transform. -/
theorem places_around (places : (above ++ visit.toOpened :: below).Pairwise
      fun later earlier => earlier.place < later.place) :
    (∀ other ∈ above, visit.place < other.place) ∧ ∀ other ∈ below, other.place < visit.place := by
  obtain ⟨-, hbelow, habove⟩ := List.pairwise_append.1 places
  exact ⟨fun other hother => habove other hother visit.toOpened List.mem_cons_self,
    (List.pairwise_cons.1 hbelow).1⟩

theorem openedBy_eq {walk : Walk} (hopened : walk.opened = above ++ visit.toOpened :: below)
    (places : walk.opened.Pairwise fun later earlier => earlier.place < later.place) :
    walk.openedBy visit = above ++ [visit.toOpened] ∧ walk.openedBefore visit = below := by
  rw [hopened] at places
  obtain ⟨habove, hbelow⟩ := places_around places
  have hsince : ∀ other ∈ above ++ [visit.toOpened], decide (visit.place ≤ other.place) = true := by
    intro other hother
    rcases List.mem_append.1 hother with hother | hother
    · exact decide_eq_true (habove other hother).le
    · rw [List.mem_singleton.1 hother]
      exact decide_eq_true le_rfl
  have hsplit : walk.opened = (above ++ [visit.toOpened]) ++ below := by simp [hopened]
  unfold openedBy openedBefore
  rw [hsplit, List.takeWhile_append_of_pos hsince, List.dropWhile_append_of_pos hsince]
  cases below with
  | nil => simp
  | cons other below =>
      have hother := (hbelow other List.mem_cons_self).not_ge
      simp [hother]

/-- A visit that was led back no further than its own place has a component above it that is
ready. -/
theorem Segment.ready (tally : Tally flow root ledger unfound found opened)
    (hopened : opened = above ++ visit.toOpened :: below)
    (segment : Segment flow (Dealt ledger opened) visit above below)
    (hpending : visit.pending = []) (hleast : visit.least = visit.place) :
    flow.Ready ledger ((above ++ [visit.toOpened]).map Opened.name) := by
  have hopen : ∀ other ∈ above ++ [visit.toOpened], other ∈ opened := by
    intro other hother
    rw [hopened, List.append_cons]
    exact List.mem_append_left below hother
  -- the members are upstream of the visit, and the visit of them
  have htogether : ∀ other ∈ above ++ [visit.toOpened],
      flow.Upstream other.name visit.name ∧ flow.Upstream visit.name other.name := by
    intro other hother
    rcases List.mem_append.1 hother with habove | hself
    · exact ⟨segment.up other habove, segment.down other habove⟩
    · rw [List.mem_singleton.1 hself]
      exact ⟨.refl, .refl⟩
  -- every origin of a member is settled or open no lower than the visit
  have hdealt : ∀ other ∈ above ++ [visit.toOpened], ∀ origin ∈ flow.feeding other.name,
      Dealt ledger opened visit.place origin := by
    intro other hother origin horigin
    rw [← hleast]
    rcases List.mem_append.1 hother with habove | hself
    · exact segment.finished other habove origin horigin
    · rw [List.mem_singleton.1 hself] at horigin
      refine (segment.looked origin horigin).resolve_left ?_
      simp [hpending]
  have hbelow := (places_around (hopened ▸ tally.places)).2
  constructor
  case connected =>
    intro name hname other hother
    obtain ⟨first, hfirst, rfl⟩ := List.mem_map.1 hname
    obtain ⟨second, hsecond, rfl⟩ := List.mem_map.1 hother
    exact (htogether first hfirst).1.trans (htogether second hsecond).2
  case closed =>
    intro name hname origin horigin
    obtain ⟨member, hmember, rfl⟩ := List.mem_map.1 hname
    rcases hdealt member hmember origin horigin with hsettled | ⟨other, hother, rfl, hplace⟩
    · exact .inr hsettled
    · refine .inl (List.mem_map_of_mem ?_)
      rw [hopened, List.append_cons] at hother
      rcases List.mem_append.1 hother with hother | hother
      · exact hother
      · exact absurd hplace (hbelow other hother).not_ge
  case fresh =>
    intro name hname
    obtain ⟨member, hmember, rfl⟩ := List.mem_map.1 hname
    refine ((tally.mem_iff member.name).1 (List.mem_append_left unfound ?_)).2
    exact List.mem_map_of_mem (hopen member hmember)
  case nonempty => simp
  case nodup =>
    have hnodup := (List.nodup_append.1 tally.nodup).1
    rw [hopened, List.append_cons, List.map_append] at hnodup
    exact (List.nodup_append.1 hnodup).1

/-- A visit that was led back past its own place leaves its transforms to the visit around it. -/
theorem Invariant.pass {walk : Walk} (h : Invariant flow root walk)
    (hvisits : walk.visits = visit :: outer) (hpending : visit.pending = [])
    (hleast : visit.least ≠ visit.place) :
    Invariant flow root { walk with visits := handOn visit outer } := by
  have hnested := h.nested
  rw [hvisits] at hnested
  obtain ⟨above, below, hopened, segment, hfeeds, hrest⟩ := hnested.exists_segment
  obtain ⟨habove, -⟩ := places_around (hopened ▸ h.tally.places)
  obtain ⟨known, hknown, hplace, hback⟩ := segment.back
  -- the place that the visit was led back to is below its segment
  have hbelow : known ∈ below := by
    have hlt : known.place < visit.place := hplace ▸ lt_of_le_of_ne segment.least_le hleast
    rcases List.mem_append.1 hknown with hknown | hknown
    · exact absurd (habove known hknown) hlt.not_gt
    · rcases List.mem_cons.1 hknown with rfl | hknown
      · exact absurd hlt (lt_irrefl _)
      · exact hknown
  cases outer with
  | nil =>
      cases hrest
      exact absurd hbelow List.not_mem_nil
  | cons parent outer =>
      have hupstream := hback.trans (hrest.upstream hbelow)
      obtain ⟨middle, bottom, rfl, hparent, hfeedsparent, hbottom⟩ := hrest.exists_segment
      have hjoin := segment.join hpending hupstream (hfeeds parent rfl) hparent
      exact ⟨h.tally, .of_segment hjoin hfeedsparent hbottom (by simp [hopened, Visit.noting]),
        h.root_found⟩

theorem Tally.close {segment : List Opened} {sources : SortedSet EndpointField}
    (h : Tally flow root ledger unfound found opened) (hopened : opened = segment ++ below)
    (sound : flow.Sound (⟨segment.map Opened.name, sources⟩ :: ledger)) :
    Tally flow root (⟨segment.map Opened.name, sources⟩ :: ledger) unfound found below := by
  subst hopened
  have hnodup := h.nodup
  rw [List.map_append, List.append_assoc] at hnodup
  have hapart := (List.nodup_append.1 hnodup).2.2
  exact {
    sound
    places := (List.pairwise_append.1 h.places).2.1
    place_lt := fun other hother => h.place_lt other (List.mem_append_right segment hother)
    mem_iff := fun name => by
      have hiff := h.mem_iff name
      rw [List.map_append, List.append_assoc, List.mem_append] at hiff
      rw [Ledger.settled_cons, not_or]
      constructor
      · intro hmem
        obtain ⟨htransform, hsettled⟩ := hiff.1 (.inr hmem)
        exact ⟨htransform, fun hname => hapart name hname name hmem rfl, hsettled⟩
      · rintro ⟨htransform, hname, hsettled⟩
        exact (hiff.2 ⟨htransform, hsettled⟩).resolve_left hname
    nodup := (List.nodup_append.1 hnodup).2.1
    upstream := fun other hother => h.upstream other (List.mem_append_right segment hother) }

/-- A visit that was led back no further than its own place has nothing to hand on. -/
theorem handOn_eq {dealt : Nat → Name → Prop} (hrest : Nested flow dealt outer below)
    (hbelow : ∀ other ∈ below, other.place < visit.place) (hleast : visit.least = visit.place) :
    handOn visit outer = outer := by
  cases outer with
  | nil => rfl
  | cons parent outer =>
      obtain ⟨middle, bottom, rfl, hparent, -, -⟩ := hrest.exists_segment
      have hplace : parent.place < visit.place := hbelow parent.toOpened (by simp)
      have hmin : min parent.least visit.least = parent.least :=
        min_eq_left (hleast ▸ hparent.least_le.trans hplace.le)
      simp [handOn, Visit.noting, hmin]

/-- A visit that was led back no further than its own place settles its component, unless a field
without a source reaches it. -/
theorem Invariant.close {walk : Walk} (h : Invariant flow root walk)
    (hvisits : walk.visits = visit :: outer) (hpending : visit.pending = [])
    (hleast : visit.least = visit.place) :
    (∃ ledger, flow.settle walk.ledger ((walk.openedBy visit).map Opened.name) = .ok ledger ∧
      Invariant flow root
        { walk with ledger, opened := walk.openedBefore visit, visits := handOn visit outer }) ∨
    flow.settle walk.ledger ((walk.openedBy visit).map Opened.name) = .error .missingEndpoint ∧
      ∃ field, flow.Receives root none field := by
  have hnested := h.nested
  rw [hvisits] at hnested
  obtain ⟨above, below, hopened, segment, hfeeds, hrest⟩ := hnested.exists_segment
  have hbelow := (places_around (hopened ▸ h.tally.places)).2
  obtain ⟨hby, hbefore⟩ := openedBy_eq hopened h.tally.places
  rw [hby, hbefore, handOn_eq hrest hbelow hleast]
  have ready := segment.ready h.tally hopened hpending hleast
  rcases h.tally.sound.settle ready with ⟨sources, hsettle, sound⟩ | ⟨hsettle, hreceives⟩
  · refine .inl ⟨_, hsettle, h.tally.close (by simp [hopened]) sound, ?_, h.root_found⟩
    -- what was open in the segment is settled now
    refine hrest.mono fun least name hdealt => ?_
    rcases hdealt with hsettled | ⟨other, hother, rfl, hplace⟩
    · exact .inl (Ledger.settled_cons.2 (.inr hsettled))
    · rw [hopened, List.append_cons] at hother
      rcases List.mem_append.1 hother with hother | hother
      · exact .inl (Ledger.settled_cons.2 (.inl (List.mem_map_of_mem hother)))
      · exact .inr ⟨other, hother, rfl, hplace⟩
  · have hself : visit.toOpened ∈ walk.opened := by simp [hopened]
    obtain ⟨field, hfield⟩ := hreceives visit.name (by simp)
    exact .inr ⟨hsettle, field, .of_upstream (h.tally.upstream visit.toOpened hself) hfield⟩

/-! ## One step and a whole walk -/

/-- A step keeps the invariant.  It fails only if a field without a source reaches the root. -/
theorem Invariant.step {walk : Walk} (h : Invariant flow root walk)
    (hvisits : walk.visits = visit :: outer) :
    (∃ next, walk.step flow = .ok next ∧ Invariant flow root next) ∨
      walk.step flow = .error .missingEndpoint ∧ ∃ field, flow.Receives root none field := by
  simp only [Walk.step, hvisits]
  cases hpending : visit.pending with
  | cons origin pending => exact .inl ⟨_, rfl, h.look hvisits hpending⟩
  | nil =>
      simp only [leave]
      split
      case isFalse hleast => exact .inl ⟨_, rfl, h.pass hvisits hpending hleast⟩
      case isTrue hleast =>
        rcases h.close hvisits hpending hleast with ⟨ledger, hsettle, hnext⟩ | ⟨hsettle, hfield⟩
        · exact .inl ⟨_, by rw [hsettle]; rfl, hnext⟩
        · exact .inr ⟨by rw [hsettle]; rfl, hfield⟩

/-- A walk that is over has settled its root. -/
theorem Invariant.settled {walk : Walk} (h : Invariant flow root walk) (hvisits : walk.visits = [])
    (hroot : (flow.transform? root).isSome) : walk.ledger.Settled root := by
  have hnested := h.nested
  rw [hvisits] at hnested
  generalize hopened : walk.opened = opened at hnested
  cases hnested
  by_contra hnot
  have hmem := (h.tally.mem_iff root).2 ⟨hroot, hnot⟩
  rw [hopened] at hmem
  exact h.root_found hmem

/-- A walk to the end leaves a sound ledger, in which its root is settled, unless a field without a
source reaches the root. -/
theorem Invariant.run {walk : Walk} (h : Invariant flow root walk)
    (hroot : (flow.transform? root).isSome) :
    flow.Sound (walk.run flow).2 ∧
      ((walk.run flow).1 = .ok () ∧ (walk.run flow).2.Settled root ∨
        (walk.run flow).1 = .error .missingEndpoint ∧ ∃ field, flow.Receives root none field) := by
  fun_induction Walk.run flow walk with
  | case1 walk hvisits => exact ⟨h.tally.sound, .inl ⟨rfl, h.settled hvisits hroot⟩⟩
  | case2 walk visit outer hvisits next hstep ih =>
      rcases h.step hvisits with ⟨reached, hreached, hnext⟩ | ⟨hfault, -⟩
      · rw [hstep, Except.ok.injEq] at hreached
        exact ih (hreached ▸ hnext)
      · simp [hstep] at hfault
  | case3 walk visit outer hvisits found hstep =>
      rcases h.step hvisits with ⟨reached, hreached, -⟩ | ⟨hfault, hfield⟩
      · simp [hstep] at hreached
      · rw [hstep, Except.error.injEq] at hfault
        exact ⟨h.tally.sound, .inr ⟨by rw [hfault], hfield⟩⟩

/-- The walk from a transform that is not settled starts with the invariant. -/
theorem invariant_initial (sound : flow.Sound ledger) (hname : (flow.transform? name).isSome)
    (hunsettled : ¬ ledger.Settled name) :
    Invariant flow name (Walk.initial flow ledger name) := by
  let unsettled := flow.byName.keys.filter fun name =>
    (flow.transform? name).isSome && (ledger.sources? name).isNone
  have hmem (other : Name) : other ∈ unsettled.toList ↔
      (flow.transform? other).isSome ∧ ¬ ledger.Settled other := by
    rw [← SortedSet.mem_def, SortedSet.mem_filter, SortedMap.mem_keys, Bool.and_eq_true,
      Option.isNone_iff_eq_none, Ledger.not_settled_iff]
    refine and_iff_right_of_imp fun ⟨htransform, _⟩ => ?_
    obtain ⟨transform, hfound⟩ := Option.isSome_iff_exists.1 htransform
    exact Option.isSome_iff_exists.2 ⟨transform, (transform?_eq_some.1 hfound).1⟩
  have hstart : Tally flow name ledger unsettled.toList 0 [] := {
    sound
    places := .nil
    place_lt := by simp
    mem_iff := hmem
    nodup := unsettled.nodup_toList
    upstream := by simp }
  -- the first visit is that of the transform itself
  have hfound : name ∈ unsettled.toList := (hmem name).2 ⟨hname, hunsettled⟩
  exact {
    tally := hstart.start hfound .refl
    nested := .of_segment (.fresh flow ledger name 0 []) (by simp) .nil rfl
    root_found := unsettled.nodup_toList.not_mem_erase }

end Lineage.Walk
