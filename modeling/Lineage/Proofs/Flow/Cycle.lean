import Mathlib.Data.Fintype.Card
import Mathlib.Data.Set.Finite.Basic
import Mathlib.Data.Set.Finite.List
import Mathlib.Logic.Relation
import Mathlib.Order.WellFounded
import Lineage.Proofs.Flow.Order
import Lineage.Proofs.Flow.Tracing

/-!
# Cycles and what they hold up

An operation feeds another one of a list if this one names it as the origin of an
input.  Where operations feed one another in a cycle, these and all that they feed,
at once or through others, hold one another back, so that none of them is ever
placed.  And since a list is finite, operations that hold one another back have such
a cycle upstream (`HoldBack.exists_cycle`): if they had none, some of them would be
fed by none.  So what is stuck in the end is what a cycle holds up
(`mem_stuck_iff_heldUp`).

What an operation that is stuck feeds is stuck as well, so that the residual has for
each of them everything it feeds in the list (`sort_cycle_iff`).
-/

namespace Lineage.Order

open Relation

variable {listed : List Operation} {operation producer consumer : Operation}

/-- One operation of a list is named by another one, or by itself, as the origin of an input. -/
def Feeds (listed : List Operation) (producer consumer : Operation) : Prop :=
  producer ∈ listed ∧ consumer ∈ listed ∧ producer.name ∈ consumer.origins

instance : Decidable (Feeds listed producer consumer) := by unfold Feeds; infer_instance

/-- An operation feeds itself, at once or through others. -/
def OnCycle (listed : List Operation) (operation : Operation) : Prop :=
  TransGen (Feeds listed) operation operation

/-- An operation lies on a cycle, or one that does feeds it, at once or through others. -/
def HeldUp (listed : List Operation) (operation : Operation) : Prop :=
  OnCycle listed operation ∨ ∃ other, OnCycle listed other ∧ TransGen (Feeds listed) other operation

theorem OnCycle.mem (h : OnCycle listed operation) : operation ∈ listed := by
  obtain ⟨_, hfeeds, -⟩ := TransGen.head'_iff.1 h
  exact hfeeds.1

theorem HeldUp.mem (h : HeldUp listed operation) : operation ∈ listed := by
  rcases h with h | ⟨_, -, h⟩
  · exact h.mem
  · obtain ⟨_, -, hfeeds⟩ := TransGen.tail'_iff.1 h
    exact hfeeds.2.1

theorem heldUp_iff : HeldUp listed operation ↔
    ∃ other, OnCycle listed other ∧ ReflTransGen (Feeds listed) other operation := by
  constructor
  · rintro (h | ⟨other, hother, h⟩)
    · exact ⟨operation, h, .refl⟩
    · exact ⟨other, hother, h.to_reflTransGen⟩
  · rintro ⟨other, hother, h⟩
    rcases reflTransGen_iff_eq_or_transGen.1 h with rfl | h
    · exact .inl hother
    · exact .inr ⟨other, hother, h⟩

/-- What is held up is fed by something that is held up: along the cycle, or on the way from it. -/
theorem holdBack_heldUp (listed : List Operation) : HoldBack (HeldUp listed) := by
  rintro operation (h | ⟨other, hother, h⟩)
  · obtain ⟨producer, hbefore, hfeeds⟩ := TransGen.tail'_iff.1 h
    exact ⟨producer, heldUp_iff.2 ⟨operation, h, hbefore⟩, hfeeds.2.2⟩
  · obtain ⟨producer, hbefore, hfeeds⟩ := TransGen.tail'_iff.1 h
    exact ⟨producer, heldUp_iff.2 ⟨other, hother, hbefore⟩, hfeeds.2.2⟩

/-- Of finitely many operations each of which is fed by one of them, one feeds itself. -/
theorem HoldBack.exists_cycle {held : Operation → Prop} (hheld : HoldBack held)
    (hlisted : ∀ other, held other → other ∈ listed) (h : held operation) :
    ∃ other, held other ∧ OnCycle listed other := by
  by_contra hnone
  have : Finite {other // held other} :=
    Set.Finite.subset (List.finite_toSet listed) hlisted
  have : Std.Irrefl fun a b : {other // held other} => TransGen (Feeds listed) a b :=
    ⟨fun a hcycle => hnone ⟨a, a.2, hcycle⟩⟩
  have : IsTrans {other // held other} fun a b => TransGen (Feeds listed) a b :=
    ⟨fun _ _ _ => TransGen.trans⟩
  have hfounded := Finite.wellFounded_of_trans_of_irrefl
    fun a b : {other // held other} => TransGen (Feeds listed) a b
  obtain ⟨first, -, hfirst⟩ := hfounded.has_min Set.univ ⟨⟨operation, h⟩, trivial⟩
  obtain ⟨producer, hproducer, horigin⟩ := hheld first first.2
  exact hfirst ⟨producer, hproducer⟩ trivial
    (.single ⟨hlisted _ hproducer, hlisted _ first.2, horigin⟩)

/-- What is stuck is what a cycle holds up. -/
theorem mem_stuck_iff_heldUp : operation ∈ (place listed).2 ↔ HeldUp listed operation := by
  constructor
  · intro h
    -- those that are stuck and stand upstream of this one hold one another back as well
    have hupstream : HoldBack fun other =>
        other ∈ (place listed).2 ∧ ReflTransGen (Feeds listed) other operation := by
      rintro consumer ⟨hconsumer, hpath⟩
      obtain ⟨producer, hproducer, horigin⟩ := holdBack_stuck listed consumer hconsumer
      exact ⟨producer, ⟨hproducer, hpath.head
        ⟨mem_of_mem_stuck hproducer, mem_of_mem_stuck hconsumer, horigin⟩⟩, horigin⟩
    obtain ⟨other, ⟨-, hpath⟩, hcycle⟩ :=
      hupstream.exists_cycle (fun other hother => mem_of_mem_stuck hother.1) ⟨h, .refl⟩
    exact heldUp_iff.2 ⟨other, hcycle, hpath⟩
  · intro h
    exact (holdBack_heldUp listed).mem_stuck (fun _ => HeldUp.mem) h

theorem HeldUp.feeds (h : HeldUp listed producer) (hfeeds : Feeds listed producer consumer) :
    HeldUp listed consumer := by
  obtain ⟨other, hother, hpath⟩ := heldUp_iff.1 h
  exact heldUp_iff.2 ⟨other, hother, hpath.tail hfeeds⟩

/-! ## Sorting -/

/-- If no name is repeated, only the operations of a list count, in any order. -/
theorem feeds_distinct (hnames : (listed.map (·.name)).Nodup) :
    Feeds (distinct listed) = Feeds listed := by
  funext producer consumer
  simp only [Feeds, mem_distinct_of_nodup hnames]

section

variable (hnames : (listed.map (·.name)).Nodup)
include hnames

theorem mem_stuck_distinct : operation ∈ (place (distinct listed)).2 ↔ HeldUp listed operation := by
  rw [mem_stuck_iff_heldUp]
  unfold HeldUp OnCycle
  rw [feeds_distinct hnames]

theorem stuck_eq_nil_iff :
    (place (distinct listed)).2 = [] ↔ ¬ ∃ operation, OnCycle listed operation := by
  rw [List.eq_nil_iff_forall_not_mem, not_exists]
  simp only [mem_stuck_distinct hnames]
  constructor
  · intro hnone operation h
    exact hnone operation (.inl h)
  · rintro hnone operation (h | ⟨other, h, -⟩)
    · exact hnone operation h
    · exact hnone other h

variable {last : Queue} (fits : last.Fits (place (distinct listed)).2)
include fits

/-- For an operation that is held up, all that it feeds is left waiting, and for no other one
anything. -/
theorem mem_waitingFor_iff {first second : Name} : second ∈ last.waitingFor first ↔
    ∃ producer consumer, HeldUp listed producer ∧ Feeds listed producer consumer ∧
      producer.name = first ∧ consumer.name = second := by
  rw [fits.waiting, Linked]
  simp only [mem_stuck_distinct hnames]
  constructor
  · rintro ⟨a, ha, b, hb, rfl, rfl, horigin⟩
    exact ⟨a, b, ha, ⟨ha.mem, hb.mem, horigin⟩, rfl, rfl⟩
  · rintro ⟨a, b, ha, hfeeds, rfl, rfl⟩
    exact ⟨a, ha, b, ha.feeds hfeeds, rfl, rfl, hfeeds.2.2⟩

theorem mem_waitingFor_name_iff (h : HeldUp listed operation) {other : String} :
    other ∈ (last.waitingFor operation.name).map Name.text ↔
      ∃ consumer, Feeds listed operation consumer ∧ consumer.name.text = other := by
  simp only [SortedSet.mem_map, mem_waitingFor_iff hnames fits]
  constructor
  · rintro ⟨-, ⟨producer, consumer, hproducer, hfeeds, hname, rfl⟩, rfl⟩
    obtain rfl := List.inj_on_of_nodup_map hnames hproducer.mem h.mem hname
    exact ⟨consumer, hfeeds, rfl⟩
  · rintro ⟨consumer, hfeeds, rfl⟩
    exact ⟨_, ⟨operation, consumer, h, hfeeds, rfl, rfl⟩, rfl⟩

/-- What is left as the residual. -/
theorem find?_residual_iff {text : String} {names : SortedSet String} :
    last.residual.find? text = some names ↔
      ∃ operation, operation.name.text = text ∧ HeldUp listed operation ∧
        (∃ consumer, Feeds listed operation consumer) ∧
        ∀ other, other ∈ names ↔
          ∃ consumer, Feeds listed operation consumer ∧ consumer.name.text = other := by
  rw [last.find?_residual]
  constructor
  · rintro ⟨name, rfl, ⟨second, hwaiting⟩, rfl⟩
    obtain ⟨producer, consumer, h, hfeeds, rfl, rfl⟩ :=
      (mem_waitingFor_iff hnames fits).1 hwaiting
    exact ⟨producer, rfl, h, ⟨consumer, hfeeds⟩, fun _ => mem_waitingFor_name_iff hnames fits h⟩
  · rintro ⟨operation, rfl, h, ⟨consumer, hfeeds⟩, hall⟩
    refine ⟨operation.name, rfl, ⟨consumer.name, (mem_waitingFor_iff hnames fits).2
      ⟨operation, consumer, h, hfeeds, rfl, rfl⟩⟩, SortedSet.ext_mem fun other => ?_⟩
    rw [mem_waitingFor_name_iff hnames fits h, hall]

end

/-- If no name is repeated, sorting fails exactly if there is a cycle, and gives an order otherwise.
When it fails, the residual has every operation that a cycle holds up and that feeds another one or
itself, and for it the names of all that it feeds. -/
theorem sort_cycle_iff (listed : List Operation) (hnames : (listed.map (·.name)).Nodup) :
    ((∃ residual, sort listed = .error (.cycle residual)) ↔
      ∃ operation, OnCycle listed operation) ∧
    ((∃ ordered, sort listed = .ok ordered) ↔ ¬ ∃ operation, OnCycle listed operation) ∧
    ∀ residual, sort listed = .error (.cycle residual) → ∀ text names,
      residual.find? text = some names ↔
        ∃ operation, operation.name.text = text ∧ HeldUp listed operation ∧
          (∃ consumer, Feeds listed operation consumer) ∧
          ∀ other, other ∈ names ↔
            ∃ consumer, Feeds listed operation consumer ∧ consumer.name.text = other := by
  obtain ⟨last, fits, hsort⟩ := sort_eq listed
  have hnil := stuck_eq_nil_iff hnames
  rw [hsort]
  split
  · next hall =>
      have hnone := hnil.1 hall
      exact ⟨by simp [hnone], by simp [hnone], fun residual hresidual => by cases hresidual⟩
  · next hstuck =>
      have hcycle := not_not.1 (mt hnil.2 hstuck)
      refine ⟨by simp [hcycle], by simp [hcycle], fun residual hresidual text names => ?_⟩
      cases hresidual
      exact find?_residual_iff hnames fits

namespace Sample

open Flow.Sample

/-- Two transforms that feed one another, with what comes before and after them. -/
def tangled : List Operation := [store, people, clean, count, parse]

theorem parse_onCycle : OnCycle tangled parse :=
  .tail (.single (show Feeds tangled parse clean by decide +kernel)) (by decide +kernel)

theorem feeds_parse {consumer : Operation} : Feeds tangled parse consumer ↔ consumer = clean := by
  constructor
  · intro h
    have hclean : ∀ consumer ∈ tangled, parse.name ∈ consumer.origins → consumer = clean := by
      decide +kernel
    exact hclean consumer h.2.1 h.2.2
  · rintro rfl
    decide +kernel

end Sample

open Flow.Sample in
theorem sort_cycle_sample : (Sample.tangled.map (·.name)).Nodup ∧
    ∃ residual, sort Sample.tangled = .error (.cycle residual) ∧
      residual.find? "parse" = some (.ofList ["clean"]) := by
  have hnames : (Sample.tangled.map (·.name)).Nodup := by decide
  obtain ⟨hcycle, -, hentries⟩ := sort_cycle_iff Sample.tangled hnames
  obtain ⟨residual, hsort⟩ := hcycle.2 ⟨parse, Sample.parse_onCycle⟩
  refine ⟨hnames, residual, hsort, (hentries residual hsort _ _).2 ?_⟩
  refine ⟨parse, rfl, .inl Sample.parse_onCycle, ⟨clean, Sample.feeds_parse.2 rfl⟩, fun other => ?_⟩
  simp only [Sample.feeds_parse, exists_eq_left, SortedSet.mem_ofList, List.mem_singleton]
  exact eq_comm

end Lineage.Order
