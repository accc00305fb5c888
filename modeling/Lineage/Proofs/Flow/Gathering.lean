import Lineage.Proofs.Flow.Tracing

/-!
# Computations that gather

The summaries are gathered piece by piece: every step keeps what is there and
adds something.  What is there is said by a view, for a set its members and for
a summary the facts that it states (`Summary.Says`).  If every step of a fold
adds what its part brings, the fold adds what some part brings
(`adds_foldlM`).
-/

namespace Lineage

namespace Flow

variable {flow : Flow} {α β ι : Type} {holds : β → ι → Prop} {brings : α → ι → Prop}
  {parts : List α}

/-- Whatever is there, the step does not fail, keeps it and adds exactly what it brings. -/
def Adds (flow : Flow) (holds : β → ι → Prop) (step : β → Tracing β) (brings : ι → Prop) : Prop :=
  ∀ before, ∃ after, flow.Gives (step before) (.ok after) ∧
    ∀ fact, holds after fact ↔ holds before fact ∨ brings fact

theorem adds_pure {others : ι → Prop} (next : β → β)
    (h : ∀ before fact, holds (next before) fact ↔ holds before fact ∨ others fact) :
    flow.Adds holds (fun before => pure (next before)) others :=
  fun before => ⟨next before, gives_pure _, h before⟩

theorem Adds.congr {step : β → Tracing β} {some others : ι → Prop}
    (h : flow.Adds holds step some) (hbrings : ∀ fact, some fact ↔ others fact) :
    flow.Adds holds step others := by
  intro before
  obtain ⟨after, hgives, hafter⟩ := h before
  exact ⟨after, hgives, fun fact => by rw [hafter, hbrings]⟩

/-- A step may first compute something without looking at what is there. -/
theorem Adds.bind {step : α → β → Tracing β} {others : ι → Prop} {computation : Tracing α}
    {value : α} (hvalue : flow.Gives computation (.ok value))
    (h : flow.Adds holds (step value) others) :
    flow.Adds holds (fun before => computation >>= fun value => step value before) others := by
  intro before
  obtain ⟨after, hgives, hafter⟩ := h before
  exact ⟨after, hvalue.bind hgives, hafter⟩

theorem adds_foldlM {step : β → α → Tracing β}
    (h : ∀ part ∈ parts, flow.Adds holds (step · part) (brings part)) :
    flow.Adds holds (parts.foldlM step ·) fun fact => ∃ part ∈ parts, brings part fact := by
  induction parts with
  | nil => exact fun before => ⟨before, gives_pure before, fun fact => by simp⟩
  | cons part rest ih =>
      intro before
      obtain ⟨middle, hstep, hmiddle⟩ := h part (by simp) before
      obtain ⟨after, hrest, hafter⟩ := ih (fun other hother => h other (by simp [hother])) middle
      refine ⟨after, ?_, fun fact => ?_⟩
      · dsimp only
        rw [List.foldlM_cons]
        exact hstep.bind hrest
      · simp [hafter, hmiddle, or_assoc]

theorem holds_foldl (holds : β → ι → Prop) (brings : α → ι → Prop) {step : β → α → β}
    (h : ∀ part ∈ parts, ∀ before fact,
      holds (step before part) fact ↔ holds before fact ∨ brings part fact)
    (before : β) (fact : ι) :
    holds (parts.foldl step before) fact ↔
      holds before fact ∨ ∃ part ∈ parts, brings part fact := by
  induction parts generalizing before with
  | nil => simp
  | cons part rest ih =>
      rw [List.foldl_cons, ih (fun other hother => h other (by simp [hother])), h part (by simp)]
      simp [or_assoc]

end Flow

namespace Summary

/-! ## What a summary says -/

/-- The fields under a key, none if there is no entry. -/
def fieldsOf (summary : Summary) (key : EndpointField) : SortedSet EndpointField :=
  (summary.find? key).getD ∅

/-- A fact that a summary may state. -/
inductive Fact where
  | entry (key : EndpointField)
  | lists (key field : EndpointField)

/-- There is such an entry, or the entry of the key has such a field. -/
def Says (summary : Summary) : Fact → Prop
  | .entry key => key ∈ summary.keys
  | .lists key field => field ∈ summary.fieldsOf key

/-- The facts stated of a key together with one field in its entry. -/
def Fact.IsPair (key field : EndpointField) (fact : Fact) : Prop :=
  fact = .entry key ∨ fact = .lists key field

variable {summary : Summary} {key field : EndpointField} {fact : Fact}

theorem not_says_empty : ¬ Says ∅ fact := by
  cases fact with
  | entry key => simp [Says, SortedMap.mem_keys]
  | lists key field => exact SortedSet.not_mem_empty field

theorem mem_fieldsOf_iff :
    field ∈ summary.fieldsOf key ↔ ∃ fields, summary.find? key = some fields ∧ field ∈ fields := by
  unfold fieldsOf
  cases summary.find? key <;> simp

/-- An entry is empty if the key is there and no field is listed under it. -/
theorem find?_eq_some_empty :
    summary.find? key = some ∅ ↔ key ∈ summary.keys ∧ ∀ field, ¬ field ∈ summary.fieldsOf key := by
  rw [SortedMap.mem_keys, fieldsOf]
  cases hfind : summary.find? key with
  | none => simp
  | some fields =>
      simp only [Option.some.injEq, Option.isSome_some, true_and, Option.getD_some]
      exact ⟨by rintro rfl; simp, fun h => SortedSet.ext_mem fun field => by simp [h]⟩

/-! ## Summaries made of pairs -/

section Pairs

variable {into : EndpointField → EndpointField → Prop}
  (h : ∀ fact, summary.Says fact ↔ ∃ field key, into field key ∧ fact.IsPair key field)
include h

theorem mem_fieldsOf_of_says (key field : EndpointField) :
    field ∈ summary.fieldsOf key ↔ into field key := by
  refine (h (.lists key field)).trans ⟨?_, fun hinto => ⟨field, key, hinto, .inr rfl⟩⟩
  rintro ⟨_, _, hinto, heq | heq⟩ <;> cases heq
  exact hinto

theorem mem_keys_of_says (key : EndpointField) :
    key ∈ summary.keys ↔ ∃ field, into field key := by
  refine (h (.entry key)).trans ⟨?_, fun ⟨field, hinto⟩ => ⟨field, key, hinto, .inl rfl⟩⟩
  rintro ⟨field, _, hinto, heq | heq⟩ <;> cases heq
  exact ⟨field, hinto⟩

end Pairs

/-! ## What the operations on summaries add -/

theorem says_extend {fields : SortedSet EndpointField} :
    (summary.extend key fields).Says fact ↔
      summary.Says fact ∨ fact = .entry key ∨ ∃ field ∈ fields, fact = .lists key field := by
  cases fact with
  | entry other =>
      simp only [Says, SortedMap.mem_keys, extend]
      by_cases hkey : other = key
      · simp [hkey]
      · simp [SortedMap.find?_alter_of_ne _ _ hkey, hkey]
  | lists other field =>
      simp only [Says, fieldsOf, extend]
      by_cases hkey : other = key
      · simp [hkey]
      · simp [SortedMap.find?_alter_of_ne _ _ hkey, hkey]

/-- The inverse lists a key under a field if the summary lists the field under the key. -/
theorem says_inverse :
    summary.inverse.Says fact ↔
      ∃ key field, field ∈ summary.fieldsOf key ∧ fact.IsPair field key := by
  unfold inverse
  rw [Flow.holds_foldl Says fun entry fact => ∃ field ∈ entry.2, fact.IsPair field entry.1]
  · rw [or_iff_right not_says_empty]
    constructor
    · intro hentry
      obtain ⟨⟨key, fields⟩, hmem, field, hfield, hpair⟩ := hentry
      exact ⟨key, field, mem_fieldsOf_iff.2 ⟨fields, summary.mem_toList_iff.1 hmem, hfield⟩, hpair⟩
    · intro hlisted
      obtain ⟨key, field, hfield, hpair⟩ := hlisted
      obtain ⟨fields, hfind, hfield⟩ := mem_fieldsOf_iff.1 hfield
      exact ⟨(key, fields), summary.mem_toList_iff.2 hfind, field, hfield, hpair⟩
  · rintro ⟨key, fields⟩ _ before fact
    exact Flow.holds_foldl Says (fun field fact => fact.IsPair field key)
      (fun field _ before fact => by simp [says_extend, Fact.IsPair]) before fact

end Summary

end Lineage
