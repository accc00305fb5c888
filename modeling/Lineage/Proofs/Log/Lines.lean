import Lineage.Log.Record
import Lineage.Proofs.Json.Trees

/-!
# A log line is one line and is read as it was written

The ASCII layout writes stored data in printable ASCII: what is not printable in a
text is escaped, and an escape is made of a backslash, letters and digits
(`Storable.printable_tree`).  So a line has no line break in it, whatever is in the
texts of its record.

The fields of a record are texts under different names, so the line is read as an
object with these fields (`RawRecord.jsonLine_reads_back`).
-/

namespace Lineage

namespace Json

/-- All characters are printable ASCII, the blank among them. -/
def PrintableAscii (text : List Char) : Prop := ∀ c ∈ text, 0x20 ≤ c.toNat ∧ c.toNat ≤ 0x7E

instance (text : List Char) : Decidable (PrintableAscii text) :=
  List.decidableBAll (fun c : Char => 0x20 ≤ c.toNat ∧ c.toNat ≤ 0x7E) text

@[simp] theorem printableAscii_cons {c : Char} {text : List Char} :
    PrintableAscii (c :: text) ↔ (0x20 ≤ c.toNat ∧ c.toNat ≤ 0x7E) ∧ PrintableAscii text :=
  List.forall_mem_cons

@[simp] theorem printableAscii_append {text more : List Char} :
    PrintableAscii (text ++ more) ↔ PrintableAscii text ∧ PrintableAscii more :=
  List.forall_mem_append

/-! ## Strings -/

theorem printable_hexDigits (width n : Nat) : PrintableAscii (Hex.digits width n) := by
  induction width generalizing n with
  | zero => exact List.forall_mem_nil _
  | succ width ih =>
      have hall : ∀ d < 16, PrintableAscii [Hex.digit d] := by decide
      exact printableAscii_append.2 ⟨ih (n / 16), hall _ (Nat.mod_lt n (by decide))⟩

theorem printable_unitEscape (unit : Nat) : PrintableAscii (unitEscape unit) := by
  have hmark : PrintableAscii ['\\', 'u'] := by decide
  exact printableAscii_append.2 ⟨hmark, printable_hexDigits 4 unit⟩

theorem printable_pointEscape (point : Nat) : PrintableAscii (pointEscape point) := by
  unfold pointEscape
  split
  · exact printable_unitEscape point
  · exact printableAscii_append.2 ⟨printable_unitEscape _, printable_unitEscape _⟩

/-- What stands for a character in the ASCII layout is printable, whatever the character. -/
theorem printable_escape (c : Char) : PrintableAscii (Layout.ascii.escape c) := by
  unfold Layout.escape
  split_ifs with _ _ _ _ _ _ _ hescaped
  -- the escapes by a letter
  any_goals decide
  · exact printable_pointEscape c.toNat
  · rw [not_or] at hescaped
    intro d hd
    rw [List.mem_singleton.1 hd]
    exact ⟨Nat.le_of_not_lt hescaped.1, Nat.le_of_not_lt fun hlarge => hescaped.2 ⟨rfl, hlarge⟩⟩

theorem printable_string (text : String) : PrintableAscii (Layout.ascii.string text) := by
  have hquote : PrintableAscii ['"'] := by decide
  have hbody : PrintableAscii (text.toList.flatMap Layout.ascii.escape) := by
    intro d hd
    obtain ⟨c, -, hc⟩ := List.mem_flatMap.1 hd
    exact printable_escape c d hc
  exact printableAscii_append.2 ⟨hquote, printableAscii_append.2 ⟨hbody, hquote⟩⟩

/-! ## Trees -/

theorem printable_integer (n : Int) : PrintableAscii (integer n) := by
  have hdigits : PrintableAscii (Nat.toDigits 10 n.natAbs) := by
    intro c hc
    have hdigit := isDigit_of_mem_toDigits hc
    simp only [Char.isDigit, Bool.and_eq_true, decide_eq_true_eq] at hdigit
    exact ⟨Nat.le_trans (by decide) hdigit.1, Nat.le_trans hdigit.2 (by decide)⟩
  unfold integer
  split
  · exact printableAscii_cons.2 ⟨by decide, hdigits⟩
  · exact hdigits

theorem printable_restOfList {items : List Value}
    (h : ∀ item ∈ items, PrintableAscii (Layout.ascii.tree item)) :
    PrintableAscii (Layout.ascii.restOfList items) := by
  induction items with
  | nil => decide
  | cons item items ih =>
      have hcomma : PrintableAscii Layout.ascii.comma := by decide
      have hrest := ih fun other hother => h other (List.mem_cons_of_mem item hother)
      simp only [Layout.restOfList, printableAscii_append]
      exact ⟨⟨hcomma, h item List.mem_cons_self⟩, hrest⟩

theorem printable_restOfRecord {fields : List (String × Value)}
    (h : ∀ field ∈ fields, PrintableAscii (Layout.ascii.tree field.2)) :
    PrintableAscii (Layout.ascii.restOfRecord (Value.named fields)) := by
  induction fields with
  | nil => decide
  | cons field fields ih =>
      have hcomma : PrintableAscii Layout.ascii.comma := by decide
      have hcolon : PrintableAscii Layout.ascii.colon := by decide
      have hrest := ih fun other hother => h other (List.mem_cons_of_mem field hother)
      simp only [Value.named_cons, Layout.restOfRecord, printableAscii_append]
      exact ⟨⟨⟨⟨hcomma, printable_string _⟩, hcolon⟩, h field List.mem_cons_self⟩, hrest⟩

/-- In the ASCII layout stored data has only printable characters. -/
theorem Storable.printable_tree {depth : Nat} {value : Value} (h : Storable depth value) :
    PrintableAscii (Layout.ascii.tree value) := by
  induction h with
  | null => decide
  | bool b => cases b <;> decide
  | int n => exact printable_integer n
  | text s => exact printable_string s
  | @list _ items hitems ih =>
      cases items with
      | nil => decide
      | cons item items =>
          have hrest := printable_restOfList fun other hother =>
            ih other (List.mem_cons_of_mem item hother)
          simp only [Layout.tree, printableAscii_cons, printableAscii_append]
          exact ⟨by decide, ih item List.mem_cons_self, hrest⟩
  | @record _ fields hnames hfields ih =>
      cases fields with
      | nil => decide
      | cons field fields =>
          have hcolon : PrintableAscii Layout.ascii.colon := by decide
          have hrest := printable_restOfRecord fun other hother =>
            ih other (List.mem_cons_of_mem field hother)
          simp only [Value.ofFields_eq, Value.named_cons, Layout.tree, printableAscii_cons,
            printableAscii_append]
          exact ⟨by decide, ⟨⟨printable_string _, hcolon⟩, ih field List.mem_cons_self⟩, hrest⟩

end Json

/-! ## Log lines -/

namespace LogRecord

variable (record : LogRecord) (service time : String)

theorem exists_text_of_mem_fields {field : String × Value}
    (h : field ∈ record.fields service time) : ∃ text, field.2 = .text text := by
  simp only [fields, List.mem_append, List.mem_cons, List.not_mem_nil, or_false, Option.mem_toList,
    Option.map_eq_some_iff] at h
  rcases h with (rfl | rfl | rfl | rfl | rfl) | ⟨cause, -, rfl⟩ <;> exact ⟨_, rfl⟩

/-- The fields of a record can be stored, since they are texts under different names. -/
theorem storable_fields (depth : Nat) :
    Json.Storable (depth + 1) (.ofFields (record.fields service time)) := by
  apply Json.Storable.record
  · cases hcause : record.cause <;> simp [fields, hcause]
  · intro field hfield
    obtain ⟨text, htext⟩ := record.exists_text_of_mem_fields service time hfield
    exact htext ▸ .text text

theorem fits_fields (width : Nat) : Json.Fits width (.ofFields (record.fields service time)) := by
  apply Json.fits_ofFields.2
  intro field hfield
  obtain ⟨text, htext⟩ := record.exists_text_of_mem_fields service time hfield
  exact htext ▸ Json.fits_text width text

/-- A line is read as the fields of its record. -/
theorem read?_jsonLine {limits : Json.Limits} (hdepth : 1 ≤ limits.depth) :
    Json.read? limits (record.jsonLine service time) =
      some (.ofFields (record.fields service time)) := by
  obtain ⟨depth, hdepth⟩ := Nat.exists_eq_add_of_le' hdepth
  have hstorable := record.storable_fields service time depth
  rw [← hdepth] at hstorable
  rw [jsonLine, hstorable.read?_write Json.readable_ascii, if_pos (record.fits_fields _ _ _)]

theorem printable_jsonLine : Json.PrintableAscii (record.jsonLine service time).toList := by
  rw [jsonLine, Json.Layout.write, String.toList_ofList]
  exact (record.storable_fields service time 0).printable_tree

end LogRecord

/-- If its time can be written and its message be put together, a record has a line.  This is
printable ASCII, and read as JSON it gives back the texts of the record, whatever they are; every
text is a message without arguments, and every text is that of some cause. -/
theorem RawRecord.jsonLine_reads_back (raw : RawRecord) (service : String) {time message : String}
    (htime : raw.created.text = .ok time)
    (hmessage : Template.apply raw.template raw.arguments = .ok message) :
    ∃ line, raw.jsonLine service = .ok line ∧ Json.PrintableAscii line.toList ∧
      ∀ limits : Json.Limits, 1 ≤ limits.depth → Json.read? limits line = some (.ofFields
        ([("timestamp", .text time), ("level", .text (Text.lowercase raw.level)),
          ("service", .text service), ("logger", .text raw.logger), ("message", .text message)] ++
          (raw.cause.map fun cause => ("exception", Value.text cause.text)).toList)) := by
  let record : LogRecord := ⟨raw.level, raw.logger, message, raw.cause⟩
  refine ⟨record.jsonLine service time, ?_, record.printable_jsonLine service time, ?_⟩
  · simp only [RawRecord.jsonLine, htime, hmessage, record]
  · intro limits hdepth
    exact record.read?_jsonLine service time hdepth

/-- A record whose texts have quotes, line breaks, a control character and one above U+FFFF. -/
def RawRecord.hostile : RawRecord where
  level := "ERROR"
  logger := "a\"b"
  template := "%s\n\",\x7f\\"
  arguments := [.text "😀"]
  created := .ofSeconds 86400
  cause := some (.other "Boom\x00" [.text "\r\n"])

theorem RawRecord.jsonLine_reads_back_sample :
    (RawRecord.hostile.created.text = .ok "1970-01-02T00:00:00+00:00") ∧
    ∃ line, RawRecord.hostile.jsonLine "log\tservice" = .ok line ∧ Json.PrintableAscii line.toList ∧
      Json.read? Json.documentLimits line = some (.ofFields
        [("timestamp", .text "1970-01-02T00:00:00+00:00"), ("level", .text "error"),
          ("service", .text "log\tservice"), ("logger", .text "a\"b"),
          ("message", .text "😀\n\",\x7f\\"), ("exception", .text "Boom\x00: \r\n")]) := by
  have htime : RawRecord.hostile.created.text = .ok "1970-01-02T00:00:00+00:00" := by decide +kernel
  have hmessage : Template.apply RawRecord.hostile.template RawRecord.hostile.arguments =
      .ok "😀\n\",\x7f\\" := by decide +kernel
  obtain ⟨line, hline, hprintable, hread⟩ :=
    RawRecord.jsonLine_reads_back RawRecord.hostile "log\tservice" htime hmessage
  exact ⟨htime, line, hline, hprintable, hread _ (by decide)⟩

end Lineage
