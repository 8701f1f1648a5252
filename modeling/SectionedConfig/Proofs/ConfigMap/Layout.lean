import SectionedConfig.Proofs.ConfigMap.RoundTrip

/-!
# The layout of encoded maps

The text of a map can be said without documents, tokens or cursors: the lines of the header behind
number signs, and one block for each section with one line for each field, both in increasing
order. The order in which entries were inserted into the map leaves no trace in it.
-/

namespace SectionedConfig

open Text

/-- A value behind an equals sign. -/
def Value.writtenText : Value → String
  | int64 number => toString number.toInt
  | string text => "\"" ++ text ++ "\""
  | list items => "[" ++ ", ".intercalate (items.map fun item ↦ "\"" ++ item ++ "\"") ++ "]"
  | emptyList => "[]"

namespace ConfigMap

/-- A line of a header behind a number sign, without the white space around it. -/
def remarkText (line : List Char) : String :=
  if Blank line then "#\n" else "# " ++ String.ofList (trim line) ++ "\n"

/-- The lines of a header. -/
def headerText (header : Option String) : String :=
  header.elim "" fun text ↦
    String.join ((Line.cut '\n' text.toList).map fun line ↦ remarkText line.content)

/-- The line of a field. -/
def fieldText (field : String × Value) : String :=
  "\t" ++ field.1 ++ " = " ++ field.2.writtenText ++ "\n"

/-- A section with the lines of its fields. -/
def blockText (block : String × List (String × Value)) : String :=
  block.1 ++ " \x7b\n" ++ String.join (block.2.map fieldText) ++ "\x7d\n"

end ConfigMap

theorem Value.toList_writtenText (value : Value) :
    value.writtenText.toList = value.form.written := by
  cases value with
  | int64 number =>
    rw [writtenText, form, ValueForm.written, Decimal.write]
    generalize number.toInt = n
    cases n <;> simp [toString, Int.repr, Nat.repr]
  | string text => simp [writtenText, form, ValueForm.written]
  | list items => rfl
  | emptyList => rfl

namespace Sheet

/-- Lines with these clauses are written as the text. `inside` and `after` say whether the last
brace opens a section, in front of the lines and behind them. -/
structure WrittenAs (inside : Bool) (clauses : List Clause) (text : String) (after : Bool) :
    Prop where
  text_eq : (contentsOf inside clauses).flatMap (· ++ ['\n']) = text.toList
  after_eq : inSection inside clauses = after

namespace WrittenAs

variable {inside between after : Bool} {first second : List Clause} {text text' : String}

theorem nil (inside : Bool) : WrittenAs inside [] "" inside := ⟨rfl, rfl⟩

theorem cons {clause : Clause} (hclause : clause.text ⟨inside, true⟩ ++ ['\n'] = text.toList)
    (hrest : WrittenAs (clause.inSection inside) second text' after) :
    WrittenAs inside (clause :: second) (text ++ text') after where
  text_eq := by rw [contentsOf, List.flatMap_cons, hclause, hrest.text_eq, String.toList_append]
  after_eq := hrest.after_eq

theorem append (h : WrittenAs inside first text between)
    (h' : WrittenAs between second text' after) :
    WrittenAs inside (first ++ second) (text ++ text') after := by
  constructor
  · rw [contentsOf_append, List.flatMap_append, h.text_eq, h.after_eq, h'.text_eq,
      String.toList_append]
  · rw [← h'.after_eq, ← h.after_eq]
    exact List.foldl_append

end WrittenAs

/-- The lines of a header are written as the header, outside any section. -/
theorem writtenAs_headerLines (header : Option String) :
    WrittenAs false (headerLines header) (ConfigMap.headerText header) false := by
  cases header with
  | none => exact .nil false
  | some text =>
    simp only [headerLines, ConfigMap.headerText, Option.elim_some]
    induction Line.cut '\n' text.toList with
    | nil => exact .nil false
    | cons line rest ih =>
      have hline : Clause.text ⟨false, true⟩ (.comment (trim line.content)) ++ ['\n'] =
          (ConfigMap.remarkText line.content).toList := by
        simp only [Clause.text, Clause.remarkText, ConfigMap.remarkText, isEmpty_trim_iff]
        split <;> simp [Layout.Cursor.gap]
      rw [List.map_cons, List.map_cons, String.join_cons]
      exact .cons hline ih

theorem writtenAs_assignmentLines (fields : List (String × Value)) :
    WrittenAs true ((fields.map fun field ↦ (field.1, field.2.form)).map assignmentLine)
      (String.join (fields.map ConfigMap.fieldText)) true := by
  induction fields with
  | nil => exact .nil true
  | cons field rest ih =>
    have hline : (assignmentLine (field.1, field.2.form)).text ⟨true, true⟩ ++ ['\n'] =
        (ConfigMap.fieldText field).toList := by
      simp [assignmentLine, Clause.text, ConfigMap.fieldText, Layout.Cursor.gap,
        Value.toList_writtenText]
    rw [List.map_cons, List.map_cons, List.map_cons, String.join_cons]
    exact .cons hline ih

/-- The lines of a section are written as its block, and the next section starts outside. -/
theorem writtenAs_blockLines (block : String × List (String × Value)) :
    WrittenAs false (blockLines (Index.mapBlock Value.form block)) (ConfigMap.blockText block)
      false := by
  have hopening : Clause.text ⟨false, true⟩ (.opening block.1.toList .blank) ++ ['\n'] =
      (block.1 ++ " \x7b\n").toList := by
    simp [Clause.text]
  have hclosing : WrittenAs true [.closing .blank] "\x7d\n" false := ⟨rfl, rfl⟩
  rw [ConfigMap.blockText, String.append_assoc]
  exact .cons hopening ((writtenAs_assignmentLines block.2).append hclosing)

/-- The sheet of an index is written as the header and the blocks of its sections. -/
theorem text_ofIndex (header : Option String) (index : Index Value) :
    String.ofList (ofIndex header (index.map Value.form)).text =
      ConfigMap.headerText header ++ String.join (index.sections.map ConfigMap.blockText) := by
  have hblocks (blocks : List (String × List (String × Value))) :
      WrittenAs false (blocks.flatMap fun block ↦ blockLines (Index.mapBlock Value.form block))
        (String.join (blocks.map ConfigMap.blockText)) false := by
    induction blocks with
    | nil => exact .nil false
    | cons block rest ih =>
      rw [List.flatMap_cons, List.map_cons, String.join_cons]
      exact (writtenAs_blockLines block).append ih
  have hall := (writtenAs_headerLines header).append (hblocks index.sections)
  apply String.toList_injective
  rw [← hall.text_eq, String.toList_ofList, text, lastContent, ofIndex, Index.sections_map,
    List.flatMap_map]
  exact List.append_nil _

end Sheet

namespace ConfigMap

/-- Maps with the same entries have the same text, whatever the order of the entries. -/
theorem encode_of_perm {map other : ConfigMap} {header : Option String} {text : String}
    (h : map.encode header = .ok text) (hperm : other.entries.Perm map.entries) :
    other.encode header = .ok text := by
  obtain ⟨document, hdocument, _⟩ := bind_eq_ok_iff.mp h
  obtain ⟨index, hindex, _⟩ := bind_eq_ok_iff.mp hdocument
  obtain ⟨hnamed, hentries⟩ := index_spec hindex
  have hsame : other.index = map.index := by
    rw [hindex]
    exact index_eq_ok hnamed fun key value ↦ hperm.mem_iff.trans (hentries key value)
  rw [← h, encode, encode, toDocument, toDocument, hsame]

/-- The text of a map that can be encoded is its header followed by one block for each section. The
sections are in increasing order, and so are the fields of each of them, and they are those of the
keys. A map with the same entries in another order has the same text. -/
theorem exists_blocks_of_encode {map : ConfigMap} {header : Option String} {text : String}
    (h : map.encode header = .ok text) :
    ∃ blocks : List (String × List (String × Value)),
      (blocks.map Prod.fst).Pairwise (· < ·) ∧
      (∀ block ∈ blocks, block.2 ≠ [] ∧ (block.2.map Prod.fst).Pairwise (· < ·)) ∧
      (∀ entry ∈ map.entries, ∃ sectionName field, entry.1 = composeKey sectionName field) ∧
      (∀ sectionName field value,
        (∃ fields, (sectionName, fields) ∈ blocks ∧ (field, value) ∈ fields) ↔
          (composeKey sectionName field, value) ∈ map.entries) ∧
      text = headerText header ++ String.join (blocks.map blockText) ∧
      ∀ other : ConfigMap, other.entries.Perm map.entries → other.encode header = .ok text := by
  obtain ⟨document, hdocument, hrender⟩ := bind_eq_ok_iff.mp h
  obtain ⟨index, hindex, hdocument⟩ := bind_eq_ok_iff.mp hdocument
  obtain ⟨hnamed, hentries⟩ := index_spec hindex
  obtain ⟨hnames, hfields⟩ := index.increasing_sections
  have hencode : ∀ field (value : Value) statement, value.encode field = .ok statement →
      value.ReadsBack ∧ statement = .assign field value.form.token :=
    fun _ _ _ ↦ Value.encode_eq_ok
  obtain ⟨_, htext⟩ := eq_text_of_encode hencode hdocument hrender
  refine ⟨index.sections, hnames, fun block hblock ↦ ⟨?_, hfields block hblock⟩, ?_, ?_,
    ?_, fun other ↦ encode_of_perm h⟩
  · obtain ⟨field, hfield⟩ := Index.exists_mem_of_mem_sections hblock
    exact List.ne_nil_of_mem hfield
  · rintro ⟨key, value⟩ hentry
    obtain ⟨place, _, hkey⟩ := (hentries key value).mp hentry
    exact ⟨place.sectionName, place.field, hkey⟩
  · intro sectionName field value
    rw [hentries]
    constructor
    · rintro ⟨fields, hblock, hfield⟩
      exact ⟨⟨sectionName, field⟩, Index.mem_entries_of_mem_sections hblock hfield, rfl⟩
    · rintro ⟨place, hplace, hkey⟩
      obtain rfl := (Place.composeKey_eq_key_iff (hnamed _ hplace)).mp hkey
      rw [← index.flatMap_sections, List.mem_flatMap] at hplace
      obtain ⟨⟨name, fields⟩, hblock, hentry⟩ := hplace
      obtain ⟨other, hother, heq⟩ := List.mem_map.mp hentry
      obtain ⟨⟨rfl, rfl⟩, rfl⟩ := by simpa only [Prod.mk.injEq, Place.mk.injEq] using heq
      exact ⟨fields, hblock, hother⟩
  · rw [htext, Sheet.text_ofIndex]

/-- A section whose name goes on with a hyphen, which comes before the separator of keys, and a
header with an empty line. -/
theorem exists_blocks_of_encode_hyphen :
    ∃ text, encode (some " t\n\n#") (.ofList [("a-b/x", .string "#"), ("a/z", .int64 (-5)),
        ("a/l", .list ["", "q"]), ("a/e", .emptyList)]) = .ok text ∧
      encode (some " t\n\n#") (.ofList [("a/e", .emptyList), ("a/l", .list ["", "q"]),
        ("a-b/x", .string "#"), ("a/z", .int64 (-5))]) = .ok text ∧
      text = "# t\n#\n# #\na \x7b\n\te = []\n\tl = [\"\", \"q\"]\n\tz = -5\n\x7d\n" ++
        "a-b \x7b\n\tx = \"#\"\n\x7d\n" := by
  have hencode : encode (some " t\n\n#") (.ofList [("a-b/x", .string "#"), ("a/z", .int64 (-5)),
      ("a/l", .list ["", "q"]), ("a/e", .emptyList)]) =
        .ok ("# t\n#\n# #\na \x7b\n\te = []\n\tl = [\"\", \"q\"]\n\tz = -5\n\x7d\n" ++
          "a-b \x7b\n\tx = \"#\"\n\x7d\n") := by
    decide +kernel
  obtain ⟨_, _, _, _, _, _, hother⟩ := exists_blocks_of_encode hencode
  exact ⟨_, hencode, hother _ (by decide +kernel), rfl⟩

end ConfigMap

end SectionedConfig
