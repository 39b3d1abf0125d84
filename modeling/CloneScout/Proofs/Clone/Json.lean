import CloneScout.Proofs.Clone.Report
import CloneScout.Proofs.Json.Written

/-!
# What the JSON report says

The JSON report is read as a document: what is said about the run, the table of files, the groups of
each kind with a record for each member, and the names of the entries of these records.
-/

namespace CloneScout

namespace Report

open Json

/-! ## Layout -/

section

variable {α : Type} {item : Nat → Text → Option (α × Text)} {close : UInt8} {as : List α}
  {ts : List Text} {w e t : Text} {v : Json}

theorem body_commaLines (hskips : Skips item close) (h : List.Forall₂ (Reads item) as ts) :
    Body (Reads item) as (commaLines ts) := by
  have hblank : Blank (utf8 "\n") := by decide
  have hlines (l : Text) (ls : List Text) :
      commaLines (l :: ls) = Text.join (utf8 ",\n") (l :: ls) ++ utf8 "\n" := by
    induction ls generalizing l with
    | nil => rfl
    | cons m ls ih => simp only [commaLines, Text.join, ih, List.append_assoc]
  cases h with
  | nil => exact .inr ⟨rfl, by simp [commaLines, Blank]⟩
  | cons ha h =>
    rw [hlines]
    exact (Body.join hskips hblank (.cons ha h)).before hblank

/-- An array over several lines. -/
theorem reads_arrayLines {vs : List Json} (h : List.Forall₂ (Reads value) vs ts) (hw : Blank w)
    (he : e = w ++ utf8 "]") :
    Reads value (.array vs) (utf8 "[\n" ++ commaLines ts ++ e) := by
  have hbody : Body (Reads value) vs (utf8 "\n" ++ commaLines ts ++ w) :=
    ((body_commaLines skips_value h).after skips_value (by decide)).before hw
  have hread := reads_array hbody
  rw [he]
  simp only [List.append_assoc, List.cons_append] at hread ⊢
  exact hread

/-- An object over several lines. -/
theorem reads_objectLines {ms : List (Text × Json)} (h : List.Forall₂ (Reads memberValue) ms ts)
    (hw : Blank w) (he : e = w ++ utf8 "\x7d") :
    Reads value (.object ms) (utf8 "\x7b\n" ++ commaLines ts ++ e) := by
  have hbody : Body (Reads memberValue) ms (utf8 "\n" ++ commaLines ts ++ w) :=
    ((body_commaLines skips_memberValue h).after skips_memberValue (by decide)).before hw
  have hread := reads_object hbody
  rw [he]
  simp only [List.append_assoc, List.cons_append] at hread ⊢
  exact hread

/-- An array on one line. -/
theorem reads_inline {vs : List Json} (h : List.Forall₂ (Reads value) vs ts) :
    Reads value (.array vs) (inline ts) :=
  reads_array (Body.join skips_value (w := utf8 " ") (by decide) h)

theorem reads_field (name : String) (h : Reads value v t) :
    Reads memberValue (utf8 name, v) (field name t) := by
  have hread := reads_member (utf8 name) (h.after skips_value (w := utf8 " ") (by decide))
  rw [field, List.append_assoc]
  exact hread

end

/-! ## Records -/

/-- The entries of a record behind the number of its file. -/
def Row.values (r : Row) : List Json :=
  [.string r.qualname, .nat r.startLine, .nat r.endLine, .nat r.size] ++ r.counts.map .nat ++
    r.words.map .string

def recordJson (files : List Text) (r : Row) : Json :=
  .array (.nat (files.idxOf r.filepath) :: r.values)

/-- The members of a group in the order of the JSON report. -/
def sortFunctions (rows : List Row) : List Row := rows.mergeSort fun a b => a.byFunction b != .gt

def groupMembers (files : List Text) (gs : Groups Row) : List (Text × Json) :=
  gs.map fun g => (g.1, .array ((sortFunctions g.2).map (recordJson files)))

theorem forall₂_strings (ts : List Text) :
    List.Forall₂ (Reads value) (ts.map .string) (ts.map JsonString.quote) := by
  rw [List.forall₂_map_left_iff, List.forall₂_map_right_iff]
  exact List.forall₂_same.mpr fun t _ => reads_string t

theorem reads_rowJson (files : List Text) (r : Row) :
    Reads value (recordJson files r) (rowJson files r) := by
  have hnats (ns : List Nat) : List.Forall₂ (Reads value) (ns.map .nat) (ns.map Text.ofNat) := by
    rw [List.forall₂_map_left_iff, List.forall₂_map_right_iff]
    exact List.forall₂_same.mpr fun n _ => reads_nat n
  have hfirst : List.Forall₂ (Reads value)
      (.nat (files.idxOf r.filepath) :: .string r.qualname ::
        [r.startLine, r.endLine, r.size].map .nat)
      (Text.ofNat (files.idxOf r.filepath) :: JsonString.quote r.qualname ::
        [r.startLine, r.endLine, r.size].map Text.ofNat) :=
    .cons (reads_nat _) (.cons (reads_string _) (hnats _))
  exact reads_inline
    (List.rel_append (List.rel_append hfirst (hnats r.counts)) (forall₂_strings r.words))

theorem reads_groupJson (files : List Text) (g : Text × List Row) :
    Reads memberValue (g.1, .array ((sortFunctions g.2).map (recordJson files)))
      (groupJson files g) := by
  have hrows : List.Forall₂ (Reads value) ((sortFunctions g.2).map (recordJson files))
      ((sortFunctions g.2).map fun r => utf8 "        " ++ rowJson files r) := by
    rw [List.forall₂_map_left_iff, List.forall₂_map_right_iff]
    exact List.forall₂_same.mpr fun r _ => (reads_rowJson files r).after skips_value (by decide)
  have harray := reads_arrayLines hrows (w := utf8 "      ") (e := utf8 "      ]") (by decide)
    (by decide)
  have hmember := (reads_member g.1 (harray.after skips_value (w := utf8 " ") (by decide))).after
    skips_memberValue (w := utf8 "      ") (by decide)
  have hopen : utf8 ": [\n" = ascii ':' :: (utf8 " " ++ utf8 "[\n") := by decide
  rw [groupJson, hopen]
  simp only [List.append_assoc, List.cons_append] at hmember ⊢
  exact hmember

theorem reads_sectionJson (files : List Text) (title : String) (gs : Groups Row) :
    Reads memberValue (utf8 title, .object (groupMembers files gs)) (sectionJson files title gs) := by
  have hobject : Reads value (.object (groupMembers files gs))
      (if gs.isEmpty then utf8 "\x7b\x7d"
        else utf8 "\x7b\n" ++ commaLines (gs.map (groupJson files)) ++ utf8 "    \x7d") := by
    cases gs with
    | nil => exact reads_object (t := []) (.inr ⟨rfl, by simp [Blank]⟩)
    | cons g gs =>
      have hgroups : List.Forall₂ (Reads memberValue) (groupMembers files (g :: gs))
          ((g :: gs).map (groupJson files)) := by
        rw [groupMembers, List.forall₂_map_left_iff, List.forall₂_map_right_iff]
        exact List.forall₂_same.mpr fun g _ => reads_groupJson files g
      exact reads_objectLines hgroups (w := utf8 "    ") (by decide) (by decide)
  have hmember := (reads_field title hobject).after skips_memberValue (w := utf8 "    ") (by decide)
  have hempty : utf8 ": \x7b\x7d" = utf8 ": " ++ utf8 "\x7b\x7d" := by decide
  have hopen : utf8 ": \x7b\n" = utf8 ": " ++ utf8 "\x7b\n" := by decide
  rw [field] at hmember
  rw [sectionJson, hempty, hopen]
  split at hmember
  next h =>
    rw [if_pos h]
    simpa only [List.append_assoc] using hmember
  next h =>
    rw [if_neg h]
    simpa only [List.append_assoc] using hmember

/-! ## The document -/

def countsJson (functions blocks segments : Nat) : Json :=
  .object [(utf8 "functions", .nat functions), (utf8 "blocks", .nat blocks),
    (utf8 "segments", .nat segments)]

/-- What is said about a run with so many groups of each kind. -/
def metaJson (s : Summary) (functions blocks segments : Nat) : Json :=
  .object [(utf8 "codeclone_version", .string version),
    (utf8 "report_schema_version", .string schemaVersion), (utf8 "root", .string s.root),
    (utf8 "files_found", .nat s.filesFound), (utf8 "files_analyzed", .nat s.filesAnalyzed),
    (utf8 "files_skipped", .nat s.filesSkipped),
    (utf8 "groups_counts", countsJson functions blocks segments)]

theorem reads_summaryJson (s : Summary) (c : Clones) :
    Reads value (metaJson s c.functions.length c.blocks.length c.segments.length)
      (utf8 "\x7b\n" ++ summaryJson s c ++ utf8 "  \x7d") := by
  have hcounts : Reads value
      (countsJson c.functions.length c.blocks.length c.segments.length)
      (utf8 "\x7b" ++ Text.join (utf8 ", ")
      [field "functions" (Text.ofNat c.functions.length),
        field "blocks" (Text.ofNat c.blocks.length),
        field "segments" (Text.ofNat c.segments.length)] ++ utf8 "\x7d") :=
    reads_object (Body.join skips_memberValue (w := utf8 " ") (by decide)
      (.cons (reads_field _ (reads_nat _)) (.cons (reads_field _ (reads_nat _))
        (.cons (reads_field _ (reads_nat _)) .nil))))
  refine reads_objectLines (List.forall₂_map_right_iff.mpr ?_) (w := utf8 "  ") (by decide)
    (by decide)
  have hindent {m : Text × Json} {t : Text} (h : Reads memberValue m t) :
      Reads memberValue m (utf8 "    " ++ t) := h.after skips_memberValue (by decide)
  exact .cons (hindent (reads_field _ (reads_string _)))
    (.cons (hindent (reads_field _ (reads_string _)))
    (.cons (hindent (reads_field _ (reads_string _)))
    (.cons (hindent (reads_field _ (reads_nat _)))
    (.cons (hindent (reads_field _ (reads_nat _)))
    (.cons (hindent (reads_field _ (reads_nat _)))
    (.cons (hindent (reads_field _ hcounts)) .nil))))))

theorem reads_filesJson (files : List Text) :
    Reads value (.array (files.map .string)) (filesJson files) := by
  unfold filesJson
  split
  next h =>
    rw [List.isEmpty_iff.mp h]
    exact reads_array (t := []) (.inr ⟨rfl, by simp [Blank]⟩)
  next h =>
    refine reads_arrayLines (w := utf8 "  ") ?_ (by decide) (by decide)
    rw [List.forall₂_map_left_iff, List.forall₂_map_right_iff]
    exact List.forall₂_same.mpr fun t _ => (reads_string t).after skips_value (by decide)

/-- The names of the entries of records of one kind. -/
def columnsJson (columns : List String) : Json := .array (columns.map fun c => .string (utf8 c))

theorem reads_layoutJson (title : String) (columns : List String) :
    Reads memberValue (utf8 title, columnsJson columns) (layoutJson title columns) := by
  have hnames : List.Forall₂ (Reads value) (columns.map fun c => .string (utf8 c))
      (columns.map fun c => JsonString.quote (utf8 c)) := by
    rw [List.forall₂_map_left_iff, List.forall₂_map_right_iff]
    exact List.forall₂_same.mpr fun c _ => reads_string (utf8 c)
  have hmember := (reads_field title (reads_inline hnames)).after skips_memberValue
    (w := utf8 "    ") (by decide)
  rw [field] at hmember
  rw [columnsJson, layoutJson]
  simpa only [List.append_assoc] using hmember

def functionColumns : List String :=
  ["file_i", "qualname", "start", "end", "loc", "stmt_count", "fingerprint", "loc_bucket"]

def blockColumns : List String := ["file_i", "qualname", "start", "end", "size"]

def segmentColumns : List String :=
  ["file_i", "qualname", "start", "end", "size", "segment_hash", "segment_sig"]

/-- The document that says this about the run, with a table of files and with the members that show
the groups. -/
def document (run : Json) (files : List Text) (functions blocks segments : List (Text × Json)) :
    Json :=
  .object [(utf8 "meta", run), (utf8 "files", .array (files.map .string)),
    (utf8 "groups", .object [(utf8 "functions", .object functions),
      (utf8 "blocks", .object blocks), (utf8 "segments", .object segments)]),
    (utf8 "group_item_layout", .object [(utf8 "functions", columnsJson functionColumns),
      (utf8 "blocks", columnsJson blockColumns), (utf8 "segments", columnsJson segmentColumns)])]

theorem json_eq (s : Summary) (c : Clones) : json s c = utf8 "\x7b\n" ++ commaLines
    [utf8 "  " ++ field "meta" (utf8 "\x7b\n" ++ summaryJson s c ++ utf8 "  \x7d"),
      utf8 "  " ++ field "files" (filesJson c.files),
      utf8 "  " ++ field "groups" (utf8 "\x7b\n" ++ commaLines
        [sectionJson c.files "functions" c.functions, sectionJson c.files "blocks" c.blocks,
          sectionJson c.files "segments" c.segments] ++ utf8 "  \x7d"),
      utf8 "  " ++ field "group_item_layout" (utf8 "\x7b\n" ++ commaLines
        [layoutJson "functions" functionColumns, layoutJson "blocks" blockColumns,
          layoutJson "segments" segmentColumns] ++ utf8 "  \x7d")] ++ utf8 "\x7d\n" := by
  have hmeta : utf8 "  \"meta\": \x7b\n" =
      utf8 "  " ++ (JsonString.quote (utf8 "meta") ++ (utf8 ": " ++ utf8 "\x7b\n")) := by decide
  have hfiles : utf8 "  \"files\": " =
      utf8 "  " ++ (JsonString.quote (utf8 "files") ++ utf8 ": ") := by decide
  have hgroups : utf8 "  \"groups\": \x7b\n" =
      utf8 "  " ++ (JsonString.quote (utf8 "groups") ++ (utf8 ": " ++ utf8 "\x7b\n")) := by decide
  have hlayout : utf8 "  \"group_item_layout\": \x7b\n" =
      utf8 "  " ++ (JsonString.quote (utf8 "group_item_layout") ++ (utf8 ": " ++ utf8 "\x7b\n")) := by
    decide
  have hcomma : utf8 "  \x7d,\n" = utf8 "  \x7d" ++ utf8 ",\n" := by decide
  have hend : utf8 "  \x7d\n" = utf8 "  \x7d" ++ utf8 "\n" := by decide
  unfold json functionColumns blockColumns segmentColumns
  simp only [field, commaLines, hmeta, hfiles, hgroups, hlayout, hcomma, hend, List.append_assoc]

/-- The report is a JSON text, and this is its value. -/
theorem ofText?_json (s : Summary) (c : Clones) :
    ofText? (json s c) = some (document
      (metaJson s c.functions.length c.blocks.length c.segments.length) c.files
      (groupMembers c.files c.functions) (groupMembers c.files c.blocks)
      (groupMembers c.files c.segments)) := by
  have hindent {m : Text × Json} {t : Text} (h : Reads memberValue m t) :
      Reads memberValue m (utf8 "  " ++ t) := h.after skips_memberValue (by decide)
  have hgroups := reads_objectLines (w := utf8 "  ") (e := utf8 "  \x7d")
    (.cons (reads_sectionJson c.files "functions" c.functions)
    (.cons (reads_sectionJson c.files "blocks" c.blocks)
    (.cons (reads_sectionJson c.files "segments" c.segments) .nil))) (by decide) (by decide)
  have hlayout := reads_objectLines (w := utf8 "  ") (e := utf8 "  \x7d")
    (.cons (reads_layoutJson "functions" functionColumns)
    (.cons (reads_layoutJson "blocks" blockColumns)
    (.cons (reads_layoutJson "segments" segmentColumns) .nil))) (by decide) (by decide)
  have hdocument := reads_objectLines (w := []) (e := utf8 "\x7d")
    (.cons (hindent (reads_field "meta" (reads_summaryJson s c)))
    (.cons (hindent (reads_field "files" (reads_filesJson c.files)))
    (.cons (hindent (reads_field "groups" hgroups))
    (.cons (hindent (reads_field "group_item_layout" hlayout)) .nil)))) (by decide) (by decide)
  have hend : utf8 "\x7d\n" = utf8 "\x7d" ++ utf8 "\n" := by decide
  rw [json_eq, hend, ← List.append_assoc]
  exact ofText?_eq (hdocument.before (w := utf8 "\n") (by decide))

/-! ## Items -/

section

variable {α : Type}

/-- An array of entries shows an item at a path when it starts with the number of the path in the
table of files and goes on with the fields of the item, all in the order of the columns. -/
def Shows (files : List Text) (columns : List String) (path : Text) (fields : List (String × Json))
    (record : Json) : Prop :=
  ∃ i, files[i]? = some path ∧ columns = "file_i" :: fields.map Prod.fst ∧
    record = .array (.nat i :: fields.map Prod.snd)

/-- The members of an object show groups: one member under the key of each group, no key twice, and
in each member a record for each item of the group, in some order. -/
structure ShowsGroups (files : List Text) (columns : List String) (path : α → Text)
    (fields : α → List (String × Json)) (gs : Groups α) (members : List (Text × Json)) : Prop where
  nodup_keys : (members.map Prod.fst).Nodup
  groups : List.Forall₂ (fun g m => m.1 = g.1 ∧ ∃ items records, items.Perm g.2 ∧
    m.2 = .array records ∧
      List.Forall₂ (fun a r => Shows files columns (path a) (fields a) r) items records) gs members

theorem showsGroups {files : List Text} {columns : List String} {f : α → Row}
    {fields : α → List (String × Json)} {gs : Groups α}
    (hcolumns : ∀ a, columns = "file_i" :: (fields a).map Prod.fst)
    (hvalues : ∀ a, (f a).values = (fields a).map Prod.snd) (hkeys : gs.keys.Nodup)
    (hfiles : ∀ g ∈ gs, ∀ a ∈ g.2, (f a).filepath ∈ files) :
    ShowsGroups files columns (fun a => (f a).filepath) fields gs
      (groupMembers files (gs.mapMembers (·.map f))) where
  nodup_keys := by
    simpa [groupMembers, Groups.mapMembers, Groups.keys, List.map_map, Function.comp_def] using hkeys
  groups := by
    rw [groupMembers, Groups.mapMembers, List.forall₂_map_right_iff, List.forall₂_map_right_iff]
    refine List.forall₂_same.mpr fun g hg => ⟨rfl, ?_⟩
    -- the sorted rows come from the items in some order
    have hsame : List.Forall₂ (fun r a => r = f a) (g.2.map f) g.2 := by
      rw [List.forall₂_map_left_iff]
      exact List.forall₂_same.mpr fun _ _ => rfl
    obtain ⟨items, hitems, hperm⟩ :=
      List.perm_comp_forall₂ (List.mergeSort_perm (g.2.map f) fun a b => a.byFunction b != .gt) hsame
    have hsorted : sortFunctions (g.2.map f) = items.map f := by
      rw [← List.forall₂_eq_eq_eq]
      exact List.forall₂_map_right_iff.mpr hitems
    refine ⟨items, _, hperm, rfl, ?_⟩
    rw [hsorted, List.forall₂_map_right_iff, List.forall₂_map_right_iff]
    refine List.forall₂_same.mpr fun a ha => ?_
    have hfile := hfiles g hg a (hperm.mem_iff.mp ha)
    exact ⟨_, List.getElem?_idxOf hfile, hcolumns a, by rw [recordJson, hvalues a]⟩

end

def functionFields (u : FunctionUnit) : List (String × Json) :=
  [("qualname", .string u.qualname), ("start", .nat u.startLine), ("end", .nat u.endLine),
    ("loc", .nat u.loc), ("stmt_count", .nat u.stmtCount), ("fingerprint", .string u.fingerprint),
    ("loc_bucket", .string u.bucket)]

def blockFields (b : BlockUnit) : List (String × Json) :=
  [("qualname", .string b.qualname), ("start", .nat b.startLine), ("end", .nat b.endLine),
    ("size", .nat b.size)]

def segmentFields (s : SegmentUnit) : List (String × Json) :=
  [("qualname", .string s.qualname), ("start", .nat s.startLine), ("end", .nat s.endLine),
    ("size", .nat s.size), ("segment_hash", .string s.hash), ("segment_sig", .string s.signature)]

/-- The paths of all members of groups. -/
def paths {α : Type} (path : α → Text) (gs : Groups α) : List Text :=
  (gs.flatMap Prod.snd).map path

theorem exists_row_iff {α : Type} (row : α → Row) (gs : Groups α) (t : Text) :
    (∃ g ∈ gs.mapMembers (·.map row), ∃ r ∈ g.2, r.filepath = t) ↔
      t ∈ paths (fun a => (row a).filepath) gs := by
  unfold Groups.mapMembers paths
  constructor
  · rintro ⟨_, hmem, _, hr, rfl⟩
    obtain ⟨g, hg, rfl⟩ := List.mem_map.mp hmem
    obtain ⟨a, ha, rfl⟩ := List.mem_map.mp hr
    exact List.mem_map.mpr ⟨a, List.mem_flatMap.mpr ⟨g, hg, ha⟩, rfl⟩
  · intro ht
    obtain ⟨a, hmem, rfl⟩ := List.mem_map.mp ht
    obtain ⟨g, hg, ha⟩ := List.mem_flatMap.mp hmem
    exact ⟨_, List.mem_map.mpr ⟨g, hg, rfl⟩, row a, List.mem_map.mpr ⟨a, ha, rfl⟩, rfl⟩

/-- The JSON report is a JSON text for groups of any names, paths and digests, and what it says is
this: the facts about the run with the numbers of groups; the paths of all members in increasing
order without repetition; and of each kind all groups by their keys, each with a record for each
member that has the fields of the member and the number of its path. -/
theorem json_decodes {functions : Groups FunctionUnit} {blocks : Groups BlockUnit}
    {segments : Groups SegmentUnit} (hfunctions : functions.keys.Nodup) (hblocks : blocks.keys.Nodup)
    (hsegments : segments.keys.Nodup) (s : Summary) :
    ∃ files functionMembers blockMembers segmentMembers,
      ofText? (json s (Clones.of functions blocks segments)) =
        some (document (metaJson s functions.length blocks.length segments.length) files
          functionMembers blockMembers segmentMembers) ∧
      Text.Increasing files ∧
      (∀ t, t ∈ files ↔ t ∈ paths (·.filepath) functions ++ paths (·.filepath) blocks ++
        paths (·.filepath) segments) ∧
      ShowsGroups files functionColumns (·.filepath) functionFields functions functionMembers ∧
      ShowsGroups files blockColumns (·.filepath) blockFields blocks blockMembers ∧
      ShowsGroups files segmentColumns (·.filepath) segmentFields segments segmentMembers := by
  let c := Clones.of functions blocks segments
  have hfiles (t : Text) : t ∈ c.files ↔ t ∈ paths (·.filepath) functions ++
      paths (·.filepath) blocks ++ paths (·.filepath) segments := by
    have hfunctions := exists_row_iff Row.ofFunction functions t
    have hblocks := exists_row_iff Row.ofBlock blocks t
    have hsegments := exists_row_iff Row.ofSegment segments t
    rw [mem_files]
    simp only [List.mem_append, or_and_right, exists_or]
    exact or_congr (or_congr hfunctions hblocks) hsegments
  have hmem {α : Type} {path : α → Text} {gs : Groups α}
      (hpaths : ∀ t ∈ paths path gs, t ∈ c.files) : ∀ g ∈ gs, ∀ a ∈ g.2, path a ∈ c.files :=
    fun g hg a ha => hpaths _ (List.mem_map.mpr ⟨a, List.mem_flatMap.mpr ⟨g, hg, ha⟩, rfl⟩)
  have hdocument := ofText?_json s c
  simp only [c, Clones.of, Groups.mapMembers, List.length_map] at hdocument
  refine ⟨c.files, _, _, _, hdocument, increasing_files c, hfiles, ?_, ?_, ?_⟩
  · refine showsGroups (f := Row.ofFunction) (fun _ => rfl) (fun _ => rfl) hfunctions
      (hmem fun t ht => (hfiles t).mpr ?_)
    exact List.mem_append_left _ (List.mem_append_left _ ht)
  · refine showsGroups (f := Row.ofBlock) (fun _ => rfl) (fun _ => rfl) hblocks
      (hmem fun t ht => (hfiles t).mpr ?_)
    exact List.mem_append_left _ (List.mem_append_right _ ht)
  · refine showsGroups (f := Row.ofSegment) (fun _ => rfl) (fun _ => rfl) hsegments
      (hmem fun t ht => (hfiles t).mpr ?_)
    exact List.mem_append_right _ ht

/-- Two functions with names of quotes, control bytes and bytes that are no UTF-8, one of them found
twice, and no other groups. -/
theorem json_decodes_hostile :
    let f (file : Text) (line : Nat) : FunctionUnit :=
      ⟨[34, 92, 0, 31, 127, 255] ++ utf8 "\\u0041", file, line, line + 29, 30, 12, utf8 "1a", []⟩
    let functions : Groups FunctionUnit :=
      [([10], []), (utf8 "1a|", [f [255, 10] 1, f (utf8 "\"a") 7, f [255, 10] 1])]
    functions.keys.Nodup ∧ ∃ files functionMembers blockMembers segmentMembers,
      ofText? (json {} (Clones.of functions [] [])) =
        some (document (metaJson {} 2 0 0) files functionMembers blockMembers segmentMembers) ∧
      Text.Increasing files ∧
      (∀ t, t ∈ files ↔ t ∈ paths (·.filepath) functions ++ paths BlockUnit.filepath [] ++
        paths SegmentUnit.filepath []) ∧
      ShowsGroups files functionColumns (·.filepath) functionFields functions functionMembers ∧
      ShowsGroups files blockColumns (·.filepath) blockFields [] blockMembers ∧
      ShowsGroups files segmentColumns (·.filepath) segmentFields [] segmentMembers := by
  intro f functions
  have hkeys : functions.keys.Nodup := by decide
  have hblocks : (Groups.keys ([] : Groups BlockUnit)).Nodup := List.nodup_nil
  have hsegments : (Groups.keys ([] : Groups SegmentUnit)).Nodup := List.nodup_nil
  exact ⟨hkeys, json_decodes hkeys hblocks hsegments {}⟩

end Report

end CloneScout
