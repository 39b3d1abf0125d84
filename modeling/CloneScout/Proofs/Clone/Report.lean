import CloneScout.Clone.Report
import CloneScout.Proofs.Clone.Groups

/-!
# Reports do not depend on the order of records

Records found in another order give similar groups. A report sorts the members of each group by their
place, so nothing is left of the order in which they were found when records of one group and one
place are equal.
-/

namespace CloneScout

/-! ## Places -/

/-- Where a function stands. -/
def FunctionUnit.place (u : FunctionUnit) : Text × Text × Nat × Nat :=
  (u.filepath, u.qualname, u.startLine, u.endLine)

/-- Where a block stands. -/
def BlockUnit.place (b : BlockUnit) : Text × Text × Nat × Nat :=
  (b.filepath, b.qualname, b.startLine, b.endLine)

/-- Where a segment stands. -/
def SegmentUnit.place (s : SegmentUnit) : Text × Text × Nat × Nat :=
  (s.filepath, s.qualname, s.startLine, s.endLine)

/-! ## Blocks -/

instance : Std.TransCmp BlockUnit.cmp :=
  transCmp_then Text.cmp BlockUnit.filepath <| transCmp_then Text.cmp BlockUnit.qualname <|
    transCmp_then natCmp BlockUnit.startLine <| transCmp_on natCmp BlockUnit.endLine

theorem BlockUnit.place_eq_of_cmp {a b : BlockUnit} (h : a.cmp b = .eq) : a.place = b.place := by
  simp only [BlockUnit.cmp, Ordering.then_eq_eq, Std.LawfulEqCmp.compare_eq_iff_eq] at h
  simp [BlockUnit.place, h]

theorem mergeBlocks_eq_of_sortBlocks {bs bs' : List BlockUnit} (h : sortBlocks bs = sortBlocks bs') :
    mergeBlocks bs = mergeBlocks bs' := by
  rw [mergeBlocks, mergeBlocks, h]

/-- Merging starts with sorting, so the order of blocks is lost. -/
theorem reportBlocks_eq_of_similar {gs gs' : Groups BlockUnit} (h : gs.Similar gs')
    (hties : ∀ g ∈ gs, ∀ a ∈ g.2, ∀ b ∈ g.2, a.place = b.place → a = b) :
    reportBlocks gs = reportBlocks gs' := by
  have hsort (g g' : Text × List BlockUnit) (hg : g ∈ gs) (hms : g.2.Perm g'.2) :
      sortBlocks g.2 = sortBlocks g'.2 :=
    mergeSort_eq_of_perm hms fun a ha b hb hab =>
      hties g hg a ha b hb (BlockUnit.place_eq_of_cmp hab)
  unfold Groups.Similar at h
  induction h with
  | nil => rfl
  | @cons g g' gs gs' hg _ ih =>
    obtain ⟨hkey, hms⟩ := hg
    have htail := ih (fun g hg => hties g (List.mem_cons_of_mem _ hg))
      fun g g' hg => hsort g g' (List.mem_cons_of_mem _ hg)
    have hrow := hsort g g' List.mem_cons_self hms
    simp only [reportBlocks, Groups.mapMembers, List.map_cons] at htail ⊢
    rw [htail, hkey, hrow, mergeBlocks_eq_of_sortBlocks hrow]

namespace Report

/-! ## Rows -/

/-- Where the record of a row stands. -/
def Row.place (r : Row) : Text × Text × Nat × Nat := (r.filepath, r.qualname, r.startLine, r.endLine)

instance : Std.TransCmp Row.byLines :=
  transCmp_then Text.cmp Row.filepath <| transCmp_then natCmp Row.startLine <|
    transCmp_then natCmp Row.endLine <| transCmp_on Text.cmp Row.qualname

instance : Std.TransCmp Row.byFunction :=
  transCmp_then Text.cmp Row.filepath <| transCmp_then Text.cmp Row.qualname <|
    transCmp_then natCmp Row.startLine <| transCmp_on natCmp Row.endLine

theorem Row.place_eq_of_byLines {a b : Row} (h : a.byLines b = .eq) : a.place = b.place := by
  simp only [Row.byLines, Ordering.then_eq_eq, Std.LawfulEqCmp.compare_eq_iff_eq] at h
  simp [Row.place, h]

theorem Row.place_eq_of_byFunction {a b : Row} (h : a.byFunction b = .eq) : a.place = b.place := by
  simp only [Row.byFunction, Ordering.then_eq_eq, Std.LawfulEqCmp.compare_eq_iff_eq] at h
  simp [Row.place, h]

/-- Rows of one group and one place are the same. -/
def Tied (gs : Groups Row) : Prop := ∀ g ∈ gs, ∀ a ∈ g.2, ∀ b ∈ g.2, a.place = b.place → a = b

variable {gs gs' : Groups Row}

/-! ## Text -/

def sortLines (rows : List Row) : List Row := rows.mergeSort fun a b => a.byLines b != .gt

theorem length_sortLines (rows : List Row) : (sortLines rows).length = rows.length :=
  List.length_mergeSort _

theorem sortLines_sortLines (rows : List Row) : sortLines (sortLines rows) = sortLines rows := by
  have hsorted : (sortLines rows).Pairwise fun a b => a.byLines b ≠ .gt := pairwise_mergeSort rows
  exact List.mergeSort_of_pairwise (hsorted.imp fun h => by simpa using h)

theorem mapMembers_sortLines_eq (h : gs.Similar gs') (hties : Tied gs) :
    gs.mapMembers sortLines = gs'.mapMembers sortLines := by
  unfold Groups.Similar at h
  induction h with
  | nil => rfl
  | @cons g g' gs gs' hg _ ih =>
    have htail := ih fun g hg => hties g (List.mem_cons_of_mem _ hg)
    have hrows : sortLines g.2 = sortLines g'.2 :=
      mergeSort_eq_of_perm hg.2 fun a ha b hb hab =>
        hties g List.mem_cons_self a ha b hb (Row.place_eq_of_byLines hab)
    simp only [Groups.mapMembers, List.map_cons] at htail ⊢
    rw [htail, hg.1, hrows]

theorem groupText_sortLines (i : Nat) (rows : List Row) :
    groupText i (sortLines rows) = groupText i rows := by
  rw [groupText, groupText, length_sortLines]
  exact congrArg (fun rows : List Row => _ ++ (rows.map rowText).flatten) (sortLines_sortLines rows)

theorem groupTexts_mapMembers (i : Nat) (gs : Groups Row) :
    groupTexts i (gs.mapMembers sortLines) = groupTexts i gs := by
  induction gs generalizing i with
  | nil => rfl
  | cons g gs ih =>
    show groupText i (sortLines g.2) :: groupTexts (i + 1) (Groups.mapMembers sortLines gs) = _
    rw [groupText_sortLines, ih, groupTexts]

theorem bySize_mapMembers (gs : Groups Row) :
    bySize (gs.mapMembers sortLines) = (bySize gs).mapMembers sortLines := by
  refine (List.map_mergeSort fun a _ b _ => ?_).symm
  simp [length_sortLines]

/-- A section shows the rows of each group in the order of their lines. -/
theorem sectionText_mapMembers (title : String) (gs : Groups Row) :
    sectionText title (gs.mapMembers sortLines) = sectionText title gs := by
  rw [sectionText, sectionText, bySize_mapMembers, groupTexts_mapMembers]
  simp [Groups.mapMembers]

theorem sectionText_eq_of_similar (title : String) (h : gs.Similar gs') (hties : Tied gs) :
    sectionText title gs = sectionText title gs' := by
  rw [← sectionText_mapMembers, mapMembers_sortLines_eq h hties, sectionText_mapMembers]

/-! ## Files -/

theorem mem_insertText {s t : Text} {files : List Text} :
    s ∈ insertText t files ↔ s = t ∨ s ∈ files := by
  induction files with
  | nil => simp [insertText]
  | cons u files ih =>
    rw [insertText]
    cases hcmp : Text.cmp t u with
    | lt => simp
    | eq => simp [Std.LawfulEqCmp.eq_of_compare hcmp]
    | gt => simp only [List.mem_cons, ih, or_left_comm]

theorem increasing_insertText (t : Text) {files : List Text} (h : Text.Increasing files) :
    Text.Increasing (insertText t files) := by
  induction files with
  | nil => exact List.pairwise_singleton _ _
  | cons u files ih =>
    obtain ⟨hu, hfiles⟩ := List.pairwise_cons.mp h
    rw [insertText]
    cases hcmp : Text.cmp t u with
    | lt =>
      refine List.pairwise_cons.mpr ⟨fun s hs => ?_, h⟩
      rcases List.mem_cons.mp hs with rfl | hs
      · exact hcmp
      · exact Std.TransCmp.lt_trans hcmp (hu s hs)
    | eq => exact h
    | gt =>
      refine List.pairwise_cons.mpr ⟨fun s hs => ?_, ih hfiles⟩
      rcases mem_insertText.mp hs with rfl | hs
      · exact Std.OrientedCmp.lt_of_gt hcmp
      · exact hu s hs

/-- The table of files is in increasing order, without repetition. -/
theorem increasing_files (c : Clones) : Text.Increasing c.files := by
  have hfold (rows : List Row) : ∀ {files : List Text}, Text.Increasing files →
      Text.Increasing (rows.foldl (fun files r => insertText r.filepath files) files) := by
    induction rows with
    | nil => exact id
    | cons r rows ih => exact fun h => ih (increasing_insertText _ h)
  exact hfold _ .nil

/-- The table of files holds the files of all rows. -/
theorem mem_files {c : Clones} {t : Text} :
    t ∈ c.files ↔ ∃ g ∈ c.functions ++ c.blocks ++ c.segments, ∃ r ∈ g.2, r.filepath = t := by
  have hfold (rows : List Row) : ∀ files : List Text,
      t ∈ rows.foldl (fun files r => insertText r.filepath files) files ↔
        (∃ r ∈ rows, r.filepath = t) ∨ t ∈ files := by
    induction rows with
    | nil => simp
    | cons r rows ih =>
      intro files
      rw [List.foldl_cons, ih, mem_insertText, List.exists_mem_cons_iff, or_left_comm, or_assoc,
        eq_comm]
  rw [Clones.files, hfold]
  simp only [List.mem_flatMap, List.not_mem_nil, or_false]
  constructor
  · rintro ⟨r, ⟨g, hg, hr⟩, rfl⟩
    exact ⟨g, hg, r, hr, rfl⟩
  · rintro ⟨g, hg, r, hr, rfl⟩
    exact ⟨r, ⟨g, hg, hr⟩, rfl⟩

theorem exists_row_of_similar (h : gs.Similar gs') {t : Text}
    (ht : ∃ g ∈ gs, ∃ r ∈ g.2, r.filepath = t) : ∃ g ∈ gs', ∃ r ∈ g.2, r.filepath = t := by
  unfold Groups.Similar at h
  induction h with
  | nil => exact ht
  | @cons g g' gs gs' hg _ ih =>
    rw [List.exists_mem_cons_iff] at ht ⊢
    refine ht.imp (fun hrow => ?_) ih
    simpa only [hg.2.mem_iff] using hrow

/-! ## JSON -/

theorem map_groupJson_eq (files : List Text) (h : gs.Similar gs') (hties : Tied gs) :
    gs.map (groupJson files) = gs'.map (groupJson files) := by
  unfold Groups.Similar at h
  induction h with
  | nil => rfl
  | @cons g g' gs gs' hg _ ih =>
    have hrows : (g.2.mergeSort fun a b => a.byFunction b != .gt) =
        g'.2.mergeSort fun a b => a.byFunction b != .gt :=
      mergeSort_eq_of_perm hg.2 fun a ha b hb hab =>
        hties g List.mem_cons_self a ha b hb (Row.place_eq_of_byFunction hab)
    rw [List.map_cons, List.map_cons, ih fun g hg => hties g (List.mem_cons_of_mem _ hg), groupJson,
      groupJson, hrows, hg.1]

theorem isEmpty_eq_of_similar (h : gs.Similar gs') : gs.isEmpty = gs'.isEmpty := by
  cases h <;> rfl

theorem sectionJson_eq_of_similar (files : List Text) (title : String) (h : gs.Similar gs')
    (hties : Tied gs) : sectionJson files title gs = sectionJson files title gs' := by
  rw [sectionJson, sectionJson, map_groupJson_eq files h hties, isEmpty_eq_of_similar h]

/-! ## Reports -/

/-- The same merged blocks, and similar groups of functions and of segments, in which rows of one
place are the same. -/
structure Clones.Similar (c c' : Clones) : Prop where
  functions : Groups.Similar c.functions c'.functions
  blocks : c.blocks = c'.blocks
  segments : Groups.Similar c.segments c'.segments
  tied : Tied c.functions ∧ Tied c.segments

variable {c c' : Clones}

theorem Clones.Similar.text_eq (h : c.Similar c') (s : Summary) : text s c = text s c' := by
  have hfunctions := sectionText_eq_of_similar "FUNCTION CLONES" h.functions h.tied.1
  have hsegments := sectionText_eq_of_similar "SEGMENT CLONES" h.segments h.tied.2
  unfold text
  rw [hfunctions, h.blocks, hsegments]

theorem Clones.Similar.files_eq (h : c.Similar c') : c.files = c'.files := by
  have hall : Groups.Similar (c.functions ++ c.blocks ++ c.segments)
      (c'.functions ++ c'.blocks ++ c'.segments) := by
    rw [h.blocks]
    exact List.rel_append (List.rel_append h.functions
      (List.forall₂_same.mpr fun _ _ => ⟨rfl, .refl _⟩)) h.segments
  have hall' : Groups.Similar (c'.functions ++ c'.blocks ++ c'.segments)
      (c.functions ++ c.blocks ++ c.segments) :=
    hall.flip.imp fun g g' hg => ⟨hg.1.symm, hg.2.symm⟩
  refine (increasing_files c).eq (increasing_files c') fun t => ?_
  rw [mem_files, mem_files]
  exact ⟨exists_row_of_similar hall, exists_row_of_similar hall'⟩

theorem Clones.Similar.json_eq (h : c.Similar c') (s : Summary) : json s c = json s c' := by
  have hfunctions := sectionJson_eq_of_similar c'.files "functions" h.functions h.tied.1
  have hsegments := sectionJson_eq_of_similar c'.files "segments" h.segments h.tied.2
  unfold json summaryJson
  dsimp only
  rw [h.files_eq, h.functions.length_eq, h.blocks, h.segments.length_eq, hfunctions, hsegments]

/-- Rows made of records show where these stand and all else that the records have. -/
theorem tied_mapMembers {α : Type} {row : α → Row} {gs : Groups α}
    (h : ∀ g ∈ gs, ∀ a ∈ g.2, ∀ b ∈ g.2, (row a).place = (row b).place → a = b) :
    Tied (gs.mapMembers (·.map row)) := by
  intro g hg a ha b hb hplace
  obtain ⟨g, hmem, rfl⟩ := List.mem_map.mp hg
  obtain ⟨a, hmemA, rfl⟩ := List.mem_map.mp ha
  obtain ⟨b, hmemB, rfl⟩ := List.mem_map.mp hb
  rw [h g hmem a hmemA b hmemB hplace]

end Report

/-! ## Records -/

open Report

/-- The report on lists of records, as text and as JSON, is the same byte by byte for the records in
any other order when records of one place and one grouping key are equal. -/
theorem report_eq_of_perm {units units' : List FunctionUnit} {blocks blocks' : List BlockUnit}
    {segments segments' : List SegmentUnit}
    (hunits : ∀ a ∈ units, ∀ b ∈ units, a.place = b.place → a.groupKey = b.groupKey → a = b)
    (hblocks : ∀ a ∈ blocks, ∀ b ∈ blocks, a.place = b.place → a.hash = b.hash → a = b)
    (hsegments : ∀ a ∈ segments, ∀ b ∈ segments,
      a.place = b.place → a.signature = b.signature → a.hash = b.hash → a = b)
    (hunits' : units.Perm units') (hblocks' : blocks.Perm blocks')
    (hsegments' : segments.Perm segments') (minFunctions minOccurrences : Nat) (s : Summary) :
    let c := Clones.of (functionGroups units) (reportBlocks (blockGroups minFunctions blocks))
      (segmentGroups minOccurrences segments)
    let c' := Clones.of (functionGroups units') (reportBlocks (blockGroups minFunctions blocks'))
      (segmentGroups minOccurrences segments')
    Report.text s c = Report.text s c' ∧ Report.json s c = Report.json s c' := by
  intro c c'
  have hfunctions : Tied c.functions := by
    refine tied_mapMembers fun g hg a ha b hb hplace => ?_
    obtain ⟨ha, hakey⟩ := Groups.of_mem_ofList (List.mem_filter.mp hg).1 ha
    obtain ⟨hb, hbkey⟩ := Groups.of_mem_ofList (List.mem_filter.mp hg).1 hb
    exact hunits a ha b hb hplace (hakey.trans hbkey.symm)
  have hmerged : reportBlocks (blockGroups minFunctions blocks) =
      reportBlocks (blockGroups minFunctions blocks') := by
    refine reportBlocks_eq_of_similar (similar_blockGroups minFunctions hblocks')
      fun g hg a ha b hb hplace => ?_
    obtain ⟨ha, hakey⟩ := Groups.of_mem_ofList (List.mem_filter.mp hg).1 ha
    obtain ⟨hb, hbkey⟩ := Groups.of_mem_ofList (List.mem_filter.mp hg).1 hb
    exact hblocks a ha b hb hplace (hakey.trans hbkey.symm)
  have hsegmentRows : Tied c.segments := by
    refine tied_mapMembers fun g hg a ha b hb hplace => ?_
    obtain ⟨ha, hb, hsignature, hhash, -⟩ := of_mem_segmentGroups hg ha hb
    exact hsegments a ha b hb hplace hsignature hhash
  have hsimilar : c.Similar c' :=
    { functions := (similar_functionGroups hunits').mapMembers fun _ _ hms => hms.map _
      blocks := congrArg (·.mapMembers (·.map Row.ofBlock)) hmerged
      segments := (similar_segmentGroups minOccurrences hsegments').mapMembers fun _ _ hms => hms.map _
      tied := ⟨hfunctions, hsegmentRows⟩ }
  exact ⟨hsimilar.text_eq s, hsimilar.json_eq s⟩

/-- Two functions, two blocks of two functions that touch, and two segments of one function, found in
one order and in the other; one function is found twice. -/
theorem report_eq_of_perm_reversed :
    let f (file : String) : FunctionUnit :=
      ⟨utf8 "m:f", utf8 file, 1, 30, 30, 12, utf8 "1a", utf8 "20-49"⟩
    let b (name : String) (line : Nat) : BlockUnit :=
      ⟨utf8 "2b|3c", utf8 "a.py", utf8 name, line, line + 4, 4⟩
    let s (line : Nat) : SegmentUnit :=
      ⟨utf8 "4d", utf8 "5e", utf8 "a.py", utf8 "m:f", line, line + 6, 6⟩
    let units := [f "b.py", f "a.py", f "b.py"]
    let blocks := [b "m:f" 5, b "m:g" 9, b "m:f" 1]
    let segments := [s 7, s 1]
    let c := Clones.of (functionGroups units) (reportBlocks (blockGroups 2 blocks))
      (segmentGroups 2 segments)
    let c' := Clones.of (functionGroups units.reverse)
      (reportBlocks (blockGroups 2 blocks.reverse)) (segmentGroups 2 segments.reverse)
    (∀ a ∈ units, ∀ b ∈ units, a.place = b.place → a.groupKey = b.groupKey → a = b) ∧
      (∀ a ∈ blocks, ∀ b ∈ blocks, a.place = b.place → a.hash = b.hash → a = b) ∧
      (∀ a ∈ segments, ∀ b ∈ segments,
        a.place = b.place → a.signature = b.signature → a.hash = b.hash → a = b) ∧
      Report.text {} c = Report.text {} c' ∧ Report.json {} c = Report.json {} c' := by
  intro f b s units blocks segments c c'
  have hunits : ∀ a ∈ units, ∀ b ∈ units, a.place = b.place → a.groupKey = b.groupKey → a = b := by
    decide +kernel
  have hblocks : ∀ a ∈ blocks, ∀ b ∈ blocks, a.place = b.place → a.hash = b.hash → a = b := by
    decide +kernel
  have hsegments : ∀ a ∈ segments, ∀ b ∈ segments,
      a.place = b.place → a.signature = b.signature → a.hash = b.hash → a = b := by
    decide +kernel
  exact ⟨hunits, hblocks, hsegments,
    report_eq_of_perm hunits hblocks hsegments (List.reverse_perm units).symm
      (List.reverse_perm blocks).symm (List.reverse_perm segments).symm 2 2 {}⟩

end CloneScout
