import CloneScout.Proofs.Text.Removal
import CloneScout.Proofs.Tree.Document

/-!
# The stable form of a document

Taking the bytes `, keywords=[]` out of the text of a document leaves the text of a document again:
the one without empty lists of keyword arguments, with the same bytes taken out of its texts and
byte strings. Nowhere else does a comma start them.
-/

namespace CloneScout.Document

open Text (emptyKeywords join_map_cons pruned pruned_append_of_not_mem)

theorem comma_not_mem_of_isBare {t : Text} (h : t.IsBare) : ascii ',' ∉ t :=
  fun hmem => absurd (h.2 _ hmem) (by decide)

/-! ## Behind a comma -/

/-- Behind a comma the key goes on with a word and an equals sign. -/
theorem eq_of_prefix {w t : Text} (hw : ∀ b ∈ w, Text.isWordByte b = true) (ht : t.Breaks)
    (h : emptyKeywords <+: utf8 ", " ++ (w ++ t)) : w = utf8 "keywords" ∧ utf8 "=[]" <+: t := by
  obtain ⟨r, hr⟩ := h
  have hkey : emptyKeywords = utf8 ", " ++ (utf8 "keywords" ++ utf8 "=[]") := by decide
  rw [hkey, List.append_assoc, List.append_assoc] at hr
  have hbreak : (utf8 "=[]" ++ r).Breaks := Text.breaks_cons (by decide)
  obtain ⟨hword, hrest⟩ := Text.word_append_inj (by decide) hw hbreak ht
    (List.append_cancel_left hr)
  exact ⟨hword.symm, r, hrest⟩

theorem pruned_comma {t : Text} (h : ¬ emptyKeywords <+: utf8 ", " ++ t) :
    pruned (utf8 ", " ++ t) = utf8 ", " ++ pruned t := by
  have hspace : pruned (ascii ' ' :: t) = ascii ' ' :: pruned t :=
    pruned_append_of_not_mem (s := [ascii ' ']) (by decide) t
  calc
    pruned (utf8 ", " ++ t) = ascii ',' :: pruned (ascii ' ' :: t) :=
      Text.pruned_cons_of_not_prefix h
    _ = utf8 ", " ++ pruned t := by rw [hspace]; rfl

/-- No document has an equals sign behind its first word. -/
theorem pruned_item {gaps : Bool} {d : Document} (hd : d.Readable gaps) {r : Text} (hr : Ends r) :
    pruned (utf8 ", " ++ (d.toText true ++ r)) = utf8 ", " ++ pruned (d.toText true ++ r) := by
  refine pruned_comma fun hstarts => ?_
  rw [toText_eq, List.append_assoc] at hstarts
  obtain ⟨-, s, hs⟩ := eq_of_prefix (isWordByte_word hd) (breaks_rest true d hr) hstarts
  have hform : Form.atom = d.form := by
    rw [← formOf_eq true d hr, ← hs]
    rfl
  cases d with
  | atom t =>
    rw [rest, List.nil_append] at hs
    rcases hr (ascii '=') (by rw [← hs]; rfl) with h | h | h <;> exact absurd h (by decide)
  | _ => exact absurd hform (by simp [form])

/-- Only an empty list starts with both brackets. -/
theorem eq_list_nil {gaps : Bool} {d : Document} (hd : d.Readable gaps) {r : Text} (hr : Ends r)
    (h : utf8 "[]" <+: d.toText true ++ r) : d = .list [] := by
  obtain ⟨s, hs⟩ := h
  rw [toText_eq, List.append_assoc] at hs
  have hbreak : (utf8 "[]" ++ s).Breaks := Text.breaks_cons (by decide)
  obtain ⟨hword, hrest⟩ := Text.word_append_inj (s := []) (by simp) (isWordByte_word hd) hbreak
    (breaks_rest true d hr) hs
  have hform : Form.list = d.form := by
    rw [← formOf_eq true d hr, ← hrest]
    rfl
  cases d with
  | list items =>
    cases items with
    | nil => rfl
    | cons d ds =>
      rw [rest, join_map_cons, List.append_assoc, List.append_assoc, List.append_assoc] at hrest
      have hhead := congrArg List.head? (List.cons.inj hrest).2
      exact absurd hhead.symm (head?_toText hd.1 true (.inr rfl) _)
  | _ => exact absurd hform (by simp [form])

/-- Behind a comma a field is taken out if it is an empty list of keyword arguments. -/
theorem pruned_field {label : String} {v : Document} (hlabel : (utf8 label).IsBare)
    {gaps : Bool} (hv : v.Readable gaps) (hno : isNoKeywords label v = false) {r : Text}
    (hr : Ends r) : pruned (utf8 ", " ++ (fieldText (label, v) ++ r)) =
      utf8 ", " ++ pruned (fieldText (label, v) ++ r) := by
  refine pruned_comma fun hstarts => ?_
  rw [fieldText, List.append_assoc, List.append_assoc] at hstarts
  have hbreak : (utf8 "=" ++ (v.toText true ++ r)).Breaks := Text.breaks_cons (by decide)
  obtain ⟨hname, s, hs⟩ := eq_of_prefix hlabel.2 hbreak hstarts
  have hlist := eq_list_nil hv hr ⟨s, (List.cons.inj hs).2⟩
  rw [utf8_injective hname, hlist] at hno
  exact absurd hno (by decide)

theorem pruned_noKeywords {label : String} {v : Document} (hno : isNoKeywords label v = true)
    (r : Text) : pruned (utf8 ", " ++ (fieldText (label, v) ++ r)) = pruned r := by
  obtain ⟨rfl, rfl⟩ := eq_of_isNoKeywords hno
  have hkey : utf8 ", " ++ (fieldText ("keywords", list []) ++ r) = emptyKeywords ++ r := by
    rw [fieldText, toText_list]
    rfl
  rw [hkey, Text.pruned_key_append]

theorem pruned_fieldText {label : String} (hlabel : (utf8 label).IsBare) (v : Document) (r : Text) :
    pruned (fieldText (label, v) ++ r) =
      utf8 label ++ utf8 "=" ++ pruned (v.toText true ++ r) := by
  rw [fieldText, List.append_assoc, pruned_append_of_not_mem]
  exact comma_not_mem_append (comma_not_mem_of_isBare hlabel) (by decide)

/-! ## The text of the whole -/

/-- The fields that stay. -/
theorem present_shownFields {f : Text → Text} (fs : List (String × Option Document)) :
    present (shownFields f true fs) =
      ((present fs).filter fun g => !isNoKeywords g.1 g.2).map fun g => (g.1, g.2.shown f true) := by
  induction fs with
  | nil => rfl
  | cons g fs ih =>
    obtain ⟨label, o⟩ := g
    cases o with
    | none => exact ih
    | some v =>
      have hpresent : present ((label, some v) :: fs) = (label, v) :: present fs := rfl
      rw [shownFields, hpresent, List.filter_cons, Bool.true_and]
      cases hno : isNoKeywords label v with
      | true => simpa [hno] using ih
      | false => simpa [hno, present] using ih

theorem isNoKeywords_head {fs : List (String × Option Document)} (h : Led fs)
    {g : String × Document} {gs : List (String × Document)} (hfs : present fs = g :: gs) :
    isNoKeywords g.1 g.2 = false := by
  by_cases hkw : g.1 = "keywords"
  · have hmem : g.1 ∈ fs.map Prod.fst := by
      have hg : g ∈ present fs := hfs ▸ List.mem_cons_self
      obtain ⟨x, hx, hxg⟩ := List.mem_filterMap.mp hg
      obtain ⟨v, -, rfl⟩ := Option.map_eq_some_iff.mp hxg
      exact List.mem_map.mpr ⟨x, hx, rfl⟩
    obtain ⟨label, v, rest, rfl, hne⟩ := h (hkw ▸ hmem)
    obtain rfl : (label, v) = g := (List.cons.inj hfs).1
    exact absurd hkw hne
  · exact isNoKeywords_of_ne hkw g.2

/-- The text of the document is pruned whatever stands behind it. -/
def Prunes (d : Document) : Prop :=
  ∀ r : Text, pruned (d.toText true ++ r) = (d.shown pruned true).toText true ++ pruned r

theorem pruned_items {items : List Document} (hitems : AllReadable true items)
    (h : ∀ d ∈ items, Prunes d) (r : Text) :
    pruned (items.flatMap (fun d => utf8 ", " ++ d.toText true) ++ ascii ']' :: r) =
      (shownItems pruned true items).flatMap (fun d => utf8 ", " ++ d.toText true) ++
        ascii ']' :: pruned r := by
  induction items with
  | nil => exact pruned_append_of_not_mem (s := [ascii ']']) (by decide) r
  | cons d items ih =>
    rw [List.flatMap_cons, List.append_assoc, List.append_assoc,
      pruned_item hitems.1 (ends_flatMap r (.inr rfl)), h d List.mem_cons_self,
      ih hitems.2 fun a ha => h a (List.mem_cons_of_mem _ ha), shownItems, List.flatMap_cons,
      List.append_assoc, List.append_assoc]

theorem pruned_fields {gs : List (String × Document)}
    (hgs : ∀ g ∈ gs, (utf8 g.1).IsBare ∧ g.2.Readable true) (h : ∀ g ∈ gs, Prunes g.2) (r : Text) :
    pruned (gs.flatMap (fun g => utf8 ", " ++ fieldText g) ++ ascii ')' :: r) =
      ((gs.filter fun g => !isNoKeywords g.1 g.2).map fun g =>
        (g.1, g.2.shown pruned true)).flatMap (fun g => utf8 ", " ++ fieldText g) ++
        ascii ')' :: pruned r := by
  induction gs with
  | nil => exact pruned_append_of_not_mem (s := [ascii ')']) (by decide) r
  | cons g gs ih =>
    obtain ⟨label, v⟩ := g
    obtain ⟨hlabel, hv⟩ := hgs _ List.mem_cons_self
    have hrest := ih (fun g hg => hgs g (List.mem_cons_of_mem _ hg))
      fun g hg => h g (List.mem_cons_of_mem _ hg)
    rw [List.flatMap_cons, List.append_assoc, List.append_assoc]
    cases hno : isNoKeywords label v with
    | true =>
      rw [pruned_noKeywords hno, hrest, List.filter_cons_of_neg (by simp [hno])]
    | false =>
      rw [pruned_field hlabel hv hno (ends_flatMap r (.inl rfl)), pruned_fieldText hlabel,
        h _ List.mem_cons_self, hrest, List.filter_cons_of_pos (by simp [hno]), List.map_cons,
        List.flatMap_cons, fieldText]
      simp only [List.append_assoc]

mutual

theorem prunes_toText {d : Document} (hd : d.Readable true) : Prunes d := by
  intro r
  cases d with
  | atom t =>
    rw [shown, toText_atom, pruned_append_of_not_mem (comma_not_mem_of_isBare hd)]
  | quoted t => rw [shown, toText_quoted, toText_quoted, pruned_text_append hd]
  | bytes t => rw [shown, toText_bytes, toText_bytes, pruned_bytes_append]
  | list items =>
    cases items with
    | nil => exact pruned_append_of_not_mem (by rw [toText_list]; decide) r
    | cons d items =>
      have hfirst := prunes_items (d :: items) hd d List.mem_cons_self
      have hrest := pruned_items hd.2
        (fun a ha => prunes_items (d :: items) hd a (List.mem_cons_of_mem _ ha)) r
      rw [shown, shownItems, toText_list, toText_list, join_map_cons, join_map_cons]
      simp only [List.append_assoc]
      rw [pruned_append_of_not_mem (by decide), hfirst]
      exact congrArg (fun t => utf8 "[" ++ (_ ++ t)) hrest
  | node kind fs =>
    have hall := fun g hg => hd.2.2.of_mem (f := g) hg
    have hprunes := prunes_fields fs hd.2.2
    rw [shown, toText_node, toText_node, present_shownFields]
    simp only [List.append_assoc]
    rw [pruned_append_of_not_mem (comma_not_mem_of_isBare hd.1),
      pruned_append_of_not_mem (by decide)]
    refine congrArg (fun t => utf8 kind ++ (utf8 "(" ++ t)) ?_
    cases hfs : present fs with
    | nil => exact pruned_append_of_not_mem (s := utf8 ")") (by decide) r
    | cons g gs =>
      rw [hfs] at hall hprunes
      obtain ⟨label, v⟩ := g
      have hno := isNoKeywords_head hd.2.1 hfs
      have hrest := pruned_fields (fun g hg => hall g (List.mem_cons_of_mem _ hg))
        (fun g hg => hprunes g (List.mem_cons_of_mem _ hg)) r
      rw [join_map_cons, List.filter_cons_of_pos (by simp [hno]), List.map_cons, join_map_cons]
      simp only [List.append_assoc]
      rw [pruned_fieldText (hall _ List.mem_cons_self).1, hprunes _ List.mem_cons_self, fieldText]
      simp only [List.append_assoc]
      exact congrArg (fun t => utf8 label ++ (utf8 "=" ++ (_ ++ t))) hrest

theorem prunes_items : ∀ items : List Document, AllReadable true items → ∀ d ∈ items, Prunes d
  | [], _, _, hd => absurd hd (by simp)
  | a :: items, h, d, hd => by
    rcases List.mem_cons.mp hd with heq | hd
    · rw [heq]
      exact prunes_toText h.1
    · exact prunes_items items h.2 d hd

theorem prunes_fields : ∀ fs : List (String × Option Document), FieldsReadable true fs →
    ∀ g ∈ present fs, Prunes g.2
  | [], _, _, hg => absurd hg (by simp [present])
  | (_, none) :: fs, h, g, hg => prunes_fields fs h.2 g hg
  | (label, some v) :: fs, h, g, hg => by
    rcases List.mem_cons.mp (show g ∈ (label, v) :: present fs from hg) with heq | hg
    · rw [heq]
      exact prunes_toText h.2.1
    · exact prunes_fields fs h.2.2 g hg

end

/-- Taking the empty lists of keywords out of a text takes them out of the document. -/
theorem pruned_toText {d : Document} (hd : d.Readable true) :
    pruned (d.toText true) = (d.shown pruned true).toText true := by
  have h := prunes_toText hd []
  rwa [List.append_nil, Text.pruned_nil, List.append_nil] at h

/-- Two documents with the same stable form show the same, but for empty lists of keyword
arguments and for the bytes of such lists in texts and byte strings. -/
theorem shown_eq_of_pruned_eq {d d' : Document} (hd : d.Readable true) (hd' : d'.Readable true)
    (h : pruned (d.toText true) = pruned (d'.toText true)) :
    d.shown pruned true = d'.shown pruned true := by
  have htext : (d.shown pruned true).toText true = (d'.shown pruned true).toText true := by
    rw [← pruned_toText hd, ← pruned_toText hd', h]
  exact legible_readable.eq_of_toText_eq (readable_shown (fun _ => isEncoded_pruned) hd)
    (readable_shown (fun _ => isEncoded_pruned) hd') htext

end CloneScout.Document
