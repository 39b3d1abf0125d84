import CloneScout.Clone.Group
import CloneScout.Proofs.Text.Order
import Mathlib.Data.Finset.Card
import Mathlib.Data.List.Forall2

/-!
# Groups of records

The groups of a list of records are given by the list alone: each key of a record has one group, which
holds the records with this key in the order of the list, and the groups are in the order of their
keys. Records in another order give the same groups with members in another order: `Groups.Similar`.
-/

namespace CloneScout

namespace Groups

variable {α β : Type}

/-! ## Keys and members -/

def keys (gs : Groups α) : List Text := gs.map Prod.fst

/-- The members of the group of a key, none where there is no group. -/
def members (key : Text) : Groups α → List α
  | [] => []
  | (k, ms) :: rest => if k = key then ms else members key rest

/-- The keys are in increasing order, as in a map. -/
def Sorted (gs : Groups α) : Prop := Text.Increasing gs.keys

theorem members_of_notMem {key : Text} {gs : Groups α} (h : key ∉ gs.keys) :
    gs.members key = [] := by
  induction gs with
  | nil => rfl
  | cons g gs ih =>
    obtain ⟨hg, hgs⟩ := not_or.mp (mt List.mem_cons.mpr h)
    rw [members, if_neg (Ne.symm hg), ih hgs]

/-- A map is given by its keys and their members. -/
theorem Sorted.eq_map {gs : Groups α} (h : gs.Sorted) :
    gs = gs.keys.map fun key => (key, gs.members key) := by
  induction gs with
  | nil => rfl
  | cons g gs ih =>
    obtain ⟨hg, hgs⟩ := List.nodup_cons.mp h.nodup
    rw [keys, List.map_cons, List.map_cons, members, if_pos rfl]
    refine congrArg _ ((ih h.of_cons).trans (List.map_congr_left fun key hkey => ?_))
    have hne : g.1 ≠ key := fun heq => hg (heq ▸ hkey)
    rw [members, if_neg hne]

/-- The keys with one more. -/
theorem mem_keys_push {key k : Text} {a : α} {gs : Groups α} :
    k ∈ (gs.push key a).keys ↔ k = key ∨ k ∈ gs.keys := by
  induction gs with
  | nil => simp [push, keys]
  | cons g gs ih =>
    rw [push]
    cases hcmp : Text.cmp key g.1 with
    | lt => simp [keys]
    | eq =>
      obtain rfl := Std.LawfulEqCmp.eq_of_compare hcmp
      simp [keys]
    | gt =>
      simp only [keys, List.map_cons, List.mem_cons] at ih ⊢
      rw [ih]
      exact or_left_comm

theorem Sorted.push {gs : Groups α} (h : gs.Sorted) (key : Text) (a : α) :
    (gs.push key a).Sorted := by
  induction gs with
  | nil => exact List.pairwise_singleton _ _
  | cons g gs ih =>
    obtain ⟨hg, hgs⟩ := List.pairwise_cons.mp h
    rw [Groups.push]
    cases hcmp : Text.cmp key g.1 with
    | lt =>
      refine List.pairwise_cons.mpr ⟨fun k hk => ?_, h⟩
      rcases List.mem_cons.mp hk with rfl | hk
      · exact hcmp
      · exact Std.TransCmp.lt_trans hcmp (hg k hk)
    | eq => exact h
    | gt =>
      refine List.pairwise_cons.mpr ⟨fun k hk => ?_, ih hgs⟩
      rcases mem_keys_push.mp hk with rfl | hk
      · exact Std.OrientedCmp.lt_of_gt hcmp
      · exact hg k hk

/-- The new member is the last one of its group. -/
theorem members_push {gs : Groups α} (h : gs.Sorted) (key k : Text) (a : α) :
    (gs.push key a).members k = gs.members k ++ if k = key then [a] else [] := by
  induction gs with
  | nil =>
    rw [push, members]
    by_cases hk : key = k
    · simp [hk, members]
    · simp [hk, Ne.symm hk, members]
  | cons g gs ih =>
    obtain ⟨hg, hgs⟩ := List.pairwise_cons.mp h
    have hkey (hlt : Text.cmp key g.1 = .lt) : key ∉ keys (g :: gs) := by
      intro hmem
      have hself : Text.cmp key key = .eq := Std.ReflCmp.compare_self
      rcases List.mem_cons.mp hmem with heq | hmem
      · simp_all
      · exact absurd (hself.symm.trans (Std.TransCmp.lt_trans hlt (hg key hmem))) (by decide)
    rw [push]
    cases hcmp : Text.cmp key g.1 with
    | lt =>
      rw [members]
      split
      next heq =>
        subst heq
        rw [members_of_notMem (hkey hcmp), if_pos rfl]
        rfl
      next hne => rw [if_neg (Ne.symm hne), List.append_nil]
    | eq =>
      obtain rfl := Std.LawfulEqCmp.eq_of_compare hcmp
      rw [members, members]
      split
      next heq => rw [if_pos heq.symm]
      next hne => rw [if_neg (Ne.symm hne), List.append_nil]
    | gt =>
      rw [members, members, ih hgs]
      split
      next heq =>
        have hne : k ≠ key := by
          rintro rfl
          have hself : Text.cmp k k = .eq := Std.ReflCmp.compare_self
          rw [heq, hself] at hcmp
          exact nomatch hcmp
        rw [if_neg hne, List.append_nil]
      next => rfl

/-! ## Groups of a list -/

section

variable (key : α → Text) (items : List α)

theorem ofList_append (a : α) : ofList key (items ++ [a]) = (ofList key items).push (key a) a := by
  rw [ofList, List.foldl_append]
  rfl

theorem sorted_ofList : (ofList key items).Sorted := by
  induction items using List.reverseRecOn with
  | nil => exact List.Pairwise.nil
  | append_singleton items a ih =>
    rw [ofList_append]
    exact ih.push _ _

theorem mem_keys_ofList {k : Text} : k ∈ (ofList key items).keys ↔ ∃ a ∈ items, key a = k := by
  induction items using List.reverseRecOn with
  | nil => simp [ofList, keys]
  | append_singleton items a ih =>
    rw [ofList_append, mem_keys_push, ih]
    simp only [List.mem_append, List.mem_singleton, or_and_right, exists_or, exists_eq_left]
    rw [or_comm, eq_comm]

/-- The group of a key holds the records with this key in their order. -/
theorem members_ofList (k : Text) :
    (ofList key items).members k = items.filter fun a => key a = k := by
  induction items using List.reverseRecOn with
  | nil => rfl
  | append_singleton items a ih =>
    rw [ofList_append, members_push (sorted_ofList key items), ih, List.filter_append]
    by_cases hk : k = key a
    · simp [hk]
    · simp [hk, Ne.symm hk]

theorem ofList_eq : ofList key items =
    (ofList key items).keys.map fun k => (k, items.filter fun a => key a = k) := by
  have hmembers := (sorted_ofList key items).eq_map
  simpa only [members_ofList] using hmembers

variable {key items}

/-- The members of a group are records with the key of the group. -/
theorem of_mem_ofList {g : Text × List α} (hg : g ∈ ofList key items) {a : α} (ha : a ∈ g.2) :
    a ∈ items ∧ key a = g.1 := by
  rw [ofList_eq] at hg
  obtain ⟨k, -, rfl⟩ := List.mem_map.mp hg
  simpa using ha

end

/-! ## Members in another order -/

/-- The same keys, with the same members in any order. -/
def Similar (gs gs' : Groups α) : Prop :=
  List.Forall₂ (fun g g' => g.1 = g'.1 ∧ g.2.Perm g'.2) gs gs'

namespace Similar

variable {gs gs' : Groups α}

theorem filter (h : Similar gs gs') {p : Text × List α → Bool}
    (hp : ∀ k ms ms', ms.Perm ms' → p (k, ms) = p (k, ms')) :
    Similar (gs.filter p) (gs'.filter p) := by
  induction h with
  | nil => exact .nil
  | @cons g g' gs gs' hg _ ih =>
    obtain ⟨k, ms⟩ := g
    obtain ⟨k', ms'⟩ := g'
    obtain ⟨rfl, hms⟩ := hg
    rw [List.filter_cons, List.filter_cons, hp k ms ms' hms]
    split
    · exact .cons ⟨rfl, hms⟩ ih
    · exact ih

theorem mapMembers (h : Similar gs gs') {f : List α → List β}
    (hf : ∀ ms ms', ms.Perm ms' → (f ms).Perm (f ms')) :
    Similar (gs.mapMembers f) (gs'.mapMembers f) := by
  refine List.forall₂_map_left_iff.mpr (List.forall₂_map_right_iff.mpr (h.imp fun g g' hg => ?_))
  exact ⟨hg.1, hf _ _ hg.2⟩

theorem flatMap (h : Similar gs gs') {f : Text × List α → Groups β}
    (hf : ∀ k ms ms', ms.Perm ms' → Similar (f (k, ms)) (f (k, ms'))) :
    Similar (gs.flatMap f) (gs'.flatMap f) := by
  induction h with
  | nil => exact .nil
  | @cons g g' gs gs' hg _ ih =>
    obtain ⟨k, ms⟩ := g
    obtain ⟨k', ms'⟩ := g'
    obtain ⟨rfl, hms⟩ := hg
    exact List.rel_append (hf k ms ms' hms) ih

theorem set (h : Similar gs gs') (key : Text) {ms ms' : List α} (hms : ms.Perm ms') :
    Similar (gs.set key ms) (gs'.set key ms') := by
  induction h with
  | nil => exact .cons ⟨rfl, hms⟩ .nil
  | @cons g g' gs gs' hg htail ih =>
    obtain ⟨k, old⟩ := g
    obtain ⟨k', old'⟩ := g'
    obtain ⟨hk, hold⟩ := hg
    dsimp only at hk hold
    subst hk
    rw [Groups.set, Groups.set]
    cases Text.cmp key k with
    | lt => exact List.Forall₂.cons ⟨rfl, hms⟩ (.cons ⟨rfl, hold⟩ htail)
    | eq => exact List.Forall₂.cons ⟨rfl, hms⟩ htail
    | gt => exact List.Forall₂.cons ⟨rfl, hold⟩ ih

theorem foldl_set {found found' : Groups α} (hfound : Similar found found') (h : Similar gs gs') :
    Similar (found.foldl (fun gs g => gs.set g.1 g.2) gs)
      (found'.foldl (fun gs g => gs.set g.1 g.2) gs') := by
  induction hfound generalizing gs gs' with
  | nil => exact h
  | @cons g g' found found' hg _ ih =>
    rw [List.foldl_cons, List.foldl_cons, hg.1]
    exact ih (h.set g'.1 hg.2)

end Similar

/-- Records in another order give similar groups. -/
theorem similar_ofList (key : α → Text) {items items' : List α} (h : items.Perm items') :
    Similar (ofList key items) (ofList key items') := by
  have hkeys : (ofList key items).keys = (ofList key items').keys := by
    refine (sorted_ofList key items).eq (sorted_ofList key items') fun k => ?_
    rw [mem_keys_ofList, mem_keys_ofList]
    simp only [h.mem_iff]
  rw [ofList_eq key items, ofList_eq key items', hkeys]
  exact List.forall₂_map_left_iff.mpr (List.forall₂_map_right_iff.mpr
    (List.forall₂_same.mpr fun k _ => ⟨rfl, h.filter _⟩))

/-- What stands in a map after assignments was there before or has been assigned. -/
theorem members_of_mem_set {gs : Groups α} {key : Text} {ms : List α} {g : Text × List α}
    (hg : g ∈ gs.set key ms) : g.2 = ms ∨ g ∈ gs := by
  induction gs with
  | nil => exact .inl (by rw [List.mem_singleton.mp hg])
  | cons g' gs ih =>
    rw [set] at hg
    split at hg
    · rcases List.mem_cons.mp hg with rfl | hg
      · exact .inl rfl
      · exact .inr hg
    · rcases List.mem_cons.mp hg with rfl | hg
      · exact .inl rfl
      · exact .inr (List.mem_cons_of_mem _ hg)
    · rcases List.mem_cons.mp hg with rfl | hg
      · exact .inr List.mem_cons_self
      · exact (ih hg).imp_right (List.mem_cons_of_mem _)

theorem members_of_mem_foldl_set {found gs : Groups α} {g : Text × List α}
    (hg : g ∈ found.foldl (fun gs g => gs.set g.1 g.2) gs) :
    (∃ g' ∈ found, g.2 = g'.2) ∨ g ∈ gs := by
  induction found generalizing gs with
  | nil => exact .inr hg
  | cons g' found ih =>
    rcases ih hg with ⟨g'', hmem, heq⟩ | hmem
    · exact .inl ⟨g'', List.mem_cons_of_mem _ hmem, heq⟩
    · exact (members_of_mem_set hmem).imp_left fun heq => ⟨g', List.mem_cons_self, heq⟩

end Groups

/-! ## Kinds of groups -/

theorem countDistinct_eq_card (ts : List Text) : countDistinct ts = ts.toFinset.card := by
  induction ts with
  | nil => rfl
  | cons t ts ih =>
    rw [countDistinct, List.toFinset_cons]
    by_cases ht : t ∈ ts
    · rw [if_pos (by simpa using ht), ih, Finset.insert_eq_of_mem (by simpa using ht)]
    · rw [if_neg (by simpa using ht), ih, Finset.card_insert_of_notMem (by simpa using ht)]

theorem countDistinct_perm {ts ts' : List Text} (h : ts.Perm ts') :
    countDistinct ts = countDistinct ts' := by
  rw [countDistinct_eq_card, countDistinct_eq_card, List.toFinset_eq_of_perm _ _ h]

theorem similar_functionGroups {units units' : List FunctionUnit} (h : units.Perm units') :
    (functionGroups units).Similar (functionGroups units') :=
  (Groups.similar_ofList _ h).filter fun _ _ _ hms => by simp [hms.length_eq]

theorem similar_blockGroups (minFunctions : Nat) {blocks blocks' : List BlockUnit}
    (h : blocks.Perm blocks') :
    (blockGroups minFunctions blocks).Similar (blockGroups minFunctions blocks') :=
  (Groups.similar_ofList _ h).filter fun _ _ _ hms => by
    simp [countDistinct_perm (hms.map BlockUnit.qualname)]

theorem similar_segmentGroups (minOccurrences : Nat) {segments segments' : List SegmentUnit}
    (h : segments.Perm segments') :
    (segmentGroups minOccurrences segments).Similar (segmentGroups minOccurrences segments') := by
  have hsplit (key : SegmentUnit → Text) {ms ms' : List SegmentUnit} (hms : ms.Perm ms') :
      Groups.Similar ((Groups.ofList key ms).filter fun g => minOccurrences ≤ g.2.length)
        ((Groups.ofList key ms').filter fun g => minOccurrences ≤ g.2.length) :=
    (Groups.similar_ofList key hms).filter fun _ _ _ hms => by simp [hms.length_eq]
  refine Groups.Similar.foldl_set ?_ .nil
  refine (hsplit _ h).flatMap fun _ _ _ hms => (hsplit _ hms).flatMap fun hash _ _ hms => ?_
  refine List.forall₂_map_left_iff.mpr (List.forall₂_map_right_iff.mpr
    ((hsplit _ hms).imp fun g g' hg => ?_))
  exact ⟨by rw [hg.1], hg.2⟩

/-- The members of a group of segments agree on signature, digest and function. -/
theorem of_mem_segmentGroups {minOccurrences : Nat} {segments : List SegmentUnit}
    {g : Text × List SegmentUnit} (hg : g ∈ segmentGroups minOccurrences segments)
    {a b : SegmentUnit} (ha : a ∈ g.2) (hb : b ∈ g.2) :
    a ∈ segments ∧ b ∈ segments ∧ a.signature = b.signature ∧ a.hash = b.hash ∧
      a.qualname = b.qualname := by
  rcases Groups.members_of_mem_foldl_set hg with ⟨g', hg', heq⟩ | hnil
  · rw [heq] at ha hb
    obtain ⟨bySignature, hsignature, hg'⟩ := List.mem_flatMap.mp hg'
    obtain ⟨byHash, hhash, hg'⟩ := List.mem_flatMap.mp hg'
    obtain ⟨byFunction, hfunction, rfl⟩ := List.mem_map.mp hg'
    have hkeys {s : SegmentUnit} (hs : s ∈ byFunction.2) : s ∈ segments ∧
        s.signature = bySignature.1 ∧ s.hash = byHash.1 ∧ s.qualname = byFunction.1 := by
      obtain ⟨hs, hqualname⟩ := Groups.of_mem_ofList (List.mem_filter.mp hfunction).1 hs
      obtain ⟨hs, hdigest⟩ := Groups.of_mem_ofList (List.mem_filter.mp hhash).1 hs
      obtain ⟨hs, hsign⟩ := Groups.of_mem_ofList (List.mem_filter.mp hsignature).1 hs
      exact ⟨hs, hsign, hdigest, hqualname⟩
    obtain ⟨ha, hasign, hadigest, haqualname⟩ := hkeys ha
    obtain ⟨hb, hbsign, hbdigest, hbqualname⟩ := hkeys hb
    exact ⟨ha, hb, hasign.trans hbsign.symm, hadigest.trans hbdigest.symm,
      haqualname.trans hbqualname.symm⟩
  · exact nomatch hnil

end CloneScout
