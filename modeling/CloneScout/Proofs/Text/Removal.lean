import CloneScout.Proofs.Text.Basic
import CloneScout.Proofs.Text.Quoted
import CloneScout.Tree.Dump

/-!
# Taking out empty lists of keywords

The stable form of a text is the text without the bytes `, keywords=[]`, wherever they stand. They
start with a comma, and none of them is ever written as an escape. So taking them out passes over a
literal as it passes over the text that the literal was written from: what goes inside quotes goes
from the text.
-/

namespace CloneScout

namespace Text

/-! ## Removing a key -/

section

variable {key : Text}

theorem replaceFrom_skip (value s t : Text) :
    replaceFrom key value s.length (s ++ t) = replaceFrom key value 0 t := by
  induction s with
  | nil => rfl
  | cons b s ih =>
    rw [List.length_cons, List.cons_append, replaceFrom]
    exact ih

theorem replaceAll_key_append (hkey : key ≠ []) (t : Text) :
    replaceAll key [] (key ++ t) = replaceAll key [] t := by
  obtain ⟨b, rest, rfl⟩ := List.exists_cons_of_ne_nil hkey
  have hstarts : startsWith (b :: (rest ++ t)) (b :: rest) = true :=
    startsWith_append (b :: rest) t
  rw [replaceAll, List.cons_append, replaceFrom, if_pos hstarts]
  exact replaceFrom_skip [] rest t

theorem replaceAll_cons_of_not_prefix {b : UInt8} {t : Text} (h : ¬ key <+: b :: t) :
    replaceAll key [] (b :: t) = b :: replaceAll key [] t := by
  rw [replaceAll, replaceFrom, if_neg (mt startsWith_iff.mp h)]
  rfl

/-- Bytes that the key does not start with are passed over. -/
theorem replaceAll_append_of_not_mem {c : UInt8} (hkey : key.head? = some c) {s : Text}
    (hs : c ∉ s) (t : Text) : replaceAll key [] (s ++ t) = s ++ replaceAll key [] t := by
  induction s with
  | nil => rfl
  | cons b s ih =>
    have hfirst : ¬ key <+: b :: (s ++ t) := by
      intro hstarts
      obtain ⟨rest, hrest⟩ := hstarts
      cases key with
      | nil => exact absurd hkey (by simp)
      | cons k key =>
        obtain rfl : k = c := by simpa using hkey
        obtain rfl : k = b := (List.cons.inj hrest).1
        exact hs List.mem_cons_self
    rw [List.cons_append, replaceAll_cons_of_not_prefix hfirst,
      ih fun h => hs (List.mem_cons_of_mem _ h), List.cons_append]

end

/-- What is taken out. -/
def emptyKeywords : Text := utf8 ", keywords=[]"

/-- What is left when empty lists of keywords are taken out. -/
def pruned (t : Text) : Text := replaceAll emptyKeywords [] t

theorem pruned_nil : pruned [] = [] := rfl

theorem pruned_key_append (t : Text) : pruned (emptyKeywords ++ t) = pruned t :=
  replaceAll_key_append (by decide) t

theorem pruned_cons_of_not_prefix {b : UInt8} {t : Text} (h : ¬ emptyKeywords <+: b :: t) :
    pruned (b :: t) = b :: pruned t :=
  replaceAll_cons_of_not_prefix h

theorem pruned_append_of_not_mem {s : Text} (hs : ascii ',' ∉ s) (t : Text) :
    pruned (s ++ t) = s ++ pruned t :=
  replaceAll_append_of_not_mem rfl hs t

/-- Nothing is taken out across a byte that the key does not hold. -/
theorem pruned_append_cons {b : UInt8} (hb : b ∉ emptyKeywords) (s t : Text) :
    pruned (s ++ b :: t) = pruned s ++ b :: pruned t := by
  induction hlen : s.length using Nat.strongRecOn generalizing s with
  | ind n ih =>
    by_cases hkey : emptyKeywords <+: s
    · obtain ⟨rest, rfl⟩ := hkey
      have hshort : rest.length < n := by
        have : emptyKeywords.length = 13 := by decide
        rw [List.length_append] at hlen
        omega
      rw [List.append_assoc, pruned_key_append, pruned_key_append, ih _ hshort rest rfl]
    · have hstart : ¬ emptyKeywords <+: s ++ b :: t := by
        intro hstarts
        have hpart : s ++ [b] <+: s ++ b :: t := ⟨t, by simp⟩
        rcases List.prefix_or_prefix_of_prefix hstarts hpart with hshort | hlong
        · rcases List.prefix_concat_iff.mp hshort with hwhole | hwithin
          · exact hb (hwhole ▸ List.mem_append_right s List.mem_cons_self)
          · exact hkey hwithin
        · exact hb (hlong.subset (List.mem_append_right s List.mem_cons_self))
      cases s with
      | nil => exact pruned_cons_of_not_prefix hstart
      | cons c s =>
        rw [List.cons_append] at hstart ⊢
        rw [ pruned_cons_of_not_prefix hstart, pruned_cons_of_not_prefix hkey,
          ih s.length (by rw [← hlen]; exact Nat.lt_succ_self _) s rfl, List.cons_append]

end Text

open Text (emptyKeywords pruned pruned_append_of_not_mem)

/-! ## Texts written item by item -/

/-- Numbers are written one by one: the bytes of the key as they are, and a comma in no other way.
-/
structure Writes (valid : Nat → Prop) (write : Nat → Text) : Prop where
  self : ∀ b ∈ emptyKeywords, write b.toNat = [b]
  head : ∀ n, valid n → ∃ b tail, write n = b :: tail ∧ (b ∈ emptyKeywords → n = b.toNat)
  comma : ∀ n, valid n → n ≠ (ascii ',').toNat → ascii ',' ∉ write n

namespace Writes

variable {valid : Nat → Prop} {write : Nat → Text}

/-- A text that starts none of the bytes of the key. -/
def Stops (s : Text) : Prop := ∀ b ∈ s.head?, b ∉ emptyKeywords

theorem prefix_of_prefix (h : Writes valid write) {s : Text} (hs : Stops s) {u : Text}
    (hu : ∀ b ∈ u, b ∈ emptyKeywords) {ns : List Nat} (hns : ∀ n ∈ ns, valid n)
    (hstarts : u <+: ns.flatMap write ++ s) : u.map UInt8.toNat <+: ns := by
  induction u generalizing ns with
  | nil => exact List.nil_prefix
  | cons b u ih =>
    obtain ⟨rest, hrest⟩ := hstarts
    cases ns with
    | nil =>
      have hhead : s.head? = some b := by
        rw [List.flatMap_nil, List.nil_append] at hrest
        rw [← hrest]
        rfl
      exact absurd (hu b List.mem_cons_self) (hs b hhead)
    | cons n ns =>
      obtain ⟨c, tail, hc, hn⟩ := h.head n (hns n List.mem_cons_self)
      have hbytes := hrest
      rw [List.flatMap_cons, hc] at hbytes
      obtain rfl : b = c := (List.cons.inj hbytes).1
      have hmem := hu b List.mem_cons_self
      obtain rfl := hn hmem
      rw [List.flatMap_cons, h.self b hmem] at hrest
      have hrest := (List.cons.inj hrest).2
      rw [List.map_cons, List.cons_prefix_cons]
      exact ⟨rfl, ih (fun c hc => hu c (List.mem_cons_of_mem _ hc))
        (fun m hm => hns m (List.mem_cons_of_mem _ hm)) ⟨rest, hrest⟩⟩

theorem flatMap_key (h : Writes valid write) :
    (emptyKeywords.map UInt8.toNat).flatMap write = emptyKeywords := by
  have hall : ∀ u : Text, (∀ b ∈ u, b ∈ emptyKeywords) →
      (u.map UInt8.toNat).flatMap write = u := by
    intro u hu
    induction u with
    | nil => rfl
    | cons b u ih =>
      rw [List.map_cons, List.flatMap_cons, h.self b (hu b List.mem_cons_self),
        ih fun c hc => hu c (List.mem_cons_of_mem _ hc)]
      rfl
  exact hall emptyKeywords fun b hb => hb

/-- The same items are left in whatever way they are written. -/
theorem exists_pruned (ns : List Nat) : ∃ ms : List Nat, ms.Sublist ns ∧
    (∀ n ∈ ns, n ∈ ms ∨ n ∈ emptyKeywords.map UInt8.toNat) ∧
    ∀ {valid : Nat → Prop} {write : Nat → Text}, Writes valid write → (∀ n ∈ ns, valid n) →
      ∀ {s : Text}, Stops s → pruned (ns.flatMap write ++ s) = ms.flatMap write ++ pruned s := by
  induction hlen : ns.length using Nat.strongRecOn generalizing ns with
  | ind len ih =>
    by_cases hkey : emptyKeywords.map UInt8.toNat <+: ns
    · obtain ⟨rest, rfl⟩ := hkey
      have hshort : rest.length < len := by
        have : (emptyKeywords.map UInt8.toNat).length = 13 := by decide
        rw [List.length_append] at hlen
        omega
      obtain ⟨ms, hsub, hkept, hms⟩ := ih rest.length hshort rest rfl
      refine ⟨ms, hsub.trans (List.sublist_append_right _ _), ?_, ?_⟩
      · intro n hn
        exact (List.mem_append.mp hn).elim .inr (hkept n)
      · intro valid write h hvalid s hs
        rw [List.flatMap_append, h.flatMap_key, List.append_assoc, Text.pruned_key_append]
        exact hms h (fun n hn => hvalid n (List.mem_append_right _ hn)) hs
    · cases ns with
      | nil => exact ⟨[], .slnil, by simp, fun _ _ _ _ => rfl⟩
      | cons n ns =>
        obtain ⟨ms, hsub, hkept, hms⟩ := ih ns.length (by rw [← hlen]; exact Nat.lt_succ_self _) ns rfl
        refine ⟨n :: ms, hsub.cons_cons n, ?_, ?_⟩
        · intro m hm
          rcases List.mem_cons.mp hm with rfl | hm
          · exact .inl List.mem_cons_self
          · exact (hkept m hm).imp (List.mem_cons_of_mem _) id
        · intro valid write h hvalid s hs
          have hrest := hms h (fun m hm => hvalid m (List.mem_cons_of_mem _ hm)) hs
          have hstart : ¬ emptyKeywords <+: (n :: ns).flatMap write ++ s := fun hstarts =>
            hkey (h.prefix_of_prefix hs (fun _ hb => hb) hvalid hstarts)
          rw [List.flatMap_cons, List.append_assoc] at hstart ⊢
          by_cases hcomma : n = (ascii ',').toNat
          · rw [hcomma, h.self _ (by decide)] at hstart ⊢
            rw [List.flatMap_cons, h.self _ (by decide), List.append_assoc, ← hrest]
            exact Text.pruned_cons_of_not_prefix hstart
          · rw [pruned_append_of_not_mem (h.comma n (hvalid n List.mem_cons_self) hcomma), hrest,
              List.flatMap_cons, List.append_assoc]

end Writes

/-! ## Code points and bytes as they are and in literals -/

theorem comma_not_mem_hex (width n : Nat) : ascii ',' ∉ Text.hex width n := by
  induction width with
  | zero => simp [Text.hex]
  | succ width ih =>
    rw [Text.hex, List.mem_cons]
    rintro (h | h)
    · have hvalue := Text.hexValue_hexDigit (n / Nat.pow 16 width)
      have hnone : Text.hexValue (ascii ',') = none := by decide
      rw [← h, hnone] at hvalue
      exact absurd hvalue (by simp)
    · exact ih h

theorem comma_not_mem_encode {cp : Nat} (h : cp < 0x110000) (hcp : cp ≠ (ascii ',').toNat) :
    ascii ',' ∉ Utf8.encode cp := by
  obtain ⟨b, tail, hform, -, htail, hascii⟩ := Utf8.encode_eq_cons h
  rw [hform, List.mem_cons]
  rintro (rfl | hmem)
  · exact hcp (hascii (by decide)).2.symm
  · exact absurd (htail _ hmem) (by decide)

theorem comma_not_mem_layoutEscape? {cp : Nat} {t : Text}
    (h : Quoted.layoutEscape? cp = some t) : ascii ',' ∉ t := by
  unfold Quoted.layoutEscape? at h
  split at h
  · obtain rfl := Option.some.inj h
    decide
  · split at h
    · obtain rfl := Option.some.inj h
      decide
    · split at h
      · obtain rfl := Option.some.inj h
        decide
      · exact absurd h (by simp)

theorem comma_not_mem_append {s t : Text} (hs : ascii ',' ∉ s) (ht : ascii ',' ∉ t) :
    ascii ',' ∉ s ++ t := fun h => (List.mem_append.mp h).elim hs ht

theorem writes_encode : Writes (· < 0x110000) Utf8.encode where
  self := by decide
  head n hn := by
    obtain ⟨b, tail, hform, -, -, hascii⟩ := Utf8.encode_eq_cons hn
    have hkey : ∀ b ∈ emptyKeywords, b < 0x80 := by decide
    exact ⟨b, tail, hform, fun hb => (hascii (hkey b hb)).2.symm⟩
  comma _ hn hcomma := comma_not_mem_encode hn hcomma

theorem writes_codePoint {q : UInt8} (hq : Quoted.IsQuote q) :
    Writes (· < 0x110000) (Quoted.codePoint q) where
  self := by rcases hq with rfl | rfl <;> decide +kernel
  head n hn := by
    rcases Quoted.codePoint_cases hq hn [] with ⟨t, ht, -⟩ | ⟨henc, -, -⟩
    · exact ⟨_, t, ht, fun hb => absurd hb (by decide)⟩
    · rw [henc]
      exact writes_encode.head n hn
  comma n hn hcomma := by
    unfold Quoted.codePoint
    split
    next hself =>
      simp only [Bool.or_eq_true, decide_eq_true_eq] at hself
      have hne : UInt8.ofNat n ≠ ascii ',' := by
        rcases hself with rfl | rfl
        · rw [UInt8.ofNat_toNat]
          rcases hq with rfl | rfl <;> decide
        · decide
      simpa using ⟨by decide, Ne.symm hne⟩
    next =>
      split
      next t ht => exact comma_not_mem_layoutEscape? ht
      next =>
        split
        · exact comma_not_mem_encode hn hcomma
        · unfold Quoted.numberEscape
          split
          · exact comma_not_mem_append (by decide) (comma_not_mem_hex _ _)
          · split
            · exact comma_not_mem_append (by decide) (comma_not_mem_hex _ _)
            · exact comma_not_mem_append (by decide) (comma_not_mem_hex _ _)

theorem writes_single : Writes (· < 256) fun n => [UInt8.ofNat n] where
  self := by decide
  head n hn := by
    refine ⟨_, [], rfl, fun _ => ?_⟩
    rw [UInt8.toNat_ofNat_of_lt' hn]
  comma n hn hcomma := by
    rw [List.mem_singleton]
    intro h
    rw [h, UInt8.toNat_ofNat_of_lt' hn] at hcomma
    exact hcomma rfl

theorem writes_byte {q : UInt8} (hq : Quoted.IsQuote q) :
    Writes (· < 256) fun n => Quoted.byte q (UInt8.ofNat n) where
  self := by rcases hq with rfl | rfl <;> decide
  head n hn := by
    rcases Quoted.byte_cases hq (UInt8.ofNat n) [] with ⟨t, ht, -⟩ | ⟨hb, -, -⟩
    · exact ⟨_, t, ht, fun hb => absurd hb (by decide)⟩
    · rw [hb]
      exact writes_single.head n hn
  comma n hn hcomma := by
    have hsingle := writes_single.comma n hn hcomma
    rw [List.mem_singleton] at hsingle
    unfold Quoted.byte
    split
    · simpa using ⟨by decide, hsingle⟩
    · split
      next t ht => exact comma_not_mem_layoutEscape? ht
      next =>
        split
        · exact comma_not_mem_append (by decide) (comma_not_mem_hex _ _)
        · simpa using hsingle

/-! ## Literals -/

theorem stops_nil : Writes.Stops [] := by simp [Writes.Stops]

theorem stops_quote {q : UInt8} (hq : Quoted.IsQuote q) (r : Text) : Writes.Stops (q :: r) := by
  intro b hb
  obtain rfl : q = b := by simpa using hb
  rcases hq with rfl | rfl <;> decide

theorem pruned_quote {q : UInt8} (hq : Quoted.IsQuote q) (t : Text) :
    pruned (q :: t) = q :: pruned t :=
  pruned_append_of_not_mem (s := [q]) (by rcases hq with rfl | rfl <;> decide) t

/-- What is left of a byte string, as it is and in a literal. -/
theorem exists_pruned_bytes (t : Text) : ∃ u : Text, u.Sublist t ∧
    (∀ b ∈ t, b ∈ u ∨ b ∈ emptyKeywords) ∧ pruned t = u ∧
    ∀ {q : UInt8}, Quoted.IsQuote q → ∀ r : Text,
      pruned (t.flatMap (Quoted.byte q) ++ q :: r) =
        u.flatMap (Quoted.byte q) ++ pruned (q :: r) := by
  have hback (u : Text) : (u.map UInt8.toNat).map UInt8.ofNat = u := by
    rw [List.map_map]
    exact (List.map_congr_left fun b _ => UInt8.ofNat_toNat).trans (List.map_id u)
  have hwritten (ns : List Nat) (write : UInt8 → Text) :
      ns.flatMap (fun n => write (UInt8.ofNat n)) = (ns.map UInt8.ofNat).flatMap write := by
    rw [List.flatMap_map]
  have hvalid : ∀ n ∈ t.map UInt8.toNat, n < 256 := by
    intro n hn
    obtain ⟨b, -, rfl⟩ := List.mem_map.mp hn
    exact b.toNat_lt
  obtain ⟨ms, hsub, hkept, hms⟩ := Writes.exists_pruned (t.map UInt8.toNat)
  refine ⟨ms.map UInt8.ofNat, ?_, ?_, ?_, ?_⟩
  · rw [← hback t]
    exact hsub.map UInt8.ofNat
  · intro b hb
    rcases hkept b.toNat (List.mem_map_of_mem hb) with hn | hn
    · exact .inl (List.mem_map.mpr ⟨_, hn, UInt8.ofNat_toNat⟩)
    · obtain ⟨c, hc, hval⟩ := List.mem_map.mp hn
      exact .inr (UInt8.toNat_inj.mp hval ▸ hc)
  · have hsingle := hms writes_single hvalid stops_nil
    rw [hwritten _ fun b => [b], hback, hwritten _ fun b => [b], List.append_nil] at hsingle
    simpa [Text.pruned_nil] using hsingle
  · intro q hq r
    have hbyte := hms (writes_byte hq) hvalid (stops_quote hq r)
    rwa [hwritten, hback, hwritten] at hbyte

/-- Bytes that are not in the key stay. -/
theorem mem_pruned {b : UInt8} (hb : b ∉ emptyKeywords) (t : Text) : b ∈ pruned t ↔ b ∈ t := by
  obtain ⟨u, hsub, hkept, rfl, -⟩ := exists_pruned_bytes t
  exact ⟨fun h => hsub.subset h, fun h => (hkept b h).resolve_right hb⟩

theorem quoteFor_pruned (t : Text) : Quoted.quoteFor (pruned t) = Quoted.quoteFor t := by
  have hsame {b : UInt8} (hb : b ∉ emptyKeywords) : (pruned t).contains b = t.contains b := by
    rw [Bool.eq_iff_iff, List.contains_iff_mem, List.contains_iff_mem, mem_pruned hb]
  rw [Quoted.quoteFor, hsame (by decide), hsame (by decide), Quoted.quoteFor]

theorem isEncoded_pruned {t : Text} (h : Utf8.IsEncoded t) : Utf8.IsEncoded (pruned t) := by
  obtain ⟨cps, hcps, rfl⟩ := h
  obtain ⟨ms, hsub, -, hms⟩ := Writes.exists_pruned cps
  have hpruned := hms writes_encode hcps stops_nil
  refine ⟨ms, fun cp hcp => hcps cp (hsub.subset hcp), ?_⟩
  rw [← List.append_nil (cps.flatMap _), hpruned]
  exact List.append_nil _

/-- A literal loses what its text loses. -/
theorem pruned_text_append {t : Text} (h : Utf8.IsEncoded t) (r : Text) :
    pruned (Quoted.text t ++ r) = Quoted.text (pruned t) ++ pruned r := by
  obtain ⟨cps, hcps, ht⟩ := h
  obtain ⟨ms, hsub, -, hms⟩ := Writes.exists_pruned cps
  have hpruned : pruned t = ms.flatMap Utf8.encode := by
    rw [ht, ← List.append_nil (cps.flatMap _), hms writes_encode hcps stops_nil]
    exact List.append_nil _
  have hq := Quoted.isQuote_quoteFor t
  rw [Quoted.text_eq hcps ht,
    Quoted.text_eq (fun cp hcp => hcps cp (hsub.subset hcp)) hpruned, quoteFor_pruned]
  simp only [List.cons_append, List.append_assoc, List.nil_append]
  rw [pruned_quote hq, hms (writes_codePoint hq) hcps (stops_quote hq r), pruned_quote hq]

theorem pruned_bytes_append (t r : Text) :
    pruned (Quoted.bytes t ++ r) = Quoted.bytes (pruned t) ++ pruned r := by
  obtain ⟨u, -, -, rfl, hbytes⟩ := exists_pruned_bytes t
  have hq := Quoted.isQuote_quoteFor t
  have hb (s : Text) : pruned (ascii 'b' :: s) = ascii 'b' :: pruned s :=
    pruned_append_of_not_mem (s := [ascii 'b']) (by decide) s
  rw [Quoted.bytes_eq, Quoted.bytes_eq, quoteFor_pruned]
  simp only [List.cons_append, List.append_assoc, List.nil_append]
  rw [hb, pruned_quote hq, hbytes hq r, pruned_quote hq]

end CloneScout
