import CloneScout.Proofs.Text.Order
import CloneScout.Proofs.Toml.Written

/-!
# Written settings files

A map from dotted keys to values can be written as a settings file in many ways: a key stands in
front of its value in full, or its first parts stand in the header of a section; values are written
as they may be; empty lines and comments stand anywhere between the entries. Reading any of these
files gives the map back, without a fault and without a warning.
-/

namespace CloneScout.Toml

/-! ## Ways to write a file -/

/-- One of the parts of a dotted key. -/
def IsPart (t : Text) : Prop := t ≠ [] ∧ ∀ b ∈ t, isKeyByte b = true

instance (t : Text) : Decidable (IsPart t) :=
  inferInstanceAs (Decidable (t ≠ [] ∧ ∀ b ∈ t, isKeyByte b = true))

/-- The parts of a key or of the name of a section. -/
def IsPath (parts : List Text) : Prop := parts ≠ [] ∧ ∀ p ∈ parts, IsPart p

instance (parts : List Text) : Decidable (IsPath parts) :=
  inferInstanceAs (Decidable (parts ≠ [] ∧ ∀ p ∈ parts, IsPart p))

def dotted (parts : List Text) : Text := Text.join (utf8 ".") parts

/-- A line that says nothing: it is empty up to blanks, or a comment. -/
inductive IsIdle : Text → Prop where
  | blank {line : Text} (h : ∀ b ∈ line, isBlank b = true) : IsIdle line
  | comment {blanks t : Text} (h : ∀ b ∈ blanks, isBlank b = true) (ht : lineFeed ∉ t) :
      IsIdle (blanks ++ ascii '#' :: t)

/-- Rows of a file that stand in the section `sec` or open sections of their own, and the entries
that they write, with the parts of their full keys. A row is a line or a value that runs over
several. -/
inductive Writes : (sec : List Text) → List (List Text × Value) → List Text → Prop where
  | done {sec : List Text} : Writes sec [] []
  | idle {sec : List Text} {es : List (List Text × Value)} {rows : List Text} {line : Text}
      (hline : IsIdle line) (h : Writes sec es rows) : Writes sec es (line :: rows)
  | header {sec sec' : List Text} {es : List (List Text × Value)} {rows : List Text}
      (hsec : IsPath sec') (h : Writes sec' es rows) :
      Writes sec es ((ascii '[' :: (dotted sec' ++ [ascii ']'])) :: rows)
  | entry {sec key : List Text} {v : Value} {t : Text} {es : List (List Text × Value)}
      {rows : List Text} (hkey : IsPath key) (hv : Spells v t) (h : Writes sec es rows) :
      Writes sec ((sec ++ key, v) :: es) ((dotted key ++ (utf8 " = " ++ t)) :: rows)

/-! ## Every map can be written -/

/-- Integers have 64 bits, and there is no empty array of integers. -/
def Value.IsWritable : Value → Prop
  | .int n => Word.fitsLong n = true
  | .ints ns => ns ≠ [] ∧ ∀ n ∈ ns, Word.fitsLong n = true
  | _ => True

theorem exists_items (ts : List Text) : ∃ u, Items false ts u := by
  induction ts with
  | nil => exact ⟨_, .close⟩
  | cons t ts ih =>
    obtain ⟨u, hu⟩ := ih
    exact ⟨_, .item (.comma hu)⟩

theorem exists_spells_iff (v : Value) : (∃ t, Spells v t) ↔ v.IsWritable := by
  constructor
  · rintro ⟨t, h⟩
    cases h with
    | int h => exact h
    | ints hne hns => exact ⟨hne, hns⟩
    | _ => exact trivial
  · intro h
    cases v with
    | str t => exact ⟨_, .str t⟩
    | int n => exact ⟨_, .int h⟩
    | bool b => exact ⟨_, .bool b⟩
    | strs ts =>
      obtain ⟨u, hu⟩ := exists_items (ts.map quote)
      exact ⟨_, .strs hu⟩
    | ints ns =>
      obtain ⟨u, hu⟩ := exists_items (ns.map Text.ofInt)
      exact ⟨_, .ints h.1 h.2 hu⟩

theorem exists_writes {es : List (List Text × Value)}
    (hes : ∀ e ∈ es, IsPath e.1 ∧ e.2.IsWritable) : ∃ rows, Writes [] es rows := by
  induction es with
  | nil => exact ⟨_, .done⟩
  | cons e es ih =>
    obtain ⟨⟨hkey, hvalue⟩, hes⟩ := List.forall_mem_cons.mp hes
    obtain ⟨rows, hrows⟩ := ih hes
    obtain ⟨t, ht⟩ := (exists_spells_iff e.2).mpr hvalue
    exact ⟨_, .entry hkey ht hrows⟩

/-! ## Keys -/

theorem isKeyByte_facts {b : UInt8} (h : isKeyByte b = true) :
    isBlank b = false ∧ b ≠ lineFeed ∧ b ≠ ascii '.' ∧ b ≠ ascii '=' ∧ b ≠ ascii '#' ∧
      b ≠ ascii '[' ∧ b ≠ ascii ']' := by
  have hall : ∀ n < 256, isKeyByte (UInt8.ofNat n) = true →
      isBlank (UInt8.ofNat n) = false ∧ UInt8.ofNat n ≠ lineFeed ∧ UInt8.ofNat n ≠ ascii '.' ∧
        UInt8.ofNat n ≠ ascii '=' ∧ UInt8.ofNat n ≠ ascii '#' ∧ UInt8.ofNat n ≠ ascii '[' ∧
        UInt8.ofNat n ≠ ascii ']' := by
    decide +kernel
  have hb := hall b.toNat b.toNat_lt
  rw [UInt8.ofNat_toNat] at hb
  exact hb h

theorem IsPath.mem_dotted {parts : List Text} (h : IsPath parts) {b : UInt8}
    (hb : b ∈ dotted parts) : isKeyByte b = true ∨ b = ascii '.' := by
  obtain ⟨p, ps, rfl⟩ := List.exists_cons_of_ne_nil h.1
  rw [dotted, Text.join_cons, List.mem_append, List.mem_flatMap] at hb
  rcases hb with hb | ⟨q, hq, hb⟩
  · exact .inl ((h.2 p List.mem_cons_self).2 b hb)
  · rcases List.mem_append.mp hb with hb | hb
    · exact .inr (List.mem_singleton.mp hb)
    · exact .inl ((h.2 q (List.mem_cons_of_mem p hq)).2 b hb)

theorem IsPath.notMem_dotted {parts : List Text} (h : IsPath parts) {b : UInt8}
    (hkey : isKeyByte b = false) (hdot : b ≠ ascii '.') : b ∉ dotted parts := fun hb =>
  (h.mem_dotted hb).elim (fun hb => absurd hb (by simp [hkey])) hdot

theorem IsPath.exists_cons {parts : List Text} (h : IsPath parts) :
    ∃ b t, dotted parts = b :: t ∧ isKeyByte b = true := by
  obtain ⟨p, ps, rfl⟩ := List.exists_cons_of_ne_nil h.1
  obtain ⟨hne, hp⟩ := h.2 p List.mem_cons_self
  obtain ⟨b, t, rfl⟩ := List.exists_cons_of_ne_nil hne
  rw [dotted, Text.join_cons]
  exact ⟨b, _, rfl, hp b List.mem_cons_self⟩

theorem dotted_append {sec key : List Text} (hsec : IsPath sec) (hkey : IsPath key) :
    dotted (sec ++ key) = dotted sec ++ (utf8 "." ++ dotted key) := by
  obtain ⟨p, ps, rfl⟩ := List.exists_cons_of_ne_nil hsec.1
  obtain ⟨q, qs, rfl⟩ := List.exists_cons_of_ne_nil hkey.1
  rw [dotted, dotted, dotted, List.cons_append, Text.join_cons, Text.join_cons, Text.join_cons,
    List.flatMap_append, List.flatMap_cons, List.append_assoc, List.append_assoc]

/-- The full key of an entry is its key behind the name of the section. -/
theorem fullKey_dotted {sec key : List Text} (hsec : sec = [] ∨ IsPath sec) (hkey : IsPath key) :
    fullKey (dotted sec) (dotted key) = dotted (sec ++ key) := by
  rcases hsec with rfl | hsec
  · exact if_pos rfl
  · obtain ⟨b, t, hb, -⟩ := hsec.exists_cons
    rw [dotted_append hsec hkey, fullKey, if_neg (by simp [hb]), List.append_assoc]

/-- A part with blanks behind it. -/
theorem trimWith_part {p blanks : Text} (hp : IsPart p) (hblanks : ∀ b ∈ blanks, isBlank b = true) :
    Text.trimWith isBlank (p ++ blanks) = p := by
  obtain ⟨hne, hp⟩ := hp
  have hlast : (p ++ blanks).rdropWhile isBlank = p := by
    have hkept : isBlank (p.getLast hne) = false :=
      (isKeyByte_facts (hp _ (List.getLast_mem hne))).1
    have hdropped : blanks.rdropWhile isBlank = [] := List.rdropWhile_eq_nil_iff.mpr hblanks
    rw [← List.dropLast_append_getLast hne, List.append_assoc, List.singleton_append,
      Text.rdropWhile_append hkept, hdropped]
  obtain ⟨b, t, rfl⟩ := List.exists_cons_of_ne_nil hne
  rw [List.cons_append, Text.trimWith_cons (isKeyByte_facts (hp b List.mem_cons_self)).1]
  exact hlast

/-- A key is read with or without blanks behind it. -/
theorem IsPath.readKey {parts : List Text} (h : IsPath parts) {blanks : Text}
    (hblanks : ∀ b ∈ blanks, isBlank b = true) :
    readKey (dotted parts ++ blanks) = some (dotted parts) := by
  have hnoDot {p : Text} (hp : IsPart p) : ascii '.' ∉ p := fun hmem =>
    (isKeyByte_facts (hp.2 _ hmem)).2.2.1 rfl
  have hnoBlank : ascii '.' ∉ blanks := fun hmem => absurd (hblanks _ hmem) (by decide)
  have hsplit : ((Text.splitOn (ascii '.') (dotted parts ++ blanks)).map (Text.trimWith isBlank)) =
      parts := by
    obtain ⟨hne, hparts⟩ := h
    rw [dotted]
    induction parts with
    | nil => exact absurd rfl hne
    | cons p ps ih =>
      obtain ⟨hp, hps⟩ := List.forall_mem_cons.mp hparts
      cases ps with
      | nil =>
        have hmem : ascii '.' ∉ p ++ blanks := by
          rw [List.mem_append, not_or]
          exact ⟨hnoDot hp, hnoBlank⟩
        rw [Text.join, Text.splitOn_of_notMem hmem, List.map_singleton, trimWith_part hp hblanks]
      | cons q qs =>
        have hself : Text.trimWith isBlank p = p := by
          have htrim := trimWith_part hp (List.forall_mem_nil (isBlank · = true))
          rwa [List.append_nil] at htrim
        have hdot : utf8 "." = [ascii '.'] := rfl
        rw [Text.join, List.append_assoc, List.append_assoc, hdot, List.singleton_append,
          Text.splitOn_append_cons, Text.splitOn_of_notMem (hnoDot hp), List.map_append,
          List.map_singleton, hself, ← hdot, ih (by simp) hps]
        rfl
  have hall : (parts.all fun part => !part.isEmpty && part.all isKeyByte) = true := by
    rw [List.all_eq_true]
    intro p hp
    obtain ⟨hne, hbytes⟩ := h.2 p hp
    simpa [hne] using hbytes
  rw [Toml.readKey, hsplit]
  exact if_pos hall

/-! ## Headers and lines that say nothing -/

theorem splitOn_idle {line : Text} (h : IsIdle line) : Text.splitOn lineFeed line = [line] := by
  have hfeed {t : Text} (ht : ∀ b ∈ t, isBlank b = true) : lineFeed ∉ t := fun hmem =>
    absurd (ht _ hmem) (by decide)
  refine Text.splitOn_of_notMem ?_
  cases h with
  | blank hblank => exact hfeed hblank
  | comment hblank ht =>
    rw [List.mem_append, List.mem_cons, not_or, not_or]
    exact ⟨hfeed hblank, by decide, ht⟩

theorem ofLine_idle {line : Text} (h : IsIdle line) : Statement.ofLine line = none := by
  have hdrop {t : Text} (ht : ∀ b ∈ t, isBlank b = true) :
      ∀ b ∈ t, (isBlank b || b = lineFeed) = true := fun b hb => by simp [ht b hb]
  cases h with
  | blank hblank =>
    have htrim : trim line = [] := Text.trimWith_of_forall (hdrop hblank)
    simp only [Statement.ofLine, htrim]
  | @comment blanks t hblank ht =>
    have htrim : trim (blanks ++ ascii '#' :: t) = ascii '#' :: cutEnd t := by
      rw [trim, Text.trimWith_append (hdrop hblank), Text.trimWith_cons (by decide)]
      exact Text.rdropWhile_append (by decide) [] t
    simp only [Statement.ofLine, htrim, if_true]

theorem ofLine_header {sec : List Text} :
    Statement.ofLine (ascii '[' :: (dotted sec ++ [ascii ']'])) =
      some (.header (ascii '[' :: (dotted sec ++ [ascii ']']))) := by
  have htrim : trim (ascii '[' :: (dotted sec ++ [ascii ']'])) =
      ascii '[' :: (dotted sec ++ [ascii ']']) := by
    rw [trim, Text.trimWith_cons (by decide), ← List.cons_append]
    exact Text.rdropWhile_concat (by decide) _
  simp only [Statement.ofLine, htrim]
  rfl

theorem readHeader_dotted {sec : List Text} (h : IsPath sec) :
    readHeader (ascii '[' :: (dotted sec ++ [ascii ']'])) = .ok (dotted sec) := by
  have hbytes : ∀ b ∈ ascii '[' :: dotted sec, decide (b ≠ ascii ']') = true := by
    intro b hb
    rw [decide_eq_true_eq]
    rintro rfl
    rcases List.mem_cons.mp hb with hb | hb
    · exact absurd hb (by decide)
    · exact h.notMem_dotted (by decide) (by decide) hb
  have hdrop : (ascii '[' :: (dotted sec ++ [ascii ']'])).dropWhile (· ≠ ascii ']') =
      [ascii ']'] := by
    rw [← List.cons_append, List.dropWhile_append_of_pos hbytes]
    rfl
  have htake : (ascii '[' :: (dotted sec ++ [ascii ']'])).takeWhile (· ≠ ascii ']') =
      ascii '[' :: dotted sec := by
    rw [← List.cons_append, List.takeWhile_append_of_pos hbytes]
    exact List.append_nil _
  have hread := h.readKey (List.forall_mem_nil (isBlank · = true))
  rw [List.append_nil] at hread
  have hname : sectionName (ascii '[' :: (dotted sec ++ [ascii ']'])) = .ok (dotted sec) := by
    rw [sectionName, htake, List.drop_one, List.tail_cons, hread]
  rw [readHeader, hdrop]
  exact hname

/-! ## Entries -/

/-- A value is a single one or an array. -/
theorem Spells.cases {v : Value} {t : Text} (h : Spells v t) :
    Single t v ∨ ∃ ts vs u, t = ascii '[' :: u ∧ Items false ts u ∧ List.Forall₂ Single ts vs ∧
      Pushes (.strs []) vs v := by
  cases h with
  | str t => exact .inl (single_quote t)
  | int hn => exact .inl (single_ofInt hn)
  | bool b => exact .inl (single_bool b)
  | @strs ts u hitems =>
    refine .inr ⟨_, ts.map .str, u, rfl, hitems, ?_, pushes_strs [] ts⟩
    rw [List.forall₂_map_left_iff, List.forall₂_map_right_iff]
    exact List.forall₂_same.mpr fun t _ => single_quote t
  | @ints ns u hne hns hitems =>
    refine .inr ⟨_, ns.map .int, u, rfl, hitems, ?_, ?_⟩
    · rw [List.forall₂_map_left_iff, List.forall₂_map_right_iff]
      exact List.forall₂_same.mpr fun n hn => single_ofInt (hns n hn)
    · obtain ⟨n, rest, rfl⟩ := List.exists_cons_of_ne_nil hne
      exact .cons rfl (pushes_ints [n] rest)

theorem exists_single {ts : List Text} {vs : List Value} (h : List.Forall₂ Single ts vs) :
    ∀ t ∈ ts, ∃ v, Single t v := by
  induction h with
  | nil => simp
  | cons hfirst _ ih => exact List.forall_mem_cons.mpr ⟨⟨_, hfirst⟩, ih⟩

theorem Value.ofText_of_readValue {t : Text} {v : Value} (hstart : ∃ b ∈ t.head?, isBlank b = false)
    (h : readValue t = .ok (v, [])) : Value.ofText (ascii ' ' :: t) = .ok v := by
  obtain ⟨b, hb, hblank⟩ := hstart
  obtain ⟨t', rfl⟩ := List.head?_eq_some_iff.mp hb
  have hdrop : (ascii ' ' :: b :: t').dropWhile isBlank = b :: t' := by
    rw [List.dropWhile_cons_of_pos (by decide), List.dropWhile_cons_of_neg (by simp [hblank])]
  rw [Value.ofText, hdrop, h]
  rfl

theorem Single.ofText {t : Text} {v : Value} (h : Single t v) :
    Value.ofText (ascii ' ' :: t) = .ok v := by
  obtain ⟨b, hb, hblank, -, -, hopen, -⟩ := h.start
  refine Value.ofText_of_readValue ⟨b, hb, hblank⟩ ?_
  have hread := h.reads [] (by simp)
  rw [List.append_nil] at hread
  obtain ⟨t', rfl⟩ := List.head?_eq_some_iff.mp hb
  rw [readValue.eq_def]
  exact (if_neg hopen).trans hread

theorem Items.ofText {ts : List Text} {u : Text} (h : Items false ts u) {vs : List Value}
    (hts : List.Forall₂ Single ts vs) {v : Value} (hv : Pushes (.strs []) vs v) :
    Value.ofText (ascii ' ' :: ascii '[' :: u) = .ok v := by
  refine Value.ofText_of_readValue ⟨ascii '[', rfl, by decide⟩ ?_
  have hread := h.reads hts hv []
  rw [List.append_nil] at hread
  exact hread

/-- Blanks at the end of a line open and close no brackets. -/
theorem balance_cutEnd (line : Text) :
    bracketBalance none false (cutEnd line) = bracketBalance none false line := by
  have hblanks (q : Option UInt8) (escaped : Bool) {t : Text}
      (ht : ∀ b ∈ t, (isBlank b || b = lineFeed) = true) : bracketBalance q escaped t = 0 := by
    induction t generalizing q escaped with
    | nil => cases q <;> rfl
    | cons b t ih =>
      obtain ⟨hb, ht⟩ := List.forall_mem_cons.mp ht
      have hother : b ≠ ascii '#' ∧ b ≠ ascii '"' ∧ b ≠ ascii '\'' ∧ b ≠ ascii '[' ∧
          b ≠ ascii ']' := by
        simp only [isBlank, Bool.or_eq_true, decide_eq_true_eq] at hb
        rcases hb with ((rfl | rfl) | rfl) | rfl <;> decide
      cases q with
      | some q =>
        rw [bracketBalance]
        split
        · exact ih _ _ ht
        · split <;> exact ih _ _ ht
      | none =>
        rw [bracketBalance]
        simp only [hother, decide_false, Bool.or_self, Bool.false_eq_true, if_false]
        exact ih _ _ ht
  have happend (q : Option UInt8) (escaped : Bool) (s : Text) {t : Text}
      (ht : ∀ b ∈ t, (isBlank b || b = lineFeed) = true) :
      bracketBalance q escaped (s ++ t) = bracketBalance q escaped s := by
    induction s generalizing q escaped with
    | nil =>
      rw [List.nil_append, hblanks q escaped ht]
      cases q <;> rfl
    | cons b s ih => cases q <;> simp only [List.cons_append, bracketBalance, ih]
  have hsplit : line = cutEnd line ++ line.rtakeWhile fun b => isBlank b || b = lineFeed :=
    List.rdropWhile_append_rtakeWhile.symm
  conv_rhs => rw [hsplit]
  refine (happend none false _ fun b hb => ?_).symm
  exact List.mem_rtakeWhile_imp (p := fun b => isBlank b || b = lineFeed) hb

/-- What is trimmed off the first line of an entry stands at its end. -/
theorem ofLine_entry {key : List Text} (hkey : IsPath key) {line value : Text}
    (htrim : trim line = dotted key ++ (utf8 " = " ++ value)) :
    Statement.ofLine line = some (.entry (dotted key ++ utf8 " ") (ascii ' ' :: value)) := by
  have hbytes : ∀ b ∈ dotted key ++ utf8 " ", decide (b ≠ ascii '=') = true := by
    intro b hb
    rw [decide_eq_true_eq]
    rintro rfl
    rcases List.mem_append.mp hb with hb | hb
    · exact hkey.notMem_dotted (by decide) (by decide) hb
    · exact absurd hb (by decide)
  have hsplit : dotted key ++ (utf8 " = " ++ value) =
      dotted key ++ utf8 " " ++ ascii '=' :: ascii ' ' :: value := by
    rw [List.append_assoc]
    rfl
  have hdrop : (dotted key ++ utf8 " " ++ ascii '=' :: ascii ' ' :: value).dropWhile
      (· ≠ ascii '=') = ascii '=' :: ascii ' ' :: value := by
    rw [List.dropWhile_append_of_pos hbytes]
    rfl
  have htake : (dotted key ++ utf8 " " ++ ascii '=' :: ascii ' ' :: value).takeWhile
      (· ≠ ascii '=') = dotted key ++ utf8 " " := by
    rw [List.takeWhile_append_of_pos hbytes]
    exact List.append_nil _
  obtain ⟨b, t, hb, hfirst⟩ := hkey.exists_cons
  obtain ⟨-, -, -, -, hhash, hopen, -⟩ := isKeyByte_facts hfirst
  rw [hsplit] at htrim
  rw [hb, List.cons_append, List.cons_append] at htrim hdrop htake
  simp only [Statement.ofLine, htrim, hhash, hopen, if_false, hdrop, htake]
  rw [hb, List.cons_append]

/-- An open entry takes the lines up to the one that closes its array. -/
theorem statements_closes {lines : List Text} (h : Closes lines) (n : Nat) {e : OpenEntry}
    (he : e.depth = 1) (more : List Text) :
    statements n (some e) (lines ++ more) =
      (e.line, .entry e.key (e.value ++ lineFeed :: Text.join [lineFeed] lines)) ::
        statements (n + lines.length) none more := by
  induction h generalizing n e with
  | last hline =>
    rw [List.singleton_append, statements]
    simp only [he, hline]
    rw [if_neg (by decide), List.append_assoc]
    rfl
  | @line line lines hline hlines ih =>
    rw [List.cons_append, statements]
    simp only [he, hline]
    rw [if_pos (by decide), ih (n + 1) rfl, List.length_cons]
    obtain ⟨next, rest, rfl⟩ : ∃ next rest, lines = next :: rest := by
      cases hlines <;> exact ⟨_, _, rfl⟩
    rw [Text.join_cons_cons, Nat.add_assoc, Nat.add_comm 1]
    simp only [List.append_assoc, List.cons_append, List.nil_append]

theorem trim_entry {key : List Text} (hkey : IsPath key) {b : UInt8} (hb : isBlank b = false)
    (hfeed : b ≠ lineFeed) (s t : Text) :
    trim (dotted key ++ (utf8 " = " ++ (s ++ b :: t))) =
      dotted key ++ (utf8 " = " ++ (s ++ b :: cutEnd t)) := by
  obtain ⟨c, k, hc, hfirst⟩ := hkey.exists_cons
  obtain ⟨hblank, hnot, -⟩ := isKeyByte_facts hfirst
  have hkept : (isBlank b || decide (b = lineFeed)) = false := by simp [hb, hfeed]
  have hcut : (dotted key ++ (utf8 " = " ++ s) ++ b :: t).rdropWhile
      (fun b => isBlank b || decide (b = lineFeed)) = _ := Text.rdropWhile_append hkept _ t
  rw [List.append_assoc, List.append_assoc, List.append_assoc, List.append_assoc] at hcut
  rw [hc, List.cons_append] at hcut ⊢
  rw [trim, Text.trimWith_cons (by simp [hblank, hnot])]
  exact hcut

/-- An entry makes one statement, and its value is read off it. -/
theorem statements_entry {key : List Text} (hkey : IsPath key) {v : Value} {t : Text}
    (hv : Spells v t) : ∃ value k, Value.ofText value = .ok v ∧ ∀ n more,
      statements n none (Text.splitOn lineFeed (dotted key ++ (utf8 " = " ++ t)) ++ more) =
        (n, .entry (dotted key ++ utf8 " ") value) :: statements (n + k) none more := by
  have hnoFeed : lineFeed ∉ dotted key ++ utf8 " = " := by
    rw [List.mem_append, not_or]
    exact ⟨hkey.notMem_dotted (by decide) (by decide), by decide⟩
  rcases hv.cases with hsingle | ⟨ts, vs, u, rfl, hitems, hts, hpushes⟩
  · have hline : lineFeed ∉ dotted key ++ (utf8 " = " ++ t) := by
      rw [← List.append_assoc, List.mem_append, not_or]
      exact ⟨hnoFeed, hsingle.oneLine⟩
    have htrim : trim (dotted key ++ (utf8 " = " ++ t)) = dotted key ++ (utf8 " = " ++ t) := by
      have hfeed := hsingle.oneLine
      obtain ⟨s, b, rfl, hblank⟩ := hsingle.last
      exact trim_entry hkey hblank (by rintro rfl; exact hfeed (by simp)) s []
    have hbalance : bracketBalance none false (ascii ' ' :: t) = 0 := by
      have hsame := hsingle.balance []
      rw [List.append_nil] at hsame
      rw [balance_blank (by decide), hsame]
      rfl
    refine ⟨ascii ' ' :: t, 1, hsingle.ofText, fun n more => ?_⟩
    rw [Text.splitOn_of_notMem hline, List.singleton_append, statements, ofLine_entry hkey htrim]
    simp only [hbalance]
    exact if_neg (by decide)
  · have hsingles := exists_single hts
    obtain ⟨line, lines, hu⟩ := Text.exists_splitOn lineFeed u
    have hcut := (hitems.cutEnd hsingles hu).ofText hts hpushes
    have hcloses := hitems.closes hsingles
    rw [hu] at hcloses
    have hsplit : Text.splitOn lineFeed (dotted key ++ (utf8 " = " ++ ascii '[' :: u)) =
        (dotted key ++ (utf8 " = " ++ ascii '[' :: line)) :: lines := by
      have hfirst := Text.splitOn_append_of_notMem hnoFeed
        (Text.splitOn_cons_of_ne (b := ascii '[') (by decide) hu)
      rwa [List.append_assoc, List.append_assoc] at hfirst
    have htrim := trim_entry hkey (b := ascii '[') (by decide) (by decide) [] line
    rw [List.nil_append, List.nil_append] at htrim
    have hopen : bracketBalance none false (ascii ' ' :: ascii '[' :: cutEnd line) =
        bracketBalance none false line + 1 := by
      rw [← balance_cutEnd line]
      rfl
    refine ⟨_, 1 + lines.length, hcut, fun n more => ?_⟩
    rw [hsplit, List.cons_append, statements, ofLine_entry hkey htrim]
    simp only [hopen]
    cases hcloses with
    | last hline =>
      rw [hline]
      exact if_neg (by decide)
    | line hline hlines =>
      obtain ⟨next, rest, rfl⟩ : ∃ next rest, lines = next :: rest := by
        cases hlines <;> exact ⟨_, _, rfl⟩
      rw [if_pos (by omega), statements_closes hlines (n + 1) (by simp [hline]),
        Text.join_cons_cons, ← Nat.add_assoc]
      simp only [List.append_assoc, List.cons_append, List.nil_append]

/-! ## Tables -/

namespace Table

variable {key : Text} {value : Value} {table : Table}

theorem get?_eq_none (h : key ∉ table.map Prod.fst) : table.get? key = none := by
  induction table with
  | nil => rfl
  | cons e rest ih =>
    rw [List.map_cons, List.mem_cons, not_or] at h
    rw [get?, if_neg (Ne.symm h.1), ih h.2]

theorem get?_eq_some_iff (h : (table.map Prod.fst).Nodup) :
    table.get? key = some value ↔ (key, value) ∈ table := by
  induction table with
  | nil => simp [get?]
  | cons e rest ih =>
    rw [List.map_cons, List.nodup_cons] at h
    rw [get?, List.mem_cons]
    by_cases hkey : e.1 = key
    · have hother : (key, value) ∉ rest := fun hmem =>
        h.1 (hkey ▸ List.mem_map_of_mem (f := Prod.fst) hmem)
      rw [if_pos hkey, or_iff_left hother, Option.some_inj, Prod.ext_iff]
      exact ⟨fun hvalue => ⟨hkey.symm, hvalue.symm⟩, fun hsame => hsame.2.symm⟩
    · rw [if_neg hkey, ih h.2]
      exact ⟨.inr, fun hmem => hmem.resolve_left fun hsame => hkey (congrArg Prod.fst hsame).symm⟩

/-- A new key is added to the others. -/
theorem set_perm (h : key ∉ table.map Prod.fst) (value : Value) :
    (table.set key value).Perm ((key, value) :: table) := by
  induction table with
  | nil => exact .refl _
  | cons e rest ih =>
    rw [List.map_cons, List.mem_cons, not_or] at h
    rw [set]
    split
    · exact .refl _
    · next heq => exact absurd (Std.LawfulEqCmp.eq_of_compare heq) h.1
    · exact ((ih h.2).cons e).trans (.swap _ _ _)

end Table

/-! ## Files -/

/-- The entries that rows write are added to the table. -/
theorem Writes.extend {sec : List Text} {es : List (List Text × Value)} {rows : List Text}
    (h : Writes sec es rows) (hsec : sec = [] ∨ IsPath sec) (n : Nat) {doc : Document}
    (hdistinct : (doc.table.map Prod.fst ++ es.map fun e => dotted e.1).Nodup) :
    ∃ table : Table,
      doc.extend (dotted sec) (statements n none (rows.flatMap (Text.splitOn lineFeed))) =
        { doc with table } ∧
      table.Perm (doc.table ++ es.map fun e => (dotted e.1, e.2)) := by
  induction h generalizing n doc with
  | done => exact ⟨doc.table, rfl, by simp⟩
  | idle hline _ ih =>
    obtain ⟨table, hextend, hperm⟩ := ih hsec (n + 1) hdistinct
    refine ⟨table, ?_, hperm⟩
    rw [List.flatMap_cons, splitOn_idle hline, List.singleton_append, statements, ofLine_idle hline]
    exact hextend
  | @header sec sec' es rows hsec' _ ih =>
    obtain ⟨table, hextend, hperm⟩ := ih (.inr hsec') (n + 1) hdistinct
    refine ⟨table, ?_, hperm⟩
    have hline : lineFeed ∉ ascii '[' :: (dotted sec' ++ [ascii ']']) := by
      rw [List.mem_cons, List.mem_append, not_or, not_or]
      exact ⟨by decide, hsec'.notMem_dotted (by decide) (by decide), by decide⟩
    rw [List.flatMap_cons, Text.splitOn_of_notMem hline, List.singleton_append, statements,
      ofLine_header]
    show doc.extend (dotted sec) ((n, .header _) :: _) = _
    rw [Document.extend, readHeader_dotted hsec']
    exact hextend
  | @entry sec key v t es rows hkey hv _ ih =>
    obtain ⟨value, k, hvalue, hstatements⟩ := statements_entry hkey hv
    rw [List.map_cons] at hdistinct
    have hnew : dotted (sec ++ key) ∉ doc.table.map Prod.fst := fun hmem =>
      (List.nodup_append.mp hdistinct).2.2 _ hmem _ List.mem_cons_self rfl
    have hset := Table.set_perm hnew v
    have hdistinct' :
        (({ doc with table := doc.table.set (dotted (sec ++ key)) v } : Document).table.map Prod.fst ++
          es.map fun e => dotted e.1).Nodup := by
      refine (((hset.map Prod.fst).append_right _).nodup_iff).mpr ?_
      exact (List.perm_middle.nodup_iff).mp hdistinct
    obtain ⟨table, hextend, hperm⟩ :=
      ih hsec (n + k) hdistinct'
    refine ⟨table, ?_, ?_⟩
    · have hentry : readEntry (dotted key ++ utf8 " ") value = .ok (dotted key, v) := by
        rw [readEntry, hkey.readKey (by decide), hvalue]
        rfl
      rw [List.flatMap_cons, hstatements, Document.extend, hentry]
      simp only [fullKey_dotted hsec hkey, Table.get?_eq_none hnew, Option.isSome_none,
        Bool.false_eq_true, if_false]
      exact hextend
    · refine hperm.trans ((hset.append_right _).trans ?_)
      exact List.perm_middle.symm

/-- A map that is written as a settings file is read back from it, without a fault and without a
warning. -/
theorem Document.ofText_writes {es : List (List Text × Value)} {rows : List Text}
    (h : Writes [] es rows) (hdistinct : (es.map fun e => dotted e.1).Nodup) :
    let doc := Document.ofText (Text.join [lineFeed] rows)
    doc.fault = none ∧ doc.repeated = [] ∧
      doc.table.Perm (es.map fun e => (dotted e.1, e.2)) ∧
      ∀ k v, doc.table.get? k = some v ↔ ∃ e ∈ es, dotted e.1 = k ∧ e.2 = v := by
  intro doc
  obtain ⟨table, hextend, hperm⟩ := @Writes.extend [] es rows h (.inl rfl) 1 {} hdistinct
  rw [List.nil_append] at hperm
  have hdoc : doc = { table } := by
    rw [← hextend]
    show Document.extend {} [] (statements 1 none (Text.splitOn lineFeed _)) = _
    by_cases hrows : rows = []
    · rw [hrows]
      rfl
    · rw [Text.splitOn_join lineFeed hrows]
      rfl
  have hkeys : (table.map Prod.fst).Nodup := by
    rw [(hperm.map Prod.fst).nodup_iff, List.map_map]
    exact hdistinct
  rw [hdoc]
  refine ⟨rfl, rfl, hperm, fun k v => ?_⟩
  rw [Table.get?_eq_some_iff hkeys, hperm.mem_iff, List.mem_map]
  simp only [Prod.mk.injEq]

/-- A string full of marks, the least integer, and an array over several lines in a section, with a
bracket and a quote in a comment. -/
theorem Document.ofText_sample :
    let doc := Document.ofText (utf8 ("# settings\ntitle = \"a # b = [c] \\\"d\\\" \\\\ 'e'\\n\"\n\n" ++
      "[scan.limits]\nleast = -9223372036854775808\npaths = [ # ]\"\n\"x]\", # [\n\"y\"\n]"))
    doc.fault = none ∧ doc.repeated = [] ∧
      doc.table.get? (utf8 "title") = some (.str (utf8 "a # b = [c] \"d\" \\ 'e'\n")) ∧
      doc.table.get? (utf8 "scan.limits.least") = some (.int (-9223372036854775808)) ∧
      doc.table.get? (utf8 "scan.limits.paths") = some (.strs [utf8 "x]", utf8 "y"]) := by
  have hitems : Items false ([utf8 "x]", utf8 "y"].map quote) _ :=
    .gap (.blank (b := ascii ' ') rfl) (.gap (.comment (t := utf8 " ]\"") (by decide)) (.item (.comma
      (.gap (.blank (b := ascii ' ') rfl) (.gap (.comment (t := utf8 " [") (by decide))
        (.item (.gap .feed .close)))))))
  let es : List (List Text × Value) := [([utf8 "title"], .str (utf8 "a # b = [c] \"d\" \\ 'e'\n")),
    ([utf8 "scan", utf8 "limits", utf8 "least"], .int (-9223372036854775808)),
    ([utf8 "scan", utf8 "limits", utf8 "paths"], .strs [utf8 "x]", utf8 "y"])]
  have hcomment : IsIdle (utf8 "# settings") :=
    .comment (List.forall_mem_nil (isBlank · = true)) (t := utf8 " settings") (by decide)
  have hwrites : Writes [utf8 "scan", utf8 "limits"] [([utf8 "scan", utf8 "limits", utf8 "least"],
      .int (-9223372036854775808)), ([utf8 "scan", utf8 "limits", utf8 "paths"],
        .strs [utf8 "x]", utf8 "y"])] _ :=
    @Writes.entry _ [utf8 "least"] _ _ _ _ (by decide) (.int (by decide))
      (@Writes.entry _ [utf8 "paths"] _ _ _ _ (by decide) (.strs hitems) .done)
  obtain ⟨rows, hrows, h⟩ : ∃ rows, Text.join [lineFeed] rows =
      utf8 ("# settings\ntitle = \"a # b = [c] \\\"d\\\" \\\\ 'e'\\n\"\n\n" ++
        "[scan.limits]\nleast = -9223372036854775808\npaths = [ # ]\"\n\"x]\", # [\n\"y\"\n]") ∧
      Writes [] es rows := by
    refine ⟨_, ?_, .idle hcomment (@Writes.entry [] [utf8 "title"] _ _ _ _ (by decide) (.str _)
      (.idle (.blank (List.forall_mem_nil (isBlank · = true))) (.header (by decide) hwrites)))⟩
    decide +kernel
  obtain ⟨hfault, hrepeated, -, hget⟩ := Document.ofText_writes h (by decide +kernel)
  rw [hrows] at hfault hrepeated hget
  refine ⟨hfault, hrepeated, (hget _ _).mpr ?_, (hget _ _).mpr ?_, (hget _ _).mpr ?_⟩
  · exact ⟨es[0], by simp [es], by decide +kernel, rfl⟩
  · exact ⟨es[1], by simp [es], by decide +kernel, rfl⟩
  · exact ⟨es[2], by simp [es], by decide +kernel, rfl⟩

end CloneScout.Toml
