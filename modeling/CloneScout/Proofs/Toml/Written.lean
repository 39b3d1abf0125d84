import CloneScout.Proofs.Number.Numeral
import CloneScout.Proofs.Text.Split
import CloneScout.Toml.Document
import Mathlib.Data.List.Forall2

/-!
# Written values

A value of a settings file is written in one of many ways: an array may run over several lines, with
blanks and comments between its parts. Whichever way it is written, it is read back, and the
brackets that are counted outside strings and comments say where it ends.
-/

namespace CloneScout.Toml

/-! ## Ways to write a value -/

/-- A byte of a string between double quotes. -/
def escapeByte (b : UInt8) : Text :=
  if b = ascii '"' || b = ascii '\\' then [ascii '\\', b]
  else if b = lineFeed then utf8 "\\n"
  else if b = ascii '\t' then utf8 "\\t"
  else if b = ascii '\r' then utf8 "\\r"
  else [b]

def quote (t : Text) : Text := ascii '"' :: (t.flatMap escapeByte ++ [ascii '"'])

/-- What may stand between the parts of an array: a blank, the end of a line, or a comment up to the
end of its line. -/
inductive IsGap : Text → Prop where
  | blank {b : UInt8} (h : isBlank b = true) : IsGap [b]
  | feed : IsGap [lineFeed]
  | comment {t : Text} (h : lineFeed ∉ t) : IsGap (ascii '#' :: (t ++ [lineFeed]))

/-- An array from some point on, with the items that are still to come, up to its closing bracket.
Behind an item comes a comma or the bracket; the last item may have a comma too. -/
inductive Items : (behindItem : Bool) → List Text → Text → Prop where
  | close {behindItem : Bool} : Items behindItem [] [ascii ']']
  | gap {behindItem : Bool} {ts : List Text} {g u : Text} (hg : IsGap g)
      (h : Items behindItem ts u) : Items behindItem ts (g ++ u)
  | item {t : Text} {ts : List Text} {u : Text} (h : Items true ts u) :
      Items false (t :: ts) (t ++ u)
  | comma {ts : List Text} {u : Text} (h : Items false ts u) : Items true ts (ascii ',' :: u)

/-- The text is a way to write the value. Integers have 64 bits; an empty array holds strings. -/
inductive Spells : Value → Text → Prop where
  | str (t : Text) : Spells (.str t) (quote t)
  | int {n : Int} (h : Word.fitsLong n = true) : Spells (.int n) (Text.ofInt n)
  | bool (b : Bool) : Spells (.bool b) (utf8 (if b then "true" else "false"))
  | strs {ts : List Text} {u : Text} (h : Items false (ts.map quote) u) :
      Spells (.strs ts) (ascii '[' :: u)
  | ints {ns : List Int} {u : Text} (hne : ns ≠ []) (hns : ∀ n ∈ ns, Word.fitsLong n = true)
      (h : Items false (ns.map Text.ofInt) u) : Spells (.ints ns) (ascii '[' :: u)

/-! ## Single values -/

/-- A byte that neither surrounds values nor stands between them. -/
def IsStart (b : UInt8) : Prop :=
  isBlank b = false ∧ b ≠ lineFeed ∧ b ≠ ascii '#' ∧ b ≠ ascii '[' ∧ b ≠ ascii ']'

/-- The text of a value that is no array. -/
structure Single (t : Text) (v : Value) : Prop where
  start : ∃ b ∈ t.head?, IsStart b
  oneLine : lineFeed ∉ t
  last : ∃ s b, t = s ++ [b] ∧ isBlank b = false
  balance : ∀ r, bracketBalance none false (t ++ r) = bracketBalance none false r
  reads : ∀ r : Text, (∀ b ∈ r.head?, endsWord b = true) → readSingle (t ++ r) = .ok (v, r)

theorem escapeByte_cases (b : UInt8) :
    (∃ e, escapeByte b = [ascii '\\', e] ∧ escapeOf e = some b ∧ e ≠ lineFeed) ∨
      escapeByte b = [b] ∧ b ≠ lineFeed ∧ b ≠ ascii '"' ∧ b ≠ ascii '\\' := by
  unfold escapeByte
  by_cases hself : (b = ascii '"' || b = ascii '\\') = true
  · rw [if_pos hself]
    left
    simp only [Bool.or_eq_true, decide_eq_true_eq] at hself
    rcases hself with rfl | rfl <;> exact ⟨_, rfl, by decide⟩
  · rw [if_neg hself]
    simp only [Bool.or_eq_true, decide_eq_true_eq, not_or] at hself
    by_cases hfeed : b = lineFeed
    · rw [if_pos hfeed, hfeed]
      exact .inl ⟨ascii 'n', by decide⟩
    by_cases htab : b = ascii '\t'
    · rw [if_neg hfeed, if_pos htab, htab]
      exact .inl ⟨ascii 't', by decide⟩
    by_cases hreturn : b = ascii '\r'
    · rw [if_neg hfeed, if_neg htab, if_pos hreturn, hreturn]
      exact .inl ⟨ascii 'r', by decide⟩
    · rw [if_neg hfeed, if_neg htab, if_neg hreturn]
      exact .inr ⟨rfl, hfeed, hself⟩

/-- What is read off a string behind its opening quote, byte by byte. -/
theorem readString_cons (b : UInt8) (t : Text) : readString (ascii '"') (b :: t) =
    if b = lineFeed then .error .openString
    else if b = ascii '"' then .ok ([], t)
    else if b ≠ ascii '\\' then (readString (ascii '"') t).map fun r => (b :: r.1, r.2)
    else
      match t with
      | [] => .error .openString
      | e :: t =>
        match escapeOf e with
        | none => .error (.escape e)
        | some c => (readString (ascii '"') t).map fun r => (c :: r.1, r.2) := by
  rw [readString.eq_def]
  simp only [show (ascii '"' = ascii '\'') = False by decide, decide_false, Bool.false_or,
    decide_eq_true_eq]
  rfl

theorem readString_flatMap (t r : Text) :
    readString (ascii '"') (t.flatMap escapeByte ++ ascii '"' :: r) = .ok (t, r) := by
  induction t with
  | nil =>
    rw [List.flatMap_nil, List.nil_append, readString_cons]
    rfl
  | cons b t ih =>
    rw [List.flatMap_cons, List.append_assoc]
    rcases escapeByte_cases b with ⟨e, hwritten, hescape, -⟩ | ⟨hwritten, hfeed, hquote, hslash⟩
    · rw [hwritten, List.cons_append, readString_cons, if_neg (by decide), if_neg (by decide),
        if_neg (by decide), List.singleton_append]
      simp only [hescape, ih]
      rfl
    · rw [hwritten, List.singleton_append, readString_cons, if_neg hfeed, if_neg hquote,
        if_pos hslash, ih]
      rfl

theorem balance_flatMap (t r : Text) :
    bracketBalance (some (ascii '"')) false (t.flatMap escapeByte ++ ascii '"' :: r) =
      bracketBalance none false r := by
  induction t with
  | nil => rfl
  | cons b t ih =>
    rw [List.flatMap_cons, List.append_assoc]
    rcases escapeByte_cases b with ⟨e, hwritten, -, -⟩ | ⟨hwritten, -, hquote, hslash⟩
    · rw [hwritten]
      exact ih
    · rw [hwritten, List.singleton_append, bracketBalance]
      simp only [hquote, hslash, Bool.false_eq_true, if_false, decide_false, Bool.and_false]
      exact ih

theorem single_quote (t : Text) : Single (quote t) (.str t) where
  start := ⟨ascii '"', rfl, by decide, by decide, by decide, by decide, by decide⟩
  oneLine := by
    rw [quote, List.mem_cons, List.mem_append, List.mem_flatMap]
    rintro (h | ⟨b, -, hb⟩ | h)
    · exact absurd h (by decide)
    · rcases escapeByte_cases b with ⟨e, hwritten, -, he⟩ | ⟨hwritten, hfeed, -, -⟩
      · rw [hwritten, List.mem_cons, List.mem_singleton] at hb
        rcases hb with hb | hb
        · exact absurd hb (by decide)
        · exact he hb.symm
      · rw [hwritten, List.mem_singleton] at hb
        exact hfeed hb.symm
    · exact absurd h (by decide)
  last := ⟨ascii '"' :: t.flatMap escapeByte, ascii '"', rfl, by decide⟩
  balance r := by
    rw [quote, List.cons_append, List.append_assoc]
    exact balance_flatMap t r
  reads r _ := by
    rw [quote, List.cons_append, List.append_assoc, readSingle, if_pos (by decide)]
    show (readString (ascii '"') (t.flatMap escapeByte ++ ascii '"' :: r)).map _ = _
    rw [readString_flatMap]
    rfl

/-! ## Bare words -/

/-- A byte of a bare word that takes part in no bracket or string. -/
def IsBare (b : UInt8) : Prop :=
  endsWord b = false ∧ b ≠ ascii '"' ∧ b ≠ ascii '\'' ∧ b ≠ ascii '['

theorem single_word {t : Text} {v : Value} (hne : t ≠ []) (ht : ∀ b ∈ t, IsBare b)
    (hread : readWord t = .ok v) : Single t v := by
  have hfacts : ∀ b, IsBare b → isBlank b = false ∧ b ≠ lineFeed ∧ b ≠ ascii '#' ∧ b ≠ ascii ']' := by
    intro b hb
    have hends := hb.1
    simp only [endsWord, Bool.or_eq_false_iff, decide_eq_false_iff_not] at hends
    exact ⟨hends.1.1.1.1, hends.1.1.1.2, hends.2, hends.1.2⟩
  obtain ⟨b, rest, rfl⟩ := List.exists_cons_of_ne_nil hne
  have hfirst := ht b List.mem_cons_self
  refine ⟨⟨b, rfl, ?_⟩, fun hfeed => ?_, ?_, fun r => ?_, fun r hr => ?_⟩
  · obtain ⟨hblank, hfeed, hhash, hclose⟩ := hfacts b hfirst
    exact ⟨hblank, hfeed, hhash, hfirst.2.2.2, hclose⟩
  · exact (hfacts _ (ht _ hfeed)).2.1 rfl
  · refine ⟨(b :: rest).dropLast, (b :: rest).getLast hne, ?_, ?_⟩
    · exact (List.dropLast_append_getLast hne).symm
    · exact (hfacts _ (ht _ (List.getLast_mem hne))).1
  · clear hread hfirst hne
    generalize b :: rest = t at ht
    induction t with
    | nil => rfl
    | cons c t ih =>
      obtain ⟨hc, ht⟩ := List.forall_mem_cons.mp ht
      obtain ⟨-, -, hhash, hclose⟩ := hfacts c hc
      obtain ⟨-, hdouble, hsingle, hopen⟩ := hc
      rw [List.cons_append, bracketBalance]
      simp only [hhash, hclose, hdouble, hsingle, hopen, decide_false, Bool.or_self,
        Bool.false_eq_true, if_false]
      exact ih ht
  · have hall : ∀ c ∈ b :: rest, (!endsWord c) = true := fun c hc => by rw [(ht c hc).1]; rfl
    have htake : (b :: rest ++ r).takeWhile (fun b => !endsWord b) = b :: rest := by
      rw [List.takeWhile_append_of_pos hall]
      cases r with
      | nil => simp
      | cons c r => rw [List.takeWhile_cons_of_neg (by simp [hr c rfl]), List.append_nil]
    have hdrop : (b :: rest ++ r).dropWhile (fun b => !endsWord b) = r := by
      rw [List.dropWhile_append_of_pos hall]
      cases r with
      | nil => rfl
      | cons c r => rw [List.dropWhile_cons_of_neg (by simp [hr c rfl])]
    rw [readSingle.eq_def]
    show (if b = ascii '"' || b = ascii '\'' then _ else
      (readWord ((b :: rest ++ r).takeWhile fun b => !endsWord b)).map fun v =>
        (v, (b :: rest ++ r).dropWhile fun b => !endsWord b)) = _
    rw [if_neg (by simp [hfirst.2.1, hfirst.2.2.1]), htake, hdrop, hread]
    rfl

theorem readDigits_of_isDigit {t : Text} (ht : ∀ b ∈ t, Text.isDigit b = true) {acc : Nat}
    {behind : Bool} (hany : behind = true ∨ t ≠ []) :
    readDigits acc behind t = some (Text.natOfDigits acc t) := by
  induction t generalizing acc behind with
  | nil =>
    have hsome : behind = true := hany.resolve_right (by simp)
    rw [readDigits, if_pos hsome]
    rfl
  | cons b t ih =>
    obtain ⟨hb, ht⟩ := List.forall_mem_cons.mp ht
    have hmark : b ≠ ascii '_' := by
      rintro rfl
      exact absurd hb (by decide)
    rw [readDigits, if_neg hmark, if_pos hb, ih ht (.inl rfl)]
    rfl

theorem readDigits_ofNat (n : Nat) : readDigits 0 false (Text.ofNat n) = some n := by
  rw [readDigits_of_isDigit (fun _ => Text.isDigit_of_mem_ofNat) (.inr (Text.ofNat_ne_nil n)),
    Text.natOfDigits_ofNat]

theorem isBare_of_isDigit {b : UInt8} (h : Text.isDigit b = true) : IsBare b := by
  have hall : ∀ n < 256, Text.isDigit (UInt8.ofNat n) = true → endsWord (UInt8.ofNat n) = false ∧
      UInt8.ofNat n ≠ ascii '"' ∧ UInt8.ofNat n ≠ ascii '\'' ∧ UInt8.ofNat n ≠ ascii '[' := by
    decide +kernel
  have hb := hall b.toNat b.toNat_lt
  rw [UInt8.ofNat_toNat] at hb
  exact hb h

theorem readInt_ofInt {n : Int} (h : Word.fitsLong n = true) :
    readInt (Text.ofInt n) = some n := by
  cases n with
  | ofNat n =>
    obtain ⟨b, rest, hb⟩ := List.exists_cons_of_ne_nil (Text.ofNat_ne_nil n)
    have hdigit : Text.isDigit b = true := Text.isDigit_of_mem_ofNat (n := n) (by rw [hb]; simp)
    have hsign : b ≠ ascii '-' ∧ b ≠ ascii '+' := by
      constructor <;> rintro rfl <;> exact absurd hdigit (by decide)
    have hread := readDigits_ofNat n
    rw [Text.ofInt, hb, readInt.eq_def]
    rw [hb] at hread
    simp only [hsign.1, hsign.2, if_false, hread]
    show Option.filter Word.fitsLong (some (Int.ofNat n)) = _
    rw [Option.filter_some, if_pos h]
  | negSucc n =>
    rw [Text.ofInt, readInt.eq_def]
    simp only [if_true, readDigits_ofNat]
    show Option.filter Word.fitsLong (some (Int.negSucc n)) = _
    rw [Option.filter_some, if_pos h]

theorem single_ofInt {n : Int} (h : Word.fitsLong n = true) : Single (Text.ofInt n) (.int n) := by
  have hbytes : ∀ b ∈ Text.ofInt n, Text.isDigit b = true ∨ b = ascii '-' := by
    intro b hb
    cases n with
    | ofNat n => exact .inl (Text.isDigit_of_mem_ofNat hb)
    | negSucc n =>
      rcases List.mem_cons.mp hb with rfl | hb
      · exact .inr rfl
      · exact .inl (Text.isDigit_of_mem_ofNat hb)
  have hne : Text.ofInt n ≠ [] := by
    cases n with
    | ofNat n => exact Text.ofNat_ne_nil n
    | negSucc n => exact List.cons_ne_nil _ _
  refine single_word hne (fun b hb => ?_) ?_
  · rcases hbytes b hb with hdigit | rfl
    · exact isBare_of_isDigit hdigit
    · exact ⟨by decide, by decide, by decide, by decide⟩
  · have hword (w : Text) (hw : ∃ b ∈ w, Text.isDigit b = false ∧ b ≠ ascii '-') :
        Text.ofInt n ≠ w := by
      rintro rfl
      obtain ⟨b, hb, hdigit, hminus⟩ := hw
      rcases hbytes b hb with h | h
      · exact absurd h (by simp [hdigit])
      · exact hminus h
    rw [readWord, if_neg (hword _ ⟨ascii 'e', by decide⟩), if_neg (hword _ ⟨ascii 'e', by decide⟩),
      readInt_ofInt h]

theorem single_bool (b : Bool) : Single (utf8 (if b then "true" else "false")) (.bool b) := by
  cases b
  · refine single_word (by decide) (fun b hb => ?_) (by decide)
    have hall : ∀ b ∈ utf8 "false", endsWord b = false ∧ b ≠ ascii '"' ∧ b ≠ ascii '\'' ∧
        b ≠ ascii '[' := by decide
    exact hall b hb
  · refine single_word (by decide) (fun b hb => ?_) (by decide)
    have hall : ∀ b ∈ utf8 "true", endsWord b = false ∧ b ≠ ascii '"' ∧ b ≠ ascii '\'' ∧
        b ≠ ascii '[' := by decide
    exact hall b hb

/-! ## Arrays are read back -/

/-- What is read behind an item of an array. -/
def readSeparator (row : Value) (t : Text) : Except Fault (Value × Text) :=
  match skipLayout false t with
  | [] => .error .separator
  | c :: next =>
    if c = ascii ',' then readItems row next
    else if c = ascii ']' then .ok (row, next)
    else .error .separator

/-- Only what stands behind the layout matters. -/
theorem readItems_eq (row : Value) (t : Text) :
    readItems row t =
      match skipLayout false t with
      | [] => .error .openArray
      | b :: rest =>
        if b = ascii ']' then .ok (row, rest)
        else if b = ascii '[' then
          match readItems (.strs []) rest with
          | .error e => .error e
          | .ok _ => .error .arrayItem
        else
          match readSingle (b :: rest) with
          | .error e => .error e
          | .ok (item, tail) =>
            match row.push item with
            | .error e => .error e
            | .ok row => readSeparator row tail := by
  rw [readItems]
  split
  · next hskip => rw [hskip]
  · next b rest hskip =>
    simp only [hskip]
    split
    · rfl
    · split
      · rfl
      · split
        · next hitem => rw [hitem]
        · next item tail hitem =>
          rw [hitem]
          dsimp only
          cases row.push item with
          | error e => rfl
          | ok row' =>
            dsimp only
            unfold readSeparator
            split
            · next hsep => rw [hsep]
            · next hsep => rw [hsep]

/-- What is read of an array from some point on. -/
def readRest (behindItem : Bool) (row : Value) (t : Text) : Except Fault (Value × Text) :=
  if behindItem then readSeparator row t else readItems row t

theorem skipLayout_gap {g : Text} (hg : IsGap g) (t : Text) :
    skipLayout false (g ++ t) = skipLayout false t := by
  have hcomment {s : Text} (hs : lineFeed ∉ s) :
      skipLayout true (s ++ lineFeed :: t) = skipLayout false t := by
    induction s with
    | nil => rfl
    | cons b s ih =>
      rw [List.mem_cons, not_or] at hs
      rw [List.cons_append, skipLayout, decide_eq_true (Ne.symm hs.1), ih hs.2]
  cases hg with
  | blank hb => rw [List.singleton_append, skipLayout, if_pos (by simp [hb])]
  | feed => rfl
  | comment ht =>
    rw [List.cons_append, List.append_assoc, List.singleton_append, skipLayout, if_neg (by decide),
      if_pos rfl, hcomment ht]

theorem readRest_gap {g : Text} (hg : IsGap g) (behindItem : Bool) (row : Value) (t : Text) :
    readRest behindItem row (g ++ t) = readRest behindItem row t := by
  cases behindItem with
  | true =>
    show readSeparator row (g ++ t) = readSeparator row t
    rw [readSeparator, readSeparator, skipLayout_gap hg]
  | false =>
    show readItems row (g ++ t) = readItems row t
    rw [readItems_eq, readItems_eq row t, skipLayout_gap hg]

/-- Adding values to an array one after the other gives another array. -/
inductive Pushes : Value → List Value → Value → Prop where
  | nil (row : Value) : Pushes row [] row
  | cons {row row' v out : Value} {vs : List Value} (h : row.push v = .ok row')
      (hvs : Pushes row' vs out) : Pushes row (v :: vs) out

theorem pushes_strs (done ts : List Text) :
    Pushes (.strs done) (ts.map .str) (.strs (done ++ ts)) := by
  induction ts generalizing done with
  | nil =>
    rw [List.append_nil]
    exact .nil _
  | cons t ts ih =>
    have hrest := ih (done ++ [t])
    rw [List.append_assoc, List.singleton_append] at hrest
    exact .cons rfl hrest

theorem pushes_ints (done ns : List Int) :
    Pushes (.ints done) (ns.map .int) (.ints (done ++ ns)) := by
  induction ns generalizing done with
  | nil =>
    rw [List.append_nil]
    exact .nil _
  | cons n ns ih =>
    have hrest := ih (done ++ [n])
    rw [List.append_assoc, List.singleton_append] at hrest
    exact .cons rfl hrest

theorem Items.endsWord_of_head {ts : List Text} {u : Text} (h : Items true ts u) (r : Text) :
    ∀ b ∈ (u ++ r).head?, endsWord b = true := by
  cases h with
  | close => simp [endsWord]
  | comma => simp [endsWord]
  | gap hg =>
    cases hg with
    | blank hb => simp [endsWord, hb]
    | feed => simp [endsWord]
    | comment => simp [endsWord]

/-- An array is read to its closing bracket, whatever stands behind it. -/
theorem Items.reads {behindItem : Bool} {ts : List Text} {u : Text} (h : Items behindItem ts u)
    {vs : List Value} (hts : List.Forall₂ Single ts vs) {row out : Value} (hout : Pushes row vs out)
    (r : Text) : readRest behindItem row (u ++ r) = .ok (out, r) := by
  induction h generalizing vs row with
  | @close behindItem =>
    cases hts
    cases hout
    cases behindItem with
    | true => rfl
    | false =>
      refine (readItems_eq _ _).trans ?_
      rfl
  | gap hg _ ih =>
    rw [List.append_assoc, readRest_gap hg]
    exact ih hts hout
  | @item t ts u hrest ih =>
    cases hts with
    | cons hsingle hts =>
      cases hout with
      | cons hpush hout =>
        obtain ⟨b, hb, hblank, hfeed, hhash, hopen, hclose⟩ := hsingle.start
        obtain ⟨t', rfl⟩ := List.head?_eq_some_iff.mp hb
        have hread := hsingle.reads (u ++ r) (hrest.endsWord_of_head r)
        have hskip : skipLayout false (b :: t' ++ (u ++ r)) = b :: t' ++ (u ++ r) := by
          rw [List.cons_append, skipLayout, if_neg (by simp [hblank, hfeed]), if_neg hhash]
        rw [List.append_assoc]
        refine (readItems_eq _ _).trans ?_
        rw [hskip, List.cons_append]
        rw [List.cons_append] at hread
        simp only [hclose, hopen, if_false, hread, hpush]
        exact ih hts hout
  | comma _ ih => exact ih hts hout

/-! ## Brackets in the lines of an array -/

/-- The lines of an array behind its opening bracket: the last of them closes one bracket, and up to
there as many are opened as closed. -/
inductive Closes : List Text → Prop where
  | last {line : Text} (h : bracketBalance none false line = -1) : Closes [line]
  | line {line : Text} {lines : List Text} (h : bracketBalance none false line = 0)
      (hlines : Closes lines) : Closes (line :: lines)

/-- The balance of the first line alone matters. -/
theorem Closes.first {line line' : Text} {lines : List Text} (h : Closes (line :: lines))
    (hsame : bracketBalance none false line' = bracketBalance none false line) :
    Closes (line' :: lines) := by
  cases h with
  | last h => exact .last (hsame.trans h)
  | line h hlines => exact .line (hsame.trans h) hlines

theorem balance_blank {b : UInt8} (hb : isBlank b = true) (t : Text) :
    bracketBalance none false (b :: t) = bracketBalance none false t := by
  have hother : b ≠ ascii '#' ∧ b ≠ ascii '"' ∧ b ≠ ascii '\'' ∧ b ≠ ascii '[' ∧ b ≠ ascii ']' := by
    simp only [isBlank, Bool.or_eq_true, decide_eq_true_eq] at hb
    rcases hb with (rfl | rfl) | rfl <;> decide
  obtain ⟨hhash, hdouble, hsingle, hopen, hclose⟩ := hother
  rw [bracketBalance]
  simp only [hhash, hdouble, hsingle, hopen, hclose, decide_false, Bool.or_self, Bool.false_eq_true,
    if_false]

theorem Items.closes {behindItem : Bool} {ts : List Text} {u : Text} (h : Items behindItem ts u)
    (hts : ∀ t ∈ ts, ∃ v, Single t v) : Closes (Text.splitOn lineFeed u) := by
  induction h with
  | close => exact .last rfl
  | @gap _ _ g u hg _ ih =>
    obtain ⟨line, lines, hu⟩ := Text.exists_splitOn lineFeed u
    have hclosed := ih hts
    cases hg with
    | @blank b hb =>
      have hfeed : b ≠ lineFeed := by
        rintro rfl
        exact absurd hb (by decide)
      rw [hu] at hclosed
      rw [List.singleton_append, Text.splitOn_cons_of_ne hfeed hu]
      exact hclosed.first (balance_blank hb line)
    | feed =>
      rw [List.singleton_append, Text.splitOn_cons_self]
      exact .line rfl hclosed
    | @comment t ht =>
      have hline : lineFeed ∉ ascii '#' :: t := by
        rw [List.mem_cons, not_or]
        exact ⟨by decide, ht⟩
      rw [← List.cons_append, List.append_assoc, List.singleton_append, Text.splitOn_append_cons,
        Text.splitOn_of_notMem hline]
      exact .line rfl hclosed
  | @item t ts u _ ih =>
    obtain ⟨⟨v, hsingle⟩, hts⟩ := List.forall_mem_cons.mp hts
    obtain ⟨line, lines, hu⟩ := Text.exists_splitOn lineFeed u
    have hclosed := ih hts
    rw [hu] at hclosed
    rw [Text.splitOn_append_of_notMem hsingle.oneLine hu]
    exact hclosed.first (hsingle.balance line)
  | @comma ts u _ ih =>
    obtain ⟨line, lines, hu⟩ := Text.exists_splitOn lineFeed u
    have hclosed := ih hts
    rw [hu] at hclosed
    rw [Text.splitOn_cons_of_ne (by decide) hu]
    exact hclosed.first rfl

/-! ## Blanks at the end of the first line -/

/-- Cuts blanks off the end of a line. -/
def cutEnd (line : Text) : Text := line.rdropWhile fun b => isBlank b || b = lineFeed

/-- An array stays what it is when blanks at the end of its first line are cut off. -/
theorem Items.cutEnd {behindItem : Bool} {ts : List Text} {u : Text} (h : Items behindItem ts u)
    (hts : ∀ t ∈ ts, ∃ v, Single t v) {line : Text} {lines : List Text}
    (hu : Text.splitOn lineFeed u = line :: lines) :
    Items behindItem ts (Text.join [lineFeed] (Toml.cutEnd line :: lines)) := by
  induction h generalizing line lines with
  | close =>
    obtain ⟨rfl, rfl⟩ := List.cons.inj hu
    exact .close
  | @gap behindItem ts g u hg hrest ih =>
    obtain ⟨line', lines', hu'⟩ := Text.exists_splitOn lineFeed u
    have hcut := ih hts hu'
    cases hg with
    | @blank b hb =>
      have hfeed : b ≠ lineFeed := by
        rintro rfl
        exact absurd hb (by decide)
      rw [List.singleton_append, Text.splitOn_cons_of_ne hfeed hu'] at hu
      obtain ⟨rfl, rfl⟩ := List.cons.inj hu
      -- The blank goes with the others unless something else follows it in its line.
      by_cases hall : ∀ c ∈ line', (isBlank c || c = lineFeed) = true
      · have hempty : Toml.cutEnd (b :: line') = Toml.cutEnd line' := by
          rw [Toml.cutEnd, Toml.cutEnd, List.rdropWhile_eq_nil_iff.mpr hall,
            List.rdropWhile_eq_nil_iff.mpr (List.forall_mem_cons.mpr ⟨by simp [hb], hall⟩)]
        rw [hempty]
        exact hcut
      · have hkept : Toml.cutEnd (b :: line') = [b] ++ Toml.cutEnd line' := by
          obtain ⟨c, hc, hother⟩ := not_forall₂.mp hall
          obtain ⟨s, t, rfl⟩ := List.append_of_mem hc
          have hother : (isBlank c || c = lineFeed) = false := by simpa using hother
          rw [Toml.cutEnd, Toml.cutEnd, ← List.cons_append, Text.rdropWhile_append hother,
            Text.rdropWhile_append hother]
          rfl
        rw [hkept, Text.join_append_cons]
        exact .gap (.blank hb) hcut
    | feed =>
      rw [List.singleton_append, Text.splitOn_cons_self] at hu
      obtain ⟨rfl, rfl⟩ := List.cons.inj hu
      have hjoin : Text.join [lineFeed] (Toml.cutEnd [] :: Text.splitOn lineFeed u) =
          [lineFeed] ++ u := by
        rw [hu', Text.join_cons_cons, ← hu', Text.join_splitOn]
        rfl
      rw [hjoin]
      exact .gap .feed hrest
    | @comment t ht =>
      have hline : lineFeed ∉ ascii '#' :: t := by
        rw [List.mem_cons, not_or]
        exact ⟨by decide, ht⟩
      rw [← List.cons_append, List.append_assoc, List.singleton_append, Text.splitOn_append_cons,
        Text.splitOn_of_notMem hline] at hu
      obtain ⟨rfl, rfl⟩ := List.cons.inj hu
      have hcomment : Toml.cutEnd (ascii '#' :: t) = ascii '#' :: Toml.cutEnd t :=
        Text.rdropWhile_append (by decide) [] t
      have hshort : lineFeed ∉ Toml.cutEnd t := fun hmem =>
        ht ((List.rdropWhile_prefix _ _).subset hmem)
      have hjoin : Text.join [lineFeed] (Toml.cutEnd (ascii '#' :: t) :: Text.splitOn lineFeed u) =
          ascii '#' :: (Toml.cutEnd t ++ [lineFeed]) ++ u := by
        rw [hcomment, hu', Text.join_cons_cons, ← hu', Text.join_splitOn]
        rfl
      show Items behindItem ts (Text.join [lineFeed]
        (Toml.cutEnd (ascii '#' :: t) :: Text.splitOn lineFeed u))
      rw [hjoin]
      exact .gap (.comment hshort) hrest
  | @item t ts u _ ih =>
    obtain ⟨⟨v, hsingle⟩, hothers⟩ := List.forall_mem_cons.mp hts
    obtain ⟨line', lines', hu'⟩ := Text.exists_splitOn lineFeed u
    rw [Text.splitOn_append_of_notMem hsingle.oneLine hu'] at hu
    obtain ⟨rfl, rfl⟩ := List.cons.inj hu
    obtain ⟨s, b, rfl, hblank⟩ := hsingle.last
    have hfeed : b ≠ lineFeed := by
      rintro rfl
      exact hsingle.oneLine (by simp)
    have hkept : Toml.cutEnd (s ++ [b] ++ line') = s ++ [b] ++ Toml.cutEnd line' := by
      rw [List.append_assoc, List.append_assoc, List.singleton_append, List.singleton_append]
      exact Text.rdropWhile_append (by simp [hblank, hfeed]) s line'
    rw [hkept, Text.join_append_cons]
    exact .item (ih hothers hu')
  | @comma ts u _ ih =>
    obtain ⟨line', lines', hu'⟩ := Text.exists_splitOn lineFeed u
    rw [Text.splitOn_cons_of_ne (by decide) hu'] at hu
    obtain ⟨rfl, rfl⟩ := List.cons.inj hu
    have hkept : Toml.cutEnd (ascii ',' :: line') = [ascii ','] ++ Toml.cutEnd line' :=
      Text.rdropWhile_append (by decide) [] line'
    rw [hkept, Text.join_append_cons]
    exact .comma (ih hts hu')

end CloneScout.Toml
