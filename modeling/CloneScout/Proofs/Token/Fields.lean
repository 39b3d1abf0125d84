import CloneScout.Proofs.Text.Basic
import CloneScout.Token.Template

/-!
# Where replacement fields stand

The expression and the format of a replacement field are slices of the template that the field
stands in, at the offsets that the field gives, and a template is a slice of its string token. So
every field of a string token, those in formats included, is a slice of the token.
-/

namespace CloneScout

/-- A text stands in another one at an offset. -/
def SliceAt (t : Text) (i : Nat) (part : Text) : Prop :=
  ∃ before after, t = before ++ (part ++ after) ∧ before.length = i

namespace SliceAt

theorem trans {t u v : Text} {i j : Nat} (h : SliceAt t i u) (h' : SliceAt u j v) :
    SliceAt t (i + j) v := by
  obtain ⟨before, after, rfl, rfl⟩ := h
  obtain ⟨before', after', rfl, rfl⟩ := h'
  exact ⟨before ++ before', after' ++ after, by simp, List.length_append⟩

theorem length {t part : Text} {i : Nat} (h : SliceAt t i part) : i + part.length ≤ t.length := by
  obtain ⟨before, after, rfl, rfl⟩ := h
  simp only [List.length_append]
  omega

theorem drop {t : Text} {i : Nat} (h : i ≤ t.length) : SliceAt t i (t.drop i) :=
  ⟨t.take i, [], by simp, List.length_take_of_le h⟩

theorem take (t : Text) (n : Nat) : SliceAt t 0 (t.take n) := ⟨[], t.drop n, by simp, rfl⟩

theorem take_drop {t : Text} {i n : Nat} (h : (t.drop i).take n ≠ []) :
    SliceAt t i ((t.drop i).take n) := by
  have hlength := List.length_pos_iff.mpr h
  simp only [List.length_take, List.length_drop] at hlength
  exact (drop (by omega)).trans (take _ n)

end SliceAt

namespace Template

/-- The expression and the format of a field stand in a text that starts at an offset. -/
structure Field.In (offset : Nat) (t : Text) (f : Field) : Prop where
  expr : ∃ i, f.offset = offset + i ∧ SliceAt t i f.expr
  format : ∀ p ∈ f.format, ∃ i, p.1 = offset + i ∧ SliceAt t i p.2

theorem Field.In.of_drop {offset k : Nat} {t : Text} {f : Field} (hk : k ≤ t.length)
    (h : f.In (offset + k) (t.drop k)) : f.In offset t := by
  have hdrop {i : Nat} {p : Text} (hi : SliceAt (t.drop k) i p) : SliceAt t (k + i) p :=
    (SliceAt.drop hk).trans hi
  obtain ⟨⟨i, hi, hexpr⟩, hformat⟩ := h
  refine ⟨⟨k + i, by omega, hdrop hexpr⟩, fun p hp => ?_⟩
  obtain ⟨j, hj, hp⟩ := hformat p hp
  exact ⟨k + j, by omega, hdrop hp⟩

theorem lt_length_of_head? {t : Text} {n : Nat} {b : UInt8} (h : (t.drop n).head? = some b) :
    n < t.length := by
  obtain ⟨rest, hrest⟩ := List.head?_eq_some_iff.mp h
  have hlength := congrArg List.length hrest
  rw [List.length_drop, List.length_cons] at hlength
  omega

theorem field_in (offset : Nat) (t : Text) :
    (field offset t).1.In offset t ∧ (field offset t).2 ≤ t.length := by
  unfold field
  dsimp only
  generalize exprLength 0 0 none 0 t = e
  generalize (if e.2 = true then e.1 + 1 + ((t.drop (e.1 + 1)).takeWhile Text.isSpace).length
    else e.1) = shownLength
  generalize shownLength + (conversion (t.drop shownLength)).2 = behind
  have hstop (stop : Nat) : (if decide ((t.drop stop).head? = some closeBrace) = true
      then stop + 1 else t.length) ≤ t.length := by
    split
    · next hclosed => exact lt_length_of_head? (of_decide_eq_true hclosed)
    · exact Nat.le_refl _
  refine ⟨⟨⟨0, rfl, .take t e.1⟩, fun p hp => ?_⟩, hstop _⟩
  dsimp only at hp
  by_cases hcolon : (t.drop behind).head? = some (ascii ':')
  · rw [if_pos hcolon] at hp
    obtain rfl := Option.some.inj hp
    refine ⟨behind + 1, rfl, ?_⟩
    rw [List.drop_drop]
    exact (SliceAt.drop (lt_length_of_head? hcolon)).trans (.take _ _)
  · rw [if_neg hcolon] at hp
    nomatch hp

theorem not_field_mem_flush {lit : Text} {f : Field} : .field f ∉ flush lit := by
  unfold flush
  split <;> simp

theorem namedLength?_le {t : Text} {k : Nat} (h : namedLength? t = some k) : k ≤ t.length := by
  unfold namedLength? at h
  split at h
  · obtain rfl := Option.some.inj h
    exact Nat.min_le_left _ _
  · nomatch h

/-- The fields found in a text stand in it. -/
theorem field_mem_segmentsFrom {raw : Bool} {n offset : Nat} {lit t : Text} {f : Field}
    (h : .field f ∈ segmentsFrom raw n offset lit t) : f.In offset t := by
  induction n generalizing offset lit t with
  | zero => exact absurd h not_field_mem_flush
  | succ n ih =>
    cases t with
    | nil => exact absurd h not_field_mem_flush
    | cons b t =>
      have htake {k : Nat} {add : Text} (hk : k ≤ (b :: t).length)
          (hf : .field f ∈
            segmentsFrom raw n (offset + k) (add.reverse ++ lit) ((b :: t).drop k)) :
          f.In offset (b :: t) :=
        .of_drop hk (ih hf)
      have hone : 1 ≤ (b :: t).length := by simp
      have htwo {c : UInt8} (hc : t.head? = some c) : 2 ≤ (b :: t).length := by
        obtain ⟨rest, rfl⟩ := List.head?_eq_some_iff.mp hc
        simp
      simp only [segmentsFrom] at h
      split at h
      · split at h
        · next hdouble => exact htake (htwo hdouble) h
        · rcases List.mem_cons.mp h with h | h
          · nomatch h
          · exact htake hone h
      · split at h
        · next hescape =>
          split at h
          · next hk => exact htake (namedLength?_le hk) h
          · split at h
            · exact htake hone h
            · refine htake ?_ h
              cases t with
              | nil => simp at hescape
              | cons => simp
        · split at h
          · exact htake hone h
          · split at h
            · next hdouble => exact htake (htwo hdouble) h
            · obtain ⟨hfield, hle⟩ := field_in (offset + 1) t
              refine .of_drop hone ?_
              rcases List.mem_append.mp h with h | h
              · exact absurd h not_field_mem_flush
              · rcases List.mem_cons.mp h with h | h
                · rw [Segment.field.inj h]
                  exact hfield
                · exact .of_drop hle (ih h)

theorem namedLength?_pos {t : Text} {k : Nat} (h : namedLength? t = some k) : 0 < k := by
  unfold namedLength? at h
  split at h
  · next hstart =>
    obtain rfl := Option.some.inj h
    have hlength := (Text.startsWith_iff.mp hstart).length_le
    simp only [List.length_cons] at hlength
    omega
  · nomatch h

/-- Any two numbers of steps that the text does not exceed lead to the same segments. -/
theorem segmentsFrom_eq {raw : Bool} {n m offset : Nat} {lit t : Text} (hn : t.length ≤ n)
    (hm : t.length ≤ m) : segmentsFrom raw n offset lit t = segmentsFrom raw m offset lit t := by
  induction n generalizing m offset lit t with
  | zero =>
    obtain rfl := List.length_eq_zero_iff.mp (Nat.le_zero.mp hn)
    cases m <;> rfl
  | succ n ih =>
    cases t with
    | nil => cases m <;> rfl
    | cons b t =>
      cases m with
      | zero => exact absurd hm (Nat.not_succ_le_zero _)
      | succ m =>
        rw [List.length_cons] at hn hm
        have htake {k : Nat} (hk : 0 < k) {offset : Nat} {lit : Text} :
            segmentsFrom raw n offset lit ((b :: t).drop k) =
              segmentsFrom raw m offset lit ((b :: t).drop k) := by
          refine ih ?_ ?_
          all_goals
            rw [List.length_drop, List.length_cons]
            omega
        have hfield {k offset : Nat} {lit : Text} : segmentsFrom raw n offset lit (t.drop k) =
            segmentsFrom raw m offset lit (t.drop k) := by
          refine ih ?_ ?_
          all_goals
            rw [List.length_drop]
            omega
        have hnamed {k offset : Nat} {lit : Text} (hk : namedLength? (b :: t) = some k) :
            segmentsFrom raw n offset lit ((b :: t).drop k) =
              segmentsFrom raw m offset lit ((b :: t).drop k) :=
          htake (namedLength?_pos hk)
        simp only [segmentsFrom, htake Nat.one_pos, htake Nat.two_pos, hfield]
        cases hlength : namedLength? (b :: t) with
        | none => rfl
        | some k => simp only [hnamed hlength]

/-- The offsets and texts of the replacement fields of a template that starts at `base`, with those
of its formats, up to the given number of levels. -/
def fields (raw : Bool) : (levels : Nat) → (base : Nat) → Text → List (Nat × Text)
  | 0, _, _ => []
  | levels + 1, base, template => (segments raw template).flatMap fun
    | .field f =>
      (base + f.offset, f.expr) ::
        f.format.elim [] fun p => fields raw levels (base + p.1) p.2
    | _ => []

theorem mem_fields_succ {raw : Bool} {levels base : Nat} {template : Text} {p : Nat × Text} :
    p ∈ fields raw (levels + 1) base template ↔ ∃ f, .field f ∈ segments raw template ∧
      (p = (base + f.offset, f.expr) ∨
        ∃ q ∈ f.format, p ∈ fields raw levels (base + q.1) q.2) := by
  rw [fields, List.mem_flatMap]
  constructor
  · rintro ⟨s, hs, hp⟩
    cases s with
    | field f =>
      refine ⟨f, hs, (List.mem_cons.mp hp).imp_right fun hp => ?_⟩
      cases hformat : f.format with
      | none => simp [hformat] at hp
      | some q => exact ⟨q, rfl, by simpa [hformat] using hp⟩
    | literal => nomatch hp
    | stray => nomatch hp
  · rintro ⟨f, hf, hp⟩
    refine ⟨.field f, hf, List.mem_cons.mpr (hp.imp_right ?_)⟩
    rintro ⟨q, hq, hp⟩
    rw [Option.mem_def.mp hq]
    exact hp

theorem sliceAt_of_mem_fields {raw : Bool} {levels base : Nat} {template : Text} {p : Nat × Text}
    (h : p ∈ fields raw levels base template) : ∃ i, p.1 = base + i ∧ SliceAt template i p.2 := by
  induction levels generalizing base template with
  | zero => nomatch h
  | succ levels ih =>
    obtain ⟨f, hf, hp⟩ := mem_fields_succ.mp h
    obtain ⟨⟨i, hi, hexpr⟩, hformat⟩ := field_mem_segmentsFrom hf
    rw [Nat.zero_add] at hi
    rcases hp with rfl | ⟨q, hq, hp⟩
    · exact ⟨i, by rw [hi], hexpr⟩
    · obtain ⟨j, hj, hq⟩ := hformat q hq
      obtain ⟨k, hk, hp⟩ := ih hp
      exact ⟨j + k, by omega, hq.trans hp⟩

end Template

/-! ## Fields of a token -/

/-- The offsets and texts of the replacement fields of a string token. -/
def Token.fields (t : Token) : List (Nat × Text) :=
  let parts := StringLiteral.parts t.lexeme
  if parts.formatted then Template.fields parts.raw 3 (t.span.lo + parts.offset) parts.body else []

/-- The body of a string token is a slice of it. -/
theorem StringLiteral.sliceAt_body {lexeme : Text} (h : (parts lexeme).body ≠ []) :
    SliceAt lexeme (parts lexeme).offset (parts lexeme).body := by
  unfold parts at h ⊢
  dsimp only at h ⊢
  rw [List.drop_drop] at h ⊢
  exact .take_drop h

/-- The fields of a string token are shorter than it. -/
theorem Token.length_lt_of_mem_fields {t : Token} {p : Nat × Text} (h : p ∈ t.fields) :
    p.2.length < t.lexeme.length := by
  unfold Token.fields at h
  dsimp only at h
  split at h
  · obtain ⟨i, -, hp⟩ := Template.sliceAt_of_mem_fields h
    have hbody : (StringLiteral.parts t.lexeme).body ≠ [] := by
      intro hempty
      rw [hempty] at h
      nomatch h
    have hoffset : 0 < (StringLiteral.parts t.lexeme).offset := by
      unfold StringLiteral.parts
      dsimp only
      split <;> omega
    have hpart := hp.length
    have hwhole := (StringLiteral.sliceAt_body hbody).length
    omega
  · nomatch h

/-- The fields of a string token are slices of it. -/
theorem Token.sliceAt_of_mem_fields {t : Token} {p : Nat × Text} (h : p ∈ t.fields) :
    ∃ i, p.1 = t.span.lo + i ∧ SliceAt t.lexeme i p.2 := by
  unfold Token.fields at h
  dsimp only at h
  split at h
  · obtain ⟨i, hi, hp⟩ := Template.sliceAt_of_mem_fields h
    have hbody : (StringLiteral.parts t.lexeme).body ≠ [] := by
      intro hempty
      rw [hempty] at h
      nomatch h
    exact ⟨_, by omega, (StringLiteral.sliceAt_body hbody).trans hp⟩
  · nomatch h

end CloneScout
