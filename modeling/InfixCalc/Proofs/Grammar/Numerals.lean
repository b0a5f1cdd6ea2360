import InfixCalc.Proofs.Grammar.Diagnosis
import InfixCalc.Proofs.Number.Text

/-!
# Numerals in a statement

The reader of numbers takes numerals with an exponent, and the exponent may have a sign. In a
statement a sign is an operator. So a numeral without a sign is one segment and a statement by
itself, and one with a sign is cut before it, where the segment ends in a letter and is no number.
-/

namespace InfixCalc

namespace Number.Decimal

variable {cs : List Char} {d : Decimal} {n : Int}

/-! ### Scientific notation -/

/-- How a numeral can be written: digits and a point, then perhaps a power of ten, the exponent of
which may have a sign. -/
inductive Scientific : List Char → Prop where
  | plain {body : List Char} (hbody : ∀ c ∈ body, c.isDigit ∨ c = '.') : Scientific body
  | scaled {body digits : List Char} {e : Char} (hbody : ∀ c ∈ body, c.isDigit ∨ c = '.')
      (he : e = 'e' ∨ e = 'E') (hne : digits ≠ []) (hdigits : ∀ c ∈ digits, c.isDigit) :
      Scientific (body ++ e :: digits)
  | signed {body digits : List Char} {e sign : Char} (hbody : ∀ c ∈ body, c.isDigit ∨ c = '.')
      (he : e = 'e' ∨ e = 'E') (hsign : sign = '+' ∨ sign = '-') (hne : digits ≠ [])
      (hdigits : ∀ c ∈ digits, c.isDigit) : Scientific (body ++ e :: sign :: digits)

/-- An exponent consists of digits, perhaps with a sign before them. -/
lemma exists_digits_of_readExponent? (h : readExponent? cs = some n) :
    ∃ digits, digits ≠ [] ∧ (∀ c ∈ digits, c.isDigit) ∧
      (cs = digits ∨ ∃ sign, (sign = '+' ∨ sign = '-') ∧ cs = sign :: digits) := by
  unfold readExponent? at h
  split at h
  case h_1 digits =>
    obtain ⟨⟨hne, hdigits⟩, -⟩ := Option.ite_none_right_eq_some.mp h
    exact ⟨digits, hne, List.all_eq_true.mp hdigits, .inr ⟨'-', .inr rfl, rfl⟩⟩
  case h_2 digits =>
    obtain ⟨⟨hne, hdigits⟩, -⟩ := Option.ite_none_right_eq_some.mp h
    exact ⟨digits, hne, List.all_eq_true.mp hdigits, .inr ⟨'+', .inl rfl, rfl⟩⟩
  case h_3 =>
    obtain ⟨⟨hne, hdigits⟩, -⟩ := Option.ite_none_right_eq_some.mp h
    exact ⟨cs, hne, List.all_eq_true.mp hdigits, .inl rfl⟩

lemma scientific_append {body tail : List Char} (hbody : ∀ c ∈ body, c.isDigit ∨ c = '.')
    (h : readScale? tail = some n) : Scientific (body ++ tail) := by
  cases tail with
  | nil =>
    rw [List.append_nil]
    exact .plain hbody
  | cons e cs =>
    obtain ⟨he, hexponent⟩ := Option.ite_none_right_eq_some.mp h
    obtain ⟨digits, hne, hdigits, rfl | ⟨sign, hsign, rfl⟩⟩ :=
      exists_digits_of_readExponent? hexponent
    · exact .scaled hbody he hne hdigits
    · exact .signed hbody he hsign hne hdigits

/-- What is read as a decimal is in scientific notation. -/
theorem scientific_of_read? (h : read? cs = some d) : Scientific cs := by
  have hwhole : ∀ c ∈ cs.takeWhile Char.isDigit, c.isDigit ∨ c = '.' :=
    fun c hc => .inl (List.mem_takeWhile_imp hc)
  have hcs : cs.takeWhile Char.isDigit ++ cs.dropWhile Char.isDigit = cs :=
    List.takeWhile_append_dropWhile
  simp only [read?] at h
  obtain ⟨-, h⟩ := Option.ite_none_left_eq_some.mp h
  obtain ⟨e, hscale, -⟩ := Option.map_eq_some_iff.mp h
  rw [← hcs]
  split at hscale
  case h_1 r hrest =>
    have hbody : ∀ c ∈ cs.takeWhile Char.isDigit ++ '.' :: r.takeWhile Char.isDigit,
        c.isDigit ∨ c = '.' := by
      rw [List.forall_mem_append, List.forall_mem_cons]
      exact ⟨hwhole, .inr rfl, fun c hc => .inl (List.mem_takeWhile_imp hc)⟩
    have hscientific := scientific_append hbody hscale
    rwa [List.append_assoc, List.cons_append, List.takeWhile_append_dropWhile, ← hrest]
      at hscientific
  case h_2 => exact scientific_append hwhole hscale

/-- A numeral does not end in a letter. -/
lemma Scientific.last (h : Scientific cs) : ∀ a ∈ cs.getLast?, a.isDigit ∨ a = '.' := by
  intro a ha
  cases h with
  | plain hbody => exact hbody a (List.mem_of_getLast? ha)
  | @scaled body digits e hbody he hne hdigits =>
    rw [List.getLast?_append_of_ne_nil _ (List.cons_ne_nil _ _),
      List.getLast?_cons_of_ne_nil hne] at ha
    exact .inl (hdigits a (List.mem_of_getLast? ha))
  | @signed body digits e sign hbody he hsign hne hdigits =>
    rw [List.getLast?_append_of_ne_nil _ (List.cons_ne_nil _ _),
      List.getLast?_cons_of_ne_nil (List.cons_ne_nil _ _), List.getLast?_cons_of_ne_nil hne] at ha
    exact .inl (hdigits a (List.mem_of_getLast? ha))

end Number.Decimal

/-! ### Segments -/

namespace Lexeme

lemma isSegmentChar_of_isDigit_or_eq {c : Char} (h : c.isDigit ∨ c = '.') : isSegmentChar c := by
  rcases h with h | rfl
  · simp [isSegmentChar, Char.isAlphanum, h]
  · rfl

lemma isSegmentChar_of_eq_e {c : Char} (h : c = 'e' ∨ c = 'E') : isSegmentChar c := by
  rcases h with rfl | rfl <;> rfl

end Lexeme

/-- The operator that is written as a sign. -/
lemma exists_operator_of_sign {c : Char} (h : c = '+' ∨ c = '-') :
    ∃ op, Token.ofChar? c = some (.operator op) := by
  rcases h with rfl | rfl
  · exact ⟨.add, rfl⟩
  · exact ⟨.sub, rfl⟩

/-- The text of a numeral is a segment, unless its exponent has a sign. Then the part before the
sign is a segment that ends in a letter. -/
lemma Number.Decimal.Scientific.segment_or_signed {cs : List Char}
    (h : Number.Decimal.Scientific cs) :
    ((∀ c ∈ cs, Lexeme.isSegmentChar c) ∧ '+' ∉ cs ∧ '-' ∉ cs) ∨
      ∃ front sign back, cs = front ++ sign :: back ∧ (sign = '+' ∨ sign = '-') ∧
        (∀ c ∈ front, Lexeme.isSegmentChar c) ∧
        ∃ e ∈ front.getLast?, e = 'e' ∨ e = 'E' := by
  have hsigns {ds : List Char} (hds : ∀ c ∈ ds, Lexeme.isSegmentChar c) :
      (∀ c ∈ ds, Lexeme.isSegmentChar c) ∧ '+' ∉ ds ∧ '-' ∉ ds :=
    ⟨hds, fun hmem => absurd (hds _ hmem) (by decide), fun hmem => absurd (hds _ hmem) (by decide)⟩
  cases h with
  | plain hbody =>
    exact .inl (hsigns fun c hc => Lexeme.isSegmentChar_of_isDigit_or_eq (hbody c hc))
  | scaled hbody he hne hdigits =>
    refine .inl (hsigns ?_)
    rw [List.forall_mem_append, List.forall_mem_cons]
    exact ⟨fun c hc => Lexeme.isSegmentChar_of_isDigit_or_eq (hbody c hc),
      Lexeme.isSegmentChar_of_eq_e he,
      fun c hc => Lexeme.isSegmentChar_of_isDigit_or_eq (.inl (hdigits c hc))⟩
  | @signed body digits e sign hbody he hsign hne hdigits =>
    refine .inr ⟨body ++ [e], sign, digits, by simp, hsign, ?_, e, by simp, he⟩
    rw [List.forall_mem_append, List.forall_mem_singleton]
    exact ⟨fun c hc => Lexeme.isSegmentChar_of_isDigit_or_eq (hbody c hc),
      Lexeme.isSegmentChar_of_eq_e he⟩

/-! ### Statements -/

variable {text : String} {value : Float}

/-- The parse tree of a number. -/
def Sentence.number (text : String) (value : Float) (digit : Word.startsWithDigit text)
    (read : Number.read? text = some value) : Sentence :=
  .phrase (.plain (.operand (.number text value digit read)))

lemma parse_segment (digit : Word.startsWithDigit text) (read : Number.read? text = some value)
    (h : ∀ c ∈ text.toList, Lexeme.isSegmentChar c) : parse text = .ok ⟨[.number value]⟩ := by
  obtain ⟨c, cs, hcs, -⟩ := Word.startsWithDigit_iff.mp digit
  have hne : text.toList ≠ [] := by
    rw [hcs]
    exact List.cons_ne_nil c cs
  have hlegal : Legal text := fun c hc => Lexeme.isLegal_of_isSegmentChar (h c hc)
  have htokens : tokens text = [.segment text] := by
    rw [tokens, items, Lexeme.scan_segment hne h, String.ofList_toList]
    rfl
  exact parse_of_tokens hlegal (.number text value digit read) htokens

/-- A segment that starts with a digit and is no number is at fault, whatever comes after the
operator behind it. -/
lemma parse_unreadable {front : List Char} {sign : Char} {op : Operator}
    (digit : Word.startsWithDigit (String.ofList front))
    (unread : Number.read? (String.ofList front) = none)
    (hfront : ∀ c ∈ front, Lexeme.isSegmentChar c)
    (hsign : Token.ofChar? sign = some (.operator op)) (back : List Char) :
    parse (String.ofList (front ++ sign :: back))
      = .error ⟨(Cause.invalidNumber (String.ofList front)).at 0,
          String.ofList (front ++ sign :: back)⟩ := by
  have hne : front ≠ [] := by
    rintro rfl
    cases digit
  have hseparated : Lexeme.Separated front (sign :: back) := by
    apply Lexeme.separated_of_head
    rintro _ ⟨⟩
    exact (Lexeme.of_ofChar? hsign).2.2.2
  have hwords : ∃ rest, words (String.ofList (front ++ sign :: back))
      = ⟨.unreadable (String.ofList front), 0⟩ :: rest := by
    rw [words, items, String.toList_ofList, Lexeme.scan_append hseparated,
      Lexeme.scan_segment hne hfront, Lexeme.scan_token hsign, List.singleton_append, Word.ofItems]
    simp [Word.runsInto, Builtin.ofName?_of_startsWithDigit digit, Word.Meaning.ofSegment, digit,
      unread]
  obtain ⟨rest, hwords⟩ := hwords
  refine parse_eq_error_iff.mpr ⟨rfl, .initial, .inl ?_⟩
  rw [hwords]
  rfl

/-- The part of a numeral before the sign of its exponent is no number. -/
lemma read?_eq_none_of_getLast? {front : List Char} {e : Char}
    (digit : Word.startsWithDigit (String.ofList front)) (he : e ∈ front.getLast?)
    (hletter : e = 'e' ∨ e = 'E') : Number.read? (String.ofList front) = none := by
  obtain ⟨c, cs, hcs, hc⟩ := Word.startsWithDigit_iff.mp digit
  rw [String.toList_ofList] at hcs
  cases hread : Number.Decimal.read? front with
  | none => rw [Number.read?, String.toList_ofList, hcs, Number.Numeral.read?_of_isDigit hc, ← hcs,
      hread, Option.map_none, Option.map_none]
  | some d =>
    have hlast := (Number.Decimal.scientific_of_read? hread).last e he
    rcases hletter with rfl | rfl <;> simp [Char.isDigit] at hlast

/-- A text that starts with a digit and is read as a number is a statement with just this number if
no sign is in it. The only other ones have an exponent with a sign, and these are rejected for what
comes before the sign. -/
theorem parse_numeral (digit : Word.startsWithDigit text) (read : Number.read? text = some value) :
    ('+' ∉ text.toList → '-' ∉ text.toList → parse text = .ok ⟨[.number value]⟩) ∧
      ('+' ∈ text.toList ∨ '-' ∈ text.toList → ∃ front back sign,
        text = front ++ String.singleton sign ++ back ∧ (sign = '+' ∨ sign = '-') ∧
          (∃ e ∈ front.toList.getLast?, e = 'e' ∨ e = 'E') ∧
          parse text = .error ⟨(Cause.invalidNumber front).at 0, text⟩) := by
  obtain ⟨c, cs, hcs, hc⟩ := Word.startsWithDigit_iff.mp digit
  have hscientific : Number.Decimal.Scientific text.toList := by
    rw [Number.read?, hcs, Number.Numeral.read?_of_isDigit hc, Option.map_map, ← hcs] at read
    obtain ⟨d, hd, -⟩ := Option.map_eq_some_iff.mp read
    exact Number.Decimal.scientific_of_read? hd
  rcases hscientific.segment_or_signed with ⟨hsegment, hplus, hminus⟩ |
    ⟨front, sign, back, htext, hsign, hfront, e, he, hletter⟩
  · refine ⟨fun _ _ => parse_segment digit read hsegment, ?_⟩
    rintro (hmem | hmem)
    · exact absurd hmem hplus
    · exact absurd hmem hminus
  · have hmem : sign ∈ text.toList := by
      rw [htext]
      simp
    constructor
    · intro hplus hminus
      rcases hsign with rfl | rfl
      · exact absurd hmem hplus
      · exact absurd hmem hminus
    · intro _
      have hne : front ≠ [] := by
        rintro rfl
        cases he
      have hdigit : Word.startsWithDigit (String.ofList front) := by
        rw [Word.startsWithDigit, String.toList_ofList, ← List.head?_append_of_ne_nil front hne,
          ← htext]
        exact digit
      obtain ⟨op, hop⟩ := exists_operator_of_sign hsign
      have hparse := parse_unreadable hdigit (read?_eq_none_of_getLast? hdigit he hletter) hfront
        hop back
      rw [← htext, String.ofList_toList] at hparse
      refine ⟨String.ofList front, String.ofList back, sign, ?_, hsign, ⟨e, ?_, hletter⟩, hparse⟩
      · rw [← String.toList_inj, htext]
        simp
      · rwa [String.toList_ofList]

/-- `25.e3` is one number, and in `2e-3` the number ends before the sign. -/
theorem parse_numeral_thousands :
    Word.startsWithDigit "25.e3" ∧ Number.read? "25.e3" = some 25000 ∧
      parse "25.e3" = .ok ⟨[.number 25000]⟩ ∧
      Word.startsWithDigit "2e-3" ∧ Number.read? "2e-3" = some 0.002 ∧
      ∃ front back sign, "2e-3" = front ++ String.singleton sign ++ back ∧
        (sign = '+' ∨ sign = '-') ∧ (∃ e ∈ front.toList.getLast?, e = 'e' ∨ e = 'E') ∧
        parse "2e-3" = .error ⟨(Cause.invalidNumber front).at 0, "2e-3"⟩ := by
  have hlong : Word.startsWithDigit "25.e3" := by decide
  have hlong' : Number.read? "25.e3" = some 25000 := by decide +kernel
  have hshort : Word.startsWithDigit "2e-3" := by decide
  have hshort' : Number.read? "2e-3" = some 0.002 := by decide +kernel
  exact ⟨hlong, hlong', (parse_numeral hlong hlong').1 (by decide) (by decide), hshort, hshort',
    (parse_numeral hshort hshort').2 (.inr (by decide))⟩

/-- `1e+5` is read as a number, but in a statement it is `1e` and an operator. -/
theorem parse_signedExponent :
    Word.startsWithDigit "1e+5" ∧ Number.read? "1e+5" = some 100000 ∧
      parse "1e+5" = .error ⟨(Cause.invalidNumber "1e").at 0, "1e+5"⟩ ∧
      parse "1e+5" ≠ .ok ⟨[.number 100000]⟩ := by
  have hread : Number.read? "1e+5" = some 100000 := by decide +kernel
  have hconsume : Conversion.initial.consume (words "1e+5")
      = (.initial, some ((Cause.invalidNumber "1e").at 0)) := by
    decide +kernel
  have hparse : parse "1e+5" = .error ⟨(Cause.invalidNumber "1e").at 0, "1e+5"⟩ :=
    parse_eq_error_iff.mpr ⟨rfl, .initial, .inl hconsume⟩
  have hne : parse "1e+5" ≠ .ok ⟨[.number 100000]⟩ := by
    rw [hparse]
    simp
  exact ⟨by decide, hread, hparse, hne⟩

end InfixCalc
