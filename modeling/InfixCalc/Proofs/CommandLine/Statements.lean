import InfixCalc.CommandLine.Session
import InfixCalc.Proofs.Grammar.Display
import InfixCalc.Proofs.Lexeme.Replacement
import InfixCalc.Proofs.Text.Lines

/-!
# Statements of a text

A line feed between two texts separates their statements. A text that has a program is one line, and
it has the same program without the white space at its ends, so that it is a single statement unless
it is blank.
-/

namespace InfixCalc

/-- A text without the white space at its ends. -/
def trimmed (text : String) : String := String.ofList (Text.trim text.toList)

namespace Lexeme

variable {c : Char} {cs : List Char}

/-! ### White space -/

lemma zero_le_of_isAlphanum (h : c.isAlphanum) : '0'.val ≤ c.val := by
  rcases Bool.or_eq_true_iff.mp h with h | h
  · rcases Bool.or_eq_true_iff.mp h with h | h
    · exact UInt32.le_trans (by decide) (of_decide_eq_true h).1
    · exact UInt32.le_trans (by decide) (of_decide_eq_true (Bool.and_eq_true_iff.mp h).1)
  · exact of_decide_eq_true (Bool.and_eq_true_iff.mp h).1

lemma not_isBlank_of_isSegmentChar (h : isSegmentChar c) : Text.isBlank c = false := by
  rw [isSegmentChar, Bool.or_eq_true, Bool.or_eq_true, beq_iff_eq, beq_iff_eq] at h
  rcases h with (h | rfl) | rfl
  · have hlow : 48 ≤ c.toNat := UInt32.le_iff_toNat_le.mp (zero_le_of_isAlphanum h)
    have hhigh : c.toNat ≤ 122 := UInt32.le_iff_toNat_le.mp (le_z_of_isAlphanum h)
    simp [Text.isBlank, Text.blankRanges]
    omega
  · decide
  · decide

lemma not_isBlank_of_ofChar? {t : Token} (h : Token.ofChar? c = some t) :
    Text.isBlank c = false := by
  unfold Token.ofChar? at h
  split at h
  case h_1 | h_2 | h_3 => decide
  case h_4 =>
    obtain ⟨op, hop, rfl⟩ := Option.map_eq_some_iff.mp h
    obtain rfl := Operator.ofSymbol?_eq_some_iff.mp hop
    cases op <;> decide

lemma text_isBlank_of_isBlank (h : isBlank c) : Text.isBlank c := by
  rw [isBlank, Bool.or_eq_true, beq_iff_eq, beq_iff_eq] at h
  rcases h with rfl | rfl <;> decide

/-- White space that the language uses is a space or a tab. -/
lemma isBlank_of_isLegal (h : isLegal c) (hblank : Text.isBlank c) : isBlank c := by
  rw [isLegal, Bool.or_eq_true, Bool.or_eq_true] at h
  rcases h with (h | h) | h
  · exact h
  · rw [not_isBlank_of_isSegmentChar h] at hblank
    cases hblank
  · obtain ⟨t, ht⟩ := Option.isSome_iff_exists.mp h
    rw [not_isBlank_of_ofChar? ht] at hblank
    cases hblank

lemma tokensOf_of_isBlank (h : ∀ c ∈ cs, isBlank c) : tokensOf cs = [] := by
  rw [tokensOf, (scan_eq_nil_iff 0 cs).mpr h, List.filterMap_nil]

/-- Blanks around a text are no tokens. -/
lemma tokensOf_pad {front back : List Char} (hfront : ∀ c ∈ front, isBlank c)
    (hback : ∀ c ∈ back, isBlank c) : tokensOf (front ++ (cs ++ back)) = tokensOf cs := by
  have hlast : ∀ a ∈ front.getLast?, isSegmentChar a = false :=
    fun a ha => (of_isBlank (hfront a (List.mem_of_getLast? ha))).2
  have hhead : ∀ b ∈ back.head?, isSegmentChar b = false :=
    fun b hb => (of_isBlank (hback b (List.mem_of_mem_head? hb))).2
  rw [tokensOf_append (separated_of_last hlast), tokensOf_append (separated_of_head hhead),
    tokensOf_of_isBlank hfront, tokensOf_of_isBlank hback, List.nil_append, List.append_nil]

lemma tokensOf_trim (h : ∀ c ∈ cs, isLegal c) : tokensOf (Text.trim cs) = tokensOf cs := by
  obtain ⟨front, back, hcs, hfront, hback⟩ := Text.exists_eq_append_trim cs
  have hlegal : ∀ {c}, c ∈ front ∨ c ∈ back → isLegal c := by
    intro c hc
    apply h
    rw [hcs, List.mem_append, List.mem_append]
    tauto
  conv_rhs => rw [hcs]
  refine (tokensOf_pad ?_ ?_).symm
  · exact fun c hc => isBlank_of_isLegal (hlegal (.inl hc)) (hfront c hc)
  · exact fun c hc => isBlank_of_isLegal (hlegal (.inr hc)) (hback c hc)

end Lexeme

variable {text : String} {p : Program}

/-- The program of a text is also that of the text without the white space at its ends. -/
theorem parse_trimmed (h : parse text = .ok p) : parse (trimmed text) = .ok p := by
  obtain ⟨hlegal, s, htokens, rfl⟩ := exists_program_of_parse h
  have hlegal' : Legal (trimmed text) := by
    intro c hc
    obtain ⟨front, back, htext, -⟩ := Text.exists_eq_append_trim text.toList
    rw [trimmed, String.toList_ofList] at hc
    apply hlegal
    rw [htext]
    simp [hc]
  have htokens' : tokens (trimmed text) = tokens text := by
    rw [tokens, items, trimmed, String.toList_ofList]
    exact Lexeme.tokensOf_trim hlegal
  exact parse_of_tokens hlegal' s (htokens'.trans htokens)

lemma exists_parse_of_calculate {source : Source} {draws : Draws} {value : Float}
    (h : calculate text source draws = .ok value) : ∃ p, parse text = .ok p :=
  (calculate_eq_ok_iff.mp h).imp fun _ hp => hp.1

lemma calculate_trimmed {source : Source} {draws : Draws} {value : Float}
    (h : calculate text source draws = .ok value) :
    calculate (trimmed text) source draws = .ok value := by
  obtain ⟨p, hparse, hvalue⟩ := calculate_eq_ok_iff.mp h
  exact calculate_eq_ok_iff.mpr ⟨p, parse_trimmed hparse, hvalue⟩

/-- A blank text has the value zero if its source passes its check. -/
lemma calculate_of_blank {source : Source} (h : Blank text) (hcheck : source.check = .ok ())
    (draws : Draws) : calculate text source draws = .ok 0 := by
  refine calculate_eq_ok_iff.mpr ⟨.empty, parse_of_blank h, ?_⟩
  rw [Program.evaluate, hcheck]
  rfl

/-- What starts like a comment has no program. -/
lemma not_comment_of_parse (h : parse text = .ok p) (cs : List Char) :
    text.toList ≠ '/' :: '/' :: cs := by
  intro htext
  obtain ⟨c, hconsume, -⟩ := parse_eq_ok_iff.mp h
  have hwords : words text = ⟨.operator .div, 0⟩ :: Word.ofItems (Lexeme.scan 1 ('/' :: cs)) := by
    rw [words, items, htext, Lexeme.scan_token rfl]
    rfl
  rw [hwords] at hconsume
  cases hconsume

namespace CommandLine

/-! ### Lines -/

lemma isStatement_iff {cs : List Char} :
    isStatement cs ↔ cs ≠ [] ∧ ¬ ['/', '/'] <+: cs := by
  unfold isStatement
  split
  case h_1 => simp
  case h_2 cs => simp
  case h_3 hne hcomment =>
    refine iff_of_true rfl ⟨hne, ?_⟩
    rintro ⟨rest, hrest⟩
    exact hcomment rest hrest.symm

/-- The statements of a text are its lines without the white space at their ends, except for those
that are empty or begin with two slashes then. -/
theorem statements_eq_filter (text : String) :
    statements text
      = ((lines text).map trimmed).filter fun s => s ≠ "" ∧ ¬ ['/', '/'] <+: s.toList := by
  have hline : trimmed ∘ String.ofList = String.ofList ∘ Text.trim := by
    funext cs
    rw [Function.comp_apply, trimmed, String.toList_ofList]
    rfl
  have hkept (cs : List Char) : isStatement cs = decide
      (String.ofList cs ≠ "" ∧ ¬ ['/', '/'] <+: (String.ofList cs).toList) := by
    rw [Bool.eq_iff_iff, isStatement_iff, decide_eq_true_iff, String.toList_ofList]
    simp
  rw [statements, lines, Text.lines_eq_splitOn, List.map_map, hline, ← List.map_map]
  conv_rhs => rw [List.filter_map]
  exact congrArg _ (List.filter_congr fun cs _ => hkept cs)

lemma statements_append (text text' : String) :
    statements (text ++ "\n" ++ text') = statements text ++ statements text' := by
  have htoList : (text ++ "\n" ++ text').toList = text.toList ++ '\n' :: text'.toList := by
    simp
  simp only [statements, htoList, Text.lines_append, List.map_append, List.filter_append]

lemma statements_of_not_mem (h : '\n' ∉ text.toList) :
    statements text = if isStatement (Text.trim text.toList) then [trimmed text] else [] := by
  rw [statements, Text.lines_of_not_mem h, List.map_singleton, List.filter_singleton]
  cases isStatement (Text.trim text.toList) <;> rfl

/-- A line that is neither blank at its ends nor empty nor a comment is a single statement. -/
lemma statements_of_line (hline : '\n' ∉ text.toList) (htrimmed : trimmed text = text)
    (hstatement : isStatement text.toList) : statements text = [text] := by
  have htrim : Text.trim text.toList = text.toList := by
    rw [← String.ofList_inj, String.ofList_toList]
    exact htrimmed
  rw [statements_of_not_mem hline, htrim, if_pos hstatement, htrimmed]

lemma not_mem_of_legal (h : Legal text) : '\n' ∉ text.toList :=
  fun hmem => absurd (h _ hmem) (by decide)

lemma statements_of_blank (h : Blank text) : statements text = [] := by
  have hwhite : ∀ c ∈ text.toList, Text.isBlank c :=
    fun c hc => Lexeme.text_isBlank_of_isBlank (h c hc)
  rw [statements_of_not_mem (not_mem_of_legal h.legal), Text.trim_eq_nil hwhite]
  rfl

/-- A text that has a program and is not blank is a single statement. -/
lemma statements_of_parse (h : parse text = .ok p) (hblank : ¬ Blank text) :
    statements text = [trimmed text] := by
  obtain ⟨hlegal, -⟩ := exists_program_of_parse h
  have hstatement : isStatement (Text.trim text.toList) := by
    have hne : Text.trim text.toList ≠ [] := by
      intro hnil
      have htokens := Lexeme.tokensOf_trim hlegal
      rw [hnil, Lexeme.tokensOf_nil] at htokens
      exact hblank ((tokens_eq_nil_iff hlegal).mp htokens.symm)
    have hcomment := not_comment_of_parse (parse_trimmed h)
    rw [trimmed, String.toList_ofList] at hcomment
    unfold isStatement
    split
    case h_1 hnil => exact absurd hnil hne
    case h_2 cs hcs => exact absurd hcs (hcomment cs)
    case h_3 => rfl
  rw [statements_of_not_mem (not_mem_of_legal hlegal), if_pos hstatement]

end CommandLine

end InfixCalc
