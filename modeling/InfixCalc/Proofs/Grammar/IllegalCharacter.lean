import InfixCalc.Proofs.Grammar.Persistence

/-!
# Statements with an illegal character

What comes before an illegal character is read as it would be without that character, except for a
segment that ends right at it, which is not read at all. So a statement is rejected for the first
fault before that segment, or else for the character, and what comes after the character has no
influence on this.
-/

namespace InfixCalc

open String (utf8Len)

/-- A text without the segment at its end, if it ends with one. -/
def dropLastSegment (text : String) : String :=
  String.ofList (text.toList.rdropWhile Lexeme.isSegmentChar)

namespace Lexeme

variable {c : Char} {cs front back : List Char} {start : Nat}

lemma scan_append_illegal (hc : isLegal c = false) (start : Nat) (front back : List Char) :
    scan start (front ++ c :: back) = scan start front ++
      .illegal c (start + utf8Len front) :: scan (start + utf8Len front + c.utf8Size) back := by
  simp only [isLegal, Bool.or_eq_false_iff, Option.isSome_eq_false_iff,
    Option.isNone_iff_eq_none] at hc
  obtain ⟨⟨hblank, hsegment⟩, htoken⟩ := hc
  have hseparated : Separated front (c :: back) := by
    apply separated_of_head
    rintro _ ⟨⟩
    exact hsegment
  rw [scan_append hseparated, scan_illegal (by simp [hblank]) (by simp [hsegment]) htoken]

/-- A segment ends before the end of a text whose last character is none of a segment. -/
lemma stop_lt_of_mem_scan {text : String} {place stop : Nat}
    (h : .lexeme ⟨.segment text, place, stop⟩ ∈ scan start cs)
    (hlast : ∀ a ∈ cs.getLast?, isSegmentChar a = false) : stop < start + utf8Len cs := by
  have hstop : stop = place + utf8Len text.toList := (isOf_chars_of_mem_scan h).2
  obtain ⟨hne, hall⟩ := forall_mem_segment h
  obtain ⟨front, back, rfl, rfl, -⟩ := maximalRun_of_mem_scan h
  have hback : back ≠ [] := by
    rintro rfl
    have hmem := List.getLast_mem hne
    have hfalse := hlast (text.toList.getLast hne) (by simp [List.getLast?_eq_some_getLast, hne])
    rw [hall _ hmem] at hfalse
    cases hfalse
  have hpos := utf8Len_pos hback
  rw [hstop, String.utf8Len_append, String.utf8Len_append]
  omega

end Lexeme

/-- A segment that ends at an illegal character is no word, and what comes before it is read as if
nothing came after it. -/
lemma Word.ofItems_scan_append_illegal {c : Char} {front run : List Char}
    (hlast : ∀ a ∈ front.getLast?, Lexeme.isSegmentChar a = false)
    (hrun : ∀ d ∈ run, Lexeme.isSegmentChar d) (hc : Lexeme.isLegal c = false) (back : List Char) :
    ∃ rest, ofItems (Lexeme.scan 0 (front ++ run ++ c :: back))
      = ofItems (Lexeme.scan 0 front) ++ ⟨.illegal c, utf8Len (front ++ run)⟩ :: rest := by
  rw [Lexeme.scan_append_illegal hc, Lexeme.scan_append (Lexeme.separated_of_last hlast),
    List.append_assoc, Nat.zero_add, Nat.zero_add]
  generalize Lexeme.scan (utf8Len (front ++ run) + c.utf8Size) back = after
  refine ⟨ofItems after, ?_⟩
  -- Without a run, the last segment of `front` ends before the character. A run ends right at it,
  -- so it is left out, and a name at the end of `front` has no parenthesis in either case.
  cases run with
  | nil =>
    rw [Lexeme.scan, List.append_nil, List.nil_append]
    refine ofItems_append_of_openingAt? ?_ rfl
    intro text start stop hsegment
    have hstop := Lexeme.stop_lt_of_mem_scan (List.mem_of_getLast? hsegment) hlast
    rw [runsInto, beq_eq_false_iff_ne]
    omega
  | cons d run =>
    have hstop : runsInto (utf8Len front + (d :: run).length)
        (.illegal c (utf8Len (front ++ d :: run)) :: after) := by
      rw [runsInto, String.utf8Len_append, Lexeme.utf8Len_of_forall_isSegmentChar hrun]
      exact beq_self_eq_true _
    rw [Lexeme.scan_segment (List.cons_ne_nil d run) hrun, List.singleton_append,
      ofItems_append_of_openingAt? (fun _ _ _ _ => rfl) rfl, ofItems, if_pos hstop]
    rfl

/-- The words of a statement up to an illegal character. -/
lemma words_append_illegal {c : Char} (hc : Lexeme.isLegal c = false) (u v : String) :
    ∃ rest, words (u ++ String.singleton c ++ v)
      = words (dropLastSegment u) ++ ⟨.illegal c, u.utf8ByteSize⟩ :: rest := by
  have hu : u.toList.rdropWhile Lexeme.isSegmentChar ++ u.toList.rtakeWhile Lexeme.isSegmentChar
      = u.toList := List.rdropWhile_append_rtakeWhile
  obtain ⟨rest, hrest⟩ := Word.ofItems_scan_append_illegal
    (Lexeme.not_isSegmentChar_of_mem_getLast? u.toList)
    (fun _ hd => List.mem_rtakeWhile_imp hd) hc v.toList
  have hchars : (u ++ String.singleton c ++ v).toList = u.toList ++ c :: v.toList := by
    simp
  refine ⟨rest, ?_⟩
  rw [words, words, items, items, hchars, dropLastSegment, String.toList_ofList,
    ← String.utf8Len_toList]
  rwa [hu] at hrest

/-- A statement with an illegal character is rejected for the fault that is found before the
segment that ends at the character, or for the character if there is no such fault. -/
theorem parse_append_illegal {c : Char} (hc : Lexeme.isLegal c = false) (u v : String) :
    (∀ next, Conversion.initial.consume (words (dropLastSegment u)) = (next, none) →
        parse (u ++ String.singleton c ++ v)
          = .error ⟨(Cause.illegalCharacter c).at u.utf8ByteSize, u ++ String.singleton c ++ v⟩) ∧
      ∀ next fault, Conversion.initial.consume (words (dropLastSegment u)) = (next, some fault) →
        parse (u ++ String.singleton c ++ v) = .error ⟨fault, u ++ String.singleton c ++ v⟩ := by
  obtain ⟨rest, hwords⟩ := words_append_illegal hc u v
  constructor
  · intro next hconsume
    refine parse_eq_error_iff.mpr ⟨rfl, next, .inl ?_⟩
    rw [hwords]
    exact Conversion.consume_append_cons hconsume rfl rest
  · intro next fault hconsume
    refine parse_eq_error_iff.mpr ⟨rfl, next, .inl ?_⟩
    obtain ⟨before, w, after, hsplit, hbefore, hread⟩ :=
      Conversion.exists_of_consume_eq_some hconsume
    rw [hwords, hsplit, List.append_assoc, List.cons_append]
    exact Conversion.consume_append_cons hbefore hread _

/-- The `2` of `1 2$` ends at the illegal character, so it is not seen that an operator is missing
before it. In `x + sin $(y)` the name does not end there, and its parenthesis is missing. -/
theorem parse_append_illegal_dollar :
    Lexeme.isLegal '$' = false ∧
      parse "1 2$ 3" = .error ⟨(Cause.illegalCharacter '$').at 3, "1 2$ 3"⟩ ∧
      parse "x + sin $(y)" = .error ⟨(Cause.missingOpenParen "sin").at 4, "x + sin $(y)"⟩ := by
  have hc : Lexeme.isLegal '$' = false := by decide
  have hread : (Conversion.initial.consume (words (dropLastSegment "1 2"))).2 = none := by
    decide +kernel
  have hfault : (Conversion.initial.consume (words (dropLastSegment "x + sin "))).2
      = some ((Cause.missingOpenParen "sin").at 4) := by
    decide +kernel
  exact ⟨hc, (parse_append_illegal hc "1 2" " 3").1 _ (Prod.ext rfl hread),
    (parse_append_illegal hc "x + sin " "(y)").2 _ _ (Prod.ext rfl hfault)⟩

end InfixCalc
