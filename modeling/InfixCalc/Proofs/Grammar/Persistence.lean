import InfixCalc.Proofs.Grammar.Diagnosis
import InfixCalc.Proofs.Lexeme.Tiling
import InfixCalc.Proofs.Word.Continuation

/-!
# Faults that stay

A fault that is found before the end of a statement does not depend on how the statement goes on:
with a blank and any other text after it, the statement is rejected for the same fault at the same
place. Only a statement that lacks something can be mended in this way. It ends too early, or with
the name of a function whose parenthesis may still come.
-/

namespace InfixCalc

open String (utf8Len)

/-- Whether a name stands at a place of a statement with nothing but blanks after it. -/
def EndsWithName (statement name : String) (index : Nat) : Prop :=
  ∃ front back : String, statement = front ++ name ++ back ∧ front.utf8ByteSize = index ∧ Blank back

namespace Conversion

variable {c c' : Conversion} {before : List Word} {fault : Fault}

lemma consume_append (h : c.consume before = (c', none)) (ws : List Word) :
    c.consume (before ++ ws) = c'.consume ws := by
  induction before generalizing c with
  | nil =>
    cases h
    rfl
  | cons w before ih =>
    obtain ⟨next, hstep, hnext⟩ := consume_cons_eq_none_iff.mp h
    rw [List.cons_append, consume, read_eq_ok_iff.mpr hstep]
    exact ih hnext

/-- Words that are read without a fault up to one that cannot be read fail there. -/
lemma consume_append_cons {w : Word} (h : c.consume before = (c', none))
    (hread : c'.read w = .error fault) (after : List Word) :
    c.consume (before ++ w :: after) = (c', some fault) := by
  rw [consume_append h, consume, hread]

/-- Where the name of a function stands in a wrong place, its call does as well. -/
lemma read_call_of_read_bare {f : Builtin} {start : Nat} (openAt : Nat)
    (h : c.read ⟨.bare f, start⟩ = .error fault)
    (hne : fault ≠ (Cause.missingOpenParen f.name).at start) :
    c.read ⟨.call f openAt, start⟩ = .error fault := by
  cases fails_of_read h with
  | operand _ hphase =>
    have hnext := Phase.next_operand_eq_error_iff.mpr ⟨hphase, rfl⟩
    exact map_eq_error_iff.mpr (pass_eq_error_iff.mpr ⟨_, hnext, rfl⟩)
  | bare => exact absurd rfl hne

end Conversion

/-! ### Texts put together -/

variable {s : String}

/-- A segment does not run into what comes after a gap. -/
lemma detached_scan {front back : List Char} {start next : Nat}
    (h : start + utf8Len front < next) :
    Word.Detached (Lexeme.scan start front) (Lexeme.scan next back) := by
  intro text first stop hl
  have hstop := Lexeme.stop_le_of_mem_scan (List.mem_of_getLast? hl)
  cases hruns : Word.runsInto stop (Lexeme.scan next back) with
  | false => rfl
  | true =>
    obtain ⟨found, index, rest, hscan⟩ := Word.exists_of_runsInto hruns
    have hmem : .illegal found index ∈ Lexeme.scan next back := by
      rw [hscan]
      exact List.mem_cons_self
    have hle : next ≤ index := Lexeme.le_start_of_mem_scan hmem
    rw [hscan, Word.runsInto, beq_iff_eq] at hruns
    change stop ≤ _ at hstop
    omega

lemma detached_items (s : String) (back : List Char) :
    Word.Detached (items s) (Lexeme.scan (utf8Len s.toList + 1) back) := by
  apply detached_scan
  rw [Nat.zero_add]
  exact Nat.lt_succ_self _

lemma items_append_blank (s t : String) :
    items (s ++ " " ++ t) = items s ++ Lexeme.scan (utf8Len s.toList + 1) t.toList := by
  have hseparated : Lexeme.Separated s.toList (' ' :: t.toList) :=
    Lexeme.separated_of_head (by rintro b ⟨⟩; rfl)
  have hchars : (s ++ " " ++ t).toList = s.toList ++ ' ' :: t.toList := by
    simp
  rw [items, hchars, Lexeme.scan_append hseparated, Lexeme.scan_blank rfl, Nat.zero_add]
  rfl

lemma endsWithName_of_words {before : List Word} {f : Builtin} {index : Nat}
    (h : words s = before ++ [⟨.bare f, index⟩]) : EndsWithName s f.name index := by
  obtain ⟨is, stop, hitems⟩ := Word.exists_of_ofItems_bare h
  obtain ⟨front, back, hchars, hstart, -, hback⟩ := Lexeme.exists_of_scan_eq_append hitems
  refine ⟨String.ofList front, String.ofList back, ?_, ?_, ?_⟩
  · rw [← String.toList_inj, hchars]
    simp [Item.chars, Token.text]
  · rw [String.utf8ByteSize_ofList, ← Nat.zero_add (utf8Len front), ← hstart]
    rfl
  · rw [Blank, String.toList_ofList]
    exact (Lexeme.scan_eq_nil_iff _ _).mp hback

/-- A statement that is rejected for a fault that it has, and not for something that is missing at
its end, is rejected for the same fault whatever is written after it. -/
theorem parse_append_of_error {r : Rejection} (h : parse s = .error r)
    (htrailing : r.cause ≠ .trailingOperator) (hunclosed : r.cause ≠ .unclosedParen)
    (hname : ∀ name index, r.toFault = (Cause.missingOpenParen name).at index →
      ¬ EndsWithName s name index) (t : String) :
    parse (s ++ " " ++ t) = .error ⟨r.toFault, s ++ " " ++ t⟩ := by
  obtain ⟨rfl, c, hcases⟩ := parse_eq_error_iff.mp h
  rcases hcases with hconsume | ⟨-, hprogram⟩
  · obtain ⟨before, w, after, hwords, hbefore, hread⟩ :=
      Conversion.exists_of_consume_eq_some hconsume
    obtain ⟨w', after', hlong, hw'⟩ :=
      Word.ofItems_append hwords (detached_items r.statement t.toList)
    have hread' : c.read w' = .error r.toFault := by
      rcases hw' with rfl | ⟨rfl, f, index, openAt, rfl, rfl⟩
      · exact hread
      · apply Conversion.read_call_of_read_bare openAt hread
        intro hfault
        exact hname f.name index hfault (endsWithName_of_words hwords)
    refine parse_eq_error_iff.mpr ⟨rfl, c, .inl ?_⟩
    rw [words, items_append_blank, hlong]
    exact Conversion.consume_append_cons hbefore hread' after'
  · rcases Conversion.program_eq_error hprogram with ⟨-, hfault⟩ | ⟨group, groups, -, hfault⟩
    · exact absurd (congrArg Fault.cause hfault) htrailing
    · exact absurd (congrArg Fault.cause hfault) hunclosed

/-- In `x + sin y` the parenthesis is missing, and one that comes after `y` does not help. -/
theorem parse_append_bareSin :
    parse "x + sin y" = .error ⟨(Cause.missingOpenParen "sin").at 4, "x + sin y"⟩ ∧
      ¬ EndsWithName "x + sin y" "sin" 4 ∧
      parse "x + sin y (z $" = .error ⟨(Cause.missingOpenParen "sin").at 4, "x + sin y (z $"⟩ := by
  have hfault : (Conversion.initial.consume (words "x + sin y")).2
      = some ((Cause.missingOpenParen "sin").at 4) := by
    decide +kernel
  have hparse : parse "x + sin y" = .error ⟨(Cause.missingOpenParen "sin").at 4, "x + sin y"⟩ :=
    parse_eq_error_iff.mpr ⟨rfl, _, .inl (Prod.ext rfl hfault)⟩
  have hname : ¬ EndsWithName "x + sin y" "sin" 4 := by
    rintro ⟨front, back, hstatement, -, hblank⟩
    have hlast : (front ++ "sin" ++ back).toList.getLast? = some 'y' := by
      rw [← hstatement]
      decide
    rw [String.toList_append, String.toList_append] at hlast
    rcases List.eq_nil_or_concat' back.toList with hnil | ⟨init, c, hconcat⟩
    · rw [hnil, List.append_nil, List.getLast?_append_of_ne_nil _ (by decide)] at hlast
      exact absurd hlast (by decide)
    · rw [hconcat, ← List.append_assoc, List.getLast?_concat] at hlast
      obtain rfl := Option.some.inj hlast
      exact absurd (hblank 'y' (by rw [hconcat]; simp)) (by decide)
  refine ⟨hparse, hname, parse_append_of_error hparse (by rintro ⟨⟩) (by rintro ⟨⟩) ?_ "(z $"⟩
  intro name index hcause
  cases hcause
  exact hname

end InfixCalc
