import InfixCalc.Proofs.Conversion.Relocation
import InfixCalc.Proofs.Grammar.Diagnosis
import InfixCalc.Proofs.Lexeme.Tiling

/-!
# Blanks between tokens

A blank that is put into a statement anywhere but inside of a segment makes no difference to what
the statement means or lacks. It moves by one byte what comes after it, and with it the place of a
fault there.
-/

namespace InfixCalc

open String (utf8Len)

/-- Where a byte of a text is after one more has been put in at a place. -/
def makeRoom (place i : Nat) : Nat := if i < place then i else i + 1

lemma makeRoom_of_lt {place i : Nat} (h : i < place) : makeRoom place i = i := if_pos h

lemma makeRoom_of_le {place i : Nat} (h : place ≤ i) : makeRoom place i = i + 1 :=
  if_neg (Nat.not_lt.mpr h)

namespace Lexeme

variable {cs front back : List Char} {ls : List Lexeme} {start place : Nat} {b : Char}

/-- What ends before the place stays where it is. -/
lemma map_relocate_makeRoom_before (h : scan start cs = ls.map .lexeme)
    (hplace : start + utf8Len cs ≤ place) :
    ls.map (relocate (makeRoom place) (makeRoom (place + 1))) = ls := by
  have hfixed : ∀ l ∈ ls, l.relocate (makeRoom place) (makeRoom (place + 1)) = l := by
    intro l hl
    have hmem : .lexeme l ∈ scan start cs := by
      rw [h]
      exact List.mem_map_of_mem hl
    have hlt : l.start < l.stop := start_lt_stop_of_mem_scan hmem
    have hle : l.stop ≤ start + utf8Len cs := stop_le_of_mem_scan hmem
    rw [relocate, makeRoom_of_lt (by omega), makeRoom_of_lt (by omega)]
  rw [List.map_congr_left hfixed, List.map_id']

/-- What starts at the place or later moves on. -/
lemma map_relocate_makeRoom_after (h : scan place cs = ls.map .lexeme) :
    (ls.map (relocate (makeRoom place) (makeRoom (place + 1)))).map .lexeme
      = scan (place + 1) cs := by
  rw [scan_add, h, List.map_map, List.map_map]
  apply List.map_congr_left
  intro l hl
  have hmem : .lexeme l ∈ scan place cs := by
    rw [h]
    exact List.mem_map_of_mem hl
  have hlt : l.start < l.stop := start_lt_stop_of_mem_scan hmem
  have hle : place ≤ l.start := le_start_of_mem_scan hmem
  simp only [Function.comp_apply, relocate, Item.shift]
  rw [makeRoom_of_le hle, makeRoom_of_le (by omega)]

/-- The lexemes of a legal text with a blank in it are those of the text without it, moved. -/
theorem scan_insert_blank (hlegal : ∀ c ∈ front ++ back, isLegal c) (h : Separated front back)
    (hb : isBlank b) :
    ∃ ls : List Lexeme, scan 0 (front ++ back) = ls.map .lexeme ∧
      scan 0 (front ++ b :: back)
        = (ls.map (relocate (makeRoom (utf8Len front)) (makeRoom (utf8Len front + 1)))).map
            .lexeme := by
  obtain ⟨hfront, hback⟩ := List.forall_mem_append.mp hlegal
  obtain ⟨before, hbefore⟩ := exists_lexemes_scan hfront 0
  obtain ⟨after, hafter⟩ := exists_lexemes_scan hback (utf8Len front)
  have hseparated : Separated front (b :: back) := by
    apply separated_of_head
    rintro _ ⟨⟩
    exact (of_isBlank hb).2
  refine ⟨before ++ after, ?_, ?_⟩
  · rw [scan_append h, Nat.zero_add, hbefore, hafter, List.map_append]
  · rw [scan_append hseparated, Nat.zero_add, scan_blank hb, hbefore, List.map_append,
      List.map_append, map_relocate_makeRoom_after hafter,
      map_relocate_makeRoom_before hbefore (Nat.le_of_eq (Nat.zero_add _))]

/-! ### Places of a legal text -/

lemma utf8Size_of_isLegal {c : Char} (h : isLegal c) : c.utf8Size = 1 := by
  rw [isLegal, Bool.or_eq_true, Bool.or_eq_true] at h
  rcases h with (h | h) | h
  · exact (of_isBlank h).1
  · exact utf8Size_of_isSegmentChar h
  · obtain ⟨t, ht⟩ := Option.isSome_iff_exists.mp h
    exact (of_ofChar? ht).2.1

/-- A legal text can be cut at every place. -/
lemma exists_cut (h : ∀ c ∈ cs, isLegal c) (hplace : place ≤ utf8Len cs) :
    ∃ front back, cs = front ++ back ∧ utf8Len front = place := by
  induction cs generalizing place with
  | nil => exact ⟨[], [], rfl, (Nat.le_zero.mp hplace).symm⟩
  | cons c cs ih =>
    obtain ⟨hc, hcs⟩ := List.forall_mem_cons.mp h
    cases place with
    | zero => exact ⟨[], c :: cs, rfl, rfl⟩
    | succ place =>
      rw [String.utf8Len_cons, utf8Size_of_isLegal hc] at hplace
      obtain ⟨front, back, rfl, hfront⟩ := ih hcs (Nat.le_of_succ_le_succ hplace)
      refine ⟨c :: front, back, rfl, ?_⟩
      rw [String.utf8Len_cons, utf8Size_of_isLegal hc, hfront]

end Lexeme

/-! ### Statements -/

/-- Every place of a legal statement is between two parts of it. Where these do not cut a segment
apart, a blank between them changes nothing but the places from there on. -/
theorem parse_insert_blank {s : String} (h : Legal s) :
    (∀ place ≤ s.utf8ByteSize, ∃ front back : String, s = front ++ back ∧
        front.utf8ByteSize = place) ∧
      ∀ front back : String, s = front ++ back →
        Lexeme.Separated front.toList back.toList → ∀ b, Lexeme.isBlank b →
          (∀ p, parse s = .ok p → parse (front ++ String.singleton b ++ back) = .ok p) ∧
            ∀ r, parse s = .error r → parse (front ++ String.singleton b ++ back)
              = .error ⟨⟨r.cause, r.index.map (makeRoom front.utf8ByteSize)⟩,
                  front ++ String.singleton b ++ back⟩ := by
  constructor
  · intro place hplace
    rw [← String.utf8Len_toList] at hplace
    obtain ⟨front, back, hs, hfront⟩ := Lexeme.exists_cut h hplace
    refine ⟨String.ofList front, String.ofList back, ?_, ?_⟩
    · rw [← String.toList_inj, hs]
      simp
    · rw [String.utf8ByteSize_ofList, hfront]
  · rintro front back rfl hseparated b hb
    apply parse_of_words_relocate
    rw [Legal, String.toList_append] at h
    obtain ⟨ls, hitems, hinserted⟩ := Lexeme.scan_insert_blank h hseparated hb
    have hchars : (front ++ String.singleton b ++ back).toList
        = front.toList ++ b :: back.toList := by
      simp
    rw [words, words, items, items, hchars, String.toList_append, hitems, hinserted,
      ← String.utf8Len_toList]
    exact Word.ofLexemes_map_relocate _ _ ls

/-- In `max(x,y` the parenthesis is not closed. A tab before it moves its place. -/
theorem parse_insert_blank_unclosedMax :
    Legal "max(x,y" ∧ Lexeme.Separated "max".toList "(x,y".toList ∧
      parse "max(x,y" = .error ⟨Cause.unclosedParen.at 3, "max(x,y"⟩ ∧
      parse "max\t(x,y" = .error ⟨Cause.unclosedParen.at 4, "max\t(x,y"⟩ := by
  have hlegal : Legal "max(x,y" := by decide
  have hseparated : Lexeme.Separated "max".toList "(x,y".toList := by
    apply Lexeme.separated_of_head
    rintro b ⟨⟩
    rfl
  have hparse : parse "max(x,y" = .error ⟨Cause.unclosedParen.at 3, "max(x,y"⟩ := by
    have hconsume : Conversion.initial.consume (words "max(x,y")
        = (⟨[.variable "y", .variable "x"], [.mark], [⟨some .max, 2, 3⟩], .afterOperand, []⟩,
            none) := by
      decide +kernel
    exact parse_eq_error_iff.mpr ⟨rfl, _, .inr ⟨hconsume, rfl⟩⟩
  obtain ⟨-, hinsert⟩ := parse_insert_blank hlegal
  obtain ⟨-, hrejected⟩ := hinsert "max" "(x,y" rfl hseparated '\t' rfl
  exact ⟨hlegal, hseparated, hparse, hrejected _ hparse⟩

end InfixCalc
