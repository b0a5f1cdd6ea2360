import InfixCalc.Proofs.Grammar.Blanks

/-!
# Rejections on display

A rejection is shown in lines: the message, the statement below it, and a caret below the character
at fault. The place of a fault counts bytes and the caret is set by characters, but since a fault is
noticed behind legal characters only, which are all ASCII, both are the same. The caret cannot be
set beyond a certain width, so that a rejection with a place further on has no text.
-/

namespace InfixCalc

open String (utf8Len)

/-- The lines of a text. -/
def lines (text : String) : List String := (text.toList.splitOn '\n').map String.ofList

/-- Whether a place of a statement is that of a character, and only ASCII characters come before. -/
def PointsAt (statement : String) (i : Nat) : Prop :=
  i < statement.utf8ByteSize ∧ ∃ front c back, statement.toList = front ++ c :: back ∧
    front.length = i ∧ utf8Len front = i ∧ ∀ a ∈ front, a.toNat < 128

/-! ### Lines -/

lemma lines_intercalate {ls : List String} (hne : ls ≠ []) (h : ∀ l ∈ ls, '\n' ∉ l.toList) :
    lines ("\n".intercalate ls) = ls := by
  have hsplit : (['\n'].intercalate (ls.map String.toList)).splitOn '\n'
      = ls.map String.toList := by
    refine List.splitOn_intercalate '\n' ?_ (by simpa using hne)
    exact List.forall_mem_map.mpr h
  rw [lines, String.toList_intercalate]
  change ((['\n'].intercalate (ls.map String.toList)).splitOn '\n').map String.ofList = ls
  rw [hsplit, List.map_map]
  have hid : String.ofList ∘ String.toList = id := funext fun _ => String.ofList_toList
  rw [hid, List.map_id]

namespace Rejection

variable {r : Rejection} {i : Nat}

lemma display?_of_none (h : r.index = none) :
    r.display? = some ("\n".intercalate ["Error: " ++ r.message, "  " ++ r.statement]) := by
  rw [display?, h]
  simp [← String.toList_inj]

lemma display?_of_lt (h : r.index = some i) (hi : i < caretLimit) :
    r.display? = some ("\n".intercalate ["Error at index " ++ toString i ++ ": " ++ r.message,
      "  " ++ r.statement, String.ofList (List.replicate (2 + i) ' ') ++ "^"]) := by
  rw [display?, h]
  simp [hi, ← String.toList_inj, List.replicate_add, List.replicate]

lemma display?_of_le (h : r.index = some i) (hi : caretLimit ≤ i) : r.display? = none := by
  rw [display?, h]
  exact if_neg (Nat.not_lt.mpr hi)

end Rejection

/-! ### Messages -/

lemma exists_digitChar_of_mem_toDigits {b n : Nat} {c : Char} (hb : 1 < b) (h : c ∈ b.toDigits n) :
    ∃ k : Nat, c = k.digitChar := by
  induction n using Nat.strongRecOn with
  | ind n ih =>
    rw [Nat.toDigits_eq_if hb] at h
    split_ifs at h with hn
    · exact ⟨n, List.mem_singleton.mp h⟩
    · rcases List.mem_append.mp h with h | h
      · exact ih _ (Nat.div_lt_self (by omega) hb) h
      · exact ⟨n % b, List.mem_singleton.mp h⟩

lemma not_mem_toDigits {b n : Nat} (hb : 1 < b) : '\n' ∉ b.toDigits n := by
  intro h
  obtain ⟨k, hk⟩ := exists_digitChar_of_mem_toDigits hb h
  exact Nat.digitChar_ne '\n' (by decide) hk.symm

lemma Text.not_mem_quoteChar (c : Char) : '\n' ∉ (quoteChar c).toList := by
  have hcode : '\n' ∉ codeEscape c := by
    rw [codeEscape, List.mem_append, List.mem_append]
    rintro ((h | h) | h)
    · exact absurd h (by decide)
    · exact not_mem_toDigits (by decide) h
    · exact absurd h (by decide)
  have hescape : '\n' ∉ escape '\x27' c := by
    rw [escape]
    split_ifs with h0 ht hr hn hmark hhidden
    · decide
    · decide
    · decide
    · decide
    · simp [Ne.symm hn]
    · exact hcode
    · simp [Ne.symm hn]
  rw [quoteChar, String.toList_ofList, List.mem_append, List.mem_cons]
  rintro ((h | h) | h)
  · exact absurd h (by decide)
  · exact hescape h
  · exact absurd h (by decide)

/-- The texts that a message repeats as they are. -/
def Cause.quoted : Cause → List String
  | .unexpectedOperator operator => [String.singleton operator]
  | .missingOpenParen function => [function]
  | .argumentCount function _ _ => [function]
  | .invalidNumber literal => [literal]
  | _ => []

lemma Cause.not_mem_message {cause : Cause} (h : ∀ s ∈ cause.quoted, '\n' ∉ s.toList) :
    '\n' ∉ cause.message.toList := by
  cases cause with
  | illegalCharacter found =>
    change '\n' ∉ ("Unexpected character " ++ Text.quoteChar found ++ ".").toList
    simp [Text.not_mem_quoteChar]
  | unexpectedOperator operator =>
    have hoperator : ¬ '\n' = operator := by simpa using h _ List.mem_cons_self
    change '\n' ∉ ("Unexpected operator '" ++ String.singleton operator ++ "'.").toList
    simp [hoperator]
  | missingOpenParen function =>
    have hfunction := h _ List.mem_cons_self
    change '\n' ∉ ("Function '" ++ function ++ "' must be followed by '('.").toList
    simp [hfunction]
  | argumentCount function expected found =>
    have hfunction := h _ List.mem_cons_self
    change '\n' ∉ ("Function '" ++ function ++ "' requires " ++ toString expected
      ++ " parameter(s), but " ++ toString found ++ " were given.").toList
    simp [hfunction, not_mem_toDigits]
  | invalidNumber literal =>
    have hliteral := h _ List.mem_cons_self
    change '\n' ∉ ("Unparsable number '" ++ literal ++ "'.").toList
    simp [hliteral]
  | _ => decide

/-! ### Places -/

variable {statement : String} {fault : Fault} {i : Nat}

lemma StandsAt.mem {text : String} (h : StandsAt statement text i) {c : Char}
    (hc : c ∈ text.toList) : c ∈ statement.toList := by
  obtain ⟨front, back, rfl, -⟩ := h
  simp [hc]

lemma utf8Len_of_forall_isLegal {cs : List Char} (h : ∀ c ∈ cs, Lexeme.isLegal c) :
    utf8Len cs = cs.length := by
  induction cs with
  | nil => rfl
  | cons c cs ih =>
    obtain ⟨hc, hcs⟩ := List.forall_mem_cons.mp h
    rw [String.utf8Len_cons, ih hcs, Lexeme.utf8Size_of_isLegal hc, List.length_cons]

/-- A text that stands somewhere begins there, after ASCII characters only. -/
lemma StandsAt.pointsAt {text : String} (h : StandsAt statement text i) (hne : text.toList ≠ []) :
    PointsAt statement i := by
  obtain ⟨front, back, rfl, hlegal, hfront⟩ := h
  obtain ⟨c, cs, hcs⟩ := List.exists_cons_of_ne_nil hne
  have hsize : utf8Len front.toList = i := by
    rw [← String.utf8ByteSize_ofList, String.ofList_toList, hfront]
  have hpos : 0 < text.utf8ByteSize := by
    rw [← String.ofList_toList (s := text), hcs, String.utf8ByteSize_ofList, String.utf8Len_cons]
    have := c.utf8Size_pos
    omega
  refine ⟨?_, front.toList, c, cs ++ back.toList, ?_, ?_, hsize, fun a ha => ?_⟩
  · rw [String.utf8ByteSize_append, String.utf8ByteSize_append, hfront]
    omega
  · simp [hcs]
  · rw [← utf8Len_of_forall_isLegal hlegal, hsize]
  · have hascii := Char.utf8Size_eq_one_iff.mp (Lexeme.utf8Size_of_isLegal (hlegal a ha))
    exact Nat.lt_succ_of_le (UInt32.le_iff_toNat_le.mp hascii)

lemma Occurs.text_ne_nil {before : List Lexeme} {t : Token} {after : List Item}
    (h : Occurs statement before t i after) : t.text.toList ≠ [] := by
  obtain ⟨⟨stop, hitems⟩, -⟩ := h
  have hmem : .lexeme ⟨t, i, stop⟩ ∈ Lexeme.scan 0 statement.toList := by
    rw [← InfixCalc.items, hitems]
    simp
  exact Lexeme.chars_ne_nil (Lexeme.isOf_chars_of_mem_scan hmem).1

lemma Occurs.pointsAt {before : List Lexeme} {t : Token} {after : List Item}
    (h : Occurs statement before t i after) : PointsAt statement i :=
  h.place.pointsAt h.text_ne_nil

namespace Describes

variable (h : Describes statement fault)
include h

/-- A fault with a place is noticed at a character, after ASCII characters only. -/
lemma pointsAt (hi : fault.index = some i) : PointsAt statement i := by
  cases h with
  | illegalCharacter place =>
    cases hi
    exact place.pointsAt (by simp)
  | unexpectedOperator occurs | operatorExpected occurs | emptyParentheses occurs
  | unexpectedCloseParen occurs | unexpectedComma occurs | missingOpenParen occurs
  | argumentCount occurs | invalidNumber occurs =>
    cases hi
    exact occurs.pointsAt
  | trailingOperator => cases hi
  | unclosedParen _ _ place =>
    cases hi
    exact place.pointsAt (by decide)

/-- The message of a fault takes up one line if the statement does. -/
lemma not_mem_message (hs : '\n' ∉ statement.toList) : '\n' ∉ fault.cause.message.toList := by
  have hname (f : Builtin) : '\n' ∉ f.name.toList := by cases f <;> decide
  apply Cause.not_mem_message
  cases h with
  | @unexpectedOperator _ op =>
    refine List.forall_mem_singleton.mpr ?_
    cases op <;> decide
  | missingOpenParen => exact List.forall_mem_singleton.mpr (hname _)
  | argumentCount => exact List.forall_mem_singleton.mpr (hname _)
  | invalidNumber occurs =>
    exact List.forall_mem_singleton.mpr fun hmem => hs (occurs.place.mem hmem)
  | _ => exact fun s hmem => absurd hmem List.not_mem_nil

end Describes

/-! ### Statements -/

/-- A rejected statement of one line is shown in lines. Without a place these are the message and
the statement. With a place a caret stands in a third line, below a character that only ASCII
characters come before; but beyond the width that a line can be filled to there is no text. -/
theorem display_of_parse {r : Rejection} (h : parse statement = .error r)
    (hline : '\n' ∉ statement.toList) :
    (r.index = none →
        r.display?.map lines = some ["Error: " ++ r.message, "  " ++ statement]) ∧
      ∀ i, r.index = some i → PointsAt statement i ∧
        (r.display?.map lines = some ["Error at index " ++ toString i ++ ": " ++ r.message,
            "  " ++ statement, String.ofList (List.replicate (2 + i) ' ') ++ "^"] ↔ i < 65535) ∧
        (65535 ≤ i → r.display? = none) := by
  obtain ⟨rfl, hdescribes⟩ := statement_eq_and_describes h
  have hmessage : '\n' ∉ r.message.toList := hdescribes.not_mem_message hline
  constructor
  · intro hnone
    rw [Rejection.display?_of_none hnone, Option.map_some, lines_intercalate (by simp)]
    simp [hmessage, hline]
  · intro i hi
    refine ⟨hdescribes.pointsAt hi, ⟨?_, ?_⟩, Rejection.display?_of_le hi⟩
    · intro hdisplay
      by_contra! hle
      rw [Rejection.display?_of_le hi hle] at hdisplay
      cases hdisplay
    · intro hlt
      rw [Rejection.display?_of_lt hi hlt, Option.map_some, lines_intercalate (by simp)]
      simp [hmessage, hline, not_mem_toDigits]

lemma scan_blanks_closing (n start : Nat) :
    Lexeme.scan start (List.replicate n ' ' ++ [')'])
      = [.lexeme ⟨.closing, start + n, start + n + 1⟩] := by
  induction n generalizing start with
  | zero => simp [Lexeme.scan, Lexeme.isBlank, Lexeme.isSegmentChar, Token.ofChar?]
  | succ n ih =>
    rw [List.replicate_succ, List.cons_append, Lexeme.scan_blank rfl, ih, Nat.add_right_comm,
      Nat.add_assoc]

/-- A parenthesis that is closed behind blanks only is at fault where it stands. -/
lemma parse_blanks_closing (n : Nat) :
    parse (String.ofList (List.replicate n ' ' ++ [')']))
      = .error ⟨Cause.unexpectedCloseParen.at n,
        String.ofList (List.replicate n ' ' ++ [')'])⟩ := by
  have hwords : words (String.ofList (List.replicate n ' ' ++ [')'])) = [⟨.closing, n⟩] := by
    rw [words, items, String.toList_ofList, scan_blanks_closing, Nat.zero_add]
    rfl
  refine parse_eq_error_iff.mpr ⟨rfl, .initial, .inl ?_⟩
  rw [hwords]
  rfl

/-- The caret under the parenthesis in `  )`. -/
theorem display_closing :
    parse "  )" = .error ⟨Cause.unexpectedCloseParen.at 2, "  )"⟩ ∧
      '\n' ∉ "  )".toList ∧ PointsAt "  )" 2 ∧
      (Rejection.mk (Cause.unexpectedCloseParen.at 2) "  )").display?.map lines
        = some ["Error at index 2: Unexpected ')'.", "    )", "    ^"] := by
  have hparse : parse "  )" = .error ⟨Cause.unexpectedCloseParen.at 2, "  )"⟩ :=
    parse_blanks_closing 2
  have hline : '\n' ∉ "  )".toList := by decide
  obtain ⟨hpoints, hlines, -⟩ := (display_of_parse hparse hline).2 2 rfl
  exact ⟨hparse, hline, hpoints, hlines.mpr (by decide)⟩

/-- Behind too many blanks the parenthesis cannot be pointed at. -/
theorem display_closing_far :
    parse (String.ofList (List.replicate 65535 ' ' ++ [')']))
        = .error ⟨Cause.unexpectedCloseParen.at 65535,
          String.ofList (List.replicate 65535 ' ' ++ [')'])⟩ ∧
      '\n' ∉ (String.ofList (List.replicate 65535 ' ' ++ [')'])).toList ∧
      (Rejection.mk (Cause.unexpectedCloseParen.at 65535)
        (String.ofList (List.replicate 65535 ' ' ++ [')']))).display? = none := by
  have hline (n : Nat) :
      '\n' ∉ (String.ofList (List.replicate n ' ' ++ [')'])).toList := by
    simp
  exact ⟨parse_blanks_closing 65535, hline 65535, Rejection.display?_of_le rfl le_rfl⟩

end InfixCalc
