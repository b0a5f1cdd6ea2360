import InfixCalc.Proofs.Lexeme.Places

/-!
# Replacing a name in a text

`replaceSegment` puts a text in the place of every segment that is a certain name. Where this text
is in parentheses it does not grow together with what stands next to it, so that the tokens of the
result are those of the statement, with the tokens of the text in the place of the name.
-/

namespace InfixCalc

namespace Lexeme

/-- A text with another one in the place of every segment that is a certain name. -/
def replace (name text : List Char) : List Char → List Char
  | [] => []
  | c :: cs =>
    if isSegmentChar c then
      let run := c :: cs.takeWhile isSegmentChar
      (if run = name then text else run) ++ replace name text (cs.dropWhile isSegmentChar)
    else c :: replace name text cs
termination_by cs => cs.length
decreasing_by
  · exact Nat.lt_succ_of_le (List.dropWhile_suffix isSegmentChar).length_le
  · exact Nat.lt_succ_self _

variable {name text cs : List Char} {c : Char}

lemma replace_run (h : isSegmentChar c) :
    replace name text (c :: cs) =
      (if c :: cs.takeWhile isSegmentChar = name then text else c :: cs.takeWhile isSegmentChar)
        ++ replace name text (cs.dropWhile isSegmentChar) := by
  rw [replace, if_pos h]

lemma replace_cons (h : ¬ isSegmentChar c) :
    replace name text (c :: cs) = c :: replace name text cs := by
  rw [replace, if_neg h]

lemma mem_replace {d : Char} (h : d ∈ replace name text cs) : d ∈ cs ∨ d ∈ text := by
  induction cs using replace.induct with
  | case1 => simp [replace] at h
  | case2 c cs hsegment ih =>
    rw [replace_run hsegment, List.mem_append] at h
    rw [← run_append_dropWhile, List.mem_append]
    rcases h with h | h
    · split_ifs at h
      · exact .inr h
      · exact .inl (.inl h)
    · exact (ih h).imp_left .inr
  | case3 c cs hsegment ih =>
    rw [replace_cons hsegment, List.mem_cons] at h
    rw [List.mem_cons, or_assoc]
    exact h.imp_right ih

/-- What does not begin with a segment begins with the same character after a replacement. -/
lemma head_replace (h : ∀ b ∈ cs.head?, isSegmentChar b = false) :
    ∀ b ∈ (replace name text cs).head?, isSegmentChar b = false := by
  cases cs with
  | nil => simp [replace]
  | cons c cs =>
    have hc : isSegmentChar c = false := h c rfl
    rw [replace_cons (by simp [hc])]
    exact h

/-! ### Tokens -/

/-- The tokens of a text. -/
def tokensOf (cs : List Char) : List Token := (scan 0 cs).filterMap Item.token?

@[simp] lemma tokensOf_nil : tokensOf [] = [] := by
  rw [tokensOf, scan]
  rfl

lemma filterMap_token?_scan (start : Nat) (cs : List Char) :
    (scan start cs).filterMap Item.token? = tokensOf cs := by
  have hshift := scan_add 0 start cs
  rw [Nat.zero_add] at hshift
  rw [hshift, List.filterMap_map, tokensOf]
  exact List.filterMap_congr fun item _ => item.token?_shift start

lemma tokensOf_append {front back : List Char} (h : Separated front back) :
    tokensOf (front ++ back) = tokensOf front ++ tokensOf back := by
  rw [tokensOf, scan_append h, List.filterMap_append, filterMap_token?_scan,
    filterMap_token?_scan]

lemma tokensOf_run (h : isSegmentChar c) :
    tokensOf (c :: cs) =
      .segment (String.ofList (c :: cs.takeWhile isSegmentChar))
        :: tokensOf (cs.dropWhile isSegmentChar) := by
  rw [tokensOf, scan_run h, List.filterMap_cons, filterMap_token?_scan]
  rfl

/-- A character that is not part of a segment is a token by itself, or none. -/
lemma tokensOf_cons (h : ¬ isSegmentChar c) :
    tokensOf (c :: cs) = (Token.ofChar? c).toList ++ tokensOf cs := by
  by_cases hblank : isBlank c
  · have htoken : Token.ofChar? c = none := by
      rw [isBlank, Bool.or_eq_true, beq_iff_eq, beq_iff_eq] at hblank
      rcases hblank with rfl | rfl <;> rfl
    rw [tokensOf, scan_blank hblank, filterMap_token?_scan, htoken]
    rfl
  · cases htoken : Token.ofChar? c with
    | some t =>
      rw [tokensOf, scan_token htoken, List.filterMap_cons, filterMap_token?_scan]
      rfl
    | none =>
      rw [tokensOf, scan_illegal hblank h htoken, List.filterMap_cons, filterMap_token?_scan]
      rfl

lemma tokensOf_parenthesized (cs : List Char) :
    tokensOf ('(' :: (cs ++ [')'])) = .opening :: (tokensOf cs ++ [.closing]) := by
  have hclosing : Separated cs [')'] := separated_of_head (by rintro b ⟨⟩; rfl)
  rw [tokensOf_cons (by decide), tokensOf_append hclosing, tokensOf_cons (by decide), tokensOf_nil]
  rfl

end Lexeme

/-- Some tokens in parentheses in the place of a segment. -/
def Token.replace (name : String) (ts : List Token) (t : Token) : List Token :=
  if t = .segment name then .opening :: (ts ++ [.closing]) else [t]

/-- Replacing a name in a text replaces it among the tokens. -/
theorem Lexeme.tokensOf_replace (name text cs : List Char) :
    tokensOf (replace name ('(' :: (text ++ [')'])) cs)
      = (tokensOf cs).flatMap (Token.replace (String.ofList name) (tokensOf text)) := by
  induction cs using replace.induct with
  | case1 => simp [replace]
  | case2 c cs hsegment ih =>
    have hhead : ∀ b ∈ (replace name ('(' :: (text ++ [')'])) (cs.dropWhile isSegmentChar)).head?,
        isSegmentChar b = false := head_replace (head_dropWhile cs)
    rw [replace_run hsegment, tokensOf_append (separated_of_head hhead), ih, tokensOf_run hsegment,
      List.flatMap_cons, Token.replace]
    congr 1
    by_cases hname : c :: cs.takeWhile isSegmentChar = name
    · rw [if_pos hname, if_pos (by rw [hname]), tokensOf_parenthesized]
    · have hne : Token.segment (String.ofList (c :: cs.takeWhile isSegmentChar))
          ≠ .segment (String.ofList name) := by
        rw [Ne, Token.segment.injEq, String.ofList_inj]
        exact hname
      rw [if_neg hname, if_neg hne, tokensOf,
        scan_segment (List.cons_ne_nil _ _) (forall_mem_run hsegment)]
      rfl
  | case3 c cs hsegment ih =>
    rw [replace_cons hsegment, tokensOf_cons hsegment, ih, tokensOf_cons hsegment,
      List.flatMap_append]
    congr 1
    cases htoken : Token.ofChar? c with
    | none => rfl
    | some t =>
      have ht : t ≠ .segment (String.ofList name) := by
        rintro rfl
        exact ofChar?_ne_segment c _ htoken
      simp [Token.replace, ht]

/-! ### Statements -/

/-- A statement with a text in the place of every segment that is a certain name. -/
def replaceSegment (name text statement : String) : String :=
  String.ofList (Lexeme.replace name.toList text.toList statement.toList)

variable {name text statement : String}

lemma toList_parenthesized (text : String) :
    ("(" ++ text ++ ")").toList = '(' :: (text.toList ++ [')']) := by
  rw [String.toList_append, String.toList_append]
  rfl

lemma tokens_replaceSegment (name text statement : String) :
    tokens (replaceSegment name ("(" ++ text ++ ")") statement)
      = (tokens statement).flatMap (Token.replace name (tokens text)) := by
  have hreplace := Lexeme.tokensOf_replace name.toList text.toList statement.toList
  rw [String.ofList_toList] at hreplace
  rw [tokens, items, replaceSegment, String.toList_ofList, toList_parenthesized]
  exact hreplace

lemma legal_replaceSegment (hstatement : Legal statement) (htext : Legal text) :
    Legal (replaceSegment name ("(" ++ text ++ ")") statement) := by
  intro c hc
  rw [replaceSegment, String.toList_ofList, toList_parenthesized] at hc
  rcases Lexeme.mem_replace hc with hc | hc
  · exact hstatement c hc
  · rw [List.mem_cons, List.mem_append, List.mem_singleton] at hc
    rcases hc with rfl | hc | rfl
    · rfl
    · exact htext c hc
    · rfl

end InfixCalc
