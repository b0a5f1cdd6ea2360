import InfixCalc.Proofs.Lexeme.Tokens
import Mathlib.Data.List.DropRight
import Mathlib.Data.String.Basic

/-!
# Places of items

A text is cut where it could be cut into two: unless a segment would be cut apart, the items of two
texts put together are those of the first and those of the second. Hence every item stands in its
text at the place that it names, and what comes before it is what the text before that place is cut
into.

Places count bytes, as `String.utf8Len` does. All characters that the language uses take up one.
-/

namespace InfixCalc

open String (utf8Len)

/-- The characters of an item. -/
def Item.chars : Item → List Char
  | .lexeme l => l.token.text.toList
  | .illegal found _ => [found]

/-- The place where an item starts. -/
def Item.start : Item → Nat
  | .lexeme l => l.start
  | .illegal _ index => index

/-- An item some bytes further on. -/
def Item.shift (n : Nat) : Item → Item
  | .lexeme l => .lexeme ⟨l.token, l.start + n, l.stop + n⟩
  | .illegal found index => .illegal found (index + n)

lemma Item.token?_shift (n : Nat) (item : Item) : (item.shift n).token? = item.token? := by
  cases item <;> rfl

namespace Lexeme

/-! ### Characters -/

lemma le_z_of_isAlphanum {c : Char} (h : c.isAlphanum) : c.val ≤ 'z'.val := by
  rcases Bool.or_eq_true_iff.mp h with h | h
  · rcases Bool.or_eq_true_iff.mp h with h | h
    · exact UInt32.le_trans (of_decide_eq_true h).2 (by decide)
    · exact of_decide_eq_true (Bool.and_eq_true_iff.mp h).2
  · exact UInt32.le_trans (of_decide_eq_true (Bool.and_eq_true_iff.mp h).2) (by decide)

lemma utf8Size_of_isSegmentChar {c : Char} (h : isSegmentChar c) : c.utf8Size = 1 := by
  rw [isSegmentChar, Bool.or_eq_true, Bool.or_eq_true, beq_iff_eq, beq_iff_eq] at h
  rw [Char.utf8Size_eq_one_iff]
  rcases h with (h | rfl) | rfl
  · exact UInt32.le_trans (le_z_of_isAlphanum h) (by decide)
  · decide
  · decide

lemma of_isBlank {c : Char} (h : isBlank c) : c.utf8Size = 1 ∧ isSegmentChar c = false := by
  rw [isBlank, Bool.or_eq_true, beq_iff_eq, beq_iff_eq] at h
  rcases h with rfl | rfl <;> decide

lemma of_ofChar? {c : Char} {t : Token} (h : Token.ofChar? c = some t) :
    t.text = String.singleton c ∧ c.utf8Size = 1 ∧ isBlank c = false ∧ isSegmentChar c = false := by
  unfold Token.ofChar? at h
  split at h
  case h_1 | h_2 | h_3 =>
    cases h
    decide
  case h_4 =>
    obtain ⟨op, hop, rfl⟩ := Option.map_eq_some_iff.mp h
    obtain rfl := Operator.ofSymbol?_eq_some_iff.mp hop
    cases op <;> decide

lemma chars_of_ofChar? {c : Char} {t : Token} (h : Token.ofChar? c = some t) (start stop : Nat) :
    (Item.lexeme ⟨t, start, stop⟩).chars = [c] := by
  rw [Item.chars, (of_ofChar? h).1, String.toList_singleton]

lemma ofChar?_ne_segment (c : Char) (text : String) : Token.ofChar? c ≠ some (.segment text) := by
  unfold Token.ofChar?
  split <;> simp

lemma utf8Len_of_forall_isSegmentChar {cs : List Char} (h : ∀ c ∈ cs, isSegmentChar c) :
    utf8Len cs = cs.length := by
  induction cs with
  | nil => rfl
  | cons c cs ih =>
    obtain ⟨hc, hcs⟩ := List.forall_mem_cons.mp h
    rw [String.utf8Len_cons, ih hcs, utf8Size_of_isSegmentChar hc, List.length_cons]

lemma not_isSegmentChar_of_mem_getLast? (cs : List Char) :
    ∀ a ∈ (cs.rdropWhile isSegmentChar).getLast?, isSegmentChar a = false := by
  intro a ha
  obtain ⟨hne, rfl⟩ := List.mem_getLast?_eq_getLast ha
  simpa using List.rdropWhile_last_not isSegmentChar cs hne

/-! ### The first item -/

variable {c : Char} {cs front back : List Char} {start : Nat}

lemma scan_blank (h : isBlank c) : scan start (c :: cs) = scan (start + 1) cs := by
  rw [scan, if_pos h]

/-- The longest run of segment characters is the first item. -/
lemma scan_run (h : isSegmentChar c) :
    scan start (c :: cs) =
      .lexeme ⟨.segment (String.ofList (c :: cs.takeWhile isSegmentChar)), start,
          start + (c :: cs.takeWhile isSegmentChar).length⟩
        :: scan (start + (c :: cs.takeWhile isSegmentChar).length)
          (cs.dropWhile isSegmentChar) := by
  have hblank : ¬ isBlank c := by
    intro hblank
    rw [(of_isBlank hblank).2] at h
    cases h
  rw [scan, if_neg hblank, if_pos h]

lemma scan_token {t : Token} (h : Token.ofChar? c = some t) :
    scan start (c :: cs) = .lexeme ⟨t, start, start + 1⟩ :: scan (start + 1) cs := by
  obtain ⟨-, -, hblank, hsegment⟩ := of_ofChar? h
  rw [scan, hblank, hsegment, h]
  rfl

lemma scan_illegal (hblank : ¬ isBlank c) (hsegment : ¬ isSegmentChar c)
    (h : Token.ofChar? c = none) :
    scan start (c :: cs) = .illegal c start :: scan (start + c.utf8Size) cs := by
  rw [scan, if_neg hblank, if_neg hsegment, h]

lemma forall_mem_run (h : isSegmentChar c) :
    ∀ d ∈ c :: cs.takeWhile isSegmentChar, isSegmentChar d :=
  List.forall_mem_cons.mpr ⟨h, fun _ hd => List.mem_takeWhile_imp hd⟩

lemma run_append_dropWhile :
    (c :: cs.takeWhile isSegmentChar) ++ cs.dropWhile isSegmentChar = c :: cs := by
  rw [List.cons_append, List.takeWhile_append_dropWhile]

lemma utf8Len_cons_of_isSegmentChar (h : isSegmentChar c) :
    utf8Len (c :: cs) =
      (c :: cs.takeWhile isSegmentChar).length + utf8Len (cs.dropWhile isSegmentChar) := by
  rw [← utf8Len_of_forall_isSegmentChar (forall_mem_run h), ← String.utf8Len_append,
    run_append_dropWhile]

lemma isLegal_of_illegal_mem {found : Char} {index : Nat}
    (h : .illegal found index ∈ scan start cs) : isLegal found = false := by
  induction start, cs using scan.induct with
  | case1 start => simp [scan] at h
  | case2 start c cs hblank ih =>
    rw [scan_blank hblank] at h
    exact ih h
  | case3 start c cs hblank hsegment text =>
    rename_i ih
    rw [scan_run hsegment] at h
    rcases List.mem_cons.mp h with h | h
    · cases h
    · exact ih h
  | case4 start c cs hblank hsegment token htoken ih =>
    rw [scan_token htoken] at h
    rcases List.mem_cons.mp h with h | h
    · cases h
    · exact ih h
  | case5 start c cs hblank hsegment htoken ih =>
    rw [scan_illegal hblank hsegment htoken] at h
    rcases List.mem_cons.mp h with h | h
    · cases h
      simp [isLegal, hblank, hsegment, htoken]
    · exact ih h

/-! ### Texts put together -/

/-- Whether no segment goes across the border of two texts. -/
def Separated (front back : List Char) : Prop :=
  ∀ a ∈ front.getLast?, ∀ b ∈ back.head?, isSegmentChar a → isSegmentChar b = false

lemma Separated.of_suffix {front' : List Char} (h : Separated front back)
    (hsuffix : front' <:+ front) : Separated front' back := by
  obtain ⟨before, rfl⟩ := hsuffix
  intro a ha
  apply h a
  rw [List.getLast?_append, Option.mem_def.mp ha]
  rfl

lemma separated_of_head (h : ∀ b ∈ back.head?, isSegmentChar b = false) :
    Separated front back := fun _ _ b hb _ => h b hb

lemma separated_of_last (h : ∀ a ∈ front.getLast?, isSegmentChar a = false) :
    Separated front back := by
  intro a ha b _ hsegment
  rw [h a ha] at hsegment
  cases hsegment

lemma head_dropWhile (cs : List Char) :
    ∀ b ∈ (cs.dropWhile isSegmentChar).head?, isSegmentChar b = false := by
  intro b hb
  have := List.head?_dropWhile_not isSegmentChar cs
  rw [Option.mem_def.mp hb] at this
  simpa using this

/-- A segment at the end of a text does not go on in the next one. -/
lemma span_append (hc : isSegmentChar c)
    (h : Separated (c :: cs) back) :
    (cs ++ back).takeWhile isSegmentChar = cs.takeWhile isSegmentChar ∧
      (cs ++ back).dropWhile isSegmentChar = cs.dropWhile isSegmentChar ++ back := by
  induction cs generalizing c with
  | nil =>
    cases back with
    | nil => exact ⟨rfl, rfl⟩
    | cons b back =>
      have hb : isSegmentChar b = false := h c rfl b rfl hc
      simp [hb]
  | cons d cs ih =>
    by_cases hd : isSegmentChar d
    · obtain ⟨htake, hdrop⟩ := ih hd (h.of_suffix (List.suffix_cons c _))
      simp [hd, htake, hdrop]
    · simp [hd]

/-- The items of two texts that no segment joins. -/
theorem scan_append (h : Separated front back) (start : Nat) :
    scan start (front ++ back) = scan start front ++ scan (start + utf8Len front) back := by
  induction start, front using scan.induct with
  | case1 start => simp [scan]
  | case2 start c cs hblank ih =>
    rw [List.cons_append, scan_blank hblank, scan_blank hblank,
      ih (h.of_suffix (List.suffix_cons c cs)), String.utf8Len_cons, (of_isBlank hblank).1,
      Nat.add_assoc, Nat.add_comm 1]
  | case3 start c cs hblank hsegment text ih =>
    obtain ⟨htake, hdrop⟩ := span_append hsegment h
    have hsuffix : cs.dropWhile isSegmentChar <:+ c :: cs :=
      (List.dropWhile_suffix _).trans (List.suffix_cons c cs)
    rw [List.cons_append, scan_run hsegment, htake, hdrop, ih (h.of_suffix hsuffix),
      scan_run hsegment, utf8Len_cons_of_isSegmentChar hsegment, ← Nat.add_assoc]
    rfl
  | case4 start c cs hblank hsegment token htoken ih =>
    rw [List.cons_append, scan_token htoken, scan_token htoken,
      ih (h.of_suffix (List.suffix_cons c cs)), String.utf8Len_cons, (of_ofChar? htoken).2.1,
      Nat.add_assoc, Nat.add_comm 1]
    rfl
  | case5 start c cs hblank hsegment htoken ih =>
    rw [List.cons_append, scan_illegal hblank hsegment htoken, scan_illegal hblank hsegment htoken,
      ih (h.of_suffix (List.suffix_cons c cs)), String.utf8Len_cons, Nat.add_assoc,
      Nat.add_comm c.utf8Size]
    rfl

/-- A text is cut in the same way wherever it stands. -/
theorem scan_add (start n : Nat) (cs : List Char) :
    scan (start + n) cs = (scan start cs).map (·.shift n) := by
  induction start, cs using scan.induct with
  | case1 start => simp [scan]
  | case2 start c cs hblank ih =>
    rw [scan_blank hblank, scan_blank hblank, ← ih, Nat.add_right_comm]
  | case3 start c cs hblank hsegment text ih =>
    rw [scan_run hsegment, scan_run hsegment, List.map_cons, ← ih, Item.shift, Nat.add_right_comm]
  | case4 start c cs hblank hsegment token htoken ih =>
    rw [scan_token htoken, scan_token htoken, List.map_cons, ← ih, Item.shift, Nat.add_right_comm]
  | case5 start c cs hblank hsegment htoken ih =>
    rw [scan_illegal hblank hsegment htoken, scan_illegal hblank hsegment htoken, List.map_cons,
      ← ih, Item.shift, Nat.add_right_comm]

/-- A text of segment characters only is one segment. -/
lemma scan_segment (hne : cs ≠ []) (h : ∀ c ∈ cs, isSegmentChar c) (start : Nat) :
    scan start cs = [.lexeme ⟨.segment (String.ofList cs), start, start + cs.length⟩] := by
  cases cs with
  | nil => exact absurd rfl hne
  | cons c cs =>
    obtain ⟨hc, hcs⟩ := List.forall_mem_cons.mp h
    have hdrop : cs.dropWhile isSegmentChar = [] := List.dropWhile_eq_nil_iff.mpr hcs
    rw [scan_run hc, List.takeWhile_eq_self_iff.mpr hcs, hdrop, scan]

/-! ### Places -/

/-- Every item stands at its place, and the items around it are those of the text around it. -/
theorem exists_of_scan_eq_append {before after : List Item} {item : Item}
    (h : scan start cs = before ++ item :: after) :
    ∃ front back, cs = front ++ (item.chars ++ back) ∧ item.start = start + utf8Len front ∧
      scan start front = before ∧ scan (item.start + utf8Len item.chars) back = after := by
  induction start, cs using scan.induct generalizing before with
  | case1 start => simp [scan] at h
  | case2 start c cs hblank ih =>
    rw [scan_blank hblank] at h
    obtain ⟨front, back, rfl, hstart, hfront, hback⟩ := ih h
    refine ⟨c :: front, back, rfl, ?_, ?_, hback⟩
    · rw [hstart, String.utf8Len_cons, (of_isBlank hblank).1, Nat.add_assoc, Nat.add_comm 1]
    · rw [scan_blank hblank, hfront]
  | case3 start c cs hblank hsegment text =>
    rename_i ih
    rw [scan_run hsegment] at h
    have hall : ∀ d ∈ c :: cs.takeWhile isSegmentChar, isSegmentChar d := forall_mem_run hsegment
    rcases List.cons_eq_append_iff.mp h with ⟨rfl, hitem⟩ | ⟨before, rfl, hrest⟩
    · cases hitem
      refine ⟨[], cs.dropWhile isSegmentChar, ?_, rfl, by rw [scan], ?_⟩
      · rw [Item.chars, Token.text, String.toList_ofList, List.nil_append, run_append_dropWhile]
      · rw [Item.chars, Token.text, String.toList_ofList, utf8Len_of_forall_isSegmentChar hall]
        rfl
    · obtain ⟨front, back, hdrop, hstart, hfront, hback⟩ := ih hrest
      -- The segment ends where the rest begins, so that `front` does not make it longer.
      have hseparated : Separated (c :: cs.takeWhile isSegmentChar) front := by
        apply separated_of_head
        intro b hb
        apply head_dropWhile cs b
        rw [hdrop, List.head?_append, Option.mem_def.mp hb]
        rfl
      refine ⟨(c :: cs.takeWhile isSegmentChar) ++ front, back, ?_, ?_, ?_, hback⟩
      · rw [List.append_assoc, ← hdrop, run_append_dropWhile]
      · rw [hstart, String.utf8Len_append, utf8Len_of_forall_isSegmentChar hall, Nat.add_assoc]
      · rw [scan_append hseparated, scan_segment (List.cons_ne_nil _ _) hall,
          utf8Len_of_forall_isSegmentChar hall, hfront]
        rfl
  | case4 start c cs hblank hsegment token htoken ih =>
    rw [scan_token htoken] at h
    rcases List.cons_eq_append_iff.mp h with ⟨rfl, hitem⟩ | ⟨before, rfl, hrest⟩
    · cases hitem
      have hchars := chars_of_ofChar? htoken start (start + 1)
      refine ⟨[], cs, by rw [hchars]; rfl, rfl, by rw [scan], ?_⟩
      rw [hchars, String.utf8Len_cons, (of_ofChar? htoken).2.1]
      rfl
    · obtain ⟨front, back, rfl, hstart, hfront, hback⟩ := ih hrest
      refine ⟨c :: front, back, rfl, ?_, ?_, hback⟩
      · rw [hstart, String.utf8Len_cons, (of_ofChar? htoken).2.1, Nat.add_assoc, Nat.add_comm 1]
      · rw [scan_token htoken, hfront]
  | case5 start c cs hblank hsegment htoken ih =>
    rw [scan_illegal hblank hsegment htoken] at h
    rcases List.cons_eq_append_iff.mp h with ⟨rfl, hitem⟩ | ⟨before, rfl, hrest⟩
    · cases hitem
      refine ⟨[], cs, rfl, rfl, by rw [scan], ?_⟩
      rw [Item.chars, String.utf8Len_cons, String.utf8Len_nil, Nat.zero_add]
      rfl
    · obtain ⟨front, back, rfl, hstart, hfront, hback⟩ := ih hrest
      refine ⟨c :: front, back, rfl, ?_, ?_, hback⟩
      · rw [hstart, String.utf8Len_cons, Nat.add_assoc, Nat.add_comm c.utf8Size]
      · rw [scan_illegal hblank hsegment htoken, hfront]

end Lexeme

end InfixCalc
