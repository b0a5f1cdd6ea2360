import InfixCalc.Proofs.Lexeme.Places

/-!
# Items as a tiling

The items of a statement lie in it one after the other, and apart from blanks they leave nothing
out: every character is a blank that no item takes up, or part of exactly one lexeme, or an item of
its own that reports it as illegal. `Tiling` says so of any list of items, in terms of the bytes
that these take up, and adds that a lexeme is what its bytes spell and that no segment could be
longer.
-/

namespace InfixCalc

open String (utf8Len)

/-- The place right after an item. -/
def Item.stop : Item → Nat
  | .lexeme l => l.stop
  | .illegal found index => index + found.utf8Size

/-- Whether an item takes up a byte. -/
def Item.covers (place : Nat) (item : Item) : Bool :=
  decide (item.start ≤ place) && decide (place < item.stop)

/-- The token that some characters spell. -/
def Token.ofChars? (cs : List Char) : Option Token :=
  if cs ≠ [] ∧ cs.all Lexeme.isSegmentChar then some (.segment (String.ofList cs))
  else match cs with
    | [c] => Token.ofChar? c
    | _ => none

/-- Whether an item is what some characters stand for. -/
def Item.IsOf (slice : List Char) : Item → Prop
  | .lexeme l => Token.ofChars? slice = some l.token
  | .illegal found _ => slice = [found] ∧ Lexeme.isLegal found = false

/-- Whether a character at a place is a blank outside of all items, or in one lexeme and in nothing
else, or reported by one item and part of nothing else. -/
def Accounted (is : List Item) (c : Char) (place : Nat) : Prop :=
  (c = ' ' ∨ c = '\t') ∧ is.filter (Item.covers place) = [] ∨
    (∃ l, is.filter (Item.covers place) = [.lexeme l]) ∨
    Lexeme.isLegal c = false ∧ is.filter (Item.covers place) = [.illegal c place]

/-- A segment of a text that could be longer at neither end. -/
def MaximalRun (cs run : List Char) (start : Nat) : Prop :=
  ∃ front back, cs = front ++ (run ++ back) ∧ utf8Len front = start ∧
    (∀ c ∈ run, Lexeme.isSegmentChar c) ∧
    (∀ a ∈ front.getLast?, Lexeme.isSegmentChar a = false) ∧
    ∀ b ∈ back.head?, Lexeme.isSegmentChar b = false

structure Tiling (statement : String) (is : List Item) : Prop where
  span : ∀ item ∈ is, item.start < item.stop ∧ ∃ front slice back,
    statement.toList = front ++ (slice ++ back) ∧ utf8Len front = item.start ∧
      utf8Len (front ++ slice) = item.stop ∧ item.IsOf slice
  ordered : is.Pairwise fun a b => a.start < b.start ∧ a.stop ≤ b.start
  accounted : ∀ front c back, statement.toList = front ++ c :: back →
    Accounted is c (utf8Len front)
  maximal : ∀ text start stop, .lexeme ⟨.segment text, start, stop⟩ ∈ is →
    MaximalRun statement.toList text.toList start

/-! ### Spelling -/

namespace Token

variable {c : Char} {cs : List Char}

lemma ofChars?_run (hne : cs ≠ []) (h : ∀ c ∈ cs, Lexeme.isSegmentChar c) :
    ofChars? cs = some (.segment (String.ofList cs)) :=
  if_pos ⟨hne, List.all_eq_true.mpr h⟩

lemma ofChars?_singleton {t : Token} (h : ofChar? c = some t) : ofChars? [c] = some t := by
  obtain ⟨-, -, -, hsegment⟩ := Lexeme.of_ofChar? h
  have hrun : ¬ ([c] ≠ [] ∧ [c].all Lexeme.isSegmentChar) := by
    simp [hsegment]
  rw [ofChars?, if_neg hrun]
  exact h

/-- A token is spelled by a run of segment characters or by a single other character. -/
lemma ofChars?_cases {t : Token} (h : ofChars? cs = some t) :
    (cs ≠ [] ∧ (∀ c ∈ cs, Lexeme.isSegmentChar c) ∧ t = .segment (String.ofList cs)) ∨
      ∃ c, cs = [c] ∧ ofChar? c = some t := by
  unfold ofChars? at h
  split_ifs at h with hrun
  · exact .inl ⟨hrun.1, List.all_eq_true.mp hrun.2, (Option.some.inj h).symm⟩
  · split at h
    case h_1 c => exact .inr ⟨c, rfl, h⟩
    case h_2 => cases h

lemma forall_of_ofChars?_segment {text : String} (h : ofChars? cs = some (.segment text)) :
    cs ≠ [] ∧ ∀ c ∈ cs, Lexeme.isSegmentChar c := by
  rcases ofChars?_cases h with ⟨hne, hrun, -⟩ | ⟨c, -, hc⟩
  · exact ⟨hne, hrun⟩
  · exact absurd hc (Lexeme.ofChar?_ne_segment c text)

end Token

namespace Lexeme

variable {c : Char} {cs front back slice : List Char} {item : Item} {start place : Nat}

/-! ### Spans -/

lemma utf8Len_run (cs : List Char) (h : isSegmentChar c) :
    utf8Len (c :: cs.takeWhile isSegmentChar) = (c :: cs.takeWhile isSegmentChar).length :=
  utf8Len_of_forall_isSegmentChar (forall_mem_run h)

/-- An item takes up the bytes of its characters, and it is what they stand for. -/
lemma isOf_chars_of_mem_scan (h : item ∈ scan start cs) :
    item.IsOf item.chars ∧ item.stop = item.start + utf8Len item.chars := by
  induction start, cs using scan.induct with
  | case1 start => simp [scan] at h
  | case2 start c cs hblank ih =>
    rw [scan_blank hblank] at h
    exact ih h
  | case3 start c cs hblank hsegment text =>
    rename_i ih
    rw [scan_run hsegment] at h
    rcases List.mem_cons.mp h with rfl | h
    · rw [Item.chars, Token.text, String.toList_ofList, utf8Len_run cs hsegment]
      exact ⟨Token.ofChars?_run (List.cons_ne_nil _ _) (forall_mem_run hsegment), rfl⟩
    · exact ih h
  | case4 start c cs hblank hsegment token htoken ih =>
    rw [scan_token htoken] at h
    rcases List.mem_cons.mp h with rfl | h
    · rw [chars_of_ofChar? htoken, String.utf8Len_cons, (of_ofChar? htoken).2.1]
      exact ⟨Token.ofChars?_singleton htoken, rfl⟩
    · exact ih h
  | case5 start c cs hblank hsegment htoken ih =>
    rw [scan_illegal hblank hsegment htoken] at h
    rcases List.mem_cons.mp h with rfl | h
    · rw [Item.chars, String.utf8Len_cons, String.utf8Len_nil, Nat.zero_add]
      refine ⟨⟨rfl, ?_⟩, rfl⟩
      simp [isLegal, hblank, hsegment, htoken]
    · exact ih h

lemma chars_ne_nil (h : item.IsOf item.chars) : item.chars ≠ [] := by
  cases item with
  | illegal found index => exact List.cons_ne_nil _ _
  | lexeme l =>
    intro hnil
    rw [hnil] at h
    cases h

lemma utf8Len_pos (h : slice ≠ []) : 0 < utf8Len slice := by
  cases slice with
  | nil => exact absurd rfl h
  | cons c cs =>
    rw [String.utf8Len_cons]
    exact Nat.lt_of_lt_of_le c.utf8Size_pos (Nat.le_add_left _ _)

lemma start_lt_stop_of_mem_scan (h : item ∈ scan start cs) : item.start < item.stop := by
  obtain ⟨hitem, hstop⟩ := isOf_chars_of_mem_scan h
  rw [hstop]
  exact Nat.lt_add_of_pos_right (utf8Len_pos (chars_ne_nil hitem))

lemma le_start_of_mem_scan (h : item ∈ scan start cs) : start ≤ item.start := by
  obtain ⟨before, after, hscan⟩ := List.append_of_mem h
  obtain ⟨front, -, -, hstart, -⟩ := exists_of_scan_eq_append hscan
  rw [hstart]
  exact Nat.le_add_right _ _

lemma stop_le_of_mem_scan (h : item ∈ scan start cs) : item.stop ≤ start + utf8Len cs := by
  obtain ⟨before, after, hscan⟩ := List.append_of_mem h
  obtain ⟨front, back, rfl, hstart, -⟩ := exists_of_scan_eq_append hscan
  rw [(isOf_chars_of_mem_scan h).2, hstart, String.utf8Len_append, String.utf8Len_append]
  omega

lemma pairwise_cons_scan {is : List Item} (hitem : item.start < item.stop)
    (his : ∀ b ∈ is, item.stop ≤ b.start)
    (h : is.Pairwise fun a b => a.start < b.start ∧ a.stop ≤ b.start) :
    (item :: is).Pairwise fun a b => a.start < b.start ∧ a.stop ≤ b.start :=
  List.pairwise_cons.mpr ⟨fun b hb => ⟨Nat.lt_of_lt_of_le hitem (his b hb), his b hb⟩, h⟩

/-- Items come in the order of the text and do not overlap. -/
lemma pairwise_scan (start : Nat) (cs : List Char) :
    (scan start cs).Pairwise fun a b => a.start < b.start ∧ a.stop ≤ b.start := by
  induction start, cs using scan.induct with
  | case1 start => simp [scan]
  | case2 start c cs hblank ih =>
    rw [scan_blank hblank]
    exact ih
  | case3 start c cs hblank hsegment text =>
    rename_i ih
    rw [scan_run hsegment]
    exact pairwise_cons_scan (Nat.lt_add_of_pos_right (Nat.succ_pos _))
      (fun b hb => le_start_of_mem_scan hb) ih
  | case4 start c cs hblank hsegment token htoken ih =>
    rw [scan_token htoken]
    exact pairwise_cons_scan (Nat.lt_succ_self _) (fun b hb => le_start_of_mem_scan hb) ih
  | case5 start c cs hblank hsegment htoken ih =>
    rw [scan_illegal hblank hsegment htoken]
    exact pairwise_cons_scan (Nat.lt_add_of_pos_right c.utf8Size_pos)
      (fun b hb => le_start_of_mem_scan hb) ih

/-! ### Characters and their items -/

lemma covers_iff : item.covers place ↔ item.start ≤ place ∧ place < item.stop := by
  rw [Item.covers, Bool.and_eq_true, decide_eq_true_eq, decide_eq_true_eq]

lemma filter_covers_scan (h : place < start) : (scan start cs).filter (Item.covers place) = [] := by
  apply List.filter_eq_nil_iff.mpr
  intro item hitem hcovers
  have hle := (le_start_of_mem_scan hitem).trans (covers_iff.mp hcovers).1
  exact absurd h (Nat.not_lt.mpr hle)

/-- A place in the first item is in no other one. -/
lemma filter_covers_first (hstart : item.start ≤ place) (hstop : place < item.stop) :
    (item :: scan item.stop cs).filter (Item.covers place) = [item] := by
  rw [List.filter_cons_of_pos (covers_iff.mpr ⟨hstart, hstop⟩), filter_covers_scan hstop]

lemma accounted_cons {is : List Item} (hle : item.stop ≤ place) (h : Accounted is c place) :
    Accounted (item :: is) c place := by
  have hcovers : ¬ item.covers place := fun h => Nat.not_lt.mpr hle (covers_iff.mp h).2
  rw [Accounted, List.filter_cons_of_neg hcovers]
  exact h

/-- No character gets lost, and none is in two items. -/
theorem accounted_scan (start : Nat) (h : cs = front ++ c :: back) :
    Accounted (scan start cs) c (start + utf8Len front) := by
  induction start, cs using scan.induct generalizing front with
  | case1 start => simp at h
  | case2 start d cs hblank ih =>
    rw [scan_blank hblank]
    rcases List.cons_eq_append_iff.mp h with ⟨rfl, hc⟩ | ⟨front, rfl, rfl⟩
    · cases hc
      refine .inl ⟨?_, filter_covers_scan (Nat.lt_succ_self start)⟩
      rwa [isBlank, Bool.or_eq_true, beq_iff_eq, beq_iff_eq] at hblank
    · have hplace : start + utf8Len (d :: front) = start + 1 + utf8Len front := by
        rw [String.utf8Len_cons, (of_isBlank hblank).1, Nat.add_assoc, Nat.add_comm 1]
      rw [hplace]
      exact ih rfl
  | case3 start d cs hblank hsegment text =>
    rename_i ih
    have hlength := utf8Len_run cs hsegment
    rw [scan_run hsegment]
    rw [← run_append_dropWhile] at h
    rcases List.append_eq_append_iff.mp h with ⟨front', rfl, hrest⟩ | ⟨inner, hrun, hback⟩
    · rw [String.utf8Len_append, hlength, ← Nat.add_assoc]
      exact accounted_cons (Nat.le_add_right _ _) (ih hrest)
    · cases inner with
      | nil =>
        rw [List.append_nil] at hrun
        have hrest : cs.dropWhile isSegmentChar = [] ++ c :: back := hback.symm
        rw [← hrun, hlength]
        exact accounted_cons (Nat.le_refl _) (ih hrest)
      | cons c' inner =>
        -- The character is in the run itself.
        have hlt : utf8Len front < (d :: cs.takeWhile isSegmentChar).length := by
          rw [← hlength, hrun, String.utf8Len_append]
          exact Nat.lt_add_of_pos_right (utf8Len_pos (List.cons_ne_nil _ _))
        exact .inr (.inl ⟨_, filter_covers_first (Nat.le_add_right _ _)
          (Nat.add_lt_add_left hlt start)⟩)
  | case4 start d cs hblank hsegment token htoken ih =>
    rw [scan_token htoken]
    rcases List.cons_eq_append_iff.mp h with ⟨rfl, hc⟩ | ⟨front, rfl, rfl⟩
    · exact .inr (.inl ⟨_, filter_covers_first (Nat.le_refl start) (Nat.lt_succ_self start)⟩)
    · have hplace : start + utf8Len (d :: front) = start + 1 + utf8Len front := by
        rw [String.utf8Len_cons, (of_ofChar? htoken).2.1, Nat.add_assoc, Nat.add_comm 1]
      rw [hplace]
      exact accounted_cons (Nat.le_add_right _ _) (ih rfl)
  | case5 start d cs hblank hsegment htoken ih =>
    rw [scan_illegal hblank hsegment htoken]
    rcases List.cons_eq_append_iff.mp h with ⟨rfl, hc⟩ | ⟨front, rfl, rfl⟩
    · cases hc
      refine .inr (.inr ⟨by simp [isLegal, hblank, hsegment, htoken], ?_⟩)
      exact filter_covers_first (Nat.le_refl start) (Nat.lt_add_of_pos_right c.utf8Size_pos)
    · have hplace : start + utf8Len (d :: front) = start + d.utf8Size + utf8Len front := by
        rw [String.utf8Len_cons, Nat.add_assoc, Nat.add_comm d.utf8Size]
      rw [hplace]
      exact accounted_cons (Nat.le_add_right _ _) (ih rfl)

/-! ### Segments -/

lemma forall_mem_segment {text : String} {stop : Nat}
    (h : .lexeme ⟨.segment text, place, stop⟩ ∈ scan start cs) :
    text.toList ≠ [] ∧ ∀ c ∈ text.toList, isSegmentChar c :=
  Token.forall_of_ofChars?_segment (isOf_chars_of_mem_scan h).1

lemma forall_mem_getLast?_cons (hc : isSegmentChar c = false)
    (h : ∀ a ∈ cs.getLast?, isSegmentChar a = false) :
    ∀ a ∈ (c :: cs).getLast?, isSegmentChar a = false := by
  cases cs with
  | nil =>
    rintro a ⟨⟩
    exact hc
  | cons d cs => exact h

/-- A segment takes in all segment characters next to it. -/
theorem maximalRun_of_mem_scan {text : String} {stop : Nat}
    (h : .lexeme ⟨.segment text, place, stop⟩ ∈ scan start cs) :
    ∃ front back, cs = front ++ (text.toList ++ back) ∧ start + utf8Len front = place ∧
      (∀ a ∈ front.getLast?, isSegmentChar a = false) ∧
      ∀ b ∈ back.head?, isSegmentChar b = false := by
  obtain ⟨hne, hall⟩ := forall_mem_segment h
  induction start, cs using scan.induct with
  | case1 start => simp [scan] at h
  | case2 start c cs hblank ih =>
    rw [scan_blank hblank] at h
    obtain ⟨front, back, rfl, rfl, hfront, hback⟩ := ih h
    refine ⟨c :: front, back, rfl, ?_, forall_mem_getLast?_cons (of_isBlank hblank).2 hfront, hback⟩
    rw [String.utf8Len_cons, (of_isBlank hblank).1, Nat.add_assoc, Nat.add_comm 1]
  | case3 start c cs hblank hsegment text' =>
    rename_i ih
    rw [scan_run hsegment] at h
    rcases List.mem_cons.mp h with hhead | h
    · cases hhead
      refine ⟨[], cs.dropWhile isSegmentChar, ?_, rfl, by simp, head_dropWhile cs⟩
      rw [String.toList_ofList, List.nil_append, run_append_dropWhile]
    · obtain ⟨front, back, hrest, rfl, hfront, hback⟩ := ih h
      refine ⟨(c :: cs.takeWhile isSegmentChar) ++ front, back, ?_, ?_, ?_, hback⟩
      · rw [List.append_assoc, ← hrest, run_append_dropWhile]
      · rw [String.utf8Len_append, utf8Len_run cs hsegment, Nat.add_assoc]
      · cases front with
        | nil =>
          -- The text would begin with a segment right after the end of one.
          obtain ⟨d, ds, htext⟩ := List.exists_cons_of_ne_nil hne
          rw [List.nil_append, htext] at hrest
          have hd : isSegmentChar d = false := head_dropWhile cs d (by rw [hrest]; rfl)
          rw [hall d (htext ▸ List.mem_cons_self)] at hd
          cases hd
        | cons d front =>
          rw [List.getLast?_append_of_ne_nil _ (List.cons_ne_nil d front)]
          exact hfront
  | case4 start c cs hblank hsegment token htoken ih =>
    obtain ⟨-, hsize, -, hnone⟩ := of_ofChar? htoken
    rw [scan_token htoken] at h
    rcases List.mem_cons.mp h with hhead | h
    · cases hhead
      exact absurd htoken (ofChar?_ne_segment c text)
    · obtain ⟨front, back, rfl, rfl, hfront, hback⟩ := ih h
      refine ⟨c :: front, back, rfl, ?_, forall_mem_getLast?_cons hnone hfront, hback⟩
      rw [String.utf8Len_cons, hsize, Nat.add_assoc, Nat.add_comm 1]
  | case5 start c cs hblank hsegment htoken ih =>
    rw [scan_illegal hblank hsegment htoken] at h
    rcases List.mem_cons.mp h with hhead | h
    · cases hhead
    · obtain ⟨front, back, rfl, rfl, hfront, hback⟩ := ih h
      refine ⟨c :: front, back, rfl, ?_, ?_, hback⟩
      · rw [String.utf8Len_cons, Nat.add_assoc, Nat.add_comm c.utf8Size]
      · exact forall_mem_getLast?_cons (by simpa using hsegment) hfront

end Lexeme

/-- The items of a statement tile it. -/
theorem tiling_items (statement : String) : Tiling statement (items statement) where
  span := by
    intro item hitem
    obtain ⟨hisOf, hstop⟩ := Lexeme.isOf_chars_of_mem_scan hitem
    obtain ⟨before, after, hscan⟩ := List.append_of_mem hitem
    obtain ⟨front, back, hchars, hstart, -⟩ := Lexeme.exists_of_scan_eq_append hscan
    rw [Nat.zero_add] at hstart
    refine ⟨Lexeme.start_lt_stop_of_mem_scan hitem, front, item.chars, back, hchars, hstart.symm,
      ?_, hisOf⟩
    rw [String.utf8Len_append, ← hstart, hstop]
  ordered := Lexeme.pairwise_scan 0 statement.toList
  accounted := by
    intro front c back hchars
    have haccounted := Lexeme.accounted_scan 0 hchars
    rwa [Nat.zero_add] at haccounted
  maximal := by
    intro text start stop hitem
    obtain ⟨front, back, hchars, hstart, hfront, hback⟩ := Lexeme.maximalRun_of_mem_scan hitem
    rw [Nat.zero_add] at hstart
    have hrun := (Lexeme.forall_mem_segment hitem).2
    exact ⟨front, back, hchars, hstart, hrun, hfront, hback⟩

end InfixCalc
