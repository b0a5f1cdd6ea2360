import InfixCalc.Proofs.Lexeme.Replacement

/-!
# Segments of a text

The segments of a statement are its longest stretches of letters, digits, points and underscores.
They can be told without cutting the statement into items, by splitting it at all other characters,
and they are just the segments among its tokens.
-/

namespace InfixCalc

/-! ### Stretches -/

/-- The longest stretches of characters with a property, from left to right. -/
def stretches (p : Char → Bool) (cs : List Char) : List (List Char) :=
  (cs.splitOnP fun c => !p c).filter (· ≠ [])

section Stretches

variable {p : Char → Bool} {c : Char} {cs xs ys : List Char}

@[simp] lemma stretches_nil (p : Char → Bool) : stretches p [] = [] := by
  simp [stretches]

lemma stretches_append_cons (h : p c = false) (xs ys : List Char) :
    stretches p (xs ++ c :: ys) = stretches p xs ++ stretches p ys := by
  simp [stretches, List.splitOnP_append_cons xs ys, h]

lemma stretches_cons (h : p c = false) (cs : List Char) :
    stretches p (c :: cs) = stretches p cs := by
  simpa using stretches_append_cons h [] cs

lemma stretches_of_forall (hne : cs ≠ []) (h : ∀ c ∈ cs, p c) : stretches p cs = [cs] := by
  have hsplit : cs.splitOnP (fun c => !p c) = [cs] :=
    List.splitOnP_eq_singleton fun c hc => by simp [h c hc]
  simp [stretches, hsplit, hne]

/-- A stretch ends where the next character has not the property. -/
lemma stretches_append (hne : xs ≠ []) (h : ∀ c ∈ xs, p c)
    (hhead : ∀ b ∈ ys.head?, p b = false) : stretches p (xs ++ ys) = xs :: stretches p ys := by
  cases ys with
  | nil => rw [List.append_nil, stretches_of_forall hne h, stretches_nil]
  | cons b ys =>
    have hb : p b = false := hhead b rfl
    rw [stretches_append_cons hb, stretches_of_forall hne h, stretches_cons hb]
    rfl

/-- Stretches that are put together with a single other character between them are told apart. -/
lemma stretches_intercalate {sep : Char} (hsep : p sep = false) {ws : List (List Char)}
    (h : ∀ w ∈ ws, w ≠ [] ∧ ∀ c ∈ w, p c) : stretches p ([sep].intercalate ws) = ws := by
  induction ws with
  | nil => exact stretches_nil p
  | cons w ws ih =>
    obtain ⟨⟨hne, hw⟩, hws⟩ := List.forall_mem_cons.mp h
    cases ws with
    | nil => simpa using stretches_of_forall hne hw
    | cons v vs =>
      have hjoin : [sep].intercalate (w :: v :: vs) = w ++ sep :: [sep].intercalate (v :: vs) := by
        simp
      rw [hjoin, stretches_append_cons hsep, stretches_of_forall hne hw, ih hws]
      rfl

end Stretches

/-! ### Segments -/

/-- The segments of a statement, from left to right. -/
def segments (statement : String) : List String :=
  (stretches Lexeme.isSegmentChar statement.toList).map String.ofList

/-- The text of a segment. -/
def Token.segment? : Token → Option String
  | .segment text => some text
  | _ => none

namespace Lexeme

lemma segment?_of_ofChar? {c : Char} {t : Token} (h : Token.ofChar? c = some t) :
    t.segment? = none := by
  cases t with
  | segment text => exact absurd h (ofChar?_ne_segment c text)
  | _ => rfl

lemma stretches_run {c : Char} (cs : List Char) (h : isSegmentChar c) :
    stretches isSegmentChar (c :: cs) = (c :: cs.takeWhile isSegmentChar)
      :: stretches isSegmentChar (cs.dropWhile isSegmentChar) := by
  have hrun : ∀ d ∈ c :: cs.takeWhile isSegmentChar, isSegmentChar d := forall_mem_run h
  have hstretch := stretches_append (List.cons_ne_nil _ _) hrun (head_dropWhile cs)
  rwa [run_append_dropWhile] at hstretch

lemma of_mem_stretches {cs segment : List Char} (h : segment ∈ stretches isSegmentChar cs) :
    segment ≠ [] ∧ ∀ c ∈ segment, isSegmentChar c := by
  induction cs using replace.induct with
  | case1 => simp at h
  | case2 c cs hsegment ih =>
    rw [stretches_run cs hsegment] at h
    rcases List.mem_cons.mp h with rfl | h
    · exact ⟨List.cons_ne_nil _ _, forall_mem_run hsegment⟩
    · exact ih h
  | case3 c cs hsegment ih =>
    rw [stretches_cons (by simpa using hsegment)] at h
    exact ih h

/-- The segments among the tokens of a text are its longest stretches of segment characters. -/
theorem filterMap_segment?_tokensOf (cs : List Char) :
    (tokensOf cs).filterMap Token.segment? = (stretches isSegmentChar cs).map String.ofList := by
  induction cs using replace.induct with
  | case1 => simp
  | case2 c cs hsegment ih =>
    rw [tokensOf_run hsegment, stretches_run cs hsegment, List.map_cons, ← ih]
    rfl
  | case3 c cs hsegment ih =>
    rw [tokensOf_cons hsegment, stretches_cons (by simpa using hsegment), ← ih,
      List.filterMap_append]
    cases htoken : Token.ofChar? c with
    | none => rfl
    | some t =>
      rw [Option.toList_some, List.filterMap_cons, segment?_of_ofChar? htoken]
      rfl

end Lexeme

lemma filterMap_segment?_tokens (statement : String) :
    (tokens statement).filterMap Token.segment? = segments statement :=
  Lexeme.filterMap_segment?_tokensOf statement.toList

lemma of_mem_segments {statement segment : String} (h : segment ∈ segments statement) :
    segment.toList ≠ [] ∧ ∀ c ∈ segment.toList, Lexeme.isSegmentChar c := by
  obtain ⟨cs, hcs, rfl⟩ := List.mem_map.mp h
  rw [String.toList_ofList]
  exact Lexeme.of_mem_stretches hcs

end InfixCalc
