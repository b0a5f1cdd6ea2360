import InfixCalc.Lexeme
import Mathlib.Data.List.TakeWhile
import Mathlib.Data.Set.List

/-!
# Tokens of a statement

A statement without illegal characters is cut into lexemes only, and one of blanks only is cut into
nothing.
-/

namespace InfixCalc

/-- The token of an item, if the item is legal. -/
def Item.token? : Item → Option Token
  | .lexeme l => some l.token
  | .illegal _ _ => none

/-- The tokens of a statement. -/
def tokens (statement : String) : List Token := (items statement).filterMap Item.token?

/-- Whether the language uses a character. -/
def Lexeme.isLegal (c : Char) : Bool :=
  isBlank c || isSegmentChar c || (Token.ofChar? c).isSome

/-- Whether the language uses all characters of a statement. -/
def Legal (statement : String) : Prop := ∀ c ∈ statement.toList, Lexeme.isLegal c

/-- Whether a statement consists of spaces and tabs. -/
def Blank (statement : String) : Prop := ∀ c ∈ statement.toList, Lexeme.isBlank c

instance : DecidablePred Legal :=
  fun statement => List.decidableBAll (fun c => Lexeme.isLegal c) statement.toList

instance : DecidablePred Blank :=
  fun statement => List.decidableBAll (fun c => Lexeme.isBlank c) statement.toList

namespace Lexeme

lemma isLegal_of_isSegmentChar {c : Char} (h : isSegmentChar c) : isLegal c := by
  simp [isLegal, h]

lemma forall_mem_segment_iff {P : Char → Prop} {cs : List Char}
    (h : ∀ c, isSegmentChar c → P c) :
    (∀ c ∈ cs, P c) ↔ ∀ c ∈ cs.dropWhile isSegmentChar, P c := by
  constructor
  · exact fun hall c hc => hall c ((List.dropWhile_suffix _).subset hc)
  · intro hall c hc
    rw [← List.takeWhile_append_dropWhile (p := isSegmentChar) (l := cs)] at hc
    rcases List.mem_append.mp hc with hc | hc
    · exact h c (List.mem_takeWhile_imp hc)
    · exact hall c hc

/-- The illegal characters of a text are found again among its items. -/
lemma forall_mem_scan_iff (start : Nat) (cs : List Char) :
    (∀ item ∈ scan start cs, item ∈ Set.range Item.lexeme) ↔ ∀ c ∈ cs, isLegal c := by
  induction start, cs using scan.induct with
  | case1 start => simp [scan]
  | case2 start c cs hblank ih =>
    have hc : isLegal c := by simp [isLegal, hblank]
    rw [scan, if_pos hblank, ih, List.forall_mem_cons]
    exact (and_iff_right hc).symm
  | case3 start c cs hblank hsegment text ih =>
    rw [scan, if_neg hblank, if_pos hsegment, List.forall_mem_cons, ih, List.forall_mem_cons,
      ← forall_mem_segment_iff fun c => isLegal_of_isSegmentChar]
    simp [isLegal_of_isSegmentChar hsegment]
  | case4 start c cs hblank hsegment token htoken ih =>
    have hc : isLegal c := by simp [isLegal, htoken]
    rw [scan, if_neg hblank, if_neg hsegment, htoken, List.forall_mem_cons, ih,
      List.forall_mem_cons]
    simp [hc]
  | case5 start c cs hblank hsegment htoken ih =>
    simp [scan, hblank, hsegment, htoken, isLegal]

/-- A legal text is cut into lexemes. -/
lemma exists_lexemes_scan {cs : List Char} (h : ∀ c ∈ cs, isLegal c) (start : Nat) :
    ∃ ls : List Lexeme, scan start cs = ls.map .lexeme := by
  have hmem : scan start cs ∈ Set.range (List.map Item.lexeme) := by
    rw [Set.range_list_map]
    exact (forall_mem_scan_iff start cs).mpr h
  obtain ⟨ls, hls⟩ := hmem
  exact ⟨ls, hls.symm⟩

lemma scan_eq_nil_iff (start : Nat) (cs : List Char) :
    scan start cs = [] ↔ ∀ c ∈ cs, isBlank c := by
  induction start, cs using scan.induct with
  | case1 start => simp [scan]
  | case2 start c cs hblank ih => simp [scan, hblank, ih]
  | case3 start c cs hblank hsegment text ih => simp [scan, hblank, hsegment]
  | case4 start c cs hblank hsegment token htoken ih =>
    simp [scan, hblank, hsegment, htoken]
  | case5 start c cs hblank hsegment htoken ih => simp [scan, hblank, hsegment, htoken]

end Lexeme

lemma legal_of_items {statement : String} {ls : List Lexeme}
    (h : items statement = ls.map .lexeme) : Legal statement := by
  refine (Lexeme.forall_mem_scan_iff 0 _).mp ?_
  rw [← items, h]
  simp

lemma tokens_of_items {statement : String} {ls : List Lexeme}
    (h : items statement = ls.map .lexeme) : tokens statement = ls.map (·.token) := by
  simp [tokens, h, List.filterMap_map, Function.comp_def, Item.token?]

/-- A legal statement is cut into lexemes, which carry its tokens. -/
lemma Legal.exists_lexemes {statement : String} (h : Legal statement) :
    ∃ ls : List Lexeme, items statement = ls.map .lexeme ∧
      ls.map (·.token) = tokens statement := by
  obtain ⟨ls, hls⟩ := Lexeme.exists_lexemes_scan h 0
  exact ⟨ls, hls, (tokens_of_items hls).symm⟩

lemma Blank.legal {statement : String} (h : Blank statement) : Legal statement :=
  fun c hc => by simp [Lexeme.isLegal, h c hc]

lemma tokens_eq_nil_iff {statement : String} (h : Legal statement) :
    tokens statement = [] ↔ Blank statement := by
  obtain ⟨ls, hitems, htokens⟩ := h.exists_lexemes
  calc tokens statement = [] ↔ items statement = [] := by simp [← htokens, hitems]
    _ ↔ Blank statement := Lexeme.scan_eq_nil_iff 0 statement.toList

end InfixCalc
