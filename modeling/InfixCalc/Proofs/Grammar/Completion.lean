import InfixCalc.Proofs.Grammar.Prefix
import InfixCalc.Proofs.Lexeme.Replacement
import InfixCalc.Proofs.Lexeme.Tiling

/-!
# Statements that end too early

What has been read of a statement without a fault can be completed: an operand goes where one is
missing, every open call gets the arguments that it lacks, and all parentheses are closed. Only an
open call with too many arguments stands in the way. The tokens that this takes are written with
blanks before them, so that none grows together with what is there.
-/

namespace InfixCalc

/-! ### Writing tokens -/

/-- Whether the text of a token is read as this token. -/
def Token.Spellable (t : Token) : Prop := Token.ofChars? t.text.toList = some t

/-- Tokens in writing, with a blank before each. -/
def Token.spell (ts : List Token) : List Char := ts.flatMap fun t => ' ' :: t.text.toList

lemma Token.spellable_of_ofChar? {c : Char} {t : Token} (h : ofChar? c = some t) :
    t.Spellable := by
  have hchars : t.text.toList = [c] := Lexeme.chars_of_ofChar? h 0 0
  rw [Spellable, hchars]
  exact ofChars?_singleton h

lemma Token.spell_cons (t : Token) (ts : List Token) :
    spell (t :: ts) = ' ' :: (t.text.toList ++ spell ts) :=
  rfl

namespace Lexeme

variable {cs : List Char} {t : Token} {ts : List Token}

lemma tokensOf_eq_singleton (h : Token.ofChars? cs = some t) : tokensOf cs = [t] := by
  rcases Token.ofChars?_cases h with ⟨hne, hrun, rfl⟩ | ⟨c, rfl, hc⟩
  · rw [tokensOf, scan_segment hne hrun]
    rfl
  · rw [tokensOf_cons (by simp [(of_ofChar? hc).2.2.2]), hc, tokensOf_nil]
    rfl

lemma isLegal_of_ofChars? (h : Token.ofChars? cs = some t) : ∀ c ∈ cs, isLegal c := by
  rcases Token.ofChars?_cases h with ⟨-, hrun, -⟩ | ⟨c, rfl, hc⟩
  · exact fun c hmem => isLegal_of_isSegmentChar (hrun c hmem)
  · intro d hd
    obtain rfl := List.mem_singleton.mp hd
    simp [isLegal, hc]

lemma separated_spell (front : List Char) (ts : List Token) :
    Separated front (Token.spell ts) := by
  apply separated_of_head
  cases ts with
  | nil => rintro b ⟨⟩
  | cons t ts =>
    rintro b ⟨⟩
    rfl

lemma tokensOf_spell (h : ∀ t ∈ ts, t.Spellable) : tokensOf (Token.spell ts) = ts := by
  induction ts with
  | nil => exact tokensOf_nil
  | cons t ts ih =>
    obtain ⟨ht, hts⟩ := List.forall_mem_cons.mp h
    rw [Token.spell_cons, tokensOf_cons (by decide), tokensOf_append (separated_spell _ ts),
      tokensOf_eq_singleton ht, ih hts]
    rfl

lemma isLegal_of_mem_spell (h : ∀ t ∈ ts, t.Spellable) : ∀ c ∈ Token.spell ts, isLegal c := by
  intro c hc
  obtain ⟨t, ht, hct⟩ := List.mem_flatMap.mp hc
  rcases List.mem_cons.mp hct with rfl | hct
  · rfl
  · exact isLegal_of_ofChars? (h t ht) c hct

end Lexeme

/-! ### Completions -/

/-- Whether a group does not have too many arguments already. -/
def Group.Fillable (g : Group) : Prop :=
  ∀ f expected, g.callee = some f → f.arity = .exact expected → g.begun ≤ expected

/-- How many further arguments a group needs. -/
def Group.lacking (g : Group) : Nat :=
  match g.callee.map Builtin.arity with
  | some (.exact expected) => expected - g.begun
  | _ => 0

/-- An operand that can stand wherever one is missing. -/
def Operand.filler : Operand := .variable "y" (by decide) (by decide)

/-- Further arguments. -/
def fillers (n : Nat) : List Token :=
  (List.replicate n (.comma :: Operand.filler.tokens)).flatten

/-- What a group lacks after an operand. -/
def Group.completion (g : Group) : List Token := fillers g.lacking ++ [.closing]

lemma Group.Fillable.exists_ending {f : Builtin} {begun openAt : Nat}
    (h : Fillable ⟨some f, begun, openAt⟩) :
    ∃ code, ending ⟨some f, begun + lacking ⟨some f, begun, openAt⟩, openAt⟩ = .ok code := by
  refine ⟨[.call f (begun + lacking ⟨some f, begun, openAt⟩)], ?_⟩
  cases harity : f.arity with
  | variadic => simp only [ending, harity]
  | exact expected =>
    have hle : begun ≤ expected := h f expected rfl harity
    have hcount : begun + lacking ⟨some f, begun, openAt⟩ = expected := by
      simp [lacking, harity, Nat.add_sub_cancel' hle]
    simp only [ending, harity, hcount, if_true]

/-- What is missing of a sentence, given the open groups and the phase of its beginning. -/
def completion (groups : List Group) (phase : Phase) : List Token :=
  (if phase = .afterOperand then [] else Operand.filler.tokens) ++
    groups.flatMap Group.completion

lemma fillers_succ (n : Nat) :
    fillers (n + 1) = .comma :: (Operand.filler.tokens ++ fillers n) := rfl

lemma Operand.spellable_filler : ∀ t ∈ filler.tokens, t.Spellable := by
  intro t ht
  obtain rfl := List.mem_singleton.mp ht
  unfold Token.Spellable
  decide +kernel

lemma spellable_of_mem_completion {groups : List Group} {phase : Phase} {t : Token}
    (h : t ∈ completion groups phase) : t.Spellable := by
  rcases List.mem_append.mp h with hoperand | hgroups
  · split_ifs at hoperand
    · cases hoperand
    · exact Operand.spellable_filler t hoperand
  · obtain ⟨g, -, hg⟩ := List.mem_flatMap.mp hgroups
    rcases List.mem_append.mp hg with harguments | hclosing
    · obtain ⟨us, hus, ht⟩ := List.mem_flatten.mp harguments
      obtain rfl := List.eq_of_mem_replicate hus
      rcases List.mem_cons.mp ht with rfl | ht
      · exact Token.spellable_of_ofChar? (c := ',') rfl
      · exact Operand.spellable_filler t ht
    · obtain rfl := List.mem_singleton.mp hclosing
      exact Token.spellable_of_ofChar? (c := ')') rfl

namespace Viable

variable {ts : List Token} {groups : List Group} {phase : Phase}

lemma fillers {f : Builtin} {begun openAt : Nat}
    (h : Viable ts (⟨some f, begun, openAt⟩ :: groups) .afterOperand) (n : Nat) :
    Viable (ts ++ fillers n) (⟨some f, begun + n, openAt⟩ :: groups) .afterOperand := by
  induction n generalizing ts begun with
  | zero => simpa [InfixCalc.fillers] using h
  | succ n ih =>
    have hargument := h.comma.operand (by rintro ⟨⟩) .filler
    have hrest := ih hargument
    rw [Nat.add_assoc, Nat.add_comm 1 n] at hrest
    simpa [fillers_succ] using hrest

/-- A group with what it lacks is an operand. -/
lemma group_completion {g : Group} (h : Viable ts (g :: groups) .afterOperand)
    (hg : g.Fillable) : Viable (ts ++ g.completion) groups .afterOperand := by
  obtain ⟨_ | f, begun, openAt⟩ := g
  · exact h.closing rfl
  · have hfilled := h.fillers (Group.lacking ⟨some f, begun, openAt⟩)
    obtain ⟨code, hending⟩ := hg.exists_ending
    rw [Group.completion, ← List.append_assoc]
    exact hfilled.closing hending

lemma groups_completion (h : Viable ts groups .afterOperand) (hgroups : ∀ g ∈ groups, g.Fillable) :
    Viable (ts ++ groups.flatMap Group.completion) [] .afterOperand := by
  induction groups generalizing ts with
  | nil => simpa using h
  | cons g groups ih =>
    obtain ⟨hg, hrest⟩ := List.forall_mem_cons.mp hgroups
    rw [List.flatMap_cons, ← List.append_assoc]
    exact ih (h.group_completion hg) hrest

/-- The beginning of a sentence with what is missing is a sentence. -/
theorem exists_sentence_completion (h : Viable ts groups phase)
    (hgroups : ∀ g ∈ groups, g.Fillable) :
    ∃ s : Sentence, ts ++ completion groups phase = s.tokens := by
  have hwhole : Viable (ts ++ completion groups phase) [] .afterOperand := by
    unfold completion
    split_ifs with hphase
    · subst hphase
      exact h.groups_completion hgroups
    · rw [← List.append_assoc]
      exact (h.operand hphase .filler).groups_completion hgroups
  exact hwhole.exists_sentence (by rintro ⟨⟩)

end Viable

/-! ### Statements -/

variable {s : String}

lemma tokens_append_spell {us : List Token} (h : ∀ t ∈ us, t.Spellable) :
    tokens (s ++ String.ofList (Token.spell us)) = tokens s ++ us := by
  have hchars : (s ++ String.ofList (Token.spell us)).toList = s.toList ++ Token.spell us := by
    simp
  rw [tokens, items, hchars]
  change Lexeme.tokensOf _ = Lexeme.tokensOf _ ++ us
  rw [Lexeme.tokensOf_append (Lexeme.separated_spell _ us), Lexeme.tokensOf_spell h]

lemma legal_append_spell {us : List Token} (hs : Legal s) (h : ∀ t ∈ us, t.Spellable) :
    Legal (s ++ String.ofList (Token.spell us)) := by
  intro c hc
  rw [String.toList_append, String.toList_ofList] at hc
  rcases List.mem_append.mp hc with hc | hc
  · exact hs c hc
  · exact Lexeme.isLegal_of_mem_spell h c hc

end InfixCalc
