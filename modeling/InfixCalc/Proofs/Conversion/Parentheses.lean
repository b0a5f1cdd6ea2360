import InfixCalc.Conversion
import Mathlib.Data.List.Basic

/-!
# Parentheses

Which parenthesis is the innermost open one can be told from the tokens alone: the parentheses after
it match. The commas after it that stand in no inner parentheses are its own, and it belongs to the
call of a function if the name of one is right before it. `Opens ls groups` says that the groups of
a conversion are the open parentheses of the lexemes `ls`. There is only one such list of groups.
-/

namespace InfixCalc

/-- Tokens whose parentheses match, and the number of their commas outside of all parentheses. -/
inductive Balanced : List Token → Nat → Prop where
  | nil : Balanced [] 0
  | operator {ts : List Token} {n : Nat} (h : Balanced ts n) (op : Operator) :
      Balanced (ts ++ [.operator op]) n
  | segment {ts : List Token} {n : Nat} (h : Balanced ts n) (text : String) :
      Balanced (ts ++ [.segment text]) n
  | comma {ts : List Token} {n : Nat} (h : Balanced ts n) : Balanced (ts ++ [.comma]) (n + 1)
  | group {ts us : List Token} {m n : Nat} (h : Balanced ts n) (inner : Balanced us m) :
      Balanced (ts ++ .opening :: (us ++ [.closing])) n

/-- The function that is called by a parenthesis after some tokens. -/
def callee? (ts : List Token) : Option Builtin :=
  match ts.getLast? with
  | some (.segment text) => Builtin.ofName? text
  | _ => none

lemma callee?_append_name (ts : List Token) (f : Builtin) :
    callee? (ts ++ [.segment f.name]) = some f := by
  simp [callee?]

/-- Lexemes whose innermost open parenthesis stands at a place, with the lexemes before it and the
number of commas that have come since in no inner parentheses. -/
def Inside (ls outer : List Lexeme) (openAt commas : Nat) : Prop :=
  ∃ stop inner, ls = outer ++ ⟨.opening, openAt, stop⟩ :: inner ∧
    Balanced (inner.map (·.token)) commas

/-- The open parentheses of some lexemes, as groups. -/
inductive Opens : List Lexeme → List Group → Prop where
  | outermost {ls : List Lexeme} {n : Nat} (h : Balanced (ls.map (·.token)) n) : Opens ls []
  | inner {outer inner : List Lexeme} {groups : List Group} {n : Nat} (start stop : Nat)
      (opens : Opens outer groups) (h : Balanced (inner.map (·.token)) n) :
      Opens (outer ++ ⟨.opening, start, stop⟩ :: inner)
        (⟨callee? (outer.map (·.token)), n + 1, start⟩ :: groups)

namespace Opens

variable {ls ls' : List Lexeme} {group : Group} {groups : List Group}

/-- What can follow balanced tokens without a change to their number of commas opens nothing and
closes nothing. -/
lemma append (h : Opens ls groups)
    (hbalanced : ∀ ts n, Balanced ts n → Balanced (ts ++ ls'.map (·.token)) n) :
    Opens (ls ++ ls') groups := by
  cases h with
  | outermost h =>
    have h := hbalanced _ _ h
    rw [← List.map_append] at h
    exact .outermost h
  | inner start stop opens h =>
    have h := hbalanced _ _ h
    rw [← List.map_append] at h
    rw [List.append_assoc, List.cons_append]
    exact .inner start stop opens h

lemma operator (h : Opens ls groups) (op : Operator) (start stop : Nat) :
    Opens (ls ++ [⟨.operator op, start, stop⟩]) groups :=
  h.append fun _ _ h => h.operator op

lemma segment (h : Opens ls groups) (text : String) (start stop : Nat) :
    Opens (ls ++ [⟨.segment text, start, stop⟩]) groups :=
  h.append fun _ _ h => h.segment text

lemma opening (h : Opens ls groups) (start stop : Nat) :
    Opens (ls ++ [⟨.opening, start, stop⟩])
      (⟨callee? (ls.map (·.token)), 1, start⟩ :: groups) :=
  .inner start stop h .nil

lemma comma {callee : Option Builtin} {begun openAt : Nat}
    (h : Opens ls (⟨callee, begun, openAt⟩ :: groups)) (start stop : Nat) :
    Opens (ls ++ [⟨.comma, start, stop⟩]) (⟨callee, begun + 1, openAt⟩ :: groups) := by
  cases h with
  | inner openAt openStop opens h =>
    rw [List.append_assoc, List.cons_append]
    refine .inner openAt openStop opens ?_
    rw [List.map_append]
    exact h.comma

lemma closing (h : Opens ls (group :: groups)) (start stop : Nat) :
    Opens (ls ++ [⟨.closing, start, stop⟩]) groups := by
  cases h with
  | inner openAt openStop opens h =>
    rw [List.append_assoc]
    apply opens.append
    intro ts n hts
    simpa using hts.group h

end Opens

/-! ### Found from left to right -/

namespace Group

/-- The groups with more commas in the innermost one. -/
def addCommas (n : Nat) : List Group → List Group
  | [] => []
  | g :: groups => { g with begun := g.begun + n } :: groups

/-- The open parentheses after a lexeme, given those before it and the token before it. -/
def track : List Group × Option Token → Lexeme → List Group × Option Token
  | (groups, _), ⟨.closing, _, _⟩ => (groups.tail, some .closing)
  | (groups, _), ⟨.comma, _, _⟩ => (addCommas 1 groups, some .comma)
  | (groups, previous), ⟨.opening, start, _⟩ =>
    (⟨callee? previous.toList, 1, start⟩ :: groups, some .opening)
  | (groups, _), ⟨t, _, _⟩ => (groups, some t)

/-- The open parentheses of some lexemes, found from left to right. -/
def ofLexemes (ls : List Lexeme) : List Group := (ls.foldl track ([], none)).1

variable {ls : List Lexeme} {groups : List Group} {state : List Group × Option Token} {n : Nat}

lemma addCommas_zero (groups : List Group) : addCommas 0 groups = groups := by
  cases groups <;> rfl

lemma addCommas_succ (n : Nat) (groups : List Group) :
    addCommas 1 (addCommas n groups) = addCommas (n + 1) groups := by
  cases groups <;> rfl

lemma fst_track_closing (state : List Group × Option Token) (start stop : Nat) :
    (track state ⟨.closing, start, stop⟩).1 = state.1.tail := rfl

lemma fst_track_opening (state : List Group × Option Token) (start stop : Nat) :
    (track state ⟨.opening, start, stop⟩).1
      = ⟨callee? state.2.toList, 1, start⟩ :: state.1 := rfl

lemma snd_track (state : List Group × Option Token) (l : Lexeme) :
    (track state l).2 = some l.token := by
  obtain ⟨t, start, stop⟩ := l
  cases t <;> rfl

lemma snd_foldl_track (ls : List Lexeme) :
    (ls.foldl track ([], none)).2 = (ls.map (·.token)).getLast? := by
  rcases List.eq_nil_or_concat' ls with rfl | ⟨before, l, rfl⟩
  · rfl
  · rw [List.foldl_concat, snd_track, List.map_append, List.map_singleton, List.getLast?_concat]

end Group

variable {ls : List Lexeme} {groups : List Group} {n : Nat}

lemma callee?_getLast? (ts : List Token) : callee? ts.getLast?.toList = callee? ts := by
  unfold callee?
  cases ts.getLast? <;> rfl

lemma exists_of_tokens_eq_concat {ts : List Token} {t : Token}
    (h : ls.map (·.token) = ts ++ [t]) :
    ∃ before start stop, ls = before ++ [⟨t, start, stop⟩] ∧ before.map (·.token) = ts := by
  obtain ⟨before, last, rfl, hbefore, hlast⟩ := List.map_eq_append_iff.mp h
  obtain ⟨⟨_, start, stop⟩, rfl, rfl⟩ := List.map_eq_singleton_iff.mp hlast
  exact ⟨before, start, stop, rfl, hbefore⟩

/-- Balanced lexemes only add their commas to the group that they stand in. -/
lemma Balanced.fst_foldl_track {ts : List Token} (h : Balanced ts n) {ls : List Lexeme}
    (hls : ls.map (·.token) = ts) (state : List Group × Option Token) :
    (ls.foldl Group.track state).1 = Group.addCommas n state.1 := by
  induction h generalizing ls state with
  | nil =>
    obtain rfl := List.map_eq_nil_iff.mp hls
    exact (Group.addCommas_zero _).symm
  | operator h op ih | segment h text ih =>
    obtain ⟨before, start, stop, rfl, hbefore⟩ := exists_of_tokens_eq_concat hls
    rw [List.foldl_concat, ← ih hbefore state]
    rfl
  | comma h ih =>
    obtain ⟨before, start, stop, rfl, hbefore⟩ := exists_of_tokens_eq_concat hls
    rw [List.foldl_concat, ← Group.addCommas_succ, ← ih hbefore state]
    rfl
  | group h inner ih ihinner =>
    obtain ⟨before, rest, rfl, hbefore, hrest⟩ := List.map_eq_append_iff.mp hls
    obtain ⟨⟨_, start, stop⟩, tail, rfl, rfl, htail⟩ := List.map_eq_cons_iff.mp hrest
    obtain ⟨within, closeStart, closeStop, rfl, hwithin⟩ := exists_of_tokens_eq_concat htail
    rw [List.foldl_append, List.foldl_cons, List.foldl_concat, Group.fst_track_closing,
      ihinner hwithin, Group.fst_track_opening, ih hbefore state]
    rfl

/-- The groups of some lexemes are found from left to right, so that there is no choice. -/
theorem Opens.groups_eq (h : Opens ls groups) : groups = Group.ofLexemes ls := by
  induction h with
  | outermost h => exact (h.fst_foldl_track rfl ([], none)).symm
  | inner start stop opens h ih =>
    rw [Group.ofLexemes, List.foldl_append, List.foldl_cons, h.fst_foldl_track rfl,
      Group.fst_track_opening, Group.snd_foldl_track, callee?_getLast?, ih, Nat.add_comm]
    rfl

end InfixCalc
