import InfixCalc.Proofs.Conversion.Parentheses

/-!
# Moves of a conversion

The log of a conversion tells of an operator that it begins to wait, and of a waiting one that it is
applied because another one has come. It does not tell which of several equal operators is meant.
A `Move` is such an event with the places of its operators among the tokens of the statement, and
`Faithful ts moves` says that the moves are true to the tokens `ts`. The moves at one more operator
keep this, as long as those operators are applied that still wait in its group and argument.
-/

namespace InfixCalc

/-- An operator at a place among some tokens. -/
structure Occurrence where
  op : Operator
  place : Nat
  deriving DecidableEq

/-- The operator that a token is. -/
def Token.operator? : Token → Option Operator
  | .operator op => some op
  | _ => none

/-- The operators among some tokens, from left to right. -/
def occurrences (ts : List Token) : List Occurrence :=
  ts.zipIdx.filterMap fun p => p.1.operator?.map (⟨·, p.2⟩)

/-- Whether an operator is followed by another one in the same group and argument: the parentheses
between them match, and all commas between them are in such parentheses. -/
def SameArgument (ts : List Token) (a b : Occurrence) : Prop :=
  ∃ front inner back, ts = front ++ .operator a.op :: (inner ++ .operator b.op :: back) ∧
    a.place = front.length ∧ b.place = front.length + 1 + inner.length ∧ Balanced inner 0

/-- What is done with an operator of a statement. -/
inductive Move where
  /-- It is applied because another one has come. -/
  | reduce (waiting incoming : Occurrence)
  /-- It begins to wait. -/
  | shift (o : Occurrence)
  deriving DecidableEq

namespace Move

/-- What the log tells of a move. -/
def event : Move → Event
  | .reduce waiting incoming => .reduced waiting.op incoming.op
  | .shift o => .shifted o.op

/-- The operator that begins to wait. -/
def shifted? : Move → Option Occurrence
  | .reduce _ _ => none
  | .shift o => some o

/-- Whether an operator waits after some moves, if no group has ended since it began to. -/
def Waits (moves : List Move) (o : Occurrence) : Prop :=
  .shift o ∈ moves ∧ ∀ incoming, .reduce o incoming ∉ moves

end Move

/-- What has to be the case where `a` is applied before `b`, given the moves before and after. -/
structure Justified (ts : List Token) (before : List Move) (a b : Occurrence)
    (after : List Move) : Prop where
  waits : Move.Waits before a
  sameArgument : SameArgument ts a b
  /-- The next move is another one before `b`, or `b` begins to wait. -/
  next : ∃ m ∈ after.head?, (∃ a', m = .reduce a' b) ∨ m = .shift b

/-- Moves that tell what is done with the operators among some tokens. -/
structure Faithful (ts : List Token) (moves : List Move) : Prop where
  shifts : moves.filterMap Move.shifted? = occurrences ts
  reduces : ∀ before a b after, moves = before ++ .reduce a b :: after →
    Justified ts before a b after

/-! ### Operators that can be applied -/

/-- An operator, if it is one, after which the parentheses match up to the end of some tokens. -/
def OpenAt (ts : List Token) (o : Occurrence) : Prop :=
  ∃ front inner, ts = front ++ .operator o.op :: inner ∧ o.place = front.length ∧ Balanced inner 0

section OpenAt

variable {ts us : List Token} {o : Occurrence}

lemma OpenAt.append (h : OpenAt ts o)
    (hus : ∀ inner n, Balanced inner n → Balanced (inner ++ us) n) : OpenAt (ts ++ us) o := by
  obtain ⟨front, inner, rfl, hplace, hinner⟩ := h
  exact ⟨front, inner ++ us, by simp, hplace, hus inner 0 hinner⟩

lemma OpenAt.place_lt (h : OpenAt ts o) : o.place < ts.length := by
  obtain ⟨front, inner, rfl, hplace, -⟩ := h
  simp [hplace]

lemma OpenAt.sameArgument (h : OpenAt ts o) (op : Operator) :
    SameArgument (ts ++ [.operator op]) o ⟨op, ts.length⟩ := by
  obtain ⟨front, inner, rfl, hplace, hinner⟩ := h
  refine ⟨front, inner, [], by simp, hplace, ?_, hinner⟩
  simp
  omega

lemma SameArgument.append {a b : Occurrence} (h : SameArgument ts a b) (us : List Token) :
    SameArgument (ts ++ us) a b := by
  obtain ⟨front, inner, back, rfl, ha, hb, hinner⟩ := h
  exact ⟨front, inner, back ++ us, by simp, ha, hb, hinner⟩

end OpenAt

/-! ### Occurrences -/

section Occurrences

variable {ts us : List Token} {o : Occurrence}

lemma occurrences_append_of_none (h : ∀ t ∈ us, t.operator? = none) :
    occurrences (ts ++ us) = occurrences ts := by
  rw [occurrences, List.zipIdx_append, List.filterMap_append, occurrences,
    List.append_right_eq_self, List.filterMap_eq_nil_iff]
  intro p hp
  rw [h p.1 (List.fst_mem_of_mem_zipIdx hp), Option.map_none]

lemma occurrences_append_operator (ts : List Token) (op : Operator) :
    occurrences (ts ++ [.operator op]) = occurrences ts ++ [⟨op, ts.length⟩] := by
  rw [occurrences, List.zipIdx_append, List.filterMap_append, occurrences, Nat.zero_add]
  rfl

lemma place_lt_of_mem_occurrences (h : o ∈ occurrences ts) : o.place < ts.length := by
  obtain ⟨p, hmem, hp⟩ := List.mem_filterMap.mp h
  obtain ⟨op, -, rfl⟩ := Option.map_eq_some_iff.mp hp
  exact List.snd_lt_of_mem_zipIdx hmem

end Occurrences

/-! ### Lists taken apart -/

/-- An element of two lists put together is one of the first or of the second. -/
lemma forall_append_eq_append_cons {α : Type*} {xs ys : List α} {P : List α → α → List α → Prop}
    (hxs : ∀ before x after, xs = before ++ x :: after → P before x (after ++ ys))
    (hys : ∀ before x after, ys = before ++ x :: after → P (xs ++ before) x after) :
    ∀ before x after, xs ++ ys = before ++ x :: after → P before x after := by
  intro before x after h
  rcases List.append_eq_append_iff.mp h with ⟨rest, rfl, hback⟩ | ⟨rest, rfl, hcons⟩
  · exact hys _ _ _ hback
  · rcases List.cons_eq_append_iff.mp hcons with ⟨rfl, hback⟩ | ⟨rest, rfl, rfl⟩
    · simpa using hys [] x after hback
    · exact hxs _ _ _ rfl

/-! ### Moves before an operator -/

namespace Move

variable {moves : List Move} {reduced : List Occurrence} {o : Occurrence}

/-- The moves at an operator: those that yield to it are applied, and it begins to wait. -/
def receive (reduced : List Occurrence) (incoming : Occurrence) : List Move :=
  reduced.map (.reduce · incoming) ++ [.shift incoming]

lemma reduce_not_mem_append (h : ∀ b, .reduce o b ∉ moves) (ho : o ∉ reduced)
    (incoming : Occurrence) : ∀ b, .reduce o b ∉ moves ++ reduced.map (.reduce · incoming) := by
  intro b hb
  rcases List.mem_append.mp hb with hb | hb
  · exact h b hb
  · obtain ⟨o', ho', heq⟩ := List.mem_map.mp hb
    cases heq
    exact ho ho'

lemma reduce_not_mem_receive (h : ∀ b, .reduce o b ∉ moves) (ho : o ∉ reduced)
    (incoming : Occurrence) : ∀ b, .reduce o b ∉ moves ++ receive reduced incoming := by
  intro b hb
  rw [receive, ← List.append_assoc] at hb
  rcases List.mem_append.mp hb with hb | hb
  · exact reduce_not_mem_append h ho incoming b hb
  · cases List.mem_singleton.mp hb

/-- An operator goes on waiting when others are applied. -/
lemma Waits.receive (h : Waits moves o) (ho : o ∉ reduced) (incoming : Occurrence) :
    Waits (moves ++ Move.receive reduced incoming) o :=
  ⟨List.mem_append_left _ h.1, reduce_not_mem_receive h.2 ho incoming⟩

/-- An operator waits that has not been seen before. -/
lemma waits_receive (h : ∀ b, .reduce o b ∉ moves) (ho : o ∉ reduced) :
    Waits (moves ++ receive reduced o) o :=
  ⟨List.mem_append_right _ (List.mem_append_right _ List.mem_cons_self),
    reduce_not_mem_receive h ho o⟩

end Move

/-- More tokens and more moves can follow. -/
lemma Justified.append {ts : List Token} {before after : List Move} {a b : Occurrence}
    (h : Justified ts before a b after) (us : List Token) (more : List Move) :
    Justified (ts ++ us) before a b (after ++ more) where
  waits := h.waits
  sameArgument := h.sameArgument.append us
  next := by
    obtain ⟨m, hm, hcases⟩ := h.next
    refine ⟨m, ?_, hcases⟩
    rw [List.head?_append, Option.mem_def.mp hm]
    rfl

namespace Faithful

variable {ts us : List Token} {moves : List Move} {reduced : List Occurrence} {o : Occurrence}

lemma nil : Faithful [] [] := ⟨rfl, by simp⟩

/-- Moves stay faithful when tokens come that are no operators. -/
lemma append (h : Faithful ts moves) (hus : ∀ t ∈ us, t.operator? = none) :
    Faithful (ts ++ us) moves := by
  refine ⟨by rw [h.shifts, occurrences_append_of_none hus], ?_⟩
  intro before a b after hmoves
  obtain ⟨hwaits, hsame, hnext⟩ := h.reduces before a b after hmoves
  exact ⟨hwaits, hsame.append us, hnext⟩

lemma place_lt_of_shift (h : Faithful ts moves) (ho : .shift o ∈ moves) :
    o.place < ts.length := by
  apply place_lt_of_mem_occurrences
  rw [← h.shifts]
  exact List.mem_filterMap.mpr ⟨_, ho, rfl⟩

lemma place_lt_of_reduce {incoming : Occurrence} (h : Faithful ts moves)
    (ho : .reduce o incoming ∈ moves) : o.place < ts.length := by
  obtain ⟨before, after, hmoves⟩ := List.append_of_mem ho
  refine h.place_lt_of_shift ?_
  rw [hmoves]
  exact List.mem_append_left _ (h.reduces _ _ _ _ hmoves).waits.1

/-- One of the operators that are applied at another one has been waiting until then, and the next
one follows, or the other one begins to wait. -/
lemma justified {a : Occurrence} {front back : List Occurrence} (hwaits : Move.Waits moves a)
    (hopen : OpenAt ts a) (hfront : a ∉ front) (op : Operator) :
    Justified (ts ++ [.operator op]) (moves ++ front.map (.reduce · ⟨op, ts.length⟩)) a
      ⟨op, ts.length⟩ (Move.receive back ⟨op, ts.length⟩) where
  waits := ⟨List.mem_append_left _ hwaits.1, Move.reduce_not_mem_append hwaits.2 hfront _⟩
  sameArgument := hopen.sameArgument op
  next := by
    cases back with
    | nil => exact ⟨_, rfl, .inr rfl⟩
    | cons o back => exact ⟨_, rfl, .inl ⟨o, rfl⟩⟩

/-- The moves at an operator are faithful if the operators that are applied have been waiting in the
same group and argument. -/
theorem receive (h : Faithful ts moves) (hwaits : ∀ o ∈ reduced, Move.Waits moves o)
    (hopen : ∀ o ∈ reduced, OpenAt ts o) (hnodup : reduced.Nodup) (op : Operator) :
    Faithful (ts ++ [.operator op]) (moves ++ Move.receive reduced ⟨op, ts.length⟩) := by
  constructor
  case shifts =>
    have hnone : (reduced.map (Move.reduce · ⟨op, ts.length⟩)).filterMap Move.shifted? = [] := by
      simp [List.filterMap_map, Move.shifted?, Function.comp_def]
    rw [List.filterMap_append, h.shifts, occurrences_append_operator, Move.receive,
      List.filterMap_append, hnone]
    rfl
  case reduces =>
    have hall : ∀ before m after, moves ++ Move.receive reduced ⟨op, ts.length⟩
        = before ++ m :: after → ∀ a b, m = .reduce a b →
          Justified (ts ++ [.operator op]) before a b after := by
      -- A move is one that has been made already, or one of those that are made now.
      refine forall_append_eq_append_cons ?_ (forall_append_eq_append_cons ?_ ?_)
      · rintro before _ after hmoves a b rfl
        exact (h.reduces before a b after hmoves).append _ _
      · rintro before _ after hreduced a b rfl
        obtain ⟨front, back, rfl, rfl, hback⟩ := List.map_eq_append_iff.mp hreduced
        obtain ⟨o, back, rfl, heq, rfl⟩ := List.map_eq_cons_iff.mp hback
        cases heq
        have hmem : a ∈ front ++ a :: back := List.mem_append_right _ List.mem_cons_self
        have hfront : a ∉ front :=
          fun hmem' => (List.nodup_append.mp hnodup).2.2 a hmem' a List.mem_cons_self rfl
        exact justified (hwaits a hmem) (hopen a hmem) hfront op
      · rintro before _ after hshift a b rfl
        obtain ⟨-, hcons⟩ | ⟨-, hcons⟩ := List.singleton_eq_append_iff.mp hshift
        · cases hcons
        · cases hcons
    exact fun before a b after hmoves => hall before _ after hmoves a b rfl

end Faithful

end InfixCalc
