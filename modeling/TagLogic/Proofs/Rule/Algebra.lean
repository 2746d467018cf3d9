import TagLogic.Proofs.Rule.Place

/-!
# Boolean laws inside a rule

Rules obey the laws of boolean algebra, and most of them hold for more than the verdict: the
two sides of the law put the same questions in the same order. That is so because stopping
early is itself lawful. The answer of a group is the answers of its parts put one behind the
other, where the second counts only if the first leaves the group open (`Answer.behind`); so
put together, answers are associative and have a unit, and a negation turns one kind of group
into the other:

- `askParts_append` — parts behind parts are asked behind them, so a group inside of a group
  of the same kind may be dissolved;
- `askParts_map_not` — negated parts are asked as the parts are, in the other kind of group.

A rule with a marked place in it is the list of the layers around that place, and `fill` puts a
rule there. What is around knows that rule only by its answer (`ask_fill_congr`), so the laws
hold under any layers:

> `ask_fill_laws`: double negation, De Morgan, nested groups and single parts keep verdict and
> questions, and the order of the parts is of no account for the verdict.

The last law says nothing of the questions, since another order stops elsewhere.

The operation is `evaluate`, with the questions it puts.
-/

namespace TagLogic

/-! ## Kinds of group -/

namespace Group

/-- The other kind. -/
def dual : Group → Group
  | .all => .any
  | .any => .all

theorem neutral_dual (kind : Group) : kind.dual.neutral = !kind.neutral := by
  cases kind <;> rfl

/-- The order of the verdicts is of no account. -/
theorem combine_perm (kind : Group) {us vs : List Bool} (h : us.Perm vs) :
    kind.combine us = kind.combine vs := by
  cases kind with
  | all => exact h.all_eq
  | any => exact h.any_eq

end Group

/-! ## Answers one behind the other -/

namespace Answer

/-- The answer of one who asks on, as long as the first answer leaves the group open. -/
def behind (kind : Group) (first rest : Answer) : Answer :=
  if first.verdict = kind.neutral then ⟨rest.verdict, first.asked ++ rest.asked⟩ else first

/-- The opposite verdict, found by the same questions. -/
def negate (a : Answer) : Answer := ⟨!a.verdict, a.asked⟩

variable {kind : Group} {a b c : Answer}

theorem behind_of_neutral (h : a.verdict = kind.neutral) (b : Answer) :
    behind kind a b = ⟨b.verdict, a.asked ++ b.asked⟩ := if_pos h

theorem behind_of_ne (h : a.verdict ≠ kind.neutral) (b : Answer) : behind kind a b = a := if_neg h

/-- Who has asked nothing yet leaves the group open. -/
theorem nothing_behind (kind : Group) (a : Answer) : behind kind ⟨kind.neutral, []⟩ a = a := by
  rw [behind_of_neutral rfl, List.nil_append]

theorem behind_nothing (kind : Group) (a : Answer) : behind kind a ⟨kind.neutral, []⟩ = a := by
  by_cases h : a.verdict = kind.neutral
  · rw [behind_of_neutral h, List.append_nil, ← h]
  · exact behind_of_ne h _

theorem behind_assoc (kind : Group) (a b c : Answer) :
    behind kind (behind kind a b) c = behind kind a (behind kind b c) := by
  by_cases ha : a.verdict = kind.neutral
  · rw [behind_of_neutral ha, behind_of_neutral ha]
    -- Both together leave the group open exactly when the second does.
    by_cases hb : b.verdict = kind.neutral
    · have hab : (Answer.mk b.verdict (a.asked ++ b.asked)).verdict = kind.neutral := hb
      rw [behind_of_neutral hab, behind_of_neutral hb, List.append_assoc]
    · have hab : (Answer.mk b.verdict (a.asked ++ b.asked)).verdict ≠ kind.neutral := hb
      rw [behind_of_ne hab, behind_of_ne hb]
  · rw [behind_of_ne ha, behind_of_ne ha, behind_of_ne ha]

theorem negate_negate (a : Answer) : a.negate.negate = a := by
  unfold negate
  rw [Bool.not_not]

/-- **A negation stops where its group does, in the other kind of group.** -/
theorem negate_behind (kind : Group) (a b : Answer) :
    (behind kind a b).negate = behind kind.dual a.negate b.negate := by
  -- Both the verdict and the neutral one are turned, so a group stays open as before.
  have hopen : a.negate.verdict = kind.dual.neutral ↔ a.verdict = kind.neutral := by
    rw [Group.neutral_dual]
    exact Bool.not_inj_iff
  by_cases h : a.verdict = kind.neutral
  · rw [behind_of_neutral h, behind_of_neutral (hopen.mpr h)]
    rfl
  · rw [behind_of_ne h, behind_of_ne (mt hopen.mp h)]

end Answer

namespace Rule

open Answer (behind)

variable {e : Entity} {r s : Rule}

/-! ## The answer of a group -/

theorem ask_not (e : Entity) (r : Rule) : (Rule.not r).ask e = (r.ask e).negate := by
  rw [ask]
  rfl

theorem ask_group (e : Entity) (kind : Group) (rs : List Rule) :
    (Rule.group kind rs).ask e = askParts kind e rs := by
  rw [ask]

/-- The other parts are asked behind the first. -/
theorem askParts_cons (kind : Group) (e : Entity) (r : Rule) (rs : List Rule) :
    askParts kind e (r :: rs) = behind kind (r.ask e) (askParts kind e rs) := by
  rw [askParts]
  rfl

/-- **Parts behind parts are asked behind them.** -/
theorem askParts_append (kind : Group) (e : Entity) (rs ss : List Rule) :
    askParts kind e (rs ++ ss) = behind kind (askParts kind e rs) (askParts kind e ss) := by
  induction rs with
  | nil => exact (Answer.nothing_behind kind _).symm
  | cons r rs ih => rw [List.cons_append, askParts_cons, askParts_cons, ih, Answer.behind_assoc]

/-- A group with one part is that part. -/
theorem askParts_singleton (kind : Group) (e : Entity) (r : Rule) :
    askParts kind e [r] = r.ask e := by
  rw [askParts_cons]
  exact Answer.behind_nothing kind _

/-- **Negated parts are asked as the parts are, in the other kind of group.** -/
theorem askParts_map_not (kind : Group) (e : Entity) (rs : List Rule) :
    askParts kind.dual e (rs.map .not) = (askParts kind e rs).negate := by
  induction rs with
  | nil => cases kind <;> rfl
  | cons r rs ih =>
    rw [List.map_cons, askParts_cons, askParts_cons, ih, ask_not, Answer.negate_behind]

/-! ## The laws by themselves -/

theorem ask_not_not (e : Entity) (r : Rule) : (Rule.not (.not r)).ask e = r.ask e := by
  rw [ask_not, ask_not, Answer.negate_negate]

/-- Not to hold of a group is to hold of its negated parts, in the other kind of group. -/
theorem ask_not_group (e : Entity) (kind : Group) (rs : List Rule) :
    (Rule.not (.group kind rs)).ask e = (Rule.group kind.dual (rs.map .not)).ask e := by
  rw [ask_not, ask_group, ask_group, askParts_map_not]

/-- A group inside of a group of the same kind may be dissolved. -/
theorem ask_group_group (e : Entity) (kind : Group) (xs ys zs : List Rule) :
    (Rule.group kind (xs ++ [.group kind ys] ++ zs)).ask e =
      (Rule.group kind (xs ++ ys ++ zs)).ask e := by
  rw [ask_group, ask_group, askParts_append, askParts_append, askParts_append, askParts_append,
    askParts_singleton, ask_group]

theorem ask_group_singleton (e : Entity) (kind : Group) (r : Rule) :
    (Rule.group kind [r]).ask e = r.ask e := by
  rw [ask_group, askParts_singleton]

/-- The order of the parts is of no account for what a group means. -/
theorem holds_group_perm (e : Entity) (kind : Group) {xs ys : List Rule} (h : xs.Perm ys) :
    (Rule.group kind xs).holds e = (Rule.group kind ys).holds e := by
  rw [holds, holds, verdicts_eq_map, verdicts_eq_map]
  exact kind.combine_perm (h.map (holds e))

/-! ## Under any layers -/

/-- **What is around a rule knows it by its answer.** -/
theorem ask_fill_congr (h : r.ask e = s.ask e) (layers : List Layer) :
    (fill layers r).ask e = (fill layers s).ask e := by
  induction layers with
  | nil => exact h
  | cons layer layers ih =>
    show (layer.fill (fill layers r)).ask e = (layer.fill (fill layers s)).ask e
    cases layer with
    | negation =>
      unfold Layer.fill
      rw [ask_not, ask_not, ih]
    | part kind before after =>
      -- The parts before are asked alike, so both sides come to the place or neither does.
      unfold Layer.fill
      rw [ask_group, ask_group, askParts_append, askParts_append, askParts_cons, askParts_cons, ih]

/-- And for the verdict, by its verdict. -/
theorem holds_fill_congr (h : r.holds e = s.holds e) (layers : List Layer) :
    (fill layers r).holds e = (fill layers s).holds e := by
  induction layers with
  | nil => exact h
  | cons layer layers ih =>
    show (layer.fill (fill layers r)).holds e = (layer.fill (fill layers s)).holds e
    cases layer with
    | negation =>
      unfold Layer.fill
      rw [holds, holds, ih]
    | part kind before after =>
      unfold Layer.fill
      rw [holds, holds, verdicts_eq_map, verdicts_eq_map, List.map_append, List.map_append,
        List.map_cons, List.map_cons, ih]

/-- **Boolean laws hold inside any rule, for verdict and questions**: two negations cancel, a
negated group is the other kind of group of the negated parts, a group inside of a group of its
kind may be dissolved, and a group with one part is that part. Putting the parts of a group in
another order keeps the verdict. -/
theorem ask_fill_laws (layers : List Layer) (e : Entity) :
    (∀ r, (fill layers (.not (.not r))).ask e = (fill layers r).ask e) ∧
    (∀ rs, (fill layers (.not (.all rs))).ask e = (fill layers (.any (rs.map .not))).ask e) ∧
    (∀ rs, (fill layers (.not (.any rs))).ask e = (fill layers (.all (rs.map .not))).ask e) ∧
    (∀ kind xs ys zs, (fill layers (.group kind (xs ++ [.group kind ys] ++ zs))).ask e =
      (fill layers (.group kind (xs ++ ys ++ zs))).ask e) ∧
    (∀ kind r, (fill layers (.group kind [r])).ask e = (fill layers r).ask e) ∧
    ∀ kind (xs ys : List Rule), xs.Perm ys →
      ((fill layers (.group kind xs)).ask e).verdict =
        ((fill layers (.group kind ys)).ask e).verdict := by
  refine ⟨?_, ?_, ?_, ?_, ?_, ?_⟩
  · intro r
    exact ask_fill_congr (ask_not_not e r) layers
  · intro rs
    exact ask_fill_congr (ask_not_group e .all rs) layers
  · intro rs
    exact ask_fill_congr (ask_not_group e .any rs) layers
  · intro kind xs ys zs
    exact ask_fill_congr (ask_group_group e kind xs ys zs) layers
  · intro kind r
    exact ask_fill_congr (ask_group_singleton e kind r) layers
  · intro kind xs ys h
    rw [ask_verdict, ask_verdict]
    exact holds_fill_congr (holds_group_perm e kind h) layers

/-- Two parts change places under a negation and a group: the verdict stays, the questions do not.
-/
theorem ask_fill_laws_swapped :
    let e : Entity := ⟨"P", (· = "a")⟩
    let layers : List Layer := [.negation, .part .all [.named "P"] [.tagged "c"]]
    let xs : List Rule := [.tagged "a", .tagged "b"]
    let ys : List Rule := [.tagged "b", .tagged "a"]
    xs.Perm ys ∧
      ((fill layers (.any xs)).ask e).verdict = ((fill layers (.any ys)).ask e).verdict ∧
      ((fill layers (.any xs)).ask e).asked = [.name, .tag "a", .tag "c"] ∧
      ((fill layers (.any ys)).ask e).asked = [.name, .tag "b", .tag "a", .tag "c"] := by
  intro e layers xs ys
  have hperm : xs.Perm ys := .swap _ _ _
  exact ⟨hperm, (ask_fill_laws layers e).2.2.2.2.2 .any xs ys hperm, by decide, by decide⟩

end Rule

end TagLogic
