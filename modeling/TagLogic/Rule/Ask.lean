import TagLogic.Entity
import TagLogic.Rule.Basic

/-!
# Asking a rule about an entity

`Rule.holds` is what a rule means: the boolean value of the tree, every part counted.
`Rule.ask` finds it out by questions and stops early: the parts of a group are asked
from left to right, and as soon as one of them decides the group the others are left
alone. `ask_verdict` — stopping early never changes the verdict.

The operation `evaluate` is `ask`, with its questions; `holds` is no operation but what
`evaluate` is meant to find out.
-/

namespace TagLogic

namespace Group

/-- The verdict of a group without parts, which is also the one that leaves the group open. -/
def neutral : Group → Bool
  | .all => true
  | .any => false

/-- The verdict of a group whose parts have these verdicts. -/
def combine : Group → List Bool → Bool
  | .all, verdicts => verdicts.all id
  | .any, verdicts => verdicts.any id

@[simp] theorem combine_nil (kind : Group) : kind.combine [] = kind.neutral := by
  cases kind <;> rfl

/-- A part with the neutral verdict may be left out. -/
@[simp] theorem combine_neutral_cons (kind : Group) (verdicts : List Bool) :
    kind.combine (kind.neutral :: verdicts) = kind.combine verdicts := by
  cases kind <;> simp [combine, neutral]

/-- A part with the other verdict decides the group. -/
theorem combine_cons_of_ne {kind : Group} {verdict : Bool} (h : verdict ≠ kind.neutral)
    (verdicts : List Bool) : kind.combine (verdict :: verdicts) = verdict := by
  cases kind <;> cases verdict <;> simp_all [combine, neutral]

end Group

namespace Rule

/-! ## The value of a rule -/

mutual

/-- The rule holds of the entity. -/
def holds (e : Entity) : Rule → Bool
  | .always => true
  | .never => false
  | .tagged tag => e.hasTag tag
  | .named name => e.name = name
  | .not r => !r.holds e
  | .group kind parts => kind.combine (verdicts e parts)

/-- The values of the parts. -/
def verdicts (e : Entity) : List Rule → List Bool
  | [] => []
  | r :: rs => r.holds e :: verdicts e rs

end

theorem verdicts_eq_map (e : Entity) (rs : List Rule) : verdicts e rs = rs.map (holds e) := by
  induction rs with
  | nil => rfl
  | cons r rs ih => simp [verdicts, ih]

/-- Every part of such a group has to hold. -/
theorem holds_all (e : Entity) (rs : List Rule) :
    (Rule.all rs).holds e = rs.all fun r => r.holds e := by
  rw [holds, verdicts_eq_map, Group.combine, List.all_map]
  rfl

/-- One part of such a group is enough. -/
theorem holds_any (e : Entity) (rs : List Rule) :
    (Rule.any rs).holds e = rs.any fun r => r.holds e := by
  rw [holds, verdicts_eq_map, Group.combine, List.any_map]
  rfl

/-! ## Finding it out -/

mutual

/-- Asks the entity just enough to tell whether the rule holds. -/
def ask (e : Entity) : Rule → Answer
  | .always => ⟨true, []⟩
  | .never => ⟨false, []⟩
  | .tagged tag => ⟨e.hasTag tag, [.tag tag]⟩
  | .named name => ⟨e.name = name, [.name]⟩
  | .not r =>
    let inner := r.ask e
    ⟨!inner.verdict, inner.asked⟩
  | .group kind parts => askParts kind e parts

/-- Asks part by part until one decides the group. -/
def askParts (kind : Group) (e : Entity) : List Rule → Answer
  | [] => ⟨kind.neutral, []⟩
  | r :: rs =>
    let first := r.ask e
    if first.verdict = kind.neutral then
      let rest := askParts kind e rs
      ⟨rest.verdict, first.asked ++ rest.asked⟩
    else first

end

mutual

/-- **Stopping early never changes the verdict.** -/
theorem ask_verdict (e : Entity) : ∀ r : Rule, (r.ask e).verdict = r.holds e
  | .always => rfl
  | .never => rfl
  | .tagged _ => rfl
  | .named _ => rfl
  | .not r => by simp [ask, holds, ask_verdict e r]
  | .group kind parts => askParts_verdict kind e parts

/-- The parts of a group, asked one by one, give the value of the group. -/
theorem askParts_verdict (kind : Group) (e : Entity) :
    ∀ rs : List Rule, (askParts kind e rs).verdict = kind.combine (verdicts e rs)
  | [] => (Group.combine_nil kind).symm
  | r :: rs => by
    have hfirst := ask_verdict e r
    have hrest := askParts_verdict kind e rs
    simp only [askParts, verdicts]
    split
    next h => rw [← hfirst, h, Group.combine_neutral_cons, hrest]
    next h => rw [← hfirst, Group.combine_cons_of_ne h]

end

end Rule

end TagLogic
