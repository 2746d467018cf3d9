import TagLogic.Fact

/-!
# What an evaluation finds out

An evaluation knows an entity only by the answers to its questions. So two entities that
answer alike whatever the first was asked cannot be told apart: the second is asked the
same questions in the same order and gets the same verdict, however much they differ in
what nobody asked.

Which question comes next hangs on the answers before it, and what is assumed covers only
the questions that were really put to the first entity. In a group the assumption reaches
the parts one by one: the first part was asked, so both entities get its answer; only if
it leaves the group open was the second part asked at all.

> `ask_eq_of_sameAnswer`: equal answers to what was asked make equal evaluations, for
> rules and for facts.

The operations are `evaluate`, and `is_applicable_to`, which calls it.
-/

namespace TagLogic

variable {e e' : Entity}

/-- The two entities give the same answer to the question. -/
def Question.SameAnswer (e e' : Entity) : Question → Prop
  | .name => e.name = e'.name
  | .tag t => e.hasTag t = e'.hasTag t

/-- Nothing that was asked tells the two entities apart. -/
def Answer.SameFor (e e' : Entity) (a : Answer) : Prop := ∀ q ∈ a.asked, q.SameAnswer e e'

instance (e e' : Entity) : (q : Question) → Decidable (q.SameAnswer e e')
  | .name => inferInstanceAs (Decidable (e.name = e'.name))
  | .tag t => inferInstanceAs (Decidable (e.hasTag t = e'.hasTag t))

instance (e e' : Entity) (a : Answer) : Decidable (a.SameFor e e') :=
  inferInstanceAs (Decidable (∀ q ∈ a.asked, q.SameAnswer e e'))

namespace Rule

/-- The first part of a group is always asked. -/
theorem sameFor_head {kind : Group} {r : Rule} {rs : List Rule}
    (h : (askParts kind e (r :: rs)).SameFor e e') : (r.ask e).SameFor e e' := by
  intro q hq
  have hasked : q ∈ (askParts kind e (r :: rs)).asked := by
    unfold askParts
    dsimp only
    split
    next => exact List.mem_append_left _ hq
    next => exact hq
  exact h q hasked

/-- The others are asked as long as the group is open. -/
theorem sameFor_tail {kind : Group} {r : Rule} {rs : List Rule}
    (h : (askParts kind e (r :: rs)).SameFor e e') (hopen : (r.ask e).verdict = kind.neutral) :
    (askParts kind e rs).SameFor e e' := by
  intro q hq
  have hasked : q ∈ (askParts kind e (r :: rs)).asked := by
    unfold askParts
    dsimp only
    rw [if_pos hopen]
    exact List.mem_append_right _ hq
  exact h q hasked

/-- Parts that each cannot tell the entities apart cannot do it together. -/
theorem askParts_congr {kind : Group} {rs : List Rule}
    (hparts : ∀ r ∈ rs, (r.ask e).SameFor e e' → r.ask e' = r.ask e)
    (h : (askParts kind e rs).SameFor e e') : askParts kind e' rs = askParts kind e rs := by
  induction rs with
  | nil => rfl
  | cons r rs ih =>
    have hfirst : r.ask e' = r.ask e := hparts r List.mem_cons_self (sameFor_head h)
    unfold askParts
    dsimp only
    rw [hfirst]
    by_cases hopen : (r.ask e).verdict = kind.neutral
    · have hrest : askParts kind e' rs = askParts kind e rs :=
        ih (fun s hs => hparts s (List.mem_cons_of_mem r hs)) (sameFor_tail h hopen)
      rw [hrest]
    · rw [if_neg hopen, if_neg hopen]

/-- **A rule is asked alike of entities that answer its questions alike.** -/
theorem ask_congr (r : Rule) (h : (r.ask e).SameFor e e') : r.ask e' = r.ask e := by
  induction r using Rule.induction with
  | always => rfl
  | never => rfl
  | tagged tag =>
    have htag : e.hasTag tag = e'.hasTag tag := h (.tag tag) List.mem_cons_self
    unfold ask
    rw [htag]
  | named name =>
    have hname : e.name = e'.name := h .name List.mem_cons_self
    unfold ask
    rw [hname]
  | not r ih =>
    unfold ask
    dsimp only
    rw [ih h]
  | group kind parts ih => exact askParts_congr ih h

end Rule

/-- A fact asks what its rule asks, or nothing. -/
theorem Fact.ask_congr (f : Fact) (h : (f.ask e).SameFor e e') : f.ask e' = f.ask e := by
  unfold Fact.ask at h ⊢
  by_cases hslot : f.pattern.hasSlot = true
  · rw [if_pos hslot] at h
    rw [if_pos hslot, if_pos hslot, f.rule.ask_congr h]
  · rw [if_neg hslot, if_neg hslot]

/-- **Entities that answer alike what the first was asked are evaluated alike**: the questions,
their order and the verdict are the same, for a rule and for whether a fact applies. -/
theorem ask_eq_of_sameAnswer (e e' : Entity) :
    (∀ r : Rule, (r.ask e).SameFor e e' → r.ask e' = r.ask e) ∧
    ∀ f : Fact, (f.ask e).SameFor e e' →
      f.ask e' = f.ask e ∧ f.appliesTo e' = f.appliesTo e := by
  refine ⟨fun r h => r.ask_congr h, fun f h => ?_⟩
  have hask : f.ask e' = f.ask e := f.ask_congr h
  unfold Fact.appliesTo
  rw [hask]
  exact ⟨rfl, rfl⟩

/-- The second entity has two tags that the first has not, but the name decides before anybody
asks for them. -/
theorem ask_eq_of_sameAnswer_unasked :
    let e : Entity := ⟨"P", (· = "a")⟩
    let e' : Entity := ⟨"P", (· ∈ ["a", "b", "c"])⟩
    let r : Rule := .all [.tagged "a", .not (.any [.named "P", .tagged "b"]), .tagged "c"]
    let f : Fact := ⟨⟨"%s.", [.slot, .text "."], by with_unfolding_all rfl⟩, r⟩
    (r.ask e).asked = [.tag "a", .name] ∧ r.ask e' = r.ask e ∧ f.appliesTo e' = f.appliesTo e := by
  intro e e' r f
  have hsame : (r.ask e).SameFor e e' := by decide
  exact ⟨by decide, (ask_eq_of_sameAnswer e e').1 r hsame,
    ((ask_eq_of_sameAnswer e e').2 f hsame).2⟩

end TagLogic
