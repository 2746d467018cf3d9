import TagLogic.Proofs.Rule.Place

/-!
# Which places an evaluation visits

`Rule.ask` stops at the first part that decides a group. Seen from a place, that means it
is visited exactly when nothing before it has decided a group around it: at every group
that asks for all parts the earlier ones hold, at every group that asks for one of them
the earlier ones do not (`Place.Reached`). A negation turns the verdict and lets everyone
through. What the parts mean is told by `Rule.holds`, which knows nothing of stopping.

> `ask_eq_reached`: the verdict is the value of the rule, and the questions put are those
> of the reached places, once each, from left to right.

The operation is `evaluate`; that it stops early shows in the questions alone.
-/

namespace TagLogic

/-- Nothing passed in the layer has decided it. -/
def Layer.Passes (e : Entity) : Layer → Prop
  | .negation => True
  | .part .all before _ => ∀ r ∈ before, r.holds e = true
  | .part .any before _ => ∀ r ∈ before, r.holds e = false

/-- Nothing before the place has decided a group around it. -/
def Place.Reached (e : Entity) (p : Place) : Prop := ∀ layer ∈ p.layers, layer.Passes e

instance (e : Entity) : (layer : Layer) → Decidable (layer.Passes e)
  | .negation => .isTrue trivial
  | .part .all before _ => inferInstanceAs (Decidable (∀ r ∈ before, r.holds e = true))
  | .part .any before _ => inferInstanceAs (Decidable (∀ r ∈ before, r.holds e = false))

instance (e : Entity) (p : Place) : Decidable (p.Reached e) :=
  inferInstanceAs (Decidable (∀ layer ∈ p.layers, layer.Passes e))

/-- A group stays open as long as the parts have the neutral verdict. -/
theorem Layer.passes_part_iff {e : Entity} {kind : Group} {before after : List Rule} :
    (Layer.part kind before after).Passes e ↔ ∀ r ∈ before, r.holds e = kind.neutral := by
  cases kind <;> rfl

theorem Place.reached_under_iff {e : Entity} {layer : Layer} {p : Place} :
    (p.under layer).Reached e ↔ layer.Passes e ∧ p.Reached e := List.forall_mem_cons

/-- The questions of the reached places among these. -/
def reachedQuestions (e : Entity) (places : List Place) : List Question :=
  (places.filter (·.Reached e)).map (·.leaf.question)

theorem reachedQuestions_append (e : Entity) (ps qs : List Place) :
    reachedQuestions e (ps ++ qs) = reachedQuestions e ps ++ reachedQuestions e qs := by
  rw [reachedQuestions, List.filter_append, List.map_append]
  rfl

/-- Through a layer that was not decided the same questions are put. -/
theorem reachedQuestions_under {e : Entity} {layer : Layer} (h : layer.Passes e)
    (places : List Place) :
    reachedQuestions e (places.map (Place.under layer)) = reachedQuestions e places := by
  induction places with
  | nil => rfl
  | cons p places ih =>
    by_cases hp : p.Reached e
    · have hunder : (p.under layer).Reached e := Place.reached_under_iff.mpr ⟨h, hp⟩
      simp only [reachedQuestions, List.map_cons, List.filter_cons, hp, hunder, decide_true,
        if_true] at ih ⊢
      rw [ih]
      rfl
    · have hunder : ¬ (p.under layer).Reached e := fun hr => hp (Place.reached_under_iff.mp hr).2
      simp only [reachedQuestions, List.map_cons, List.filter_cons, hp, hunder, decide_false,
        Bool.false_eq_true, if_false] at ih ⊢
      exact ih

/-- Behind a part that decides the group no place is reached. -/
theorem reachedQuestions_decided {e : Entity} {kind : Group} {before rs : List Rule}
    (h : ∃ r ∈ before, r.holds e ≠ kind.neutral) :
    reachedQuestions e (Rule.partLeaves kind before rs) = [] := by
  obtain ⟨r, hr, hne⟩ := h
  have hnone : (Rule.partLeaves kind before rs).filter (·.Reached e) = [] := by
    refine List.filter_eq_nil_iff.mpr fun p hp => ?_
    obtain ⟨earlier, s, after, q, -, -, rfl⟩ := Rule.mem_partLeaves_iff.mp hp
    have hdecided : ¬ (q.under (.part kind (before ++ earlier) after)).Reached e := by
      intro hreached
      have hpasses := Layer.passes_part_iff.mp (Place.reached_under_iff.mp hreached).1
      exact hne (hpasses r (List.mem_append_left earlier hr))
    simpa using hdecided
  rw [reachedQuestions, hnone]
  rfl

namespace Rule

/-- The parts of a group ask at the reached places, if each part does. -/
theorem askParts_asked {e : Entity} {kind : Group} {rs : List Rule}
    (h : ∀ r ∈ rs, (r.ask e).asked = reachedQuestions e r.leaves) :
    ∀ before, (∀ r ∈ before, r.holds e = kind.neutral) →
      (askParts kind e rs).asked = reachedQuestions e (partLeaves kind before rs) := by
  induction rs with
  | nil => exact fun _ _ => rfl
  | cons r rs ih =>
    intro before hbefore
    -- Nothing has decided the group yet, so the first part asks what it would ask alone.
    have hfirst : (r.ask e).asked =
        reachedQuestions e (r.leaves.map (.under (.part kind before rs))) := by
      rw [reachedQuestions_under (Layer.passes_part_iff.mpr hbefore)]
      exact h r List.mem_cons_self
    rw [askParts, partLeaves, reachedQuestions_append, ← hfirst]
    dsimp only
    split
    next hneutral =>
      have hopen : ∀ s ∈ before ++ [r], s.holds e = kind.neutral := by
        intro s hs
        rcases List.mem_append.mp hs with hs | hs
        · exact hbefore s hs
        · rw [List.mem_singleton.mp hs, ← ask_verdict, hneutral]
      show (r.ask e).asked ++ (askParts kind e rs).asked = _
      rw [ih (fun s hs => h s (List.mem_cons_of_mem r hs)) _ hopen]
    next hdecided =>
      have hne : ∃ s ∈ before ++ [r], s.holds e ≠ kind.neutral :=
        ⟨r, by simp, by rw [← ask_verdict]; exact hdecided⟩
      rw [reachedQuestions_decided hne, List.append_nil]

/-- **The questions put are those of the reached places, in their order.** -/
theorem ask_asked (e : Entity) (r : Rule) : (r.ask e).asked = reachedQuestions e r.leaves := by
  induction r using Rule.induction with
  | always | never | tagged | named => rfl
  | not r ih =>
    rw [leaves, reachedQuestions_under (show Layer.negation.Passes e from trivial)]
    exact ih
  | group kind parts ih => exact askParts_asked ih [] (List.forall_mem_nil _)

/-- **An evaluation gives the value of the rule and visits the reached places**, each once and from
left to right. -/
theorem ask_eq_reached (e : Entity) (r : Rule) :
    (r.ask e).verdict = r.holds e ∧
      ∃ places : List Place, (r.ask e).asked = places.map (·.leaf.question) ∧
        places.Pairwise (fun p q => p.position < q.position) ∧
        ∀ p, p ∈ places ↔ p.whole = r ∧ p.Reached e := by
  refine ⟨ask_verdict e r, r.leaves.filter (·.Reached e), ask_asked e r,
    (leaves_pairwise r).filter _, fun p => ?_⟩
  rw [List.mem_filter, mem_leaves_iff, decide_eq_true_eq]

/-- Inside a negated group the first part that holds leaves the others unasked. -/
example : ((Rule.all [.tagged "a", .not (.any [.named "P", .tagged "b"]), .tagged "c"]).ask
    ⟨"P", (· = "a")⟩).asked = [.tag "a", .name] := by decide

end Rule

end TagLogic
