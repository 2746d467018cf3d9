import TagLogic.Rule.Ask

/-!
# Places in a rule

A `Place` is one occurrence of a tag or a name in a rule: the leaf and the layers around
it, the outermost first. A layer is a negation, or a group with the parts on either side
of the place. Putting the layers back around the leaf gives the `whole` rule, so the
places of a rule are those whose whole it is; nothing is said of paths that lead nowhere.

> `leaves`: the places of a rule from left to right.

The list is complete and holds nothing else (`mem_leaves_iff`), and it goes from left to
right (`leaves_pairwise`): of two places the one in the earlier part of their innermost
common group has the lexicographically smaller `position`. So no place comes twice.

A leaf is where the operation `evaluate` asks the entity, if it gets there.
-/

namespace TagLogic

/-- One step of the way down into a rule. -/
inductive Layer where
  /-- Into the rule that is negated. -/
  | negation
  /-- Into a part of a group, past the parts before it. -/
  | part (kind : Group) (before after : List Rule)
  deriving DecidableEq, Repr

/-- Puts the layer around a rule. -/
def Layer.fill : Layer → Rule → Rule
  | .negation, r => .not r
  | .part kind before after, r => .group kind (before ++ r :: after)

/-- The number of parts passed. -/
def Layer.index : Layer → Nat
  | .negation => 0
  | .part _ before _ => before.length

/-- Puts the layers around a rule, the first of them outermost. -/
def fill (layers : List Layer) (r : Rule) : Rule := layers.foldr Layer.fill r

/-- What a rule asks about. -/
inductive Leaf where
  | tag (tag : String)
  | name (name : String)
  deriving DecidableEq, Repr

def Leaf.rule : Leaf → Rule
  | .tag t => .tagged t
  | .name n => .named n

/-- The question that settles the leaf. -/
def Leaf.question : Leaf → Question
  | .tag t => .tag t
  | .name _ => .name

/-- An occurrence of a tag or a name in a rule. -/
structure Place where
  /-- What is around it, the outermost first. -/
  layers : List Layer
  leaf : Leaf
  deriving DecidableEq, Repr

namespace Place

/-- The rule it is a place in. -/
def whole (p : Place) : Rule := fill p.layers p.leaf.rule

/-- The parts passed on the way, layer by layer. -/
def position (p : Place) : List Nat := p.layers.map Layer.index

/-- The place with one more layer around it. -/
def under (layer : Layer) (p : Place) : Place := ⟨layer :: p.layers, p.leaf⟩

@[simp] theorem whole_under (layer : Layer) (p : Place) :
    (p.under layer).whole = layer.fill p.whole := rfl

end Place

namespace Rule

mutual

/-- The places of a rule, from left to right. -/
def leaves : Rule → List Place
  | .always => []
  | .never => []
  | .tagged tag => [⟨[], .tag tag⟩]
  | .named name => [⟨[], .name name⟩]
  | .not r => r.leaves.map (.under .negation)
  | .group kind parts => partLeaves kind [] parts

/-- The places in the parts of a group behind those before. -/
def partLeaves (kind : Group) (before : List Rule) : List Rule → List Place
  | [] => []
  | r :: rs => r.leaves.map (.under (.part kind before rs)) ++ partLeaves kind (before ++ [r]) rs

end

/-! ## Nothing is missing and nothing else is there -/

/-- A place in the parts of a group is a place in one of them. -/
theorem mem_partLeaves_iff {kind : Group} {p : Place} {rs : List Rule} :
    ∀ {before : List Rule}, p ∈ partLeaves kind before rs ↔
      ∃ earlier r after q, rs = earlier ++ r :: after ∧ q ∈ leaves r ∧
        p = q.under (.part kind (before ++ earlier) after) := by
  induction rs with
  | nil =>
    intro before
    simp [partLeaves]
  | cons r rs ih =>
    intro before
    rw [partLeaves, List.mem_append, List.mem_map, ih]
    constructor
    · intro h
      rcases h with ⟨q, hq, rfl⟩ | ⟨earlier, s, after, q, rfl, hq, rfl⟩
      · exact ⟨[], r, rs, q, rfl, hq, by rw [List.append_nil]⟩
      · exact ⟨r :: earlier, s, after, q, rfl, hq, by rw [List.append_assoc]; rfl⟩
    · intro h
      obtain ⟨earlier, s, after, q, heq, hq, rfl⟩ := h
      cases earlier with
      | nil =>
        cases heq
        exact Or.inl ⟨q, hq, by rw [List.append_nil]⟩
      | cons first earlier =>
        cases heq
        exact Or.inr ⟨earlier, s, after, q, rfl, hq, by rw [List.append_assoc]; rfl⟩

theorem whole_of_mem_leaves {r : Rule} : ∀ p ∈ leaves r, p.whole = r := by
  induction r using Rule.induction with
  | always | never => intro p hp; cases hp
  | tagged tag | named name =>
    intro p hp
    rw [leaves, List.mem_singleton] at hp
    subst hp
    rfl
  | not r ih =>
    intro p hp
    obtain ⟨q, hq, rfl⟩ := List.mem_map.mp hp
    rw [Place.whole_under, ih q hq]
    rfl
  | group kind parts ih =>
    intro p hp
    obtain ⟨earlier, r, after, q, rfl, hq, rfl⟩ := mem_partLeaves_iff.mp hp
    rw [Place.whole_under, ih r (by simp) q hq]
    rfl

theorem mem_leaves_whole (layers : List Layer) (leaf : Leaf) :
    ⟨layers, leaf⟩ ∈ leaves (fill layers leaf.rule) := by
  induction layers with
  | nil => cases leaf <;> exact List.mem_singleton.mpr rfl
  | cons layer layers ih =>
    cases layer with
    | negation => exact List.mem_map.mpr ⟨_, ih, rfl⟩
    | part kind before after => exact mem_partLeaves_iff.mpr ⟨before, _, after, _, rfl, ih, rfl⟩

/-- **The list holds exactly the places of the rule.** -/
theorem mem_leaves_iff {r : Rule} {p : Place} : p ∈ leaves r ↔ p.whole = r := by
  constructor
  · exact fun hp => whole_of_mem_leaves p hp
  · intro hp
    subst hp
    exact mem_leaves_whole p.layers p.leaf

/-! ## From left to right -/

theorem pairwise_under {places : List Place} (layer : Layer)
    (h : places.Pairwise fun p q => p.position < q.position) :
    (places.map (Place.under layer)).Pairwise fun p q => p.position < q.position := by
  refine List.pairwise_map.mpr (h.imp fun hlt => ?_)
  exact List.cons_lt_cons_iff.mpr (Or.inr ⟨rfl, hlt⟩)

/-- The places in the parts go from left to right if those in each part do. -/
theorem partLeaves_pairwise {kind : Group} {rs : List Rule}
    (h : ∀ r ∈ rs, (leaves r).Pairwise fun p q => p.position < q.position) :
    ∀ before, (partLeaves kind before rs).Pairwise fun p q => p.position < q.position := by
  induction rs with
  | nil => exact fun _ => .nil
  | cons r rs ih =>
    intro before
    rw [partLeaves]
    refine List.pairwise_append.mpr ⟨pairwise_under _ (h r List.mem_cons_self),
      ih (fun s hs => h s (List.mem_cons_of_mem r hs)) _, ?_⟩
    intro p hp q hq
    obtain ⟨p', -, rfl⟩ := List.mem_map.mp hp
    obtain ⟨earlier, s, after, q', -, -, rfl⟩ := mem_partLeaves_iff.mp hq
    refine List.cons_lt_cons_iff.mpr (Or.inl ?_)
    show before.length < (before ++ [r] ++ earlier).length
    simp only [List.length_append, List.length_singleton]
    omega

/-- **The list goes from left to right.** -/
theorem leaves_pairwise (r : Rule) :
    (leaves r).Pairwise fun p q => p.position < q.position := by
  induction r using Rule.induction with
  | always | never => exact .nil
  | tagged | named => exact List.pairwise_singleton _ _
  | not r ih => exact pairwise_under _ ih
  | group kind parts ih => exact partLeaves_pairwise ih []

end Rule

end TagLogic
