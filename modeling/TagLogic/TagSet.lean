import TagLogic.Text.ByteOrder

/-!
# Sets of tags

A set of tags is a list in strictly ascending byte order, so equal sets are equal
values. Every operation is held by membership:

- `mem_insert`, `mem_insertMany`, `mem_ofList` — what is in the result;
- `ext` — sets with the same tags are equal, in whatever order and however often the
  tags were put in.

It is the set of tags that an actor keeps, to which the operation `insert_tag` does
`insert` and `with_tags` does `insertMany`. On purpose it is a list and no search tree;
from outside only the tags and their order can be seen.
-/

namespace TagLogic

/-- A set of tags, listed in ascending order of their bytes, each once. -/
structure TagSet where
  toList : List String
  /-- Each tag precedes all that follow it. -/
  ascending : toList.Pairwise Text.Precedes
  deriving DecidableEq

namespace TagSet

open Text (Precedes)

instance : Repr TagSet := ⟨fun tags n => reprPrec tags.toList n⟩

instance : Membership String TagSet := ⟨fun tags tag => tag ∈ tags.toList⟩

instance (tag : String) (tags : TagSet) : Decidable (tag ∈ tags) :=
  inferInstanceAs (Decidable (tag ∈ tags.toList))

theorem mem_iff {tag : String} {tags : TagSet} : tag ∈ tags ↔ tag ∈ tags.toList := Iff.rfl

def empty : TagSet := ⟨[], .nil⟩

instance : Inhabited TagSet := ⟨empty⟩

/-! ## Insertion -/

/-- Puts a tag where it belongs in an ascending list, unless it is there. -/
def place (tag : String) : List String → List String
  | [] => [tag]
  | head :: rest =>
    if tag = head then head :: rest
    else if Precedes tag head then tag :: head :: rest
    else head :: place tag rest

theorem mem_place {tag other : String} {list : List String} :
    other ∈ place tag list ↔ other = tag ∨ other ∈ list := by
  induction list with
  | nil => simp [place]
  | cons head rest ih =>
    unfold place
    split
    next h => subst h; simp
    next =>
      split
      next => simp
      next => simp [ih, or_left_comm]

theorem ascending_place {tag : String} {list : List String} (h : list.Pairwise Precedes) :
    (place tag list).Pairwise Precedes := by
  induction list with
  | nil => simp [place]
  | cons head rest ih =>
    obtain ⟨hhead, hrest⟩ := List.pairwise_cons.mp h
    unfold place
    split
    next => exact h
    next hne =>
      split
      next hlt =>
        refine List.pairwise_cons.mpr ⟨?_, h⟩
        intro other hother
        rcases List.mem_cons.mp hother with rfl | hother
        · exact hlt
        · exact hlt.trans (hhead other hother)
      next hnlt =>
        refine List.pairwise_cons.mpr ⟨?_, ih hrest⟩
        intro other hother
        rcases mem_place.mp hother with rfl | hother
        · rcases Text.precedes_or_eq_or_precedes other head with hlt | heq | hlt
          · exact absurd hlt hnlt
          · exact absurd heq hne
          · exact hlt
        · exact hhead other hother

def insert (tags : TagSet) (tag : String) : TagSet :=
  ⟨place tag tags.toList, ascending_place tags.ascending⟩

/-- The set with more tags. -/
def insertMany (tags : TagSet) (more : List String) : TagSet := more.foldl insert tags

/-- The set of the tags in a list. -/
def ofList (list : List String) : TagSet := empty.insertMany list

/-! ## Membership and equality -/

@[simp] theorem not_mem_empty (tag : String) : tag ∉ empty := List.not_mem_nil

@[simp] theorem mem_insert {tags : TagSet} {tag other : String} :
    other ∈ tags.insert tag ↔ other = tag ∨ other ∈ tags := mem_place

@[simp] theorem mem_insertMany {tags : TagSet} {more : List String} {other : String} :
    other ∈ tags.insertMany more ↔ other ∈ more ∨ other ∈ tags := by
  induction more generalizing tags with
  | nil => simp [insertMany]
  | cons tag more ih =>
    have hstep : tags.insertMany (tag :: more) = (tags.insert tag).insertMany more := rfl
    simp [hstep, ih, or_left_comm, or_assoc]

@[simp] theorem mem_ofList {list : List String} {other : String} :
    other ∈ ofList list ↔ other ∈ list := by
  simp [ofList]

theorem eq_of_ascending {xs ys : List String} (hx : xs.Pairwise Precedes)
    (hy : ys.Pairwise Precedes) (h : ∀ tag, tag ∈ xs ↔ tag ∈ ys) : xs = ys := by
  induction xs generalizing ys with
  | nil =>
    cases ys with
    | nil => rfl
    | cons y ys => exact absurd ((h y).mpr List.mem_cons_self) List.not_mem_nil
  | cons x xs ih =>
    cases ys with
    | nil => exact absurd ((h x).mp List.mem_cons_self) List.not_mem_nil
    | cons y ys =>
      obtain ⟨hxs, hxt⟩ := List.pairwise_cons.mp hx
      obtain ⟨hys, hyt⟩ := List.pairwise_cons.mp hy
      have hhead : x = y := by
        rcases List.mem_cons.mp ((h x).mp List.mem_cons_self) with heq | hmem
        · exact heq
        rcases List.mem_cons.mp ((h y).mpr List.mem_cons_self) with heq | hmem'
        · exact heq.symm
        · exact absurd (hys x hmem) (hxs y hmem').asymm
      subst hhead
      refine congrArg (x :: ·) (ih hxt hyt fun tag => ?_)
      constructor
      · intro hmem
        rcases List.mem_cons.mp ((h tag).mp (List.mem_cons_of_mem x hmem)) with heq | hmem'
        · exact absurd heq.symm (hxs tag hmem).ne
        · exact hmem'
      · intro hmem
        rcases List.mem_cons.mp ((h tag).mpr (List.mem_cons_of_mem x hmem)) with heq | hmem'
        · exact absurd heq.symm (hys tag hmem).ne
        · exact hmem'

/-- **Sets with the same tags are equal.** -/
theorem ext {s t : TagSet} (h : ∀ tag, tag ∈ s ↔ tag ∈ t) : s = t := by
  obtain ⟨xs, hx⟩ := s
  obtain ⟨ys, hy⟩ := t
  have : xs = ys := eq_of_ascending hx hy h
  subst this
  rfl

/-- The set of the tags of a set is that set. -/
@[simp] theorem ofList_toList (tags : TagSet) : ofList tags.toList = tags :=
  ext fun tag => by rw [mem_ofList, mem_iff]

end TagSet

end TagLogic
