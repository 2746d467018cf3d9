import TagLogic.Fact
import TagLogic.Pattern.Render
import TagLogic.Proofs.Pattern.Slot
import TagLogic.Proofs.Text.Hole

/-!
# Rendering as the filling of holes

A pattern is filled in two ways: outside of the brackets its slots are segments of their
own, and in a piece that was chosen they are replaced when the piece is put in. Both
together are one filling: with the answers of a chooser given, there is one text with
holes, and whatever the name is it goes into the holes as it stands. A name may so hold
slots, brackets and commas, and nobody looks at them.

The holes are told from the text itself. `Bracketing` cuts it into what stands before each
pair of brackets, inside of it, and behind the last pair; the chooser is shown the trimmed
pieces of each inside (`Bracketing.offered`), and what it picks takes the place of the pair
(`Bracketing.runs`). The slots are looked for run by run, so a `%` before a pair and an `s`
that was chosen make no slot.

> `render_eq_joined`: what is shown, how many holes there are, and what stands around them.

The operation is `render_with`, with any chooser.
-/

namespace TagLogic

open Text (mergeAll occurrences)

/-! ## A text cut at its brackets -/

/-- What stands before each pair of brackets and inside of it, and what stands behind the last. -/
structure Bracketing where
  pairs : List (List Char × List Char)
  last : List Char
  flat_pairs : ∀ pair ∈ pairs, Segment.Flat pair.1 ∧ Segment.Flat pair.2
  flat_last : Segment.Flat last

namespace Bracketing

/-- The text with its brackets. -/
def text (b : Bracketing) : List Char :=
  b.pairs.flatMap (fun pair => pair.1 ++ '[' :: (pair.2 ++ [']'])) ++ b.last

/-- The texts outside of the brackets. -/
def outside (b : Bracketing) : List (List Char) := b.pairs.map Prod.fst ++ [b.last]

/-- What is offered for the text inside a pair: its pieces between commas, each trimmed. -/
def piecesInside (inside : List Char) : List String :=
  (inside.splitOn ',').map fun piece => .ofList (Text.trim piece)

/-- What is offered pair by pair. -/
def offered (b : Bracketing) : List (List String) := b.pairs.map fun pair => piecesInside pair.2

/-- The segments of the text. -/
def segments (b : Bracketing) : List Segment :=
  b.pairs.flatMap (fun pair => Segment.ofFlat pair.1 ++ [Segment.ofInside pair.2]) ++
    Segment.ofFlat b.last

/-- The piece that an answer picks, counted modulo the number of pieces. -/
def picked (pieces : List String) (answer : Nat) : String :=
  pieces.getD (answer % pieces.length) ""

/-- The pieces that the answers pick. -/
def chosen (b : Bracketing) (answers : List Nat) : List String :=
  List.zipWith picked b.offered answers

/-- The text run by run, with a piece in place of each pair. -/
def runs (b : Bracketing) (pieces : List String) : List (List Char) :=
  (List.zipWith (fun pair piece => [pair.1, piece.toList]) b.pairs pieces).flatten ++ [b.last]

/-- The literal pieces of the text with holes that the answers make of the pattern: each run is cut
at its own slots. -/
def literals (b : Bracketing) (answers : List Nat) : List (List Char) :=
  mergeAll ((b.runs (b.chosen answers)).map Segment.aroundSlots)

end Bracketing

/-- What the chooser answers to what is offered one after the other, behind what was shown
before. -/
def Chooser.answers (chooser : Chooser) (before : List (List String)) :
    List (List String) → List Nat
  | [] => []
  | offered :: rest => chooser before offered :: chooser.answers (offered :: before) rest

namespace Segment

theorem exists_bracketing {s : List Char} {segments : List Segment} (h : Segmented s segments) :
    ∃ b : Bracketing, b.text = s := by
  induction h with
  | @flat s hflat => exact ⟨⟨[], s, List.forall_mem_nil _, hflat⟩, rfl⟩
  | @pair before inside after rest hbefore hinside _ ih =>
    obtain ⟨b, rfl⟩ := ih
    refine ⟨⟨(before, inside) :: b.pairs, b.last,
      List.forall_mem_cons.mpr ⟨⟨hbefore, hinside⟩, b.flat_pairs⟩, b.flat_last⟩, ?_⟩
    simp [Bracketing.text]

theorem segmented_text (b : Bracketing) : Segmented b.text b.segments := by
  obtain ⟨pairs, last, hpairs, hlast⟩ := b
  induction pairs with
  | nil => exact .flat hlast
  | cons pair pairs ih =>
    obtain ⟨⟨hbefore, hinside⟩, hrest⟩ := List.forall_mem_cons.mp hpairs
    have hmore := Segmented.pair hbefore hinside (ih hrest)
    simpa [Bracketing.text, Bracketing.segments] using hmore

/-! ## Rendering segment by segment -/

variable {name : String} {chooser : Chooser} {before : List (List String)} {rest : List Segment}

theorem renderFrom_slot :
    renderFrom name chooser before (.slot :: rest) =
      ⟨name ++ (renderFrom name chooser before rest).text,
        (renderFrom name chooser before rest).shown⟩ := rfl

theorem renderFrom_ofText (s : List Char) :
    renderFrom name chooser before (ofText s ++ rest) =
      ⟨.ofList s ++ (renderFrom name chooser before rest).text,
        (renderFrom name chooser before rest).shown⟩ := by
  unfold ofText
  by_cases hnil : s = []
  · subst hnil
    rw [if_pos rfl]
    simp
  · rw [if_neg hnil]
    rfl

/-- Slots are filled as the holes of a text are. -/
theorem renderFrom_slotted (ps : List (List Char)) :
    renderFrom name chooser before (slotted ps ++ rest) =
      ⟨.ofList (name.toList.intercalate ps) ++ (renderFrom name chooser before rest).text,
        (renderFrom name chooser before rest).shown⟩ := by
  induction ps with
  | nil => simp [slotted]
  | cons p ps ih =>
    by_cases hlast : ps = []
    · subst hlast
      rw [slotted_singleton, renderFrom_ofText, List.intercalate_singleton]
    · rw [slotted_cons p hlast, List.append_assoc, List.cons_append, renderFrom_ofText,
        renderFrom_slot, ih, List.intercalate_cons_of_ne_nil hlast]
      simp [String.ofList_append, String.append_assoc]

/-- Text outside of the brackets is filled as a chosen piece is. -/
theorem renderFrom_ofFlat (s : List Char) :
    renderFrom name chooser before (ofFlat s ++ rest) =
      ⟨.ofList (name.toList.intercalate (aroundSlots s)) ++
          (renderFrom name chooser before rest).text,
        (renderFrom name chooser before rest).shown⟩ := by
  rw [ofFlat_eq_slotted, renderFrom_slotted]

theorem ofInside_eq (s : List Char) :
    ∃ first others, Bracketing.piecesInside s = first :: others ∧
      ofInside s = .choice first others := by
  unfold ofInside Bracketing.piecesInside
  split
  next hnil => exact absurd (List.map_eq_nil_iff.mp hnil) (List.splitOn_ne_nil ',' s)
  next first others heq => exact ⟨first, others, heq, rfl⟩

theorem pick_eq (first : String) (others : List String) (n : Nat) :
    pick first others n = Bracketing.picked (first :: others) n := by
  have hlt : n % (first :: others).length < (first :: others).length :=
    Nat.mod_lt n (Nat.succ_pos others.length)
  unfold Bracketing.picked List.getD
  rw [List.getElem?_eq_getElem hlt]
  rfl

/-- A choice shows its pieces and is filled with the one that is picked. -/
theorem renderFrom_ofInside (s : List Char) :
    renderFrom name chooser before (ofInside s :: rest) =
      let offered := Bracketing.piecesInside s
      let r := renderFrom name chooser (offered :: before) rest
      ⟨fill name (Bracketing.picked offered (chooser before offered)) ++ r.text,
        offered :: r.shown⟩ := by
  obtain ⟨first, others, hpieces, hchoice⟩ := ofInside_eq s
  rw [hpieces, hchoice]
  dsimp only
  rw [← pick_eq]
  rfl

end Segment

namespace Bracketing

theorem ne_nil_of_mem_offered {b : Bracketing} : ∀ pieces ∈ b.offered, pieces ≠ [] := by
  intro pieces hpieces hnil
  obtain ⟨pair, -, rfl⟩ := List.mem_map.mp hpieces
  exact List.splitOn_ne_nil ',' pair.2 (List.map_eq_nil_iff.mp hnil)

/-- **Rendering shows what is offered and fills run by run.** -/
theorem renderFrom_segments (b : Bracketing) (name : String) (chooser : Chooser)
    (before : List (List String)) :
    (Segment.renderFrom name chooser before b.segments).shown = b.offered ∧
    (Segment.renderFrom name chooser before b.segments).text.toList =
      (b.runs (b.chosen (chooser.answers before b.offered))).flatMap fun run =>
        name.toList.intercalate (Segment.aroundSlots run) := by
  obtain ⟨pairs, last, hpairs, hlast⟩ := b
  induction pairs generalizing before with
  | nil =>
    have hflat : (Bracketing.mk [] last hpairs hlast).segments = Segment.ofFlat last ++ [] := by
      simp [segments]
    rw [hflat, Segment.renderFrom_ofFlat]
    refine ⟨rfl, ?_⟩
    rw [String.toList_append, String.toList_ofList]
    simp [runs, Segment.renderFrom]
  | cons pair pairs ih =>
    obtain ⟨hpair, hrest⟩ := List.forall_mem_cons.mp hpairs
    have hsegments : (Bracketing.mk (pair :: pairs) last hpairs hlast).segments =
        Segment.ofFlat pair.1 ++ Segment.ofInside pair.2 ::
          (Bracketing.mk pairs last hrest hlast).segments := by
      simp [segments]
    obtain ⟨hshown, htext⟩ := ih (piecesInside pair.2 :: before) hrest
    rw [hsegments, Segment.renderFrom_ofFlat, Segment.renderFrom_ofInside]
    dsimp only
    rw [hshown]
    refine ⟨rfl, ?_⟩
    rw [String.toList_append, String.toList_append, htext, String.toList_ofList]
    unfold Segment.fill
    rw [String.toList_ofList]
    rfl

/-- Over the runs one counts what the texts outside of the brackets and the chosen pieces have. -/
theorem sum_runs (b : Bracketing) {pieces : List String} (h : pieces.length = b.pairs.length)
    (count : List Char → Nat) :
    ((b.runs pieces).map count).sum =
      (b.outside.map count).sum + (pieces.map fun piece => count piece.toList).sum := by
  obtain ⟨pairs, last, hpairs, hlast⟩ := b
  induction pairs generalizing pieces with
  | nil =>
    rw [List.eq_nil_of_length_eq_zero h]
    rfl
  | cons pair pairs ih =>
    cases pieces with
    | nil => cases h
    | cons piece pieces =>
      have hrest := ih (List.forall_mem_cons.mp hpairs).2 (Nat.succ.inj h)
      unfold runs outside at hrest ⊢
      simp only [List.zipWith_cons_cons, List.flatten_cons, List.map_cons, List.map_append,
        List.sum_cons, List.sum_append, List.cons_append, List.nil_append] at hrest ⊢
      omega

theorem length_answers (chooser : Chooser) (before : List (List String))
    (offered : List (List String)) :
    (chooser.answers before offered).length = offered.length := by
  induction offered generalizing before with
  | nil => rfl
  | cons pieces rest ih =>
    unfold Chooser.answers
    rw [List.length_cons, List.length_cons, ih]

/-- A piece is chosen for every pair. -/
theorem length_chosen {b : Bracketing} {answers : List Nat}
    (h : answers.length = b.offered.length) : (b.chosen answers).length = b.pairs.length := by
  unfold chosen
  rw [List.length_zipWith, h, Nat.min_self]
  exact List.length_map _

/-! ## The literal pieces -/

theorem aroundSlots_ne_nil_of_mem {runs : List (List Char)} :
    ∀ ps ∈ runs.map Segment.aroundSlots, ps ≠ [] := by
  intro ps hps
  obtain ⟨run, -, rfl⟩ := List.mem_map.mp hps
  exact Text.piecesAround_ne_nil '%' 's' run

/-- Filling the holes of all is filling those of every run. -/
theorem intercalate_literals (b : Bracketing) (answers : List Nat) (filling : List Char) :
    filling.intercalate (b.literals answers) =
      (b.runs (b.chosen answers)).flatMap fun run =>
        filling.intercalate (Segment.aroundSlots run) := by
  unfold literals
  rw [Text.intercalate_mergeAll aroundSlots_ne_nil_of_mem, List.flatMap_map]

/-- With the mark in its holes a text with holes is what was cut. -/
theorem intercalate_mark_literals (b : Bracketing) (answers : List Nat) :
    Segment.mark.intercalate (b.literals answers) = (b.runs (b.chosen answers)).flatten := by
  rw [intercalate_literals, List.flatten_eq_flatMap]
  exact congrArg (fun f => List.flatMap f _) (funext (Text.intercalate_piecesAround '%' 's'))

/-- **There is a hole for each slot outside of the brackets and in the pieces picked.** -/
theorem length_literals {b : Bracketing} {answers : List Nat}
    (h : answers.length = b.offered.length) :
    (b.literals answers).length =
      (b.outside.map (occurrences Segment.mark)).sum +
        ((b.chosen answers).map fun piece => occurrences Segment.mark piece.toList).sum + 1 := by
  have hcount : ∀ run, (Segment.aroundSlots run).length - 1 = occurrences Segment.mark run := by
    intro run
    have hlength := Text.length_piecesAround (a := '%') (b := 's') (by decide) run
    unfold Segment.aroundSlots
    rw [hlength]
    rfl
  unfold literals
  rw [Text.length_mergeAll aroundSlots_ne_nil_of_mem, List.map_map,
    ← sum_runs b (length_chosen h)]
  simp only [Function.comp_def, hcount]

end Bracketing

/-- A pattern has the segments that its text, cut at the brackets, has. -/
theorem Pattern.segments_eq {p : Pattern} {b : Bracketing} (h : b.text = p.text.toList) :
    p.segments = b.segments := by
  have hp := p.segments?_text
  rw [← h, Segment.segments?_eq_some_iff.mpr (Segment.segmented_text b)] at hp
  exact (Option.some.inj hp).symm

/-- **A fact is rendered by filling holes with the name.** Its pattern can be cut at the brackets,
and the chooser is shown the pieces of each pair once, from left to right. With what it answers the
pattern is a text with holes, one for each `%s` outside of the brackets and in the pieces picked;
the name goes into all of them, and nothing of it is looked at. -/
theorem render_eq_joined {text : String} {rule : Rule} {f : Fact}
    (h : Fact.ofPattern text rule = .ok f) :
    (∃ b : Bracketing, b.text = text.toList) ∧
    ∀ b : Bracketing, b.text = text.toList →
      (∀ pieces ∈ b.offered, pieces ≠ []) ∧
      ∀ chooser : Chooser,
        let answers := chooser.answers [] b.offered
        (b.literals answers).length =
          (b.outside.map (occurrences Segment.mark)).sum +
            ((b.chosen answers).map fun piece => occurrences Segment.mark piece.toList).sum + 1 ∧
        Segment.mark.intercalate (b.literals answers) = (b.runs (b.chosen answers)).flatten ∧
        ∀ name : String, (f.pattern.render name chooser).shown = b.offered ∧
          (f.pattern.render name chooser).text.toList =
            name.toList.intercalate (b.literals answers) := by
  obtain ⟨rfl, -⟩ := Fact.ofPattern_eq_ok_iff.mp h
  refine ⟨Segment.exists_bracketing (Segment.segments?_eq_some_iff.mp f.pattern.segments?_text),
    fun b hb => ⟨b.ne_nil_of_mem_offered, fun chooser => ?_⟩⟩
  refine ⟨Bracketing.length_literals (Bracketing.length_answers chooser [] b.offered),
    b.intercalate_mark_literals _, fun name => ?_⟩
  unfold Pattern.render
  rw [Pattern.segments_eq hb, Bracketing.intercalate_literals]
  exact b.renderFrom_segments name chooser []

/-- The chooser counts what it has been shown. A `%` and a chosen `s` behind it make no slot, and a
slot in the name is none either. -/
theorem render_eq_joined_hostileName :
    let chooser : Chooser := fun before _ => before.length + 1
    ∃ f, Fact.ofPattern "[A, the %s] %[s,t ] %s" .always = .ok f ∧
      (f.pattern.render "%s, [x]" chooser).shown = [["A", "the %s"], ["s", "t"]] ∧
      (f.pattern.render "%s, [x]" chooser).text = "the %s, [x] %s %s, [x]" := by
  intro chooser
  obtain ⟨f, h⟩ : ∃ f, Fact.ofPattern "[A, the %s] %[s,t ] %s" .always = .ok f :=
    ⟨_, by with_unfolding_all rfl⟩
  let b : Bracketing :=
    ⟨[([], "A, the %s".toList), (" %".toList, "s,t ".toList)], " %s".toList, by decide, by decide⟩
  obtain ⟨-, hrender⟩ := (render_eq_joined h).2 b (by decide)
  obtain ⟨hshown, htext⟩ := (hrender chooser).2.2 "%s, [x]"
  exact ⟨f, h, hshown.trans (by decide), String.toList_inj.mp (htext.trans (by decide))⟩

end TagLogic
