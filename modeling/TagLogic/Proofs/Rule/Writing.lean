import TagLogic.Proofs.Rule.Reading

/-!
# The writings of a rule

A rule can be written down when it is `Plain` — no constant in it, no empty group, and
every tag and name a token — and no higher than the nesting limit. Its `Writing`s are
then its text with blanks put in at will: behind a sign, and on both sides of each part
of a group. This module proves the reader to be exactly the inverse of that:

> `parse_eq_ok_iff`: a text is read as a rule exactly when the rule is writable and the
> text is one of its writings between blanks.

Completeness (`finish_of_writing`) goes down the rule and says, from any open frames and
for any text behind, that reading a writing is having read the rule. Soundness goes along
the steps of the reader with the invariant `Spells`: what has been taken spells the open
frames, with the rule behind them if one is done. A third invariant, `State.Fits`, keeps
account of the heights: the limit is tested where a frame opens, long before the height
of the rule around it is known.

So the operation `parse` accepts the language that its productions describe, and returns
the tree that was written.
-/

namespace TagLogic

namespace Rule

mutual

/-- Nothing in the rule is without a text: no constant, no empty group, no odd tag or name. -/
def Plain : Rule → Prop
  | .always => False
  | .never => False
  | .tagged tag => IsToken tag.toList
  | .named name => IsToken name.toList
  | .not r => r.Plain
  | .group _ parts => parts ≠ [] ∧ PlainParts parts

def PlainParts : List Rule → Prop
  | [] => True
  | r :: rs => r.Plain ∧ PlainParts rs

end

theorem plainParts_iff {rs : List Rule} : PlainParts rs ↔ ∀ r ∈ rs, r.Plain := by
  induction rs with
  | nil => simp [PlainParts]
  | cons r rs ih => rw [PlainParts, ih, List.forall_mem_cons]

/-- The rule can be written down and read again. -/
structure Writable (rule : Rule) : Prop where
  plain : rule.Plain
  height_le : rule.height ≤ maxDepth

mutual

/-- The text is a writing of the rule. -/
inductive Writing : Rule → List Char → Prop
  | tagged (tag : String) : Writing (.tagged tag) tag.toList
  | named {blanks : List Char} (name : String) : Blanks blanks →
      Writing (.named name) ('@' :: (blanks ++ name.toList))
  | not {rule : Rule} {blanks w : List Char} : Blanks blanks → Writing rule w →
      Writing (.not rule) ('!' :: (blanks ++ w))
  | group {kind : Group} {parts : List Rule} {w : List Char} : PartsWriting parts w →
      Writing (.group kind parts) (kind.opener :: (w ++ [kind.closer]))

/-- The text is a writing of the parts of a group, in order. -/
inductive PartsWriting : List Rule → List Char → Prop
  | last {rule : Rule} {before w after : List Char} :
      Blanks before → Writing rule w → Blanks after →
      PartsWriting [rule] (before ++ (w ++ after))
  | cons {rule : Rule} {parts : List Rule} {before w after rest : List Char} :
      Blanks before → Writing rule w → Blanks after → PartsWriting parts rest →
      PartsWriting (rule :: parts) (before ++ (w ++ after) ++ ',' :: rest)

end

end Rule

namespace Reader

open Rule (Plain PlainParts plainParts_iff Writing PartsWriting heights heights_le_iff maxDepth)

variable {limit : Option Nat} {depth : Nat}

/-! ## Every writing is read -/

theorem bounded_closer (kind : Group) (s : List Char) : Bounded (kind.closer :: s) :=
  bounded_cons kind.isReserved_closer s

/-- Reading the parts of a group and its closer is having read the group, if reading each part is
having read it. -/
theorem finish_of_partsWriting {kind : Group} {frames : List Frame} {parts : List Rule}
    (hparts : ∀ r ∈ parts, ∀ (frames : List Frame) (before w after s : List Char),
      Writing r w → Blanks before → Blanks after → Bounded s →
      Within limit (depth + frames.length + r.height) →
      finish limit depth (.due frames) (before ++ (w ++ (after ++ s))) =
        finish limit depth (.done r frames) s)
    (hfits : Within limit (depth + frames.length + 1 + heights parts))
    {w : List Char} (hw : PartsWriting parts w) (s : List Char) :
    ∀ earlier : List Rule,
      finish limit depth (.due (.group kind earlier :: frames)) (w ++ kind.closer :: s) =
        finish limit depth (.done (.group kind (earlier.reverse ++ parts)) frames) s := by
  induction parts generalizing w with
  | nil => cases hw
  | cons r parts ih =>
    intro earlier
    have hr := hparts r List.mem_cons_self (.group kind earlier :: frames)
    have hfirst :
        Within limit (depth + (Frame.group kind earlier :: frames).length + r.height) := by
      refine hfits.mono ?_
      rw [heights, List.length_cons]
      omega
    have hothers : Within limit (depth + frames.length + 1 + heights parts) := by
      refine hfits.mono ?_
      rw [heights]
      omega
    cases hw with
    | @last _ before v after hbefore hv hafter =>
      rw [List.append_assoc, List.append_assoc,
        hr before v after _ hv hbefore hafter (bounded_closer kind s) hfirst,
        ← List.nil_append (kind.closer :: s), finish_closes blanks_nil, List.reverse_cons]
    | @cons _ _ before v after rest hbefore hv hafter hrest =>
      have hcomma : Bounded (',' :: (rest ++ kind.closer :: s)) := bounded_cons rfl _
      have hmore :=
        ih (fun q hq => hparts q (List.mem_cons_of_mem r hq)) hothers hrest (r :: earlier)
      rw [List.append_assoc, List.append_assoc, List.append_assoc, List.cons_append,
        hr before v after _ hv hbefore hafter hcomma hfirst,
        ← List.nil_append (',' :: (rest ++ kind.closer :: s)), finish_separates blanks_nil, hmore,
        List.reverse_cons, List.append_assoc]
      rfl

/-- **Reading a writing is having read the rule**, whatever is open around it and whatever bounded
text comes behind. -/
theorem finish_of_writing {rule : Rule} : ∀ (frames : List Frame) (before w after s : List Char),
    rule.Plain → Writing rule w → Blanks before → Blanks after → Bounded s →
    Within limit (depth + frames.length + rule.height) →
    finish limit depth (.due frames) (before ++ (w ++ (after ++ s))) =
      finish limit depth (.done rule frames) s := by
  induction rule using Rule.induction with
  | always | never => intro _ _ _ _ _ h; exact h.elim
  | tagged tag =>
    intro frames before w after s htext hw hbefore hafter hs _
    cases hw
    have hread : Step limit depth (.due frames) (before ++ (tag.toList ++ after)) s
        (.done (.tagged (String.ofList tag.toList)) frames) := .tags hbefore htext hafter hs
    rw [String.ofList_toList] at hread
    rw [← finish_of_step hread, List.append_assoc, List.append_assoc]
  | named name =>
    intro frames before w after s htext hw hbefore hafter hs _
    cases hw with
    | @named inner _ hinner =>
      have hread : Step limit depth (.due frames)
          (before ++ '@' :: (inner ++ (name.toList ++ after))) s
          (.done (.named (String.ofList name.toList)) frames) :=
        .names hbefore hinner htext hafter hs
      rw [String.ofList_toList] at hread
      rw [← finish_of_step hread]
      simp only [List.append_assoc, List.cons_append]
  | not r ih =>
    intro frames before w after s hplain hw hbefore hafter hs hfits
    cases hw with
    | @not _ inner v hinner hv =>
      have hroom : Within limit (depth + frames.length + 1) := by
        refine hfits.mono ?_
        rw [Rule.height]
        omega
      have hheight : Within limit (depth + (Frame.negation :: frames).length + r.height) := by
        refine hfits.mono ?_
        rw [Rule.height, List.length_cons]
        omega
      have hinside := ih (.negation :: frames) inner v after s hplain hv hinner hafter hs hheight
      rw [List.cons_append, List.append_assoc, finish_opens hbefore rfl hroom, hinside,
        finish_negates]
  | group kind parts ih =>
    intro frames before w after s hplain hw hbefore hafter hs hfits
    cases hw with
    | @group _ _ v hv =>
      have hroom : Within limit (depth + frames.length + 1) := by
        refine hfits.mono ?_
        rw [Rule.height]
        omega
      have hopened : Frame.opened? kind.opener = some (.group kind []) :=
        Frame.opened?_eq_some_iff.mpr (Or.inr ⟨kind, rfl, rfl⟩)
      -- The writing ends with the closer; blanks behind it are skipped afterwards.
      have hinside : finish limit depth (.due (.group kind [] :: frames))
          (v ++ kind.closer :: (after ++ s)) =
            finish limit depth (.done (.group kind parts) frames) (after ++ s) := by
        refine finish_of_partsWriting ?_ ?_ hv (after ++ s) []
        · intro r hr frames before w after s hw hbefore hafter hs hfits
          exact ih r hr frames before w after s (plainParts_iff.mp hplain.2 r hr) hw hbefore
            hafter hs hfits
        · refine hfits.mono ?_
          rw [Rule.height]
          omega
      rw [List.cons_append, List.append_assoc, List.singleton_append,
        finish_opens hbefore hopened hroom, hinside, finish_done_blanks hafter]

/-! ## What is read is a writing -/

/-- A writing of a plain rule, between blanks. -/
def Padded (rule : Rule) (s : List Char) : Prop :=
  rule.Plain ∧ ∃ before w after, Blanks before ∧ Writing rule w ∧ Blanks after ∧
    s = before ++ (w ++ after)

theorem Padded.append_blanks {rule : Rule} {s after : List Char} (h : Padded rule s)
    (hafter : Blanks after) : Padded rule (s ++ after) := by
  obtain ⟨hplain, before, w, after', hbefore, hw, hafter', rfl⟩ := h
  exact ⟨hplain, before, w, after' ++ after, hbefore, hw, hafter'.append hafter, by simp⟩

/-- The text is that of the earlier parts of an open group, the latest first, each with a separator
behind it. -/
inductive EarlierParts : List Rule → List Char → Prop
  | nil : EarlierParts [] []
  | cons {rule : Rule} {parts : List Rule} {s w : List Char} :
      EarlierParts parts s → Padded rule w → EarlierParts (rule :: parts) (s ++ (w ++ [',']))

theorem EarlierParts.plain {parts : List Rule} {s : List Char} (h : EarlierParts parts s) :
    ∀ r ∈ parts, r.Plain := by
  induction h with
  | nil => intro r hr; cases hr
  | cons _ hw ih => exact List.forall_mem_cons.mpr ⟨hw.1, ih⟩

/-- With the parts still to come they are the parts of the group. -/
theorem EarlierParts.writing {earlier : List Rule} {s : List Char} (h : EarlierParts earlier s) :
    ∀ {parts : List Rule} {w : List Char}, PartsWriting parts w →
      PartsWriting (earlier.reverse ++ parts) (s ++ w) := by
  induction h with
  | nil => exact fun hw => hw
  | @cons rule _ _ _ _ hpadded ih =>
    intro parts w hw
    obtain ⟨-, before, v, after, hbefore, hv, hafter, rfl⟩ := hpadded
    have hmore := ih (.cons hbefore hv hafter hw)
    simpa only [List.reverse_cons, List.append_assoc, List.singleton_append, List.cons_append,
      List.nil_append] using hmore

/-- The text is what has been read where a rule is due inside the frames. -/
inductive Opened : List Frame → List Char → Prop
  | nil : Opened [] []
  | negation {frames : List Frame} {s before : List Char} : Opened frames s → Blanks before →
      Opened (.negation :: frames) (s ++ (before ++ ['!']))
  | group {kind : Group} {parts : List Rule} {frames : List Frame} {s before v : List Char} :
      Opened frames s → Blanks before → EarlierParts parts v →
      Opened (.group kind parts :: frames) (s ++ (before ++ kind.opener :: v))

/-- What has been read spells the state: the open frames, and the rule if one is done. -/
def Spells (taken : List Char) : State → Prop
  | .due frames => Opened frames taken
  | .done rule frames => ∃ s w, Opened frames s ∧ Padded rule w ∧ taken = s ++ w

theorem padded_tagged {before text after : List Char} (hbefore : Blanks before)
    (htext : IsToken text) (hafter : Blanks after) :
    Padded (.tagged (String.ofList text)) (before ++ (text ++ after)) := by
  have hw := Writing.tagged (String.ofList text)
  rw [String.toList_ofList] at hw
  exact ⟨by simpa [Plain] using htext, before, text, after, hbefore, hw, hafter, rfl⟩

theorem padded_named {before inner text after : List Char} (hbefore : Blanks before)
    (hinner : Blanks inner) (htext : IsToken text) (hafter : Blanks after) :
    Padded (.named (String.ofList text)) (before ++ '@' :: (inner ++ (text ++ after))) := by
  have hw := Writing.named (String.ofList text) hinner
  rw [String.toList_ofList] at hw
  exact ⟨by simpa [Plain] using htext, before, _, after, hbefore, hw, hafter, by simp⟩

/-- **Each step spells what it takes.** -/
theorem spells_step {state next : State} {taken more rest : List Char}
    (h : Step limit depth state more rest next) (hs : Spells taken state) :
    Spells (taken ++ more) next := by
  cases h with
  | opens hbefore hc _ =>
    rcases Frame.opened?_eq_some_iff.mp hc with ⟨rfl, rfl⟩ | ⟨kind, rfl, rfl⟩
    · exact .negation hs hbefore
    · exact .group hs hbefore .nil
  | tags hbefore htext hafter _ =>
    exact ⟨taken, _, hs, padded_tagged hbefore htext hafter, rfl⟩
  | names hbefore hinner htext hafter _ =>
    exact ⟨taken, _, hs, padded_named hbefore hinner htext hafter, rfl⟩
  | negates =>
    obtain ⟨s, w, hopened, ⟨hplain, inner, v, after, hinner, hv, hafter, rfl⟩, rfl⟩ := hs
    cases hopened with
    | @negation _ s before hopened hbefore =>
      -- Blanks behind the negated rule become blanks behind the negation.
      refine ⟨s, before ++ ('!' :: (inner ++ v) ++ after), hopened,
        ⟨hplain, before, _, after, hbefore, .not hinner hv, hafter, rfl⟩, ?_⟩
      simp
  | separates hbefore =>
    obtain ⟨s, w, hopened, hpadded, rfl⟩ := hs
    cases hopened with
    | group hopened hinner hearlier =>
      have hmore := hearlier.cons (hpadded.append_blanks hbefore)
      rw [List.append_assoc] at hmore
      rw [List.append_assoc, List.append_assoc, List.append_assoc, List.cons_append]
      exact .group hopened hinner hmore
  | @closes rule kind parts _ after _ hafter =>
    obtain ⟨s, w, hopened, hpadded, rfl⟩ := hs
    cases hopened with
    | @group _ _ _ s before v hopened hbefore hearlier =>
      -- The blanks in front of the closer belong to the last part.
      obtain ⟨hplain, inner, u, after', hinner, hu, hafter', heq⟩ :=
        hpadded.append_blanks hafter
      have hparts := hearlier.writing (.last hinner hu hafter')
      rw [← heq, ← List.reverse_cons] at hparts
      refine ⟨s, before ++ (kind.opener :: (v ++ (w ++ after) ++ [kind.closer]) ++ []), hopened,
        ⟨⟨by simp, plainParts_iff.mpr ?_⟩, before, _, [], hbefore, .group hparts, blanks_nil, rfl⟩,
        ?_⟩
      · intro r hr
        rcases List.mem_cons.mp (List.mem_reverse.mp hr) with rfl | hr
        · exact hplain
        · exact hearlier.plain r hr
      · simp

/-- **What has been taken spells the state it led to.** -/
theorem spells_reads {state : State} {taken rest : List Char}
    (h : Reads limit depth (.due []) taken rest state) : Spells taken state := by
  induction h with
  | refl => exact .nil
  | tail _ hstep ih => exact spells_step hstep ih

/-! ## Heights -/

/-- The rules kept in the frames stay within the limit where they stand. -/
def FramesFit (limit : Option Nat) (depth : Nat) : List Frame → Prop
  | [] => Within limit depth
  | .negation :: frames => Within limit (depth + frames.length + 1) ∧ FramesFit limit depth frames
  | .group _ parts :: frames =>
    Within limit (depth + frames.length + 1 + heights parts) ∧ FramesFit limit depth frames

/-- All rules of the state stay within the limit where they stand. -/
def State.Fits (limit : Option Nat) (depth : Nat) : State → Prop
  | .due frames => FramesFit limit depth frames
  | .done rule frames =>
    Within limit (depth + frames.length + rule.height) ∧ FramesFit limit depth frames

theorem FramesFit.within {frames : List Frame} (h : FramesFit limit depth frames) :
    Within limit (depth + frames.length) := by
  cases frames with
  | nil => exact h
  | cons frame frames =>
    cases frame with
    | negation => exact h.1
    | group kind parts =>
      refine h.1.mono ?_
      rw [List.length_cons]
      omega

theorem heights_reverse (rs : List Rule) : heights rs.reverse = heights rs := by
  have hle : ∀ ss : List Rule, heights ss.reverse ≤ heights ss := by
    intro ss
    refine heights_le_iff.mpr fun r hr => ?_
    exact heights_le_iff.mp (Nat.le_refl _) r (List.mem_reverse.mp hr)
  have hge := hle rs.reverse
  rw [List.reverse_reverse] at hge
  exact Nat.le_antisymm (hle rs) hge

/-- Behind a rule that is done nothing is opened: the steps there only put rules together, and with
any limit and depth the rules fit afterwards exactly when they did before. -/
theorem Step.fits_iff {rule : Rule} {frames : List Frame} {next : State} {taken rest : List Char}
    (h : Step limit depth (.done rule frames) taken rest next) {limit' : Option Nat}
    {depth' : Nat} : next.Fits limit' depth' ↔ (State.done rule frames).Fits limit' depth' := by
  cases h with
  | @negates _ frames _ =>
    have hroom : depth' + frames.length + (rule.height + 1) =
        max (depth' + (frames.length + 1) + rule.height) (depth' + frames.length + 1) := by omega
    simp only [State.Fits, FramesFit, Rule.height, List.length_cons, hroom, within_max, and_assoc]
  | @separates _ _ parts frames =>
    have hroom : depth' + frames.length + 1 + max rule.height (heights parts) =
        max (depth' + (frames.length + 1) + rule.height)
          (depth' + frames.length + 1 + heights parts) := by omega
    simp only [State.Fits, FramesFit, heights, List.length_cons, hroom, within_max, and_assoc]
  | @closes _ _ parts frames =>
    have hroom : depth' + frames.length + (max rule.height (heights parts) + 1) =
        max (depth' + (frames.length + 1) + rule.height)
          (depth' + frames.length + 1 + heights parts) := by omega
    simp only [State.Fits, FramesFit, Rule.height, heights_reverse, heights, List.length_cons,
      hroom, within_max, and_assoc]

/-- Each step keeps all rules within the limit. -/
theorem fits_step {state next : State} {taken rest : List Char}
    (h : Step limit depth state taken rest next) (hfits : state.Fits limit depth) :
    next.Fits limit depth := by
  cases state with
  | done rule frames => exact h.fits_iff.mpr hfits
  | due frames =>
    cases h with
    | opens _ hc hroom =>
      -- The limit is tested here; what comes inside finds the frame already counted.
      rcases Frame.opened?_eq_some_iff.mp hc with ⟨-, rfl⟩ | ⟨kind, -, rfl⟩
      · exact ⟨hroom, hfits⟩
      · exact ⟨hroom, hfits⟩
    | tags | names => exact ⟨FramesFit.within hfits, hfits⟩

theorem fits_reads {start state : State} {taken rest : List Char}
    (h : Reads limit depth start taken rest state) (hfits : start.Fits limit depth) :
    state.Fits limit depth := by
  induction h with
  | refl => exact hfits
  | tail _ hstep ih => exact fits_step hstep ih

/-! ## Whole texts -/

/-- A writing between blanks is read as the rule. -/
theorem finish_of_padded {rule : Rule} {s : List Char} (h : Padded rule s)
    (hwithin : Within limit rule.height) : finish limit 0 (.due []) s = .ok rule := by
  obtain ⟨hplain, before, w, after, hbefore, hw, hafter, rfl⟩ := h
  have hfits : Within limit (0 + ([] : List Frame).length + rule.height) := by simpa using hwithin
  have hread := finish_of_writing [] before w after [] hplain hw hbefore hafter bounded_nil hfits
  rwa [List.append_nil, finish_of_blanks blanks_nil] at hread

/-- What is read as a rule is a writing of it between blanks. -/
theorem padded_of_finish {rule : Rule} {s : List Char} (h : finish limit 0 (.due []) s = .ok rule) :
    Padded rule s := by
  obtain ⟨taken, rest, rfl, hreads, hrest⟩ := finish_eq_ok_iff.mp h
  obtain ⟨front, w, hopened, hpadded, rfl⟩ := spells_reads hreads
  cases hopened
  exact hpadded.append_blanks hrest

end Reader

namespace Rule

/-- **A text is read as a rule exactly when the rule is writable and the text is one of its writings
between blanks.** -/
theorem parse_eq_ok_iff {text : String} {rule : Rule} :
    parse text = .ok rule ↔ rule.Writable ∧ ∃ before w after,
      Blanks before ∧ Writing rule w ∧ Blanks after ∧ text.toList = before ++ (w ++ after) := by
  constructor
  · intro h
    obtain ⟨taken, rest, htext, hreads, hrest⟩ := parseWithin_eq_ok_iff.mp h
    obtain ⟨s, w, hopened, hpadded, rfl⟩ := Reader.spells_reads hreads
    have hstart : Within (some maxDepth) 0 := fun most _ => Nat.zero_le most
    obtain ⟨hheight, -⟩ := Reader.fits_reads hreads hstart
    cases hopened
    obtain ⟨hplain, before, v, after, hbefore, hv, hafter, heq⟩ := hpadded.append_blanks hrest
    have hwithin : rule.height ≤ maxDepth := by simpa using hheight maxDepth rfl
    refine ⟨⟨hplain, hwithin⟩, before, v, after, hbefore, hv, hafter, ?_⟩
    rw [htext, List.nil_append, heq]
  · intro h
    obtain ⟨⟨hplain, hheight⟩, before, w, after, hbefore, hw, hafter, htext⟩ := h
    have hfits : Within (some maxDepth) (0 + ([] : List Frame).length + rule.height) := by
      simpa [Within] using hheight
    have hread := Reader.finish_of_writing [] before w after [] hplain hw hbefore hafter
      bounded_nil hfits
    rw [Reader.finish_of_blanks blanks_nil, List.append_nil, ← htext] at hread
    rw [parse, parseWithin_eq_finish, hread]
    rfl

end Rule

end TagLogic
