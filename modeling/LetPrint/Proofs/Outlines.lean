import LetPrint.Proofs.Drawing
import LetPrint.Proofs.TokenMarks

/-! What a drawing says of an outline.

A drawing is read from its left edge. The mark at the edge of a row tells whether a branch begins
there and whether it is the last one; a name ends where it meets the first space or colon, and that
tells a leaf from a tree; and the rows of a tree are those up to the next row that begins a branch.
So two drawings are the same only if the outlines are, as far as their labels can be told apart
(`alike_of_drawings`). All that it takes is that no name has a space or a colon in it, and that
nothing breaks a line (`Outline.Readable`). -/
namespace LetPrint
open Text

/-- In two texts that are the same, the runs of items of a class at the beginning are the same. -/
theorem append_inj_of_stop {α : Type} {p : α → Bool} {run run' rest rest' : List α}
    (h : run ++ rest = run' ++ rest') (hrun : ∀ a ∈ run, p a) (hrun' : ∀ a ∈ run', p a)
    (hrest : ∀ a, rest.head? = some a → p a = false)
    (hrest' : ∀ a, rest'.head? = some a → p a = false) : run = run' ∧ rest = rest' := by
  obtain ⟨htake, hdrop⟩ := takeWhile_dropWhile_append hrun hrest
  obtain ⟨htake', hdrop'⟩ := takeWhile_dropWhile_append hrun' hrest'
  constructor
  · rw [← htake, ← htake', h]
  · rw [← hdrop, ← hdrop', h]

theorem append_cons_inj_of_stop {α : Type} {p : α → Bool} {run run' rest rest' : List α} {a a' : α}
    (h : run ++ a :: rest = run' ++ a' :: rest') (hrun : ∀ b ∈ run, p b) (hrun' : ∀ b ∈ run', p b)
    (ha : p a = false) (ha' : p a' = false) : run = run' ∧ a = a' ∧ rest = rest' := by
  have hstop : ∀ {b : α} {bs : List α}, p b = false →
      ∀ c, (b :: bs).head? = some c → p c = false := by
    intro b bs hb c hc
    cases hc
    exact hb
  obtain ⟨heq, hrest⟩ := append_inj_of_stop h hrun hrun' (hstop ha) (hstop ha')
  exact ⟨heq, List.cons.inj hrest⟩

theorem append_cons_inj_of_not_mem {α : Type} [DecidableEq α] {run run' rest rest' : List α} {a : α}
    (h : run ++ a :: rest = run' ++ a :: rest') (ha : a ∉ run) (ha' : a ∉ run') :
    run = run' ∧ rest = rest' := by
  have hrun : ∀ {bs : List α}, a ∉ bs → ∀ b ∈ bs, decide (b ≠ a) = true := fun hbs b hb =>
    decide_eq_true (ne_of_mem_of_not_mem hb hbs)
  obtain ⟨heq, _, hrest⟩ := append_cons_inj_of_stop h (hrun ha) (hrun ha') (by simp) (by simp)
  exact ⟨heq, hrest⟩

theorem fedLines_intercalate {rows : List (List Char)} (hne : rows ≠ [])
    (h : ∀ row ∈ rows, '\n' ∉ row) : fedLines (['\n'].intercalate rows) = rows := by
  induction rows with
  | nil => exact absurd rfl hne
  | cons row rows ih =>
    obtain ⟨hrow, hrows⟩ := List.forall_mem_cons.1 h
    cases rows with
    | nil => rw [List.intercalate_singleton, fedLines_of_unbroken hrow]
    | cons next rows =>
      rw [List.intercalate_cons_cons, List.append_assoc, List.singleton_append,
        fedLines_append_feed, fedLines_of_unbroken hrow, ih (List.cons_ne_nil _ _) hrows]
      rfl

@[simp]
theorem Text.Phrase.chars_append (p q : Phrase) : Phrase.chars (p ++ q) = p.chars ++ q.chars :=
  List.flatMap_append

@[simp]
theorem Text.Phrase.chars_text (s : String) : (Phrase.text s).chars = s.toList := by
  simp [Phrase.text, Phrase.chars, Piece.chars]

theorem Text.Phrase.chars_cons (piece : Piece) (p : Phrase) :
    Phrase.chars (piece :: p) = piece.chars ++ p.chars := rfl

/-! ### Rows as texts -/

def Outline.lines (o : Outline) : List (List Char) :=
  o.rows.map Phrase.chars

def Branches.lines (b : Branches) : List (List Char) :=
  b.rows.map Phrase.chars

/-- The mark at the left edge of a row where a branch begins. -/
def edge (isLast : Bool) : List Char :=
  [if isLast then '└' else '├', '─', ' ']

/-- The mark at the left edge of the other rows of a branch. -/
def pass (isLast : Bool) : List Char :=
  [if isLast then ' ' else '│', ' ', ' ']

/-- A row is one of those below the beginning of a branch. -/
def passesBy (line : List Char) : Bool :=
  line.head? = some ' ' ∨ line.head? = some '│'

theorem chars_branchMark (isLast : Bool) : (branchMark isLast).chars = edge isLast := by
  cases isLast <;> decide

theorem chars_passingMark (isLast : Bool) : (passingMark isLast).chars = pass isLast := by
  cases isLast <;> decide

theorem edge_injective {isLast isLast' : Bool} (h : edge isLast = edge isLast') :
    isLast = isLast' := by
  revert isLast isLast'
  decide

section Lines
variable (label name : Phrase) (branches rest : Branches)

theorem lines_branching :
    (Outline.branching label branches).lines =
      (edge true ++ label.chars) :: branches.lines.map ("   ".toList ++ ·) := by
  simp only [Outline.lines, Outline.rows, Branches.lines, List.map_cons, List.map_map,
    Phrase.chars_cons, chars_branchMark]
  rfl

theorem lines_nil : Branches.nil.lines = [] := rfl

theorem lines_cons_leaf :
    (Branches.cons name (.leaf label) rest).lines =
      (edge rest.isEmpty ++ (name.chars ++ ' ' :: '=' :: ' ' :: label.chars)) :: rest.lines := by
  simp only [Branches.lines, Branches.rows, List.map_cons, List.cons_append, Phrase.chars_cons,
    chars_branchMark, Phrase.chars_append, Phrase.chars_text, List.append_assoc]
  rfl

theorem lines_cons_branching :
    (Branches.cons name (.branching label branches) rest).lines =
      (edge rest.isEmpty ++ (name.chars ++ [':'])) ::
        (pass rest.isEmpty ++ (edge true ++ label.chars)) ::
          (branches.lines.map (fun line => pass rest.isEmpty ++ ("   ".toList ++ line)) ++
            rest.lines) := by
  have hrow : ∀ row : Phrase, Phrase.chars (passingMark rest.isEmpty :: .verbatim "   " :: row) =
      pass rest.isEmpty ++ ("   ".toList ++ row.chars) := by
    intro row
    rw [Phrase.chars_cons, chars_passingMark, Phrase.chars_cons]
    rfl
  simp only [Branches.lines, Branches.rows, List.map_cons, List.map_append, List.map_map,
    Function.comp_def, hrow, List.cons_append, Phrase.chars_cons, chars_branchMark,
    chars_passingMark, Phrase.chars_append, Phrase.chars_text]
  rfl

end Lines

/-! ### What can be told apart -/

mutual

/-- No name has a space or a colon in it, and nothing breaks a line. -/
def Outline.Readable : Outline → Prop
  | .leaf label => '\n' ∉ label.chars
  | .branching label branches => '\n' ∉ label.chars ∧ branches.Readable

def Branches.Readable : Branches → Prop
  | .nil => True
  | .cons name outline rest =>
    (' ' ∉ name.chars ∧ ':' ∉ name.chars ∧ '\n' ∉ name.chars) ∧ outline.Readable ∧ rest.Readable

end

mutual

/-- Two outlines have the same shape and the same texts in it. -/
def Outline.Alike : Outline → Outline → Prop
  | .leaf label, .leaf label' => label.chars = label'.chars
  | .branching label branches, .branching label' branches' =>
    label.chars = label'.chars ∧ branches.Alike branches'
  | _, _ => False

def Branches.Alike : Branches → Branches → Prop
  | .nil, .nil => True
  | .cons name outline rest, .cons name' outline' rest' =>
    name.chars = name'.chars ∧ outline.Alike outline' ∧ rest.Alike rest'
  | _, _ => False

end

/-- The name of a branch ends at the first space or colon. -/
theorem name_inj {name name' : Phrase} {c c' : Char} {more more' : List Char}
    (hname : ' ' ∉ name.chars ∧ ':' ∉ name.chars ∧ '\n' ∉ name.chars)
    (hname' : ' ' ∉ name'.chars ∧ ':' ∉ name'.chars ∧ '\n' ∉ name'.chars)
    (hc : c = ' ' ∨ c = ':') (hc' : c' = ' ' ∨ c' = ':')
    (h : name.chars ++ c :: more = name'.chars ++ c' :: more') :
    name.chars = name'.chars ∧ c = c' ∧ more = more' := by
  have hrun : ∀ {cs : List Char}, ' ' ∉ cs ∧ ':' ∉ cs ∧ '\n' ∉ cs →
      ∀ d ∈ cs, decide (d ≠ ' ' ∧ d ≠ ':') = true := fun hcs d hd =>
    decide_eq_true ⟨ne_of_mem_of_not_mem hd hcs.1, ne_of_mem_of_not_mem hd hcs.2.1⟩
  have hstop : ∀ {d : Char}, d = ' ' ∨ d = ':' → decide (d ≠ ' ' ∧ d ≠ ':') = false := by
    rintro d (rfl | rfl) <;> rfl
  exact append_cons_inj_of_stop h (hrun hname) (hrun hname') (hstop hc) (hstop hc')

/-- The first row of branches begins a branch. -/
theorem not_passesBy_head (b : Branches) (line : List Char) (h : b.lines.head? = some line) :
    passesBy line = false := by
  have hedge : ∀ isLast more, passesBy (edge isLast ++ more) = false := by
    intro isLast more
    cases isLast <;> rfl
  match b with
  | .nil => cases h
  | .cons name (.leaf label) rest =>
    rw [lines_cons_leaf] at h
    cases h
    exact hedge _ _
  | .cons name (.branching label branches) rest =>
    rw [lines_cons_branching] at h
    cases h
    exact hedge _ _

theorem passesBy_pass (isLast : Bool) (more : List Char) :
    passesBy (pass isLast ++ more) = true := by
  cases isLast <;> rfl

/-- **Branches are told by their rows.** -/
theorem Branches.alike_of_lines : (b b' : Branches) → b.Readable → b'.Readable →
    b.lines = b'.lines → b.Alike b'
  | .nil, .nil, _, _, _ => trivial
  | .nil, .cons name' (.leaf label') rest', _, _, h => by
    rw [lines_cons_leaf] at h
    cases h
  | .nil, .cons name' (.branching label' branches') rest', _, _, h => by
    rw [lines_cons_branching] at h
    cases h
  | .cons name (.leaf label) rest, .nil, _, _, h => by
    rw [lines_cons_leaf] at h
    cases h
  | .cons name (.branching label branches) rest, .nil, _, _, h => by
    rw [lines_cons_branching] at h
    cases h
  | .cons name (.leaf label) rest, .cons name' (.leaf label') rest', hb, hb', h => by
    rw [lines_cons_leaf, lines_cons_leaf] at h
    obtain ⟨hfirst, hrest⟩ := List.cons.inj h
    obtain ⟨_, hrow⟩ := List.append_inj hfirst rfl
    obtain ⟨hname, _, hlabel⟩ := name_inj hb.1 hb'.1 (.inl rfl) (.inl rfl) hrow
    have hlabel : label.chars = label'.chars := by simpa using hlabel
    exact ⟨hname, hlabel, rest.alike_of_lines rest' hb.2.2 hb'.2.2 hrest⟩
  | .cons name (.leaf label) rest, .cons name' (.branching label' branches') rest', hb, hb', h => by
    rw [lines_cons_leaf, lines_cons_branching] at h
    obtain ⟨_, hrow⟩ := List.append_inj (List.cons.inj h).1 rfl
    obtain ⟨_, hmark, _⟩ := name_inj hb.1 hb'.1 (.inl rfl) (.inr rfl) hrow
    cases hmark
  | .cons name (.branching label branches) rest, .cons name' (.leaf label') rest', hb, hb', h => by
    rw [lines_cons_leaf, lines_cons_branching] at h
    obtain ⟨_, hrow⟩ := List.append_inj (List.cons.inj h).1 rfl
    obtain ⟨_, hmark, _⟩ := name_inj hb.1 hb'.1 (.inr rfl) (.inl rfl) hrow
    cases hmark
  | .cons name (.branching label branches) rest, .cons name' (.branching label' branches') rest',
      hb, hb', h => by
    rw [lines_cons_branching, lines_cons_branching] at h
    obtain ⟨hfirst, hmore⟩ := List.cons.inj h
    obtain ⟨hedge, hrow⟩ := List.append_inj hfirst rfl
    obtain ⟨hname, _, _⟩ := name_inj hb.1 hb'.1 (.inr rfl) (.inr rfl) hrow
    obtain ⟨hsecond, hmore⟩ := List.cons.inj hmore
    have hlabel : label.chars = label'.chars := by
      obtain ⟨_, hrow⟩ := List.append_inj hsecond rfl
      exact List.append_cancel_left hrow
    rw [edge_injective hedge] at hmore
    -- The rows of the branches go on to the next row that begins a branch.
    obtain ⟨hbranches, hrest⟩ := append_inj_of_stop (p := passesBy) hmore
      (List.forall_mem_map.2 fun line _ => passesBy_pass _ _)
      (List.forall_mem_map.2 fun line _ => passesBy_pass _ _)
      (not_passesBy_head rest) (not_passesBy_head rest')
    have hbranches : branches.lines = branches'.lines :=
      List.map_injective_iff.2 (fun _ _ heq =>
        List.append_cancel_left (List.append_cancel_left heq)) hbranches
    exact ⟨hname, ⟨hlabel, branches.alike_of_lines branches' hb.2.1.2 hb'.2.1.2 hbranches⟩,
      rest.alike_of_lines rest' hb.2.2 hb'.2.2 hrest⟩

/-! ### Drawings -/

theorem feed_not_mem_edge (isLast : Bool) : '\n' ∉ edge isLast := by
  cases isLast <;> decide

theorem feed_not_mem_pass (isLast : Bool) : '\n' ∉ pass isLast := by
  cases isLast <;> decide

/-- A row of branches stands on one line. -/
theorem Branches.feed_not_mem_lines : (b : Branches) → b.Readable → ∀ line ∈ b.lines, '\n' ∉ line
  | .nil, _ => by simp [lines_nil]
  | .cons name (.leaf label) rest, h => by
    obtain ⟨hname, hlabel, hrest⟩ := h
    have hlabel : '\n' ∉ label.chars := hlabel
    rw [lines_cons_leaf]
    refine List.forall_mem_cons.2 ⟨?_, rest.feed_not_mem_lines hrest⟩
    simp [feed_not_mem_edge, hname.2.2, hlabel]
  | .cons name (.branching label branches) rest, h => by
    obtain ⟨hname, ⟨hlabel, hbranches⟩, hrest⟩ := h
    rw [lines_cons_branching]
    refine List.forall_mem_cons.2 ⟨?_, List.forall_mem_cons.2 ⟨?_, ?_⟩⟩
    · simp [feed_not_mem_edge, hname.2.2]
    · simp [feed_not_mem_edge, feed_not_mem_pass, hlabel]
    · refine List.forall_mem_append.2 ⟨List.forall_mem_map.2 fun line hline => ?_, ?_⟩
      · simp [feed_not_mem_pass, branches.feed_not_mem_lines hbranches line hline]
      · exact rest.feed_not_mem_lines hrest

theorem Outline.feed_not_mem_lines (o : Outline) (h : o.Readable) :
    ∀ line ∈ o.lines, '\n' ∉ line := by
  cases o with
  | leaf label =>
    have hlabel : '\n' ∉ label.chars := h
    have hline : (Outline.leaf label).lines = [edge true ++ label.chars] := by
      simp only [lines, rows, List.map_cons, List.map_nil, Phrase.chars_cons, chars_branchMark]
    rw [hline]
    simp [feed_not_mem_edge, hlabel]
  | branching label branches =>
    obtain ⟨hlabel, hbranches⟩ := h
    rw [lines_branching]
    refine List.forall_mem_cons.2 ⟨by simp [feed_not_mem_edge, hlabel], ?_⟩
    refine List.forall_mem_map.2 fun line hline => ?_
    simp [branches.feed_not_mem_lines hbranches line hline]

/-- The lines of a drawing are the rows of the outline. -/
theorem Outline.fedLines_drawing (o : Outline) (h : o.Readable) :
    fedLines (Phrase.joined "\n" o.rows).chars = o.lines := by
  have hne : o.lines ≠ [] := by cases o <;> simp [lines, rows]
  rw [Phrase.chars_joined]
  exact fedLines_intercalate hne (o.feed_not_mem_lines h)

/-- **Trees that are drawn in the same way are alike.** -/
theorem alike_of_drawings {label label' : Phrase} {branches branches' : Branches}
    (h : (Outline.branching label branches).Readable)
    (h' : (Outline.branching label' branches').Readable)
    (hsame : (Phrase.joined "\n" (Outline.branching label branches).rows).chars =
      (Phrase.joined "\n" (Outline.branching label' branches').rows).chars) :
    (Outline.branching label branches).Alike (.branching label' branches') := by
  have hlines := congrArg fedLines hsame
  rw [Outline.fedLines_drawing _ h, Outline.fedLines_drawing _ h', lines_branching,
    lines_branching] at hlines
  obtain ⟨hfirst, hothers⟩ := List.cons.inj hlines
  have hbranches : branches.lines = branches'.lines :=
    List.map_injective_iff.2 (fun _ _ heq => List.append_cancel_left heq) hothers
  exact ⟨List.append_cancel_left hfirst, branches.alike_of_lines branches' h.2 h'.2 hbranches⟩

end LetPrint
