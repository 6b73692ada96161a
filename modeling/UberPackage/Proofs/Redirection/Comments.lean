/-
  Redirecting puts nothing but its notes into comments.

  A text and its result are read side by side (`Tracks`).  Where every change is quiet
  (`Piece.Quiet`), the two readings differ only between a line comment and the end of its line,
  where there are blanks alone; so what stays is in a comment of the result exactly when it is in
  one of the text (`Script.Quiet.keepsComments`).

  Redirections are quiet when their literal does not end the note early (`Redirection.Harmless`),
  and so redirecting keeps the comments of a text (`Layout.redirectTree_keepsComments`).  A literal
  that goes on behind a line end spills the rest of itself into the code
  (`Layout.redirectTree_spills`).
-/
import UberPackage.Proofs.Redirection.Note

namespace UberPackage

open TypeScript

namespace Redirection

/-! ## Reading a text and its result side by side -/

theorem step_of_isSpace {opens : Nat → Bool} {s : Scanner} {c : Char} (hs : s.zone = .code)
    (hc : isSpace c = true) : s.step opens c = s := by
  have hne : ∀ d : Char, isSpace d = false → c ≠ d := by
    rintro d hd rfl
    rw [hc] at hd
    cases hd
  simp [Scanner.step, hs, Scanner.inCode, Scanner.enter_zone hs, hne '/' rfl,
    hne '\'' rfl, hne '"' rfl,
    hne '`' rfl, hne '\x7b' rfl, hne '\x7d' rfl]

end Redirection

open Redirection

/-- Where reading a text has come to `s`, reading its result has come to the same, or it is in a
line comment with nothing but blanks left of the line. -/
inductive Tracks (s : Scanner) (rest : List Char) : Scanner → Prop where
  | same : Tracks s rest s
  | ahead (hs : s.zone = .code) (hrest : isBlankRest rest = true) : Tracks s rest (s.enter .line)

namespace Tracks

variable {opens : Nat → Bool} {s t : Scanner} {c : Char} {rest : List Char}

theorem isSpace_of_ahead (hrest : isBlankRest (c :: rest) = true) : isSpace c = true := by
  rw [isBlankRest, Bool.or_eq_true, Bool.and_eq_true, beq_iff_eq] at hrest
  rcases hrest with rfl | h
  · rfl
  · exact h.1

/-- Blanks are passed alike, and at the line's end the comment ends. -/
theorem step (h : Tracks s (c :: rest) t) : Tracks (s.step opens c) rest (t.step opens c) := by
  cases h with
  | same => exact .same
  | ahead hs hrest =>
    rw [step_of_isSpace hs (isSpace_of_ahead hrest)]
    by_cases hend : isLineEnd c = true
    · rw [Scanner.step_line hs, if_pos hend]
      exact .same
    · rw [Scanner.step_line hs, if_neg hend]
      rw [isBlankRest, Bool.or_eq_true, Bool.and_eq_true, beq_iff_eq] at hrest
      refine .ahead hs (hrest.resolve_left ?_).2
      rintro rfl
      exact hend rfl

theorem read {xs : List Char} (h : Tracks s (xs ++ rest) t) :
    Tracks (s.read opens xs) rest (t.read opens xs) := by
  induction xs generalizing s t with
  | nil => exact h
  | cons c xs ih => exact ih h.step

/-- What comes next is in a comment of both or of neither, unless it is one of the blanks. -/
theorem inside {next? other? : Option Char} (h : Tracks s (c :: rest) t)
    (hnext : next? = other? ∨ (s.step opens c).zone = .code ∨ (s.step opens c).zone = .line) :
    s.inside opens c next? = t.inside opens c other? ∨
      (isLineEnd c = false ∧ isBlankRest (c :: rest) = true) := by
  cases h with
  | same => exact Or.inl (Scanner.inside_congr hnext)
  | ahead hs hrest =>
    by_cases hend : isLineEnd c = true
    · have hcode : s.step opens c = s := step_of_isSpace hs (isSpace_of_ahead hrest)
      have hline : (s.enter .line).step opens c = s := by rw [Scanner.step_line hs, if_pos hend]
      left
      simp only [Scanner.inside, hcode, hline, hs, Scanner.zone_enter]
      rfl
    · exact Or.inr ⟨Bool.eq_false_iff.mpr hend, hrest⟩

end Tracks

/-! ## Quiet changes -/

/-- A piece that opens and closes what it opens: read from `s`, with the rest of the source behind
it, it leaves all other characters in the comments that they are in. -/
inductive Piece.Quiet (s : Scanner) (rest : List Char) : Piece → Prop where
  | keep (cs : List Char) : Quiet s rest (.keep cs)
  /-- One string in the place of another. -/
  | literal {old new : List Char} (hs : s.zone = .code) (hold : IsString old)
      (hnew : IsString new) :
      Quiet s rest (.change old new)
  /-- A note that lengthens a line comment. -/
  | within {note : List Char} (hs : s.zone = .line) (h : ∀ c ∈ note, isLineEnd c = false) :
      Quiet s rest (.change [] note)
  /-- A note to the end of a blank line. -/
  | line {remark : List Char} (hs : s.zone = .code) (hrest : isBlankRest rest = true)
      (h : ∀ c ∈ remark, isLineEnd c = false) :
      Quiet s rest (.change [] (' ' :: '/' :: '/' :: remark))
  /-- A note that is closed. -/
  | block {remark : List Char} (hs : s.zone = .code) (hrest : isBlankRest rest = false)
      (h : ¬ Scanner.closing <:+: remark) :
      Quiet s rest (.change [] (' ' :: '/' :: '*' :: (remark ++ Scanner.closing)))

theorem TypeScript.IsString.not_isBlankRest {cs : List Char} (h : IsString cs) (rest : List Char) :
    isBlankRest (cs ++ rest) = false := by
  obtain ⟨quote, body, hquote | hquote, -, rfl⟩ := h <;> rw [hquote] <;> rfl

/-- The two readings stay together over a quiet piece. -/
theorem Tracks.piece {opens : Nat → Bool} {s t : Scanner} {p : Piece} {rest : List Char}
    (h : Tracks s (p.before ++ rest) t) (hp : p.Quiet s rest) :
    Tracks (s.read opens p.before) rest (t.read opens p.after) := by
  cases hp with
  | keep cs => exact h.read
  | literal hs hold hnew =>
    cases h with
    | same =>
      rw [Piece.before, Piece.after, Scanner.read_string hold hs, Scanner.read_string hnew hs]
      exact .same
    | ahead _ hrest =>
      rw [Piece.before, hold.not_isBlankRest] at hrest
      cases hrest
  | within hs hnote =>
    cases h with
    | same =>
      rw [Piece.before, Piece.after, Scanner.read_nil, Scanner.read_line hs hnote]
      exact .same
    | ahead hcode _ =>
      rw [hs] at hcode
      cases hcode
  | line hs hrest hremark =>
    have hblank : s.step opens ' ' = s := step_of_isSpace hs rfl
    rw [Piece.before, Piece.after, Scanner.read_nil]
    cases h with
    | same =>
      rw [Scanner.read_cons, hblank, Scanner.read_openLine hs hremark]
      exact .ahead hs hrest
    | ahead _ _ =>
      rw [Scanner.read_line rfl ?_]
      · exact .ahead hs hrest
      · simpa [isLineEnd] using hremark
  | block hs hrest hremark =>
    have hblank : s.step opens ' ' = s := step_of_isSpace hs rfl
    cases h with
    | same =>
      rw [Piece.before, Piece.after, Scanner.read_nil, Scanner.read_cons, hblank,
        Scanner.read_block hremark hs]
      exact .same
    | ahead _ hblankRest =>
      rw [Piece.before, List.nil_append, hrest] at hblankRest
      cases hblankRest

namespace Script

/-- Every piece of the script is quiet, from where reading its source has come to. -/
def Quiet (opens : Nat → Bool) : Scanner → Script → Prop
  | _, [] => True
  | s, p :: q => p.Quiet s (before q) ∧ Quiet opens (s.read opens p.before) q

/-- What stays is in a comment of the result exactly when it is in one of the source.  Only the
blanks at the end of a line may come into a comment that is put before them. -/
def KeepsComments (opens : Nat → Bool) (s : Script) : Prop :=
  ∀ p xs c ys q, s = p ++ .keep (xs ++ c :: ys) :: q →
    (InComment opens (before p ++ xs) c (ys ++ before q) ↔
        InComment opens (after p ++ xs) c (ys ++ after q)) ∨
      (isLineEnd c = false ∧ isBlankRest (c :: (ys ++ before q)) = true)

variable {opens : Nat → Bool} {s t : Scanner}

/-- What comes next is the same on both sides, unless a change comes, and that comes in code or in a
line comment. -/
theorem Quiet.head {q : Script} (h : Quiet opens s q) :
    (before q).head? = (after q).head? ∨ s.zone = .code ∨ s.zone = .line := by
  induction q generalizing s with
  | nil => exact Or.inl rfl
  | cons p q ih =>
    obtain ⟨hp, hq⟩ := h
    cases hp with
    | keep cs =>
      cases cs with
      | nil => exact ih hq
      | cons c cs => exact Or.inl rfl
    | literal hs _ _ => exact Or.inr (Or.inl hs)
    | within hs _ => exact Or.inr (Or.inr hs)
    | line hs _ _ => exact Or.inr (Or.inl hs)
    | block hs _ _ => exact Or.inr (Or.inl hs)

theorem Quiet.inside {p : Script} {xs ys : List Char} {c : Char} {q : Script}
    (h : Quiet opens s (p ++ .keep (xs ++ c :: ys) :: q))
    (htracks : Tracks s (before (p ++ .keep (xs ++ c :: ys) :: q)) t) :
    (s.read opens (before p ++ xs)).inside opens c (ys ++ before q).head? =
        (t.read opens (after p ++ xs)).inside opens c (ys ++ after q).head? ∨
      (isLineEnd c = false ∧ isBlankRest (c :: (ys ++ before q)) = true) := by
  induction p generalizing s t with
  | nil =>
    rw [List.nil_append, before_cons, Piece.before, List.append_assoc] at htracks
    refine Tracks.inside htracks.read ?_
    cases ys with
    | cons d ys => exact Or.inl rfl
    | nil =>
      have hq := h.2.head
      rwa [Piece.before, Scanner.read_append] at hq
  | cons piece p ih =>
    rw [List.cons_append, before_cons] at htracks
    have hrest := ih h.2 (htracks.piece h.1)
    rwa [← Scanner.read_append, ← Scanner.read_append, ← List.append_assoc,
      ← List.append_assoc] at hrest

/-- A quiet script keeps all comments as they are. -/
theorem Quiet.keepsComments {q : Script} (h : Quiet opens {} q) : q.KeepsComments opens := by
  intro p xs c ys r he
  subst he
  exact (h.inside .same).imp_left fun hsame => by rw [InComment, InComment, hsame]

end Script

namespace Redirection

/-! ## Redirections that are quiet -/

/-- The note as it is put behind the statement. -/
def noteChars (cs : List Char) (r : Redirection) : List Char :=
  (note r.quoted (Utf8.encode cs) r.reference.statement.stop).toChars

/-- The text behind the statement. -/
def rest (cs : List Char) (r : Redirection) : List Char := Utf8.after r.reference.statement.stop cs

/-- What reading a text up to the statement's end has come to. -/
def zoneBehind (opens : Nat → Bool) (cs : List Char) (r : Redirection) : Zone :=
  (Scanner.read opens {} (Utf8.before r.reference.statement.stop cs)).zone

/-- The note is a comment to the end of the line where nothing but blanks is left of it, and one
that is closed elsewhere.  The one has the line ends of the literal, and the other has a mark that
closes it before its end when the literal has one. -/
structure Noted (cs : List Char) (r : Redirection) : Prop where
  line : isBlankRest (r.rest cs) = true → r.noteChars cs = lineNote (r.reference.literal.chars cs) ∧
    ((∃ c ∈ r.noteChars cs, isLineEnd c = true) ↔
      ∃ c ∈ r.reference.literal.chars cs, isLineEnd c = true)
  block : isBlankRest (r.rest cs) = false →
    r.noteChars cs = blockBody (r.reference.literal.chars cs) ++ Scanner.closing ∧
      (Scanner.closing <:+: blockBody (r.reference.literal.chars cs) ↔
        Scanner.closing <:+: r.reference.literal.chars cs)

/-- What is taken for granted of a statement in a text: its literal is a string in code, and it ends
in code or with a comment that goes to the end of the line. -/
structure Reads (opens : Nat → Bool) (cs : List Char) (r : Redirection) : Prop where
  code : (Scanner.read opens {} (Utf8.before r.reference.literal.start cs)).zone = .code
  string : IsString (r.reference.literal.chars cs)
  behind : r.zoneBehind opens cs = .code ∨ r.zoneBehind opens cs = .line

/-- The new literal is a string again, and the old one does not end the comment that it comes
into. -/
structure Harmless (opens : Nat → Bool) (cs : List Char) (r : Redirection) : Prop where
  string : IsString r.literal.toChars
  line : isBlankRest (r.rest cs) = true ∨ r.zoneBehind opens cs = .line →
    ∀ c ∈ r.reference.literal.chars cs, isLineEnd c = false
  block : isBlankRest (r.rest cs) = false → r.zoneBehind opens cs = .code →
    ¬ Scanner.closing <:+: r.reference.literal.chars cs

variable {layout : Layout} {cs : List Char} {tree : Node} {directory : Path} {opens : Nat → Bool}
variable {r : Redirection}

/-- The note of a redirection, where its statement ends. -/
theorem noteChars_eq (hr : r ∈ layout.redirections cs tree directory) {xs ys : List Char}
    (he : cs = xs ++ ys) (hx : Utf8.size xs = r.reference.statement.stop) : r.noteChars cs =
      if isBlankRest ys then lineNote (r.reference.literal.chars cs)
      else blockBody (r.reference.literal.chars cs) ++ Scanner.closing := by
  rw [noteChars, (mem_redirections hr).2, ← hx]
  generalize r.reference.literal.chars cs = literal
  rw [he, note_eq]

/-- A note has the line ends of its literal, whichever form it has. -/
theorem exists_isLineEnd_noteChars (hr : r ∈ layout.redirections cs tree directory)
    {xs ys : List Char} (he : cs = xs ++ ys) (hx : Utf8.size xs = r.reference.statement.stop) :
    (∃ c ∈ r.noteChars cs, isLineEnd c = true) ↔
      ∃ c ∈ r.reference.literal.chars cs, isLineEnd c = true := by
  rw [noteChars_eq hr he hx]
  split
  · exact exists_isLineEnd_lineNote _
  · exact exists_isLineEnd_blockNote _

theorem rest_eq {xs ys : List Char} (he : cs = xs ++ ys)
    (hx : Utf8.size xs = r.reference.statement.stop) : r.rest cs = ys := by
  rw [rest, ← hx, he, Utf8.after_size_append]

theorem noted (h : tree.Shaped cs) (hr : r ∈ layout.redirections cs tree directory) :
    r.Noted cs := by
  obtain ⟨xs, ys, he, hx⟩ :=
    (h.boundaries _ (Node.occurs_of_mem_outer (statement_outer h (mem_redirections hr).1))).2
  have hnote := noteChars_eq hr he hx
  rw [← rest_eq he hx] at hnote
  constructor
  · intro hblank
    rw [if_pos hblank] at hnote
    exact ⟨hnote, exists_isLineEnd_noteChars hr he hx⟩
  · intro hblank
    rw [if_neg (Bool.eq_false_iff.mp hblank)] at hnote
    exact ⟨hnote, closing_infix_blockBody _⟩

/-- One string takes the place of another. -/
theorem quiet_literal (hreads : r.Reads opens cs) (hharmless : r.Harmless opens cs)
    {xs ys : List Char} (he : cs = xs ++ ys) (hx : Utf8.size xs = r.reference.literal.start)
    (rest : List Char) :
    (Piece.change (r.reference.literal.chars cs) r.literal.toChars).Quiet
      (Scanner.read opens {} xs) rest := by
  have hcode := hreads.code
  rw [← hx, he, Utf8.before_size_append] at hcode
  exact .literal hcode hreads.string hharmless.string

/-- The note is closed where something is left of the line, and goes on to its end elsewhere. -/
theorem quiet_note (hr : r ∈ layout.redirections cs tree directory) (hreads : r.Reads opens cs)
    (hharmless : r.Harmless opens cs) {xs ys : List Char} (he : cs = xs ++ ys)
    (hx : Utf8.size xs = r.reference.statement.stop) :
    (Piece.change [] (r.noteChars cs)).Quiet (Scanner.read opens {} xs) ys := by
  have hrest := rest_eq he hx
  have hzone : r.zoneBehind opens cs = (Scanner.read opens {} xs).zone := by
    rw [zoneBehind, ← hx, he, Utf8.before_size_append]
  have hnoted := noteChars_eq hr he hx
  have hends : (∀ c ∈ r.reference.literal.chars cs, isLineEnd c = false) →
      ∀ c ∈ r.noteChars cs, isLineEnd c = false := by
    intro hplain c hc
    rw [← Bool.not_eq_true]
    intro hend
    obtain ⟨d, hd, hend'⟩ := (exists_isLineEnd_noteChars hr he hx).mp ⟨c, hc, hend⟩
    rw [hplain d hd] at hend'
    cases hend'
  rcases hreads.behind with hcode | hline
  · cases hblank : isBlankRest ys with
    | true =>
      have hplain := hends (hharmless.line (Or.inl (hrest ▸ hblank)))
      rw [hnoted, if_pos hblank] at hplain ⊢
      exact .line (hzone ▸ hcode) hblank fun c hc => hplain c (by simp [lineNote, hc])
    | false =>
      have hopen := hharmless.block (hrest ▸ hblank) hcode
      rw [hnoted, if_neg (Bool.eq_false_iff.mp hblank)]
      rw [← closing_infix_blockBody] at hopen
      refine .block (hzone ▸ hcode) hblank fun hc => hopen (hc.trans ?_)
      exact (List.suffix_append [' ', '/', '*'] _).isInfix
  · exact .within (hzone ▸ hline) (hends (hharmless.line (Or.inr hline)))

/-- A script whose changes are those of harmless redirections is quiet. -/
theorem quiet_script (hreads : ∀ r ∈ layout.redirections cs tree directory, r.Reads opens cs)
    (hharmless : ∀ r ∈ layout.redirections cs tree directory, r.Harmless opens cs)
    {xs : List Char} {q : Script} (he : cs = xs ++ q.before)
    (hchanges : ∀ c ∈ Script.changesFrom (Utf8.size xs) q,
      ∃ r ∈ layout.redirections cs tree directory, c ∈ r.changes cs) :
    Script.Quiet opens (Scanner.read opens {} xs) q := by
  induction q generalizing xs with
  | nil => trivial
  | cons p q ih =>
    rw [Script.before_cons, ← List.append_assoc] at he
    have hrest : ∀ c ∈ Script.changesFrom (Utf8.size (xs ++ p.before)) q,
        ∃ r ∈ layout.redirections cs tree directory, c ∈ r.changes cs := fun c hc => by
      rw [Utf8.size_append] at hc
      cases p with
      | keep kept => exact hchanges c hc
      | change old new => exact hchanges c (List.mem_cons_of_mem _ hc)
    refine ⟨?_, by rw [← Scanner.read_append]; exact ih he hrest⟩
    cases p with
    | keep kept => exact .keep kept
    | change old new =>
      obtain ⟨r, hr, hc⟩ := hchanges _ List.mem_cons_self
      rw [Piece.before, List.append_assoc] at he
      rcases List.mem_pair.mp hc with hc | hc
      · obtain ⟨hx, rfl, rfl⟩ := Change.mk.inj hc
        exact quiet_literal (hreads r hr) (hharmless r hr) he hx _
      · obtain ⟨hx, rfl, rfl⟩ := Change.mk.inj hc
        exact quiet_note hr (hreads r hr) (hharmless r hr) he hx

/-! ## Checking redirections -/

/-- What is taken for granted of a statement, as a computation. -/
def isRead (opens : Nat → Bool) (cs : List Char) (r : Redirection) : Bool :=
  (Scanner.read opens {} (Utf8.before r.reference.literal.start cs)).zone == .code &&
    isString (r.reference.literal.chars cs) &&
    (r.zoneBehind opens cs == .code || r.zoneBehind opens cs == .line)

/-- What suffices for a harmless redirection, as a computation. -/
def isHarmless (opens : Nat → Bool) (cs : List Char) (r : Redirection) : Bool :=
  isString r.literal.toChars &&
    (!(isBlankRest (r.rest cs) || r.zoneBehind opens cs == .line) ||
      (r.reference.literal.chars cs).all (!isLineEnd ·)) &&
    (isBlankRest (r.rest cs) || (r.reference.literal.chars cs).all (· != '*'))

theorem reads_of_check (h : r.isRead opens cs = true) : r.Reads opens cs := by
  simp only [isRead, Bool.and_eq_true, Bool.or_eq_true, beq_iff_eq] at h
  exact ⟨h.1.1, isString_of_check h.1.2, h.2⟩

theorem harmless_of_check (h : r.isHarmless opens cs = true) : r.Harmless opens cs := by
  simp only [isHarmless, Bool.and_eq_true, Bool.or_eq_true, Bool.not_eq_true', Bool.or_eq_false_iff,
    beq_eq_false_iff_ne, bne_iff_ne, List.all_eq_true] at h
  obtain ⟨⟨hstring, hline⟩, hblock⟩ := h
  refine ⟨isString_of_check hstring, fun hends => hline.resolve_left ?_,
    fun hblank _ hclosing => ?_⟩
  · rintro ⟨hblank, hzone⟩
    rcases hends with h | h
    · rw [hblank] at h
      cases h
    · exact hzone h
  · rw [hblank] at hblock
    exact hblock.resolve_left Bool.false_ne_true '*' (hclosing.subset List.mem_cons_self) rfl

end Redirection

namespace Layout

/-! ## The main result -/

/-- The script makes the redirections of a text, and these bytes are its result. -/
structure Redirects (layout : Layout) (cs : List Char) (tree : Node) (directory : Path)
    (result : Bytes) (s : Script) : Prop where
  before : s.before = cs
  changes :
    s.changes.Perm ((layout.redirections cs tree directory).flatMap (Redirection.changes cs))
  after : Utf8.encode s.after = result

theorem exists_redirects {layout : Layout} {cs : List Char} {tree : Node}
    {directory : Path} {file : Text} {result : Bytes} (h : tree.Shaped cs)
    (hresult : (layout.redirectTree (Utf8.encode cs) tree directory file).2 = .ok result) :
    ∃ s, layout.Redirects cs tree directory result s := by
  rw [redirectTree_eq layout directory file h] at hresult
  split at hresult
  · obtain ⟨s, hs, hchanges, happly⟩ := Script.exists_of_apart cs _ (fun c hc => by
      obtain ⟨r, hr, hc⟩ := List.mem_flatMap.mp hc
      exact Redirection.changes_fit h hr c hc) (changes_apart layout directory h)
    exact ⟨s, hs, hchanges, happly.symm.trans (Except.ok.inj hresult)⟩
  · cases hresult

/-- A script with the changes of the redirections, all at different places, gives the result. -/
theorem redirectTree_of_script {layout : Layout} {cs : List Char} {tree : Node}
    {directory : Path} {s : Script} (file : Text) (h : tree.Shaped cs)
    (hchars : (layout.redirections cs tree directory).all fun r => decide r.replacement.IsChars)
    (hbefore : s.before = cs)
    (hchanges : s.changes = (layout.redirections cs tree directory).flatMap
      (Redirection.changes cs))
    (hstarts : s.edits.Pairwise fun a b => a.start < b.start) :
    (layout.redirectTree (Utf8.encode cs) tree directory file).2 = .ok (Utf8.encode s.after) := by
  have hall : ∀ r ∈ layout.redirections cs tree directory, r.replacement.IsChars := fun r hr =>
    of_decide_eq_true (List.all_eq_true.mp hchars r hr)
  rw [redirectTree_eq layout directory file h, if_pos hall, ← hchanges, ← hbefore]
  exact congrArg Except.ok (Script.applyAll_edits hstarts)

/-- **A note is a comment, and nothing else becomes one.** Every redirection of a shaped tree is
noted to the end of its line or in a comment that is closed; all that can end the note early is a
line end or a closing mark in the literal.  If none does, and the new literals are strings, what
stays of the text is in a comment of the result exactly when it was in one before, whatever the
slashes in it stand for. -/
theorem redirectTree_keepsComments (opens : Nat → Bool) (layout : Layout)
    (cs : List Char) (tree : Node) (directory : Path) (file : Text) (result : Bytes)
    (h : tree.Shaped cs)
    (hresult : (layout.redirectTree (Utf8.encode cs) tree directory file).2 = .ok result) :
    (∀ r ∈ layout.redirections cs tree directory, r.Noted cs) ∧
      (∃ s, layout.Redirects cs tree directory result s) ∧
      ((∀ r ∈ layout.redirections cs tree directory, r.Reads opens cs ∧ r.Harmless opens cs) →
        ∀ s, layout.Redirects cs tree directory result s → s.KeepsComments opens) := by
  refine ⟨fun r hr => Redirection.noted h hr, exists_redirects h hresult, fun hall s hs => ?_⟩
  have hquiet : Script.Quiet opens (Scanner.read opens {} []) s := by
    refine Redirection.quiet_script (fun r hr => (hall r hr).1)
      (fun r hr => (hall r hr).2) hs.before.symm ?_
    exact fun c hc => List.mem_flatMap.mp (hs.changes.mem_iff.mp hc)
  exact hquiet.keepsComments

namespace Mixed

/-- Two imports, of which one has code behind it on its line. -/
def text : List Char := "import 'é';f()\nimport 'é'".toList

def tree : Node :=
  Sample.phrase .program 0 27
    [Sample.phrase .importStatement 0 12
      [.leaf (.word "import") 0 6, (Sample.phrase .string 7 11 []).withRole (some .source),
        .leaf (.mark ";") 11 12],
      Sample.phrase .expressionStatement 12 15 [],
      Sample.phrase .importStatement 16 27
        [.leaf (.word "import") 16 22, (Sample.phrase .string 23 27 []).withRole (some .source)]]

/-- The text with its imports redirected. -/
def script : Script :=
  [.keep "import ".toList, .change "'é'".toList "'../e/index'".toList, .keep ";".toList,
    .change [] " /* Automatically re-written from 'é' */".toList, .keep "f()\nimport ".toList,
    .change "'é'".toList "'../e/index'".toList,
    .change [] " // Automatically re-written from 'é'".toList]

theorem redirects :
    Sample.layout.Redirects text tree Sample.directory (Utf8.encode script.after) script where
  before := by decide +kernel
  changes := .of_eq (by decide +kernel)
  after := rfl

theorem result : (Sample.layout.redirectTree (Utf8.encode text) tree Sample.directory noFile).2 =
    .ok (Utf8.encode script.after) :=
  redirectTree_of_script noFile (Node.shaped_of_check (by decide)) (by decide +kernel)
    (by decide +kernel) (by decide +kernel) (by decide +kernel)

end Mixed

theorem redirectTree_keepsComments_sample :
    (Sample.layout.redirectTree (Utf8.encode Mixed.text) Mixed.tree Sample.directory noFile).2 =
        .ok (Utf8.encode Mixed.script.after) ∧
      Mixed.script.KeepsComments fun _ => false := by
  have hshaped : Mixed.tree.Shaped Mixed.text := Node.shaped_of_check (by decide)
  have hall : (Sample.layout.redirections Mixed.text Mixed.tree Sample.directory).all (fun r =>
      r.isRead (fun _ => false) Mixed.text && r.isHarmless (fun _ => false) Mixed.text) = true := by
    decide +kernel
  have h := redirectTree_keepsComments (fun _ => false) Sample.layout Mixed.text Mixed.tree
    Sample.directory noFile _ hshaped Mixed.result
  refine ⟨Mixed.result, h.2.2 (fun r hr => ?_) Mixed.script Mixed.redirects⟩
  have hr := List.all_eq_true.mp hall r hr
  rw [Bool.and_eq_true] at hr
  exact ⟨Redirection.reads_of_check hr.1, Redirection.harmless_of_check hr.2⟩

namespace Spill

/-- An import whose literal goes on behind the end of its line, and a call. -/
def text : List Char := "import 'é/\\\n/*';\nf()/**/".toList

def tree : Node :=
  Sample.phrase .program 0 25
    [Sample.phrase .importStatement 0 17
      [.leaf (.word "import") 0 6, (Sample.phrase .string 7 16 []).withRole (some .source),
        .leaf (.mark ";") 16 17],
      Sample.phrase .expressionStatement 18 21 []]

/-- The text with its import redirected. -/
def script : Script :=
  [.keep "import ".toList, .change "'é/\\\n/*'".toList "'../e/\\\n/*'".toList, .keep ";".toList,
    .change [] " // Automatically re-written from 'é/\\\n/*'".toList, .keep "\nf()/**/".toList]

theorem redirects :
    Sample.layout.Redirects text tree Sample.directory (Utf8.encode script.after) script where
  before := by decide +kernel
  changes := .of_eq (by decide +kernel)
  after := rfl

theorem result : (Sample.layout.redirectTree (Utf8.encode text) tree Sample.directory noFile).2 =
    .ok (Utf8.encode script.after) :=
  redirectTree_of_script noFile (Node.shaped_of_check (by decide)) (by decide +kernel)
    (by decide +kernel) (by decide +kernel) (by decide +kernel)

end Spill

/-- A literal that goes on behind a line end brings the line end into the note.  What the note says
behind it is code, and here it opens a comment that hides the call. -/
theorem redirectTree_spills : ¬ ∀ (opens : Nat → Bool) (layout : Layout)
    (cs : List Char) (tree : Node) (directory : Path) (file : Text) (result : Bytes) (s : Script),
    tree.Shaped cs →
    (∀ r ∈ layout.redirections cs tree directory, r.Reads opens cs) →
    (layout.redirectTree (Utf8.encode cs) tree directory file).2 = .ok result →
    layout.Redirects cs tree directory result s → s.KeepsComments opens := by
  intro h
  have hshaped : Spill.tree.Shaped Spill.text := Node.shaped_of_check (by decide)
  have hall : (Sample.layout.redirections Spill.text Spill.tree Sample.directory).all
      (Redirection.isRead (fun _ => false) Spill.text) = true := by decide +kernel
  have hkeeps :=
    h (fun _ => false) Sample.layout Spill.text Spill.tree Sample.directory noFile _ Spill.script
    hshaped (fun r hr => Redirection.reads_of_check (List.all_eq_true.mp hall r hr)) Spill.result
      Spill.redirects
  rcases hkeeps (Spill.script.take 4) ['\n'] 'f' "()/**/".toList [] rfl with hiff | ⟨-, hblank⟩
  · have hsource : ¬ InComment (fun _ => false) (Script.before (Spill.script.take 4) ++ ['\n']) 'f'
        ("()/**/".toList ++ Script.before []) := by
      unfold InComment
      decide +kernel
    refine hsource (hiff.mpr ?_)
    unfold InComment
    decide +kernel
  · exact absurd hblank (by decide +kernel)

end Layout

end UberPackage
