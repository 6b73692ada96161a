/-
  Redirecting a text that is ASCII.

  A parser can hand over any tree, also one whose ranges have nothing to do with the text.  Bytes
  cut at such places need not be text any more, unless each byte is a character of its own.  So a
  text of ASCII characters can be redirected whatever its tree is, when the names and places of the
  merged tree are ASCII too (`Layout.redirectTree_ascii`), and so can a source file
  (`Assembly.Rules.redirected?_ascii`).
-/
import UberPackage.Proofs.Assembly.Mirror
import UberPackage.Proofs.Layout
import UberPackage.Proofs.Text.Slice

namespace UberPackage

/-! ## Texts and bytes -/

/-- Each unit is an ASCII character. -/
def Text.IsAscii (t : Text) : Prop := ∀ x ∈ t, x.point < 128

instance (t : Text) : Decidable t.IsAscii := inferInstanceAs (Decidable (∀ x ∈ t, _))

/-- Each byte is an ASCII character. -/
def Bytes.IsAscii (bytes : Bytes) : Prop := ∀ b ∈ bytes, b.toNat < 128

namespace Text

theorem isAscii_append {t u : Text} : (t ++ u : Text).IsAscii ↔ t.IsAscii ∧ u.IsAscii := by
  unfold IsAscii
  exact List.forall_mem_append

theorem IsAscii.of_subset {t u : Text} (h : u.IsAscii) (htu : t ⊆ u) : t.IsAscii :=
  fun x hx => h x (htu hx)

theorem IsAscii.exists_chars {t : Text} (h : t.IsAscii) : ∃ cs, t = ofChars cs := by
  refine isChars_iff.mp (isChars_iff_forall.mpr fun x hx => ?_)
  cases x with
  | char c => rfl
  | half i =>
    have hlt : 0xD800 + i.val < 128 := h _ hx
    omega

theorem isAscii_ofChars {cs : List Char} : (ofChars cs).IsAscii ↔ ∀ c ∈ cs, c.toNat < 128 :=
  List.forall_mem_map

end Text

namespace Utf8

theorem encode_of_lt {cs : List Char} (h : ∀ c ∈ cs, c.toNat < 128) :
    encode cs = cs.map fun c => UInt8.ofNat c.toNat := by
  induction cs with
  | nil => rfl
  | cons c cs ih =>
    have hc := h c List.mem_cons_self
    obtain ⟨-, hbytes⟩ | ⟨hge, -⟩ := encodeChar_cases c
    · rw [encode, List.flatMap_cons, hbytes, List.map_cons,
        ← ih fun d hd => h d (List.mem_cons_of_mem _ hd)]
      rfl
    · omega

theorem isAscii_encode {cs : List Char} (h : (Text.ofChars cs).IsAscii) :
    Bytes.IsAscii (encode cs) := by
  have hcs := Text.isAscii_ofChars.mp h
  intro b hb
  rw [encode_of_lt hcs] at hb
  obtain ⟨c, hc, rfl⟩ := List.mem_map.mp hb
  have hlt := hcs c hc
  rw [UInt8.toNat_ofNat']
  omega

/-- Each byte is a character, and so are they together. -/
theorem exists_encode {bytes : Bytes} (h : bytes.IsAscii) :
    ∃ cs, bytes = encode cs ∧ (Text.ofChars cs).IsAscii := by
  have hchar : ∀ n < 128, (Char.ofNat n).toNat = n := by decide
  have hlt : ∀ c ∈ bytes.map fun b => Char.ofNat b.toNat, c.toNat < 128 := by
    intro c hc
    obtain ⟨b, hb, rfl⟩ := List.mem_map.mp hc
    rw [hchar _ (h b hb)]
    exact h b hb
  refine ⟨_, ?_, Text.isAscii_ofChars.mpr hlt⟩
  rw [encode_of_lt hlt, List.map_map, List.map_congr_left fun b hb => ?_, List.map_id]
  rw [Function.comp_apply, hchar _ (h b hb), UInt8.ofNat_toNat, id]

theorem encode?_ascii {t : Text} (h : t.IsAscii) :
    ∃ bytes, encode? t = some bytes ∧ bytes.IsAscii := by
  obtain ⟨cs, rfl⟩ := h.exists_chars
  exact ⟨_, encode?_ofChars cs, isAscii_encode h⟩

theorem text?_ascii {bytes : Bytes} (h : bytes.IsAscii) :
    ∃ t, text? bytes = some t ∧ t.IsAscii := by
  obtain ⟨cs, rfl, hcs⟩ := exists_encode h
  exact ⟨_, text?_encode cs, hcs⟩

end Utf8

/-! ## Paths -/

namespace Path

/-- Each part is ASCII. -/
def IsAscii (p : Path) : Prop := ∀ part ∈ p.parts, part.IsAscii

instance (p : Path) : Decidable p.IsAscii := inferInstanceAs (Decidable (∀ part ∈ p.parts, _))

theorem mem_of_mem_splitOn {c : Char} {t piece : Text} (h : piece ∈ t.splitOn c) : piece ⊆ t := by
  induction t generalizing piece with
  | nil =>
    obtain rfl := List.mem_singleton.mp h
    exact List.nil_subset _
  | cons x t ih =>
    obtain ⟨first, rest, hsplit⟩ := List.exists_cons_of_ne_nil (Text.splitOn_ne_nil c t)
    rw [hsplit] at ih
    rw [Text.splitOn_cons hsplit] at h
    split at h
    · rcases List.mem_cons.mp h with rfl | h
      · exact List.nil_subset _
      · exact List.Subset.trans (ih h) (List.subset_cons_self _ _)
    · rcases List.mem_cons.mp h with rfl | h
      · exact List.cons_subset_cons _ (ih List.mem_cons_self)
      · exact List.Subset.trans (ih (List.mem_cons_of_mem _ h)) (List.subset_cons_self _ _)

theorem isAscii_ofText {t : Text} (h : t.IsAscii) : (ofText t).IsAscii := fun _ hp =>
  h.of_subset (mem_of_mem_splitOn (List.mem_filter.mp hp).1)

theorem IsAscii.div {p : Path} (h : p.IsAscii) {t : Text} (ht : t.IsAscii) :
    (p / t).IsAscii := by
  show (p.append t).IsAscii
  rw [append]
  split
  · exact List.forall_mem_append.mpr ⟨h, isAscii_ofText ht⟩
  · exact isAscii_ofText ht

theorem resolveParts_subset (parts : List Text) : resolveParts parts ⊆ parts := by
  have hfold : ∀ parts stack : List Text, parts.foldl push stack ⊆ parts ++ stack := by
    intro parts
    induction parts with
    | nil => exact fun stack => List.Subset.refl _
    | cons part parts ih =>
      refine fun stack => List.Subset.trans (ih (push stack part)) fun q hq => ?_
      rcases List.mem_append.mp hq with hq | hq
      · exact List.mem_append_left _ (List.mem_cons_of_mem _ hq)
      · unfold push at hq
        split at hq
        · exact List.mem_append_right _ (List.mem_of_mem_drop hq)
        · rcases List.mem_cons.mp hq with rfl | hq
          · exact List.mem_cons_self
          · exact List.mem_append_right _ hq
  intro part hp
  simpa using hfold parts [] (List.mem_reverse.mp hp)

theorem IsAscii.resolve {p cwd : Path} (h : p.IsAscii) (hcwd : cwd.IsAscii) :
    (p.resolve cwd).IsAscii := by
  intro part hp
  have hmem := resolveParts_subset _ hp
  split at hmem
  · exact h part hmem
  · exact (List.mem_append.mp hmem).elim (hcwd part) (h part)

theorem isAscii_relativeTo {target cwd : Path} (start : Path) (ht : target.IsAscii)
    (hcwd : cwd.IsAscii) : (target.relativeTo start cwd).IsAscii := by
  have hway : ∀ part ∈ wayTo target start cwd, part.IsAscii := by
    intro part hp
    obtain ⟨common, -, hdown⟩ :=
      dropCommon_eq (start.resolve cwd).parts (target.resolve cwd).parts
    rcases List.mem_append.mp hp with hup | hmem
    · obtain ⟨_, -, rfl⟩ := List.mem_map.mp hup
      exact (by decide : Text.IsAscii "..")
    · exact ht.resolve hcwd part (hdown ▸ List.mem_append_right _ hmem)
  rw [relativeTo_eq]
  split
  · exact (by decide : Text.IsAscii ".")
  · intro x hx
    rcases Text.mem_join hx with hslash | ⟨part, hp, hx⟩
    · exact (by decide : Text.IsAscii "/") x hslash
    · exact hway part hp x hx

end Path

/-! ## Specifiers -/

/-- The names and places of the merged tree are ASCII. -/
structure Layout.IsAscii (layout : Layout) : Prop where
  root : layout.root.IsAscii
  cwd : layout.cwd.IsAscii
  names : ∀ l ∈ layout.libraries, l.shortName.IsAscii

variable {layout : Layout} {directory : Path}

theorem Layout.IsAscii.resolve? (h : layout.IsAscii) {specifier t : Text}
    (hs : specifier.IsAscii) (ht : layout.resolve? specifier directory = some t) : t.IsAscii := by
  obtain ⟨l, hprovider, rfl⟩ := Option.map_eq_some_iff.mp ht
  have hl := h.root.div (h.names l (mem_of_provider? hprovider).1)
  have hplace : (layout.place l specifier).IsAscii := by
    rw [place]
    split
    · exact hl.div (by decide)
    · exact hl.div (hs.of_subset (List.drop_subset _ _))
  have hrelative := Path.isAscii_relativeTo directory hplace h.cwd
  rw [dotted]
  split
  · exact hrelative
  · exact Text.isAscii_append.mpr ⟨by decide, hrelative⟩

/-! ## Edits -/

namespace Redirection

variable {source : Bytes}

/-- A reference anywhere in the text is none of a library, or has its redirection. -/
theorem ofReference?_ascii (h : layout.IsAscii) (hsource : source.IsAscii)
    (r : TypeScript.Reference) :
    ∀ x ∈ ofReference? layout directory source r,
      ∃ q, x = .ok q ∧ q.quoted.IsAscii ∧ q.replacement.IsAscii := by
  have hslice : (r.literal.bytes source).IsAscii := fun b hb =>
    hsource b (List.mem_of_mem_take (List.mem_of_mem_drop hb))
  obtain ⟨quoted, hquoted, hq⟩ := Utf8.text?_ascii hslice
  have hspecifier : (unquoted quoted).IsAscii :=
    hq.of_subset (List.Subset.trans (List.dropLast_subset _) (List.drop_subset _ _))
  intro x hx
  rw [ofReference?, hquoted] at hx
  obtain ⟨t, ht, rfl⟩ := Option.map_eq_some_iff.mp hx
  exact ⟨_, rfl, hq, h.resolve? hspecifier ht⟩

theorem isAscii_note {quoted : Text} (h : quoted.IsAscii) (source : Bytes) (position : Nat) :
    (note quoted source position).IsAscii := by
  have hbefore : ∀ opening : Text, opening.IsAscii →
      (opening ++ noteText ++ (" " : Text) ++ quoted).IsAscii := fun opening ho =>
    Text.isAscii_append.mpr ⟨Text.isAscii_append.mpr
      ⟨Text.isAscii_append.mpr ⟨ho, by decide +kernel⟩, by decide⟩, h⟩
  rw [note]
  split
  · exact hbefore _ (by decide)
  · exact Text.isAscii_append.mpr ⟨hbefore _ (by decide), by decide⟩

theorem edits_ascii {q : Redirection} (source : Bytes) (hq : q.quoted.IsAscii)
    (hr : q.replacement.IsAscii) :
    ∃ es, q.edits source = .ok es ∧ ∀ e ∈ es, e.replacement.IsAscii := by
  have hquote : Text.IsAscii (q.quoted.take 1) := hq.of_subset (List.take_subset _ _)
  have hliteral : q.literal.IsAscii :=
    Text.isAscii_append.mpr ⟨Text.isAscii_append.mpr ⟨hquote, hr⟩, hquote⟩
  obtain ⟨new, hnew, hnew'⟩ := Utf8.encode?_ascii hliteral
  obtain ⟨behind, hbehind, hbehind'⟩ := Utf8.encode?_ascii
    (isAscii_note hq source q.reference.statement.stop)
  refine ⟨_, by rw [edits, hnew, hbehind]; rfl, fun e he => ?_⟩
  rcases List.mem_pair.mp he with rfl | rfl
  · exact hnew'
  · exact hbehind'

theorem collect_ascii (source : Bytes) (file : Text)
    {rs : List (Except RedirectionFault Redirection)}
    (h : ∀ x ∈ rs, ∃ q, x = .ok q ∧ q.quoted.IsAscii ∧ q.replacement.IsAscii) :
    ∃ es, (collect source file rs).2 = .ok es ∧ ∀ e ∈ es, e.replacement.IsAscii := by
  induction rs with
  | nil => exact ⟨[], rfl, fun _ he => absurd he List.not_mem_nil⟩
  | cons x rs ih =>
    obtain ⟨q, rfl, hq, hr⟩ := h x List.mem_cons_self
    obtain ⟨es, hes, hfirst⟩ := edits_ascii source hq hr
    obtain ⟨es', hes', hrest⟩ := ih fun y hy => h y (List.mem_cons_of_mem _ hy)
    refine ⟨es ++ es', ?_, List.forall_mem_append.mpr ⟨hfirst, hrest⟩⟩
    rw [collect, hes]
    dsimp only
    rw [hes']
    rfl

end Redirection

theorem Edit.applyAll_ascii {es : List Edit} {source : Bytes} (hsource : source.IsAscii)
    (h : ∀ e ∈ es, e.replacement.IsAscii) : (applyAll es source).IsAscii := by
  have hfold : ∀ (es : List Edit) (source : Bytes), source.IsAscii →
      (∀ e ∈ es, e.replacement.IsAscii) →
      (es.foldl (fun bytes e => e.apply bytes) source).IsAscii := by
    intro es
    induction es with
    | nil => exact fun source hsource _ => hsource
    | cons e es ih =>
      intro source hsource h
      refine ih _ (fun b hb => ?_) fun e' he' => h e' (List.mem_cons_of_mem _ he')
      rcases List.mem_append.mp hb with hb | hb
      · rcases List.mem_append.mp hb with hb | hb
        · exact hsource b (List.mem_of_mem_take hb)
        · exact h e List.mem_cons_self b hb
      · exact hsource b (List.mem_of_mem_drop hb)
  exact hfold _ source hsource fun e he => h e (List.mem_mergeSort.mp he)

/-! ## Texts -/

/-- **Redirecting an ASCII text along any tree gives an ASCII text.**  The ranges of the tree may
be wrong, and the redirections may overlap. -/
theorem Layout.redirectTree_ascii (h : layout.IsAscii) {source : Bytes} (hsource : source.IsAscii)
    (tree : TypeScript.Node) (directory : Path) (file : Text) :
    ∃ out, (layout.redirectTree source tree directory file).2 = .ok out ∧ out.IsAscii := by
  have hfound : ∀ x ∈ (TypeScript.moduleReferences source tree).filterMap
      (Redirection.ofReference? layout directory source),
      ∃ q, x = .ok q ∧ q.quoted.IsAscii ∧ q.replacement.IsAscii := by
    intro x hx
    obtain ⟨r, -, hr⟩ := List.mem_filterMap.mp hx
    exact Redirection.ofReference?_ascii h hsource r x hr
  obtain ⟨es, hes, hascii⟩ := Redirection.collect_ascii source file hfound
  refine ⟨Edit.applyAll es source, ?_, Edit.applyAll_ascii hsource hascii⟩
  rw [redirectTree]
  dsimp only
  rw [hes]
  rfl

namespace Assembly.Rules

/-- The bytes of a source, redirected for a directory. -/
@[irreducible]
def redirected (r : Rules) (directory : Path) (bytes : Bytes) : Bytes :=
  (r.redirected? directory bytes).getD []

/-- An ASCII source can be redirected, unless damage is refused. -/
theorem redirected?_ascii {r : Rules} (h : r.layout.IsAscii) (hlenient : r.strict = false)
    {bytes : Bytes} (hbytes : bytes.IsAscii) (directory : Path) :
    r.redirected? directory bytes = some (r.redirected directory bytes) := by
  obtain ⟨cs, rfl, -⟩ := Utf8.exists_encode hbytes
  obtain ⟨out, hout, hascii⟩ :=
    Layout.redirectTree_ascii h hbytes (TypeScript.parse cs) directory Layout.noFile
  obtain ⟨t, ht, htext⟩ := Utf8.text?_ascii hascii
  obtain ⟨out', hout', -⟩ := Utf8.encode?_ascii htext
  have hredirect : (r.layout.redirect r.strict (Text.ofChars cs) directory Layout.noFile).2 =
      .ok t := by
    rw [hlenient, Layout.redirect_eq, hout]
    dsimp only
    rw [ht]
    rfl
  have hresult : r.redirected? directory (Utf8.encode cs) = some out' := by
    rw [redirected?, Utf8.decode?_encode]
    dsimp only [bind, Option.bind]
    rw [hredirect]
    exact hout'
  rw [redirected, hresult, Option.getD_some]

end Assembly.Rules

end UberPackage
